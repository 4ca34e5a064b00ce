import Intcode.Proofs.Literal

namespace Intcode

namespace Text

/-- The four information separators: blanks that are not skipped beside a number. -/
def isInformationSeparator (c : Char) : Bool := 0x1C ≤ c.toNat && c.toNat ≤ 0x1F

theorem isBlank_of_isInformationSeparator {c : Char} (h : isInformationSeparator c = true) :
    isBlank c = true := by
  have hb : 0x1C ≤ c.toNat ∧ c.toNat ≤ 0x1F := by simpa [isInformationSeparator] using h
  simp [isBlank, hb.1, show c.toNat ≤ 0x20 by omega]

theorem decimalDigit?_of_isBlank {c : Char} (h : isBlank c = true) : decimalDigit? c = none := by
  have hapart : ∀ first ∈ zeroDigits, ∀ d < 10, isBlank (Char.ofNat (first + d)) = false := by
    decide +kernel
  rw [decimalDigit?, Option.map_eq_none_iff, List.find?_eq_none]
  intro first hfirst hrange
  simp only [Bool.and_eq_true, decide_eq_true_eq] at hrange
  have hc := hapart first hfirst (c.toNat - first) (by omega)
  rw [show first + (c.toNat - first) = c.toNat by omega, Char.ofNat_toNat, h] at hc
  cases hc

end Text

namespace Numeral

/-- A blank is skipped beside a number, unless it is an information separator. -/
theorem plainChar_of_isBlank {c : Char} (h : Text.isBlank c = true) :
    plainChar c = if Text.isInformationSeparator c then c else ' ' := by
  rw [plainChar, Text.decimalDigit?_of_isBlank h]
  simp only [h, Bool.true_and, Text.isInformationSeparator]
  by_cases hs : (decide (0x1C ≤ c.toNat) && decide (c.toNat ≤ 0x1F)) = true <;> simp [hs]

theorem digitIn?_space (base : Nat) : digitIn? base ' ' = none := by
  simp [digitIn?]

theorem scanDigits_spaces {base : Nat} {spaces : List Char} (h : ∀ c ∈ spaces, c = ' ')
    (need : Bool) (cs : List Char) :
    scanDigits base need (cs ++ spaces) =
      (scanDigits base need cs).map fun scanned => (scanned.1, scanned.2 ++ spaces) := by
  induction cs generalizing need with
  | nil =>
    cases spaces with
    | nil => cases need <;> rfl
    | cons c spaces =>
      obtain rfl : c = ' ' := h c List.mem_cons_self
      cases need <;> simp [scanDigits, digitIn?_space]
  | cons c cs ih =>
    rw [List.cons_append, scanDigits, scanDigits]
    split
    next => split <;> simp [ih]
    next =>
      split
      next => simp [ih, Function.comp_def]
      next => split <;> simp

theorem readDigits_spaces {spaces : List Char} (h : ∀ c ∈ spaces, c = ' ') (text text' : String)
    (form : Form) (cs : List Char) {n : Nat} :
    readDigits text form (cs ++ spaces) = .ok n ↔ readDigits text' form cs = .ok n := by
  have hall : spaces.all (· = ' ') = true := by simpa using h
  unfold readDigits
  rw [scanDigits_spaces h]
  cases scanDigits form.base true cs with
  | none => exact iff_of_false nofun nofun
  | some scanned =>
    simp only [Option.map_some, List.all_append, hall, Bool.and_true]
    split
    next => exact iff_of_false nofun nofun
    next =>
      split
      next => exact Iff.rfl
      next => exact iff_of_false nofun nofun

theorem splitSign_append {cs : List Char} (hne : cs ≠ []) (rest : List Char) :
    splitSign (cs ++ rest) = ((splitSign cs).1, (splitSign cs).2 ++ rest) := by
  cases cs with
  | nil => exact absurd rfl hne
  | cons c cs =>
    by_cases hplus : c = '+'
    · rw [hplus]
      rfl
    by_cases hminus : c = '-'
    · rw [hminus]
      rfl
    rw [List.cons_append, splitSign_of_ne _ hplus hminus, splitSign_of_ne _ hplus hminus,
      List.cons_append]

/-- What is skipped around a text that neither starts nor ends with a blank does not matter. -/
theorem readDecimal_between {before cs after : List Char} (hcs : Text.Tight cs) (hne : cs ≠ [])
    (hb : ∀ c ∈ before, plainChar c = ' ') (ha : ∀ c ∈ after, plainChar c = ' ') {n : Int} :
    readDecimal (before ++ cs ++ after) = .ok n ↔ readDecimal cs = .ok n := by
  have hspaces : ∀ c ∈ after.map plainChar, c = ' ' := by simpa using ha
  obtain ⟨c, rest, rfl⟩ := List.exists_cons_of_ne_nil hne
  have hc := hcs.start c rfl
  have hsigned : signed (c :: rest) = splitSign ((c :: rest).map plainChar) :=
    signed_behind (List.forall_mem_nil _) hc rest
  have hbetween : signed (before ++ c :: rest ++ after) =
      ((signed (c :: rest)).1, (signed (c :: rest)).2 ++ after.map plainChar) := by
    rw [List.append_assoc, List.cons_append, signed_behind hb hc, ← List.map_cons,
      ← List.cons_append, List.map_append, splitSign_append (by simp), hsigned]
  rw [readDecimal_iff_readDigits, readDecimal_iff_readDigits, hbetween]
  simp only [readDigits_spaces hspaces _ (String.ofList (c :: rest))]

theorem scanDigits_taken {base : Nat} {need : Bool} {cs rest : List Char} {ds : List Nat}
    (h : scanDigits base need cs = some (ds, rest)) {c : Char} (hc : c ∈ cs) :
    c ∈ rest ∨ c = '_' ∨ digitIn? base c ≠ none := by
  induction cs generalizing need ds with
  | nil => cases hc
  | cons d cs ih =>
    rw [scanDigits] at h
    split at h
    next hu =>
      split at h
      next => cases h
      next =>
        rcases List.mem_cons.mp hc with rfl | hc
        · exact .inr (.inl hu)
        · exact ih h hc
    next =>
      split at h
      next k hd =>
        obtain ⟨⟨ds', rest'⟩, hs, he⟩ := Option.map_eq_some_iff.mp h
        cases he
        rcases List.mem_cons.mp hc with rfl | hc
        · exact .inr (.inr (by rw [hd]; exact Option.some_ne_none k))
        · exact ih hs hc
      next =>
        split at h
        next => cases h
        next =>
          cases h
          exact .inl hc

theorem readDigits_taken {text : String} {form : Form} {cs : List Char} {n : Nat}
    (h : readDigits text form cs = .ok n) {c : Char} (hc : c ∈ cs) :
    c = ' ' ∨ c = '_' ∨ digitIn? form.base c ≠ none := by
  unfold readDigits at h
  split at h
  next => cases h
  next ds rest hs =>
    split at h
    next => cases h
    next =>
      split at h
      next hall =>
        have hspace := List.all_eq_true.mp (Bool.and_eq_true_iff.mp hall).1
        exact (scanDigits_taken hs hc).imp_left fun hrest => of_decide_eq_true (hspace c hrest)
      next => cases h

theorem mem_splitSign {cs : List Char} {c : Char} (h : c ∈ cs) :
    c = '+' ∨ c = '-' ∨ c ∈ (splitSign cs).2 := by
  unfold splitSign
  split
  next => exact (List.mem_cons.mp h).imp_right .inr
  next => exact .inr (List.mem_cons.mp h)
  next => exact .inr (.inr h)

/-- A number is read of nothing but digits, underscores, signs and what is skipped. -/
theorem readDecimal_taken {cs : List Char} {n : Int} (h : readDecimal cs = .ok n) {c : Char}
    (hc : c ∈ cs) :
    plainChar c ∈ [' ', '+', '-', '_'] ∨ Text.decimalDigit? c ≠ none := by
  obtain ⟨k, hk, _⟩ := readDecimal_iff_readDigits.mp h
  have hplain : plainChar c ∈ cs.map plainChar := List.mem_map_of_mem hc
  rw [← List.takeWhile_append_dropWhile (p := fun c => decide (c = ' '))
    (l := cs.map plainChar)] at hplain
  rcases List.mem_append.mp hplain with hskipped | hrest
  · have hspace := List.all_eq_true.mp List.all_takeWhile (plainChar c) hskipped
    exact .inl (by simp [of_decide_eq_true hspace])
  · rcases mem_splitSign hrest with hplus | hminus | hdigits
    · exact .inl (by simp [hplus])
    · exact .inl (by simp [hminus])
    · rcases readDigits_taken hk hdigits with hspace | hu | hdigit
      · exact .inl (by simp [hspace])
      · exact .inl (by simp [hu])
      · exact .inr (by rwa [← digitIn?_plainChar])

theorem no_separator_of_readDecimal {cs : List Char} {n : Int} (h : readDecimal cs = .ok n) :
    ∀ c ∈ cs, Text.isInformationSeparator c = false := by
  intro c hc
  rw [← Bool.not_eq_true]
  intro hs
  have hblank := Text.isBlank_of_isInformationSeparator hs
  rcases readDecimal_taken h hc with hmark | hdigit
  · rw [plainChar_of_isBlank hblank, if_pos hs] at hmark
    simp only [List.mem_cons, List.not_mem_nil, or_false] at hmark
    rcases hmark with rfl | rfl | rfl | rfl <;> exact absurd hs (by decide)
  · exact hdigit (Text.decimalDigit?_of_isBlank hblank)

/-- A text that is not blank is read where it is a literal between blanks that are skipped. -/
theorem readDecimal_eq_ok_iff {cs : List Char} (h : Text.trim cs ≠ []) {n : Int} :
    readDecimal cs = .ok n ↔
      Literal (Text.trim cs) n ∧ ∀ c ∈ cs, Text.isInformationSeparator c = false := by
  rw [← readDecimal_eq_ok (Text.tight_trim cs)]
  obtain ⟨before, after, hb, ha, hcs⟩ := Text.trim_split cs
  have hread (hsep : ∀ c ∈ cs, Text.isInformationSeparator c = false) :
      readDecimal cs = .ok n ↔ readDecimal (Text.trim cs) = .ok n := by
    have hskip {blanks : List Char} (hblank : ∀ c ∈ blanks, Text.isBlank c = true)
        (hmem : ∀ c ∈ blanks, c ∈ cs) : ∀ c ∈ blanks, plainChar c = ' ' := by
      intro c hc
      rw [plainChar_of_isBlank (hblank c hc), hsep c (hmem c hc)]
      rfl
    have hbetween := readDecimal_between (Text.tight_trim cs) h
      (hskip hb fun c hc => by rw [hcs]; simp [hc])
      (hskip ha fun c hc => by rw [hcs]; simp [hc]) (n := n)
    rwa [← hcs] at hbetween
  constructor
  · intro hok
    have hsep := no_separator_of_readDecimal hok
    exact ⟨(hread hsep).mp hok, hsep⟩
  · rintro ⟨hok, hsep⟩
    exact (hread hsep).mpr hok

end Numeral

end Intcode
