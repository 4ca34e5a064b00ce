import Intcode.Proofs.Decimal

namespace Intcode

namespace Numeral

/-- Decimal digits of any script and their values; one underscore may stand between two of them. -/
inductive Digits : List Char → List Nat → Prop
  | last {c : Char} {d : Nat} : Text.decimalDigit? c = some d → Digits [c] [d]
  | next {c : Char} {d : Nat} {cs : List Char} {ds : List Nat} :
      Text.decimalDigit? c = some d → Digits cs ds → Digits (c :: cs) (d :: ds)
  | joined {c : Char} {d : Nat} {cs : List Char} {ds : List Nat} :
      Text.decimalDigit? c = some d → Digits cs ds → Digits (c :: '_' :: cs) (d :: ds)

/-- The text is digits of this number, and no more of them than a numeral may have. -/
def Unsigned (cs : List Char) (n : Nat) : Prop :=
  ∃ ds, Digits cs ds ∧ ds.length ≤ digitLimit ∧ ofDigits 10 ds = n

/-- The text is a decimal numeral of this number: digits with or without a sign. -/
inductive Literal : List Char → Int → Prop
  | unsigned {cs : List Char} {n : Nat} : Unsigned cs n → Literal cs n
  | plus {cs : List Char} {n : Nat} : Unsigned cs n → Literal ('+' :: cs) n
  | minus {cs : List Char} {n : Nat} : Unsigned cs n → Literal ('-' :: cs) (-n)

theorem decimalDigit?_lt {c : Char} {d : Nat} (h : Text.decimalDigit? c = some d) : d < 10 := by
  obtain ⟨first, hfirst, rfl⟩ := Option.map_eq_some_iff.mp h
  have hrange := List.find?_some hfirst
  simp only [Bool.and_eq_true, decide_eq_true_eq] at hrange
  omega

theorem plainChar_of_digit {c : Char} {d : Nat} (h : Text.decimalDigit? c = some d) :
    plainChar c = Nat.digitChar d := by
  rw [plainChar, h]

theorem digitIn?_plainChar (c : Char) : digitIn? 10 (plainChar c) = Text.decimalDigit? c := by
  cases hd : Text.decimalDigit? c with
  | some d =>
    have hdigit : ∀ d < 10, digitIn? 10 (Nat.digitChar d) = some d := by decide
    rw [plainChar_of_digit hd]
    exact hdigit d (decimalDigit?_lt hd)
  | none =>
    have hc : c.isDigit = false := by
      rw [← Bool.not_eq_true]
      intro h
      rw [decimalDigit?_of_isDigit h] at hd
      cases hd
    rw [plainChar, hd]
    simp only
    split
    next => decide
    next =>
      simp only [digitIn?, hc, Bool.false_eq_true, if_false]
      rw [if_neg]
      split
      · omega
      · split <;> omega

theorem isBlank_of_plainChar {c : Char} (h : plainChar c = ' ') : Text.isBlank c = true := by
  cases hd : Text.decimalDigit? c with
  | some d =>
    have hne : ∀ d < 10, Nat.digitChar d ≠ ' ' := by decide
    rw [plainChar_of_digit hd] at h
    exact absurd h (hne d (decimalDigit?_lt hd))
  | none =>
    rw [plainChar, hd] at h
    simp only at h
    split at h
    next hb => exact (Bool.and_eq_true_iff.mp hb).1
    next =>
      rw [h]
      decide

theorem plainChar_eq_mark {c mark : Char} (hm : mark ∈ ['_', '+', '-']) :
    plainChar c = mark ↔ c = mark := by
  obtain ⟨hplain, hspace, hdigit⟩ : plainChar mark = mark ∧ mark ≠ ' ' ∧
      ∀ d < 10, Nat.digitChar d ≠ mark := by
    simp only [List.mem_cons, List.not_mem_nil, or_false] at hm
    rcases hm with rfl | rfl | rfl <;> exact ⟨by decide, by decide, by decide⟩
  constructor
  · intro h
    cases hd : Text.decimalDigit? c with
    | some d =>
      rw [plainChar_of_digit hd] at h
      exact absurd h (hdigit d (decimalDigit?_lt hd))
    | none =>
      rw [plainChar, hd] at h
      simp only at h
      split at h
      next => exact absurd h.symm hspace
      next => exact h
  · rintro rfl
    exact hplain

/-- What may stand behind a digit: nothing, or digits with or without an underscore before them. -/
def Behind (cs : List Char) (ds : List Nat) : Prop :=
  cs = [] ∧ ds = [] ∨ Digits cs ds ∨ ∃ rest, cs = '_' :: rest ∧ Digits rest ds

theorem digits_cons {c : Char} {cs : List Char} {ds : List Nat} :
    Digits (c :: cs) ds ↔
      ∃ d rest, Text.decimalDigit? c = some d ∧ ds = d :: rest ∧ Behind cs rest := by
  constructor
  · intro h
    cases h with
    | last hd => exact ⟨_, [], hd, rfl, .inl ⟨rfl, rfl⟩⟩
    | next hd h => exact ⟨_, _, hd, rfl, .inr (.inl h)⟩
    | joined hd h => exact ⟨_, _, hd, rfl, .inr (.inr ⟨_, rfl, h⟩)⟩
  · rintro ⟨d, rest, hd, rfl, ⟨rfl, rfl⟩ | h | ⟨cs, rfl, h⟩⟩
    · exact .last hd
    · exact .next hd h
    · exact .joined hd h

/-- The scan takes in a whole text where that is digits, or may stand behind a digit. -/
theorem scanDigits_whole {cs : List Char} {ds : List Nat} :
    (scanDigits 10 true (cs.map plainChar) = some (ds, []) ↔ Digits cs ds) ∧
      (scanDigits 10 false (cs.map plainChar) = some (ds, []) ↔ Behind cs ds) := by
  induction cs generalizing ds with
  | nil =>
    refine ⟨iff_of_false (by simp [scanDigits]) nofun, ?_⟩
    have hnone : ¬ (Digits [] ds ∨ ∃ rest, [] = '_' :: rest ∧ Digits rest ds) := by
      rintro (h | ⟨_, h, _⟩) <;> cases h
    rw [Behind, or_iff_left hnone]
    simp [scanDigits, eq_comm]
  | cons c cs ih =>
    rw [List.map_cons]
    by_cases hu : c = '_'
    · subst hu
      have hmark : plainChar '_' = '_' := (plainChar_eq_mark (by decide)).mpr rfl
      have hnone : ∀ ds, ¬ Digits ('_' :: cs) ds := by
        intro ds h
        obtain ⟨d, _, hd, _⟩ := digits_cons.mp h
        have hnot : Text.decimalDigit? '_' = none := by decide
        cases hnot.symm.trans hd
      refine ⟨iff_of_false (by simp [scanDigits, hmark]) (hnone ds), ?_⟩
      rw [scanDigits, if_pos hmark, if_neg Bool.false_ne_true, ih.1, Behind]
      simp [hnone]
    · have hmark : plainChar c ≠ '_' := mt (plainChar_eq_mark (by decide)).mp hu
      have hbehind : Behind (c :: cs) ds ↔ Digits (c :: cs) ds := by
        simp [Behind, hu]
      rw [hbehind, digits_cons, scanDigits, scanDigits, if_neg hmark, if_neg hmark,
        digitIn?_plainChar]
      cases hd : Text.decimalDigit? c with
      | none => simp
      | some d =>
        simp only
        refine and_self_iff.mpr (Option.map_eq_some_iff.trans ?_)
        constructor
        · rintro ⟨⟨rest, left⟩, hrest, he⟩
          obtain ⟨rfl, rfl⟩ := Prod.mk.inj he
          exact ⟨d, rest, rfl, rfl, ih.2.mp hrest⟩
        · rintro ⟨_, rest, ⟨⟩, rfl, hrest⟩
          exact ⟨(rest, []), ih.2.mpr hrest, rfl⟩

theorem scanDigits_suffix {base : Nat} {need : Bool} {cs rest : List Char} {ds : List Nat}
    (h : scanDigits base need cs = some (ds, rest)) : rest <:+ cs := by
  induction cs generalizing need ds with
  | nil =>
    cases need
    · cases h
      exact List.suffix_refl []
    · cases h
  | cons c cs ih =>
    rw [scanDigits] at h
    split at h
    next =>
      split at h
      next => cases h
      next => exact (ih h).trans (List.suffix_cons c cs)
    next =>
      split at h
      next d _ =>
        obtain ⟨⟨ds', rest'⟩, hs, he⟩ := Option.map_eq_some_iff.mp h
        cases he
        exact (ih hs).trans (List.suffix_cons c cs)
      next =>
        split at h
        next => cases h
        next =>
          cases h
          exact List.suffix_refl _

theorem scanDigits_rest {cs rest : List Char} {base : Nat} {need : Bool} {ds : List Nat}
    (hstop : ∀ c ∈ cs.getLast?, Text.isBlank c = false)
    (hs : scanDigits base need (cs.map plainChar) = some (ds, rest))
    (hall : rest.all (· = ' ') = true) : rest = [] := by
  rcases List.eq_nil_or_concat rest with hnil | ⟨init, last, rfl⟩
  · exact hnil
  · have hlast : last = ' ' := by simpa using List.all_eq_true.mp hall last (by simp)
    obtain ⟨front, hfront⟩ := scanDigits_suffix hs
    have hend : (cs.map plainChar).getLast? = some last := by
      rw [← hfront, List.concat_eq_append, ← List.append_assoc, List.getLast?_concat]
    rw [List.getLast?_map, Option.map_eq_some_iff] at hend
    obtain ⟨c, hc, rfl⟩ := hend
    have hblank := isBlank_of_plainChar hlast
    rw [hstop c hc] at hblank
    cases hblank

theorem readDigits_eq_ok {cs : List Char} (hstop : ∀ c ∈ cs.getLast?, Text.isBlank c = false)
    (text : String) (n : Nat) :
    readDigits text .decimal (cs.map plainChar) = .ok n ↔ Unsigned cs n := by
  unfold readDigits Unsigned
  have hwhole {ds : List Nat} :
      scanDigits 10 true (cs.map plainChar) = some (ds, []) ↔ Digits cs ds := scanDigits_whole.1
  cases hs : scanDigits Form.decimal.base true (cs.map plainChar) with
  | none =>
    refine iff_of_false nofun ?_
    rintro ⟨ds, hds, _⟩
    cases hs.symm.trans (hwhole.mpr hds)
  | some scanned =>
    obtain ⟨ds, rest⟩ := scanned
    simp only
    constructor
    · intro h
      split at h
      next => cases h
      next hlimit =>
        split at h
        next hall =>
          cases h
          obtain rfl := scanDigits_rest hstop hs (Bool.and_eq_true_iff.mp hall).1
          exact ⟨ds, hwhole.mp hs, by simpa [Form.isLimited] using hlimit, rfl⟩
        next => cases h
    · rintro ⟨ds', hds, hlimit, rfl⟩
      cases hs.symm.trans (hwhole.mpr hds)
      rw [if_neg (by simpa [Form.isLimited] using hlimit)]
      rfl

theorem splitSign_of_ne {c : Char} (cs : List Char) (hplus : c ≠ '+') (hminus : c ≠ '-') :
    splitSign (c :: cs) = (false, c :: cs) := by
  unfold splitSign
  split
  next he => exact absurd (List.cons.inj he).1 hplus
  next he => exact absurd (List.cons.inj he).1 hminus
  next => rfl

theorem unsigned_digit {c : Char} {cs : List Char} {n : Nat} (h : Unsigned (c :: cs) n) :
    Text.decimalDigit? c ≠ none := by
  obtain ⟨ds, hds, _⟩ := h
  obtain ⟨d, _, hd, _⟩ := digits_cons.mp hds
  rw [hd]
  exact Option.some_ne_none d

theorem literal_plus {cs : List Char} {n : Int} :
    Literal ('+' :: cs) n ↔ ∃ k, Unsigned cs k ∧ applySign false k = n := by
  constructor
  · intro h
    cases h with
    | unsigned h => exact absurd (by decide) (unsigned_digit h)
    | plus h => exact ⟨_, h, rfl⟩
  · rintro ⟨k, h, rfl⟩
    exact .plus h

theorem literal_minus {cs : List Char} {n : Int} :
    Literal ('-' :: cs) n ↔ ∃ k, Unsigned cs k ∧ applySign true k = n := by
  constructor
  · intro h
    cases h with
    | unsigned h => exact absurd (by decide) (unsigned_digit h)
    | minus h => exact ⟨_, h, rfl⟩
  · rintro ⟨k, h, rfl⟩
    exact .minus h

theorem literal_of_ne {c : Char} {cs : List Char} {n : Int} (hplus : c ≠ '+') (hminus : c ≠ '-') :
    Literal (c :: cs) n ↔ ∃ k, Unsigned (c :: cs) k ∧ applySign false k = n := by
  constructor
  · intro h
    cases h with
    | unsigned h => exact ⟨_, h, rfl⟩
    | plus => exact absurd rfl hplus
    | minus => exact absurd rfl hminus
  · rintro ⟨k, h, rfl⟩
    exact .unsigned h

theorem not_literal_nil {n : Int} : ¬ Literal [] n := by
  intro h
  cases h with
  | unsigned h =>
    obtain ⟨ds, hds, _⟩ := h
    cases hds

theorem readDecimal_iff_readDigits {cs : List Char} {n : Int} :
    readDecimal cs = .ok n ↔ ∃ k, readDigits (String.ofList cs) .decimal (signed cs).2 = .ok k ∧
      applySign (signed cs).1 k = n := by
  rw [readDecimal]
  simp only
  cases readDigits (String.ofList cs) .decimal (signed cs).2 with
  | error e => simp [Except.map]
  | ok k => simp [Except.map]

/-- What is skipped before a text that does not start with a blank has no part in its number. -/
theorem signed_behind {before : List Char} {c : Char} (hb : ∀ d ∈ before, plainChar d = ' ')
    (hc : Text.isBlank c = false) (cs : List Char) :
    signed (before ++ c :: cs) = splitSign (plainChar c :: cs.map plainChar) := by
  have hspace : plainChar c ≠ ' ' := by
    intro h
    have hblank := isBlank_of_plainChar h
    rw [hc] at hblank
    cases hblank
  have hskipped : ∀ d ∈ before.map plainChar, decide (d = ' ') = true := by simpa using hb
  rw [signed, List.map_append, List.dropWhile_append_of_pos hskipped, List.map_cons,
    List.dropWhile_cons_of_neg (by simpa using hspace)]

/-- Among the texts that neither start nor end with a blank the literals are read, as their
numbers. -/
theorem readDecimal_eq_ok {cs : List Char} (h : Text.Tight cs) {n : Int} :
    readDecimal cs = .ok n ↔ Literal cs n := by
  cases cs with
  | nil => exact iff_of_false nofun not_literal_nil
  | cons c cs =>
    have hsigned : signed (c :: cs) = splitSign (plainChar c :: cs.map plainChar) :=
      signed_behind (List.forall_mem_nil _) (h.start c rfl) cs
    have hread {negative : Bool} {digits : List Char}
        (hsplit : signed (c :: cs) = (negative, digits.map plainChar))
        (hstop : ∀ c ∈ digits.getLast?, Text.isBlank c = false) :
        readDecimal (c :: cs) = .ok n ↔ ∃ k, Unsigned digits k ∧ applySign negative k = n := by
      rw [readDecimal_iff_readDigits, hsplit]
      simp only [readDigits_eq_ok hstop]
    have hbehind : ∀ d ∈ cs.getLast?, Text.isBlank d = false := by
      intro d hd
      exact h.stop d (by rw [List.getLast?_cons, hd]; rfl)
    by_cases hplus : c = '+'
    · subst hplus
      rw [literal_plus]
      refine hread ?_ hbehind
      rw [hsigned, (plainChar_eq_mark (by decide)).mpr (rfl : '+' = '+')]
      rfl
    by_cases hminus : c = '-'
    · subst hminus
      rw [literal_minus]
      refine hread ?_ hbehind
      rw [hsigned, (plainChar_eq_mark (by decide)).mpr (rfl : '-' = '-')]
      rfl
    rw [literal_of_ne hplus hminus]
    refine hread ?_ h.stop
    rw [hsigned, splitSign_of_ne _ (mt (plainChar_eq_mark (by decide)).mp hplus)
      (mt (plainChar_eq_mark (by decide)).mp hminus)]
    rfl

theorem Digits.not_mem {cs : List Char} {ds : List Nat} (h : Digits cs ds) {c : Char}
    (hc : Text.decimalDigit? c = none) (hu : c ≠ '_') : c ∉ cs := by
  have hne {d : Char} {k : Nat} (hd : Text.decimalDigit? d = some k) : c ≠ d := by
    rintro rfl
    cases hc.symm.trans hd
  induction h with
  | last hd => simp [hne hd]
  | next hd _ ih => simp [hne hd, ih]
  | joined hd _ ih => simp [hne hd, hu, ih]

theorem Literal.not_mem {cs : List Char} {n : Int} (h : Literal cs n) {c : Char}
    (hc : Text.decimalDigit? c = none) (hmark : c ≠ '_' ∧ c ≠ '+' ∧ c ≠ '-') : c ∉ cs := by
  obtain ⟨hu, hplus, hminus⟩ := hmark
  cases h with
  | unsigned h =>
    obtain ⟨ds, hds, _⟩ := h
    exact hds.not_mem hc hu
  | plus h | minus h =>
    obtain ⟨ds, hds, _⟩ := h
    simp [hds.not_mem hc hu, hplus, hminus]

end Numeral

end Intcode
