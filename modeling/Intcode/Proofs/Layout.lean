import Intcode.ProgramFile
import Intcode.Proofs.Literal
import Mathlib.Data.List.Forall2
import Mathlib.Logic.Relation

namespace Intcode

namespace Text

theorem unifyLineEnds_ne_nil {cs : List Char} (h : cs ≠ []) : unifyLineEnds cs ≠ [] := by
  fun_cases unifyLineEnds cs with
  | case1 => exact absurd rfl h
  | case2 | case3 | case4 => exact List.cons_ne_nil _ _

theorem isBlank_unifyLineEnds {cs : List Char} (h : ∀ c ∈ cs, isBlank c = true) :
    ∀ c ∈ unifyLineEnds cs, isBlank c = true := by
  intro c hc
  rcases mem_unifyLineEnds hc with hmem | rfl
  · exact h c hmem
  · decide

theorem ne_lineEnd_of_not_blank {c : Char} (h : isBlank c = false) : c ≠ '\r' ∧ c ≠ '\n' := by
  refine ⟨?_, ?_⟩ <;> rintro rfl <;> exact absurd h (by decide)

theorem Tight.unifyLineEnds {cs : List Char} (h : Tight cs) : Tight (unifyLineEnds cs) := by
  refine ⟨fun c hc => ?_, fun c hc => ?_⟩
  · cases cs with
    | nil => cases hc
    | cons d cs =>
      have hd := h.start d rfl
      rw [unifyLineEnds_cons (ne_lineEnd_of_not_blank hd).1] at hc
      cases hc
      exact hd
  · rcases List.eq_nil_or_concat cs with rfl | ⟨init, d, rfl⟩
    · cases hc
    · rw [List.concat_eq_append] at h hc
      have hd := h.stop d (List.getLast?_concat)
      obtain ⟨hreturn, hfeed⟩ := ne_lineEnd_of_not_blank hd
      have hhead : [d].head? ≠ some '\n' := fun he => hfeed (Option.some.inj he)
      rw [unifyLineEnds_append (.inr hhead), unifyLineEnds_cons hreturn] at hc
      have hcd : some d = some c := List.getLast?_concat.symm.trans hc
      cases hcd
      exact hd

theorem trim_unifyLineEnds (cs : List Char) :
    trim (unifyLineEnds cs) = unifyLineEnds (trim cs) := by
  obtain ⟨before, after, hb, ha, hcs⟩ := trim_split cs
  have htight := tight_trim cs
  generalize trim cs = core at hcs htight ⊢
  subst hcs
  cases core with
  | nil =>
    refine trim_of_blank (isBlank_unifyLineEnds fun c hc => ?_)
    rw [List.append_nil] at hc
    exact (List.mem_append.mp hc).elim (hb c) (ha c)
  | cons c core =>
    have hhead : (c :: core ++ after).head? ≠ some '\n' := fun he =>
      (ne_lineEnd_of_not_blank (htight.start c rfl)).2 (Option.some.inj he)
    have hlast : (c :: core).getLast? ≠ some '\r' := fun he =>
      (ne_lineEnd_of_not_blank (htight.stop _ he)).1 rfl
    rw [List.append_assoc, unifyLineEnds_append (.inr hhead), unifyLineEnds_append (.inl hlast),
      ← List.append_assoc]
    exact htight.unifyLineEnds.trim_around (isBlank_unifyLineEnds hb) (isBlank_unifyLineEnds ha)

theorem pieces_unifyLineEnds {separator : Char} (hr : separator ≠ '\r') (hn : separator ≠ '\n')
    (cs : List Char) :
    pieces separator (unifyLineEnds cs) = (pieces separator cs).map unifyLineEnds := by
  have hmem {cs : List Char} (h : separator ∉ cs) : separator ∉ unifyLineEnds cs := fun hc =>
    (mem_unifyLineEnds hc).elim h hn
  induction cs using pieces_induction separator with
  | single cs h => rw [pieces_of_not_mem h, pieces_of_not_mem (hmem h), List.map_singleton]
  | more cs rest h ih =>
    have hhead : (separator :: rest).head? ≠ some '\n' := fun he => hn (Option.some.inj he)
    rw [unifyLineEnds_append (.inr hhead), unifyLineEnds_cons hr, pieces_append _ (hmem h),
      pieces_append _ h, ih, List.map_cons]

end Text

theorem Numeral.literal_unifyLineEnds {cs : List Char} {n : Int} :
    Literal (Text.unifyLineEnds cs) n ↔ Literal cs n := by
  constructor
  · intro h
    have hr : '\r' ∉ cs := Text.return_not_mem (h.not_mem (by decide) (by decide))
    rwa [Text.unifyLineEnds_of_no_return hr] at h
  · intro h
    rwa [Text.unifyLineEnds_of_no_return (h.not_mem (by decide) (by decide))]

namespace ProgramText

/-- The pieces of a text between commas, without the blanks around them. -/
def tokens (text : List Char) : List (List Char) := (Text.pieces ',' text).map Text.trim

/-- The second text is the first one with blanks at one of its ends or beside one of its commas. -/
inductive Spaced : List Char → List Char → Prop
  | atStart {blanks text : List Char} :
      (∀ c ∈ blanks, Text.isBlank c = true) → Spaced text (blanks ++ text)
  | atEnd {blanks text : List Char} :
      (∀ c ∈ blanks, Text.isBlank c = true) → Spaced text (text ++ blanks)
  | beforeComma {blanks front back : List Char} : (∀ c ∈ blanks, Text.isBlank c = true) →
      Spaced (front ++ ',' :: back) (front ++ blanks ++ ',' :: back)
  | afterComma {blanks front back : List Char} : (∀ c ∈ blanks, Text.isBlank c = true) →
      Spaced (front ++ ',' :: back) (front ++ ',' :: (blanks ++ back))

/-- The first of the tokens that is no literal, with its position where they are counted from this
one. -/
def FirstBad (position : Nat) (tokens : List (List Char)) (b : BadToken) : Prop :=
  ∃ front token back, tokens = front ++ token :: back ∧ (∀ t ∈ front, ∃ n, Numeral.Literal t n) ∧
    (∀ n, ¬ Numeral.Literal token n) ∧ b = ⟨String.ofList token, position + front.length⟩

theorem tight_of_mem_tokens {text token : List Char} (h : token ∈ tokens text) :
    Text.Tight token := by
  obtain ⟨piece, _, rfl⟩ := List.mem_map.mp h
  exact Text.tight_trim piece

theorem tokens_of_not_mem {text : List Char} (h : ',' ∉ text) : tokens text = [Text.trim text] := by
  rw [tokens, Text.pieces_of_not_mem h, List.map_singleton]

theorem tokens_split (front back : List Char) :
    tokens (front ++ ',' :: back) = tokens front ++ tokens back := by
  rw [tokens, Text.pieces_split, List.map_append]
  rfl

theorem comma_not_mem {blanks : List Char} (h : ∀ c ∈ blanks, Text.isBlank c = true) :
    ',' ∉ blanks :=
  fun hc => absurd (h ',' hc) (by decide)

theorem tokens_between {before after : List Char} (text : List Char)
    (hb : ∀ c ∈ before, Text.isBlank c = true) (ha : ∀ c ∈ after, Text.isBlank c = true) :
    tokens (before ++ text ++ after) = tokens text := by
  have hsingle {before after text : List Char} (hb : ∀ c ∈ before, Text.isBlank c = true)
      (ha : ∀ c ∈ after, Text.isBlank c = true) (h : ',' ∉ text) :
      tokens (before ++ text ++ after) = tokens text := by
    have hcomma : ',' ∉ before ++ text ++ after := by
      simp [comma_not_mem hb, comma_not_mem ha, h]
    rw [tokens_of_not_mem hcomma, tokens_of_not_mem h, Text.trim_between text hb ha]
  induction text using Text.pieces_induction ',' generalizing before with
  | single text h => exact hsingle hb ha h
  | more piece rest h ih =>
    have hsplit : before ++ (piece ++ ',' :: rest) ++ after =
        (before ++ piece ++ []) ++ ',' :: ([] ++ rest ++ after) := by simp
    rw [hsplit, tokens_split, tokens_split, hsingle hb (List.forall_mem_nil _) h,
      ih (List.forall_mem_nil _)]

theorem tokens_blank_before {blanks : List Char} (text : List Char)
    (h : ∀ c ∈ blanks, Text.isBlank c = true) : tokens (blanks ++ text) = tokens text := by
  simpa using tokens_between text h (List.forall_mem_nil _)

theorem tokens_blank_after {blanks : List Char} (text : List Char)
    (h : ∀ c ∈ blanks, Text.isBlank c = true) : tokens (text ++ blanks) = tokens text := by
  simpa using tokens_between text (List.forall_mem_nil _) h

theorem Spaced.tokens_eq {text text' : List Char} (h : Spaced text text') :
    tokens text' = tokens text := by
  cases h with
  | atStart h => exact tokens_blank_before text h
  | atEnd h => exact tokens_blank_after text h
  | beforeComma h => rw [tokens_split, tokens_split, tokens_blank_after _ h]
  | afterComma h => rw [tokens_split, tokens_split, tokens_blank_before _ h]

theorem tokens_eq_of_spaced {text text' : List Char} (h : Relation.EqvGen Spaced text text') :
    tokens text' = tokens text := by
  induction h with
  | rel _ _ h => exact h.tokens_eq
  | refl => rfl
  | symm _ _ _ ih => exact ih.symm
  | trans _ _ _ _ _ ih ih' => exact ih'.trans ih

theorem tokens_eq_singleton_nil {text : List Char} :
    tokens text = [[]] ↔ ∀ c ∈ text, Text.isBlank c = true := by
  have hne (text : List Char) : tokens text ≠ [] := by
    simpa [tokens] using Text.pieces_ne_nil ',' text
  by_cases hcomma : ',' ∈ text
  · refine iff_of_false ?_ fun h => comma_not_mem h hcomma
    obtain ⟨front, back, rfl⟩ := List.append_of_mem hcomma
    rw [tokens_split]
    intro h
    rcases List.append_eq_singleton_iff.mp h with ⟨hnil, _⟩ | ⟨_, hnil⟩
    · exact hne front hnil
    · exact hne back hnil
  · rw [tokens_of_not_mem hcomma, List.singleton_inj]
    exact Text.trim_eq_nil_iff

theorem readPieces_trim (position : Nat) (pieces : List (List Char)) :
    readPieces position (pieces.map Text.trim) = readPieces position pieces := by
  induction pieces generalizing position with
  | nil => rfl
  | cons piece rest ih =>
    rw [List.map_cons, readPieces, readPieces, Text.trim_trim]
    simp only [ih]

theorem parseChars_eq (text : List Char) :
    parseChars text = if tokens text = [[]] then .ok [] else readPieces 0 (tokens text) := by
  obtain ⟨before, after, hb, ha, htext⟩ := Text.trim_split text
  have htokens : tokens text = tokens (Text.trim text) :=
    (congrArg tokens htext).trans (tokens_between _ hb ha)
  have hblank : (Text.trim text).isEmpty = true ↔ tokens text = [[]] := by
    rw [List.isEmpty_iff, Text.trim_eq_nil_iff, tokens_eq_singleton_nil]
  simp only [parseChars, hblank]
  rw [← readPieces_trim 0 (Text.pieces ',' (Text.trim text)), htokens]
  rfl

theorem readPieces_of_literal {token : List Char} (h : Text.Tight token) {n : Int}
    (hn : Numeral.Literal token n) (position : Nat) (rest : List (List Char)) :
    readPieces position (token :: rest) = (readPieces (position + 1) rest).map (n :: ·) := by
  rw [readPieces, Text.trim_of_tight h, (Numeral.readDecimal_eq_ok h).mpr hn]

theorem readPieces_of_not_literal {token : List Char} (h : Text.Tight token)
    (hn : ∀ n, ¬ Numeral.Literal token n) (position : Nat) (rest : List (List Char)) :
    readPieces position (token :: rest) = .error ⟨String.ofList token, position⟩ := by
  rw [readPieces, Text.trim_of_tight h]
  cases hr : Numeral.readDecimal token with
  | error e => rfl
  | ok n => exact absurd ((Numeral.readDecimal_eq_ok h).mp hr) (hn n)

theorem readPieces_eq_ok {tokens : List (List Char)} (h : ∀ t ∈ tokens, Text.Tight t)
    {position : Nat} {values : List Int} :
    readPieces position tokens = .ok values ↔ List.Forall₂ Numeral.Literal tokens values := by
  induction tokens generalizing position values with
  | nil => rw [List.forall₂_nil_left_iff, readPieces, Except.ok.injEq, eq_comm]
  | cons token rest ih =>
    have htight := h token List.mem_cons_self
    replace ih {k : Nat} {others : List Int} :
        readPieces k rest = .ok others ↔ List.Forall₂ Numeral.Literal rest others :=
      ih fun t ht => h t (List.mem_cons_of_mem token ht)
    rw [List.forall₂_cons_left_iff]
    constructor
    · intro hread
      by_cases hn : ∃ n, Numeral.Literal token n
      · obtain ⟨n, hn⟩ := hn
        rw [readPieces_of_literal htight hn] at hread
        cases hr : readPieces (position + 1) rest with
        | error b =>
          rw [hr] at hread
          cases hread
        | ok others =>
          rw [hr] at hread
          cases hread
          exact ⟨n, others, hn, ih.mp hr, rfl⟩
      · rw [readPieces_of_not_literal htight fun n h => hn ⟨n, h⟩] at hread
        cases hread
    · rintro ⟨n, others, hn, hothers, rfl⟩
      rw [readPieces_of_literal htight hn, ih.mpr hothers]
      rfl

theorem firstBad_of_literal {token : List Char} {n : Int} (hn : Numeral.Literal token n)
    {position : Nat} {rest : List (List Char)} {b : BadToken} :
    FirstBad position (token :: rest) b ↔ FirstBad (position + 1) rest b := by
  constructor
  · rintro ⟨front, bad, back, htokens, hfront, hbad, rfl⟩
    cases front with
    | nil =>
      cases htokens
      exact absurd hn (hbad n)
    | cons t front =>
      cases htokens
      refine ⟨front, bad, back, rfl, (List.forall_mem_cons.mp hfront).2, hbad, ?_⟩
      rw [List.length_cons, Nat.add_assoc, Nat.add_comm 1]
  · rintro ⟨front, bad, back, rfl, hfront, hbad, rfl⟩
    refine ⟨token :: front, bad, back, rfl, List.forall_mem_cons.mpr ⟨⟨n, hn⟩, hfront⟩, hbad, ?_⟩
    rw [List.length_cons, Nat.add_assoc, Nat.add_comm 1]

theorem firstBad_of_not_literal {token : List Char} (hn : ∀ n, ¬ Numeral.Literal token n)
    {position : Nat} {rest : List (List Char)} {b : BadToken} :
    FirstBad position (token :: rest) b ↔ b = ⟨String.ofList token, position⟩ := by
  constructor
  · rintro ⟨front, bad, back, htokens, hfront, _, rfl⟩
    cases front with
    | nil =>
      cases htokens
      rfl
    | cons t front =>
      cases htokens
      obtain ⟨n, h⟩ := hfront token List.mem_cons_self
      exact absurd h (hn n)
  · rintro rfl
    exact ⟨[], token, rest, rfl, by simp, hn, rfl⟩

theorem readPieces_eq_error {tokens : List (List Char)} (h : ∀ t ∈ tokens, Text.Tight t)
    {position : Nat}
    {b : BadToken} : readPieces position tokens = .error b ↔ FirstBad position tokens b := by
  induction tokens generalizing position with
  | nil =>
    refine iff_of_false nofun ?_
    rintro ⟨front, token, back, htokens, _⟩
    simp at htokens
  | cons token rest ih =>
    have htight := h token List.mem_cons_self
    by_cases hn : ∃ n, Numeral.Literal token n
    · obtain ⟨n, hn⟩ := hn
      have herror : (readPieces (position + 1) rest).map (n :: ·) = .error b ↔
          readPieces (position + 1) rest = .error b := by
        cases readPieces (position + 1) rest <;> simp [Except.map]
      rw [readPieces_of_literal htight hn, herror, firstBad_of_literal hn]
      exact ih fun t ht => h t (List.mem_cons_of_mem token ht)
    · replace hn : ∀ n, ¬ Numeral.Literal token n := fun n h => hn ⟨n, h⟩
      rw [readPieces_of_not_literal htight hn, firstBad_of_not_literal hn,
        Except.error.injEq, eq_comm]

end ProgramText

/-- The bad token as it stands in a text whose line ends are unified. -/
def BadToken.unified (b : BadToken) : BadToken :=
  { b with token := String.ofList (Text.unifyLineEnds b.token.toList) }

namespace ProgramText

theorem readPieces_unifyLineEnds (position : Nat) (pieces : List (List Char)) :
    readPieces position (pieces.map Text.unifyLineEnds) =
      (readPieces position pieces).mapError BadToken.unified := by
  induction pieces generalizing position with
  | nil => rfl
  | cons piece rest ih =>
    have htight := Text.tight_trim piece
    have hread {n : Int} : Numeral.readDecimal (Text.unifyLineEnds (Text.trim piece)) = .ok n ↔
        Numeral.readDecimal (Text.trim piece) = .ok n := by
      rw [Numeral.readDecimal_eq_ok htight, Numeral.readDecimal_eq_ok htight.unifyLineEnds,
        Numeral.literal_unifyLineEnds]
    rw [List.map_cons, readPieces, readPieces, Text.trim_unifyLineEnds]
    cases hn : Numeral.readDecimal (Text.trim piece) with
    | ok n =>
      simp only [hread.mpr hn, ih]
      cases readPieces (position + 1) rest <;> rfl
    | error e =>
      cases hu : Numeral.readDecimal (Text.unifyLineEnds (Text.trim piece)) with
      | ok n => cases hn.symm.trans (hread.mp hu)
      | error e' => simp [Except.mapError, BadToken.unified]

/-- Unified line ends change nothing of a text but the bad token that is named. -/
theorem parseChars_unifyLineEnds (text : List Char) :
    parseChars (Text.unifyLineEnds text) = (parseChars text).mapError BadToken.unified := by
  unfold parseChars
  rw [Text.trim_unifyLineEnds]
  cases Text.trim text with
  | nil => rfl
  | cons c cs =>
    have hne := Text.unifyLineEnds_ne_nil (List.cons_ne_nil c cs)
    simp only [List.isEmpty_iff, hne, List.cons_ne_nil, if_false]
    rw [Text.pieces_unifyLineEnds (by decide) (by decide)]
    exact readPieces_unifyLineEnds 0 _

end ProgramText

namespace ProgramFile

theorem decode_toUTF8 (text : String) :
    decode text.toUTF8 =
      (ProgramText.parseChars (Text.unifyLineEnds text.toList)).mapError .badToken := by
  have hvalid : String.fromUTF8? text.toUTF8 = some text := by
    have hbytes : text.toUTF8.IsValidUTF8 := text.isValidUTF8
    exact dif_pos hbytes
  simp only [decode, hvalid]
  cases ProgramText.parseChars (Text.unifyLineEnds text.toList) with
  | error b => rfl
  | ok cells => rfl

end ProgramFile

namespace ProgramText

/-- How a program text is read: by its tokens, however it is laid out and its line ends are
written. -/
structure ReadsTokens (text : String) : Prop where
  spaced : ∀ text' : String, Relation.EqvGen Spaced text.toList text'.toList →
    parse text' = parse text
  accepted : ∀ values, parse text = .ok values ↔
    (∀ c ∈ text.toList, Text.isBlank c = true) ∧ values = [] ∨
      List.Forall₂ Numeral.Literal (tokens text.toList) values
  rejected : ∀ b, parse text = .error b ↔
    (¬ ∀ c ∈ text.toList, Text.isBlank c = true) ∧ FirstBad 0 (tokens text.toList) b
  loaded : ∀ read path, read path = .ok text.toUTF8 →
    ProgramFile.load read path = (parse text).mapError fun b => .badToken b.unified

theorem parse_reads_tokens (text : String) : ReadsTokens text := by
  have htight : ∀ t ∈ tokens text.toList, Text.Tight t := fun t ht => tight_of_mem_tokens ht
  refine ⟨fun text' h => ?_, fun values => ?_, fun b => ?_, fun read path h => ?_⟩
  · rw [parse, parse, parseChars_eq, parseChars_eq, tokens_eq_of_spaced h]
  · rw [parse, parseChars_eq, ← tokens_eq_singleton_nil]
    split
    next hblank =>
      have hnone : ¬ List.Forall₂ Numeral.Literal [[]] values := by
        rintro (_ | ⟨h, _⟩)
        exact Numeral.not_literal_nil h
      rw [hblank, or_iff_left hnone, Except.ok.injEq, eq_comm]
      exact (and_iff_right rfl).symm
    next hblank => rw [readPieces_eq_ok htight, or_iff_right fun h => hblank h.1]
  · rw [parse, parseChars_eq, ← tokens_eq_singleton_nil]
    split
    next hblank => exact iff_of_false nofun fun h => h.1 hblank
    next hblank =>
      rw [readPieces_eq_error htight]
      exact (and_iff_right hblank).symm
  · rw [ProgramFile.load, h]
    simp only [ProgramFile.decode_toUTF8, parseChars_unifyLineEnds, parse]
    cases parseChars text.toList <;> rfl

end ProgramText

end Intcode
