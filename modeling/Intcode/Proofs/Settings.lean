import Intcode.CommandLine.Options
import Intcode.Proofs.Padding
import Intcode.Proofs.RoundTrip

namespace Intcode

namespace Phases

/-- The pieces of a list that are not blank. -/
def settings (spec : List Char) : List (List Char) :=
  (Text.pieces ',' spec).filter fun piece => !piece.all Text.isBlank

/-- The list without its blank pieces. -/
def withoutBlanks (spec : String) : String :=
  String.ofList ([','].intercalate (settings spec.toList))

theorem comma_not_mem_settings {spec piece : List Char} (h : piece ∈ settings spec) : ',' ∉ piece :=
  Text.not_mem_of_mem_pieces (List.mem_filter.mp h).1

theorem trim_ne_nil_of_mem_settings {spec piece : List Char} (h : piece ∈ settings spec) :
    Text.trim piece ≠ [] := by
  intro hnil
  have hblank : piece.all Text.isBlank = true := List.all_eq_true.mpr (Text.trim_eq_nil_iff.mp hnil)
  have hkept := (List.mem_filter.mp h).2
  rw [hblank] at hkept
  cases hkept

theorem ofText?_eq_mapM (spec : String) :
    ofText? spec = (settings spec.toList).mapM fun piece =>
      (Numeral.readDecimal piece).toOption := by
  have hblank (piece : List Char) : (Text.trim piece).isEmpty = piece.all Text.isBlank := by
    rw [Bool.eq_iff_iff, List.isEmpty_iff, Text.trim_eq_nil_iff, List.all_eq_true]
  simp only [ofText?, settings, hblank]

theorem mapM_readDecimal {pieces : List (List Char)} (h : ∀ p ∈ pieces, Text.trim p ≠ [])
    {phases : List Int} :
    (pieces.mapM fun piece => (Numeral.readDecimal piece).toOption) = some phases ↔
      List.Forall₂ (fun piece n => (∀ c ∈ piece, Text.isInformationSeparator c = false) ∧
        Numeral.Literal (Text.trim piece) n) pieces phases := by
  induction pieces generalizing phases with
  | nil =>
    rw [List.mapM_nil, List.forall₂_nil_left_iff, Option.pure_def, Option.some.injEq, eq_comm]
  | cons piece rest ih =>
    have hread {n : Int} : (Numeral.readDecimal piece).toOption = some n ↔
        (∀ c ∈ piece, Text.isInformationSeparator c = false) ∧
        Numeral.Literal (Text.trim piece) n := by
      rw [and_comm, ← Numeral.readDecimal_eq_ok_iff (h piece List.mem_cons_self)]
      cases Numeral.readDecimal piece <;> simp [Except.toOption]
    have hrest : ∀ p ∈ rest, Text.trim p ≠ [] := fun p hp => h p (List.mem_cons_of_mem piece hp)
    constructor
    · intro hmap
      simp only [List.mapM_cons, Option.bind_eq_bind, Option.pure_def, Option.bind_eq_some_iff,
        Option.some.injEq] at hmap
      obtain ⟨n, hn, others, hothers, rfl⟩ := hmap
      exact .cons (hread.mp hn) ((ih hrest).mp hothers)
    · rintro (_ | ⟨hn, hothers⟩)
      rw [List.mapM_cons, hread.mpr hn, (ih hrest).mpr hothers]
      rfl

/-- Pieces that are put together again are read as a program text by what they are without their
blanks. -/
theorem parseChars_intercalate {pieces : List (List Char)} (hcomma : ∀ p ∈ pieces, ',' ∉ p)
    (h : ∀ p ∈ pieces, Text.trim p ≠ []) {values : List Int} :
    ProgramText.parseChars ([','].intercalate pieces) = .ok values ↔
      List.Forall₂ Numeral.Literal (pieces.map Text.trim) values := by
  cases pieces with
  | nil =>
    have hempty : ProgramText.parseChars ([','].intercalate []) = .ok [] := rfl
    rw [hempty, List.map_nil, List.forall₂_nil_left_iff, Except.ok.injEq, eq_comm]
  | cons piece rest =>
    have htokens : ProgramText.tokens ([','].intercalate (piece :: rest)) =
        (piece :: rest).map Text.trim := by
      rw [ProgramText.tokens, Text.pieces_intercalate (List.cons_ne_nil piece rest) hcomma]
    have htight : ∀ t ∈ (piece :: rest).map Text.trim, Text.Tight t := by
      intro t ht
      rw [← htokens] at ht
      exact ProgramText.tight_of_mem_tokens ht
    have hblank : (piece :: rest).map Text.trim ≠ [[]] := by
      intro he
      exact h piece List.mem_cons_self (List.cons.inj he).1
    rw [ProgramText.parseChars_eq, htokens, if_neg hblank, ProgramText.readPieces_eq_ok htight]

theorem parse_withoutBlanks {spec : String} {phases : List Int} :
    ProgramText.parse (withoutBlanks spec) = .ok phases ↔
      List.Forall₂ Numeral.Literal ((settings spec.toList).map Text.trim) phases := by
  rw [ProgramText.parse, withoutBlanks, String.toList_ofList]
  exact parseChars_intercalate (fun _ => comma_not_mem_settings) fun _ =>
    trim_ne_nil_of_mem_settings

theorem unseparated_iff {spec : String} :
    (∀ c ∈ (withoutBlanks spec).toList, Text.isInformationSeparator c = false) ↔
      ∀ piece ∈ settings spec.toList, ∀ c ∈ piece, Text.isInformationSeparator c = false := by
  rw [withoutBlanks, String.toList_ofList]
  exact Text.forall_mem_intercalate (by decide) _

/-- A list is read as the program text that it is without its blank pieces, if this has no
information separators. -/
theorem ofText?_eq_some {spec : String} {phases : List Int} :
    ofText? spec = some phases ↔ ProgramText.parse (withoutBlanks spec) = .ok phases ∧
      ∀ c ∈ (withoutBlanks spec).toList, Text.isInformationSeparator c = false := by
  rw [ofText?_eq_mapM, mapM_readDecimal fun _ => trim_ne_nil_of_mem_settings, List.forall₂_and_left,
    parse_withoutBlanks, unseparated_iff, List.forall₂_map_left_iff, and_comm]

theorem ofText?_eq_none {spec : String} :
    ofText? spec = none ↔ (∃ b, ProgramText.parse (withoutBlanks spec) = .error b) ∨
      ∃ c ∈ (withoutBlanks spec).toList, Text.isInformationSeparator c = true := by
  rw [← Option.not_isSome_iff_eq_none, Option.isSome_iff_exists]
  simp only [ofText?_eq_some]
  cases ProgramText.parse (withoutBlanks spec) with
  | error b => simp
  | ok phases => simp

theorem settings_textOf (cells : List Int) :
    settings (ProgramText.textOf cells) = cells.map fun n => (toString n).toList := by
  cases cells with
  | nil => rfl
  | cons n rest =>
    rw [settings, ProgramText.pieces_textOf (List.cons_ne_nil n rest), List.filter_eq_self]
    intro piece hp
    obtain ⟨k, _, rfl⟩ := List.mem_map.mp hp
    obtain ⟨c, cs, hcs⟩ := List.exists_cons_of_ne_nil (Numeral.toString_ne_nil k)
    have hc : Text.isBlank c = false :=
      Numeral.isBlank_of_isPlain
        (Numeral.isPlain_of_mem_toString (n := k) (hcs ▸ List.mem_cons_self))
    rw [hcs]
    simp [hc]

theorem withoutBlanks_textOf (cells : List Int) :
    withoutBlanks (String.ofList (ProgramText.textOf cells)) =
      String.ofList (ProgramText.textOf cells) := by
  rw [withoutBlanks, String.toList_ofList, settings_textOf]
  rfl

theorem ofText?_textOf {phases : List Int} (h : ∀ n ∈ phases, Numeral.isWritable n = true) :
    ofText? (String.ofList (ProgramText.textOf phases)) = some phases := by
  refine ofText?_eq_some.mpr ⟨?_, fun c hc => ?_⟩
  · have hparse := ProgramText.parseChars_textOf h (List.forall_mem_nil _) (List.forall_mem_nil _)
    rw [withoutBlanks_textOf, ProgramText.parse, String.toList_ofList]
    simpa using hparse
  · rw [withoutBlanks_textOf, String.toList_ofList] at hc
    have hblank := ProgramText.textOf_not_blank c hc
    rw [← Bool.not_eq_true] at hblank ⊢
    exact mt Text.isBlank_of_isInformationSeparator hblank

/-- How a list of phase settings is read: as the program text that it is without its blank pieces,
but for information separators, which are blanks beside the numerals of a program and not beside
settings. -/
structure ReadsAsProgram (spec : String) : Prop where
  accepted : ∀ phases, ofText? spec = some phases ↔
    ProgramText.parse (withoutBlanks spec) = .ok phases ∧
      ∀ c ∈ (withoutBlanks spec).toList, Text.isInformationSeparator c = false
  rejected : ∀ options : CommandLine.Options,
    options.giveText .amplifiers spec = .error (.invalidValue .amplifiers spec) ↔
      (∃ b, ProgramText.parse (withoutBlanks spec) = .error b) ∨
        ∃ c ∈ (withoutBlanks spec).toList, Text.isInformationSeparator c = true

theorem giveText_amplifiers {options : CommandLine.Options} {spec : String} :
    options.giveText .amplifiers spec = .error (.invalidValue .amplifiers spec) ↔
    ofText? spec = none := by
  simp only [CommandLine.Options.giveText]
  cases ofText? spec with
  | none => simp
  | some phases => simp

/-- Lists of phase settings are read like program texts, and what is written as a program text is
read as a list of settings. -/
theorem settings_read_as_program (spec : String) (phases : List Int) :
    ReadsAsProgram spec ∧
      ((∀ n ∈ phases, Numeral.IsShort n) →
        ∃ text, ProgramText.render (phases.map .integer) = .ok text ∧
          ofText? text = some phases) := by
  refine ⟨⟨fun _ => ofText?_eq_some, fun _ => giveText_amplifiers.trans ofText?_eq_none⟩,
    fun h => ?_⟩
  have hw := Numeral.isWritable_of_isShort h
  exact ⟨_, ProgramText.render_ok hw, ofText?_textOf hw⟩

/-- A list with blank pieces, underscores, signs and digits of another script, and a list that is
written. -/
theorem settings_read_as_program_underscore :
    ofText? " +1_0,\x1c,\u0663 ,, -0\n" = some [10, 3, 0] ∧
    ∃ text, ProgramText.render [.integer (-5), .integer 0, .integer 9] = .ok text ∧
      ofText? text = some [-5, 0, 9] := by
  obtain ⟨hread, hwritten⟩ := settings_read_as_program " +1_0,\x1c,\u0663 ,, -0\n" [-5, 0, 9]
  constructor
  · have hspec : withoutBlanks " +1_0,\x1c,\u0663 ,, -0\n" = " +1_0,\u0663 , -0\n" := by
      apply String.toList_injective
      rw [withoutBlanks, String.toList_ofList]
      decide +kernel
    have hclean :
        (" +1_0,\u0663 , -0\n".toList.all fun c => !Text.isInformationSeparator c) = true := by
      decide +kernel
    refine (hread.accepted _).mpr ?_
    rw [hspec]
    refine ⟨by decide +kernel, fun c hc => ?_⟩
    rw [← Bool.not_eq_true']
    exact List.all_eq_true.mp hclean c hc
  · refine hwritten fun n hn => Numeral.isWritable_iff.mp ?_
    revert n
    decide +kernel

/-- An information separator is skipped as a piece of its own and beside a cell, and not beside a
setting. -/
theorem separator_spoils_setting :
    ProgramText.parse (withoutBlanks "\x1c5") = .ok [5] ∧ ofText? "\x1c5" = none ∧
      ofText? "\x1c,5" = some [5] := by
  refine ⟨?_, by decide +kernel, by decide +kernel⟩
  rw [ProgramText.parse, withoutBlanks, String.toList_ofList]
  decide +kernel

end Phases

end Intcode
