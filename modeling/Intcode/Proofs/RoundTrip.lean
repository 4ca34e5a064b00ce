import Intcode.Proofs.Layout

namespace Intcode

namespace ProgramText

/-- The text of cells that can be written. -/
def textOf (cells : List Int) : List Char :=
  [','].intercalate (cells.map fun n => (toString n).toList)

theorem textOf_cons_cons (n next : Int) (rest : List Int) :
    textOf (n :: next :: rest) = (toString n).toList ++ ',' :: textOf (next :: rest) := by
  have hsplit : textOf (n :: next :: rest) =
      (toString n).toList ++ [','] ++ textOf (next :: rest) :=
    List.intercalate_cons_cons
  rw [hsplit, List.append_assoc, List.singleton_append]

theorem of_mem_textOf {P : Char → Prop} (hplain : ∀ c, Numeral.isPlain c = true → P c)
    (hcomma : P ',') {cells : List Int} {c : Char} (h : c ∈ textOf cells) : P c := by
  refine (Text.forall_mem_intercalate hcomma _).mpr (fun text ht c hc => ?_) c h
  obtain ⟨n, _, rfl⟩ := List.mem_map.mp ht
  exact hplain c (Numeral.isPlain_of_mem_toString hc)

theorem textOf_not_blank {cells : List Int} : ∀ c ∈ textOf cells, Text.isBlank c = false := by
  intro c hc
  exact of_mem_textOf (fun c => Numeral.isBlank_of_isPlain) (by decide) hc

theorem textOf_no_lineEnd {cells : List Int} : ∀ c ∈ textOf cells, c ≠ '\r' ∧ c ≠ '\n' := by
  intro c hc
  exact of_mem_textOf (P := fun c => c ≠ '\r' ∧ c ≠ '\n')
    (fun c hp => ⟨Numeral.ne_of_isPlain hp rfl, Numeral.ne_of_isPlain hp rfl⟩) (by decide) hc

theorem textOf_ne_nil {cells : List Int} (h : cells ≠ []) : textOf cells ≠ [] := by
  intro hnil
  cases cells with
  | nil => exact h rfl
  | cons n rest =>
    have hn := Numeral.toString_ne_nil n
    cases rest with
    | nil => exact hn (by simpa [textOf] using hnil)
    | cons next rest =>
      rw [textOf_cons_cons] at hnil
      exact hn (List.append_eq_nil_iff.mp hnil).1

theorem pieces_textOf {cells : List Int} (h : cells ≠ []) :
    Text.pieces ',' (textOf cells) = cells.map fun n => (toString n).toList := by
  refine Text.pieces_intercalate (by simpa using h) fun text ht => ?_
  obtain ⟨n, _, rfl⟩ := List.mem_map.mp ht
  exact Numeral.not_mem_toString rfl n

theorem readPieces_toString {cells : List Int} (h : ∀ n ∈ cells, Numeral.isWritable n = true)
    (position : Nat) : readPieces position (cells.map fun n => (toString n).toList) =
      .ok cells := by
  induction cells generalizing position with
  | nil => rfl
  | cons n rest ih =>
    have hn := Numeral.readDecimal_toString (h n List.mem_cons_self)
    have hrest := ih (fun k hk => h k (List.mem_cons_of_mem _ hk)) (position + 1)
    have htrim : Text.trim (toString n).toList = (toString n).toList :=
      Text.trim_of_no_blank fun c hc =>
        Numeral.isBlank_of_isPlain (Numeral.isPlain_of_mem_toString hc)
    rw [List.map_cons, readPieces, htrim, hn]
    simp only [hrest]
    rfl

/-- A text that lists cells is read as these cells, whatever blanks stand around it. -/
theorem parseChars_textOf {cells : List Int} (h : ∀ n ∈ cells, Numeral.isWritable n = true)
    {before after : List Char} (hb : ∀ c ∈ before, Text.isBlank c = true)
    (ha : ∀ c ∈ after, Text.isBlank c = true) :
    parseChars (before ++ textOf cells ++ after) = .ok cells := by
  have htrim : Text.trim (before ++ textOf cells ++ after) = textOf cells :=
    Text.trim_surrounded hb textOf_not_blank ha
  rw [parseChars, htrim]
  cases cells with
  | nil => rfl
  | cons n rest =>
    have hne := textOf_ne_nil (List.cons_ne_nil n rest)
    rw [if_neg (by simpa using hne), pieces_textOf (List.cons_ne_nil n rest)]
    exact readPieces_toString h 0

theorem textOf_injective {cells cells' : List Int} (h : ∀ n ∈ cells, Numeral.isWritable n = true)
    (h' : ∀ n ∈ cells', Numeral.isWritable n = true) (he : textOf cells = textOf cells') :
    cells = cells' := by
  have hread := parseChars_textOf h (List.forall_mem_nil _) (List.forall_mem_nil _)
  have hread' := parseChars_textOf h' (List.forall_mem_nil _) (List.forall_mem_nil _)
  rw [he] at hread
  exact Except.ok.inj (hread.symm.trans hread')

theorem mapM_write {cells : List Int} (h : ∀ n ∈ cells, Numeral.isWritable n = true) :
    (cells.map Value.integer).mapM Value.write = .ok (cells.map toString) := by
  induction cells with
  | nil => rfl
  | cons n rest ih =>
    have hn : (Value.integer n).write = .ok (toString n) := by
      simp [Value.write, Value.isWritable, Value.plain, h n List.mem_cons_self]
    rw [List.map_cons, List.mapM_cons, hn, ih fun k hk => h k (List.mem_cons_of_mem _ hk)]
    rfl

theorem render_ok {cells : List Int} (h : ∀ n ∈ cells, Numeral.isWritable n = true) :
    render (cells.map .integer) = .ok (String.ofList (textOf cells)) := by
  have htext : ",".intercalate (cells.map toString) = String.ofList (textOf cells) := by
    apply String.toList_injective
    simp only [String.toList_intercalate, String.toList_ofList, List.map_map]
    rfl
  rw [render, mapM_write h]
  exact congrArg Except.ok htext

theorem writable_of_render {cells : List Int} {text : String}
    (h : render (cells.map .integer) = .ok text) : ∀ n ∈ cells, Numeral.isWritable n = true := by
  obtain ⟨texts, htexts⟩ : ∃ texts, (cells.map Value.integer).mapM Value.write = .ok texts := by
    unfold render at h
    cases hm : (cells.map Value.integer).mapM Value.write with
    | error e =>
      rw [hm] at h
      cases h
    | ok texts => exact ⟨texts, rfl⟩
  clear h
  induction cells generalizing texts with
  | nil => exact fun n hn => absurd hn (List.not_mem_nil)
  | cons n rest ih =>
    rw [List.map_cons, List.mapM_cons] at htexts
    cases hn : (Value.integer n).write with
    | error e =>
      rw [hn] at htexts
      cases htexts
    | ok s =>
      have hwn : Numeral.isWritable n = true := by
        unfold Value.write at hn
        split at hn
        next hw => exact hw
        next => cases hn
      rw [hn] at htexts
      cases hr : (rest.map Value.integer).mapM Value.write with
      | error e =>
        simp only [hr] at htexts
        cases htexts
      | ok more =>
        intro k hk
        rcases List.mem_cons.mp hk with rfl | hk
        · exact hwn
        · exact ih more hr k hk

end ProgramText

namespace ProgramFile

theorem decode_textOf {cells : List Int} (h : ∀ n ∈ cells, Numeral.isWritable n = true)
    {before after : List Char} (hb : ∀ c ∈ before, Text.isBlank c = true)
    (ha : ∀ c ∈ after, Text.isBlank c = true) :
    decode (String.ofList (before ++ ProgramText.textOf cells ++ after)).toUTF8 = .ok cells := by
  rw [decode_toUTF8, String.toList_ofList, ProgramText.parseChars_unifyLineEnds,
    ProgramText.parseChars_textOf h hb ha]
  rfl

end ProgramFile

end Intcode
