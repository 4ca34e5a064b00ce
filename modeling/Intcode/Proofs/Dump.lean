import Intcode.Proofs.Record
import Intcode.Proofs.RoundTrip
import Intcode.Proofs.Trails

namespace Intcode

namespace CommandLine

theorem runBatch_dumps {fuel : Nat} {o : Options} {m : Machine} {t : Trail} (ho : o.dump = true)
    (h : runBatch fuel o m = some t) (ht : t.failure = none) :
    ∃ outputs m' left shown line, m.run fuel o.inputs = some ⟨.ok outputs, m', left⟩ ∧
      ProgramText.render (m'.memory.toList.map .integer) = .ok line ∧ EndsLine shown ∧
      t.stdout = shown ++ line ++ "\n" := by
  obtain ⟨⟨result, m', left, journal⟩, hrun, rfl⟩ := Option.map_eq_some_iff.mp h
  have hplain : m.run fuel o.inputs = some ⟨result, m', left⟩ := by
    rw [Machine.run, Machine.collect_journaled fuel m o.inputs #[], hrun]
    rfl
  cases result with
  | error e => cases ht
  | ok outputs =>
    simp only [ho, if_true] at ht ⊢
    generalize hshown : (if outputs.isEmpty then ({ journal } : Trail)
      else ({ journal } : Trail).line (showOutputs o.ascii outputs)) = t at ht ⊢
    have hends : EndsLine t.stdout := by
      rw [← hshown]
      split
      · exact .inl rfl
      · exact Trail.endsLine_line (.inl rfl) _
    have hthen := Trail.andThen_of_unfailed ht
    rw [hthen] at ht ⊢
    obtain ⟨line, hline, hout⟩ := Trail.line_of_unfailed ht
    exact ⟨outputs, m', left, t.stdout, line, hplain, hline, hends, hout⟩

/-- The options ask for a run to the end of the program and a dump of its memory. -/
structure Options.DumpsBatch (o : Options) : Prop where
  amplifiers : o.amplifiers = none
  monitor : o.monitor = false
  paint : o.paint = false
  arcade : o.arcade = false
  dump : o.dump = true

/-- What a batch run with a dump prints when it ends well. -/
theorem run_dumps {fuel : Nat} {read : String → Except FileError ByteArray}
    {arguments : List String}
    {stdin : String} {i : Invocation} {r : Report} (hi : Invocation.ofArguments arguments = .ok i)
    (ho : i.options.DumpsBatch) (hr : run fuel read arguments stdin = some r)
    (he : r.ending = .exit 0) :
    ∃ cells m outputs m' left shown line, ProgramFile.load read i.program = .ok cells ∧
      patchedMachine i.options cells = .ok m ∧
      m.run fuel i.options.inputs = some ⟨.ok outputs, m', left⟩ ∧
      ProgramText.render (m'.memory.toList.map .integer) = .ok line ∧ EndsLine shown ∧
      r.stdout = shown ++ line ++ "\n" := by
  rw [run, hi] at hr
  obtain ⟨t, ht, rfl⟩ := Option.map_eq_some_iff.mp hr
  obtain ⟨hf, hout⟩ := Trail.toReport_unfailed he
  rw [hout]
  rcases trail_iff.mp ht with ⟨e, _, rfl⟩ | ⟨cells, started, hl, hs, rfl⟩
  · cases hf
  · cases hs with
    | batch _ hm _ _ _ hb =>
      obtain ⟨outputs, m', left, shown, line, hrun, hrest⟩ := runBatch_dumps ho.dump hb hf
      exact ⟨cells, _, outputs, m', left, shown, line, hl, hm, hrun, hrest⟩
    | unpatched => cases hf
    | amplifiers hphases => cases ho.amplifiers.symm.trans hphases
    | monitor _ _ hmonitor => cases ho.monitor.symm.trans hmonitor
    | paint _ _ _ hpaint => cases ho.paint.symm.trans hpaint
    | arcade _ _ _ _ harcade => cases ho.arcade.symm.trans harcade

/-- Program text round-trips, whatever blanks are put around it; hence a dump that is saved to a
file is loaded as the memory at the end of the run, and no two lists of cells have one text. -/
theorem program_text_round_trips :
    (∀ cells : List Int, (∀ n ∈ cells, Numeral.IsShort n) →
      ∃ text, ProgramText.render (cells.map .integer) = .ok text ∧
        ∀ before after : String, (∀ c ∈ before.toList, Text.isBlank c = true) →
          (∀ c ∈ after.toList, Text.isBlank c = true) →
          ProgramText.parse (before ++ text ++ after) = .ok cells) ∧
    (∀ fuel read arguments stdin i r, Invocation.ofArguments arguments = .ok i →
      i.options.DumpsBatch → run fuel read arguments stdin = some r → r.ending = .exit 0 →
      ∃ cells m outputs m' left shown line, ProgramFile.load read i.program = .ok cells ∧
        patchedMachine i.options cells = .ok m ∧
        m.run fuel i.options.inputs = some ⟨.ok outputs, m', left⟩ ∧
        r.stdout = shown ++ line ++ "\n" ∧ EndsLine shown ∧ '\n' ∉ line.toList ∧
        ∀ files path before after, (∀ c ∈ before.toList, Text.isBlank c = true) →
          (∀ c ∈ after.toList, Text.isBlank c = true) →
          files path = .ok (before ++ line ++ after).toUTF8 →
          ProgramFile.load files path = .ok m'.memory.toList) ∧
    ∀ cells cells' : List Int, (∀ n ∈ cells, Numeral.IsShort n) →
      (∀ n ∈ cells', Numeral.IsShort n) →
      ProgramText.render (cells.map .integer) = ProgramText.render (cells'.map .integer) →
      cells = cells' := by
  refine ⟨?_, ?_, ?_⟩
  · intro cells h
    have hw := Numeral.isWritable_of_isShort h
    refine ⟨_, ProgramText.render_ok hw, fun before after hb ha => ?_⟩
    rw [ProgramText.parse, String.toList_append, String.toList_append, String.toList_ofList]
    exact ProgramText.parseChars_textOf hw hb ha
  · intro fuel read arguments stdin i r hi ho hr he
    obtain ⟨cells, m, outputs, m', left, shown, line, hl, hm, hrun, hline, hshown, hout⟩ :=
      run_dumps hi ho hr he
    have hw := ProgramText.writable_of_render hline
    obtain rfl : line = String.ofList (ProgramText.textOf m'.memory.toList) :=
      Except.ok.inj (hline.symm.trans (ProgramText.render_ok hw))
    refine ⟨cells, m, outputs, m', left, shown, _, hl, hm, hrun, hout, hshown, ?_, ?_⟩
    · rw [String.toList_ofList]
      intro hn
      exact (ProgramText.textOf_no_lineEnd _ hn).2 rfl
    · intro files path before after hb ha hfile
      have hbytes : before ++ String.ofList (ProgramText.textOf m'.memory.toList) ++ after =
          String.ofList (before.toList ++ ProgramText.textOf m'.memory.toList ++ after.toList) := by
        apply String.toList_injective
        simp
      rw [ProgramFile.load, hfile, hbytes]
      exact ProgramFile.decode_textOf hw hb ha
  · intro cells cells' h h' he
    have hw := Numeral.isWritable_of_isShort h
    have hw' := Numeral.isWritable_of_isShort h'
    rw [ProgramText.render_ok hw, ProgramText.render_ok hw'] at he
    have htext : ProgramText.textOf cells = ProgramText.textOf cells' := by
      simpa using congrArg String.toList (Except.ok.inj he)
    exact ProgramText.textOf_injective hw hw' htext

/-- A list between blanks, and an output with the dump after it. -/
theorem program_text_round_trips_output :
    (∃ text, ProgramText.render [.integer (-12), .integer 0, .integer 99] = .ok text ∧
      ProgramText.parse ("\n\t" ++ text ++ " \r\n") = .ok [-12, 0, 99]) ∧
    ∃ r shown line, run 3 (fun _ => .ok "4,3,99".toUTF8) ["echo", "--dump"] "" = some r ∧
      r.stdout = shown ++ line ++ "\n" ∧
      ProgramFile.load (fun _ => .ok ("" ++ line ++ "\n").toUTF8) "saved" = .ok [4, 3, 99, 0] := by
  obtain ⟨htext, hdump, -⟩ := program_text_round_trips
  have hblank : ∀ s : String, s.toList.all Text.isBlank = true →
      ∀ c ∈ s.toList, Text.isBlank c = true :=
    fun s h => List.all_eq_true.mp h
  constructor
  · have hshort : ∀ n ∈ [-12, 0, 99], Numeral.IsShort n := by
      intro n hn
      refine Numeral.isWritable_iff.mp ?_
      revert n
      decide +kernel
    obtain ⟨text, hrender, hparse⟩ := htext [-12, 0, 99] hshort
    exact ⟨text, hrender, hparse _ _ (hblank _ (by decide +kernel)) (hblank _ (by decide +kernel))⟩
  · let i : Invocation := ⟨"echo", { dump := true }⟩
    let m := Machine.ofCells [4, 3, 99]
    have hi : Invocation.ofArguments ["echo", "--dump"] = .ok i := by decide +kernel
    have hr : run 3 (fun _ => .ok "4,3,99".toUTF8) ["echo", "--dump"] "" =
        some ⟨.exit 0, "0\n4,3,99,0\n", ""⟩ := by decide +kernel
    obtain ⟨cells, m₁, outputs, m', left, shown, line, hl, hm, hrun, hout, -, -, hload⟩ :=
      hdump _ _ _ _ i _ hi ⟨rfl, rfl, rfl, rfl, rfl⟩ hr rfl
    have hcells : ProgramFile.load (fun _ => .ok "4,3,99".toUTF8) i.program = .ok [4, 3, 99] := by
      decide +kernel
    cases hl.symm.trans hcells
    have hstart : patchedMachine i.options [4, 3, 99] = .ok m := by decide +kernel
    cases hm.symm.trans hstart
    have hend : m.run 3 [] = some ⟨.ok [0],
        { memory := .ofList [4, 3, 99, 0], pc := 2, status := .halted, executed := 2,
          emitted := 1 },
        []⟩ := by decide +kernel
    cases hrun.symm.trans hend
    exact ⟨_, shown, line, hr, hout, hload _ "saved" "" "\n" (hblank _ (by decide +kernel))
      (hblank _ (by decide +kernel)) rfl⟩

end CommandLine

end Intcode
