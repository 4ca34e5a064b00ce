import Intcode.Proofs.Arguments
import Intcode.Proofs.Dump
import Intcode.Proofs.Modes

namespace Intcode

namespace CommandLine

/-- What the program of an invocation raises: loading it, patching it or running it. -/
def Raises (fuel : Nat) (read : String → Except FileError ByteArray) (i : Invocation)
    (f : Failure) :
    Prop :=
  (∃ e, ProgramFile.load read i.program = .error e ∧ f = .load e) ∨
    ∃ cells e, ProgramFile.load read i.program = .ok cells ∧ ModeRaises fuel i.options cells e ∧
      f = .machine e

section

variable {fuel : Nat} {read : String → Except FileError ByteArray} {stdin : String} {i : Invocation}

theorem trail_fails {t : Trail} {f : Failure} (h : i.trail fuel read stdin = some t)
    (ht : t.failure = some f) (hf : f.Reported) : t.stdout = "" ∧ Raises fuel read i f := by
  rcases trail_iff.mp h with ⟨e, hl, rfl⟩ | ⟨cells, started, hl, hs, rfl⟩
  · exact ⟨rfl, .inl ⟨e, hl, (Option.some.inj ht).symm⟩⟩
  · obtain ⟨e, ⟨rfl, journal, htrail⟩, hr⟩ := hs.fails ht hf
    exact ⟨congrArg Trail.stdout htrail, .inr ⟨cells, e, hl, hr, rfl⟩⟩

theorem trail_of_raises (stdin : String) {f : Failure} (h : Raises fuel read i f) :
    ∃ t, i.trail fuel read stdin = some t ∧ t.failure = some f := by
  rcases h with ⟨e, hl, rfl⟩ | ⟨cells, e, hl, hr, rfl⟩
  · exact ⟨_, trail_iff.mpr (.inl ⟨e, hl, rfl⟩), rfl⟩
  · obtain ⟨journal, hs⟩ := hr.starts
    exact ⟨_, trail_iff.mpr (.inr ⟨cells, _, hl, hs, rfl⟩), rfl⟩

theorem plain_of_raises {arguments : List String} (hi : Invocation.ofArguments arguments = .ok i)
    {f : Failure} (h : Raises fuel read i f) : ∀ e, f = .machine e → e.Plain := by
  rintro e rfl
  rcases h with ⟨e', _, he⟩ | ⟨cells, e', _, hr, he⟩
  · cases he
  · cases he
    exact hr.plain (plainColor_of_ofArguments hi)

end

/-- The command line prints all or nothing. If it returns 1, nothing is on the standard output and
the last line of the standard error is the report; it returns 1 exactly where the program raises a
failure that is reported; and once the monitor has introduced itself it does not return 1. -/
theorem prints_all_or_nothing (fuel : Nat) (read : String → Except FileError ByteArray)
    (arguments : List String) (stdin : String) :
    (∀ r, run fuel read arguments stdin = some r → r.ending = .exit 1 →
      r.stdout = "" ∧ ∃ log line, r.stderr = log ++ line ++ "\n" ∧ EndsLine log ∧ ReportLine line) ∧
    ((∃ r, run fuel read arguments stdin = some r ∧ r.ending = .exit 1) ↔
      ∃ i f, Invocation.ofArguments arguments = .ok i ∧ Raises fuel read i f ∧ f.Reported) ∧
    ∀ i cells c, Invocation.ofArguments arguments = .ok i →
      ProgramFile.load read i.program = .ok cells →
      startMode fuel i.options cells = some (.conversing c) →
      c.printed = Monitor.introduction ∧
        ∃ r, run fuel read arguments stdin = some r ∧ r.ending ≠ .exit 1 := by
  refine ⟨?_, ⟨?_, ?_⟩, ?_⟩
  · intro r hr he
    obtain ⟨i, t, f, s, hi, ht, hf, hs, rfl⟩ := trail_of_exit_one hr he
    obtain ⟨hout, hraises⟩ := trail_fails ht hf (Failure.reported_iff.mpr ⟨s, hs⟩)
    have hline := Failure.report_line hs (plain_of_raises hi hraises)
    exact ⟨hout, _, s, rfl, endsLine_render _ _, hline⟩
  · rintro ⟨r, hr, he⟩
    obtain ⟨i, t, f, s, hi, ht, hf, hs, _⟩ := trail_of_exit_one hr he
    have hreported := Failure.reported_iff.mpr ⟨s, hs⟩
    exact ⟨i, f, hi, (trail_fails ht hf hreported).2, hreported⟩
  · rintro ⟨i, f, hi, hraises, hreported⟩
    obtain ⟨t, ht, hf⟩ := trail_of_raises stdin hraises
    obtain ⟨s, hs⟩ := Failure.reported_iff.mp hreported
    have hreport := Trail.toReport_reported hf hs (shownLevel i.options)
    exact ⟨_, run_of_trail hi ht, congrArg Report.ending hreport⟩
  · intro i cells c hi hl hs
    have hstarts := startMode_iff.mp hs
    have htrail : i.trail fuel read stdin = some (i.trailOf cells (.conversing c) stdin) :=
      trail_iff.mpr (.inr ⟨cells, _, hl, hstarts, rfl⟩)
    have hintroduced : c.printed = Monitor.introduction := by
      cases hstarts
      rfl
    refine ⟨hintroduced, _, run_of_trail hi htrail, fun he => ?_⟩
    obtain ⟨f, s, hf, hreport⟩ := Trail.toReport_exit_one he
    exact quiet_conversing c stdin f hf (Failure.reported_iff.mpr ⟨s, hreport⟩)

/-- An output that is lost to an unknown operation behind it. -/
theorem prints_all_or_nothing_unknown_operation :
    let read : String → Except FileError ByteArray := fun _ => .ok "104,5,77".toUTF8
    ∃ r, run 2 read ["p"] "" = some r ∧ r.ending = .exit 1 ∧ r.stdout = "" ∧
      (∃ log line, r.stderr = log ++ line ++ "\n" ∧ EndsLine log ∧ ReportLine line) ∧
      ∃ i f, Invocation.ofArguments ["p"] = .ok i ∧ Raises 2 read i f ∧ f.Reported := by
  intro read
  obtain ⟨hsilent, hraises, -⟩ := prints_all_or_nothing 2 read ["p"] ""
  let r : Report := ⟨.exit 1, "", "WARNING intcode: Fault at pc=2: Unknown opcode: 77\n" ++
    "Intcode error: Unknown opcode: 77\n"⟩
  have hr : run 2 read ["p"] "" = some r := by decide +kernel
  obtain ⟨hout, hline⟩ := hsilent r hr rfl
  exact ⟨r, hr, rfl, hout, hline, hraises.mp ⟨r, hr, rfl⟩⟩

end CommandLine

end Intcode
