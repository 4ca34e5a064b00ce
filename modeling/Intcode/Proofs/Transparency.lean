import Intcode.Proofs.Attempts
import Intcode.Proofs.Command

namespace Intcode

theorem Command.queued_of_inspects {command : Command} (h : command.inspects = true) :
    command.queued = [] := by
  cases command with
  | nothing | unknown line => rfl
  | call verb argument => cases verb <;> first | rfl | cases h

namespace Monitor

/-- The monitor after it has answered lines, whatever came of each. -/
def after (m : Monitor) (lines : List String) : Monitor :=
  lines.foldl (fun m line => (onLine line m).2.1) m

def queued (lines : List String) : List Value :=
  lines.flatMap fun line => (Command.ofLine line).queued

/-- The monitor shows what its machine comes to by itself, in so many attempts on all the values. -/
structure Mirrors (m : Machine) (values : List Value) (n : Nat) (mon : Monitor) : Prop where
  tape : mon.machine.tape = (m.attempts ⟨values⟩ n).machine.tape
  executed : mon.machine.executed = (m.attempts ⟨values⟩ n).machine.executed
  emitted : mon.machine.emitted = (m.attempts ⟨values⟩ n).machine.emitted
  running : mon.machine.status = .running → (m.attempts ⟨values⟩ n).machine.status = .running
  queue : mon.queue = (m.attempts ⟨values⟩ n).queue
  outputs : mon.outputs = (m.attempts ⟨values⟩ n).emissions
  refusals : ∀ e, .error e ∈ (m.attempts ⟨values⟩ n).results → ∃ value, e = .notInteger value

section

variable {m : Machine} {values : List Value} {n : Nat} {mon : Monitor}

theorem Mirrors.inject (h : Mirrors m values n mon) (more : List Value) :
    Mirrors m (values ++ more) n { mon with queue := mon.queue.inject more } := by
  have hlate : m.attempts ⟨values ++ more⟩ n =
      { m.attempts ⟨values⟩ n with queue := (m.attempts ⟨values⟩ n).queue.inject more } :=
    Machine.attempts_inject more h.refusals
  constructor <;> rw [hlate]
  · exact h.tape
  · exact h.executed
  · exact h.emitted
  · exact h.running
  · rw [h.queue]
  · exact h.outputs
  · exact h.refusals

theorem Mirrors.attempt_counts (h : Mirrors m values n mon) (hr : mon.machine.status = .running)
    (hc : ∀ e, (mon.machine.stepInstruction Queue.host mon.queue).result = .error e →
      ∃ value, e = .notInteger value) : Mirrors m values (n + 1) mon.attempt := by
  have halike : (m.attempts ⟨values⟩ n).machine.Alike mon.machine :=
    ⟨h.tape, hr.trans (h.running hr).symm, h.executed, h.emitted⟩
  obtain ⟨hresult, hhost, hafter⟩ :=
    Machine.stepInstruction_alike Queue.host halike (m.attempts ⟨values⟩ n).queue
  rw [← h.queue] at hresult hhost hafter
  have hanother : m.attempts ⟨values⟩ (n + 1) =
      ⟨(m.attempts ⟨values⟩ n).results ++
          [(mon.machine.stepInstruction Queue.host mon.queue).result],
        ((m.attempts ⟨values⟩ n).machine.stepInstruction Queue.host mon.queue).machine,
        (mon.machine.stepInstruction Queue.host mon.queue).host⟩ := by
    rw [hresult, hhost, h.queue]
    rfl
  constructor <;> rw [hanother]
  · exact hafter.tape
  · exact hafter.executed
  · exact hafter.emitted
  · exact fun hr' => hafter.status.symm.trans hr'
  · rfl
  · have hnew : mon.attempt.outputs = mon.outputs ++
        Machine.emissionOf (mon.machine.stepInstruction Queue.host mon.queue).result := rfl
    rw [hnew, h.outputs]
    simp [Attempts.emissions]
  · intro e he
    rcases List.mem_append.mp he with hold | hlast
    · exact h.refusals e hold
    · exact hc e (List.mem_singleton.mp hlast).symm

theorem Mirrors.attempt_fails (h : Mirrors m values n mon) {e : Error}
    (he : (mon.machine.stepInstruction Queue.host mon.queue).result = .error e)
    (hne : ∀ value, e ≠ .notInteger value) : Mirrors m values n mon.attempt := by
  have hfails := Machine.failsAtomically_of_queue he
  have hout : mon.attempt.outputs = mon.outputs := by
    simp [attempt, stepInstruction, he, Machine.emissionOf]
  have hrunning : mon.attempt.machine.status = .running → mon.machine.status = .running := by
    intro hr
    by_contra hs
    obtain ⟨cause, rfl⟩ := hfails.refusing hs
    obtain ⟨_, hm⟩ := hfails.stopped cause rfl
    exact hs (hm ▸ hr)
  refine ⟨?_, ?_, ?_, ?_, ?_, ?_, h.refusals⟩
  · exact hfails.kept.tape.trans h.tape
  · exact hfails.kept.executed.trans h.executed
  · exact hfails.kept.emitted.trans h.emitted
  · exact fun hr => h.running (hrunning hr)
  · exact (hfails.queue hne).trans h.queue
  · exact hout.trans h.outputs

theorem Mirrors.attempt (h : Mirrors m values n mon) : ∃ n', Mirrors m values n' mon.attempt := by
  by_cases hs : mon.machine.status = .running
  · by_cases hc : ∀ e, (mon.machine.stepInstruction Queue.host mon.queue).result = .error e →
        ∃ value, e = .notInteger value
    · exact ⟨n + 1, h.attempt_counts hs hc⟩
    · push Not at hc
      obtain ⟨e, he, hne⟩ := hc
      exact ⟨n, h.attempt_fails he hne⟩
  · obtain ⟨cause, hm⟩ := Machine.move_of_stopped hs
    have he : (mon.machine.stepInstruction Queue.host mon.queue).result =
        .error (.halted cause) := by
      rw [Machine.stepInstruction_eq_meet, hm]
      rfl
    exact ⟨n, h.attempt_fails he nofun⟩

end

theorem mirrors_start (m : Machine) (q : Queue) :
    Mirrors m q.pending 0 { machine := m, queue := q } :=
  ⟨rfl, rfl, rfl, id, rfl, rfl, by simp [Machine.attempts]⟩

/-- A line that writes no memory keeps the monitor a mirror, on the values queued so far. -/
theorem mirrors_onLine {m : Machine} {values : List Value} {mon : Monitor} {line : String}
    (hw : (Command.ofLine line).writes = false) (h : ∃ n, Mirrors m values n mon) :
    ∃ n, Mirrors m (values ++ (Command.ofLine line).queued) n (onLine line mon).2.1 := by
  rw [onLine_monitor]
  generalize Command.ofLine line = command at hw
  by_cases hi : command.inspects = true
  · rw [Command.queued_of_inspects hi, List.append_nil]
    have hkeeps : Session.Keeps (fun mon' => ∃ n, Mirrors m values n mon') (fun _ => True)
        (Session.carryOut command) := by
      refine .carryOut_of_inspects (fun mon' breakpoints ⟨n, h'⟩ => ?_) (fun _ _ => trivial) hi
      exact ⟨n, h'.tape, h'.executed, h'.emitted, h'.running, h'.queue, h'.outputs, h'.refusals⟩
    exact hkeeps.kept _ h
  · have hattempt : Session.Attempting (fun mon' => ∃ n, Mirrors m values n mon') fun _ => True :=
      ⟨fun mon' ⟨_, h'⟩ => h'.attempt, fun _ _ _ _ => trivial⟩
    cases command with
    | nothing | unknown line => exact absurd rfl hi
    | call verb argument =>
      cases verb with
      | setmem => cases hw
      | bp | bpd | disasm | dump | endOfInput | help | output | quit | regs | status =>
        exact absurd rfl hi
      | input =>
        obtain ⟨n, h⟩ := h
        have hleft : (Session.carryOut (.call .input argument)).leaves { monitor := mon } =
            { mon with queue := mon.queue.inject (Command.queued (.call .input argument)) } :=
          (Session.leaves_bind_pure _ _ _).trans (Session.leaves_inputCommand argument _)
        rw [hleft]
        exact ⟨n, h.inject _⟩
      | step =>
        have hkeeps := (Session.Keeps.stepCommand hattempt argument).kept { monitor := mon } h
        rw [← Session.leaves_bind_pure _ false] at hkeeps
        rwa [← List.append_nil values] at hkeeps
      | run | continue_ =>
        have hkeeps := (Session.Keeps.runCommand hattempt argument).kept { monitor := mon } h
        rw [← Session.leaves_bind_pure _ false] at hkeeps
        rwa [← List.append_nil values] at hkeeps

theorem mirrors_after {m : Machine} {values : List Value} {mon : Monitor} {lines : List String}
    (hw : ∀ line ∈ lines, (Command.ofLine line).writes = false) (h : ∃ n, Mirrors m values n mon) :
    ∃ n, Mirrors m (values ++ queued lines) n (mon.after lines) := by
  induction lines generalizing values mon with
  | nil => simpa [queued, after] using h
  | cons line lines ih =>
    have hfirst := mirrors_onLine (hw line List.mem_cons_self) h
    have hrest := ih (fun l hl => hw l (List.mem_cons_of_mem _ hl)) hfirst
    rw [List.append_assoc] at hrest
    exact hrest

/-- A session that writes no memory is transparent: the monitor is where its machine gets by itself
on all the values queued, and it has shown what that machine emits. Looking changes nothing. -/
theorem session_transparent {program : List Value} {m : Machine}
    (h : Machine.load program = .ok m) (q : Queue) {lines : List String}
    (hw : ∀ line ∈ lines, (Command.ofLine line).writes = false) :
    let mon := after { machine := m, queue := q } lines
    let values := q.pending ++ queued lines
    (∃ n, Mirrors m values n mon ∧
      (m.attempts ⟨values⟩ n).completed = mon.machine.executed ∧
      ((∀ v ∈ values, ∃ k, v = .integer k) → n = mon.machine.executed)) ∧
    mon.outputs.length = mon.machine.emitted ∧
    mon.queue.pending <:+ values ∧
    ∀ line mon', (Command.ofLine line).inspects = true →
      (onLine line mon').2.1.machine = mon'.machine ∧
      (onLine line mon').2.1.queue = mon'.queue := by
  intro mon values
  obtain ⟨n, hm⟩ : ∃ n, Mirrors m values n mon := mirrors_after hw ⟨0, mirrors_start m q⟩
  obtain ⟨cells, _, rfl⟩ := Machine.load_ok h
  have hcompleted : (Machine.attempts (.ofCells cells) ⟨values⟩ n).completed =
      mon.machine.executed := by
    have hcount := Machine.attempts_executed (.ofCells cells) ⟨values⟩ n
    have hfresh : (Machine.ofCells cells).executed = 0 := rfl
    rw [hm.executed]
    omega
  refine ⟨⟨n, hm, hcompleted, fun hall => ?_⟩, ?_, ?_, fun line mon' hi => ?_⟩
  · have hok : ∀ r ∈ (Machine.attempts (.ofCells cells) ⟨values⟩ n).results, r.isOk = true := by
      intro r hr
      cases r with
      | ok out => rfl
      | error e =>
        obtain ⟨value, rfl⟩ := hm.refusals e hr
        exact absurd hr (Machine.attempts_integer hall n value)
    have hlength := Machine.attempts_length (.ofCells cells) ⟨values⟩ n
    rw [← hcompleted, Attempts.completed, List.countP_eq_length.mpr hok, hlength]
  · have hcount := Machine.attempts_emitted (.ofCells cells) ⟨values⟩ n
    have hfresh : (Machine.ofCells cells).emitted = 0 := rfl
    rw [hm.outputs, hm.emitted]
    omega
  · rw [hm.queue]
    exact Machine.attempts_suffix _ ⟨values⟩ n
  · rw [onLine_monitor]
    have hkeeps : Session.Keeps (fun m => m.machine = mon'.machine ∧ m.queue = mon'.queue)
        (fun _ => True) (Session.carryOut (Command.ofLine line)) :=
      .carryOut_of_inspects (fun _ _ hsame => hsame) (fun _ _ => trivial) hi
    exact hkeeps.kept { monitor := mon' } ⟨rfl, rfl⟩

/-- A session with a refused value, a wait, a bad line and a breakpoint. -/
theorem session_transparent_interrupted :
    let m := Machine.ofCells [3, 20, 104, 5, 3, 20, 4, 20, 99]
    let q : Queue := ⟨[.boolean true]⟩
    let lines :=
      ["run", "input 7", "step 2", "dump", "run", "input 0x8 oops", "input 0x8", "bp 6", "run",
      "c", "run"]
    let mon := after { machine := m, queue := q } lines
    (∀ line ∈ lines, (Command.ofLine line).writes = false) ∧
      (∃ n, Mirrors m [.boolean true, .integer 7, .integer 8] n mon) ∧
      mon.outputs = [5, 8] ∧ mon.machine.executed = 5 := by
  intro m q lines mon
  have hload : Machine.load ([3, 20, 104, 5, 3, 20, 4, 20, 99].map .integer) = .ok m := rfl
  have hw : ∀ line ∈ lines, (Command.ofLine line).writes = false := by decide +kernel
  have hqueued : queued lines = [.integer 7, .integer 8] := by decide +kernel
  obtain ⟨⟨n, hm, _⟩, _⟩ := session_transparent hload q hw
  rw [hqueued] at hm
  exact ⟨hw, ⟨n, hm⟩, by decide +kernel, by decide +kernel⟩

end Monitor

end Intcode
