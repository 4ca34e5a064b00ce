import Intcode.Proofs.Tape
import Mathlib.Logic.Function.Basic

namespace Intcode

namespace Tape

def write (t : Tape) (a : Nat) (v : Int) : Tape := { t with cell := Function.update t.cell a v }

/-- What an instruction does once its operands are read; only an input needs the host. -/
inductive Effect where
  | become (t : Tape)
  | emit (v : Int) (t : Tape)
  | receive (destination : Nat) (t : Tape)
  | halt

/-- Decodes the instruction, reads its operands in order and tells its effect. -/
def effect (t : Tape) : Except Fault Effect := do
  let i ← t.instruction
  let next := { t with pc := t.pc + i.opcode.width }
  match i.opcode with
  | .add =>
    let a ← t.value i .first
    let b ← t.value i .second
    let d ← t.target i .third
    return .become (next.write d (a + b))
  | .multiply =>
    let a ← t.value i .first
    let b ← t.value i .second
    let d ← t.target i .third
    return .become (next.write d (a * b))
  | .lessThan =>
    let a ← t.value i .first
    let b ← t.value i .second
    let d ← t.target i .third
    return .become (next.write d (if a < b then 1 else 0))
  | .equals =>
    let a ← t.value i .first
    let b ← t.value i .second
    let d ← t.target i .third
    return .become (next.write d (if a = b then 1 else 0))
  | .input => return .receive (← t.target i .first) next
  | .output => return .emit (← t.value i .first) next
  | .jumpIfTrue =>
    let a ← t.value i .first
    let b ← t.value i .second
    return .become (if a = 0 then next else { t with pc := b })
  | .jumpIfFalse =>
    let a ← t.value i .first
    let b ← t.value i .second
    return .become (if a = 0 then { t with pc := b } else next)
  | .adjustBase => return .become { next with base := t.base + (← t.value i .first) }
  | .halt => return .halt

structure Completion where
  tape : Tape
  output : Option Int := none
  halts : Bool := false

/-- Has an effect on a tape, asking the host for a value if one is awaited. -/
def settle {σ : Type} (host : Host σ) (t : Tape) (s : σ) : Effect → Except Error Completion × σ
  | .become t => (.ok { tape := t }, s)
  | .emit v t => (.ok { tape := t, output := some v }, s)
  | .halt => (.ok { tape := t, halts := true }, s)
  | .receive d t =>
    match host.take s with
    | (.error refusal, s) => (.error refusal.toError, s)
    | (.ok value, s) => (value.toCell.map fun v => { tape := t.write d v }, s)

/-- One instruction; a fault is the error whatever number it names. -/
def step {σ : Type} (host : Host σ) (t : Tape) (s : σ) : Except Error Completion × σ :=
  match t.effect with
  | .error f => (.error (.fault f), s)
  | .ok e => t.settle host s e

end Tape

def Error.statusAfter : Error → Status
  | .fault f => .faulted f
  | _ => .running

/-- An outcome is what a step on the machine's tape came to. -/
structure Machine.Follows {σ : Type} (m : Machine) (o : Outcome σ (Option Int))
    (r : Except Error Tape.Completion × σ) : Prop where
  result : o.result = r.1.map Tape.Completion.output
  host : o.host = r.2
  completed : ∀ c, r.1 = .ok c →
    o.machine.tape = c.tape ∧ o.machine.status = (if c.halts then .halted else .running) ∧
      o.machine.executed = m.executed + 1 ∧
      o.machine.emitted = m.emitted + (if c.output.isSome then 1 else 0)
  failed : ∀ e, r.1 = .error e →
    o.machine.tape = m.tape ∧ o.machine.executed = m.executed ∧ o.machine.emitted = m.emitted ∧
      o.machine.status = e.statusAfter

namespace Tape

/-- The effect of an action on the tape, for an instruction that ends at `next`. -/
def meaning (t : Tape) (next : Int) : Action → Effect
  | .store d v => .become ({ t with pc := next }.write d v)
  | .receive d => .receive d { t with pc := next }
  | .emit v => .emit v { t with pc := next }
  | .jump target => .become { t with pc := target }
  | .shiftBase n => .become { t with pc := next, base := t.base + n }
  | .pass => .become { t with pc := next }
  | .halt => .halt

theorem effect_eq_meaning (t : Tape) :
    t.effect = t.fetch.map fun (i, action) => t.meaning (t.pc + i.opcode.width) action := by
  unfold effect fetch action
  cases t.instruction with
  | error f => rfl
  | ok i =>
    obtain ⟨op, mode1, mode2, mode3⟩ := i
    simp only [bind, Except.bind]
    generalize t.value ⟨op, mode1, mode2, mode3⟩ .first = first
    generalize t.value ⟨op, mode1, mode2, mode3⟩ .second = second
    cases op with
    | halt => rfl
    | input => cases t.target ⟨.input, mode1, mode2, mode3⟩ .first <;> rfl
    | output | adjustBase => cases first <;> rfl
    | add | multiply | lessThan | equals =>
      cases first with
      | error f => rfl
      | ok a =>
        cases second with
        | error f => rfl
        | ok b => cases t.target ⟨_, mode1, mode2, mode3⟩ .third <;> rfl
    | jumpIfTrue | jumpIfFalse =>
      cases first with
      | error f => rfl
      | ok a =>
        cases second with
        | error f => rfl
        | ok b => by_cases h : a = 0 <;> simp [h, Except.map, meaning, pure, Except.pure]

end Tape

namespace Machine

open Access

theorem get_set_eq_update {m : Memory} {d : Nat} (h : d < m.size) (v : Int) :
    (m.set d v).get = Function.update m.get d v := by
  funext a
  rw [Memory.get_set, Function.update_apply]
  by_cases ha : d = a
  · simp [ha, ha ▸ h]
  · simp [ha, Ne.symm ha]

section

variable {σ : Type} {m : Machine} {o : Outcome σ (Option Int)}

theorem Follows.of_ok {c : Tape.Completion} (hr : o.result = .ok c.output)
    (ht : o.machine.tape = c.tape)
    (hs : o.machine.status = if c.halts then .halted else .running)
    (hx : o.machine.executed = m.executed + 1)
    (he : o.machine.emitted = m.emitted + if c.output.isSome then 1 else 0) :
    m.Follows o (.ok c, o.host) := by
  refine ⟨hr, rfl, fun c' hc => ?_, fun e hc => ?_⟩
  · cases hc
    exact ⟨ht, hs, hx, he⟩
  · cases hc

theorem Follows.of_error {e : Error} (hr : o.result = .error e) (ht : o.machine.tape = m.tape)
    (hx : o.machine.executed = m.executed) (he : o.machine.emitted = m.emitted)
    (hs : o.machine.status = e.statusAfter) : m.Follows o (.error e, o.host) := by
  refine ⟨hr, rfl, fun c hc => ?_, fun e' hc => ?_⟩
  · cases hc
  · cases hc
    exact ⟨ht, hx, he, hs⟩

end

theorem perform_follows {σ : Type} (host : Host σ) {m : Machine} (s : σ) (next : Int)
    {action : Action} (hr : m.status = .running)
    (hd : ∀ d, action.destination? = some d → d < m.memory.size) :
    m.Follows (m.perform host s next action)
      (m.tape.settle host s (m.tape.meaning next action)) := by
  cases action with
  | store d v =>
    refine .of_ok rfl ?_ hr rfl rfl
    simp only [perform, advance, tape, Tape.write, get_set_eq_update (hd d rfl)]
  | receive d =>
    simp only [perform, Tape.meaning, Tape.settle]
    obtain ⟨given, s'⟩ := host.take s
    cases given with
    | error refusal =>
      refine .of_error rfl rfl rfl rfl ?_
      cases refusal <;> exact hr
    | ok value =>
      simp only
      cases hv : value.toCell with
      | error e =>
        cases Value.toCell_error hv
        exact .of_error rfl rfl rfl rfl hr
      | ok v =>
        refine .of_ok rfl ?_ hr rfl rfl
        simp only [advance, tape, Tape.write, get_set_eq_update (hd d rfl)]
  | emit v => exact .of_ok rfl rfl hr rfl rfl
  | jump target => exact .of_ok rfl rfl hr rfl rfl
  | shiftBase n => exact .of_ok rfl rfl hr rfl rfl
  | pass => exact .of_ok rfl rfl hr rfl rfl
  | halt => exact .of_ok rfl rfl rfl rfl rfl

theorem settle_ne_fault {σ : Type} (host : Host σ) (t : Tape) (s : σ) (e : Tape.Effect)
    (f : Fault) :
    (t.settle host s e).1 ≠ .error (.fault f) := by
  intro h
  cases e with
  | become t' => cases h
  | emit v t' => cases h
  | halt => cases h
  | receive d t' =>
    simp only [Tape.settle] at h
    generalize host.take s = taken at h
    obtain ⟨given, s'⟩ := taken
    cases given with
    | error refusal => cases refusal <;> cases h
    | ok value => cases value <;> cases h

theorem stepInstruction_on_tape {σ : Type} (host : Host σ) {m : Machine} (s : σ)
    (hr : m.status = .running) :
    (∃ f memory, m.tape.step host s = (.error (.fault f), s) ∧ { m with memory }.tape = m.tape ∧
      m.stepInstruction host s = ⟨.error (.ofFault f), { m with memory }.fail f, s⟩) ∨
    (m.Follows (m.stepInstruction host s) (m.tape.step host s) ∧
      ∀ f, (m.tape.step host s).1 ≠ .error (.fault f)) := by
  obtain ⟨extent, he⟩ := Access.Views.fetch m
  have hrun := he m.memory
  change m.fetch.run m.memory =
    Access.leave m.tape.fetch (m.memory.grow (extent m.memory.get)) at hrun
  generalize hg : m.memory.grow (extent m.memory.get) = grown at hrun
  have ht : { m with memory := grown }.tape = m.tape := by simp [tape, ← hg]
  cases hf : m.tape.fetch with
  | error f =>
    refine .inl ⟨f, grown, ?_, ht, ?_⟩
    · simp [Tape.step, Tape.effect_eq_meaning, hf, Except.map]
    · simp [stepInstruction, hr, hrun, hf, Access.leave]
  | ok fetched =>
    obtain ⟨i, action⟩ := fetched
    have hstep : m.tape.step host s =
        m.tape.settle host s (m.tape.meaning (m.pc + i.opcode.width) action) := by
      simp only [Tape.step, Tape.effect_eq_meaning, hf, Except.map]
      rfl
    have hout : m.stepInstruction host s =
        { m with memory := grown }.perform host s (m.pc + i.opcode.width) action := by
      simp [stepInstruction, hr, hrun, hf, Access.leave]
    rw [hstep, hout]
    refine .inr ⟨?_, settle_ne_fault host _ s _⟩
    have hfollows :=
      perform_follows host s (m.pc + i.opcode.width) (m := { m with memory := grown })
      hr (fetch_covers (hrun.trans (by rw [hf]; rfl)))
    rw [ht] at hfollows
    exact ⟨hfollows.result, hfollows.host, hfollows.completed, fun e hc => by
      rw [← ht]
      exact hfollows.failed e hc⟩

/-- An instruction on the memory is a step on the tape exactly where the fault of that step, if any,
can be worded; a fault that cannot be worded becomes another error and leaves the machine
running. -/
theorem stepInstruction_follows_tape {σ : Type} (host : Host σ) {m : Machine} (s : σ)
    (hr : m.status = .running) :
    (m.Follows (m.stepInstruction host s) (m.tape.step host s) ↔
      ∀ f, (m.tape.step host s).1 = .error (.fault f) → f.isWritable = true) ∧
    ∀ f, (m.tape.step host s).1 = .error (.fault f) → f.isWritable = false →
      (m.stepInstruction host s).result = .error (.numeral .tooLong) ∧
      (m.stepInstruction host s).machine.status = .running ∧
      (m.stepInstruction host s).machine.tape = m.tape := by
  rcases stepInstruction_on_tape host s hr with ⟨f, memory, hstep, ht, hout⟩ | ⟨hfollows, hne⟩
  · rw [hstep, hout]
    cases hw : f.isWritable with
    | true =>
      refine ⟨⟨fun _ g hg => ?_, fun _ => ?_⟩, fun g hg hn => ?_⟩
      · cases hg
        exact hw
      · simp only [Error.ofFault, fail, hw, if_true]
        exact .of_error rfl ht rfl rfl rfl
      · cases hg
        simp [hw] at hn
    | false =>
      refine ⟨⟨fun hfollows => ?_, fun hall => ?_⟩, fun g hg _ => ?_⟩
      · have := hfollows.result
        simp [Error.ofFault, hw, Except.map] at this
      · simp [hall f rfl] at hw
      · cases hg
        simp only [Error.ofFault, fail, hw]
        exact ⟨rfl, hr, ht⟩
  · exact ⟨⟨fun _ f hf => absurd hf (hne f), fun _ => hfollows⟩, fun f hf => absurd hf (hne f)⟩

/-- A product of the instruction's own cell that replaces that cell. -/
theorem stepInstruction_follows_tape_over_itself :
    let m : Machine := { memory := .ofList [5, 7, 21202, 1, -4, 1, 99], pc := 2, relativeBase := 1 }
    m.Follows (m.stepInstruction (.absent Unit) ()) (m.tape.step (.absent Unit) ()) ∧
      (m.stepInstruction (.absent Unit) ()).machine.memory.toList =
        [5, 7, -84808, 1, -4, 1, 99] := by
  intro m
  have hok : (m.tape.step (.absent Unit) ()).1.isOk = true := by decide +kernel
  refine ⟨(stepInstruction_follows_tape (.absent Unit) () rfl).1.mpr fun f hf => ?_,
    by decide +kernel⟩
  rw [hf] at hok
  cases hok

theorem effect_output_from {a : Int} {f : Fault}
    (h : (ofCells [4, a, 99]).tape.read a = .error f) :
    (ofCells [4, a, 99]).tape.effect = .error f := by
  have hi : (ofCells [4, a, 99]).tape.instruction =
      .ok ⟨.output, .position, .position, .position⟩ := by
    change Instruction.decode ((Memory.ofList [4, a, 99]).get 0) = _
    rw [show (Memory.ofList [4, a, 99]).get 0 = 4 from rfl]
    rfl
  have hv : (ofCells [4, a, 99]).tape.value ⟨.output, .position, .position, .position⟩ .first =
      .error f := h
  rw [Tape.effect, hi]
  simp only [bind, Except.bind, hv]

theorem output_loses_fault {a : Int} (hneg : a < 0) (hlong : Numeral.isWritable a = false) :
    ¬ (ofCells [4, a, 99]).Follows ((ofCells [4, a, 99]).stepInstruction (.absent Unit) ())
        ((ofCells [4, a, 99]).tape.step (.absent Unit) ()) ∧
      ((ofCells [4, a, 99]).tape.step (.absent Unit) ()).1 = .error (.fault (.negativeAddress a)) ∧
      ((ofCells [4, a, 99]).stepInstruction (.absent Unit) ()).result = .error (.numeral .tooLong) ∧
      ((ofCells [4, a, 99]).stepInstruction (.absent Unit) ()).machine.status = .running := by
  have hf : (Fault.negativeAddress a).isWritable = false := hlong
  have hread : (ofCells [4, a, 99]).tape.read a = .error (.negativeAddress a) := by
    rw [Tape.read, index, if_pos hneg]
    rfl
  have hstep : (ofCells [4, a, 99]).tape.step (.absent Unit) () =
      (.error (.fault (.negativeAddress a)), ()) := by
    rw [Tape.step, effect_output_from hread]
  rcases stepInstruction_on_tape (.absent Unit) () (m := ofCells [4, a, 99]) rfl with
    ⟨g, memory, hs, _, hout⟩ | ⟨_, hne⟩
  · rw [hstep] at hs
    cases hs
    have hresult : Error.ofFault (.negativeAddress a) = .numeral .tooLong := by
      simp [Error.ofFault, hf]
    rw [hstep, hout]
    refine ⟨fun hfollows => ?_, rfl, congrArg Except.error hresult, by simp [fail, hf, ofCells]⟩
    have hsame := hfollows.result
    rw [hresult] at hsame
    cases hsame
  · exact absurd (congrArg Prod.fst hstep) (hne _)

theorem isWritable_neg_writeBound : Numeral.isWritable (-(Numeral.writeBound : Int)) = false := by
  rw [Numeral.isWritable, Int.natAbs_neg, Int.natAbs_natCast]
  exact decide_eq_false (Nat.lt_irrefl _)

theorem neg_writeBound_neg : -(Numeral.writeBound : Int) < 0 :=
  Int.neg_neg_of_pos (Int.natCast_pos.mpr Numeral.writeBound_pos)

/-- An output from an address that is too long to write, whose fault is lost. -/
theorem stepInstruction_loses_unwritable_fault :
    let m := Machine.ofCells [4, -(Numeral.writeBound : Int), 99]
    let f := Fault.negativeAddress (-(Numeral.writeBound : Int))
    ¬ m.Follows (m.stepInstruction (.absent Unit) ()) (m.tape.step (.absent Unit) ()) ∧
      (m.tape.step (.absent Unit) ()).1 = .error (.fault f) ∧
      (m.stepInstruction (.absent Unit) ()).result = .error (.numeral .tooLong) ∧
      (m.stepInstruction (.absent Unit) ()).machine.status = .running :=
  output_loses_fault neg_writeBound_neg isWritable_neg_writeBound

end Machine

end Intcode
