import Intcode.Proofs.Growth

namespace Intcode

/-- A machine with a cell at every address. -/
structure Tape where
  cell : Nat → Int
  pc : Int
  base : Int

namespace Tape

def read (t : Tape) (address : Int) : Except Fault Int := (Access.index address).map t.cell

def raw (t : Tape) (k : Parameter) : Int := t.cell (t.pc + k.offset).toNat

/-- The value of a parameter with this mode and cell. -/
def valueOf (t : Tape) (mode : Mode) (raw : Int) : Except Fault Int :=
  match mode with
  | .position => t.read raw
  | .immediate => .ok raw
  | .relative => t.read (raw + t.base)

/-- The address that a parameter with this mode and cell names for writing. -/
def targetOf (t : Tape) (mode : Mode) (raw : Int) : Except Fault Nat :=
  match mode with
  | .position => Access.index raw
  | .immediate => .error .illegalDestination
  | .relative => Access.index (raw + t.base)

def value (t : Tape) (i : Instruction) (k : Parameter) : Except Fault Int :=
  t.valueOf (i.mode k) (t.raw k)

def target (t : Tape) (i : Instruction) (k : Parameter) : Except Fault Nat :=
  t.targetOf (i.mode k) (t.raw k)

def instruction (t : Tape) : Except Fault Instruction := t.read t.pc >>= Instruction.decode

def action (t : Tape) (i : Instruction) : Except Fault Action :=
  let combine (f : Int → Int → Int) : Except Fault Action := do
    let a ← t.value i .first
    let b ← t.value i .second
    let d ← t.target i .third
    return .store d (f a b)
  let branch (taken : Int → Bool) : Except Fault Action := do
    let a ← t.value i .first
    let b ← t.value i .second
    return if taken a then .jump b else .pass
  match i.opcode with
  | .add => combine (· + ·)
  | .multiply => combine (· * ·)
  | .lessThan => combine fun a b => if a < b then 1 else 0
  | .equals => combine fun a b => if a = b then 1 else 0
  | .input => do return .receive (← t.target i .first)
  | .output => do return .emit (← t.value i .first)
  | .jumpIfTrue => branch (· != 0)
  | .jumpIfFalse => branch (· == 0)
  | .adjustBase => do return .shiftBase (← t.value i .first)
  | .halt => return .halt

def fetch (t : Tape) : Except Fault (Instruction × Action) := do
  let i ← t.instruction
  return (i, ← t.action i)

end Tape

/-- The tape that a machine's memory stands for. -/
def Machine.tape (m : Machine) : Tape := ⟨m.memory.get, m.pc, m.relativeBase⟩

/-- The cell that an action is going to store into. -/
def Action.destination? : Action → Option Nat
  | .store d _ => some d
  | .receive d => some d
  | _ => none

namespace Access

theorem Views.operand {pc : Int} (hpc : 0 ≤ pc) (base : Int) (i : Instruction) (k : Parameter) :
    (i.operand pc base k).Views fun cells => Tape.value ⟨cells, pc, base⟩ i k := by
  unfold Instruction.operand
  refine ((Views.load (pc + k.offset)).bind
    (w := fun raw cells => Tape.valueOf ⟨cells, pc, base⟩ (i.mode k) raw) fun raw => ?_).of_eq
      fun cells => ?_
  · cases i.mode k with
    | position => exact .load raw
    | immediate => exact .pure raw
    | relative => exact .load (raw + base)
  · rw [index, if_neg (by omega)]
    rfl

theorem Views.destination {pc : Int} (hpc : 0 ≤ pc) (base : Int) (i : Instruction) (k : Parameter) :
    (i.destination pc base k).Views fun cells => Tape.target ⟨cells, pc, base⟩ i k := by
  unfold Instruction.destination
  refine ((Views.load (pc + k.offset)).bind
    (w := fun raw cells => Tape.targetOf ⟨cells, pc, base⟩ (i.mode k) raw) fun raw => ?_).of_eq
      fun cells => ?_
  · cases i.mode k with
    | position => exact .reserve raw
    | immediate => exact .fault .illegalDestination
    | relative => exact .reserve (raw + base)
  · rw [index, if_neg (by omega)]
    rfl

theorem Views.resolve {pc : Int} (hpc : 0 ≤ pc) (base : Int) (i : Instruction) :
    (i.resolve pc base).Views fun cells => Tape.action ⟨cells, pc, base⟩ i := by
  have first := Views.operand hpc base i .first
  have second := Views.operand hpc base i .second
  unfold Instruction.resolve Tape.action
  cases i.opcode with
  | add | multiply | lessThan | equals =>
    exact first.bind fun a => second.bind fun b =>
      (Views.destination hpc base i .third).bind fun d => .pure _
  | jumpIfTrue | jumpIfFalse => exact first.bind fun a => second.bind fun b => .pure _
  | input => exact (Views.destination hpc base i .first).bind fun d => .pure _
  | output | adjustBase => exact first.bind fun a => .pure _
  | halt => exact .pure _

theorem Views.fetch (m : Machine) :
    m.fetch.Views fun cells => Tape.fetch ⟨cells, m.pc, m.relativeBase⟩ := by
  by_cases hpc : m.pc < 0
  · refine ⟨fun _ => 0, fun memory => ?_⟩
    have hview : Tape.fetch ⟨memory.get, m.pc, m.relativeBase⟩ =
        .error (.negativeAddress m.pc) := by
      rw [Tape.fetch, Tape.instruction, Tape.read, index, if_pos hpc]
      rfl
    simp [hview, Machine.fetch, EStateM.run_bind, run_load, hpc, leave, Memory.grow]
  · have resolved (i : Instruction) := (Views.resolve (Int.not_lt.mp hpc) m.relativeBase i).bind
      fun action => Views.pure (i, action)
    exact (((Views.load m.pc).bind Views.decode).bind resolved).of_eq fun cells => rfl

theorem reserve_covers {address : Int} {memory memory' : Memory} {a : Nat}
    (h : (reserve address).run memory = .ok a memory') : a < memory'.size := by
  rw [run_reserve] at h
  split at h
  next => simp at h
  next =>
    simp only [EStateM.Result.ok.injEq] at h
    obtain ⟨rfl, rfl⟩ := h
    simp only [Memory.size_cover]
    omega

theorem destination_covers {i : Instruction} {pc base : Int} {k : Parameter}
    {memory memory' : Memory}
    {d : Nat} (h : (i.destination pc base k).run memory = .ok d memory') : d < memory'.size := by
  obtain ⟨raw, between, _, h⟩ := run_bind_ok h
  cases hm : i.mode k with
  | position => exact reserve_covers (by simpa only [hm] using h)
  | immediate =>
    simp only [hm] at h
    cases h
  | relative => exact reserve_covers (by simpa only [hm] using h)

theorem resolve_covers {i : Instruction} {pc base : Int} {memory memory' : Memory} {action : Action}
    (h : (i.resolve pc base).run memory = .ok action memory') {d : Nat}
    (hd : action.destination? = some d) : d < memory'.size := by
  unfold Instruction.resolve at h
  cases ho : i.opcode with
  | add | multiply | lessThan | equals =>
    simp only [ho] at h
    obtain ⟨a, _, _, h⟩ := run_bind_ok h
    obtain ⟨b, _, _, h⟩ := run_bind_ok h
    obtain ⟨e, _, he, h⟩ := run_bind_ok h
    cases h
    cases hd
    exact destination_covers he
  | input =>
    simp only [ho] at h
    obtain ⟨e, _, he, h⟩ := run_bind_ok h
    cases h
    cases hd
    exact destination_covers he
  | jumpIfTrue | jumpIfFalse =>
    simp only [ho] at h
    obtain ⟨a, _, _, h⟩ := run_bind_ok h
    obtain ⟨b, _, _, h⟩ := run_bind_ok h
    cases h
    split at hd <;> cases hd
  | output | adjustBase =>
    simp only [ho] at h
    obtain ⟨a, _, _, h⟩ := run_bind_ok h
    cases h
    cases hd
  | halt =>
    simp only [ho] at h
    cases h
    cases hd

theorem fetch_covers {m : Machine} {i : Instruction} {memory memory' : Memory} {action : Action}
    (h : m.fetch.run memory = .ok (i, action) memory') (d : Nat)
    (hd : action.destination? = some d) : d < memory'.size := by
  obtain ⟨j, _, _, h⟩ := run_bind_ok h
  obtain ⟨a, _, ha, h⟩ := run_bind_ok h
  cases h
  exact resolve_covers ha hd

end Access

end Intcode
