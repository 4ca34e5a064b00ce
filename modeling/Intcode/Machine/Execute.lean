import Intcode.Machine.Basic

namespace Intcode

inductive Refusal where
  | exhausted (why : Exhaustion)
  | unsupported
deriving DecidableEq, Repr

def Refusal.toError : Refusal → Error
  | .exhausted why => .inputExhausted why
  | .unsupported => .unsupported

/-- What surrounds a machine: it gives a value for each input, and it may take note of each
instruction that the machine has tried, with the machine as it was before. -/
structure Host (σ : Type) where
  take : σ → Except Refusal Value × σ
  watch : Machine → Except Error (Option Int) → σ → σ := fun _ _ s => s

namespace Host

def absent (σ : Type) : Host σ where
  take s := (.error (.exhausted .noSource), s)

def sequence : Host (List Value) where
  take
    | [] => (.error (.exhausted .endOfSequence), [])
    | v :: rest => (.ok v, rest)

end Host

/-- What came of running a machine: a result, and the machine and its host afterwards. -/
structure Outcome (σ α : Type) where
  result : Except Error α
  machine : Machine
  host : σ

inductive Action where
  | store (destination : Nat) (value : Int)
  | receive (destination : Nat)
  | emit (value : Int)
  | jump (target : Int)
  | shiftBase (offset : Int)
  | pass
  | halt
deriving DecidableEq, Repr

namespace Instruction

def operand (i : Instruction) (pc base : Int) (k : Parameter) : Access Int := do
  let raw ← Access.load (pc + k.offset)
  match i.mode k with
  | .immediate => return raw
  | .relative => Access.load (raw + base)
  | .position => Access.load raw

/-- The address that a parameter names for writing, which is a cell from then on. -/
def destination (i : Instruction) (pc base : Int) (k : Parameter) : Access Nat := do
  let raw ← Access.load (pc + k.offset)
  match i.mode k with
  | .immediate => throw .illegalDestination
  | .relative => Access.reserve (raw + base)
  | .position => Access.reserve raw

def combine (i : Instruction) (pc base : Int) (f : Int → Int → Int) : Access Action := do
  let a ← i.operand pc base .first
  let b ← i.operand pc base .second
  let d ← i.destination pc base .third
  return .store d (f a b)

/-- Reads a condition and a target; the target is read whether or not the jump is taken. -/
def branch (i : Instruction) (pc base : Int) (taken : Int → Bool) : Access Action := do
  let a ← i.operand pc base .first
  let target ← i.operand pc base .second
  return if taken a then .jump target else .pass

def resolve (i : Instruction) (pc base : Int) : Access Action :=
  match i.opcode with
  | .add => i.combine pc base (· + ·)
  | .multiply => i.combine pc base (· * ·)
  | .lessThan => i.combine pc base fun a b => if a < b then 1 else 0
  | .equals => i.combine pc base fun a b => if a = b then 1 else 0
  | .input => return .receive (← i.destination pc base .first)
  | .output => return .emit (← i.operand pc base .first)
  | .jumpIfTrue => i.branch pc base (· != 0)
  | .jumpIfFalse => i.branch pc base (· == 0)
  | .adjustBase => return .shiftBase (← i.operand pc base .first)
  | .halt => return .halt

end Instruction

namespace Machine

def fetch (m : Machine) : Access (Instruction × Action) := do
  let i ← Access.load m.pc >>= Access.decode
  return (i, ← i.resolve m.pc m.relativeBase)

def advance (m : Machine) (pc : Int) : Machine :=
  { m with pc, executed := m.executed + 1 }

def perform {σ : Type} (host : Host σ) (m : Machine) (s : σ) (next : Int) :
    Action → Outcome σ (Option Int)
  | .store d v => ⟨.ok none, { m with memory := m.memory.set d v }.advance next, s⟩
  | .receive d =>
    match host.take s with
    | (.error refusal, s) => ⟨.error refusal.toError, m, s⟩
    | (.ok value, s) =>
      match value.toCell with
      | .error e => ⟨.error e, m, s⟩
      | .ok v => ⟨.ok none, { m with memory := m.memory.set d v }.advance next, s⟩
  | .emit v => ⟨.ok (some v), { m with emitted := m.emitted + 1 }.advance next, s⟩
  | .jump target => ⟨.ok none, m.advance target, s⟩
  | .shiftBase n =>
    ⟨.ok none, { m with relativeBase := m.relativeBase + n }.advance next, s⟩
  | .pass => ⟨.ok none, m.advance next, s⟩
  | .halt => ⟨.ok none, { m with status := .halted }.advance m.pc, s⟩

/-- The machine after a fault; a fault that cannot be worded does not stop it. -/
def fail (m : Machine) (f : Fault) : Machine :=
  if f.isWritable then { m with status := .faulted f } else m

def stepInstruction {σ : Type} (host : Host σ) (m : Machine) (s : σ) : Outcome σ (Option Int) :=
  match m.status with
  | .halted => ⟨.error (.halted none), m, s⟩
  | .faulted f => ⟨.error (.halted (some f)), m, s⟩
  | .running =>
    match m.fetch.run m.memory with
    | .error f memory => ⟨.error (.ofFault f), { m with memory }.fail f, s⟩
    | .ok (i, action) memory => { m with memory }.perform host s (m.pc + i.opcode.width) action

end Machine

end Intcode
