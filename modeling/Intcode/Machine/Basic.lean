import Intcode.Error
import Intcode.Memory

namespace Intcode

/-- A machine that has stopped never runs again. -/
inductive Status where
  | running
  | halted
  | faulted (f : Fault)
deriving DecidableEq, Repr

structure Machine where
  memory : Memory
  pc : Int := 0
  relativeBase : Int := 0
  status : Status := .running
  executed : Nat := 0
  emitted : Nat := 0
deriving DecidableEq, Repr

/-- An access to memory, which may fault and may have grown the memory before it does. -/
abbrev Access := EStateM Fault Memory

namespace Access

/-- Makes sure that an address is a cell. Only a negative one faults, as memory is taken as
unlimited. -/
def reserve (address : Int) : Access Nat := fun memory =>
  if address < 0 then .error (.negativeAddress address) memory
  else .ok address.toNat (memory.cover address.toNat)

def load (address : Int) : Access Int := do
  let a ← reserve address
  return (← get).get a

def decode (cell : Int) : Access Instruction := fun memory =>
  match Instruction.decode cell with
  | .ok i => .ok i memory
  | .error f => .error f memory

theorem run_reserve (address : Int) (memory : Memory) :
    (reserve address).run memory =
      if address < 0 then .error (.negativeAddress address) memory
      else .ok address.toNat (memory.cover address.toNat) := rfl

theorem run_load (address : Int) (memory : Memory) :
    (load address).run memory =
      if address < 0 then .error (.negativeAddress address) memory
      else .ok (memory.get address.toNat) (memory.cover address.toNat) := by
  simp only [load, EStateM.run_bind, run_reserve]
  by_cases h : address < 0
  · simp [h]
  · simp [h]

theorem run_decode (cell : Int) (memory : Memory) :
    (decode cell).run memory =
      match Instruction.decode cell with
      | .ok i => .ok i memory
      | .error f => .error f memory := rfl

end Access

namespace Machine

def ofCells (cells : List Int) : Machine := { memory := Memory.ofList cells }

def load (program : List Value) : Except Error Machine :=
  (program.mapM Value.toCell).map ofCells

theorem load_ok {program : List Value} {m : Machine} (h : load program = .ok m) :
    ∃ cells, program.mapM Value.toCell = .ok cells ∧ m = ofCells cells := by
  unfold load at h
  cases hp : program.mapM Value.toCell with
  | error e => simp [hp, Except.map] at h
  | ok cells =>
    simp only [hp, Except.map, Except.ok.injEq] at h
    exact ⟨cells, rfl, h.symm⟩

def isRunning (m : Machine) : Bool := m.status == .running

def isHalted (m : Machine) : Bool := !m.isRunning

def fault? (m : Machine) : Option Fault :=
  match m.status with
  | .faulted f => some f
  | _ => none

/-- Lets a host access the memory; a fault in it is reported but does not stop the machine. -/
def access {α : Type} (m : Machine) (act : Access α) : Except Error α × Machine :=
  match act.run m.memory with
  | .ok v memory => (.ok v, { m with memory })
  | .error f memory => (.error (.ofFault f), { m with memory })

def read (m : Machine) (address : Int) : Except Error Int × Machine :=
  m.access (Access.load address)

/-- Writes a cell. The address is checked, and becomes a cell, before the value is checked. -/
def write (m : Machine) (address : Int) (value : Value) : Except Error Unit × Machine :=
  match m.access (Access.reserve address) with
  | (.error e, m) => (.error e, m)
  | (.ok a, m) =>
    match value.toCell with
    | .error e => (.error e, m)
    | .ok v => (.ok (), { m with memory := m.memory.set a v })

/-- Decodes the cell at the pointer without carrying it out. -/
def currentInstruction (m : Machine) : Except Error Instruction × Machine :=
  m.access (Access.load m.pc >>= Access.decode)

theorem access_eq_memory {α : Type} (m : Machine) (act : Access α) :
    (m.access act).2 = { m with memory := (m.access act).2.memory } := by
  unfold access
  split <;> rfl

theorem write_of_neg (m : Machine) {address : Int} (h : address < 0) (value : Value) :
    m.write address value = (.error (.ofFault (.negativeAddress address)), m) := by
  simp [write, access, Access.run_reserve, h]

theorem write_integer (m : Machine) {address : Int} (h : 0 ≤ address) (v : Int) :
    m.write address (.integer v) =
      (.ok (), { m with memory := (m.memory.cover address.toNat).set address.toNat v }) := by
  have hneg : ¬ address < 0 := Int.not_lt.mpr h
  simp [write, access, Access.run_reserve, hneg, Value.toCell]

theorem write_eq_memory (m : Machine) (address : Int) (value : Value) :
    (m.write address value).2 = { m with memory := (m.write address value).2.memory } := by
  have haccess := m.access_eq_memory (Access.reserve address)
  unfold write
  split
  next e m₁ h => simpa only [h] using haccess
  next a m₁ h =>
    rw [h] at haccess
    cases value.toCell with
    | error e => exact haccess
    | ok v =>
      simp only at haccess ⊢
      rw [haccess]

@[simp] theorem access_status {α : Type} (m : Machine) (act : Access α) :
    (m.access act).2.status = m.status := by
  rw [access_eq_memory]

@[simp] theorem write_status (m : Machine) (address : Int) (value : Value) :
    (m.write address value).2.status = m.status := by
  rw [write_eq_memory]

def describe (m : Machine) : Except NumeralError String := do
  let pc ← Numeral.write m.pc
  let base ← Numeral.write m.relativeBase
  let halted := if m.isHalted then "True" else "False"
  let cause := match m.fault? with
    | some f => s!"  Fault: {f.message}"
    | none => ""
  return s!"  PC = {pc}  RB = {base}  MEM = {m.memory.size} cells\n" ++
    s!"  Halted: {halted}" ++ cause ++
    s!"\n  Instructions: {m.executed}  Outputs: {m.emitted}"

end Machine

end Intcode
