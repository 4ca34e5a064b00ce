import Intcode.Machine.Execute

namespace Intcode

namespace Machine

def stepWatched {σ : Type} (host : Host σ) (m : Machine) (s : σ) : Outcome σ (Option Int) :=
  let o := m.stepInstruction host s
  { o with host := host.watch m o.result o.host }

def step {σ : Type} (host : Host σ) : (fuel : Nat) → Machine → σ → Option (Outcome σ (Option Int))
  | 0, _, _ => none
  | fuel + 1, m, s =>
    let o := m.stepWatched host s
    match o.result with
    | .ok none => if o.machine.isRunning then step host fuel o.machine o.host else some o
    | _ => some o

/-- Runs to the end of the program; the result is all outputs, the earlier ones given in reverse. -/
def collectFrom {σ : Type} (host : Host σ) :
    (fuel : Nat) → List Int → Machine → σ → Option (Outcome σ (List Int))
  | 0, _, _, _ => none
  | fuel + 1, earlier, m, s =>
    match m.step host (fuel + 1) s with
    | none => none
    | some o =>
      match o.result with
      | .error e => some ⟨.error e, o.machine, o.host⟩
      | .ok none => some ⟨.ok earlier.reverse, o.machine, o.host⟩
      | .ok (some v) => collectFrom host fuel (v :: earlier) o.machine o.host

/-- Runs to the end of the program; a failure loses the outputs. -/
def collect {σ : Type} (host : Host σ) (fuel : Nat) (m : Machine) (s : σ) :
    Option (Outcome σ (List Int)) :=
  collectFrom host fuel [] m s

def run (fuel : Nat) (inputs : List Value) (m : Machine) :
    Option (Outcome (List Value) (List Int)) :=
  m.collect Host.sequence fuel inputs

structure TraceRow where
  pc : Int
  relativeBase : Int
  output : Option Int
deriving DecidableEq, Repr

def trace {σ : Type} (host : Host σ) : (count : Nat) → Machine → σ →
    List TraceRow × Outcome σ Unit
  | 0, m, s => ([], ⟨.ok (), m, s⟩)
  | count + 1, m, s =>
    let o := m.stepInstruction host s
    match o.result with
    | .error e => ([], ⟨.error e, o.machine, o.host⟩)
    | .ok output =>
      let row : TraceRow := ⟨o.machine.pc, o.machine.relativeBase, output⟩
      if o.machine.isHalted then ([row], ⟨.ok (), o.machine, o.host⟩)
      else
        let (rows, last) := trace host count o.machine o.host
        (row :: rows, last)

end Machine

end Intcode
