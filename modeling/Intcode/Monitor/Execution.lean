import Intcode.Listing
import Intcode.Monitor.Console

namespace Intcode

namespace Monitor

def stepInstruction (m : Monitor) : Except Error (Option Int) × Monitor :=
  let o := m.machine.stepInstruction Queue.host m.queue
  (o.result,
    { m with
      machine := o.machine
      queue := o.host
      journal := m.journal ++ m.machine.events o.result })

end Monitor

namespace Session

/-- Executes one instruction and says what came of it; the result is false when execution must
stop. -/
def execute : Session Bool := do
  let (result, after) := (← monitor).stepInstruction
  update fun _ => after
  match result with
  | .error (.inputExhausted _) =>
    let pc ← number after.machine.pc
    say (s!"Waiting for input at {pc}. " ++ "Use 'input <n>' then 'run' to continue.")
    return false
  | .error (.halted cause) =>
    say (Error.halted cause).message
    return false
  | .error (.fault f) =>
    say s!"Fault: {f.message}"
    return false
  | .error e => throw (.machine e)
  | .ok output =>
    match output with
    | some v =>
      update fun m => { m with outputs := m.outputs ++ [v] }
      let text ← number v
      say s!"  OUT {text}"
    | none => pure ()
    if after.machine.isHalted then
      say s!"Halted after {after.machine.executed} instructions."
      return false
    else return true

def stepUpTo : Nat → Session Unit
  | 0 => return ()
  | count + 1 => do
    let m := (← monitor).machine
    let (text, _) ← ofNumeral (Listing.entry m.memory m.pc)
    let label ← ofNumeral (Numeral.writeColumn 6 m.pc)
    say s!"  {label}: {text}"
    if ← execute then stepUpTo count else return ()

/-- Executes instructions, up to so many; the result is false when execution stops before. A
breakpoint stops it at any instruction but the first. -/
def runUpTo : Nat → (first : Bool) → Session Bool
  | 0, _ => return true
  | count + 1, first => do
    let m ← monitor
    if !first && m.breakpoints.contains m.machine.pc then
      let pc ← number m.machine.pc
      say s!"Breakpoint hit at {pc}"
      return false
    else if ← execute then runUpTo count false
    else return false

/-- The number of instructions that a run may take when none is given, where the environment does
not set another. -/
def defaultSteps : Int := 10000000

def countOr (fallback : Int) (argument : String) : Session Int :=
  if isBlankText argument then return fallback else parseNumber argument

def stepCommand (argument : String) : Session Unit := do
  let count ← countOr 1 argument
  stepUpTo count.toNat

def runCommand (argument : String) : Session Unit := do
  let count ← countOr defaultSteps argument
  if ← runUpTo count.toNat true then
    let text ← number count
    say s!"Stopped after {text} steps."

end Session

end Intcode
