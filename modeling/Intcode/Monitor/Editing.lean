import Intcode.Monitor.Console

namespace Intcode

namespace Monitor

/-- Puts an address into an increasing list, unless it is there. -/
def insertSorted (a : Int) : List Int → List Int
  | [] => [a]
  | b :: rest =>
    if a < b then a :: b :: rest else if a = b then b :: rest else b :: insertSorted a rest

def addBreakpoint (m : Monitor) (a : Int) : Monitor :=
  { m with breakpoints := insertSorted a m.breakpoints }

def removeBreakpoint (m : Monitor) (a : Int) : Monitor :=
  { m with breakpoints := m.breakpoints.filter (· ≠ a) }

end Monitor

namespace Session

/-- Queues input values, or shows those that wait; one bad value keeps all out. -/
def inputCommand (argument : String) : Session Unit := do
  let words ← arguments argument
  if words.isEmpty then
    let pending := (← monitor).queue.pending
    let texts ← ofNumeral (pending.mapM Value.write)
    say ("Queued: [" ++ ", ".intercalate texts ++ "]")
  else
    let values ← words.mapM parseNumber
    update fun m => { m with queue := m.queue.inject (values.map .integer) }
    let m ← monitor
    say s!"Queued {words.length} value(s), {m.queue.size} pending"

def sayEach : List Int → Session Unit
  | [] => return ()
  | n :: rest => do
    let text ← number n
    say s!"  {text}"
    sayEach rest

def breakCommand (argument : String) : Session Unit := do
  if isBlankText argument then
    let breakpoints := (← monitor).breakpoints
    if breakpoints.isEmpty then say "No breakpoints." else sayEach breakpoints
  else
    let a ← parseAddress argument
    update (·.addBreakpoint a)
    let text ← number a
    say s!"Breakpoint set at {text}"

def unbreakCommand (argument : String) : Session Unit := do
  if Text.trim argument.toList = ['a', 'l', 'l'] then
    update fun m => { m with breakpoints := [] }
    say "All breakpoints cleared."
  else
    let a ← parseAddress argument
    update (·.removeBreakpoint a)
    let text ← number a
    say s!"Breakpoint removed at {text}"

def writeCell (a n : Int) : Session Unit := do
  let (result, machine) := (← monitor).machine.write a (.integer n)
  update fun m => { m with machine }
  match result with
  | .ok _ => return ()
  | .error e => throw (.machine e)

def writeCells : (address : Int) → List String → Session Unit
  | _, [] => return ()
  | a, word :: rest => do
    let n ← parseNumber word
    writeCell a n
    writeCells (a + 1) rest

/-- Writes values into successive cells; the cells before a bad value stay written. -/
def setCommand (argument : String) : Session Unit := do
  match ← arguments argument with
  | address :: value :: rest =>
    let a ← parseAddress address
    writeCells a (value :: rest)
    let text ← number a
    say s!"  Wrote {rest.length + 1} cell(s) at {text}"
  | _ => say "Usage: setmem <addr> <value...>"

end Session

end Intcode
