import Intcode.Listing
import Intcode.Monitor.Console

namespace Intcode

namespace Memory

/-- The least index that memory is searched for. -/
def leastIndex : Int := -(Nat.pow 2 63)

/-- The cell at an index, which counts from the end of memory when it is negative. -/
def getIndexed (m : Memory) (i : Int) : Except IndexError Int :=
  if 0 ≤ i then .ok (m.get i.toNat)
  else if i < leastIndex then .error .tooLarge
  else if i + m.size < 0 then .error .outOfRange
  else .ok (m.get (i + m.size).toNat)

end Memory

namespace Session

def cell (m : Memory) (i : Int) : Session String :=
  match m.getIndexed i with
  | .ok n => number n
  | .error e => throw (.index e)

def addresses (first : Int) (count : Nat) : List Int :=
  (List.range count).map fun (k : Nat) => first + (k : Int)

def rowLength : Nat := 8

/-- Shows rows of cells, each starting at an address, up to the address where they stop. -/
def dumpRows (m : Memory) : (rows : Nat) → (first stop : Int) → Session Unit
  | 0, _, _ => return ()
  | rows + 1, first, stop => do
    let cells ← (addresses first (min (first + rowLength) stop - first).toNat).mapM (cell m)
    let label ← ofNumeral (Numeral.writeColumn 6 first)
    say (s!"  {label}: " ++ " ".intercalate cells)
    dumpRows m rows (first + rowLength) stop

/-- Shows the cells from an address on, which without a count end with memory. -/
def dumpCommand (argument : String) : Session Unit := do
  let words ← arguments argument
  let first ← match words with
    | address :: _ => parseAddress address
    | [] => pure 0
  let m := (← monitor).machine.memory
  let count ← match words with
    | _ :: count :: _ => parseNumber count
    | _ => pure (max (m.size - first) 0)
  dumpRows m ((count.toNat + (rowLength - 1)) / rowLength) first (first + count)

def disassemble (m : Memory) (pc : Int) : (count : Nat) → (address : Int) → Session Unit
  | 0, _ => return ()
  | count + 1, address => do
    if (m.size : Int) ≤ address then return ()
    else
      let (text, width) ← ofNumeral (Listing.entry m address)
      let last := min (address + width) m.size
      let cells ← (addresses address (last - address).toNat).mapM (cell m)
      let marker := if address = pc then ">>>" else "   "
      let label ← ofNumeral (Numeral.writeColumn 6 address)
      let column := Text.alignLeft 24 (",".intercalate cells)
      say s!"  {marker} {label}: {column} {text}"
      disassemble m pc count (address + width)

def disassembleCommand (argument : String) : Session Unit := do
  let words ← arguments argument
  let machine := (← monitor).machine
  let first ← match words with
    | address :: _ => parseAddress address
    | [] => pure machine.pc
  let count ← match words with
    | _ :: count :: _ => parseNumber count
    | _ => pure 16
  disassemble machine.memory machine.pc count.toNat first

def registersCommand : Session Unit := do
  say (← ofNumeral (← monitor).machine.describe)

def outputCommand : Session Unit := do
  let outputs := (← monitor).outputs
  if outputs.isEmpty then say "(none)" else say (", ".intercalate (← numbers outputs))

def statusCommand : Session Unit := do
  registersCommand
  let m ← monitor
  say (s!"  Pending input: {m.queue.size}  Outputs: {m.outputs.length}  " ++
    s!"Breakpoints: {m.breakpoints.length}")

end Session

end Intcode
