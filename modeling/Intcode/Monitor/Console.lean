import Intcode.Journal
import Intcode.Queue
import Intcode.Text.Lowercase
import Intcode.Text.Words

namespace Intcode

structure Monitor where
  machine : Machine
  queue : Queue := {}
  outputs : List Int := []
  breakpoints : List Int := []
  journal : Journal := #[]
deriving DecidableEq, Repr

structure Console where
  monitor : Monitor
  printed : String := ""
deriving DecidableEq, Repr

/-- Why a cell cannot be shown by its place from the end of memory. -/
inductive IndexError where
  | outOfRange
  | tooLarge
deriving DecidableEq, Repr

def IndexError.message : IndexError → String
  | .outOfRange => "tuple index out of range"
  | .tooLarge => "cannot fit 'int' into an index-sized integer"

inductive Trouble where
  | numeral (e : NumeralError)
  | words (e : Text.WordsError)
  | machine (e : Error)
  | index (e : IndexError)
deriving DecidableEq, Repr

/-- Trouble that a session does not outlast. -/
inductive Breakdown where
  | index (e : IndexError)
  | notInteger (value : Value)
deriving DecidableEq, Repr

def Trouble.breakdown? : Trouble → Option Breakdown
  | .index e => some (.index e)
  | .machine (.notInteger value) => some (.notInteger value)
  | _ => none

def Trouble.message : Trouble → String
  | .numeral e => e.message
  | .words e => e.message
  | .machine e => e.message
  | .index e => e.message

/-- What a command does: it may print, change the monitor and run into trouble, which undoes
nothing. -/
abbrev Session := EStateM Trouble Console

namespace Session

def print (text : String) : Session Unit :=
  modify fun c => { c with printed := c.printed ++ text }

def say (line : String) : Session Unit := print (line ++ "\n")

def monitor : Session Monitor := return (← get).monitor

def update (f : Monitor → Monitor) : Session Unit :=
  modify fun c => { c with monitor := f c.monitor }

def ofNumeral {α : Type} : Except NumeralError α → Session α
  | .ok v => return v
  | .error e => throw (.numeral e)

def number (n : Int) : Session String := ofNumeral (Numeral.write n)

def numbers (ns : List Int) : Session (List String) := ofNumeral (ns.mapM Numeral.write)

def parseNumber (s : String) : Session Int :=
  ofNumeral (Numeral.readLiteral (Text.trim s.toList))

/-- Reads an address: a number, or the name of a register that holds one. -/
def parseAddress (s : String) : Session Int := do
  let cs := Text.lowercase (Text.trim s.toList)
  let m := (← monitor).machine
  if cs = ['p', 'c'] then return m.pc
  else if cs = ['r', 'b'] then return m.relativeBase
  else ofNumeral (Numeral.readLiteral cs)

def isBlankText (argument : String) : Bool := (Text.trim argument.toList).isEmpty

def arguments (argument : String) : Session (List String) :=
  match Text.words argument with
  | .ok words => return words
  | .error e => throw (.words e)

end Session

end Intcode
