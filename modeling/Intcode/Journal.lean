import Intcode.Machine.Execute

namespace Intcode

inductive Level where
  | debug
  | info
  | warning
deriving DecidableEq, Repr

namespace Level

def rank : Level → Nat
  | .debug => 10
  | .info => 20
  | .warning => 30

def name : Level → String
  | .debug => "DEBUG"
  | .info => "INFO"
  | .warning => "WARNING"

end Level

inductive Event where
  | loaded (cells : Nat) (path : String)
  | executing (pc : Int) (i : Instruction) (base : Int)
  | faulted (pc : Int) (f : Fault)
  | amplifierHalted (index rounds : Nat)
  | tried (order : List Value) (signal : Int)
  | deviceHalted (device : String) (outputs : Nat)
deriving DecidableEq, Repr

namespace Event

/-- Texts between parentheses, separated by commas; a single text is followed by a comma. -/
def parenthesized : List String → String
  | [s] => "(" ++ s ++ ",)"
  | texts => "(" ++ ", ".intercalate texts ++ ")"

def level : Event → Level
  | .loaded .. => .info
  | .executing .. => .debug
  | .faulted .. => .warning
  | .amplifierHalted .. => .info
  | .tried .. => .debug
  | .deviceHalted .. => .info

def origin : Event → String
  | .loaded .. => "cli"
  | .executing .. => "intcode"
  | .faulted .. => "intcode"
  | .amplifierHalted .. => "pipeline"
  | .tried .. => "pipeline"
  | .deviceHalted .. => "devices"

/-- Numbers are written however long they are, where a journal that refuses those of more than 4300
digits has a report of that in place of the line. -/
def message : Event → String
  | .loaded cells path => s!"Loaded {cells} cells from '" ++ path ++ "'"
  | .executing pc i base =>
    let modes := parenthesized (i.parameters.map fun k => toString (i.mode k).digit)
    Text.alignRight 6 (toString pc) ++ s!": {i.opcode.name} modes={modes} rb={base}"
  | .faulted pc f => s!"Fault at pc={pc}: {f.message}"
  | .amplifierHalted index rounds => s!"Amplifier {index} halted after {rounds} rounds"
  | .tried order signal =>
    let phases := parenthesized (order.map Value.describe)
    s!"phases={phases} signal={signal}"
  | .deviceHalted device outputs => s!"{device}: program halted after {outputs} outputs"

def line (e : Event) : String := s!"{e.level.name} {e.origin}: {e.message}\n"

end Event

abbrev Journal := Array Event

def Journal.render (journal : Journal) (least : Level) : String :=
  (journal.filter fun e => least.rank ≤ e.level.rank).foldl (fun s e => s ++ e.line) ""

/-- What is noted of an instruction: that it starts, once it is decoded, and a fault in it. -/
def Machine.events (m : Machine) (result : Except Error (Option Int)) : List Event :=
  (match m.isRunning, m.currentInstruction.1 with
    | true, .ok i => [.executing m.pc i m.relativeBase]
    | _, _ => []) ++
  match result with
  | .error (.fault f) => [.faulted m.pc f]
  | _ => []

/-- The host, with a journal of what the machine does. -/
def Host.journaled {σ : Type} (host : Host σ) : Host (σ × Journal) where
  take s :=
    let (value, inner) := host.take s.1
    (value, (inner, s.2))
  watch m result s := (host.watch m result s.1, s.2 ++ m.events result)

end Intcode
