import Intcode.Instruction
import Intcode.Value

namespace Intcode

namespace Fault

def message : Fault → String
  | .unknownOpcode cell => s!"Unknown opcode: {cell}"
  | .unknownMode digit => s!"Unknown mode: {digit}"
  | .illegalDestination => s!"Unexpected mode: {Mode.immediate.name}"
  | .negativeAddress address => s!"Negative address: {address}"

/-- Tells the faults whose wording names no number that is too long. -/
def isWritable : Fault → Bool
  | .unknownOpcode cell => Numeral.isWritable cell
  | .unknownMode _ => true
  | .illegalDestination => true
  | .negativeAddress address => Numeral.isWritable address

end Fault

inductive Exhaustion where
  | noSource
  | emptyQueue
  | endOfSequence
  | silentAmplifier
  | silentChain
deriving DecidableEq, Repr

def Exhaustion.message : Exhaustion → String
  | .noSource => "No input source"
  | .emptyQueue => "Input queue is empty"
  | .endOfSequence => "Input sequence exhausted"
  | .silentAmplifier => "Amplifier halted without producing a signal"
  | .silentChain => "Final amplifier never produced a signal"

inductive Complaint where
  | startColor (value : Value)
  | paintColor (value : Value)
  | turn (value : Value)
  | tile (value x y : Int)
deriving DecidableEq, Repr

namespace Complaint

def message : Complaint → String
  | .startColor value => s!"Bad start colour: {value.plain}"
  | .paintColor value => s!"Bad paint colour: {value.plain}"
  | .turn value => s!"Bad turn command: {value.plain}"
  | .tile value x y => s!"Unknown tile id {value} at ({x}, {y})"

def isWritable : Complaint → Bool
  | .startColor value => value.isWritable
  | .paintColor value => value.isWritable
  | .turn value => value.isWritable
  | .tile value x y => Numeral.isWritable value && Numeral.isWritable x && Numeral.isWritable y

end Complaint

inductive Error where
  | fault (f : Fault)
  | halted (cause : Option Fault)
  | inputExhausted (why : Exhaustion)
  | notInteger (value : Value)
  | numeral (e : NumeralError)
  | rejected (c : Complaint)
  | noPhases
  | unsupported
deriving DecidableEq, Repr

namespace Error

def message : Error → String
  | .fault f => f.message
  | .halted none => "Machine is halted"
  | .halted (some f) => s!"Machine faulted: {f.message}"
  | .inputExhausted why => why.message
  | .notInteger value => s!"Memory cells hold integers, got {value.describe}"
  | .numeral e => e.message
  | .rejected c => c.message
  | .noPhases => "At least one phase setting is required"
  | .unsupported => ""

/-- The failure that a fault becomes when it is worded. -/
def ofFault (f : Fault) : Error :=
  if f.isWritable then .fault f else .numeral .tooLong

def ofComplaint (c : Complaint) : Error :=
  if c.isWritable then .rejected c else .numeral .tooLong

end Error

/-- The integer that a value is, if it fits a cell. -/
def Value.toCell : Value → Except Error Int
  | .integer n => .ok n
  | v => .error (.notInteger v)

theorem Value.toCell_ok {value : Value} {n : Int} (h : value.toCell = .ok n) :
    value = .integer n := by
  cases value <;> cases h
  rfl

theorem Value.toCell_error {value : Value} {e : Error} (h : value.toCell = .error e) :
    e = .notInteger value := by
  cases value <;> cases h <;> rfl

end Intcode
