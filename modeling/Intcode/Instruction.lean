namespace Intcode

inductive Fault where
  | unknownOpcode (cell : Int)
  | unknownMode (digit : Nat)
  | illegalDestination
  | negativeAddress (address : Int)
deriving DecidableEq, Repr

inductive Opcode where
  | add
  | multiply
  | input
  | output
  | jumpIfTrue
  | jumpIfFalse
  | lessThan
  | equals
  | adjustBase
  | halt
deriving DecidableEq, Repr

namespace Opcode

def code : Opcode → Nat
  | .add => 1
  | .multiply => 2
  | .input => 3
  | .output => 4
  | .jumpIfTrue => 5
  | .jumpIfFalse => 6
  | .lessThan => 7
  | .equals => 8
  | .adjustBase => 9
  | .halt => 99

def ofCode? : Nat → Option Opcode
  | 1 => some .add
  | 2 => some .multiply
  | 3 => some .input
  | 4 => some .output
  | 5 => some .jumpIfTrue
  | 6 => some .jumpIfFalse
  | 7 => some .lessThan
  | 8 => some .equals
  | 9 => some .adjustBase
  | 99 => some .halt
  | _ => none

def name : Opcode → String
  | .add => "ADD"
  | .multiply => "MUL"
  | .input => "IN"
  | .output => "OUT"
  | .jumpIfTrue => "JT"
  | .jumpIfFalse => "JF"
  | .lessThan => "LT"
  | .equals => "EQ"
  | .adjustBase => "ARB"
  | .halt => "HALT"

def parameters : Opcode → Nat
  | .add | .multiply | .lessThan | .equals => 3
  | .jumpIfTrue | .jumpIfFalse => 2
  | .input | .output | .adjustBase => 1
  | .halt => 0

def width (op : Opcode) : Nat := op.parameters + 1

@[simp] theorem ofCode?_code (op : Opcode) : ofCode? op.code = some op := by
  cases op <;> rfl

theorem code_of_ofCode? {n : Nat} {op : Opcode} (h : ofCode? n = some op) : op.code = n := by
  unfold ofCode? at h
  split at h <;> cases h <;> rfl

end Opcode

inductive Mode where
  | position
  | immediate
  | relative
deriving DecidableEq, Repr

namespace Mode

def digit : Mode → Nat
  | .position => 0
  | .immediate => 1
  | .relative => 2

def ofDigit? : Nat → Option Mode
  | 0 => some .position
  | 1 => some .immediate
  | 2 => some .relative
  | _ => none

def name : Mode → String
  | .position => "position"
  | .immediate => "immediate"
  | .relative => "relative"

@[simp] theorem ofDigit?_digit (m : Mode) : ofDigit? m.digit = some m := by
  cases m <;> rfl

theorem digit_of_ofDigit? {n : Nat} {m : Mode} (h : ofDigit? n = some m) : m.digit = n := by
  unfold ofDigit? at h
  split at h <;> cases h <;> rfl

end Mode

/-- The place of a parameter after its instruction's own cell. -/
inductive Parameter where
  | first
  | second
  | third
deriving DecidableEq, Repr

namespace Parameter

def offset : Parameter → Nat
  | .first => 1
  | .second => 2
  | .third => 3

def upTo (count : Nat) : List Parameter := [first, second, third].take count

end Parameter

structure Instruction where
  opcode : Opcode
  mode1 : Mode
  mode2 : Mode
  mode3 : Mode
deriving DecidableEq, Repr

namespace Instruction

def mode (i : Instruction) : Parameter → Mode
  | .first => i.mode1
  | .second => i.mode2
  | .third => i.mode3

def parameters (i : Instruction) : List Parameter := Parameter.upTo i.opcode.parameters

def encode (i : Instruction) : Int :=
  (i.opcode.code + 100 * i.mode1.digit + 1000 * i.mode2.digit + 10000 * i.mode3.digit : Nat)

def decodeMode (digit : Nat) : Except Fault Mode :=
  match Mode.ofDigit? digit with
  | some m => .ok m
  | none => .error (.unknownMode digit)

/-- The lowest decimal digit that is not zero; 0 has none and gives 0. -/
def lowestDigit (n : Nat) : Nat :=
  if n = 0 then 0 else if n % 10 = 0 then lowestDigit (n / 10) else n % 10
termination_by n

/-- Takes a cell apart. Of several wrong mode digits the lowest is named; a digit above the
three modes is wrong unless it is zero. -/
def decode (cell : Int) : Except Fault Instruction :=
  if cell < 0 then .error (.unknownOpcode cell)
  else
    let n := cell.toNat
    match Opcode.ofCode? (n % 100) with
    | none => .error (.unknownOpcode cell)
    | some op => do
      let m1 ← decodeMode (n / 100 % 10)
      let m2 ← decodeMode (n / 1000 % 10)
      let m3 ← decodeMode (n / 10000 % 10)
      if n / 100000 = 0 then .ok ⟨op, m1, m2, m3⟩
      else .error (.unknownMode (lowestDigit (n / 100000)))

end Instruction

end Intcode
