import Intcode.Error
import Intcode.Memory

namespace Intcode

namespace Listing

/-- An operand with its mode: a number after `#` stands for itself, one in brackets for a cell. -/
def operand (raw : Int) : Mode → Except NumeralError String
  | .position => (Numeral.write raw).map fun s => "[" ++ s ++ "]"
  | .immediate => (Numeral.write raw).map fun s => "#" ++ s
  | .relative => (Numeral.writeSigned raw).map fun s => "[rb" ++ s ++ "]"

def instruction (memory : Memory) (address : Int) (i : Instruction) : Except NumeralError String :=
  if i.opcode = .halt then .ok i.opcode.name
  else do
    let operands ← i.parameters.mapM fun k =>
      operand (memory.peek (address + k.offset)) (i.mode k)
    return Text.alignLeft 4 i.opcode.name ++ " " ++ ", ".intercalate operands

def entry (memory : Memory) (address : Int) : Except NumeralError (String × Nat) :=
  let cell := memory.peek address
  match Instruction.decode cell with
  | .ok i => (instruction memory address i).map fun s => (s, i.opcode.width)
  | .error _ => (Numeral.write cell).map fun s => ("DATA " ++ s, 1)

end Listing

end Intcode
