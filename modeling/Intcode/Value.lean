import Intcode.Numeral
import Intcode.Text.Quoted

namespace Intcode

inductive Value where
  | integer (n : Int)
  | boolean (b : Bool)
  | null
  | emptyList
  | fraction (text : String)
  | text (s : String)
deriving DecidableEq, Repr

namespace Value

def plain : Value → String
  | .integer n => toString n
  | .boolean true => "True"
  | .boolean false => "False"
  | .null => "None"
  | .emptyList => "[]"
  | .fraction s => s
  | .text s => s

def describe : Value → String
  | .text s => Text.quote s
  | v => v.plain

/-- Tells the values whose text holds no number that is too long. -/
def isWritable : Value → Bool
  | .integer n => Numeral.isWritable n
  | _ => true

def write (v : Value) : Except NumeralError String :=
  if v.isWritable then .ok v.plain else .error .tooLong

/-- Which of 0 and 1 a value equals, where a truth value counts as a number. -/
def bit? : Value → Option Bool
  | .integer n => if n = 0 then some false else if n = 1 then some true else none
  | .boolean b => some b
  | .fraction s =>
    if s = "0.0" || s = "-0.0" then some false else if s = "1.0" then some true else none
  | _ => none

end Value

end Intcode
