import Intcode.Text.Blank
import Intcode.Text.Column
import Intcode.Text.DecimalDigit
import Intcode.Text.Quoted

namespace Intcode

inductive NumeralError where
  | malformed (text : String)
  | tooManyDigits (count : Nat)
  | tooLong
deriving DecidableEq, Repr

namespace Numeral

def digitLimit : Nat := 4300

def writeBound : Nat := Nat.pow 10 digitLimit

theorem writeBound_pos : 0 < writeBound := by
  unfold writeBound
  generalize digitLimit = digits
  exact Nat.pow_pos (by decide)

/-- Digits of every script become ASCII digits, and blanks become spaces; the four information
separators do not count as blanks beside a number. -/
def plainChar (c : Char) : Char :=
  match Text.decimalDigit? c with
  | some d => Nat.digitChar d
  | none => if Text.isBlank c && !(0x1C ≤ c.toNat && c.toNat ≤ 0x1F) then ' ' else c

def digitIn? (base : Nat) (c : Char) : Option Nat :=
  let d :=
    if c.isDigit then c.toNat - '0'.toNat
    else if c.isLower then c.toNat - 'a'.toNat + 10
    else if c.isUpper then c.toNat - 'A'.toNat + 10
    else base
  if d < base then some d else none

/-- Splits off the longest run of digits and underscores. An underscore must stand between two
digits, so reading starts as after one, and fails where an underscore is not followed by a digit. -/
def scanDigits (base : Nat) : (needDigit : Bool) → List Char → Option (List Nat × List Char)
  | needDigit, [] => if needDigit then none else some ([], [])
  | needDigit, c :: rest =>
    if c = '_' then
      if needDigit then none else scanDigits base true rest
    else
      match digitIn? base c with
      | some d => (scanDigits base false rest).map fun (ds, rest) => (d :: ds, rest)
      | none => if needDigit then none else some ([], c :: rest)

def ofDigits (base : Nat) (ds : List Nat) : Nat :=
  ds.foldl (fun n d => n * base + d) 0

def splitSign : List Char → Bool × List Char
  | '+' :: rest => (false, rest)
  | '-' :: rest => (true, rest)
  | cs => (false, cs)

def applySign (negative : Bool) (n : Nat) : Int :=
  if negative then -(n : Int) else n

inductive Form where
  | decimal
  | leadingZero
  | radix (base : Nat)
deriving DecidableEq, Repr

namespace Form

def base : Form → Nat
  | .decimal => 10
  | .leadingZero => 10
  | .radix base => base

/-- Only decimal digits are counted against the limit. -/
def isLimited : Form → Bool
  | .radix _ => false
  | _ => true

/-- A decimal literal that starts with a zero must be zero. -/
def accepts : Form → Nat → Bool
  | .leadingZero, n => n = 0
  | _, _ => true

end Form

def radixMark? (c : Char) : Option Nat :=
  if c = 'x' || c = 'X' then some 16
  else if c = 'o' || c = 'O' then some 8
  else if c = 'b' || c = 'B' then some 2
  else none

def splitForm : List Char → Form × List Char
  | '0' :: c :: rest =>
    match radixMark? c with
    | some base => (.radix base, match rest with | '_' :: rest' => rest' | _ => rest)
    | none => (.leadingZero, '0' :: c :: rest)
  | cs => (.decimal, cs)

/-- Reads the digits and what follows them; their count is checked before what follows. -/
def readDigits (text : String) (form : Form) (cs : List Char) : Except NumeralError Nat :=
  match scanDigits form.base true cs with
  | none => .error (.malformed text)
  | some (ds, rest) =>
    if form.isLimited && digitLimit < ds.length then .error (.tooManyDigits ds.length)
    else if rest.all (· = ' ') && form.accepts (ofDigits form.base ds) then
      .ok (ofDigits form.base ds)
    else .error (.malformed text)

def signed (cs : List Char) : Bool × List Char :=
  splitSign ((cs.map plainChar).dropWhile (· = ' '))

def readDecimal (cs : List Char) : Except NumeralError Int :=
  let (negative, digits) := signed cs
  (readDigits (String.ofList cs) .decimal digits).map (applySign negative)

def readLiteral (cs : List Char) : Except NumeralError Int :=
  let (negative, rest) := signed cs
  let (form, digits) := splitForm rest
  (readDigits (String.ofList cs) form digits).map (applySign negative)

/-- Tells the numbers that have a text. -/
def isWritable (n : Int) : Bool :=
  n.natAbs < writeBound

def write (n : Int) : Except NumeralError String :=
  if isWritable n then .ok (toString n) else .error .tooLong

def writeSigned (n : Int) : Except NumeralError String :=
  (write n).map fun s => if n < 0 then s else "+" ++ s

def writeColumn (width : Nat) (n : Int) : Except NumeralError String :=
  (write n).map (Text.alignRight width)

end Numeral

def NumeralError.message : NumeralError → String
  | .malformed text =>
    "invalid literal for int() with base 0: " ++
      String.ofList ((Text.quoteChars text.toList).take 200)
  | .tooManyDigits count =>
    s!"Exceeds the limit ({Numeral.digitLimit} digits) for integer string conversion: " ++
      s!"value has {count} digits; use sys.set_int_max_str_digits() to increase the limit"
  | .tooLong =>
    s!"Exceeds the limit ({Numeral.digitLimit} digits) for integer string conversion; " ++
      "use sys.set_int_max_str_digits() to increase the limit"

end Intcode
