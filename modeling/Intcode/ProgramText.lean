import Intcode.Text.Pieces
import Intcode.Value

namespace Intcode

structure BadToken where
  token : String
  position : Nat
deriving DecidableEq, Repr

def BadToken.message (b : BadToken) : String :=
  s!"Bad value {Text.quote b.token} at position {b.position}"

namespace ProgramText

def readPieces : (position : Nat) → List (List Char) → Except BadToken (List Int)
  | _, [] => .ok []
  | position, piece :: rest =>
    let token := Text.trim piece
    match Numeral.readDecimal token with
    | .error _ => .error ⟨String.ofList token, position⟩
    | .ok n => (readPieces (position + 1) rest).map (n :: ·)

def parseChars (text : List Char) : Except BadToken (List Int) :=
  let text := Text.trim text
  if text.isEmpty then .ok [] else readPieces 0 (Text.pieces ',' text)

/-- The cells that a text lists; a blank text lists none. -/
def parse (text : String) : Except BadToken (List Int) :=
  parseChars text.toList

def render (values : List Value) : Except NumeralError String :=
  (values.mapM Value.write).map (",".intercalate ·)

end ProgramText

end Intcode
