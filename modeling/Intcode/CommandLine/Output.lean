import Intcode.Numeral

namespace Intcode

namespace CommandLine

/-- The numbers that are shown as characters: printable ASCII, tab and the line ends. -/
def isShownAsChar (n : Int) : Bool :=
  (0x20 ≤ n && n < 0x7F) || n = 9 || n = 10 || n = 13

def asciiPiece (n : Int) : Except NumeralError String :=
  if isShownAsChar n then .ok (String.ofList [Char.ofNat n.toNat])
  else (Numeral.write n).map (· ++ "\n")

def dropLineFeeds (s : String) : String :=
  String.ofList (s.toList.reverse.dropWhile (· = '\n')).reverse

def showOutputs (ascii : Bool) (outputs : List Int) : Except NumeralError String :=
  if ascii then (outputs.mapM asciiPiece).map fun pieces => dropLineFeeds (String.join pieces)
  else (outputs.mapM Numeral.write).map ("\n".intercalate ·)

end CommandLine

end Intcode
