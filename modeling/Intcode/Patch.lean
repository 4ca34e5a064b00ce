import Intcode.Machine.Basic
import Intcode.Text.Pieces

namespace Intcode

structure Patch where
  address : Int
  value : Int
deriving DecidableEq, Repr

namespace Patch

/-- Reads a patch from an address and a value, both literals, around the first equals sign. -/
def ofText? (spec : String) : Option Patch :=
  let address := spec.toList.takeWhile (· ≠ '=')
  match spec.toList.dropWhile (· ≠ '=') with
  | [] => none
  | _ :: value =>
    match Numeral.readLiteral address, Numeral.readLiteral value with
    | .ok address, .ok value => some ⟨address, value⟩
    | _, _ => none

end Patch

namespace Machine

def applyPatches : List Patch → Machine → Except Error Machine
  | [], m => .ok m
  | p :: rest, m =>
    match m.write p.address (.integer p.value) with
    | (.error e, _) => .error e
    | (.ok _, m) => applyPatches rest m

def ofPatched (cells : List Int) (patches : List Patch) : Except Error Machine :=
  applyPatches patches (ofCells cells)

end Machine

end Intcode
