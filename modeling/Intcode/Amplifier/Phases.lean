import Intcode.Numeral
import Intcode.Text.Pieces

namespace Intcode

namespace Phases

def ofText? (spec : String) : Option (List Int) :=
  let pieces := (Text.pieces ',' spec.toList).filter fun piece => !(Text.trim piece).isEmpty
  pieces.mapM fun piece => (Numeral.readDecimal piece).toOption

end Phases

end Intcode
