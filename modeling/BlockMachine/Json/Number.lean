import BlockMachine.Json.Basic
import BlockMachine.Number.Numeral

namespace BlockMachine.Json

/-- The value of a number, of a truth value as zero or one, or of a numeral saved as text. -/
def number? : Json → Option Binary64
  | .int n => Binary64.ofInt? n
  | .float x => some x
  | .bool b => some (.ofBool b)
  | .str s => Numeral.ofSaved? s
  | _ => none

end BlockMachine.Json
