import ApiContract.Binary64.Decimal
import ApiContract.Value

/-!
Numbers as they stand in documents and in generated code, where `2` and `2.0` differ.
-/

namespace ApiContract

inductive Numeral where
  | int (n : Int)
  | float (x : Binary64)
deriving Repr, DecidableEq

namespace Numeral

def text : Numeral → String
  | .int n => toString n
  | .float x => x.text

def toScalar : Numeral → Scalar
  | .int n => .int n
  | .float x => .float x

def isFinite : Numeral → Bool
  | .int _ => true
  | .float x => x.isFinite

end Numeral

end ApiContract
