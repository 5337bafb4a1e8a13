import ApiContract.Binary64
import ApiContract.Calendar

/-!
Values as documents hold them. A mapping is a list of members in the order of their first mention;
its keys are scalars, and keys that are equal as numbers are one key.

A document can contain itself. Its value is then unrolled: a collection that stands inside itself
has a number of its own by which it is known again, and the unrolling stops at a fixed depth.
-/

namespace ApiContract

inductive Scalar where
  | null
  | bool (b : Bool)
  | int (n : Int)
  | float (x : Binary64)
  | str (s : String)
  | date (d : Date)
  | moment (t : Moment)
  | bytes (octets : List UInt8)
deriving Repr, DecidableEq, Inhabited

/-- In `seq` and `map`, `knot` is the number of a collection that stands inside itself or leads to
one that does, and zero for any other one. -/
inductive Value where
  | scalar (s : Scalar)
  | seq (items : List Value) (knot : Nat)
  | map (members : List (Scalar × Value)) (knot : Nat)
  | pair (first second : Value)
  | set (members : List Scalar)
  | endless
deriving Repr, Inhabited

namespace Scalar

/-- The whole number that a number or truth value stands for as a key. -/
def whole? : Scalar → Option Int
  | .bool b => some (if b then 1 else 0)
  | .int n => some n
  | .float x => x.toInt?
  | _ => none

/-- Whether two scalars are the same key. -/
def sameKey (a b : Scalar) : Bool :=
  match a, b with
  | .moment s, .moment t => s.same t
  | _, _ =>
    match a.whole?, b.whole? with
    | some m, some n => m == n
    | none, none => a == b && a != .float .nan
    | _, _ => false

def truthy : Scalar → Bool
  | .null => false
  | .bool b => b
  | .int n => n != 0
  | .float x => !x.isZero
  | .str s => !s.isEmpty
  | .date _ => true
  | .moment _ => true
  | .bytes octets => !octets.isEmpty

end Scalar

abbrev Members := List (Scalar × Value)

namespace Members

/-- The value of a text key. -/
def get? (key : String) : Members → Option Value
  | [] => none
  | (k, v) :: rest => if k = .str key then some v else get? key rest

/-- A key that is there keeps its place and takes the new value. -/
def put (key : Scalar) (value : Value) : Members → Members
  | [] => [(key, value)]
  | (k, v) :: rest => if k.sameKey key then (k, value) :: rest else (k, v) :: put key value rest

def ofList (pairs : List (Scalar × Value)) : Members :=
  pairs.foldl (fun ms p => ms.put p.1 p.2) []

end Members

namespace Value

@[match_pattern] abbrev null : Value := .scalar .null
@[match_pattern] abbrev bool (b : Bool) : Value := .scalar (.bool b)
@[match_pattern] abbrev int (n : Int) : Value := .scalar (.int n)
@[match_pattern] abbrev float (x : Binary64) : Value := .scalar (.float x)
@[match_pattern] abbrev str (s : String) : Value := .scalar (.str s)

/-- Zero, nothing and everything empty count as false. -/
def truthy : Value → Bool
  | .scalar s => s.truthy
  | .seq items _ => !items.isEmpty
  | .map members _ => !members.isEmpty
  | .pair .. => true
  | .set members => !members.isEmpty
  | .endless => true

/-- A value that counts as true; the others read as if they were left out. -/
def present? : Option Value → Option Value
  | some v => if v.truthy then some v else none
  | none => none

def typeName : Value → String
  | .scalar .null => "NoneType"
  | .scalar (.bool _) => "bool"
  | .scalar (.int _) => "int"
  | .scalar (.float _) => "float"
  | .scalar (.str _) => "str"
  | .scalar (.date _) => "date"
  | .scalar (.moment _) => "datetime"
  | .scalar (.bytes _) => "bytes"
  | .seq .. => "list"
  | .map .. => "dict"
  | .pair .. => "tuple"
  | .set _ => "set"
  | .endless => "dict"

/-- The knots of the collections around a value, with that of the value itself. -/
def inside (knot : Nat) (around : List Nat) : List Nat :=
  if knot = 0 then around else knot :: around

/-- Whether a value can be a member of a set. -/
def isHashable : Value → Bool
  | .scalar _ => true
  | .pair a b => isHashable a && isHashable b
  | _ => false

/-- Whether two members of a set are the same one. -/
def sameKey : Value → Value → Bool
  | .scalar a, .scalar b => a.sameKey b
  | .pair a b, .pair c d => sameKey a c && sameKey b d
  | _, _ => false

def isStr (text : String) : Value → Bool
  | .scalar (.str s) => s == text
  | _ => false

end Value

end ApiContract
