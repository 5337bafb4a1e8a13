import ApiContract.Numeral
import ApiContract.Value

/-!
Schemas, by kind. `Traits` is what every kind may say about itself; a default may be null, which is
not the same as having none.
-/

namespace ApiContract

structure Traits where
  nullable : Bool
  default : Option Value
  description : Option String
deriving Repr

def Traits.none : Traits := ⟨false, .none, .none⟩

inductive Schema where
  | string (traits : Traits) (format pattern : Option String) (minLength maxLength : Option Int)
  | enum (traits : Traits) (values : List String)
  | number (traits : Traits) (integer : Bool) (minimum maximum : Option Numeral)
  | boolean (traits : Traits)
  | any (traits : Traits)
  | array (traits : Traits) (items : Schema) (minItems maxItems : Option Int)
  | object (traits : Traits) (properties : List (String × Schema)) (required : List String)
  | ref (traits : Traits) (target : String)
deriving Repr

namespace Schema

def traits : Schema → Traits
  | .string t .. => t
  | .enum t _ => t
  | .number t .. => t
  | .boolean t => t
  | .any t => t
  | .array t .. => t
  | .object t .. => t
  | .ref t _ => t

def kindName : Schema → String
  | .string .. => "string"
  | .enum .. => "enum"
  | .number .. => "number"
  | .boolean _ => "boolean"
  | .any _ => "any"
  | .array .. => "array"
  | .object .. => "object"
  | .ref .. => "ref"

/-- The schema that says nothing. -/
def anything : Schema := .any .none

end Schema

end ApiContract
