import ApiContract.Numeral
import ApiContract.Value

/-!
Validator expressions. An expression is a node with a kind and a chain of checks; which of its other
fields matter depends on the kind. The constructors in lower case build the nodes that mean
something, one for each kind.
-/

namespace ApiContract.Validator

inductive LiteralKind where
  | null
  | boolean
  | number
  | string
  | array
  | object
  | other (name : String)
deriving Repr, DecidableEq, Inhabited

namespace LiteralKind

def name : LiteralKind → String
  | null => "null"
  | boolean => "boolean"
  | number => "number"
  | string => "string"
  | array => "array"
  | object => "object"
  | other name => name

def ofName (s : String) : LiteralKind :=
  ([null, boolean, number, string, array, object].find? (·.name == s)).getD (.other s)

end LiteralKind

/-- A default value as data. The kind of a leaf says how its scalar is to be written. -/
inductive Literal where
  | leaf (kind : LiteralKind) (value : Scalar)
  | array (items : List Literal)
  | object (members : List (String × Literal))
deriving Repr, Inhabited

namespace Literal

def null : Literal := .leaf .null .null
def boolean (b : Bool) : Literal := .leaf .boolean (.bool b)
def string (s : String) : Literal := .leaf .string (.str s)

def number (n : Numeral) : Literal := .leaf .number n.toScalar

def kind : Literal → LiteralKind
  | .leaf kind _ => kind
  | .array _ => .array
  | .object _ => .object

end Literal

inductive CheckName where
  | email
  | uuid
  | datetime
  | date
  | url
  | int
  | nullable
  | optional
  | min
  | max
  | regex
  | default
  | describe
  | other (name : String)
deriving Repr, DecidableEq

namespace CheckName

def text : CheckName → String
  | email => "email"
  | uuid => "uuid"
  | datetime => "datetime"
  | date => "date"
  | url => "url"
  | int => "int"
  | nullable => "nullable"
  | optional => "optional"
  | min => "min"
  | max => "max"
  | regex => "regex"
  | default => "default"
  | describe => "describe"
  | other name => name

def known : List CheckName :=
  [email, uuid, datetime, date, url, int, nullable, optional, min, max, regex, default, describe]

def ofText (s : String) : CheckName := (known.find? (·.text == s)).getD (.other s)

end CheckName

inductive Argument where
  | none
  | numeral (n : Numeral)
  | text (s : String)
  | literal (l : Literal)
deriving Repr

/-- One link of the chain behind an expression: a refinement or a modifier. -/
structure Check where
  name : CheckName
  arg : Argument
deriving Repr

namespace Check

def bare (name : CheckName) : Check := ⟨name, .none⟩

end Check

inductive Kind where
  | string
  | number
  | boolean
  | any
  | enum
  | array
  | object
  | lazy
  | other (name : String)
deriving Repr, DecidableEq, Inhabited

namespace Kind

def name : Kind → String
  | string => "string"
  | number => "number"
  | boolean => "boolean"
  | any => "any"
  | enum => "enum"
  | array => "array"
  | object => "object"
  | lazy => "lazy"
  | other name => name

def ofName (s : String) : Kind :=
  ([string, number, boolean, any, enum, array, object, lazy].find? (·.name == s)).getD (.other s)

end Kind

structure Expr where
  kind : Kind
  values : List String
  item : Option Expr
  properties : List (String × Expr)
  ref : Option String
  checks : List Check
deriving Repr, Inhabited

namespace Expr

def basic (kind : Kind) (checks : List Check) : Expr := ⟨kind, [], none, [], none, checks⟩
def string (checks : List Check) : Expr := basic .string checks
def number (checks : List Check) : Expr := basic .number checks
def boolean : Expr := basic .boolean []
def any : Expr := basic .any []
def enum (values : List String) : Expr := ⟨.enum, values, none, [], none, []⟩
def array (item : Expr) (checks : List Check) : Expr := ⟨.array, [], some item, [], none, checks⟩
def object (properties : List (String × Expr)) : Expr := ⟨.object, [], none, properties, none, []⟩
def lazy (target : String) : Expr := ⟨.lazy, [], none, [], some target, []⟩

/-- Put checks at the end of the chain. -/
def withChecks (e : Expr) (checks : List Check) : Expr := { e with checks := e.checks ++ checks }

def checkNames (e : Expr) : List CheckName := e.checks.map (·.name)

mutual

/-- The targets of all references, in the order of the tree. -/
def refs : Expr → List String
  | ⟨_, _, item, properties, ref, _⟩ =>
    ref.toList ++ itemRefs item ++ propertyRefs properties

def itemRefs : Option Expr → List String
  | none => []
  | some e => refs e

def propertyRefs : List (String × Expr) → List String
  | [] => []
  | (_, e) :: rest => refs e ++ propertyRefs rest

end

end Expr

end ApiContract.Validator
