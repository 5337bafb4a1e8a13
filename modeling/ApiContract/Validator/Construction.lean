import ApiContract.Document
import ApiContract.Issue
import ApiContract.Validator.Expr

/-!
The validator of a schema. The modifiers of a property follow its own checks in a fixed order:
nullable, optional, default, description. An object takes only the keys that it declares.
-/

namespace ApiContract.Validator

mutual

/-- A default as a literal. Only what JSON can hold is one. -/
def Literal.ofValue (place : String) : Value → Except Issue Literal
  | .scalar .null => .ok .null
  | .scalar (.bool b) => .ok (.boolean b)
  | .scalar (.int n) => .ok (.number (.int n))
  | .scalar (.float x) =>
    if x.isFinite then .ok (.number (.float x)) else .error (.schema (.infiniteDefault place x))
  | .scalar (.str s) => .ok (.string s)
  | .seq items _ => do return .array (← Literal.ofItems place 0 items)
  | .map members _ => do return .object (← Literal.ofMembers place members)
  | .pair a b => do
    let first ← Literal.ofValue (place ++ "[0]") a
    let second ← Literal.ofValue (place ++ "[1]") b
    return .array [first, second]
  | .endless => .error (.misfit .tooDeep)
  | v => .error (.schema (.defaultType place v.typeName))

/-- The literals of items, the first of them with number `index`. -/
def Literal.ofItems (place : String) (index : Nat) : List Value → Except Issue (List Literal)
  | [] => .ok []
  | v :: vs => do
    let l ← Literal.ofValue s!"{place}[{index}]" v
    let ls ← Literal.ofItems place (index + 1) vs
    return l :: ls

def Literal.ofMembers (place : String) :
    List (Scalar × Value) → Except Issue (List (String × Literal))
  | [] => .ok []
  | (k, v) :: rest => do
    let key ← k.spelledPlain
    let l ← Literal.ofValue s!"{place}.{key}" v
    let ls ← Literal.ofMembers place rest
    return (key, l) :: ls

end

def bounds (low high : Option Numeral) : List Check :=
  (low.map fun n => (⟨.min, .numeral n⟩ : Check)).toList ++
    (high.map fun n => (⟨.max, .numeral n⟩ : Check)).toList

def lengthBounds (low high : Option Int) : List Check :=
  bounds (low.map .int) (high.map .int)

/-- What the place of an expression in an object adds to it. -/
structure Modifiers where
  nullable : Bool
  optional : Bool
  default : Option Value
  description : Option String

def Modifiers.checks (m : Modifiers) (place : String) : Except Issue (List Check) := do
  let fallback ← match m.default with
    | none => pure []
    | some v => do
      let l ← Literal.ofValue place v
      pure [⟨.default, .literal l⟩]
  return (if m.nullable then [Check.bare .nullable] else []) ++
    (if m.optional then [Check.bare .optional] else []) ++ fallback ++
    (m.description.map fun s => (⟨.describe, .text s⟩ : Check)).toList

def modify (e : Expr) (m : Modifiers) (place : String) : Except Issue Expr := do
  return e.withChecks (← m.checks place)

/-- The check of a string format; a format that is not known adds none. -/
def formatCheck? : String → Option CheckName
  | "email" => some .email
  | "uuid" => some .uuid
  | "date-time" => some .datetime
  | "date" => some .date
  | "uri" => some .url
  | _ => none

def stringChecks (format pattern : Option String) (low high : Option Int) : List Check :=
  ((format.bind formatCheck?).map Check.bare).toList ++
    (pattern.map fun p => (⟨.regex, .text p⟩ : Check)).toList ++ lengthBounds low high

/-- A bound is written as a number, so it has to be a finite one. -/
def checkBound (place : String) : Option Numeral → Except Issue Unit
  | some (.float x) => if x.isFinite then .ok () else .error (.schema (.infiniteBound place x))
  | _ => .ok ()

def numberExpr (place : String) (integer : Bool) (low high : Option Numeral) :
    Except Issue Expr := do
  checkBound place low
  checkBound place high
  return .number ((if integer then [Check.bare .int] else []) ++ bounds low high)

mutual

def Expr.ofSchema (place : String) : Schema → Except Issue Expr
  | .string _ format pattern low high => .ok (.string (stringChecks format pattern low high))
  | .enum _ values => .ok (.enum values)
  | .number _ integer low high => numberExpr place integer low high
  | .boolean _ => .ok .boolean
  | .any _ => .ok .any
  | .array _ items low high => do
    let item ← Expr.ofSchema (place ++ "[]") items
    return .array item (lengthBounds low high)
  | .object _ properties required => do
    return .object (← Expr.ofProperties place required properties)
  | .ref _ target => .ok (.lazy target)

def Expr.ofProperties (place : String) (required : List String) :
    List (String × Schema) → Except Issue (List (String × Expr))
  | [] => .ok []
  | (name, schema) :: rest => do
    let here := s!"{place}.{name}"
    let e ← Expr.ofSchema here schema
    let t := schema.traits
    let e ← modify e ⟨t.nullable, !required.contains name, t.default, t.description⟩ here
    let others ← Expr.ofProperties place required rest
    return (name, e) :: others

end

/-- Parameters as the properties of one object. A parameter has modifiers of its own. -/
def parameterProperties (place : String) :
    List Parameter → Except Issue (List (String × Expr))
  | [] => .ok []
  | p :: ps => do
    let here := s!"{place}.{p.name}"
    let e ← Expr.ofSchema here p.schema
    let e ← modify e ⟨p.nullable, !p.required, p.default, p.description⟩ here
    let others ← parameterProperties place ps
    return (p.name, e) :: others

def Expr.ofParameters (place : String) (ps : List Parameter) : Except Issue Expr := do
  return .object (← parameterProperties place ps)

end ApiContract.Validator
