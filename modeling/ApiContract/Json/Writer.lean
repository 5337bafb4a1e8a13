import ApiContract.Issue

/-!
Values as JSON on one line, in ASCII. Dates, points in time, octets and sets have no JSON form,
neither as values nor as keys; a collection that contains itself and a whole number of too many
digits cannot be written either. A pair is written as a sequence.
-/

namespace ApiContract.Json

def floatText : Binary64 → String
  | .nan => "NaN"
  | .infinite negative => if negative then "-Infinity" else "Infinity"
  | x => x.text

/-- A scalar other than a text, as it stands outside quotes. -/
def bareText : Scalar → Except Misfit String
  | .null => .ok "null"
  | .bool b => .ok (if b then "true" else "false")
  | .int n => if Text.hasDigits n then .ok (toString n) else .error .outOfRange
  | .float x => .ok (floatText x)
  | _ => .error .noJsonForm

def scalarText : Scalar → Except Misfit String
  | .str s => .ok (Text.quoteAscii s)
  | s => bareText s

/-- A key is a text; other scalars are put into quotes as they stand. -/
def keyText : Scalar → Except Misfit String
  | .str s => .ok (Text.quoteAscii s)
  | s => (bareText s).map Text.quoteAscii

def listText (parts : List String) : String := "[" ++ ", ".intercalate parts ++ "]"

def objectText (parts : List String) : String := "\x7b" ++ ", ".intercalate parts ++ "\x7d"

mutual

/-- The text of a value inside the collections with these knots. -/
def textIn (around : List Nat) : Value → Except Misfit String
  | .scalar s => scalarText s
  | .seq items knot => do
    if around.contains knot then throw .outOfRange
    return listText (← itemTexts (Value.inside knot around) items)
  | .map members knot => do
    if around.contains knot then throw .outOfRange
    return objectText (← memberTexts (Value.inside knot around) members)
  | .pair a b => do
    let first ← textIn around a
    let second ← textIn around b
    return listText [first, second]
  | .set _ => .error .noJsonForm
  | .endless => .error .outOfRange

def itemTexts (around : List Nat) : List Value → Except Misfit (List String)
  | [] => .ok []
  | v :: vs => do
    let part ← textIn around v
    let parts ← itemTexts around vs
    return part :: parts

def memberTexts (around : List Nat) : List (Scalar × Value) → Except Misfit (List String)
  | [] => .ok []
  | (k, v) :: rest => do
    let key ← keyText k
    let part ← textIn around v
    let parts ← memberTexts around rest
    return (key ++ ": " ++ part) :: parts

end

def text (v : Value) : Except Misfit String := textIn [] v

end ApiContract.Json
