import ApiContract.Issue
import ApiContract.Numeral
import ApiContract.Text.Blank
import ApiContract.Text.Digit
import ApiContract.Text.Surrogate

/-!
Lenient reading of the keywords of a schema. A whole number may be written as a truth value, as a
float without a fraction or as text, and a text as the octets that encode it; a keyword that is null
is a keyword left out.
-/

namespace ApiContract.Field

/-- A tail of a point and at least one zero does not change a whole number. -/
def dropZeroTail (cs : List Char) : List Char :=
  let whole := cs.takeWhile (· != '.')
  match cs.drop whole.length with
  | '.' :: zeros => if !zeros.isEmpty && zeros.all (· == '0') then whole else cs
  | _ => cs

/-- Drop the underscores of a text that has none at its ends and no two together. -/
def ungroup (cs : List Char) : List Char :=
  let doubled := (cs.zip (cs.drop 1)).any fun p => p.1 == '_' && p.2 == '_'
  if cs.head? == some '_' || cs.getLast? == some '_' || doubled then cs
  else cs.filter (· != '_')

/-- A plus sign that no minus sign follows makes no difference. -/
def dropPlus : List Char → List Char
  | '+' :: '-' :: cs => '+' :: '-' :: cs
  | '+' :: cs => cs
  | cs => cs

/-- What follows zeros and underscores; the last of these stays if nothing but a point or the end
comes next. -/
def afterZeros (last : Char) : List Char → Option (List Char)
  | [] => some [last]
  | c :: cs =>
    if c = '0' || c = '_' then afterZeros c cs
    else if c = '.' then some (last :: c :: cs)
    else if c.isDigit || c = '-' then some (c :: cs)
    else none

/-- Zeros that lead make no difference, nor do underscores among them. -/
def dropLeadingZeros : List Char → Option (List Char)
  | '0' :: cs => afterZeros '0' cs
  | c :: cs => if c.isDigit then some (c :: cs) else none
  | [] => none

/-- A minus sign stays, and zeros lead behind it as they do without it. -/
def dropZerosAfterSign : List Char → Option (List Char)
  | '-' :: cs => (dropLeadingZeros cs).map ('-' :: ·)
  | cs => dropLeadingZeros cs

/-- Digits with a minus sign or without. A zero is the first of them only if it is the only one. -/
def plainInteger? (cs : List Char) : Option (Bool × List Char) :=
  let (negative, digits) : Bool × List Char :=
    match cs with
    | '-' :: r => (true, r)
    | r => (false, r)
  if digits.isEmpty || !digits.all Char.isDigit then none
  else if digits.head? == some '0' && digits.length > 1 then none
  else some (negative, digits)

/-- How many characters the number at the start of a text has, its minus sign among them. -/
def numberLength : List Char → Nat
  | '-' :: cs => (cs.takeWhile Char.isDigit).length + 1
  | cs => (cs.takeWhile Char.isDigit).length

/-- Whether a text starts with a number of too many digits, whatever follows it. -/
def isTooLong (cs : List Char) : Bool :=
  let leadsWithZero := (if cs.head? == some '-' then cs.drop 1 else cs).head? == some '0'
  !leadsWithZero && Text.maxDigits < numberLength cs

/-- A text trimmed and freed of what makes no difference to a whole number. -/
def cleanInteger? (cs : List Char) : Option (List Char) :=
  (dropZerosAfterSign (dropPlus (Text.stripWhere Text.isSpace cs))).map fun cs =>
    ungroup (dropZeroTail cs)

/-- A whole number as text. -/
def integerText (s : String) : Except FieldFault Int :=
  if Text.hasHalf s then .error .brokenText
  else if isTooLong s.toList then .error .tooLarge
  else
    match cleanInteger? s.toList with
    | none => .error .unreadableInteger
    | some cs =>
      if isTooLong cs then .error .tooLarge
      else
        match plainInteger? cs with
        | none => .error .unreadableInteger
        | some (negative, digits) =>
          let n : Int := Binary64.digitsValue digits
          .ok (if negative then -n else n)

/-- A float as text: trimmed and without underscores, or else not trimmed and with them. -/
def floatText? (s : String) : Option Binary64 :=
  Binary64.ofText? (Text.stripWhere Text.isSpace s.toList) <|>
    Binary64.ofText? (ungroup s.toList)

/-- A whole number as octets, which have to encode its text. -/
def integerOctets (octets : List UInt8) : Except FieldFault Int :=
  match Text.ofOctets? octets with
  | some s => integerText s
  | none => .error .unreadableInteger

def integer : Value → Except FieldFault Int
  | .bool b => .ok (if b then 1 else 0)
  | .int n => .ok n
  | .float x =>
    if !x.isFinite then .error .notFinite
    else match x.toInt? with
      | none => .error .fractional
      | some n => if n.natAbs < Nat.pow 2 63 then .ok n else .error .tooLarge
  | .str s => integerText s
  | .scalar (.bytes octets) => integerOctets octets
  | _ => .error .notInteger

/-- The float that a text or octets can be read as. -/
def writtenFloat? : Value → Option Binary64
  | .str s => floatText? s
  | .scalar (.bytes octets) => (Text.ofOctets? octets).bind floatText?
  | _ => none

/-- A bound keeps its kind of number. What is written out is a whole number if it can be read as
one, and else a float; what is neither is reported as a whole number that cannot be read. -/
def numeral : Value → Except FieldFault Numeral
  | .float x => .ok (.float x)
  | v =>
    match integer v, writtenFloat? v with
    | .ok n, _ => .ok (.int n)
    | .error _, some x => .ok (.float x)
    | .error fault, none => .error fault

/-- A text, as itself or as the octets that encode it. -/
def text : Value → Except FieldFault String
  | .str s => .ok s
  | .scalar (.bytes octets) =>
    match Text.ofOctets? octets with
    | some s => .ok s
    | none => .error .brokenText
  | _ => .error .notText

/-- Read texts in order, the first of them with number `index`. -/
def texts (field : Nat → String) (index : Nat) : List Value → Except FieldIssue (List String)
  | [] => .ok []
  | v :: vs => do
    let s ← (text v).mapError fun fault => ⟨field index, fault⟩
    let ss ← texts field (index + 1) vs
    return s :: ss

/-- Read a keyword that may be left out. -/
def optional {α : Type} (field : String) (read : Value → Except FieldFault α) :
    Option Value → Except FieldIssue (Option α)
  | none => .ok none
  | some .null => .ok none
  | some v =>
    match read v with
    | .ok a => .ok (some a)
    | .error fault => .error ⟨field, fault⟩

end ApiContract.Field
