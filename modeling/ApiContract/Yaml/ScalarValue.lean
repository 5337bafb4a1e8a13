import ApiContract.Issue
import ApiContract.Text.Blank
import ApiContract.Text.Digit
import ApiContract.Yaml.ScalarText
import ApiContract.Yaml.Tag

/-!
The scalar that a text stands for under a tag. An explicit tag may meet any text, so every reading
says what is wrong with a text that does not fit.
-/

namespace ApiContract.Yaml

def outOfRange {α : Type} : Except Issue α := .error (.misfit .outOfRange)

def ungroup (cs : List Char) : List Char := cs.filter (· != '_')

/-- The value of digits. In base ten there may be only so many of them. -/
def digitsIn (base : Nat) (cs : List Char) : Option Nat :=
  if cs.isEmpty || (base == 10 && Text.maxDigits < cs.length) then none
  else cs.foldlM (fun n c => (Json.hexValue? (Text.plainDigit c)).bind fun d =>
    if d < base then some (base * n + d) else none) 0

/-- The letter that may mark a base, after a zero. -/
def baseMark? : Nat → Option Char
  | 2 => some 'b'
  | 8 => some 'o'
  | 16 => some 'x'
  | _ => none

def dropBaseMark (base : Nat) : List Char → List Char
  | '0' :: c :: cs => if baseMark? base == some c.toLower then cs else '0' :: c :: cs
  | cs => cs

def isNegative (cs : List Char) : Bool := cs.head? == some '-'

/-- The number with this sign. -/
def signed (negative : Bool) (n : Int) : Int := if negative then -n else n

/-- A whole number, with blanks around it, a sign and the mark of its base. -/
def integerIn (base : Nat) (cs : List Char) : Option Int :=
  let cs := Text.strip cs
  (digitsIn base (dropBaseMark base (Plain.dropSign cs))).map fun n => signed (isNegative cs) n

/-- Places in base sixty, the highest first. -/
def sixtieths (places : List (List Char)) : Option Int :=
  places.foldlM (fun n p => (integerIn 10 p).map (60 * n + ·)) 0

/-- A whole number whose first characters tell its base. -/
def integer : List Char → Option Int
  | ['0'] => some 0
  | '0' :: 'b' :: cs => integerIn 2 cs
  | '0' :: 'x' :: cs => integerIn 16 cs
  | '0' :: cs => integerIn 8 ('0' :: cs)
  | cs => sixtieths (Plain.splitColons cs)

def readInt (text : String) : Except Issue Scalar :=
  let cs := ungroup text.toList
  let body := Plain.dropSign cs
  if body.isEmpty then .error (.misfit .emptyText)
  else
    match integer body with
    | some n => .ok (.int (signed (isNegative cs) n))
    | none => outOfRange

/-- The sum of places in base sixty, the lowest first. The weight of a place is rounded before the
product, and each product and each sum are rounded too. -/
def sixtyFloat (sum : Binary64) (weight : Nat) : List Binary64 → Except Issue Binary64
  | [] => .ok sum
  | place :: places =>
    let factor := Binary64.ofInt weight
    if factor.isFinite then sixtyFloat (sum.add (place.mul factor)) (weight * 60) places
    else .error (.misfit .tooLarge)

/-- A float with blanks around it, in digits of any script. -/
def place? (cs : List Char) : Option Binary64 :=
  Binary64.ofText? ((Text.strip cs).map Text.plainDigit)

def floatBody (text : String) : List Char :=
  Plain.dropSign ((ungroup text.toList).map Char.toLower)

/-- Whether a text is the name of the number that is none. Any other text that reads as that number
makes one of its own. -/
def isNanName (text : String) : Bool := floatBody text == ".nan".toList

def readFloat (text : String) : Except Issue Scalar :=
  let body := floatBody text
  let negative := isNegative (ungroup text.toList)
  let withSign (x : Binary64) : Scalar := .float (if negative then x.negate else x)
  if (ungroup text.toList).isEmpty then .error (.misfit .emptyText)
  else if body == ".inf".toList then .ok (withSign (.infinite false))
  else if isNanName text then .ok (.float .nan)
  else
    match (Plain.splitColons body).mapM place? with
    | some [x] => .ok (withSign x)
    | some places => (sixtyFloat (.zero false) 1 places.reverse).map withSign
    | none => outOfRange

def readBool (text : String) : Except Issue Scalar :=
  let word := String.ofList (text.toList.map Char.toLower)
  if Plain.trueWords.contains word then .ok (.bool true)
  else if Plain.falseWords.contains word then .ok (.bool false)
  else .error (.misfit .unknownWord)

/-- A fraction of a second in millionths, further digits cut off. -/
def microseconds (fraction : List Char) : Nat :=
  let digits := fraction.take 6
  Binary64.digitsValue (digits ++ List.replicate (6 - digits.length) '0')

def zoneMinutes (zone : Bool × List Char × List Char) : Int :=
  let minutes : Int := Binary64.digitsValue zone.2.1 * 60 + Binary64.digitsValue zone.2.2
  if zone.1 then -minutes else minutes

def readTimestamp (text : String) : Except Issue Scalar :=
  match Plain.timeParts? (Plain.dropLineEnd text).toList with
  | none => .error (.misfit .noMembers)
  | some p =>
    let number := Binary64.digitsValue
    let date : Date := ⟨number p.year, number p.month, number p.day⟩
    match p.clock with
    | none => if date.isValid then .ok (.date date) else outOfRange
    | some (hour, minute, second) =>
      let moment : Moment :=
        ⟨date, number hour, number minute, number second, microseconds p.fraction,
          p.zone.map zoneMinutes⟩
      if moment.isValid then .ok (.moment moment) else outOfRange

/-- The value of a digit in base sixty-four. -/
def sextet? (c : Char) : Option Nat :=
  if 'A' ≤ c ∧ c ≤ 'Z' then some (c.toNat - 'A'.toNat)
  else if 'a' ≤ c ∧ c ≤ 'z' then some (c.toNat - 'a'.toNat + 26)
  else if '0' ≤ c ∧ c ≤ '9' then some (c.toNat - '0'.toNat + 52)
  else if c = '+' then some 62
  else if c = '/' then some 63
  else none

/-- The octets of digits in base sixty-four, four digits giving three. `group` holds the digits of
the group begun, the last one first, and `fill` counts the equals signs since the last digit. A
group that these fill up ends the text; other characters count for nothing. -/
def octets? (group : List Nat) (fill : Nat) : List Char → Option (List UInt8)
  | [] => if group.isEmpty then some [] else none
  | c :: cs =>
    if c = '=' then
      if group.length < 2 then octets? group fill cs
      else if 4 ≤ group.length + fill + 1 then some []
      else octets? group (fill + 1) cs
    else
      match sextet? c, group with
      | none, _ => octets? group fill cs
      | some n, [] => octets? [n] 0 cs
      | some n, last :: others =>
        let octet := match others with
          | [] => last * 4 + n / 16
          | [_] => last % 16 * 16 + n / 4
          | _ => last % 4 * 64 + n
        (octets? (if others.length < 2 then n :: group else []) 0 cs).map (octet.toUInt8 :: ·)

def readBinary (text : String) : Except Issue Scalar :=
  if text.toList.all (·.toNat < 128) then
    match octets? [] 0 text.toList with
    | some os => .ok (.bytes os)
    | none => malformed
  else malformed

def readScalar (tag : Tag) (text : String) : Except Issue Scalar :=
  match tag with
  | .null => .ok .null
  | .bool => readBool text
  | .int => readInt text
  | .float => readFloat text
  | .str => .ok (.str text)
  | .binary => readBinary text
  | .timestamp => readTimestamp text
  | _ => malformed

end ApiContract.Yaml
