import ApiContract.Binary64.Decimal
import ApiContract.Text.Printable
import ApiContract.Text.Digit
import ApiContract.Text.Quoted
import ApiContract.Value

/-!
How messages show values. `shown` is the unambiguous spelling, with texts in quotes; `plain` is the
same but for a text, a date and a point in time on their own, which stand there bare. Dots stand for
a collection inside itself.
-/

namespace ApiContract

/-- Shown texts stand in single quotes, unless that would need an escape and double ones do not. -/
def shownMark (hasSingle hasDouble : Bool) : Char :=
  if hasSingle && !hasDouble then '"' else '\''

def shownChar (mark c : Char) : List Char :=
  if c = mark || c = '\\' then ['\\', c]
  else if c = '\n' then ['\\', 'n']
  else if c = '\r' then ['\\', 'r']
  else if c = '\t' then ['\\', 't']
  else if Text.isPrintable c then [c]
  else if c.toNat < 0x100 then '\\' :: 'x' :: Text.hexDigits 2 c.toNat
  else if c.toNat < 0x10000 then Text.unicodeEscape c.toNat
  else '\\' :: 'U' :: Text.hexDigits 8 c.toNat

def shownPoint (mark : Char) (n : Nat) : List Char :=
  if Text.isHalf n then Text.unicodeEscape n else shownChar mark (Char.ofNat n)

def shownText (s : String) : String :=
  let cs := s.toList
  let mark := shownMark (cs.contains '\'') (cs.contains '"')
  String.ofList (mark :: ((Text.points cs).flatMap (shownPoint mark) ++ [mark]))

/-- Octets as the characters of their codes; those beyond ASCII are never printable. -/
def shownOctet (mark : Char) (o : UInt8) : List Char :=
  if o.toNat < 0x80 then shownChar mark (Char.ofNat o.toNat)
  else '\\' :: 'x' :: Text.hexDigits 2 o.toNat

def shownBytes (octets : List UInt8) : String :=
  let mark := shownMark (octets.contains 39) (octets.contains 34)
  String.ofList ('b' :: mark :: (octets.flatMap (shownOctet mark) ++ [mark]))

def Date.shown (d : Date) : String := s!"datetime.date({d.year}, {d.month}, {d.day})"

/-- A distance from universal time, written as whole days back and seconds forward. -/
def shownOffset (minutes : Int) : String :=
  if minutes = 0 then "datetime.timezone.utc"
  else
    let seconds := (minutes * 60) % 86400
    let days := if minutes < 0 then "days=-1, " else ""
    s!"datetime.timezone(datetime.timedelta({days}seconds={seconds}))"

def Moment.shown (t : Moment) : String :=
  let late :=
    if t.microsecond ≠ 0 then s!", {t.second}, {t.microsecond}"
    else if t.second ≠ 0 then s!", {t.second}"
    else ""
  let zone := (t.offset.map fun o => s!", tzinfo={shownOffset o}").getD ""
  s!"datetime.datetime({t.date.year}, {t.date.month}, {t.date.day}, {t.hour}, {t.minute}" ++
    late ++ zone ++ ")"

namespace Scalar

def shown : Scalar → String
  | .null => "None"
  | .bool true => "True"
  | .bool false => "False"
  | .int n => toString n
  | .float x => x.text
  | .str s => shownText s
  | .date d => d.shown
  | .moment t => t.shown
  | .bytes octets => shownBytes octets

/-- Every scalar but a whole number of too many digits has a spelling. -/
def hasSpelling : Scalar → Bool
  | .int n => Text.hasDigits n
  | _ => true

def plain : Scalar → String
  | .str s => s
  | .date d => d.text
  | .moment t => t.text
  | s => s.shown

end Scalar

namespace Value

mutual

/-- The spelling of a value inside the collections with these knots. -/
def shownIn (around : List Nat) : Value → String
  | .scalar s => s.shown
  | .seq items knot =>
    if around.contains knot then "[...]"
    else "[" ++ ", ".intercalate (shownItems (inside knot around) items) ++ "]"
  | .map members knot =>
    if around.contains knot then "\x7b...\x7d"
    else "\x7b" ++ ", ".intercalate (shownMembers (inside knot around) members) ++ "\x7d"
  | .pair a b => "(" ++ shownIn around a ++ ", " ++ shownIn around b ++ ")"
  | .set [] => "set()"
  | .set members => "\x7b" ++ ", ".intercalate (members.map Scalar.shown) ++ "\x7d"
  | .endless => "..."

def shownItems (around : List Nat) : List Value → List String
  | [] => []
  | v :: vs => shownIn around v :: shownItems around vs

def shownMembers (around : List Nat) : List (Scalar × Value) → List String
  | [] => []
  | (k, v) :: rest => (k.shown ++ ": " ++ shownIn around v) :: shownMembers around rest

end

def shown (v : Value) : String := v.shownIn []

def plain : Value → String
  | .scalar s => s.plain
  | v => v.shown

mutual

/-- Whether no whole number in the spelling of a value is too long. -/
def hasSpellingIn (around : List Nat) : Value → Bool
  | .scalar s => s.hasSpelling
  | .seq items knot =>
    around.contains knot || itemsHaveSpelling (inside knot around) items
  | .map members knot =>
    around.contains knot || membersHaveSpelling (inside knot around) members
  | .pair a b => hasSpellingIn around a && hasSpellingIn around b
  | .set members => members.all Scalar.hasSpelling
  | .endless => true

def itemsHaveSpelling (around : List Nat) : List Value → Bool
  | [] => true
  | v :: vs => hasSpellingIn around v && itemsHaveSpelling around vs

def membersHaveSpelling (around : List Nat) : List (Scalar × Value) → Bool
  | [] => true
  | (k, v) :: rest => k.hasSpelling && hasSpellingIn around v && membersHaveSpelling around rest

end

def hasSpelling (v : Value) : Bool := v.hasSpellingIn []

end Value

end ApiContract
