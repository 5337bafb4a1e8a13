import ApiContract.Issue
import ApiContract.Text.Digit

/-!
Reading JSON. Whole numbers stay exact, a number with a fraction or an exponent is a double, and the
names of infinity and of the number that is none are read too. A later member replaces an earlier
one of its key in place. A text is read from its start on, and the first fault ends the reading.
-/

namespace ApiContract.Json

def isSpace (c : Char) : Bool := c == ' ' || c == '\t' || c == '\n' || c == '\r'

def skipSpace (cs : List Char) : List Char := cs.dropWhile isSpace

def hexValue? (c : Char) : Option Nat :=
  if '0' ≤ c ∧ c ≤ '9' then some (c.toNat - '0'.toNat)
  else if 'a' ≤ c ∧ c ≤ 'f' then some (c.toNat - 'a'.toNat + 10)
  else if 'A' ≤ c ∧ c ≤ 'F' then some (c.toNat - 'A'.toNat + 10)
  else none

def hexNumber? (cs : List Char) : Option Nat :=
  cs.foldlM (fun n c => (hexValue? c).map (16 * n + ·)) 0

/-- What a backslash and this character stand for. -/
def escapeValue? : Char → Option Char
  | '"' => some '"'
  | '\\' => some '\\'
  | '/' => some '/'
  | 'b' => some '\x08'
  | 'f' => some '\x0c'
  | 'n' => some '\n'
  | 'r' => some '\r'
  | 't' => some '\t'
  | _ => none

def malformed {α : Type} : Except Issue α := .error (.unreadable .json)

/-- A result and the text after it. -/
abbrev Parsed (α : Type) := α × List Char

def ofOption {α : Type} : Option α → Except Issue α
  | some a => .ok a
  | none => malformed

/-- The code units of a string up to its closing quote, and what follows the quote. -/
def stringUnits : List Char → Option (Parsed (List Nat))
  | [] => none
  | '"' :: rest => some ([], rest)
  | '\\' :: 'u' :: a :: b :: c :: d :: rest => do
    let n ← hexNumber? [a, b, c, d]
    let (ns, tail) ← stringUnits rest
    return (n :: ns, tail)
  | '\\' :: c :: rest => do
    let e ← escapeValue? c
    let (ns, tail) ← stringUnits rest
    return (e.toNat :: ns, tail)
  | c :: rest =>
    if c.toNat < 32 || c = '\\' then none
    else do
      let (ns, tail) ← stringUnits rest
      return (c.toNat :: ns, tail)

def stringBody (cs : List Char) : Except Issue (Parsed String) := do
  let (ns, rest) ← ofOption (stringUnits cs)
  return (Text.ofPoints (Text.joinHalves ns), rest)

/-- The point and the digits after it, if there is at least one digit. -/
def fractionPart (cs : List Char) : List Char × List Char :=
  match cs with
  | '.' :: r =>
    let digits := r.takeWhile Char.isDigit
    if digits.isEmpty then ([], cs) else ('.' :: digits, r.dropWhile Char.isDigit)
  | _ => ([], cs)

/-- The mark, the sign and the digits of an exponent, if there is at least one digit. -/
def exponentPart (cs : List Char) : List Char × List Char :=
  match cs with
  | e :: r =>
    if e = 'e' || e = 'E' then
      let (sign, r) : List Char × List Char :=
        match r with
        | '+' :: r' => (['+'], r')
        | '-' :: r' => (['-'], r')
        | _ => ([], r)
      let digits := r.takeWhile Char.isDigit
      if digits.isEmpty then ([], cs) else (e :: sign ++ digits, r.dropWhile Char.isDigit)
    else ([], cs)
  | [] => ([], cs)

/-- The longest number at the start, its sign read already. A leading zero stands alone. -/
def number (negative : Bool) (cs : List Char) : Except Issue (Parsed Value) :=
  let (whole, rest) : List Char × List Char :=
    match cs with
    | '0' :: r => (['0'], r)
    | r => (r.takeWhile Char.isDigit, r.dropWhile Char.isDigit)
  if whole.isEmpty then malformed
  else
    let (fraction, rest) := fractionPart rest
    let (exponent, rest) := exponentPart rest
    if fraction.isEmpty && exponent.isEmpty then
      if Text.maxDigits < whole.length then .error (.misfit .outOfRange)
      else
        let n : Int := Binary64.digitsValue whole
        .ok (.int (if negative then -n else n), rest)
    else
      (ofOption (Binary64.unsigned? negative (whole ++ fraction ++ exponent))).map (.float ·, rest)

/-- Strip a fixed word off the front. -/
def word? (word : String) (cs : List Char) : Option (List Char) :=
  if word.toList.isPrefixOf cs then some (cs.drop word.length) else none

/-- The values that are written as words. -/
def words : List (String × Value) :=
  [("null", .null), ("true", .bool true), ("false", .bool false), ("NaN", .float .nan),
    ("Infinity", .float (.infinite false)), ("-Infinity", .float (.infinite true))]

/-- A value that is a word or a number. -/
def bare (cs : List Char) : Except Issue (Parsed Value) :=
  match words.findSome? fun w => (word? w.1 cs).map (w.2, ·) with
  | some found => .ok found
  | none =>
    match cs with
    | '-' :: r => number true r
    | r => number false r

/-- How many collections may stand inside one another. -/
def maxDepth : Nat := 985

mutual

/-- A value at the start of a text, inside of which `depth` more collections may open. -/
def value (depth : Nat) : Nat → List Char → Except Issue (Parsed Value)
  | 0, _ => malformed
  | fuel + 1, cs =>
    match cs with
    | '"' :: r => (stringBody r).map fun (s, r) => (.str s, r)
    | '[' :: r =>
      if depth = 0 then .error (.misfit .tooDeep)
      else
        match skipSpace r with
        | ']' :: r => .ok (.seq [] 0, r)
        | r => (items (depth - 1) fuel r).map fun (vs, r) => (.seq vs 0, r)
    | '\x7b' :: r =>
      if depth = 0 then .error (.misfit .tooDeep)
      else
        match skipSpace r with
        | '\x7d' :: r => .ok (.map [] 0, r)
        | r => (members (depth - 1) fuel r).map fun (ms, r) => (.map (Members.ofList ms) 0, r)
    | r => bare r

/-- At least one item, up to the closing bracket. -/
def items (depth : Nat) : Nat → List Char → Except Issue (Parsed (List Value))
  | 0, _ => malformed
  | fuel + 1, cs => do
    let (v, r) ← value depth fuel cs
    match skipSpace r with
    | ']' :: r => return ([v], r)
    | ',' :: r =>
      let (vs, r) ← items depth fuel (skipSpace r)
      return (v :: vs, r)
    | _ => malformed

/-- At least one member, up to the closing brace. -/
def members (depth : Nat) : Nat → List Char → Except Issue (Parsed (List (Scalar × Value)))
  | 0, _ => malformed
  | fuel + 1, cs =>
    match cs with
    | '"' :: r => do
      let (key, r) ← stringBody r
      match skipSpace r with
      | ':' :: r =>
        let (v, r) ← value depth fuel (skipSpace r)
        match skipSpace r with
        | '\x7d' :: r => return ([(.str key, v)], r)
        | ',' :: r =>
          let (ms, r) ← members depth fuel (skipSpace r)
          return ((.str key, v) :: ms, r)
        | _ => malformed
      | _ => malformed
    | _ => malformed

end

/-- The one value of a text, with nothing but space around it. Every value and every separator
takes a character, so the length of the text bounds the depth of the reading. -/
def read (text : String) : Except Issue Value := do
  let cs := text.toList
  let (v, r) ← value maxDepth (cs.length + 1) (skipSpace cs)
  if (skipSpace r).isEmpty then return v else malformed

end ApiContract.Json
