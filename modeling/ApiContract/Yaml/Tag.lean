import ApiContract.Text.Lines

/-!
Tags, and the tag that a plain scalar has by its text alone: truth values by a list of words, whole
numbers in bases two, eight, ten, sixteen and sixty, floats with a point, dates, and the empty ways
to write null. An indicator of the language itself has a tag that nothing can be read under. Any
other text is a string.
-/

namespace ApiContract.Yaml

inductive Tag where
  | null
  | bool
  | int
  | float
  | str
  | binary
  | timestamp
  | seq
  | map
  | set
  | omap
  | pairs
  | merge
  | value
  | yaml
  | other (uri : String)
deriving Repr, DecidableEq

namespace Tag

def space : String := "tag:yaml.org,2002:"

def name? : Tag → Option String
  | null => some "null"
  | bool => some "bool"
  | int => some "int"
  | float => some "float"
  | str => some "str"
  | binary => some "binary"
  | timestamp => some "timestamp"
  | seq => some "seq"
  | map => some "map"
  | set => some "set"
  | omap => some "omap"
  | pairs => some "pairs"
  | merge => some "merge"
  | value => some "value"
  | yaml => some "yaml"
  | other _ => none

def known : List Tag :=
  [null, bool, int, float, str, binary, timestamp, seq, map, set, omap, pairs, merge, value,
    yaml]

def ofUri (uri : String) : Tag :=
  (known.find? fun t => t.name?.any fun n => space ++ n == uri).getD (.other uri)

end Tag

namespace Plain

def isSign (c : Char) : Bool := c == '+' || c == '-'

def dropSign : List Char → List Char
  | c :: cs => if isSign c then cs else c :: cs
  | [] => []

def isDigitOrGroup (c : Char) : Bool := c.isDigit || c == '_'

def trueWords : List String := ["yes", "Yes", "YES", "true", "True", "TRUE", "on", "On", "ON"]

def falseWords : List String := ["no", "No", "NO", "false", "False", "FALSE", "off", "Off", "OFF"]

def isBool (s : String) : Bool := trueWords.contains s || falseWords.contains s

def isNull (s : String) : Bool := ["", "~", "null", "Null", "NULL"].contains s

/-- A digit, then digits and underscores. -/
def isGrouped : List Char → Bool
  | c :: cs => c.isDigit && cs.all isDigitOrGroup
  | [] => false

/-- Nothing, or a mark, a sign and digits. -/
def isExponent : List Char → Bool
  | [] => true
  | e :: sign :: digits =>
    (e == 'e' || e == 'E') && isSign sign && !digits.isEmpty && digits.all Char.isDigit
  | _ => false

/-- A place in base sixty: one digit, or two of which the first is below six. -/
def isSixtieth : List Char → Bool
  | [c] => c.isDigit
  | [c, d] => '0' ≤ c && c ≤ '5' && d.isDigit
  | _ => false

def splitColons (cs : List Char) : List (List Char) := Text.splitAt ':' cs

def isPointed (cs : List Char) : Bool :=
  let whole := cs.takeWhile (· != '.')
  match cs.drop whole.length with
  | '.' :: rest =>
    isGrouped whole && isExponent (rest.dropWhile isDigitOrGroup)
  | _ => false

/-- A float that begins with its point has no sign. -/
def isBarePointed : List Char → Bool
  | '.' :: c :: rest => c.isDigit && isExponent (rest.dropWhile isDigitOrGroup)
  | _ => false

def isSixtyFloat (cs : List Char) : Bool :=
  let whole := cs.takeWhile (· != '.')
  match cs.drop whole.length, splitColons whole with
  | '.' :: rest, first :: p :: places =>
    isGrouped first && (p :: places).all isSixtieth && rest.all isDigitOrGroup
  | _, _ => false

def isInfinity (cs : List Char) : Bool :=
  [".inf", ".Inf", ".INF"].contains (String.ofList cs)

def isNan (s : String) : Bool := [".nan", ".NaN", ".NAN"].contains s

def isFloat (s : String) : Bool :=
  let cs := s.toList
  let body := dropSign cs
  isPointed body || isBarePointed cs || isSixtyFloat body || isInfinity body || isNan s

def isOctalOrGroup (c : Char) : Bool := ('0' ≤ c && c ≤ '7') || c == '_'

def isHexOrGroup (c : Char) : Bool :=
  c.isDigit || ('a' ≤ c && c ≤ 'f') || ('A' ≤ c && c ≤ 'F') || c == '_'

def isWhole : List Char → Bool
  | ['0'] => true
  | '0' :: 'b' :: c :: cs => (c :: cs).all fun d => d == '0' || d == '1' || d == '_'
  | '0' :: 'x' :: c :: cs => (c :: cs).all isHexOrGroup
  | '0' :: cs => cs.all isOctalOrGroup
  | cs =>
    match splitColons cs with
    | [digits] => isGrouped digits
    | first :: places => isGrouped first && places.all isSixtieth
    | [] => false

def isInt (s : String) : Bool := isWhole (dropSign s.toList)

/-- The parts of a date or of a point in time, as digits. -/
structure TimeParts where
  year : List Char
  month : List Char
  day : List Char
  clock : Option (List Char × List Char × List Char)
  fraction : List Char
  zone : Option (Bool × List Char × List Char)
deriving Repr

/-- Between `low` and `high` digits, as many as there are. -/
def takeDigits? (low high : Nat) (cs : List Char) : Option (List Char × List Char) :=
  let digits := (cs.take high).takeWhile Char.isDigit
  if low ≤ digits.length then some (digits, cs.drop digits.length) else none

def takeChar? (c : Char) : List Char → Option (List Char)
  | d :: cs => if d = c then some cs else none
  | [] => none

def isTimeGap (c : Char) : Bool := c == ' ' || c == '\t'

/-- What parts a date from a time of day: a letter, or blanks. -/
def dropTimeGap? : List Char → Option (List Char)
  | 'T' :: cs => some cs
  | 't' :: cs => some cs
  | c :: cs => if isTimeGap c then some (cs.dropWhile isTimeGap) else none
  | [] => none

/-- The distance from universal time at the end of a point in time; `some none` if it has none. -/
def zone? (cs : List Char) : Option (Option (Bool × List Char × List Char)) :=
  match cs.dropWhile isTimeGap with
  | [] => if cs.isEmpty then some none else none
  | ['Z'] => some (some (false, ['0'], []))
  | sign :: rest => do
    if !isSign sign then failure
    let (hour, rest) ← takeDigits? 1 2 rest
    match rest with
    | [] => return some (sign == '-', hour, [])
    | ':' :: rest =>
      let (minute, rest) ← takeDigits? 2 2 rest
      if rest.isEmpty then return some (sign == '-', hour, minute) else failure
    | _ => failure

def timeParts? (cs : List Char) : Option TimeParts := do
  let (year, cs) ← takeDigits? 4 4 cs
  let cs ← takeChar? '-' cs
  let (month, cs) ← takeDigits? 1 2 cs
  let cs ← takeChar? '-' cs
  let (day, cs) ← takeDigits? 1 2 cs
  if cs.isEmpty then return ⟨year, month, day, none, [], none⟩
  else
    let cs ← dropTimeGap? cs
    let (hour, cs) ← takeDigits? 1 2 cs
    let cs ← takeChar? ':' cs
    let (minute, cs) ← takeDigits? 2 2 cs
    let cs ← takeChar? ':' cs
    let (second, cs) ← takeDigits? 2 2 cs
    let (fraction, cs) : List Char × List Char :=
      match cs with
      | '.' :: r => (r.takeWhile Char.isDigit, r.dropWhile Char.isDigit)
      | r => ([], r)
    let zone ← zone? cs
    return ⟨year, month, day, some (hour, minute, second), fraction, zone⟩

/-- A date alone has all its digits. -/
def isTimestamp (s : String) : Bool :=
  match timeParts? s.toList with
  | some p => p.clock.isSome || (p.month.length == 2 && p.day.length == 2)
  | none => false

/-- Only a scalar that is not plain can be one of these. -/
def isIndicator (s : String) : Bool := ["!", "&", "*"].contains s

/-- The tag of a text that does not end in a line end. -/
def tagOfLine (s : String) : Tag :=
  if isBool s then .bool
  else if isFloat s then .float
  else if isInt s then .int
  else if s == "<<" then .merge
  else if isNull s then .null
  else if isTimestamp s then .timestamp
  else if s == "=" then .value
  else if isIndicator s then .yaml
  else .str

/-- A text without the line end that it ends in. -/
def dropLineEnd (s : String) : String :=
  let cs := s.toList
  if cs.getLast? == some '\n' then String.ofList cs.dropLast else s

/-- The tag that a text has by itself. A line end behind it makes no difference, unless there is
nothing else. -/
def tagOf (s : String) : Tag := if s == "\n" then .str else tagOfLine (dropLineEnd s)

end Plain

end ApiContract.Yaml
