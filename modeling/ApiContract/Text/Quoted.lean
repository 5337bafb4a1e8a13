import ApiContract.Text.Surrogate

/-!
Quoted texts. Inside the marks a backslash, the mark itself and the control characters are escaped
by the rules of JSON, character by character, so that what stands between two single or two double
marks never holds a bare one or a line end. `asciiEscape` is the stricter form that leaves only
printable ASCII bare.
-/

namespace ApiContract.Text

inductive QuoteMark where
  | single
  | double
  | other (text : List Char)
deriving Repr, DecidableEq

def QuoteMark.chars : QuoteMark → List Char
  | .single => ['\'']
  | .double => ['"']
  | .other text => text

/-- The quote character that is escaped between two such marks. -/
def QuoteMark.guarded : QuoteMark → Char
  | .single => '\''
  | _ => '"'

def hexDigit (n : Nat) : Char := Nat.digitChar (n % 16)

/-- The lower case hexadecimal digits of `n`, `width` of them. -/
def hexDigits : Nat → Nat → List Char
  | 0, _ => []
  | width + 1, n => hexDigits width (n / 16) ++ [hexDigit n]

def unicodeEscape (n : Nat) : List Char := '\\' :: 'u' :: hexDigits 4 n

/-- The escape of a character that has a short one, a quote mark excepted. -/
def shortEscape? : Char → Option (List Char)
  | '\\' => some ['\\', '\\']
  | '\n' => some ['\\', 'n']
  | '\r' => some ['\\', 'r']
  | '\t' => some ['\\', 't']
  | '\x08' => some ['\\', 'b']
  | '\x0c' => some ['\\', 'f']
  | _ => none

def escape (mark : QuoteMark) (c : Char) : List Char :=
  if c = mark.guarded then ['\\', c]
  else match shortEscape? c with
    | some e => e
    | none => if c.toNat < 32 then unicodeEscape c.toNat else [c]

/-- A code point beyond ASCII as an escape of four digits, beyond the first plane as a pair of
them. -/
def asciiEscape (n : Nat) : List Char :=
  if n < 127 then escape .double (Char.ofNat n)
  else if n < 0x10000 then unicodeEscape n
  else
    let m := n - 0x10000
    unicodeEscape (0xD800 + m / 0x400) ++ unicodeEscape (0xDC00 + m % 0x400)

/-- A text in which every character stands for itself: a half of a surrogate pair shows as its
escape. -/
def escapeHalves (text : String) : String :=
  String.ofList ((points text.toList).flatMap fun n =>
    if isHalf n then unicodeEscape n else [Char.ofNat n])

def quoteChars (mark : QuoteMark) (cs : List Char) : List Char :=
  mark.chars ++ cs.flatMap (escape mark) ++ mark.chars

def quote (mark : QuoteMark) (text : String) : String :=
  String.ofList (quoteChars mark text.toList)

/-- A JSON string of ASCII characters only. -/
def quoteAscii (text : String) : String :=
  String.ofList ('"' :: ((points text.toList).flatMap asciiEscape ++ ['"']))

end ApiContract.Text
