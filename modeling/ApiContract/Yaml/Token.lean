/-!
The tokens of a YAML stream. Block structure, which the text shows by indentation alone, has tokens
of its own where a level begins and where it ends.
-/

namespace ApiContract.Yaml

inductive Directive where
  | version (major minor : Nat)
  | tag (handle uri : String)
  | reserved
deriving Repr, DecidableEq

inductive Token where
  | directive (d : Directive)
  | documentStart
  | documentEnd
  | blockSeqStart
  | blockMapStart
  | blockEnd
  | flowSeqStart
  | flowSeqEnd
  | flowMapStart
  | flowMapEnd
  | blockEntry
  | flowEntry
  | key
  | value
  | alias (name : String)
  | anchor (name : String)
  | tag (handle : Option String) (suffix : String)
  | scalar (text : String) (plain : Bool)
deriving Repr, DecidableEq

/-- The end of the text reads as this character, which no text may hold. -/
def endMark : Char := '\x00'

def isBreak (c : Char) : Bool := c == '\n' || c == '\x85' || c == '\u2028' || c == '\u2029'

def isBreakOrEnd (c : Char) : Bool := isBreak c || c == endMark

def isSpaceOrEnd (c : Char) : Bool := c == ' ' || isBreakOrEnd c

/-- What parts an indicator from the text after it. -/
def isGapOrEnd (c : Char) : Bool := c == '\t' || isSpaceOrEnd c

/-- The characters that a stream may hold. -/
def isAllowed (c : Char) : Bool :=
  let n := c.toNat
  n == 9 || n == 10 || n == 13 || (0x20 ≤ n && n ≤ 0x7E) || n == 0x85 ||
    (0xA0 ≤ n && n ≤ 0xD7FF) || (0xE000 ≤ n && n ≤ 0xFFFD) || 0x10000 ≤ n

def isNameChar (c : Char) : Bool := c.isAlphanum || c == '-' || c == '_'

end ApiContract.Yaml
