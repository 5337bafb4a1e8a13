import ApiContract.Issue
import ApiContract.Yaml.Token

/-!
The state of reading tokens from a text. Tokens are only ever appended. A key that turns out to be
one only at its colon is remembered by its position, and its tokens are put in at the end.
-/

namespace ApiContract.Yaml

/-- A place where a key without an indicator may have begun. A required one stands where its block
mapping has to go on. -/
structure KeyCandidate where
  position : Nat
  required : Bool
  index : Nat
  line : Nat
  column : Nat
deriving Repr

/-- The tokens of a key that belong before the token at `position`. -/
structure KeyMark where
  position : Nat
  opensMap : Bool
deriving Repr

/-- `index` characters of the `size` ones are read, and `rest` is left. The tokens read are `count`
ones, the last one first. -/
structure ScanState where
  rest : List Char
  size : Nat
  index : Nat
  line : Nat
  column : Nat
  flowDepth : Nat
  indent : Int
  outerIndents : List Int
  keyAllowed : Bool
  candidates : List (Nat × KeyCandidate)
  marks : List KeyMark
  tokens : List Token
  count : Nat

abbrev Scan := StateT ScanState (Except Issue)

def malformed {α : Type} : Except Issue α := .error (.unreadable .yaml)

namespace ScanState

def ofText (cs : List Char) : ScanState :=
  ⟨cs, cs.length, 0, 0, 0, 0, -1, [], true, [], [], [], 0⟩

def push (t : Token) (s : ScanState) : ScanState :=
  { s with tokens := t :: s.tokens, count := s.count + 1 }

/-- Move past one character. A byte order mark takes no column. -/
def step (s : ScanState) : ScanState :=
  match s.rest with
  | [] => s
  | c :: rest =>
    if isBreak c then { s with rest := rest, index := s.index + 1, line := s.line + 1, column := 0 }
    else
      let width := if c == '\uFEFF' then 0 else 1
      { s with rest := rest, index := s.index + 1, column := s.column + width }

def advance (s : ScanState) : Nat → ScanState
  | 0 => s
  | n + 1 => s.step.advance n

end ScanState

namespace Scan

def reject {α : Type} : Scan α := fun _ => malformed

def fail {α : Type} (kind : Misfit) : Scan α := throw (.misfit kind)

def peekAt (k : Nat) : Scan Char := do return (← get).rest.getD k endMark

def peek : Scan Char := peekAt 0

def advance (n : Nat) : Scan Unit := modify (·.advance n)

/-- Take the longest run of characters that satisfy `p`. -/
def takeRun (p : Char → Bool) : Scan (List Char) := do
  let cs := (← get).rest.takeWhile p
  advance cs.length
  return cs

def skipSpaces : Scan Unit := do
  let _ ← takeRun (· == ' ')

/-- As many tries as there are characters left, and one for the end. -/
def budget : Scan Nat := do return (← get).size - (← get).index + 1

def emit (t : Token) : Scan Unit := modify (·.push t)

/-- Take a line end. All but the line and paragraph separators read as a plain one. -/
def lineBreak : Scan (List Char) := do
  let c ← peek
  if isBreak c then
    advance 1
    return if c == '\n' || c == '\x85' then ['\n'] else [c]
  else return []

/-- Whether a document marker stands here. -/
def atMarker (mark : Char) : Scan Bool := do
  return (← peekAt 0) == mark && (← peekAt 1) == mark && (← peekAt 2) == mark &&
    isGapOrEnd (← peekAt 3)

def atAnyMarker : Scan Bool := do return (← atMarker '-') || (← atMarker '.')

def setKeyAllowed (b : Bool) : Scan Unit := modify fun s => { s with keyAllowed := b }

/-- Space, a comment, and the end of a line. -/
def restOfLine : Scan Unit := do
  skipSpaces
  if (← peek) == '#' then
    let _ ← takeRun (!isBreak ·)
  if isBreakOrEnd (← peek) then
    let _ ← lineBreak
  else reject

end Scan

end ApiContract.Yaml
