import ApiContract.Json.Reader
import ApiContract.Yaml.Scan

/-!
The texts of scalars: plain, in single or double quotes, and in blocks. Lines that are folded are
joined by a blank, and the line ends of the blank lines between them stay.
-/

namespace ApiContract.Yaml.Scan

/-! Quoted scalars. -/

/-- What a backslash and this character stand for. -/
def escaped? : Char → Option Char
  | '0' => some '\x00'
  | 'a' => some '\x07'
  | 'b' => some '\x08'
  | 't' => some '\t'
  | '\t' => some '\t'
  | 'n' => some '\n'
  | 'v' => some '\x0b'
  | 'f' => some '\x0c'
  | 'r' => some '\r'
  | 'e' => some '\x1b'
  | ' ' => some ' '
  | '"' => some '"'
  | '\\' => some '\\'
  | '/' => some '/'
  | 'N' => some '\x85'
  | '_' => some '\xa0'
  | 'L' => some '\u2028'
  | 'P' => some '\u2029'
  | _ => none

/-- How many hexadecimal digits follow this character of an escape. -/
def escapeWidth? : Char → Option Nat
  | 'x' => some 2
  | 'u' => some 4
  | 'U' => some 8
  | _ => none

/-- The line ends of blank lines inside quotes. A document marker may not stand there. -/
def quotedBreaks : Nat → Scan (List Char)
  | 0 => reject
  | fuel + 1 => do
    if ← atAnyMarker then reject
    else
      let _ ← takeRun fun c => c == ' ' || c == '\t'
      if isBreak (← peek) then
        let first ← lineBreak
        return first ++ (← quotedBreaks fuel)
      else return []

/-- The character of an escape, the backslash and the letter read already. -/
def codePoint (width : Nat) : Scan (List Char) := do
  let digits := (← get).rest.take width
  match Json.hexNumber? digits with
  | some n =>
    if digits.length != width then reject
    if 0x7FFFFFFF < n then fail .tooLarge
    if 0x10FFFF < n then fail .outOfRange
    advance width
    return Text.held n
  | none => reject

def quotedEscape : Scan (List Char) := do
  advance 1
  let c ← peek
  match escaped? c, escapeWidth? c with
  | some e, _ =>
    advance 1
    return [e]
  | none, some width =>
    advance 1
    codePoint width
  | none, none =>
    if isBreak c then
      let _ ← lineBreak
      quotedBreaks (← budget)
    else reject

/-- Whether a character inside quotes stands for itself. -/
def isQuotedBare (c : Char) : Bool :=
  !(c == '\'' || c == '"' || c == '\\' || c == ' ' || c == '\t' || isBreakOrEnd c)

/-- A run without blanks. -/
def quotedWord (double : Bool) : Nat → Scan (List Char)
  | 0 => reject
  | fuel + 1 => do
    let bare ← takeRun isQuotedBare
    let c ← peek
    if !double && c == '\'' && (← peekAt 1) == '\'' then
      advance 2
      return bare ++ '\'' :: (← quotedWord double fuel)
    else if (double && c == '\'') || (!double && (c == '"' || c == '\\')) then
      advance 1
      return bare ++ c :: (← quotedWord double fuel)
    else if double && c == '\\' then
      let e ← quotedEscape
      return bare ++ e ++ (← quotedWord double fuel)
    else return bare

/-- Blanks, or a fold if the line ends there. -/
def quotedGap : Scan (List Char) := do
  let blanks ← takeRun fun c => c == ' ' || c == '\t'
  let c ← peek
  if c == endMark then reject
  else if isBreak c then
    let first ← lineBreak
    let more ← quotedBreaks (← budget)
    if first != ['\n'] then return first ++ more
    else if more.isEmpty then return [' ']
    else return more
  else return blanks

def quotedRest (double : Bool) (mark : Char) : Nat → Scan (List Char)
  | 0 => reject
  | fuel + 1 => do
    if (← peek) == mark then return []
    else
      let gap ← quotedGap
      let word ← quotedWord double (← budget)
      return gap ++ word ++ (← quotedRest double mark fuel)

def quoted (double : Bool) : Scan String := do
  let mark ← peek
  advance 1
  let first ← quotedWord double (← budget)
  let more ← quotedRest double mark (← budget)
  advance 1
  return String.ofList (first ++ more)

/-! Plain scalars. -/

def isFlowIndicator (c : Char) : Bool :=
  c == ',' || c == '[' || c == ']' || c == '\x7b' || c == '\x7d'

/-- How many characters of `cs` belong to a plain scalar without blanks. -/
def plainLength (inFlow : Bool) : List Char → Nat
  | [] => 0
  | c :: cs =>
    let next := cs.headD endMark
    let colonEnds := isGapOrEnd next || (inFlow && isFlowIndicator next)
    if isGapOrEnd c || (c == ':' && colonEnds) || (inFlow && (isFlowIndicator c || c == '?')) then 0
    else plainLength inFlow cs + 1

/-- The line ends of blank lines after a plain line; `none` at a document marker. -/
def plainBreaks : Nat → Scan (Option (List Char))
  | 0 => reject
  | fuel + 1 => do
    let c ← peek
    if c == ' ' then
      advance 1
      plainBreaks fuel
    else if isBreak c then
      let first ← lineBreak
      if ← atAnyMarker then return none
      else return (← plainBreaks fuel).map (first ++ ·)
    else return some []

/-- What stands between two words of a plain scalar, nothing if it ends here. -/
def plainGap : Scan (List Char) := do
  let blanks ← takeRun (· == ' ')
  if isBreak (← peek) then
    let first ← lineBreak
    setKeyAllowed true
    if ← atAnyMarker then return []
    else match ← plainBreaks (← budget) with
      | none => return []
      | some more =>
        if first != ['\n'] then return first ++ more
        else if more.isEmpty then return [' ']
        else return more
  else return blanks

/-- Words of a plain scalar, with the gap before the next one. -/
def plainWords (inFlow : Bool) (indent : Int) (gap : List Char) : Nat → Scan (List Char)
  | 0 => reject
  | fuel + 1 => do
    if (← peek) == '#' then return []
    else
      let n := plainLength inFlow (← get).rest
      if n == 0 then return []
      else
        setKeyAllowed false
        let word := (← get).rest.take n
        advance n
        let next ← plainGap
        let outdented := !inFlow && ((← get).column : Int) < indent
        if next.isEmpty || (← peek) == '#' || outdented then return gap ++ word
        else return gap ++ word ++ (← plainWords inFlow indent next fuel)

def plain : Scan String := do
  let s ← get
  let cs ← plainWords (s.flowDepth != 0) (s.indent + 1) [] (← budget)
  return String.ofList cs

/-! Block scalars. -/

/-- What becomes of the line ends behind a block. -/
inductive Chomping where
  | strip
  | clip
  | keep
deriving DecidableEq

def chomping? (c : Char) : Option Chomping :=
  if c == '+' then some .keep else if c == '-' then some .strip else none

def takeChomping : Scan (Option Chomping) := do
  match chomping? (← peek) with
  | some m =>
    advance 1
    return some m
  | none => return none

/-- A digit that gives the indentation; zero is none. -/
def takeIncrement : Scan (Option Nat) := do
  let c ← peek
  if c.isDigit then
    if c == '0' then reject
    else
      advance 1
      return some (c.toNat - '0'.toNat)
  else return none

/-- The two indicators of a block come in either order. -/
def blockHeader : Scan (Chomping × Option Nat) := do
  match ← takeChomping with
  | some m =>
    let increment ← takeIncrement
    return (m, increment)
  | none =>
    match ← takeIncrement with
    | none => return (.clip, none)
    | some k =>
      let m ← takeChomping
      return (m.getD .clip, some k)

/-- The line ends before a block whose indentation is not given, and the widest indentation among
its first lines. -/
def blockIndentation (widest : Nat) : Nat → Scan (List Char × Nat)
  | 0 => reject
  | fuel + 1 => do
    let c ← peek
    if c == ' ' then
      advance 1
      blockIndentation (max widest (← get).column) fuel
    else if isBreak c then
      let first ← lineBreak
      let (more, widest) ← blockIndentation widest fuel
      return (first ++ more, widest)
    else return ([], widest)

def skipIndent (indent : Nat) : Nat → Scan Unit
  | 0 => return ()
  | fuel + 1 => do
    if (← get).column < indent && (← peek) == ' ' then
      advance 1
      skipIndent indent fuel

def blockBreaks (indent : Nat) : Nat → Scan (List Char)
  | 0 => reject
  | fuel + 1 => do
    skipIndent indent (← budget)
    if isBreak (← peek) then
      let first ← lineBreak
      return first ++ (← blockBreaks indent fuel)
    else return []

/-- The lines of a block, `breaks` being the line ends before the next one. The last line end and
the ones after it are returned apart. -/
def blockLines (folded : Bool) (indent : Nat) (breaks : List Char) :
    Nat → Scan (List Char × List Char × List Char)
  | 0 => reject
  | fuel + 1 => do
    let startsBlank := (← peek) == ' ' || (← peek) == '\t'
    let line ← takeRun (!isBreak ·)
    let ending ← lineBreak
    let after ← blockBreaks indent (← budget)
    let c ← peek
    if (← get).column == indent && c != endMark then
      let folds := folded && ending == ['\n'] && !startsBlank && !(c == ' ' || c == '\t')
      let joint := if !folds then ending else if after.isEmpty then [' '] else []
      let (more, lastEnding, lastBreaks) ← blockLines folded indent after fuel
      return (breaks ++ line ++ joint ++ more, lastEnding, lastBreaks)
    else return (breaks ++ line, ending, after)

def block (folded : Bool) : Scan String := do
  advance 1
  let (chomping, increment) ← blockHeader
  if !isSpaceOrEnd (← peek) then reject
  restOfLine
  let least := ((← get).indent + 1).toNat.max 1
  let (breaks, indent) ← match increment with
    | none => do
      let (breaks, widest) ← blockIndentation 0 (← budget)
      pure (breaks, max least widest)
    | some k => do
      let breaks ← blockBreaks (least + k - 1) (← budget)
      pure (breaks, least + k - 1)
  let (text, ending, breaks) ←
    if (← get).column == indent && (← peek) != endMark then
      blockLines folded indent breaks (← budget)
    else pure ([], [], breaks)
  let ending := if chomping = .strip then [] else ending
  let breaks := if chomping = .keep then breaks else []
  return String.ofList (text ++ ending ++ breaks)

end ApiContract.Yaml.Scan
