import ApiContract.Yaml.ScalarText

/-!
Reading the tokens of a stream. Indentation opens and closes block levels; a colon may turn what was
read since the last candidate into a key, if that lies on the same line and is not too long.
-/

namespace ApiContract.Yaml

namespace Scan

/-! Block levels and key candidates. -/

/-- Close the levels that are deeper than `column`. Inside brackets there are none to close. -/
def unwind (column : Int) : Nat → Scan Unit
  | 0 => return ()
  | fuel + 1 => do
    let s ← get
    if s.flowDepth == 0 && column < s.indent then
      set { s.push .blockEnd with
        indent := s.outerIndents.headD (-1)
        outerIndents := s.outerIndents.drop 1 }
      unwind column fuel

def unwindTo (column : Int) : Scan Unit := do
  unwind column ((← get).outerIndents.length + 1)

/-- Open a level at `column` if it is deeper than the present one. -/
def deepen (column : Int) : Scan Bool := do
  let s ← get
  if s.indent < column then
    set { s with indent := column, outerIndents := s.indent :: s.outerIndents }
    return true
  else return false

/-- The longest text that can be a key without an indicator. -/
def maxKeyLength : Nat := 1024

def isStale (s : ScanState) (k : KeyCandidate) : Bool :=
  k.line != s.line || maxKeyLength < s.index - k.index

/-- Forget candidates that can no longer become keys. -/
def dropStale : Scan Unit := do
  let s ← get
  if s.candidates.any fun k => isStale s k.2 && k.2.required then reject
  else set { s with candidates := s.candidates.filter fun k => !isStale s k.2 }

/-- Forget the candidate of the present depth. -/
def dropCandidate : Scan Unit := do
  let s ← get
  match s.candidates.lookup s.flowDepth with
  | none => return ()
  | some k =>
    if k.required then reject
    else set { s with candidates := s.candidates.filter (·.1 != s.flowDepth) }

/-- What comes next may turn out to be a key. -/
def saveCandidate : Scan Unit := do
  if (← get).keyAllowed then
    dropCandidate
    modify fun s =>
      let required := s.flowDepth == 0 && s.indent == (s.column : Int)
      let k : KeyCandidate := ⟨s.count, required, s.index, s.line, s.column⟩
      { s with candidates := (s.flowDepth, k) :: s.candidates }

/-! Single tokens. -/

/-- Skip to the next token. Outside brackets a new line may begin a key. -/
def toNextToken : Nat → Scan Unit
  | 0 => reject
  | fuel + 1 => do
    skipSpaces
    if (← peek) == '#' then
      let _ ← takeRun (!isBreak ·)
    if isBreak (← peek) then
      let _ ← lineBreak
      if (← get).flowDepth == 0 then setKeyAllowed true
      toNextToken fuel

def number : Scan Nat := do
  let digits ← takeRun Char.isDigit
  if digits.isEmpty then reject
  if Text.maxDigits < digits.length then fail .outOfRange
  return Binary64.digitsValue digits

def isUriChar (c : Char) : Bool :=
  c.isAlphanum || "-;/?:@&=+$,_.!~*'()[]".toList.contains c

/-- Octets written with percent signs, as the text they encode. -/
def uriOctets : Nat → Scan (List UInt8)
  | 0 => reject
  | fuel + 1 => do
    if (← peek) == '%' then
      advance 1
      let digits := (← get).rest.take 2
      match Json.hexNumber? digits with
      | some n =>
        if digits.length == 2 then
          advance 2
          return n.toUInt8 :: (← uriOctets fuel)
        else reject
      | none => reject
    else return []

def uriChars : Nat → Scan (List Char)
  | 0 => reject
  | fuel + 1 => do
    if (← peek) == '%' then
      let octets ← uriOctets (← budget)
      match String.fromUTF8? ⟨octets.toArray⟩ with
      | some s => return s.toList ++ (← uriChars fuel)
      | none => reject
    else
      let run ← takeRun isUriChar
      if run.isEmpty then return []
      else return run ++ (← uriChars fuel)

def uri : Scan String := do
  let c ← peek
  let cs ← uriChars (← budget)
  if cs.isEmpty && c != '%' then reject else return String.ofList cs

/-- A handle: one exclamation mark, or two with a name between them. -/
def tagHandle : Scan String := do
  if (← peek) != '!' then reject
  else
    advance 1
    if (← peek) == ' ' then return "!"
    else
      let name ← takeRun isNameChar
      if (← peek) == '!' then
        advance 1
        return "!" ++ String.ofList name ++ "!"
      else reject

def directiveBody (name : String) : Scan Directive := do
  if name == "YAML" then
    skipSpaces
    let major ← number
    if (← peek) != '.' then reject
    advance 1
    let minor ← number
    if isSpaceOrEnd (← peek) then return .version major minor else reject
  else if name == "TAG" then
    skipSpaces
    let handle ← tagHandle
    if (← peek) != ' ' then reject
    skipSpaces
    let u ← uri
    if isSpaceOrEnd (← peek) then return .tag handle u else reject
  else
    let _ ← takeRun (!isBreak ·)
    return .reserved

def directive : Scan Token := do
  advance 1
  let name ← takeRun isNameChar
  if name.isEmpty || !isSpaceOrEnd (← peek) then reject
  let d ← directiveBody (String.ofList name)
  restOfLine
  return .directive d

def endsName (c : Char) : Bool := isGapOrEnd c || "?:,]\x7d%@`".toList.contains c

/-- The name of an anchor or of an alias. -/
def anchorName : Scan String := do
  advance 1
  let name ← takeRun isNameChar
  if name.isEmpty || !endsName (← peek) then reject
  return String.ofList name

/-- Whether an exclamation mark comes before the next blank, from the second character on. -/
def hasHandle (cs : List Char) : Bool :=
  ((cs.drop 1).takeWhile (!isSpaceOrEnd ·)).contains '!'

def tagBody : Scan Token := do
  let next ← peekAt 1
  if next == '<' then
    advance 2
    let u ← uri
    if (← peek) != '>' then reject
    advance 1
    return .tag none u
  else if isGapOrEnd next then
    advance 1
    return .tag none "!"
  else if hasHandle (← get).rest then
    let handle ← tagHandle
    let u ← uri
    return .tag (some handle) u
  else
    advance 1
    let u ← uri
    return .tag (some "!") u

def tag : Scan Token := do
  let t ← tagBody
  if isSpaceOrEnd (← peek) then return t else reject

/-! What each indicator does. -/

/-- Leave all block levels before a directive or a document marker. -/
def leaveBlocks : Scan Unit := do
  unwindTo (-1)
  dropCandidate
  setKeyAllowed false

def flowOpen (t : Token) : Scan Unit := do
  saveCandidate
  modify fun s => { s with flowDepth := s.flowDepth + 1, keyAllowed := true }
  advance 1
  emit t

def flowClose (t : Token) : Scan Unit := do
  dropCandidate
  modify fun s => { s with flowDepth := s.flowDepth - 1, keyAllowed := false }
  advance 1
  emit t

def flowComma : Scan Unit := do
  setKeyAllowed true
  dropCandidate
  advance 1
  emit .flowEntry

/-- Open a block level at an indicator, where one may stand. -/
def openBlock (start : Token) : Scan Unit := do
  let s ← get
  if s.flowDepth == 0 then
    if !s.keyAllowed then reject
    if ← deepen s.column then emit start

def blockDash : Scan Unit := do
  openBlock .blockSeqStart
  setKeyAllowed true
  dropCandidate
  advance 1
  emit .blockEntry

def questionMark : Scan Unit := do
  openBlock .blockMapStart
  setKeyAllowed ((← get).flowDepth == 0)
  dropCandidate
  advance 1
  emit .key

/-- A colon ends the candidate of its depth, or else an empty key. -/
def colon : Scan Unit := do
  let s ← get
  match s.candidates.lookup s.flowDepth with
  | some k =>
    set { s with candidates := s.candidates.filter (·.1 != s.flowDepth) }
    let opens ← if s.flowDepth == 0 then deepen k.column else pure false
    modify fun s => { s with marks := ⟨k.position, opens⟩ :: s.marks, keyAllowed := false }
  | none =>
    openBlock .blockMapStart
    setKeyAllowed (s.flowDepth == 0)
    dropCandidate
  advance 1
  emit .value

/-- A token that may begin a key and lets none begin right behind it. -/
def keyPart (t : Scan Token) : Scan Unit := do
  saveCandidate
  setKeyAllowed false
  emit (← t)

def blockText (folded : Bool) : Scan Unit := do
  setKeyAllowed true
  dropCandidate
  emit (.scalar (← block folded) false)

/-- Whether a plain scalar may begin with `c` before `next`. -/
def startsPlain (inFlow : Bool) (c next : Char) : Bool :=
  let indicator := isGapOrEnd c || "-?:,[]\x7b\x7d#&*!|>'\"%@`".toList.contains c
  !indicator || (!isGapOrEnd next && (c == '-' || (!inFlow && (c == '?' || c == ':'))))

/-- Read the token at the first character of one. -/
def dispatch (c : Char) : Scan Unit := do
  let s ← get
  let next ← peekAt 1
  let inFlow := s.flowDepth != 0
  let atStart := s.column == 0
  let apart := isGapOrEnd next
  if c == '%' && atStart then
    leaveBlocks
    emit (← directive)
  else if c == '-' && atStart && (← atMarker '-') then
    leaveBlocks
    advance 3
    emit .documentStart
  else if c == '.' && atStart && (← atMarker '.') then
    leaveBlocks
    advance 3
    emit .documentEnd
  else if c == '[' then flowOpen .flowSeqStart
  else if c == '\x7b' then flowOpen .flowMapStart
  else if c == ']' then flowClose .flowSeqEnd
  else if c == '\x7d' then flowClose .flowMapEnd
  else if c == ',' then flowComma
  else if c == '-' && apart then blockDash
  else if c == '?' && (inFlow || apart) then questionMark
  else if c == ':' && (inFlow || apart) then colon
  else if c == '*' then keyPart (do return .alias (← anchorName))
  else if c == '&' then keyPart (do return .anchor (← anchorName))
  else if c == '!' then keyPart tag
  else if c == '|' && !inFlow then blockText false
  else if c == '>' && !inFlow then blockText true
  else if c == '\'' then keyPart (do return .scalar (← quoted false) false)
  else if c == '"' then keyPart (do return .scalar (← quoted true) false)
  else if startsPlain inFlow c next then
    saveCandidate
    setKeyAllowed false
    emit (.scalar (← plain) true)
  else reject

/-- Read the next token, and tell whether there was one. -/
def next : Scan Bool := do
  toNextToken (← budget)
  dropStale
  unwindTo (← get).column
  let c ← peek
  if c == endMark then
    leaveBlocks
    return false
  else
    dispatch c
    return true

end Scan

/-- The tokens of a key mark. -/
def KeyMark.tokens (m : KeyMark) : List Token :=
  if m.opensMap then [.blockMapStart, .key] else [.key]

/-- Put the tokens of keys in front of the tokens they belong to. The marks are in order. -/
def withMarks (position : Nat) (marks : List KeyMark) : List Token → List Token
  | [] => []
  | t :: ts =>
    let here := marks.takeWhile (·.position == position)
    here.flatMap KeyMark.tokens ++ t :: withMarks (position + 1) (marks.drop here.length) ts

/-- The first `count` tokens, keys put in. -/
def ScanState.firstTokens (s : ScanState) (count : Nat) : List Token :=
  withMarks 0 (s.marks.mergeSort fun a b => a.position ≤ b.position) (s.tokens.reverse.take count)

/-- How many tokens are certain. Before one that may still turn out to begin a key, tokens may have
to be put in. -/
def ScanState.certain (s : ScanState) : Nat :=
  let undecided := s.candidates.filter fun k => !Scan.isStale s k.2
  (undecided.map fun k => k.2.position).foldl min s.count

/-- The tokens of a text, up to a fault if there is one. -/
structure Scanned where
  tokens : List Token
  fault : Option Issue

/-- Read tokens to the end. Every round but the last takes a character. -/
def Scanned.ofState : Nat → ScanState → Scanned
  | 0, s => ⟨s.firstTokens s.count, some (.unreadable .yaml)⟩
  | fuel + 1, s =>
    match Scan.next.run s with
    | .ok (true, s) => Scanned.ofState fuel s
    | .ok (false, s) => ⟨s.firstTokens s.count, none⟩
    | .error fault => ⟨s.firstTokens s.certain, some fault⟩

def dropByteOrderMark : List Char → List Char
  | '\uFEFF' :: cs => cs
  | cs => cs

def Scanned.ofText (text : String) : Scanned :=
  let cs := dropByteOrderMark text.toList
  if cs.all isAllowed then Scanned.ofState (cs.length + 2) (.ofText cs)
  else ⟨[], some (.unreadable .yaml)⟩

end ApiContract.Yaml
