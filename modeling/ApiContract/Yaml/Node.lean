import ApiContract.Yaml.Lexer
import ApiContract.Yaml.Tag

/-!
The nodes of a YAML document. Every node has a tag and a number, and collections hold the numbers of
their nodes. An alias is the number of the node that it names, and an anchor names a collection from
its beginning on, so a collection may hold itself. A stream may hold one document at most, and each
anchor may be set once.
-/

namespace ApiContract.Yaml

inductive Node where
  | scalar (tag : Tag) (text : String)
  | seq (tag : Tag) (items : List Nat)
  | map (tag : Tag) (entries : List (Nat × Nat))
deriving Repr

def Node.tag : Node → Tag
  | .scalar tag _ => tag
  | .seq tag _ => tag
  | .map tag _ => tag

def Node.withTag (tag : Tag) : Node → Node
  | .scalar _ text => .scalar tag text
  | .seq _ items => .seq tag items
  | .map _ entries => .map tag entries

/-- The nodes of a document by number, and the number of the outermost one. -/
structure Graph where
  nodes : Array Node
  root : Nat

/-- The tokens left, what stopped their reading, and the nodes so far; `depth` collections are
open. -/
structure BuildState where
  tokens : List Token
  fault : Option Issue
  nodes : Array Node
  anchors : List (String × Nat)
  handles : List (String × String)
  depth : Nat

abbrev Build := StateT BuildState (Except Issue)

namespace Build

def reject {α : Type} : Build α := fun _ => malformed

/-- The next token. Behind the last one a fault of their reading shows. -/
def peek? : Build (Option Token) := do
  let s ← get
  match s.tokens, s.fault with
  | [], some fault => throw fault
  | tokens, _ => return tokens.head?

def skip : Build Unit := modify fun s => { s with tokens := s.tokens.drop 1 }

/-- Take the next token if it is `t`. -/
def takeIf (t : Token) : Build Bool := do
  if (← peek?) == some t then
    skip
    return true
  else return false

def isNext (ts : List Token) : Build Bool := do
  match ← peek? with
  | some t => return ts.contains t
  | none => return false

/-- Give a node a number. -/
def add (n : Node) : Build Nat := do
  let s ← get
  set { s with nodes := s.nodes.push n }
  return s.nodes.size

def put (id : Nat) (n : Node) : Build Unit :=
  modify fun s => { s with nodes := s.nodes.setIfInBounds id n }

def empty : Node := .scalar .null ""

/-- An anchor and a tag before a node, in either order. -/
structure Properties where
  anchor : Option String
  tag : Option (Option String × String)

def takeAnchor : Build (Option String) := do
  match ← peek? with
  | some (.anchor name) =>
    skip
    return some name
  | _ => return none

def takeTag : Build (Option (Option String × String)) := do
  match ← peek? with
  | some (.tag handle suffix) =>
    skip
    return some (handle, suffix)
  | _ => return none

def properties : Build Properties := do
  match ← takeAnchor with
  | some a => return ⟨some a, ← takeTag⟩
  | none =>
    let t ← takeTag
    if t.isSome then return ⟨← takeAnchor, t⟩ else return ⟨none, none⟩

/-- The full tag that a node is given, if it is given one; a lone exclamation mark gives none. -/
def fullTag (t : Option (Option String × String)) : Build (Option String) := do
  match t with
  | none => return none
  | some (none, suffix) => return if suffix == "!" then none else some suffix
  | some (some handle, suffix) =>
    match (← get).handles.lookup handle with
    | none => reject
    | some start =>
      let uri := start ++ suffix
      return if uri == "!" then none else some uri

def tagOr (given : Option String) (byText : Tag) : Tag :=
  match given with
  | some uri => .ofUri uri
  | none => byText

/-- Remember a node under its anchor. -/
def setAnchor (name : Option String) (id : Nat) : Build Unit := do
  match name with
  | none => return ()
  | some name =>
    let s ← get
    if (s.anchors.lookup name).isSome then reject
    set { s with anchors := (name, id) :: s.anchors }

/-- A node with its anchor. -/
def named (p : Properties) (n : Node) : Build Nat := do
  let id ← add n
  setAnchor p.anchor id
  return id

/-- How many collections may stand inside one another. -/
def maxDepth : Nat := 485

/-- A collection, its anchor set before what is in it is read. -/
def collection {α : Type} (p : Properties) (make : α → Node) (inner : Build α) : Build Nat := do
  skip
  let id ← named p empty
  let s ← get
  if maxDepth ≤ s.depth then throw (.misfit .tooDeep)
  set { s with depth := s.depth + 1 }
  let parts ← inner
  put id (make parts)
  modify fun s => { s with depth := s.depth - 1 }
  return id

mutual

/-- A node. Only `block` ones may be block collections, and only where `undented` holds may the
dashes of a sequence stand at the indentation of the mapping around it. -/
def node (block undented : Bool) : Nat → Build Nat
  | 0 => reject
  | fuel + 1 => do
    match ← peek? with
    | some (.alias name) =>
      skip
      match (← get).anchors.lookup name with
      | some id => return id
      | none => reject
    | _ =>
      let p ← properties
      let given ← fullTag p.tag
      content block undented p given fuel

def content (block undented : Bool) (p : Properties) (given : Option String) : Nat → Build Nat
  | 0 => reject
  | fuel + 1 => do
    match ← peek? with
    | some (.scalar text isPlain) =>
      skip
      let byText := if isPlain || p.tag.isSome then Plain.tagOf text else .str
      named p (.scalar (tagOr given byText) text)
    | some .flowSeqStart => collection p (.seq (tagOr given .seq)) (flowSeq true fuel)
    | some .flowMapStart => collection p (.map (tagOr given .map)) (flowMap true fuel)
    | some .blockSeqStart =>
      if block then collection p (.seq (tagOr given .seq)) (blockSeq fuel)
      else bare p given
    | some .blockMapStart =>
      if block then collection p (.map (tagOr given .map)) (blockMap fuel)
      else bare p given
    | some .blockEntry =>
      if undented then collection p (.seq (tagOr given .seq)) (undentedItem fuel)
      else bare p given
    | _ => bare p given

/-- A node of which there is nothing but its properties. -/
def bare (p : Properties) (given : Option String) : Build Nat :=
  if p.anchor.isSome || p.tag.isSome then named p (.scalar (tagOr given .null) "") else reject

/-- An empty node if one of `ts` comes next, and else a block node. -/
def blockNodeUnless (undented : Bool) (ts : List Token) : Nat → Build Nat
  | 0 => reject
  | fuel + 1 => do
    if ← isNext ts then add empty else node true undented fuel

def flowNodeUnless (ts : List Token) : Nat → Build Nat
  | 0 => reject
  | fuel + 1 => do
    if ← isNext ts then add empty else node false false fuel

def blockSeq : Nat → Build (List Nat)
  | 0 => reject
  | fuel + 1 => do
    if ← takeIf .blockEntry then
      let n ← blockNodeUnless false [.blockEntry, .blockEnd] fuel
      return n :: (← blockSeq fuel)
    else if ← takeIf .blockEnd then return []
    else reject

/-- The items of an undented sequence, the dash of the first one taken already. -/
def undentedItem : Nat → Build (List Nat)
  | 0 => reject
  | fuel + 1 => do
    let n ← blockNodeUnless false [.blockEntry, .key, .value, .blockEnd] fuel
    if ← takeIf .blockEntry then return n :: (← undentedItem fuel) else return [n]

def blockMap : Nat → Build (List (Nat × Nat))
  | 0 => reject
  | fuel + 1 => do
    if ← takeIf .key then
      let k ← blockNodeUnless true [.key, .value, .blockEnd] fuel
      let v ← blockMapValue fuel
      return (k, v) :: (← blockMap fuel)
    else if ← takeIf .blockEnd then return []
    else reject

def blockMapValue : Nat → Build Nat
  | 0 => reject
  | fuel + 1 => do
    if ← takeIf .value then blockNodeUnless true [.key, .value, .blockEnd] fuel
    else add empty

/-- The items of a flow sequence. One that has a colon is a mapping of one entry. -/
def flowSeq (first : Bool) : Nat → Build (List Nat)
  | 0 => reject
  | fuel + 1 => do
    if ← takeIf .flowSeqEnd then return []
    else
      if !first then
        if !(← takeIf .flowEntry) then reject
      if ← isNext [.key] then
        let n ← collection ⟨none, none⟩ (fun e => .map .map [e]) (flowPair fuel)
        return n :: (← flowSeq false fuel)
      else if ← takeIf .flowSeqEnd then return []
      else
        let n ← node false false fuel
        return n :: (← flowSeq false fuel)

/-- The only entry of a mapping among the items of a flow sequence. -/
def flowPair : Nat → Build (Nat × Nat)
  | 0 => reject
  | fuel + 1 => do
    let k ← flowNodeUnless [.value, .flowEntry, .flowSeqEnd] fuel
    let v ← flowValue [.flowEntry, .flowSeqEnd] fuel
    return (k, v)

def flowMap (first : Bool) : Nat → Build (List (Nat × Nat))
  | 0 => reject
  | fuel + 1 => do
    if ← takeIf .flowMapEnd then return []
    else
      if !first then
        if !(← takeIf .flowEntry) then reject
      if ← takeIf .key then
        let k ← flowNodeUnless [.value, .flowEntry, .flowMapEnd] fuel
        let v ← flowValue [.flowEntry, .flowMapEnd] fuel
        return (k, v) :: (← flowMap false fuel)
      else if ← takeIf .flowMapEnd then return []
      else
        let k ← node false false fuel
        let v ← add empty
        return (k, v) :: (← flowMap false fuel)

def flowValue (ends : List Token) : Nat → Build Nat
  | 0 => reject
  | fuel + 1 => do
    if ← takeIf .value then flowNodeUnless ends fuel else add empty

end

def standardHandles : List (String × String) := [("!", "!"), ("!!", Tag.space)]

/-- The directives before a document, each handle set once and the version told once. -/
def directives (versionSeen : Bool) (handles : List (String × String)) :
    Nat → Build (List (String × String))
  | 0 => reject
  | fuel + 1 => do
    match ← peek? with
    | some (.directive (.version major _)) =>
      skip
      if versionSeen || major != 1 then reject else directives true handles fuel
    | some (.directive (.tag handle uri)) =>
      skip
      if (handles.lookup handle).isSome then reject
      else directives versionSeen ((handle, uri) :: handles) fuel
    | some (.directive .reserved) =>
      skip
      directives versionSeen handles fuel
    | _ => return handles ++ standardHandles

def isDocumentBound : Option Token → Bool
  | none => true
  | some (.directive _) => true
  | some .documentStart => true
  | some .documentEnd => true
  | _ => false

/-- More calls than tokens can make: each takes at most four. -/
def budget : Build Nat := do return 4 * (← get).tokens.length + 16

def root : Build Nat := do node true false (← budget)

/-- The node after a document start; an empty document has an empty one. -/
def explicitRoot : Build Nat := do
  if isDocumentBound (← peek?) then add empty else root

def skipDocumentEnds : Nat → Build Unit
  | 0 => reject
  | fuel + 1 => do
    if ← takeIf .documentEnd then skipDocumentEnds fuel

/-- Nothing may follow the document but end markers. Directives that follow are still read, as the
text behind them can have a fault of its own. -/
def finish : Build Unit := do
  skipDocumentEnds (← budget)
  if (← peek?).isSome then
    let _ ← directives false [] (← budget)
    reject

/-- The outermost node of a stream, if there is a document. -/
def document : Build (Option Nat) := do
  match ← peek? with
  | none => return none
  | some (.directive _) =>
    let handles ← directives false [] (← budget)
    modify fun s => { s with handles := handles }
    if !(← takeIf .documentStart) then reject
    let id ← explicitRoot
    finish
    return some id
  | some .documentStart =>
    skip
    let id ← explicitRoot
    finish
    return some id
  | some _ =>
    let id ← root
    finish
    return some id

end Build

/-- The document of a stream, if there is one. -/
def Graph.ofTokens (scanned : Scanned) : Except Issue (Option Graph) := do
  let start : BuildState := ⟨scanned.tokens, scanned.fault, #[], [], Build.standardHandles, 0⟩
  let (root, s) ← Build.document.run start
  return root.map fun id => ⟨s.nodes, id⟩

end ApiContract.Yaml
