import ApiContract.Yaml.Node
import ApiContract.Yaml.ScalarValue

/-!
What each node of a document holds. Scalars are read where they are met. Collections wait: the one
met first is filled first, so of two faults the one nearer to the outermost node is found, whatever
the order of the text. Merge keys put the entries of other mappings before the entries of their own
mapping, so that these win; of several merged mappings the first wins.
-/

namespace ApiContract.Yaml

/-- A key. Numbers that are none are different keys unless they have the same `origin`. -/
structure Key where
  scalar : Scalar
  origin : Nat
deriving Repr

def Key.same (a b : Key) : Bool :=
  a.scalar.sameKey b.scalar ||
    (a.scalar == .float .nan && b.scalar == .float .nan && a.origin == b.origin)

/-- What stands at a place: a scalar, or the collection with a number. -/
inductive Item where
  | scalar (key : Key)
  | node (id : Nat)
deriving Repr

inductive Content where
  | seq (items : List Item)
  | map (members : List (Key × Item))
  | set (members : List Key)
  | pairs (items : List (Item × Item))
deriving Repr

/-- The nodes, what was made of them, what the collections hold, and the collections that wait to be
filled, the last one first. Between two merge keys each list of nodes is gone through once at most,
so `bound` steps are enough to take them all out. -/
structure FillState where
  nodes : Array Node
  made : Array (Option Item)
  contents : Array (Option Content)
  waiting : List Nat
  bound : Nat

abbrev Fill := StateT FillState (Except Issue)

namespace Fill

def reject {α : Type} : Fill α := fun _ => malformed

def nodeOf (id : Nat) : Fill Node := do return (← get).nodes.getD id Build.empty

def setNode (id : Nat) (n : Node) : Fill Unit :=
  modify fun s => { s with nodes := s.nodes.setIfInBounds id n }

/-! Scalars. -/

/-- The text of a scalar. A mapping with a tag for scalars has the text of the value under its first
key that is an equals sign. -/
def textOf (nodes : Array Node) (id : Nat) : Nat → Except Issue String
  | 0 => .error (.misfit .tooDeep)
  | fuel + 1 =>
    match nodes.getD id Build.empty with
    | .scalar _ text => .ok text
    | .seq .. => malformed
    | .map _ entries =>
      match entries.find? fun e => (nodes.getD e.1 Build.empty).tag == .value with
      | some (_, value) => textOf nodes value fuel
      | none => malformed

def isScalar : Node → Bool
  | .scalar .. => true
  | _ => false

def scalarOf (nodes : Array Node) (id : Nat) (tag : Tag) : Except Issue Key := do
  let text ← textOf nodes id (nodes.size + 1)
  if tag == .timestamp && !isScalar (nodes.getD id Build.empty) then
    throw (.misfit .wrongArgument)
  let scalar ← readScalar tag text
  return ⟨scalar, if isNanName text then 0 else id + 1⟩

def scalarTags : List Tag := [.null, .bool, .int, .float, .str, .binary, .timestamp]

def collectionTags : List Tag := [.seq, .map, .set, .omap, .pairs]

/-- Make what a node stands for, once. -/
def make (id : Nat) : Fill Item := do
  let s ← get
  match s.made.getD id none with
  | some item => return item
  | none =>
    let tag := (← nodeOf id).tag
    if collectionTags.contains tag then
      set { s with
        made := s.made.setIfInBounds id (some (.node id)), waiting := id :: s.waiting }
      return .node id
    else if scalarTags.contains tag then
      let key ← scalarOf s.nodes id tag
      set { s with made := s.made.setIfInBounds id (some (.scalar key)) }
      return .scalar key
    else reject

/-! Merge keys. -/

abbrev Entry := Nat × Nat

def entriesOf (id : Nat) : Fill (List Entry) := do
  match ← nodeOf id with
  | .map _ entries => return entries
  | _ => return []

def setEntries (id : Nat) (entries : List Entry) : Fill Unit := do
  match ← nodeOf id with
  | .map tag _ => setNode id (.map tag entries)
  | _ => return ()

def hasTag (tag : Tag) (id : Nat) : Fill Bool := do return (← nodeOf id).tag == tag

/-- The value of the first merge key, and the entries without it. -/
def firstMerge? : List Entry → Fill (Option (Nat × List Entry))
  | [] => return none
  | e :: rest => do
    if ← hasTag .merge e.1 then return some (e.2, rest)
    else return (← firstMerge? rest).map fun (value, others) => (value, e :: others)

/-- A key that is an equals sign is a text. -/
def settleKey (e : Entry) : Fill Unit := do
  if ← hasTag .value e.1 then setNode e.1 ((← nodeOf e.1).withTag .str)

mutual

/-- Replace the merge keys of a mapping by what they bring in. -/
def flatten (id : Nat) : Nat → Fill Unit
  | 0 => reject
  | fuel + 1 => do
    let merged ← takeMerges id fuel
    setEntries id (merged ++ (← entriesOf id))
    (← entriesOf id).forM settleKey

/-- Take out the merge keys of a mapping one by one, and collect what they bring in. -/
def takeMerges (id : Nat) : Nat → Fill (List Entry)
  | 0 => reject
  | fuel + 1 => do
    match ← firstMerge? (← entriesOf id) with
    | none => return []
    | some (value, rest) =>
      setEntries id rest
      let here ← mergedEntries value fuel
      return here ++ (← takeMerges id fuel)

/-- The entries of a mapping, or of the mappings of a sequence. -/
def mergedEntries (id : Nat) : Nat → Fill (List Entry)
  | 0 => reject
  | fuel + 1 => do
    match ← nodeOf id with
    | .scalar .. => reject
    | .map .. =>
      flatten id fuel
      entriesOf id
    | .seq _ items => listedEntries items fuel

/-- The entries of mappings, those of the last one first. -/
def listedEntries (items : List Nat) : Nat → Fill (List Entry)
  | 0 => reject
  | fuel + 1 => do
    match items with
    | [] => return []
    | id :: rest =>
      match ← nodeOf id with
      | .map .. =>
        flatten id fuel
        let here ← entriesOf id
        return (← listedEntries rest fuel) ++ here
      | _ => reject

end

/-- The number of places in all collections, and one for each node. -/
def size (nodes : Array Node) : Nat :=
  nodes.foldl (fun n node =>
    match node with
    | .scalar .. => n + 1
    | .seq _ items => n + items.length + 1
    | .map _ entries => n + entries.length + 1) 0

/-! Collections. -/

def putMember (key : Key) (item : Item) : List (Key × Item) → List (Key × Item)
  | [] => [(key, item)]
  | m :: ms => if m.1.same key then (m.1, item) :: ms else m :: putMember key item ms

/-- The members of a mapping. Only a scalar can be a key. -/
def members (made : List (Key × Item)) : List Entry → Fill (List (Key × Item))
  | [] => return made
  | (k, v) :: rest => do
    match ← make k with
    | .node _ => reject
    | .scalar key =>
      let item ← make v
      members (putMember key item made) rest

def mappingMembers (id : Nat) : Fill (List (Key × Item)) := do
  flatten id (← get).bound
  members [] (← entriesOf id)

/-- A mapping with a single entry, as a pair. Its key may be anything, and is not merged. -/
def pairOf (id : Nat) : Fill (Item × Item) := do
  match ← nodeOf id with
  | .map _ [(k, v)] =>
    let first ← make k
    let second ← make v
    return (first, second)
  | _ => reject

def contentOf (id : Nat) : Fill Content := do
  match ← nodeOf id with
  | .seq .seq items => return .seq (← items.mapM make)
  | .map .map _ => return .map (← mappingMembers id)
  | .map .set _ => return .set ((← mappingMembers id).map (·.1))
  | .seq .omap items => return .pairs (← items.mapM pairOf)
  | .seq .pairs items => return .pairs (← items.mapM pairOf)
  | _ => reject

def fillOne (id : Nat) : Fill Unit := do
  let content ← contentOf id
  modify fun s => { s with contents := s.contents.setIfInBounds id (some content) }

/-- Fill the collections that wait, in rounds. Each collection waits once. -/
def fillWaiting : Nat → Fill Unit
  | 0 => return ()
  | rounds + 1 => do
    let now := (← get).waiting.reverse
    if now.isEmpty then return ()
    modify fun s => { s with waiting := [] }
    now.forM fillOne
    fillWaiting rounds

end Fill

/-- What the nodes of a document hold, and what stands at its outermost place. -/
structure Contents where
  ofNode : Array (Option Content)
  root : Item

def Contents.ofGraph (g : Graph) : Except Issue Contents := do
  let side := Fill.size g.nodes + 2
  let blank : FillState :=
    ⟨g.nodes, g.nodes.map fun _ => none, g.nodes.map fun _ => none, [], side * side⟩
  let fill : Fill Item := do
    let root ← Fill.make g.root
    Fill.fillWaiting (g.nodes.size + 1)
    return root
  let (root, s) ← fill.run blank
  return ⟨s.contents, root⟩

end ApiContract.Yaml
