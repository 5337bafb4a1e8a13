import ApiContract.Yaml.Content

/-!
Reading a value from a YAML text. The collections that do not hold themselves get their values from
the innermost ones on, each once however often it is named. What is left holds itself, and is
unrolled: its values of depth zero are endless, and those of each further depth hold the values of
the depth before.
-/

namespace ApiContract.Yaml

namespace Content

def items : Content → List Item
  | .seq items => items
  | .map members => members.map (·.2)
  | .set _ => []
  | .pairs items => items.flatMap fun p => [p.1, p.2]

/-- The value of a content, given the values of what stands in it. -/
def valueWith (knot : Nat) (inner : Item → Value) : Content → Value
  | .seq items => .seq (items.map inner) knot
  | .map members => .map (members.map fun m => (m.1.scalar, inner m.2)) knot
  | .set members => .set (members.map (·.scalar))
  | .pairs items => .seq (items.map fun p => .pair (inner p.1) (inner p.2)) knot

end Content

namespace Contents

abbrev Values := Array (Option Value)

def known? (values : Values) : Item → Option Value
  | .scalar key => some (.scalar key.scalar)
  | .node id => values.getD id none

/-- The value of what stands at a place, given the values of the collections. -/
def valueOf (values : Values) (item : Item) : Value := (known? values item).getD .endless

/-- Note the value of a collection if all values in it are known. -/
def note (c : Contents) (values : Values) (id : Nat) : Values :=
  match values.getD id none, c.ofNode.getD id none with
  | none, some content =>
    if content.items.all fun i => (known? values i).isSome then
      values.setIfInBounds id (some (content.valueWith 0 (valueOf values)))
    else values
  | _, _ => values

def count (values : Values) : Nat := values.foldl (fun n v => if v.isSome then n + 1 else n) 0

/-- Note values, inner collections mostly before outer ones, until no more are found. -/
def noteAll (c : Contents) (values : Values) : Nat → Values
  | 0 => values
  | rounds + 1 =>
    let more := (List.range values.size).reverse.foldl c.note values
    if count more == count values then more else c.noteAll more rounds

/-- The collections without a value, which hold themselves or lead to one that does. -/
def knots (c : Contents) (values : Values) : List (Nat × Content) :=
  (List.range values.size).filterMap fun id =>
    match values.getD id none, c.ofNode.getD id none with
    | none, some content => some (id, content)
    | _, _ => none

/-- How deep a value is unrolled. Nothing that reads values goes deeper than the first bound; the
second one keeps the unrolled parts of a large document small. -/
def depthFor (knots : List (Nat × Content)) : Nat :=
  let size := knots.foldr (fun k n => k.2.items.length + 1 + n) 0
  min 1000 (max 30 (1000000 / (size + 1)))

/-- The values one level deeper. -/
def deepen (values : Values) (knots : List (Nat × Content)) (deep : Values) : Values :=
  knots.foldl (fun next k =>
    next.setIfInBounds k.1 (some (k.2.valueWith (k.1 + 1) (valueOf deep)))) values

def unroll (values : Values) (knots : List (Nat × Content)) : Nat → Values
  | 0 => values
  | depth + 1 => deepen values knots (unroll values knots depth)

def value (c : Contents) : Value :=
  let values := c.noteAll (c.ofNode.map fun _ => none) (c.ofNode.size + 1)
  let knots := c.knots values
  valueOf (unroll values knots (depthFor knots)) c.root

end Contents

/-- The value of a text; an empty stream reads as null. -/
def read (text : String) : Except Issue Value := do
  match ← Graph.ofTokens (Scanned.ofText text) with
  | none => return .null
  | some graph => return (← Contents.ofGraph graph).value

end ApiContract.Yaml
