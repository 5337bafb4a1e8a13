import ApiContract.Issue

/-!
The top level sections of a description. A section that is left out, or is there and counts as
false, reads as an empty one.
-/

namespace ApiContract.Document

/-- The members of what has to be a mapping. -/
def membersOf : Value → Except Issue Members
  | .map members _ => .ok members
  | .endless => .error (.misfit .tooDeep)
  | _ => .error (.misfit .noMembers)

/-- What a loop over a value runs through: items, keys, characters or octets. -/
def elementsOf : Value → Except Issue (List Value)
  | .seq items _ => .ok items
  | .map members _ => .ok (members.map fun m => .scalar m.1)
  | .pair a b => .ok [a, b]
  | .set members => .ok (members.map .scalar)
  | .endless => .error (.misfit .tooDeep)
  | .str s => .ok (s.toList.map fun c => .str (String.singleton c))
  | .scalar (.bytes octets) => .ok (octets.map fun o => .int o.toNat)
  | _ => .error (.misfit .notIterable)

def orEmptyMap (v : Option Value) : Value := (Value.present? v).getD (.map [] 0)

def orEmptySeq (v : Option Value) : Value := (Value.present? v).getD (.seq [] 0)

def pathSection (spec : Value) : Except Issue Value := do
  let members ← membersOf spec
  return orEmptyMap (members.get? "paths")

def schemaSection (spec : Value) : Except Issue Value := do
  let members ← membersOf spec
  let components ← membersOf (orEmptyMap (members.get? "components"))
  return orEmptyMap (components.get? "schemas")

/-- The address of a server; what has none is passed over. -/
def serverUrl? : Value → Option Value
  | .map members _ => Members.get? "url" members
  | _ => none

def serverUrls (spec : Value) : Except Issue (List Value) := do
  let members ← membersOf spec
  let servers ← elementsOf (orEmptySeq (members.get? "servers"))
  return servers.filterMap serverUrl?

end ApiContract.Document
