import ApiContract.Catalog

/-!
Components that reach themselves through references. Only components are targets, so only they can
lie on a cycle. Each step of the search takes one name off the stack, and a name is expanded once,
so twice the number of references bounds the steps.
-/

namespace ApiContract.Catalog

def isComponent (s : NamedSchema) : Bool := s.provenance == .component

/-- The references of the component of a name. -/
def targets (catalog : List NamedSchema) (name : String) : List String :=
  match catalog.find? fun s => isComponent s && s.name == name with
  | some s => s.expr.refs
  | none => []

/-- Whether `goal` is on the stack or reached from it, names already expanded left out; nothing if
the steps run out before that is known. -/
def search (next : String → List String) (goal : String) :
    Nat → List String → List String → Option Bool
  | 0, _, _ => none
  | _ + 1, _, [] => some false
  | fuel + 1, visited, name :: stack =>
    if name == goal then some true
    else if visited.contains name then search next goal fuel visited stack
    else search next goal fuel (name :: visited) (next name ++ stack)

def referenceCount (catalog : List NamedSchema) : Nat :=
  catalog.foldr (fun s n => s.expr.refs.length + n) 0

def stepBound (catalog : List NamedSchema) : Nat := 2 * referenceCount catalog + 1

/-- The search from the references of a name for that name. -/
def searchFrom (catalog : List NamedSchema) (name : String) : Option Bool :=
  search (targets catalog) name (stepBound catalog) [] (targets catalog name)

def isRecursive (catalog : List NamedSchema) (name : String) : Bool :=
  searchFrom catalog name == some true

/-- The names of the components on a cycle, in the order of the catalog. -/
def recursiveComponents (catalog : List NamedSchema) : List String :=
  (names (catalog.filter isComponent)).filter (isRecursive catalog)

end ApiContract.Catalog
