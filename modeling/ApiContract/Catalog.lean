import ApiContract.Journal
import ApiContract.Naming
import ApiContract.Validator.Construction

/-!
The named schemas of a document, in the order in which they are written: the components as declared,
then for each operation its request body, response body, path parameters and query parameters. A
catalog names nothing twice and refers to nothing but its components.
-/

namespace ApiContract

inductive Provenance where
  | component
  | operation (slot : Naming.Slot)
deriving Repr, DecidableEq

def Provenance.text : Provenance → String
  | .component => "component"
  | .operation slot => slot.provenance

structure NamedSchema where
  name : String
  expr : Validator.Expr
  provenance : Provenance
deriving Repr

namespace Operation

/-- Whether an operation has something to put into a slot. -/
def has (op : Operation) : Naming.Slot → Bool
  | .requestBody => op.requestBody.isSome
  | .responseBody => op.response.isSome
  | .pathParams => !(op.parametersIn .path).isEmpty
  | .queryParams => !(op.parametersIn .query).isEmpty

def slotName (op : Operation) (slot : Naming.Slot) : String :=
  Naming.schema op.method op.path slot

/-- The validator for a slot that has something in it. -/
def slotExpr (op : Operation) : Naming.Slot → Option (Except Issue Validator.Expr)
  | .requestBody =>
    op.requestBody.map fun b => Validator.Expr.ofSchema (op.label ++ " requestBody") b.schema
  | .responseBody =>
    op.response.map (Validator.Expr.ofSchema (op.label ++ " response"))
  | .pathParams =>
    if op.has .pathParams then
      some (Validator.Expr.ofParameters (op.label ++ " path") (op.parametersIn .path))
    else none
  | .queryParams =>
    if op.has .queryParams then
      some (Validator.Expr.ofParameters (op.label ++ " query") (op.parametersIn .query))
    else none

def slotEntry? (op : Operation) (slot : Naming.Slot) : Except Issue (Option NamedSchema) :=
  match op.slotExpr slot with
  | none => .ok none
  | some e => do return some ⟨op.slotName slot, ← e, .operation slot⟩

def entries (op : Operation) : Except Issue (List NamedSchema) := do
  let found ← Naming.Slot.all.mapM op.slotEntry?
  return found.filterMap id

end Operation

namespace Catalog

def names (catalog : List NamedSchema) : List String := catalog.map (·.name)

/-- The first name that repeats an earlier one or one of `seen`. -/
def firstRepeated? (seen : List String) : List String → Option String
  | [] => none
  | n :: ns => if seen.contains n then some n else firstRepeated? (n :: seen) ns

/-- The first reference of an entry that leads out of the components. -/
def danglingIn? (components : List String) (s : NamedSchema) : Option GenerationFault :=
  (s.expr.refs.find? (!components.contains ·)).map (.undeclared s.name)

def fault? (components : List String) (catalog : List NamedSchema) : Option GenerationFault :=
  match firstRepeated? [] (names catalog) with
  | some n => some (.duplicateSchema n)
  | none => catalog.findSome? (danglingIn? components)

def componentEntry (c : String × Schema) : Except Issue NamedSchema := do
  return ⟨c.1, ← Validator.Expr.ofSchema c.1 c.2, .component⟩

/-- All entries, whether or not they fit together. -/
def entries (d : Document) : Except Issue (List NamedSchema) := do
  let components ← d.schemas.mapM componentEntry
  let operations ← d.operations.mapM Operation.entries
  return components ++ operations.flatten

def build (d : Document) : Except Issue (List NamedSchema) := do
  let catalog ← entries d
  match fault? d.componentNames catalog with
  | some f => .error (.generation f)
  | none => return catalog

/-- Build the catalog and report its size. -/
def ofDocument (d : Document) : Traced (List NamedSchema) := do
  let catalog ← Traced.ofExcept (build d)
  Traced.log .debug
    s!"synthesized {catalog.length} schemas ({d.schemas.length} components)"
  return catalog

end Catalog

end ApiContract
