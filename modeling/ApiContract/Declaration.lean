import ApiContract.Catalog

/-!
Declarations of handler types and client functions. They only name entries of the catalog, and no
declared name meets another one or an identifier that the schemas export.
-/

namespace ApiContract

/-- The names of the schemas of an operation; a slot without one is empty. -/
structure SlotTypes where
  request : Option String
  pathParams : Option String
  queryParams : Option String
  response : Option String
deriving Repr, DecidableEq

structure HandlerDeclaration where
  name : String
  types : SlotTypes
deriving Repr, DecidableEq

structure ClientDeclaration where
  name : String
  argsName : String
  method : String
  path : String
  baseUrl : String
  types : SlotTypes
  bodyRequired : Bool
  summary : Option String
deriving Repr, DecidableEq

namespace Declaration

/-- The type and constant identifiers of the schemas. -/
def exportedNames (catalog : List NamedSchema) : List String :=
  Catalog.names catalog ++ (Catalog.names catalog).map Naming.const

def ensureUnique (names taken : List String) : Except Issue Unit :=
  match Catalog.firstRepeated? taken names with
  | some n => .error (.generation (.duplicateDeclaration n))
  | none => .ok ()

def slotType (op : Operation) (known : List String) (slot : Naming.Slot) :
    Except Issue (Option String) :=
  if op.has slot then
    if known.contains (op.slotName slot) then .ok (some (op.slotName slot))
    else .error (.generation (.neverSynthesized op.label (op.slotName slot)))
  else .ok none

def slotTypes (op : Operation) (known : List String) : Except Issue SlotTypes := do
  let request ← slotType op known .requestBody
  let pathParams ← slotType op known .pathParams
  let queryParams ← slotType op known .queryParams
  let response ← slotType op known .responseBody
  return ⟨request, pathParams, queryParams, response⟩

def handlerOf (known : List String) (op : Operation) : Except Issue HandlerDeclaration := do
  return ⟨Naming.handler op.method op.path, ← slotTypes op known⟩

def handlers (d : Document) (catalog : List NamedSchema) :
    Except Issue (List HandlerDeclaration) := do
  let declared ← d.operations.mapM (handlerOf (Catalog.names catalog))
  ensureUnique (declared.map (·.name)) (exportedNames catalog)
  return declared

def clientOf (known : List String) (baseUrl : String) (op : Operation) :
    Except Issue ClientDeclaration := do
  let types ← slotTypes op known
  return {
    name := Naming.client op.method op.path
    argsName := Naming.clientArgs op.method op.path
    method := op.upperMethod
    path := op.path
    baseUrl := baseUrl
    types := types
    bodyRequired := op.requestBody.any (·.required)
    summary := op.summary }

/-- Clients call the first server. A document without operations needs none. `reserved` are names
that are declared elsewhere in the module. -/
def clients (d : Document) (catalog : List NamedSchema) (reserved : List String) :
    Except Issue (List ClientDeclaration) :=
  if d.hasPaths then
    match d.servers with
    | [] => .error (.document .noServers)
    | baseUrl :: _ => do
      let declared ← d.operations.mapM (clientOf (Catalog.names catalog) baseUrl)
      ensureUnique (declared.flatMap fun c => [c.name, c.argsName])
        (exportedNames catalog ++ reserved)
      return declared
  else .ok []

end Declaration

end ApiContract
