import ApiContract.Document
import ApiContract.Document.Section
import ApiContract.Pointer
import ApiContract.Schema.Reading

/-!
Reading a description from a value. Named schemas come first, then every operation of every path in
order: its body, its response and its parameters. The parameters of a path hold for its operations;
an operation's own parameter of the same name and location takes the place of the path's.
-/

namespace ApiContract.Document

def methods : List String :=
  ["get", "put", "post", "delete", "options", "head", "patch", "trace"]

def mediaType : String := "application/json"

def fieldResult {α : Type} (place : String) : Except FieldIssue α → Except Issue α
  | .ok a => .ok a
  | .error i => .error (.document (.field place i))

/-- The members of a mapping, or of what it refers to. A reference is followed once. -/
def dereference (root : Value) (members : Members) : Except Issue Members :=
  match members.get? "$ref" with
  | none => .ok members
  | some ref => do membersOf (← Pointer.resolveValue root ref)

def locationOf? (v : Value) : Option ParameterLocation :=
  if v.isStr "path" then some .path
  else if v.isStr "query" then some .query
  else none

/-- What a parameter says itself goes before what its schema says. -/
def finishParameter (place : String) (raw : Members) (name : Value) (location : ParameterLocation)
    (schema : Schema) : Except Issue Parameter := do
  let traits := schema.traits
  let nameText ← fieldResult place
    ((Field.text name).mapError fun fault => ⟨"name", fault⟩)
  let description ← match raw.get? "description" with
    | none => pure traits.description
    | some v => fieldResult place (Field.optional "description" Field.text (some v))
  return {
    name := nameText
    location := location
    schema := schema
    required := ((raw.get? "required").map Value.truthy).getD false
    nullable := ((raw.get? "nullable").map Value.truthy).getD traits.nullable
    default := raw.get? "default" <|> traits.default
    description := description }

/-- Read one parameter. One that stands neither in the path nor in the query is passed over. -/
def readParameter (root : Value) (place : String) (raw : Members) : Traced (Option Parameter) := do
  let raw ← Traced.ofExcept (dereference root raw)
  match Value.present? (raw.get? "name"), Value.present? (raw.get? "in") with
  | some name, some location =>
    match locationOf? location with
    | none =>
      Traced.log .debug s!"{place}: skipping {location.plain} parameter {name.shown}"
      return none
    | some location =>
      let here := place ++ "." ++ (← Traced.ofExcept name.spelledPlain)
      let schema ← Schema.read here ((raw.get? "schema").getD .null)
      let parameter ← Traced.ofExcept (finishParameter here raw name location schema)
      return some parameter
  | _, _ => .fail (.document (.parameterUnnamed place))

def sameParameter (p q : Parameter) : Bool := p.name == q.name && p.location == q.location

/-- A parameter takes the place of an earlier one of its name and location. -/
def putParameter (p : Parameter) : List Parameter → List Parameter
  | [] => [p]
  | q :: qs => if sameParameter q p then p :: qs else q :: putParameter p qs

/-- Read parameters in order, the first of them with number `index`. -/
def readParameters (root : Value) (place : String) (index : Nat) (merged : List Parameter) :
    List Value → Traced (List Parameter)
  | [] => return merged
  | .map raw _ :: rest => do
    let parameter ← readParameter root place raw
    let merged := match parameter with
      | some p => putParameter p merged
      | none => merged
    readParameters root place (index + 1) merged rest
  | _ :: _ => .fail (.document (.parameterShape place index))

/-- The body or response that stands at a place, if it is a mapping. -/
def holder? (root : Value) : Option Value → Except Issue (Option Members)
  | some (.map members _) => (dereference root members).map some
  | _ => .ok none

/-- The JSON schema of a body or response. -/
def jsonSchema? (holder : Members) : Except Issue (Option Value) := do
  let content ← membersOf (orEmptyMap (holder.get? "content"))
  match content.get? mediaType with
  | some (.map media _) => return Members.get? "schema" media
  | _ => return none

def readBody (root : Value) (place : String) (raw : Members) : Traced (Option RequestBody) := do
  match ← Traced.ofExcept (holder? root (raw.get? "requestBody")) with
  | none => return none
  | some holder =>
    match ← Traced.ofExcept (jsonSchema? holder) with
    | none => return none
    | some v =>
      let schema ← Schema.read (place ++ " requestBody") v
      return some ⟨schema, ((holder.get? "required").map Value.truthy).getD false⟩

/-- The response for success, whose key is a text or a number. -/
def success? (responses : Members) : Option Value :=
  responses.get? "200" <|> (responses.find? fun m => m.1.sameKey (.int 200)).map (·.2)

def readResponse (root : Value) (place : String) (raw : Members) : Traced (Option Schema) := do
  let responses ← Traced.ofExcept (membersOf (orEmptyMap (raw.get? "responses")))
  match ← Traced.ofExcept (holder? root (success? responses)) with
  | none => return none
  | some holder =>
    match ← Traced.ofExcept (jsonSchema? holder) with
    | none => return none
    | some v => some <$> Schema.read (place ++ " response") v

def readOperation (root : Value) (method : String) (path : Scalar) (shared : Value)
    (raw : Members) : Traced Operation := do
  let place :=
    String.ofList (Text.upper method.toList) ++ " " ++ (← Traced.ofExcept path.spelledPlain)
  let body ← readBody root place raw
  let response ← readResponse root place raw
  let sharedItems ← Traced.ofExcept (elementsOf shared)
  let ownItems ← Traced.ofExcept (elementsOf (orEmptySeq (raw.get? "parameters")))
  let parameters ← readParameters root place 0 [] (sharedItems ++ ownItems)
  Traced.ofExcept do
    let pathText ← fieldResult place
      ((Field.text (.scalar path)).mapError fun fault => ⟨"path", fault⟩)
    let summary ← fieldResult place (Field.optional "summary" Field.text (raw.get? "summary"))
    let description ← fieldResult place
      (Field.optional "description" Field.text (raw.get? "description"))
    return ⟨method, pathText, body, response, parameters, summary, description⟩

/-- The method that a key of a path item names, if it names one. Octets never do. -/
def methodOf? : Scalar → Except Issue (Option String)
  | .str key =>
    let method := String.ofList (Text.lower key.toList)
    .ok (if methods.contains method then some method else none)
  | .bytes _ => .ok none
  | _ => .error (.misfit .noMembers)

def readPathItem (root : Value) (path : Scalar) (shared : Value) :
    List (Scalar × Value) → Traced (List Operation)
  | [] => return []
  | (key, raw) :: rest => do
    match ← Traced.ofExcept (methodOf? key) with
    | none => readPathItem root path shared rest
    | some method =>
      match raw with
      | .map members _ => do
        let op ← readOperation root method path shared members
        let ops ← readPathItem root path shared rest
        return op :: ops
      | _ => do
        let path ← Traced.ofExcept path.spelledPlain
        let place := String.ofList (Text.upper key.plain.toList) ++ " " ++ path
        .fail (.document (.operationShape place))

def readPaths (root : Value) : List (Scalar × Value) → Traced (List Operation)
  | [] => return []
  | (path, .map item _) :: rest => do
    let ops ← readPathItem root path (orEmptySeq (Members.get? "parameters" item)) item
    let others ← readPaths root rest
    return ops ++ others
  | (path, _) :: _ => do
    let path ← Traced.ofExcept path.spelledPlain
    .fail (.document (.pathItemShape path))

/-- Read a schema that has no name in messages. It reads as any other as long as no message and no
place inside it has to be named. -/
def readNameless (raw : Value) : Traced Schema :=
  let run := Schema.read "" raw
  let overlong : Traced Schema := .fail (.misfit .outOfRange)
  match run.outcome with
  | .ok (.array ..) => overlong
  | .ok (.object _ (_ :: _) _) => overlong
  | .ok schema => return schema
  | .error i => if i.message?.isSome then overlong else .fail i

def readComponent (name : Scalar) (raw : Value) : Traced Schema :=
  match name.spelledPlain with
  | .ok place => Schema.read place raw
  | .error _ => readNameless raw

def readSchemas : List (Scalar × Value) → Traced (List (Scalar × Schema))
  | [] => return []
  | (name, raw) :: rest => do
    let schema ← readComponent name raw
    let others ← readSchemas rest
    return (name, schema) :: others

def finish (schemas : List (Scalar × Schema)) (operations : List Operation) (urls : List Value) :
    Except Issue Document := do
  let servers ← fieldResult "document" (Field.texts (fun i => s!"servers.{i}") 0 urls)
  let names ← fieldResult "document"
    (Field.texts (fun i => s!"schemas.{i}.0") 0 (schemas.map fun s => .scalar s.1))
  return ⟨servers, names.zip (schemas.map (·.2)), operations⟩

/-- Read a whole description. -/
def read : Value → Traced Document
  | .map members knot => do
    let root : Value := .map members knot
    let schemas ← match ← Traced.ofExcept (schemaSection root) with
      | .map raw _ => readSchemas raw
      | _ => Traced.fail (.document .schemasShape)
    let operations ← match ← Traced.ofExcept (pathSection root) with
      | .map raw _ => readPaths root raw
      | _ => Traced.fail (.document .pathsShape)
    let urls ← Traced.ofExcept (serverUrls root)
    Traced.ofExcept (finish schemas operations urls)
  | _ => .fail (.document .documentShape)

end ApiContract.Document
