import ApiContract.Journal
import ApiContract.Json.Writer
import ApiContract.Schema
import ApiContract.Schema.Field

/-!
Reading a schema from a value. Its kind is decided by the keywords that are there: a reference comes
first, then an enumeration, then the named type, then `items`, then `properties`. A schema is
checked for its shape, then its children are read in order, then its other keywords.
-/

namespace ApiContract.Schema

def componentPointer : String := "#/components/schemas/"

/-- The kinds of schema that keywords can ask for. -/
inductive Kind where
  | ref (pointer : Value)
  | enum (values : Value)
  | string
  | number (integer : Bool)
  | boolean
  | array
  | object
  | any
deriving Repr

def kindOf (raw : Members) : Kind :=
  match raw.get? "$ref" with
  | some pointer => .ref pointer
  | none =>
    let type := (raw.get? "type").getD .null
    let untyped := match type with | .null => true | _ => false
    let isType (name : String) := type.isStr name
    match raw.get? "enum", untyped || isType "string" with
    | some values, true => .enum values
    | _, _ =>
      if isType "string" then .string
      else if isType "number" then .number false
      else if isType "integer" then .number true
      else if isType "boolean" then .boolean
      else if isType "array" || (untyped && (raw.get? "items").isSome) then .array
      else if isType "object" || (untyped && (raw.get? "properties").isSome) then .object
      else .any

/-- The component that a reference names. -/
def targetOf? : Value → Option String
  | .str s =>
    if componentPointer.toList.isPrefixOf s.toList then
      some (String.ofList (s.toList.drop componentPointer.length))
    else none
  | _ => none

/-- An enumerated value is spelled the way JSON spells it. -/
def enumText : Value → Except Issue String
  | .str s => .ok s
  | v => (Json.text v).mapError .misfit

def fieldResult {α : Type} (place : String) : Except FieldIssue α → Except Issue α
  | .ok a => .ok a
  | .error i => .error (.schema (.field place i))

def readTraits (place : String) (raw : Members) : Except Issue Traits := do
  let description ← fieldResult place
    (Field.optional "description" Field.text (raw.get? "description"))
  return ⟨((raw.get? "nullable").map Value.truthy).getD false, raw.get? "default", description⟩

def readRef (place : String) (raw : Members) (pointer : Value) : Except Issue Schema :=
  match targetOf? pointer with
  | none => do throw (.schema (.reference place (← pointer.spelled)))
  | some target => do
    let traits ← readTraits place raw
    return .ref traits target

def readEnum (place : String) (raw : Members) : Value → Except Issue Schema
  | .seq (v :: vs) _ => do
    let values ← (v :: vs).mapM enumText
    let traits ← readTraits place raw
    return .enum traits values
  | _ => .error (.schema (.emptyEnum place))

def readString (place : String) (raw : Members) : Except Issue Schema := do
  let traits ← readTraits place raw
  let format ← fieldResult place (Field.optional "format" Field.text (raw.get? "format"))
  let pattern ← fieldResult place (Field.optional "pattern" Field.text (raw.get? "pattern"))
  let min ← fieldResult place (Field.optional "min_length" Field.integer (raw.get? "minLength"))
  let max ← fieldResult place (Field.optional "max_length" Field.integer (raw.get? "maxLength"))
  return .string traits format pattern min max

def readNumber (place : String) (raw : Members) (integer : Bool) : Except Issue Schema := do
  let traits ← readTraits place raw
  let min ← fieldResult place (Field.optional "minimum.int" Field.numeral (raw.get? "minimum"))
  let max ← fieldResult place (Field.optional "maximum.int" Field.numeral (raw.get? "maximum"))
  return .number traits integer min max

def finishArray (place : String) (raw : Members) (items : Schema) : Except Issue Schema := do
  let traits ← readTraits place raw
  let min ← fieldResult place (Field.optional "min_items" Field.integer (raw.get? "minItems"))
  let max ← fieldResult place (Field.optional "max_items" Field.integer (raw.get? "maxItems"))
  return .array traits items min max

/-- Names that become the same text are required once. -/
def finishObject (place : String) (raw : Members) (properties : List (Scalar × Schema))
    (required : List Value) : Except Issue Schema := do
  let traits ← readTraits place raw
  let names ← fieldResult place
    (Field.texts (fun i => s!"properties.{i}.0") 0 (properties.map fun p => .scalar p.1))
  let required ← fieldResult place (Field.texts (fun i => s!"required.{i}") 0 required)
  return .object traits (names.zip (properties.map (·.2))) required.eraseDups

/-- Values without repetition, in the order of their first mention. -/
def distinct (values : List Value) : List Value :=
  values.foldl (fun seen v => if seen.any (·.sameKey v) then seen else seen ++ [v]) []

/-- The names an object lists as required. A truth value there is a mark for the parent, and says
nothing about the object's own properties. -/
def requiredNames (place : String) (raw : Members) : Except Issue (List Value) :=
  match Value.present? (raw.get? "required") with
  | none => .ok []
  | some (.bool _) => .ok []
  | some (.seq items _) =>
    if items.all Value.isHashable then .ok (distinct items) else .error (.misfit .notAKey)
  | some _ => .error (.schema (.requiredShape place))

def checkProperties (place : String) (raw : Members) : Except Issue Unit :=
  match Value.present? (raw.get? "properties") with
  | none => .ok ()
  | some (.map ..) => .ok ()
  | some _ => .error (.schema (.propertiesShape place))

/-- Whether a property says of itself that it is required. -/
def marksItself (raw : Value) : Bool :=
  match raw with
  | .map members _ =>
    match Members.get? "required" members with
    | some (.bool b) => b
    | _ => false
  | _ => false

def deprecation (place : String) : String :=
  place ++ ": boolean 'required' on a property is deprecated; " ++
    "list the name in the parent's 'required' instead"

/-- The required names after a look at one property, with a warning if it adds itself. -/
def noteMark (place : String) (name : Scalar) (raw : Value) (required : List Value) :
    Traced (List Value) :=
  if marksItself raw && !required.any (·.sameKey (.scalar name)) then do
    Traced.log .warning (deprecation place)
    return required ++ [.scalar name]
  else return required

mutual

/-- Read one schema that stands at `place`. -/
def read (place : String) : Value → Traced Schema
  | .scalar .null => return anything
  | .map [] _ => return anything
  | .map members _ =>
    match kindOf members with
    | .ref pointer => .ofExcept (readRef place members pointer)
    | .enum values => .ofExcept (readEnum place members values)
    | .string => .ofExcept (readString place members)
    | .number integer => .ofExcept (readNumber place members integer)
    | .boolean => .ofExcept ((readTraits place members).map .boolean)
    | .array => do
      let items ← readItems (place ++ "[]") members
      .ofExcept (finishArray place members items)
    | .object => do
      .ofExcept (checkProperties place members)
      let required ← Traced.ofExcept (requiredNames place members)
      let (properties, required) ← readProperties place required members
      .ofExcept (finishObject place members properties required)
    | .any => .ofExcept ((readTraits place members).map .any)
  | .endless => .fail (.misfit .tooDeep)
  | v => .fail (.schema (.shape place v.typeName))

/-- Read the schema under `items`. -/
def readItems (place : String) : List (Scalar × Value) → Traced Schema
  | [] => return anything
  | (k, v) :: rest => if k = .str "items" then read place v else readItems place rest

/-- Read the schemas under `properties`, and complete the required names. -/
def readProperties (place : String) (required : List Value) :
    List (Scalar × Value) → Traced (List (Scalar × Schema) × List Value)
  | [] => return ([], required)
  | (k, v) :: rest =>
    if k = .str "properties" then
      match v with
      | .map properties _ => readEach place required properties
      | _ => return ([], required)
    else readProperties place required rest

def readEach (place : String) (required : List Value) :
    List (Scalar × Value) → Traced (List (Scalar × Schema) × List Value)
  | [] => return ([], required)
  | (name, raw) :: rest => do
    let here := place ++ "." ++ (← Traced.ofExcept name.spelledPlain)
    let required ← noteMark here name raw required
    let schema ← read here raw
    let (others, required) ← readEach place required rest
    return ((name, schema) :: others, required)

end

end ApiContract.Schema
