import ApiContract.Value.Spelling

/-!
Everything that can go wrong, by cause. The wording of each cause is here and nowhere else, so the
steps that find a fault only say what it is and where.
-/

namespace ApiContract

/-- A keyword holds a value that its field does not take. -/
inductive FieldFault where
  | notText
  | brokenText
  | notInteger
  | unreadableInteger
  | fractional
  | notFinite
  | tooLarge
deriving Repr, DecidableEq

def FieldFault.message : FieldFault → String
  | .notText => "Input should be a valid string"
  | .brokenText =>
    "Input should be a valid string, unable to parse raw data as a unicode string"
  | .notInteger => "Input should be a valid integer"
  | .unreadableInteger =>
    "Input should be a valid integer, unable to parse string as an integer"
  | .fractional => "Input should be a valid integer, got a number with a fractional part"
  | .notFinite => "Input should be a finite number"
  | .tooLarge => "Unable to parse input string as an integer, exceeded maximum size"

/-- A field of a model and what is wrong with it. -/
structure FieldIssue where
  field : String
  fault : FieldFault
deriving Repr, DecidableEq

def FieldIssue.message (place : String) (i : FieldIssue) : String :=
  s!"{place}: invalid {i.field}: {i.fault.message}"

/-- The document breaks a structural rule. -/
inductive DocumentFault where
  | noDocument (file : String)
  | documentShape
  | schemasShape
  | pathsShape
  | pathItemShape (path : String)
  | operationShape (place : String)
  | parameterShape (place : String) (index : Nat)
  | parameterUnnamed (place : String)
  | remoteReference (ref : String)
  | unresolvable (ref : String)
  | field (place : String) (issue : FieldIssue)
  | noServers
deriving Repr, DecidableEq

def DocumentFault.message : DocumentFault → String
  | .noDocument file => s!"{file} does not contain an OpenAPI document"
  | .documentShape => "OpenAPI document must be a mapping"
  | .schemasShape => "components.schemas must be a mapping"
  | .pathsShape => "paths must be a mapping"
  | .pathItemShape path => s!"{path}: path item must be a mapping"
  | .operationShape place => s!"{place}: operation must be a mapping"
  | .parameterShape place index => s!"{place}: parameter #{index} must be a mapping"
  | .parameterUnnamed place => s!"{place}: parameter requires 'name' and 'in'"
  | .remoteReference ref => s!"Only local references are supported: {ref}"
  | .unresolvable ref => s!"Unresolvable reference: {ref}"
  | .field place issue => issue.message place
  | .noServers => "No servers found in OpenAPI document"

/-- A schema cannot be read, or has no validator. -/
inductive SchemaFault where
  | shape (place found : String)
  | reference (place shownRef : String)
  | emptyEnum (place : String)
  | propertiesShape (place : String)
  | requiredShape (place : String)
  | field (place : String) (issue : FieldIssue)
  | infiniteDefault (place : String) (value : Binary64)
  | defaultType (place found : String)
  | infiniteBound (place : String) (bound : Binary64)
deriving Repr, DecidableEq

def SchemaFault.message : SchemaFault → String
  | .shape place found => s!"{place}: schema must be a mapping, got {found}"
  | .reference place shownRef => s!"{place}: unsupported reference {shownRef}"
  | .emptyEnum place => s!"{place}: enum must declare at least one value"
  | .propertiesShape place => s!"{place}: 'properties' must be a mapping"
  | .requiredShape place => s!"{place}: 'required' must be a list of property names"
  | .field place issue => issue.message place
  | .infiniteDefault place value =>
    s!"{place}: default value {value.text} is not a finite number"
  | .defaultType place found => s!"{place}: unsupported default value type: {found}"
  | .infiniteBound place bound => s!"{place}: bound {bound.text} is not a finite number"

/-- An option of the generator has a value outside its choices, or is none of its options. -/
inductive OptionFault where
  | indentation
  | lineEnding
  | quoteMark
  | unknown (name : String)
deriving Repr, DecidableEq

def OptionFault.message : OptionFault → String
  | .indentation => "Indentation must be a non-negative number"
  | .lineEnding => "Line ending must be either \"LF\" or \"CRLF\""
  | .quoteMark => "Quote mark must be either \"single\" or \"double\""
  | .unknown name => s!"Unknown configuration option: {name}"

/-- The declarations of a module do not fit together. -/
inductive GenerationFault where
  | duplicateSchema (name : String)
  | undeclared (schema target : String)
  | neverSynthesized (place name : String)
  | duplicateDeclaration (name : String)
deriving Repr, DecidableEq

def GenerationFault.message : GenerationFault → String
  | .duplicateSchema name => s!"Duplicate schema name: {name}"
  | .undeclared schema target =>
    s!"{schema} references undeclared component schema {shownText target}"
  | .neverSynthesized place name =>
    s!"{place} references schema {name} which was never synthesized"
  | .duplicateDeclaration name => s!"Duplicate declaration name: {name}"

/-- A name outside a fixed list of names. -/
inductive UnknownName where
  | suffix (name : String)
  | literalKind (name : String)
  | check (name : String)
deriving Repr, DecidableEq

def UnknownName.message : UnknownName → String
  | .suffix name => s!"Unknown schema suffix: {shownText name}"
  | .literalKind name => s!"Unknown literal kind: {name}"
  | .check name => s!"Unknown check: {name}"

/-- A step met a value of a kind for which it has no rule and no wording of its own. -/
inductive Misfit where
  | noMembers
  | notIterable
  | notAKey
  | noJsonForm
  | wrongArgument
  | outOfRange
  | tooLarge
  | tooDeep
  | noMemory
  | loneHalf
  | emptyText
  | unknownWord
deriving Repr, DecidableEq

/-- The encodings a document is read through. -/
inductive Encoding where
  | utf8
  | json
  | yaml
deriving Repr, DecidableEq

inductive Issue where
  | document (fault : DocumentFault)
  | schema (fault : SchemaFault)
  | options (faults : List OptionFault)
  | generation (fault : GenerationFault)
  | unknown (name : UnknownName)
  | misfit (kind : Misfit)
  | unreadable (encoding : Encoding)
deriving Repr, DecidableEq

namespace Issue

/-- The text for the issues that have one. -/
def message? : Issue → Option String
  | .document fault => some fault.message
  | .schema fault => some fault.message
  | .options faults => some ("; ".intercalate (faults.map OptionFault.message))
  | .generation fault => some fault.message
  | .unknown name => some name.message
  | .misfit _ => none
  | .unreadable _ => none

/-- The heading under which the generator reports an issue of its own. -/
def heading? : Issue → Option String
  | .document _ => some "ValidationError"
  | .schema _ => some "SchemaParseError"
  | .options _ => some "ConfigurationError"
  | .generation _ => some "CodeGenerationError"
  | _ => none

/-- The stable code of an issue that has a heading. -/
def code? : Issue → Option String
  | .document _ => some "VALIDATION_ERROR"
  | .schema _ => some "SCHEMA_PARSE_ERROR"
  | .options _ => some "CONFIGURATION_ERROR"
  | .generation _ => some "CODE_GENERATION_ERROR"
  | _ => none

end Issue

/-- The unambiguous spelling of a value, for a message. -/
def Value.spelled (v : Value) : Except Issue String :=
  if v.hasSpelling then .ok v.shown else .error (.misfit .outOfRange)

/-- The plain spelling of a key, for a message. -/
def Scalar.spelledPlain (s : Scalar) : Except Issue String :=
  if s.hasSpelling then .ok s.plain else .error (.misfit .outOfRange)

/-- The plain spelling of a value, for a message. -/
def Value.spelledPlain (v : Value) : Except Issue String :=
  if v.hasSpelling then .ok v.plain else .error (.misfit .outOfRange)

end ApiContract
