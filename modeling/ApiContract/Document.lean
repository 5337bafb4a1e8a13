import ApiContract.Schema
import ApiContract.Text.CaseMap

/-!
The part of an API description that code is generated from: servers, named schemas and operations
with their parameters, request body and response.
-/

namespace ApiContract

inductive ParameterLocation where
  | path
  | query
deriving Repr, DecidableEq

def ParameterLocation.name : ParameterLocation → String
  | .path => "path"
  | .query => "query"

structure Parameter where
  name : String
  location : ParameterLocation
  schema : Schema
  required : Bool
  nullable : Bool
  default : Option Value
  description : Option String
deriving Repr

structure RequestBody where
  schema : Schema
  required : Bool
deriving Repr

/-- One method on one path; the method is in lower case. -/
structure Operation where
  method : String
  path : String
  requestBody : Option RequestBody
  response : Option Schema
  parameters : List Parameter
  summary : Option String
  description : Option String
deriving Repr

namespace Operation

def upperMethod (op : Operation) : String := String.ofList (Text.upper op.method.toList)

/-- The method in upper case and the path, as messages name an operation. -/
def label (op : Operation) : String := op.upperMethod ++ " " ++ op.path

def parametersIn (op : Operation) (location : ParameterLocation) : List Parameter :=
  op.parameters.filter (·.location == location)

end Operation

structure Document where
  servers : List String
  schemas : List (String × Schema)
  operations : List Operation
deriving Repr

namespace Document

def hasPaths (d : Document) : Bool := !d.operations.isEmpty

def componentNames (d : Document) : List String := d.schemas.map (·.1)

end Document

end ApiContract
