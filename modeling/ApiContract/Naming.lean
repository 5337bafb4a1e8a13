import ApiContract.Document
import ApiContract.Issue
import ApiContract.Text.CaseMap
import ApiContract.Text.Lines

/-!
Names of declarations. A path becomes a token: its segments lose their braces, break at underscores,
and their pieces are capitalized and run together. A method before it and a suffix behind it make a
name; the names of schemas begin in upper case, those of functions and handlers in lower case.
-/

namespace ApiContract.Naming

def segmentToken (segment : List Char) : List Char :=
  let bare := segment.filter fun c => c ≠ '\x7b' && c ≠ '\x7d'
  (Text.splitAt '_' bare).flatMap Text.capitalize

def tokenChars (path : List Char) : List Char :=
  (Text.splitAt '/' path).flatMap segmentToken

def stemChars (method path : List Char) : List Char := Text.lower method ++ tokenChars path

/-- A name that begins with the method in lower case. -/
def derive (method path suffix : String) : String :=
  String.ofList (stemChars method.toList path.toList) ++ suffix

/-- A name that begins with the method capitalized. -/
def deriveUpper (method path suffix : String) : String :=
  String.ofList (Text.capitalize (Text.lower method.toList) ++ tokenChars path.toList) ++ suffix

/-- What an operation can have a schema for. -/
inductive Slot where
  | requestBody
  | responseBody
  | pathParams
  | queryParams
deriving Repr, DecidableEq

namespace Slot

def all : List Slot := [requestBody, responseBody, pathParams, queryParams]

def suffix : Slot → String
  | requestBody => "RequestBody"
  | responseBody => "ResponseBody"
  | pathParams => "PathParams"
  | queryParams => "QueryParams"

/-- How the entry of a slot says where it comes from. -/
def provenance : Slot → String
  | requestBody => "requestBody"
  | responseBody => "responseBody"
  | pathParams => "pathParams"
  | queryParams => "queryParams"

def ofSuffix (s : String) : Except Issue Slot :=
  match all.find? (·.suffix == s) with
  | some slot => .ok slot
  | none => .error (.unknown (.suffix s))

end Slot

def schema (method path : String) (slot : Slot) : String := deriveUpper method path slot.suffix

def handler (method path : String) : String := derive method path "Handler"

def client (method path : String) : String := derive method path ""

def clientArgs (method path : String) : String :=
  String.ofList (Text.capitalize (client method path).toList) ++ "Args"

/-- The constant that holds the validator of a schema. -/
def const (name : String) : String := name ++ "Schema"

end ApiContract.Naming
