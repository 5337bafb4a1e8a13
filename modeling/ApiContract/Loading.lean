import ApiContract.Json.Reader
import ApiContract.Workspace
import ApiContract.Yaml.Reader

/-!
From the octets of a file to a description. Files named as JSON are read as JSON and all others as
YAML; a description is a mapping.
-/

namespace ApiContract.Loading

/-- Every line end as LF. -/
def unifyLines : List Char → List Char
  | '\r' :: '\n' :: cs => '\n' :: unifyLines cs
  | '\r' :: cs => '\n' :: unifyLines cs
  | c :: cs => c :: unifyLines cs
  | [] => []

def decode (content : ByteArray) : Except Issue String :=
  match String.fromUTF8? content with
  | some s => .ok (String.ofList (unifyLines s.toList))
  | none => .error (.unreadable .utf8)

def isJson (path : Path) : Bool := Text.lower path.suffix == ".json".toList

def readValue (path : Path) (text : String) : Except Issue Value :=
  if isJson path then Json.read text else Yaml.read text

/-- The description in a file of this name and content. -/
def load (path : Path) (content : ByteArray) : Except Issue Value := do
  let text ← decode content
  match ← readValue path text with
  | .map members knot => return .map members knot
  | _ => .error (.document (.noDocument path.text))

end ApiContract.Loading
