import ApiContract.Declaration
import ApiContract.Layout
import ApiContract.Module.Client
import ApiContract.Module.Server

/-!
The generated module: validators, types, then the handler types and the client functions if they
are asked for and there are any. `Module.text` puts the parts together; the layout passes have the
last word on indentation and line ends.
-/

namespace ApiContract.Module

/-- A schema with everything that is written about it. -/
structure SchemaText where
  name : String
  const : String
  code : String
  annotation : Option String
  typeCode : Option String
deriving Repr, DecidableEq

/-- Everything a module is written from. -/
structure Content where
  schemas : List SchemaText
  handlers : List HandlerDeclaration
  clients : List ClientDeclaration
deriving Repr, DecidableEq

namespace Content

def includesHandlers (c : Content) : Bool := !c.handlers.isEmpty

def includesClients (c : Content) : Bool := !c.clients.isEmpty

end Content

def unlines (lines : List String) : String := String.join (lines.map (· ++ "\n"))

def given? (s : Option String) : Option String := s.filter (!·.isEmpty)

def constText (s : SchemaText) : String :=
  let annotation := ((given? s.annotation).map (": " ++ ·)).getD ""
  "export const " ++ s.const ++ annotation ++ " = " ++ s.code ++ ";\n\n"

def typeText (s : SchemaText) : String :=
  let type := (given? s.typeCode).getD s!"z.infer<typeof {s.const}>"
  "export type " ++ s.name ++ " = " ++ type ++ ";\n"

/-- The four type arguments of handlers and requests. -/
def typeArguments (t : SlotTypes) : String :=
  let request := (given? t.request).getD "undefined"
  let path := (given? t.pathParams).getD "\x7b\x7d"
  let query := (given? t.queryParams).getD "\x7b\x7d"
  let response := (given? t.response).getD "undefined"
  "<" ++ request ++ ", " ++ path ++ ", " ++ query ++ ", " ++ response ++ ">"

def handlerText (h : HandlerDeclaration) : String :=
  "export type " ++ h.name ++ " = Handler" ++ typeArguments h.types ++ ";\n"

/-- A summary never ends the comment that it stands in. -/
def guardComment : List Char → List Char
  | '*' :: '/' :: cs => '*' :: ' ' :: '/' :: guardComment cs
  | c :: cs => c :: guardComment cs
  | [] => []

def summaryText (summary : Option String) : String :=
  match given? summary with
  | some s => "/** " ++ String.ofList (guardComment s.toList) ++ " */\n"
  | none => ""

def memberText (name : String) (type : Option String) : String :=
  match given? type with
  | some t => "  " ++ name ++ ": " ++ t ++ ";\n"
  | none => ""

def argsText (c : ClientDeclaration) : String :=
  "export interface " ++ c.argsName ++ " \x7b\n" ++
    "  baseUrl?: string;\n" ++
    memberText "params" c.types.pathParams ++
    memberText "query" c.types.queryParams ++
    memberText (if c.bodyRequired then "body" else "body?") c.types.request ++
    "  headers?: Record<string, string>;\n" ++
    "\x7d\n"

def clientText (mark : Text.QuoteMark) (c : ClientDeclaration) : String :=
  "\n" ++ argsText c ++ "\n" ++ summaryText c.summary ++
    "export const " ++ c.name ++ " = (args: " ++ c.argsName ++ ") => \x7b\n" ++
    "  return httpRequest" ++ typeArguments c.types ++ "(\x7b\n" ++
    "    ...args,\n" ++
    "    baseUrl: args.baseUrl ?? " ++ Text.quote mark c.baseUrl ++ ",\n" ++
    "    path: " ++ Text.quote mark c.path ++ ",\n" ++
    "    method: " ++ Text.quote mark c.method ++ ",\n" ++
    "  \x7d);\n" ++
    "\x7d;\n"

def schemaSection (mark : Text.QuoteMark) (schemas : List SchemaText) : String :=
  "/* This file was auto-generated. Do not edit it directly. */\n" ++
    "import \x7b z \x7d from " ++ Text.quote mark "zod" ++ ";\n\n" ++
    "/* ZOD SCHEMAS */\n\n" ++ String.join (schemas.map constText) ++
    "/* TYPES */\n\n" ++ String.join (schemas.map typeText)

def serverSection (handlers : List HandlerDeclaration) : String :=
  "\n/* SERVER */\n\n" ++ unlines serverLines ++ "\n" ++ String.join (handlers.map handlerText)

def clientSection (mark : Text.QuoteMark) (clients : List ClientDeclaration) : String :=
  "\n/* CLIENT */\n\n" ++ unlines clientLines ++ String.join (clients.map (clientText mark))

/-- The module before layout. -/
def draft (mark : Text.QuoteMark) (c : Content) : String :=
  schemaSection mark c.schemas ++
    (if c.includesHandlers then serverSection c.handlers else "") ++
    (if c.includesClients then clientSection mark c.clients else "")

def text (options : Options) (c : Content) : String :=
  Layout.format options (draft options.mark c)

end ApiContract.Module
