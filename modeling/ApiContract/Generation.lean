import ApiContract.Catalog.Cycle
import ApiContract.Document.Reading
import ApiContract.Module.Text
import ApiContract.Validator.Printer

/-!
The way from a description to its module, in stages that the journal brackets: normalize,
synthesize, emit, render schemas, render module.
-/

namespace ApiContract.Generation

/-- What is generated from: a description as loaded, or one that has been read already. -/
inductive Source where
  | raw (value : Value)
  | normalized (document : Document)

/-- Which declarations are wanted beside the schemas. -/
structure Selection where
  handlers : Bool
  clients : Bool
deriving Repr, DecidableEq

def Selection.everything : Selection := ⟨true, true⟩

def normalize : Source → Traced Document
  | .raw value => Document.read value
  | .normalized document => return document

def declare (d : Document) (catalog : List NamedSchema) (selection : Selection) :
    Except Issue (List HandlerDeclaration × List ClientDeclaration) := do
  let handlers ← if selection.handlers then Declaration.handlers d catalog else pure []
  let clients ←
    if selection.clients then Declaration.clients d catalog (handlers.map (·.name)) else pure []
  return (handlers, clients)

/-- A component on a cycle is written with its type spelled out. -/
def schemaText (mark : Text.QuoteMark) (recursive : List String) (s : NamedSchema) :
    Except Issue Module.SchemaText := do
  let style := Validator.Style.ofMark mark
  let code ← s.expr.text style 0
  if recursive.contains s.name then
    let type ← s.expr.type? style 0
    return ⟨s.name, Naming.const s.name, code, some (Validator.annotation s.name), type⟩
  else return ⟨s.name, Naming.const s.name, code, none, none⟩

def schemaTexts (mark : Text.QuoteMark) (catalog : List NamedSchema) :
    Except Issue (List Module.SchemaText) :=
  catalog.mapM (schemaText mark (Catalog.recursiveComponents catalog))

/-- Everything up to the content of the module. -/
def content (source : Source) (options : Options) (selection : Selection) :
    Traced Module.Content := do
  let document ← Traced.stage "normalize" (normalize source)
  let catalog ← Traced.stage "synthesize" (Catalog.ofDocument document)
  let (handlers, clients) ←
    Traced.stage "emit" (Traced.ofExcept (declare document catalog selection))
  let schemas ←
    Traced.stage "render schemas" (Traced.ofExcept (schemaTexts options.mark catalog))
  return ⟨schemas, handlers, clients⟩

def moduleText (options : Options) (c : Module.Content) : Traced String :=
  Traced.stage "render module" (Traced.ofExcept do
    Layout.checkWidth options.indentation
    return Module.text options c)

end ApiContract.Generation
