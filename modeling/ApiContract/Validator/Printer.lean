import ApiContract.Json.Writer
import ApiContract.Naming
import ApiContract.Value.Spelling
import ApiContract.Validator.Expr

/-!
Expressions as source text, and the type that a validated value has. Objects are written one
property to a line, `width` spaces further in for each level of nesting; all else is on one line.
-/

namespace ApiContract.Validator

/-- How nested text is laid out. -/
structure Style where
  mark : Text.QuoteMark
  width : Nat
deriving Repr, DecidableEq

def Style.ofMark (mark : Text.QuoteMark) : Style := ⟨mark, 2⟩

def Style.quote (style : Style) (s : String) : String := Text.quote style.mark s

/-- A scalar that is no text loses the ends of its JSON form where a text has its quote marks. -/
def Style.quoteScalar (style : Style) : Scalar → Except Issue String
  | .str s => .ok (style.quote s)
  | s => do
    let t ← (Json.bareText s).mapError Issue.misfit
    let inner := (t.toList.drop 1).dropLast
    return String.ofList (style.mark.chars ++ inner ++ style.mark.chars)

def Style.indent (style : Style) (depth : Nat) : String :=
  String.ofList (List.replicate (style.width * depth) ' ')

/-- A number is written as messages show it, and so is what stands in its place. -/
def leafText (style : Style) (kind : LiteralKind) (value : Scalar) : Except Issue String :=
  match kind with
  | .null => .ok "null"
  | .boolean => .ok (if value.truthy then "true" else "false")
  | .number => (Value.scalar value).spelled
  | .string => style.quoteScalar value
  | .array => .error (.misfit .notIterable)
  | .object => .error (.misfit .notIterable)
  | .other name => .error (.unknown (.literalKind name))

mutual

def Literal.text (style : Style) : Literal → Except Issue String
  | .leaf kind value => leafText style kind value
  | .array items => do
    return "[" ++ ", ".intercalate (← Literal.itemTexts style items) ++ "]"
  | .object members => do
    return "\x7b" ++ ", ".intercalate (← Literal.memberTexts style members) ++ "\x7d"

def Literal.itemTexts (style : Style) : List Literal → Except Issue (List String)
  | [] => .ok []
  | l :: ls => do
    let first ← Literal.text style l
    let others ← Literal.itemTexts style ls
    return first :: others

def Literal.memberTexts (style : Style) : List (String × Literal) → Except Issue (List String)
  | [] => .ok []
  | (key, l) :: rest => do
    let first ← Literal.text style l
    let others ← Literal.memberTexts style rest
    return (style.quote key ++ ": " ++ first) :: others

end

def dateRegex : String := "/^\\d\x7b4\x7d-\\d\x7b2\x7d-\\d\x7b2\x7d$/"

/-- A group of values as messages show it; a lone one keeps its comma. -/
def groupShown : List String → String
  | [s] => "(" ++ s ++ ",)"
  | ss => "(" ++ ", ".intercalate ss ++ ")"

def literalShown (kind : LiteralKind) (value : String) : String :=
  "Literal(kind=" ++ shownText kind.name ++ ", value=" ++ value ++ ")"

mutual

/-- A literal as messages show it. -/
def Literal.shown : Literal → String
  | .leaf kind value => literalShown kind value.shown
  | .array items => literalShown .array (groupShown (Literal.itemsShown items))
  | .object members => literalShown .object (groupShown (Literal.membersShown members))

def Literal.itemsShown : List Literal → List String
  | [] => []
  | l :: ls => l.shown :: Literal.itemsShown ls

def Literal.membersShown : List (String × Literal) → List String
  | [] => []
  | (key, l) :: rest => groupShown [shownText key, l.shown] :: Literal.membersShown rest

end

/-- The argument of a bound. What is no number is written as messages show it. -/
def Argument.boundText : Argument → Except Issue String
  | .none => .ok Scalar.null.shown
  | .numeral n => (Value.scalar n.toScalar).spelled
  | .text s => .ok (shownText s)
  | .literal l => .ok l.shown

def Argument.quoted (style : Style) : Argument → Except Issue String
  | .none => style.quoteScalar .null
  | .numeral n => style.quoteScalar n.toScalar
  | .text s => .ok (style.quote s)
  | .literal _ => .error (.misfit .noJsonForm)

def Check.text (style : Style) (c : Check) : Except Issue String :=
  match c.name with
  | .email => .ok ".email()"
  | .uuid => .ok ".uuid()"
  | .datetime => .ok ".datetime(\x7b offset: true \x7d)"
  | .date => .ok (".regex(" ++ dateRegex ++ ")")
  | .url => .ok ".url()"
  | .int => .ok ".int()"
  | .nullable => .ok ".nullable()"
  | .optional => .ok ".optional()"
  | .min => do return ".min(" ++ (← c.arg.boundText) ++ ")"
  | .max => do return ".max(" ++ (← c.arg.boundText) ++ ")"
  | .regex => do return ".regex(new RegExp(" ++ (← c.arg.quoted style) ++ "))"
  | .default =>
    match c.arg with
    | .literal l => do return ".default(" ++ (← l.text style) ++ ")"
    | _ => .error (.misfit .noMembers)
  | .describe => do return ".describe(" ++ (← c.arg.quoted style) ++ ")"
  | .other name => .error (.unknown (.check name))

def chainText (style : Style) (checks : List Check) : Except Issue String := do
  return String.join (← checks.mapM (Check.text style))

/-- A name that may be missing. -/
def nameOr (name : Option String) : String := name.getD Scalar.null.shown

def arrayText (item : String) : String := "z.array(" ++ item ++ ")"

/-- Lines between braces, the closing one at `depth`. -/
def braced (style : Style) (depth : Nat) (separator : String) (lines : List String) : String :=
  if lines.isEmpty then "\x7b\x7d"
  else "\x7b\n" ++ separator.intercalate lines ++ "\n" ++ style.indent depth ++ "\x7d"

def objectText (style : Style) (depth : Nat) (lines : List String) : String :=
  "z.object(" ++ braced style depth ",\n" lines ++ ").strict()"

mutual

/-- The validator as source text, its object levels `depth` deep already. -/
def Expr.text (style : Style) (depth : Nat) : Expr → Except Issue String
  | ⟨kind, values, item, properties, ref, checks⟩ => do
    let base ← match kind with
      | .string => .ok "z.string()"
      | .number => .ok "z.number()"
      | .boolean => .ok "z.boolean()"
      | .any => .ok "z.any()"
      | .enum => .ok ("z.enum([" ++ ", ".intercalate (values.map style.quote) ++ "])")
      | .array => (Expr.itemText style depth item).map arrayText
      | .lazy => .ok ("z.lazy(() => " ++ Naming.const (nameOr ref) ++ ")")
      | .object => (Expr.propertyTexts style (depth + 1) properties).map (objectText style depth)
      | .other _ => .ok "z.any()"
    let chain ← chainText style checks
    return base ++ chain

def Expr.itemText (style : Style) (depth : Nat) : Option Expr → Except Issue String
  | none => .error (.misfit .noMembers)
  | some e => Expr.text style depth e

/-- The lines of an object whose properties stand at `depth`. -/
def Expr.propertyTexts (style : Style) (depth : Nat) :
    List (String × Expr) → Except Issue (List String)
  | [] => .ok []
  | (name, e) :: rest => do
    let first ← Expr.text style depth e
    let others ← Expr.propertyTexts style depth rest
    return (style.indent depth ++ style.quote name ++ ": " ++ first) :: others

end

/-- What the chain of a property adds to its type, and whether its key may be missing. A default
fills a missing value in, so the key is there. -/
def propertyMarks (checks : List Check) : String × Bool :=
  let names := checks.map (·.name)
  let optional := names.contains .optional && !names.contains .default
  ((if names.contains .nullable then " | null" else "") ++
    (if optional then " | undefined" else ""), optional)

/-- A type with its marks; a reference without a target has no type to mark. -/
def markedType (base : Option String) (marks : String) : Except Issue String :=
  match base with
  | some t => .ok (t ++ marks)
  | none => if marks.isEmpty then .ok (nameOr none) else .error (.misfit .wrongArgument)

mutual

/-- The type of a validated value; only a reference without a target has none. -/
def Expr.type? (style : Style) (depth : Nat) : Expr → Except Issue (Option String)
  | ⟨kind, values, item, properties, ref, _⟩ =>
    match kind with
    | .string => .ok (some "string")
    | .number => .ok (some "number")
    | .boolean => .ok (some "boolean")
    | .any => .ok (some "any")
    | .enum => .ok (some (" | ".intercalate (values.map style.quote)))
    | .array =>
      (Expr.itemType? style depth item).map fun t => some ("Array<" ++ nameOr t ++ ">")
    | .lazy => .ok ref
    | .object =>
      (Expr.propertyTypes style (depth + 1) properties).map fun lines =>
        some (braced style depth "\n" lines)
    | .other _ => .ok (some "any")

def Expr.itemType? (style : Style) (depth : Nat) : Option Expr → Except Issue (Option String)
  | none => .error (.misfit .noMembers)
  | some e => Expr.type? style depth e

def Expr.propertyTypes (style : Style) (depth : Nat) :
    List (String × Expr) → Except Issue (List String)
  | [] => .ok []
  | (name, e) :: rest => do
    let base ← Expr.type? style depth e
    let (marks, optional) := propertyMarks e.checks
    let type ← markedType base marks
    let others ← Expr.propertyTypes style depth rest
    let line := style.indent depth ++ style.quote name ++ (if optional then "?" else "") ++ ": " ++
      type ++ ";"
    return line :: others

end

/-- The annotation of a validator whose type cannot be inferred from its own initializer. -/
def annotation (name : String) : String := s!"z.ZodType<{name}, z.ZodTypeDef, unknown>"

end ApiContract.Validator
