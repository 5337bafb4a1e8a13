import ApiContract.Issue
import ApiContract.Text.Quoted

/-!
How the generated module is laid out: the width of an indentation level, the line ending and the
quote mark. `Options.read` collects every fault, those of known options first and in a fixed order,
then the unknown names as they were given.
-/

namespace ApiContract

inductive LineEnding where
  | lf
  | crlf
deriving Repr, DecidableEq

def LineEnding.name : LineEnding → String
  | .lf => "LF"
  | .crlf => "CRLF"

def LineEnding.text : LineEnding → String
  | .lf => "\n"
  | .crlf => "\r\n"

inductive QuoteStyle where
  | single
  | double
deriving Repr, DecidableEq

def QuoteStyle.name : QuoteStyle → String
  | .single => "single"
  | .double => "double"

def QuoteStyle.mark : QuoteStyle → Text.QuoteMark
  | .single => .single
  | .double => .double

structure Options where
  indentation : Nat
  lineEnding : LineEnding
  quoteStyle : QuoteStyle
deriving Repr, DecidableEq

namespace Options

def standard : Options := ⟨2, .lf, .double⟩

def mark (o : Options) : Text.QuoteMark := o.quoteStyle.mark

/-- Truth values and floats are no widths. -/
def readIndentation : Value → Except OptionFault Nat
  | .int n => if 0 ≤ n then .ok n.toNat else .error .indentation
  | _ => .error .indentation

def readLineEnding (v : Value) : Except OptionFault LineEnding :=
  if v.isStr "LF" then .ok .lf
  else if v.isStr "CRLF" then .ok .crlf
  else .error .lineEnding

def readQuoteStyle (v : Value) : Except OptionFault QuoteStyle :=
  if v.isStr "single" then .ok .single
  else if v.isStr "double" then .ok .double
  else .error .quoteMark

def isText : Scalar → Bool
  | .str _ => true
  | _ => false

def isKnown (name : Scalar) : Bool :=
  name == .str "indentation" || name == .str "line_ending" || name == .str "quote_mark"

/-- The given value of an option, or the standard one if none is given. -/
def readOption {α : Type} (read : Value → Except OptionFault α) (standard : α) :
    Option Value → Except OptionFault α
  | none => .ok standard
  | some v => read v

def faultOf {α : Type} : Except OptionFault α → List OptionFault
  | .ok _ => []
  | .error f => [f]

/-- Check the options by name. -/
def ofNamed (given : Members) : Except Issue Options :=
  let indentation := readOption readIndentation standard.indentation (given.get? "indentation")
  let lineEnding := readOption readLineEnding standard.lineEnding (given.get? "line_ending")
  let quoteStyle := readOption readQuoteStyle standard.quoteStyle (given.get? "quote_mark")
  let unknown := (given.filter (!isKnown ·.1)).map (OptionFault.unknown ·.1.plain)
  match indentation, lineEnding, quoteStyle, unknown with
  | .ok i, .ok l, .ok q, [] => .ok ⟨i, l, q⟩
  | _, _, _, _ =>
    .error (.options (faultOf indentation ++ faultOf lineEnding ++ faultOf quoteStyle ++ unknown))

/-- The name of an option is a text. -/
def read (given : Members) : Except Issue Options :=
  if given.all (isText ·.1) then ofNamed given else .error (.misfit .wrongArgument)

end Options

end ApiContract
