import ApiContract.Text.Blank
import ApiContract.Text.Digit
import ApiContract.Text.Similarity
import ApiContract.Options
import ApiContract.Workspace

/-!
Reading a command line. Arguments are first taken apart into settings and bare words; then each
parameter is checked, those that were set in the order of their setting, and the first fault ends
the reading.
-/

namespace ApiContract.CommandLine

inductive Parameter where
  | schema
  | output
  | handlers
  | clients
  | indentation
  | lineEnding
  | quoteMark
  | verbose
  | help
deriving Repr, DecidableEq

/-- What an option does: take the next word as a value, or switch something. -/
inductive Action where
  | value (p : Parameter)
  | switch (p : Parameter) (on : Bool)
deriving Repr, DecidableEq

def longOptions : List (String × Action) :=
  [("--output", .value .output),
   ("--handlers", .switch .handlers true), ("--no-handlers", .switch .handlers false),
   ("--clients", .switch .clients true), ("--no-clients", .switch .clients false),
   ("--indentation", .value .indentation), ("--line-ending", .value .lineEnding),
   ("--quote-mark", .value .quoteMark), ("--verbose", .switch .verbose true),
   ("--help", .switch .help true)]

def shortOptions : List (Char × Action) :=
  [('o', .value .output), ('v', .switch .verbose true)]

/-- The parameters in the order of their declaration. -/
def Parameter.all : List Parameter :=
  [.schema, .output, .handlers, .clients, .indentation, .lineEnding, .quoteMark, .verbose]

/-- How messages call a parameter that has a value. -/
def Parameter.hint : Parameter → String
  | .schema => "'[SCHEMA]'"
  | .output => "'-o' / '--output'"
  | .handlers => "'--handlers' / '--no-handlers'"
  | .clients => "'--clients' / '--no-clients'"
  | .indentation => "'--indentation'"
  | .lineEnding => "'--line-ending'"
  | .quoteMark => "'--quote-mark'"
  | .verbose => "'-v' / '--verbose'"
  | .help => "'--help'"

inductive ValueFault where
  | noFile (name : String)
  | directory (name : String)
  | notInteger (text : String)
  | notAChoice (text : String) (choices : List String)
deriving Repr, DecidableEq

/-- A file name in a message. What is no character is replaced. -/
def fileName (name : String) : String :=
  Text.ofPoints ((Text.points name.toList).map fun n => if Text.isHalf n then 0xFFFD else n)

def ValueFault.message : ValueFault → String
  | .noFile name => s!"File {shownText (fileName name)} does not exist."
  | .directory name => s!"File {shownText (fileName name)} is a directory."
  | .notInteger text => s!"{shownText text} is not a valid integer."
  | .notAChoice text choices =>
    shownText text ++ " is not one of " ++ ", ".intercalate (choices.map shownText) ++ "."

inductive UsageFault where
  | noValue (option : String)
  | needlessValue (option : String)
  | noSuchOption (option : String) (near : List String)
  | badValue (p : Parameter) (fault : ValueFault)
  | extraWords (words : List String)
deriving Repr, DecidableEq

namespace UsageFault

def nearText : List String → String
  | [] => ""
  | [option] => s!" Did you mean {shownText option}?"
  | options =>
    let sorted := options.foldr (fun o os =>
      os.takeWhile (· < o) ++ o :: os.dropWhile (· < o)) []
    " (Did you mean one of: " ++ ", ".intercalate (sorted.map shownText) ++ "?)"

def message : UsageFault → String
  | .noValue option => s!"Option {shownText option} requires an argument."
  | .needlessValue option => s!"Option {shownText option} does not take a value."
  | .noSuchOption option near => s!"No such option {shownText option}." ++ nearText near
  | .badValue p fault => s!"Invalid value for {p.hint}: {fault.message}"
  | .extraWords words =>
    "Got unexpected extra argument" ++ (if words.length == 1 then "" else "s") ++ " (" ++
      " ".intercalate words ++ ")"

/-- Whether the usage line stands above the message. -/
def showsUsage : UsageFault → Bool
  | .noValue _ => false
  | .needlessValue _ => false
  | _ => true

end UsageFault

inductive Setting where
  | value (p : Parameter) (text : String)
  | switch (p : Parameter) (on : Bool)
deriving Repr, DecidableEq

def Setting.parameter : Setting → Parameter
  | .value p _ => p
  | .switch p _ => p

/-- Settings and the words after them. -/
abbrev Taken := Except UsageFault (List Setting × List String)

def takeValue (option : String) (p : Parameter) : List String → Taken
  | [] => .error (.noValue option)
  | v :: rest => .ok ([.value p v], rest)

/-- An option by its long name, with the value that an equals sign attached to it. -/
def takeLong (option : String) (action : Action) (attached : Option String)
    (rest : List String) : Taken :=
  match action, attached with
  | .value p, some v => .ok ([.value p v], rest)
  | .value p, none => takeValue option p rest
  | .switch _ _, some _ => .error (.needlessValue option)
  | .switch p on, none => .ok ([.switch p on], rest)

/-- Options by their letters. What follows a letter that takes a value is its value. -/
def takeShorts (rest : List String) : List Char → Taken
  | [] => .ok ([], rest)
  | c :: cs =>
    let option := String.ofList ['-', c]
    match shortOptions.lookup c with
    | none => .error (.noSuchOption option [])
    | some (.value p) =>
      if cs.isEmpty then takeValue option p rest
      else .ok ([.value p (String.ofList cs)], rest)
    | some (.switch p on) => do
      let (others, rest) ← takeShorts rest cs
      return (.switch p on :: others, rest)

def takeOption (arg : String) (rest : List String) : Taken :=
  let cs := arg.toList
  let name := cs.takeWhile (· != '=')
  let attached :=
    if cs.length == name.length then none else some (String.ofList (cs.drop (name.length + 1)))
  let option := String.ofList name
  match longOptions.lookup option with
  | some action => takeLong option action attached rest
  | none =>
    if "--".toList.isPrefixOf cs then
      .error (.noSuchOption option (Text.closeMatches option (longOptions.map (·.1))))
    else takeShorts rest (cs.drop 1)

def isOption (arg : String) : Bool := arg.toList.head? == some '-' && 1 < arg.length

/-- All settings in order, and the bare words. After two dashes every word is bare. Each round takes
at least one word. -/
def takeAll : Nat → List String → Taken
  | 0, words => .ok ([], words)
  | _ + 1, [] => .ok ([], [])
  | fuel + 1, arg :: rest =>
    if arg == "--" then .ok ([], rest)
    else if isOption arg then do
      let (settings, rest) ← takeOption arg rest
      let (others, words) ← takeAll fuel rest
      return (settings ++ others, words)
    else do
      let (settings, words) ← takeAll fuel rest
      return (settings, arg :: words)

/-- A command line taken apart. -/
structure Given where
  settings : List Setting
  words : List String

def Given.ofArguments (args : List String) : Except UsageFault Given := do
  let (settings, words) ← takeAll (args.length + 1) args
  return ⟨settings, words⟩

namespace Given

/-- The last value that a parameter is set to. -/
def value? (g : Given) (p : Parameter) : Option String :=
  g.settings.foldl (fun found s =>
    match s with
    | .value q v => if q = p then some v else found
    | _ => found) none

def isOn (g : Given) (p : Parameter) (standard : Bool) : Bool :=
  g.settings.foldl (fun on s =>
    match s with
    | .switch q b => if q = p then b else on
    | _ => on) standard

/-- The parameters in the order in which they are checked. -/
def order (g : Given) : List Parameter :=
  let named := g.settings.map Setting.parameter ++ [.schema]
  (named ++ Parameter.all).foldl (fun seen p => if seen.contains p then seen else seen ++ [p]) []

end Given

def standardOutput : String := "api.ts"

def standardSchema : String := "spec/openapi.yaml"

/-- Digits in which single underscores may stand between two digits. -/
def groupedDigits? : List Char → Option (List Char)
  | [] => none
  | [c] => if c.isDigit then some [c] else none
  | c :: '_' :: d :: rest =>
    if c.isDigit && d.isDigit then (groupedDigits? (d :: rest)).map (c :: ·) else none
  | c :: rest => if c.isDigit then (groupedDigits? rest).map (c :: ·) else none

def splitSign : List Char → Bool × List Char
  | '-' :: cs => (true, cs)
  | '+' :: cs => (false, cs)
  | cs => (false, cs)

/-- A whole number, as people write one. -/
def integer? (text : String) : Option Int :=
  let (negative, cs) := splitSign (Text.strip (text.toList.map Text.plainDigit))
  match groupedDigits? cs with
  | some digits =>
    if Text.maxDigits < digits.length then none
    else
      let n : Int := Binary64.digitsValue digits
      some (if negative then -n else n)
  | none => none

/-- What a check of a value comes to. A name that can be the name of nothing stops the check. -/
abbrev Checked := Except Misfit (Option ValueFault)

def checkOutput (w : Workspace) (name : String) : Checked :=
  match Workspace.pathMisfit? name with
  | some kind => .error kind
  | none => .ok (if w.isDirectoryAt name then some (.directory name) else none)

def checkSchema (w : Workspace) (name : String) : Checked := do
  match ← checkOutput w name with
  | some fault => return some fault
  | none => return if (w.fileAt? name).isSome then none else some (.noFile name)

def checkChoice (choices : List String) (text : String) : Option ValueFault :=
  if choices.contains text then none else some (.notAChoice text choices)

def lineEndings : List LineEnding := [.lf, .crlf]

def quoteStyles : List QuoteStyle := [.single, .double]

def checkValue (w : Workspace) (g : Given) : Parameter → Checked
  | .schema =>
    match g.words with
    | [] => .ok none
    | name :: _ => checkSchema w name
  | .output => checkOutput w ((g.value? .output).getD standardOutput)
  | .indentation =>
    .ok ((g.value? .indentation).bind fun t =>
      if (integer? t).isSome then none else some (.notInteger t))
  | .lineEnding =>
    .ok ((g.value? .lineEnding).bind (checkChoice (lineEndings.map LineEnding.name)))
  | .quoteMark =>
    .ok ((g.value? .quoteMark).bind (checkChoice (quoteStyles.map QuoteStyle.name)))
  | _ => .ok none

/-- Why a command line is not carried out. -/
inductive Refusal where
  | usage (fault : UsageFault)
  | misfit (kind : Misfit)
deriving Repr, DecidableEq

def checkEach (w : Workspace) (g : Given) : List Parameter → Except Refusal Unit
  | [] => .ok ()
  | p :: ps =>
    match checkValue w g p with
    | .error kind => .error (.misfit kind)
    | .ok (some fault) => .error (.usage (.badValue p fault))
    | .ok none => checkEach w g ps

def check (w : Workspace) (g : Given) : Except Refusal Unit := do
  checkEach w g g.order
  if 1 < g.words.length then throw (.usage (.extraWords (g.words.drop 1)))

/-- What a command line asks for. The indentation has not been checked against its range. -/
structure Request where
  schema : String
  output : String
  handlers : Bool
  clients : Bool
  indentation : Int
  lineEnding : LineEnding
  quoteStyle : QuoteStyle
  verbose : Bool
deriving Repr, DecidableEq

def Given.request (g : Given) : Request where
  schema := g.words.headD standardSchema
  output := (g.value? .output).getD standardOutput
  handlers := g.isOn .handlers true
  clients := g.isOn .clients true
  indentation := ((g.value? .indentation).bind integer?).getD Options.standard.indentation
  lineEnding :=
    ((g.value? .lineEnding).bind fun t => lineEndings.find? (·.name == t)).getD
      Options.standard.lineEnding
  quoteStyle :=
    ((g.value? .quoteMark).bind fun t => quoteStyles.find? (·.name == t)).getD
      Options.standard.quoteStyle
  verbose := g.isOn .verbose false

inductive Asked where
  | help
  | request (r : Request)
deriving Repr, DecidableEq

def read (w : Workspace) (args : List String) : Except Refusal Asked := do
  let g ← (Given.ofArguments args).mapError Refusal.usage
  if g.isOn .help false then return .help
  check w g
  return .request g.request

end ApiContract.CommandLine
