import ApiContract.CommandLine.Arguments
import ApiContract.Generation
import ApiContract.Journal.Session
import ApiContract.Loading
import ApiContract.Text.Control

/-!
A run of the command on a workspace. Nothing is written unless every step before the writing has
succeeded, and then exactly one file is.
-/

namespace ApiContract.CommandLine

/-- What stopped a run without a message of its own. -/
inductive Crash where
  | issue (i : Issue)
  | file (fault : FileFault)

structure Result where
  exit : Nat
  out : String
  err : String
  crash : Option Crash
  workspace : Workspace

def program : String := "main"

def usageLine : String := s!"Usage: {program} [OPTIONS] [SCHEMA]\n"

/-- What is printed for people to read holds no control sequences. -/
def printed (line : String) : String := Text.dropControls line ++ "\n"

def usageText (fault : UsageFault) : String :=
  (if fault.showsUsage then usageLine ++ s!"Try '{program} --help' for help.\n\n" else "") ++
    printed s!"Error: {fault.message}"

def helpText : String :=
  usageLine ++ "\n" ++
    "  Generate zod schemas and TypeScript types from an OpenAPI document.\n\nOptions:\n" ++
    String.join (longOptions.map fun o => s!"  {o.1}\n")

def Request.options (r : Request) : Except Issue Options :=
  Options.read [(.str "indentation", .int r.indentation),
    (.str "line_ending", .str r.lineEnding.name), (.str "quote_mark", .str r.quoteStyle.name)]

def Request.selection (r : Request) : Generation.Selection := ⟨r.handlers, r.clients⟩

/-- The lines that a logger set up for this run writes. -/
def logText (stamp : Stamp) (verbose : Bool) (entries : List Entry) : String :=
  let logger := Journal.Logger.fresh.setup verbose
  String.join ((entries.flatMap logger.written).map (Entry.line stamp))

/-- The module that a request asks for, and what it was made from. -/
def generate (r : Request) (options : Options) (content : ByteArray) :
    Traced (Module.Content × String) := do
  let spec ← Traced.stage "load"
    (Traced.ofExcept (Loading.load (Path.ofText r.schema) content))
  let c ← Generation.content (.raw spec) options r.selection
  let text ← Generation.moduleText options c
  return (c, text)

def summaryLine (output : Path) (c : Module.Content) : String :=
  printed (s!"Generated {output.text} ({c.schemas.length} schemas, " ++
    s!"{c.handlers.length} handlers, {c.clients.length} clients)")

/-- An issue with a heading is reported; any other one stops the run as it is. -/
def failed (w : Workspace) (log : String) (i : Issue) : Result :=
  match i.heading?, i.message? with
  | some heading, some message =>
    ⟨1, "", log ++ printed s!"Error: {heading}: {message}", none, w⟩
  | _, _ => ⟨1, "", log, some (.issue i), w⟩

/-- Write the module and print what it holds. A text with half a surrogate pair in it cannot be
written: of a module the empty file is left, and of a line nothing. -/
def finish (w : Workspace) (r : Request) (log : String) (c : Module.Content) (text : String) :
    Result :=
  let output := Path.ofText r.output
  let plain := Text.plain? text
  match w.save output ((plain.map String.toUTF8).getD ByteArray.empty) with
  | (w, some fault) => ⟨1, "", log, some (.file fault), w⟩
  | (w, none) =>
    match plain, Text.plain? (summaryLine output c) with
    | some _, some line => ⟨0, line, log, none, w⟩
    | _, _ => ⟨1, "", log, some (.issue (.misfit .loneHalf)), w⟩

def serve (stamp : Stamp) (w : Workspace) (r : Request) : Result :=
  match r.options with
  | .error i => failed w "" i
  | .ok options =>
    match w.fileAt? r.schema with
    | none =>
      let log := logText stamp r.verbose [.opening "load", .closing "load" false]
      ⟨1, "", log, some (.file .missing), w⟩
    | some content =>
      let run := generate r options content
      let log := logText stamp r.verbose run.entries
      match run.outcome with
      | .error i => failed w log i
      | .ok (c, text) => finish w r log c text

def respond (stamp : Stamp) (w : Workspace) (args : List String) : Result :=
  match read w args with
  | .error (.usage fault) => ⟨2, "", usageText fault, none, w⟩
  | .error (.misfit kind) => ⟨1, "", "", some (.issue (.misfit kind)), w⟩
  | .ok .help => ⟨0, helpText, "", none, w⟩
  | .ok (.request r) => serve stamp w r

/-- Carry out a command line. What it prints is plain text: where messages hold half a surrogate
pair, its escape is shown. -/
def run (stamp : Stamp) (w : Workspace) (args : List String) : Result :=
  let result := respond stamp w args
  { result with err := Text.escapeHalves result.err }

end ApiContract.CommandLine
