import ApiContract.CommandLine.Run

/-!
The command. The places that a command line names are looked up, the run is worked out on what was
found, and the directories and the file that it adds are written.
-/

namespace ApiContract.Main

/-- What stands at a place: a file with its octets, or a directory. -/
def lookUp (w : Workspace) (place : List String) : IO Workspace := do
  try
    let content ← IO.FS.readBinFile ("/".intercalate place)
    return { w with files := (place, content) :: w.files }
  catch
    | .noFileOrDirectory .. => return w
    | _ => return { w with directories := place :: w.directories }

/-- The way down from the workspace, if a path does not leave it. -/
def inside? (p : Path) : Option (List String) :=
  let step (down : List String) (part : String) : Option (List String) :=
    if part == ".." then if down.isEmpty then none else some down.dropLast
    else some (down ++ [part])
  if p.isAbsolute then none else p.parts.foldlM step []

/-- The places on the way down to a path, those that it leaves again included. -/
def waysTo (name : String) : List (List String) :=
  let path := Path.ofText name
  (List.range path.parts.length).filterMap fun i =>
    inside? { path with parts := path.parts.take (i + 1) }

def surroundings (args : List String) : IO Workspace :=
  match CommandLine.Given.ofArguments args with
  | .error _ => return ⟨[], []⟩
  | .ok g => do
    let r := g.request
    (waysTo r.schema ++ waysTo r.output).foldlM lookUp ⟨[], []⟩

def save (before after : Workspace) : IO Unit := do
  for place in Workspace.newDirectories before after do
    IO.FS.createDirAll ("/".intercalate place)
  for (place, content) in Workspace.changed before after do
    IO.FS.writeBinFile ("/".intercalate place) content

/-- A run does not see the clock, so its lines tell no time. -/
def stamp : Stamp := ⟨"00:00:00", "0.000s"⟩

def crashText : CommandLine.Crash → String
  | .issue _ => "the document cannot be processed"
  | .file .missing => "no such file"
  | .file .isDirectory => "is a directory"
  | .file .notDirectory => "not a directory"
  | .file .exists => "file exists"
  | .file .nameTooLong => "file name too long"

end ApiContract.Main

open ApiContract in
def main (args : List String) : IO UInt32 := do
  let w ← Main.surroundings args
  let result := CommandLine.run Main.stamp w args
  Main.save w result.workspace
  IO.print result.out
  IO.eprint result.err
  match result.crash with
  | some crash => IO.eprintln (Main.crashText crash)
  | none => pure ()
  return result.exit.toUInt32
