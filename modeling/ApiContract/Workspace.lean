import ApiContract.Issue
import ApiContract.Text.CaseMap
import ApiContract.Text.Lines

/-!
A directory tree as data: the files below one directory with their octets, and the directories that
were made. Reading and writing are functions on it, so a run is one too.
-/

namespace ApiContract

/-- A path in its shortest spelling, steps back to a parent kept. The root is empty for a path that
starts in the workspace. -/
structure Path where
  root : String
  parts : List String
deriving Repr, DecidableEq

namespace Path

/-- Two slashes, not more, are a root of their own. -/
def rootOf (s : String) : String :=
  match (s.toList.takeWhile (· == '/')).length with
  | 0 => ""
  | 2 => "//"
  | _ => "/"

def ofText (s : String) : Path :=
  let pieces := (Text.splitAt '/' s.toList).map String.ofList
  ⟨rootOf s, pieces.filter fun p => p != "" && p != "."⟩

def text (p : Path) : String :=
  if p.root.isEmpty && p.parts.isEmpty then "." else p.root ++ "/".intercalate p.parts

def isAbsolute (p : Path) : Bool := !p.root.isEmpty

def parent (p : Path) : Path := { p with parts := p.parts.dropLast }

/-- The last part from its last point on, if that point is neither its first nor its last
character. -/
def suffix (p : Path) : List Char :=
  let name := (p.parts.getLastD "").toList
  let tail := name.reverse.takeWhile (· != '.')
  if tail.isEmpty || name.length ≤ tail.length + 1 then [] else '.' :: tail.reverse

end Path

structure Workspace where
  files : List (List String × ByteArray)
  directories : List (List String)

/-- Why a file cannot be read or written, or a directory not be made. -/
inductive FileFault where
  | missing
  | isDirectory
  | notDirectory
  | exists
  | nameTooLong
deriving Repr, DecidableEq

/-- Where the steps of a path lead. Of what is outside only the directories above the workspace are
known; anything else there counts as missing, and can be made. -/
inductive Spot where
  | file (place : List String)
  | directory (place : List String)
  | outside
  | unknown
deriving Repr, DecidableEq

namespace Workspace

/-- The octets of a name: one for a half that stands for an octet, and else those of UTF-8. -/
def octetCount (name : String) : Nat :=
  (Text.points name.toList).foldr
    (fun n count => (if Text.isHalf n then 1 else (Char.ofNat n).utf8Size) + count) 0

/-- A name has at most 255 octets. -/
def isLongName (name : String) : Bool := 255 < octetCount name

/-- A path has fewer than 4096 octets. -/
def isLongPath (path : String) : Bool := 4095 < octetCount path

/-- Why a path can be the path of nothing. -/
def pathMisfit? (path : String) : Option Misfit :=
  let isForeign (n : Nat) : Bool := Text.isHalf n && !Text.isOctetHalf n
  if (Text.points path.toList).any isForeign then some .loneHalf
  else if path.toList.contains '\x00' then some .outOfRange
  else none

def file? (w : Workspace) (place : List String) : Option ByteArray := w.files.lookup place

def isDirectory (w : Workspace) (place : List String) : Bool :=
  place.isEmpty || w.directories.contains place ||
    w.files.any fun f => place.isPrefixOf f.1 && f.1.length != place.length

/-- One step of a path. An empty one and a point stay in a directory, two points leave it. -/
def step (w : Workspace) (spot : Spot) (name : String) : Except FileFault Spot :=
  let stays := name == "" || name == "."
  match spot with
  | .file _ => .error .notDirectory
  | .outside => .ok (if stays || name == ".." then .outside else .unknown)
  | .unknown => .ok .unknown
  | .directory place =>
    let inner := place ++ [name]
    if stays then .ok spot
    else if name == ".." then
      .ok (if place.isEmpty then .outside else .directory place.dropLast)
    else if isLongName name then .error .nameTooLong
    else if w.isDirectory inner then .ok (.directory inner)
    else if (w.file? inner).isSome then .ok (.file inner)
    else .error .missing

def start (absolute : Bool) : Spot := if absolute then .outside else .directory []

def walk (w : Workspace) (absolute : Bool) (steps : List String) : Except FileFault Spot :=
  steps.foldlM w.step (start absolute)

/-- What a path leads to, every step of it taken. -/
def locate (w : Workspace) (path : String) : Except FileFault Spot :=
  let cs := path.toList
  if cs.isEmpty then .error .missing
  else if isLongPath path then .error .nameTooLong
  else w.walk (cs.head? == some '/') ((Text.splitAt '/' cs).map String.ofList)

/-- The octets of the file that a path leads to. -/
def fileAt? (w : Workspace) (path : String) : Option ByteArray :=
  match w.locate path with
  | .ok (.file place) => w.file? place
  | _ => none

def isDirectoryAt (w : Workspace) (path : String) : Bool :=
  match w.locate path with
  | .ok (.directory _) => true
  | .ok .outside => true
  | _ => false

/-- The place of a new name in the directory that `above` leads to, if it is inside. -/
def newPlace (w : Workspace) (absolute : Bool) (above : List String) (name : String) :
    Except FileFault (Option (List String)) := do
  if isLongPath ("/".intercalate (above ++ [name])) then throw .nameTooLong
  match ← w.walk absolute above with
  | .file _ => throw .notDirectory
  | .outside => return none
  | .unknown => return none
  | .directory place =>
    if isLongName name then throw .nameTooLong
    return some (place ++ [name])

/-- Make a directory where nothing is yet. -/
def makeDirectory (w : Workspace) (absolute : Bool) (above : List String) (name : String) :
    Except FileFault Workspace := do
  match ← w.newPlace absolute above name with
  | none => return w
  | some place =>
    if name == ".." || w.isDirectory place || (w.file? place).isSome then throw .exists
    return { w with directories := place :: w.directories }

/-- Make a directory and what is missing above it, its steps given from the last one back. What was
made before a fault stays. -/
def makeDirectories (w : Workspace) (absolute : Bool) :
    List String → Workspace × Option FileFault
  | [] => (w, none)
  | name :: above =>
    let settle (w : Workspace) (fault : FileFault) : Workspace × Option FileFault :=
      match w.walk absolute (name :: above).reverse with
      | .ok (.directory _) => (w, none)
      | .ok .outside => (w, none)
      | _ => (w, some fault)
    match w.makeDirectory absolute above.reverse name with
    | .ok w => (w, none)
    | .error .missing =>
      match w.makeDirectories absolute above with
      | (w, some fault) => (w, some fault)
      | (w, none) =>
        match w.makeDirectory absolute above.reverse name with
        | .ok w => (w, none)
        | .error fault => settle w fault
    | .error fault => settle w fault

def setFile (place : List String) (content : ByteArray) :
    List (List String × ByteArray) → List (List String × ByteArray)
  | [] => [(place, content)]
  | f :: fs => if f.1 == place then (place, content) :: fs else f :: setFile place content fs

/-- Write a file into a directory that is there. What is outside of the workspace is not kept. -/
def write (w : Workspace) (path : Path) (content : ByteArray) : Except FileFault Workspace :=
  match path.parts.reverse with
  | [] => .error .isDirectory
  | name :: above => do
    match ← w.newPlace path.isAbsolute above.reverse name with
    | none => return w
    | some place =>
      if name == ".." || w.isDirectory place then throw .isDirectory
      return { w with files := setFile place content w.files }

/-- Make the directories above a file, and write it. -/
def save (w : Workspace) (path : Path) (content : ByteArray) : Workspace × Option FileFault :=
  match w.makeDirectories path.isAbsolute path.parent.parts.reverse with
  | (w, some fault) => (w, some fault)
  | (w, none) =>
    match w.write path content with
    | .ok w => (w, none)
    | .error fault => (w, some fault)

/-- The files that are new or have other octets than before. -/
def changed (before after : Workspace) : List (List String × ByteArray) :=
  after.files.filter fun f =>
    match before.file? f.1 with
    | some old => old.data != f.2.data
    | none => true

/-- The directories that are new. -/
def newDirectories (before after : Workspace) : List (List String) :=
  after.directories.filter fun d => !before.isDirectory d

end Workspace

end ApiContract
