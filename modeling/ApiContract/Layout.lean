import ApiContract.Options
import ApiContract.Text.Blank
import ApiContract.Text.Lines
import ApiContract.Text.Surrogate

/-!
The last passes over generated text: imports are gathered below the leading comments, levels of two
blanks become levels of the chosen width, and line ends become the chosen ones.
-/

namespace ApiContract.Layout

def isIndent (c : Char) : Bool := c == ' ' || c == '\t'

/-- Two leading blanks are one level; an odd one is dropped. -/
def reindentLine (width : Nat) (line : List Char) : List Char :=
  let level := (line.takeWhile isIndent).length / 2
  List.replicate (width * level) ' ' ++ line.dropWhile isIndent

def reindent (width : Nat) (text : List Char) : List Char :=
  Text.joinLines ((Text.splitLines text).map (reindentLine width))

def isComment (line : List Char) : Bool :=
  "/*".toList.isPrefixOf (Text.stripStart line) || "//".toList.isPrefixOf (Text.stripStart line)

def isImport (line : List Char) : Bool := "import ".toList.isPrefixOf (Text.strip line)

/-- Lines are ordered by the code points that they hold. -/
def Precedes (line other : List Char) : Prop :=
  Text.points line < Text.points other ∨ (Text.points line = Text.points other ∧ line < other)

instance (line other : List Char) : Decidable (Precedes line other) :=
  inferInstanceAs (Decidable (_ ∨ _))

/-- Put a line among sorted ones, unless it is there. -/
def insertSorted (line : List Char) : List (List Char) → List (List Char)
  | [] => [line]
  | other :: lines =>
    if line = other then other :: lines
    else if Precedes line other then line :: other :: lines
    else other :: insertSorted line lines

/-- The distinct lines by code point. -/
def sortDistinct (lines : List (List Char)) : List (List Char) := lines.foldr insertSorted []

/-- Lines with their imports gathered: the leading comments, the distinct imports in order, a blank
line, and the others without blank lines before them. -/
def gatherImports (lines : List (List Char)) : List (List Char) :=
  let header := lines.takeWhile isComment
  let body := lines.dropWhile isComment
  let imports := (body.filter isImport).map Text.strip
  let others := body.filter (!isImport ·)
  header ++ sortDistinct imports ++ [[]] ++ others.dropWhile Text.allBlank

def hasImports (lines : List (List Char)) : Bool := (lines.dropWhile isComment).any isImport

/-- A text without imports is left as it is, line ends included. -/
def hoistImports (text : List Char) : List Char :=
  let lines := Text.splitLines text
  if hasImports lines then Text.joinLines (gatherImports lines) else text

def endLines (ending : LineEnding) (text : List Char) : List Char :=
  text.flatMap fun c => if c = '\n' then ending.text.toList else [c]

def formatChars (options : Options) (code : List Char) : List Char :=
  let text := reindent options.indentation (hoistImports (Text.strip code))
  endLines options.lineEnding text ++ options.lineEnding.text.toList

def format (options : Options) (code : String) : String :=
  String.ofList (formatChars options code.toList)

/-- Why a level cannot be laid out: there is no text of so many blanks. -/
def widthMisfit? (width : Nat) : Option Misfit :=
  if Nat.pow 2 63 ≤ width then some .tooLarge
  else if Nat.pow 2 36 ≤ width then some .noMemory else none

/-- That there can be levels of a width. -/
def checkWidth (width : Nat) : Except Issue Unit :=
  match widthMisfit? width with
  | some kind => .error (.misfit kind)
  | none => .ok ()

end ApiContract.Layout
