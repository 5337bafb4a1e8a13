import ApiContract.Issue
import ApiContract.Text.Lines

/-!
Pointers into a document: `#/` and then keys separated by slashes, in which `~1` stands for a slash
and `~0` for a tilde. `escape` writes a key so that `unescape` reads it back.
-/

namespace ApiContract.Pointer

def unescape : List Char → List Char
  | '~' :: '1' :: cs => '/' :: unescape cs
  | '~' :: '0' :: cs => '~' :: unescape cs
  | c :: cs => c :: unescape cs
  | [] => []

def escapeChar (c : Char) : List Char :=
  if c = '~' then ['~', '0'] else if c = '/' then ['~', '1'] else [c]

def escape (cs : List Char) : List Char := cs.flatMap escapeChar

/-- The keys that a pointer names, if it stays inside its document. -/
def keys? (ref : String) : Option (List String) :=
  match ref.toList with
  | '#' :: '/' :: rest => some ((Text.splitAt '/' rest).map (String.ofList <| unescape ·))
  | _ => none

/-- Walk down nested mappings. -/
def follow? : Value → List String → Option Value
  | v, [] => some v
  | .map members _, key :: keys =>
    match Members.get? key members with
    | some v => follow? v keys
    | none => none
  | _, _ :: _ => none

def resolve (root : Value) (ref : String) : Except Issue Value :=
  match keys? ref with
  | none => .error (.document (.remoteReference ref))
  | some keys =>
    match follow? root keys with
    | some v => .ok v
    | none => .error (.document (.unresolvable ref))

/-- Resolve what stands in a document as a reference. Only a text can be one. -/
def resolveValue (root : Value) : Value → Except Issue Value
  | .str ref => resolve root ref
  | .scalar (.bytes _) => .error (.misfit .wrongArgument)
  | _ => .error (.misfit .noMembers)

theorem unescape_cons {c : Char} (h : c ≠ '~') (cs : List Char) :
    unescape (c :: cs) = c :: unescape cs := by
  rw [unescape.eq_def]
  split <;> simp_all

@[simp] theorem unescape_escape (cs : List Char) : unescape (escape cs) = cs := by
  induction cs with
  | nil => rfl
  | cons c cs ih =>
    have tail : unescape (cs.flatMap escapeChar) = cs := ih
    by_cases ht : c = '~'
    · simp [escape, escapeChar, ht, unescape, tail]
    · by_cases hs : c = '/'
      · simp [escape, escapeChar, hs, unescape, tail]
      · simp [escape, escapeChar, ht, hs, unescape_cons ht, tail]

end ApiContract.Pointer
