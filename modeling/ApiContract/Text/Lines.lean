/-!
Lines of a text. A line ends at LF or at CR LF; a CR elsewhere is an ordinary character. Joining
puts a single LF between lines, so only the CR of line ends is lost.
-/

namespace ApiContract.Text

/-- Put `c` before the first line. -/
def extendFirst (c : Char) : List (List Char) → List (List Char)
  | [] => [[c]]
  | line :: lines => (c :: line) :: lines

def splitLines : List Char → List (List Char)
  | [] => [[]]
  | '\n' :: cs => [] :: splitLines cs
  | '\r' :: '\n' :: cs => [] :: splitLines cs
  | c :: cs => extendFirst c (splitLines cs)

def joinLines (lines : List (List Char)) : List Char := ['\n'].intercalate lines

/-- Cut at every `sep`; a text without one is one piece. -/
def splitAt (sep : Char) : List Char → List (List Char)
  | [] => [[]]
  | c :: cs => if c = sep then [] :: splitAt sep cs else extendFirst c (splitAt sep cs)

theorem splitAt_ne_nil (sep : Char) (cs : List Char) : splitAt sep cs ≠ [] := by
  induction cs with
  | nil => simp [splitAt]
  | cons c cs ih =>
    by_cases h : c = sep
    · simp [splitAt, h]
    · cases hs : splitAt sep cs with
      | nil => exact absurd hs ih
      | cons => simp [splitAt, h, hs, extendFirst]

/-- Cutting goes piece by piece: a separator parts what stands on its two sides. -/
theorem splitAt_append_cons (sep : Char) (as bs : List Char) :
    splitAt sep (as ++ sep :: bs) = splitAt sep as ++ splitAt sep bs := by
  induction as with
  | nil => simp [splitAt]
  | cons a as ih =>
    by_cases h : a = sep
    · simp [splitAt, h, ih]
    · cases hs : splitAt sep as with
      | nil => exact absurd hs (splitAt_ne_nil sep as)
      | cons => simp [splitAt, h, ih, hs, extendFirst]

/-- The pieces hold everything but the separators. -/
theorem flatten_splitAt (sep : Char) (cs : List Char) :
    (splitAt sep cs).flatten = cs.filter (· ≠ sep) := by
  induction cs with
  | nil => simp [splitAt]
  | cons c cs ih =>
    by_cases h : c = sep
    · simp [splitAt, h, ih]
    · cases hs : splitAt sep cs with
      | nil => exact absurd hs (splitAt_ne_nil sep cs)
      | cons piece pieces =>
        rw [hs, List.flatten_cons] at ih
        simp [splitAt, h, hs, extendFirst, ih]

end ApiContract.Text
