/-!
Blank characters and trimming. `isSpace` is the white space property of the Unicode character
database; `isBlank` adds the four information separators, which also part words.
-/

namespace ApiContract.Text

def isSpace (c : Char) : Bool :=
  let n := c.toNat
  (9 ≤ n && n ≤ 13) || n == 0x20 || n == 0x85 || n == 0xA0 || n == 0x1680 ||
    (0x2000 ≤ n && n ≤ 0x200A) || n == 0x2028 || n == 0x2029 || n == 0x202F || n == 0x205F ||
    n == 0x3000

def isBlank (c : Char) : Bool :=
  isSpace c || (28 ≤ c.toNat && c.toNat ≤ 31)

/-- Cut off the longest run at either end whose characters all satisfy `p`. -/
def stripWhere (p : Char → Bool) (cs : List Char) : List Char :=
  ((cs.dropWhile p).reverse.dropWhile p).reverse

def strip (cs : List Char) : List Char := stripWhere isBlank cs

def stripStart (cs : List Char) : List Char := cs.dropWhile isBlank

def allBlank (cs : List Char) : Bool := cs.all isBlank

theorem stripStart_eq_nil_iff (cs : List Char) : stripStart cs = [] ↔ allBlank cs = true := by
  induction cs with
  | nil => simp [stripStart, allBlank]
  | cons c cs ih =>
    by_cases h : isBlank c = true
    · have skip : stripStart (c :: cs) = stripStart cs := by simp [stripStart, h]
      rw [skip, ih]
      simp [allBlank, h]
    · simp [stripStart, allBlank, h]

end ApiContract.Text
