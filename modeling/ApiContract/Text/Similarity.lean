/-!
How alike two words are: twice the characters they share in order, over the characters of both. The
shared characters are those of the longest common run, and of what lies before it and behind it in
both words.
-/

namespace ApiContract.Text

def commonStart : List Char → List Char → Nat
  | a :: as, b :: bs => if a = b then commonStart as bs + 1 else 0
  | _, _ => 0

/-- A run that two words have in common: where it starts in each, and its length. -/
structure SharedRun where
  left : Nat
  right : Nat
  size : Nat
deriving Repr, DecidableEq

/-- The first of the longest common runs. -/
def longestRun (as bs : List Char) : SharedRun :=
  let starts := (List.range as.length).flatMap fun i => (List.range bs.length).map (i, ·)
  starts.foldl (fun best p =>
    let n := commonStart (as.drop p.1) (bs.drop p.2)
    if best.size < n then ⟨p.1, p.2, n⟩ else best) ⟨0, 0, 0⟩

/-- Each run is at least one character, so the length of the first word bounds the depth. -/
def sharedWithin : Nat → List Char → List Char → Nat
  | 0, _, _ => 0
  | fuel + 1, as, bs =>
    let run := longestRun as bs
    if run.size = 0 then 0
    else
      run.size + sharedWithin fuel (as.take run.left) (bs.take run.right) +
        sharedWithin fuel (as.drop (run.left + run.size)) (bs.drop (run.right + run.size))

def shared (as bs : List Char) : Nat := sharedWithin (as.length + 1) as bs

/-- A likeness as a fraction. -/
structure Likeness where
  twice : Nat
  total : Nat
deriving Repr, DecidableEq

def likeness (a b : String) : Likeness := ⟨2 * shared a.toList b.toList, a.length + b.length⟩

/-- At least three fifths. -/
def Likeness.isClose (l : Likeness) : Bool := 3 * l.total ≤ 5 * l.twice

def Likeness.isBelow (l m : Likeness) : Bool := l.twice * m.total < m.twice * l.total

/-- Put a word before all that are less alike; of equally alike ones the greater goes first. -/
def insertRanked (x : Likeness × String) : List (Likeness × String) → List (Likeness × String)
  | [] => [x]
  | y :: ys =>
    if y.1.isBelow x.1 || (!x.1.isBelow y.1 && y.2 < x.2) then x :: y :: ys
    else y :: insertRanked x ys

/-- The three choices most like a word, those that are close at all. -/
def closeMatches (word : String) (choices : List String) : List String :=
  let ranked := (choices.map fun c => (likeness c word, c)).filter (·.1.isClose)
  ((ranked.foldr insertRanked []).take 3).map (·.2)

end ApiContract.Text
