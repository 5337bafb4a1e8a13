/-!
Halves of surrogate pairs. An escape can put one into a text on its own, where it stands for no
character. Two characters hold it there: a mark, and a private character in the place of the half.
The mark is a code point that stands for no character either; two marks hold one of it. So a text
is a text like any other, and `points` finds the code points that went into it.
-/

namespace ApiContract.Text

def isHighHalf (n : Nat) : Bool := 0xD800 ≤ n && n < 0xDC00

def isLowHalf (n : Nat) : Bool := 0xDC00 ≤ n && n < 0xE000

def isHalf (n : Nat) : Bool := isHighHalf n || isLowHalf n

def heldMark : Char := '\uFFFF'

/-- The distance from a half to the private character in its place. -/
def halfShift : Nat := 0x800

/-- The characters that hold a code point. -/
def held (n : Nat) : List Char :=
  if isHalf n then [heldMark, Char.ofNat (n + halfShift)]
  else if n = heldMark.toNat then [heldMark, heldMark]
  else [Char.ofNat n]

/-- The half that a character after a mark stands for. -/
def half? (c : Char) : Option Nat :=
  let n := c.toNat - halfShift
  if isHalf n then some n else none

/-- The code points of a mark and the character after it. -/
def markedPoints (c : Char) : List Nat :=
  if c = heldMark then [heldMark.toNat]
  else match half? c with
    | some n => [n]
    | none => [heldMark.toNat, c.toNat]

/-- The code points of characters, a mark before them having been read or not. -/
def pointsAfter (marked : Bool) : List Char → List Nat
  | [] => if marked then [heldMark.toNat] else []
  | c :: cs =>
    if marked then markedPoints c ++ pointsAfter false cs
    else if c = heldMark then pointsAfter true cs
    else c.toNat :: pointsAfter false cs

/-- The code points that characters hold. -/
def points (cs : List Char) : List Nat := pointsAfter false cs

/-- Join each high half with the low one after it. -/
def joinHalves : List Nat → List Nat
  | [] => []
  | [n] => [n]
  | high :: low :: rest =>
    if isHighHalf high && isLowHalf low then
      (0x10000 + (high - 0xD800) * 0x400 + (low - 0xDC00)) :: joinHalves rest
    else high :: joinHalves (low :: rest)

def ofPoints (ns : List Nat) : String := String.ofList (ns.flatMap held)

def hasHalf (s : String) : Bool := (points s.toList).any isHalf

/-- A text in which every character stands for itself, if there can be such a one. -/
def plain? (s : String) : Option String :=
  let ns := points s.toList
  if ns.any isHalf then none else some (String.ofList (ns.map Char.ofNat))

/-- A text whose characters stand for themselves, as texts are held. -/
def ofPlain (s : String) : String := ofPoints (s.toList.map Char.toNat)

/-- The text that octets encode, if they encode one. No half has an encoding of its own. -/
def ofOctets? (octets : List UInt8) : Option String :=
  (String.fromUTF8? ⟨octets.toArray⟩).map ofPlain

/-- The halves that stand for one octet each in the name of a file. -/
def isOctetHalf (n : Nat) : Bool := 0xDC80 ≤ n && n ≤ 0xDCFF

theorem toNat_ofNat {n : Nat} (h : n.isValidChar) : (Char.ofNat n).toNat = n := by
  rw [Char.ofNat, dif_pos h]
  rfl

theorem half?_ofNat {n : Nat} (h : isHalf n = true) :
    half? (Char.ofNat (n + halfShift)) = some n := by
  have bounds : 0xD800 ≤ n ∧ n < 0xE000 := by
    simp only [isHalf, isHighHalf, isLowHalf, Bool.or_eq_true, Bool.and_eq_true,
      decide_eq_true_eq] at h
    omega
  have valid : (n + halfShift).isValidChar :=
    Or.inr ⟨by simp only [halfShift]; omega, by simp only [halfShift]; omega⟩
  simp [half?, toNat_ofNat valid, h]

/-- No character is a half. -/
theorem any_isHalf_map_toNat (cs : List Char) : (cs.map Char.toNat).any isHalf = false := by
  rw [List.any_map, List.any_eq_false]
  intro c _
  have hvalid : c.toNat < 0xD800 ∨ 0xDFFF < c.toNat ∧ c.toNat < 0x110000 := c.valid
  simp only [Function.comp_apply, isHalf, isHighHalf, isLowHalf, Bool.or_eq_true, Bool.and_eq_true,
    decide_eq_true_eq]
  omega

theorem map_ofNat_toNat (cs : List Char) : (cs.map Char.toNat).map Char.ofNat = cs := by
  rw [List.map_map]
  exact (List.map_congr_left fun c _ => Char.ofNat_toNat c).trans (List.map_id cs)

theorem half?_heldMark : half? heldMark = none := by decide

theorem points_cons {c : Char} (h : c ≠ heldMark) (cs : List Char) :
    points (c :: cs) = c.toNat :: points cs := by
  simp [points, pointsAfter, h]

/-- Without a mark, every character stands for itself. -/
theorem points_of_notMem {cs : List Char} (h : heldMark ∉ cs) : points cs = cs.map Char.toNat := by
  induction cs with
  | nil => rfl
  | cons c cs ih =>
    rw [List.mem_cons, not_or] at h
    rw [points_cons (Ne.symm h.1), ih h.2, List.map_cons]

theorem hasHalf_of_notMem {s : String} (h : heldMark ∉ s.toList) : hasHalf s = false := by
  rw [hasHalf, points_of_notMem h, any_isHalf_map_toNat]

theorem points_mark_cons (c : Char) (cs : List Char) :
    points (heldMark :: c :: cs) = markedPoints c ++ points cs := by
  simp [points, pointsAfter]

theorem markedPoints_half {n : Nat} (h : isHalf n = true) :
    markedPoints (Char.ofNat (n + halfShift)) = [n] := by
  have other : Char.ofNat (n + halfShift) ≠ heldMark := by
    intro same
    have found := half?_ofNat h
    rw [same, half?_heldMark] at found
    cases found
  rw [markedPoints, if_neg other, half?_ofNat h]

/-- What holds a code point is read back as that code point, whatever follows. -/
theorem points_held_append {n : Nat} (h : isHalf n = true ∨ n.isValidChar) (cs : List Char) :
    points (held n ++ cs) = n :: points cs := by
  unfold held
  split
  · next half =>
    rw [List.cons_append, List.singleton_append, points_mark_cons, markedPoints_half half]
    rfl
  · next notHalf =>
    split
    · next same =>
      rw [List.cons_append, List.singleton_append, points_mark_cons, markedPoints, if_pos rfl, same]
      rfl
    · next notMark =>
      have valid : n.isValidChar := h.resolve_left notHalf
      have other : Char.ofNat n ≠ heldMark := by
        intro same
        exact notMark (by rw [← same, toNat_ofNat valid])
      rw [List.singleton_append, points_cons other, toNat_ofNat valid]

/-- The code points of a text are those that it was made of. -/
theorem points_ofPoints {ns : List Nat} (h : ∀ n ∈ ns, isHalf n = true ∨ n.isValidChar) :
    points (ofPoints ns).toList = ns := by
  simp only [ofPoints, String.toList_ofList]
  induction ns with
  | nil => rfl
  | cons n ns ih =>
    rw [List.flatMap_cons, points_held_append (h n (by simp)), ih fun m hm => h m (by simp [hm])]

end ApiContract.Text
