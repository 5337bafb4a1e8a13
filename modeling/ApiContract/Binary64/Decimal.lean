import ApiContract.Binary64

/-!
The decimal spelling of a double precision number: the fewest digits that read back as the number,
and of those the nearest to it. A candidate is accepted only if it does read back, and the exact
expansion, which always does, stands behind the last one.
-/

namespace ApiContract.Binary64

/-- The `k` with `10 ^ (k - 1) ≤ num / den < 10 ^ k`, both positive. -/
def decimalExponent (num den : Nat) : Int :=
  if den ≤ num then decimalLength (num / den)
  else
    let below := (den - 1) / num
    1 - (decimalLength below : Int)

/-- `num / (den · 10 ^ e)` as a pair of naturals. -/
def decimalScaled (num den : Nat) (e : Int) : Nat × Nat :=
  if 0 ≤ e then (num, den * Nat.pow 10 e.toNat) else (num * Nat.pow 10 (-e).toNat, den)

/-- The grid points next to `num / den` among the multiples of `10 ^ e`, the nearer first; of two
equally near ones the even comes first. -/
def neighbours (num den : Nat) (e : Int) : List Nat :=
  let (n, d) := decimalScaled num den e
  let q := n / d
  if divNearest n d = q then [q, q + 1] else [q + 1, q]

/-- A decimal `digits · 10 ^ exponent`. -/
structure Decimal where
  digits : Nat
  exponent : Int
deriving Repr, DecidableEq

/-- The first neighbour on the grid of `count` digits that reads back as `± m · 2 ^ e`. -/
def decimalOf? (m : Nat) (e : Int) (count : Nat) : Option Decimal :=
  let (num, den) := ratio m e
  let grid := decimalExponent num den - count
  let fits := (neighbours num den grid).find? fun q =>
    ofDecimal false q grid == .finite false m e
  fits.map (⟨·, grid⟩)

/-- The exact decimal expansion of `m · 2 ^ e`. -/
def exactDecimal (m : Nat) (e : Int) : Decimal :=
  if 0 ≤ e then ⟨m * Nat.pow 2 e.toNat, 0⟩ else ⟨m * Nat.pow 5 (-e).toNat, e⟩

def shortestDecimal (m : Nat) (e : Int) : Decimal :=
  ((List.range 17).findSome? fun i => decimalOf? m e (i + 1)).getD (exactDecimal m e)

def dropTrailingZeros (digits : List Char) : List Char :=
  let kept := (digits.reverse.dropWhile (· == '0')).reverse
  if kept.isEmpty then ['0'] else kept

/-- An exponent with its sign and at least two digits. -/
def exponentText (e : Int) : String :=
  let digits := toString e.natAbs
  (if e < 0 then "-" else "+") ++ (if digits.length < 2 then "0" ++ digits else digits)

/-- Digits `d₁ d₂ …` with the point after the first `point` of them. Between the fourth place after
the point and the sixteenth before it all places are written out; further away an exponent is. -/
def placePoint (digits : List Char) (point : Int) : String :=
  if -4 < point ∧ point ≤ 16 then
    if point ≤ 0 then "0." ++ String.ofList (List.replicate (-point).toNat '0' ++ digits)
    else
      let p := point.toNat
      if digits.length ≤ p then
        String.ofList (digits ++ List.replicate (p - digits.length) '0') ++ ".0"
      else String.ofList (digits.take p) ++ "." ++ String.ofList (digits.drop p)
  else
    let rest := digits.drop 1
    let fraction := if rest.isEmpty then "" else "." ++ String.ofList rest
    String.ofList (digits.take 1) ++ fraction ++ "e" ++ exponentText (point - 1)

def magnitudeText (m : Nat) (e : Int) : String :=
  if m = 0 then "0.0"
  else
    let d := shortestDecimal m e
    let digits := Nat.toDigits 10 d.digits
    placePoint (dropTrailingZeros digits) (digits.length + d.exponent)

def text : Binary64 → String
  | .nan => "nan"
  | .infinite negative => if negative then "-inf" else "inf"
  | .finite negative m e => (if negative then "-" else "") ++ magnitudeText m e

/-! Reading. -/

/-- The value of a run of decimal digits. -/
def digitsValue (cs : List Char) : Nat :=
  cs.foldl (fun n c => 10 * n + (c.toNat - '0'.toNat)) 0

/-- A signed whole number at the end of an exponent. -/
def exponentValue? (cs : List Char) : Option Int :=
  let (negative, digits) : Bool × List Char :=
    match cs with
    | '-' :: r => (true, r)
    | '+' :: r => (false, r)
    | r => (false, r)
  if digits.isEmpty || !digits.all Char.isDigit then none
  else some (if negative then -(digitsValue digits : Int) else digitsValue digits)

/-- Digits with at most one point and an optional exponent. At least one digit stands beside the
point. -/
def unsigned? (negative : Bool) (cs : List Char) : Option Binary64 :=
  let whole := cs.takeWhile Char.isDigit
  let rest := cs.dropWhile Char.isDigit
  let (fraction, rest) : List Char × List Char :=
    match rest with
    | '.' :: r => (r.takeWhile Char.isDigit, r.dropWhile Char.isDigit)
    | r => ([], r)
  if whole.isEmpty && fraction.isEmpty then none
  else
    let shift? : Option Int :=
      match rest with
      | [] => some 0
      | c :: r => if c == 'e' || c == 'E' then exponentValue? r else none
    shift?.map fun shift =>
      ofDecimal negative (digitsValue (whole ++ fraction)) (shift - fraction.length)

/-- A decimal, or a name of infinity or of the number that is none, in either case. -/
def ofText? (cs : List Char) : Option Binary64 :=
  let (negative, body) : Bool × List Char :=
    match cs with
    | '-' :: r => (true, r)
    | '+' :: r => (false, r)
    | r => (false, r)
  let name := String.ofList (body.map Char.toLower)
  if name == "inf" || name == "infinity" then some (.infinite negative)
  else if name == "nan" then some .nan
  else unsigned? negative body

end ApiContract.Binary64
