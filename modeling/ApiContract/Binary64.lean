/-!
Double precision numbers as mantissa and exponent. Rounding a quotient of naturals to the nearest
number, ties to the even mantissa, is the one source of finite numbers; sums, products and readings
of decimals are exact quotients that are rounded once.
-/

namespace ApiContract

/-- A finite number is `± mantissa · 2 ^ exponent`. -/
inductive Binary64 where
  | nan
  | infinite (negative : Bool)
  | finite (negative : Bool) (mantissa : Nat) (exponent : Int)
deriving Repr, DecidableEq

namespace Binary64

def minExponent : Int := -1074

def maxExponent : Int := 971

/-- The exponent of zero is the least one. -/
def zero (negative : Bool) : Binary64 := .finite negative 0 minExponent

/-- `num / den` to the nearest natural, a half to the even neighbour. -/
def divNearest (num den : Nat) : Nat :=
  let q := num / den
  let r := num % den
  if den < 2 * r ∨ (den = 2 * r ∧ q % 2 = 1) then q + 1 else q

/-- The quotient `num / (den · 2 ^ e)` as a pair of naturals. -/
def scaled (num den : Nat) (e : Int) : Nat × Nat :=
  if 0 ≤ e then (num, den * Nat.pow 2 e.toNat) else (num * Nat.pow 2 (-e).toNat, den)

/-- The `e` with `2 ^ e ≤ num / den < 2 ^ (e + 1)`, both positive. -/
def binaryExponent (num den : Nat) : Int :=
  let e : Int := (num.log2 : Int) - (den.log2 : Int)
  let (n, d) := scaled num den e
  if n < d then e - 1 else e

/-- The number nearest to `± num / den`. -/
def ofRatio (negative : Bool) (num den : Nat) : Binary64 :=
  if num = 0 ∨ den = 0 then zero negative
  else
    let e := max minExponent (binaryExponent num den - 52)
    let (n, d) := scaled num den e
    let m := divNearest n d
    let (m, e) := if m = Nat.pow 2 53 then (Nat.pow 2 52, e + 1) else (m, e)
    if m = 0 then zero negative
    else if maxExponent < e then .infinite negative
    else .finite negative m e

def decimalLength (n : Nat) : Nat := (Nat.toDigits 10 n).length

/-- The number nearest to `± digits · 10 ^ exponent`. Decimals far beyond either end of the range
are decided by their length alone. -/
def ofDecimal (negative : Bool) (digits : Nat) (exponent : Int) : Binary64 :=
  if digits = 0 then zero negative
  else
    let top := exponent + decimalLength digits
    if 310 < top then .infinite negative
    else if top < -330 then zero negative
    else if 0 ≤ exponent then ofRatio negative (digits * Nat.pow 10 exponent.toNat) 1
    else ofRatio negative digits (Nat.pow 10 (-exponent).toNat)

def ofInt (n : Int) : Binary64 := ofRatio (n < 0) n.natAbs 1

def isFinite : Binary64 → Bool
  | .finite .. => true
  | _ => false

def isNegative : Binary64 → Bool
  | .nan => false
  | .infinite n => n
  | .finite n _ _ => n

def isZero : Binary64 → Bool
  | .finite _ m _ => m == 0
  | _ => false

/-- The magnitude of a finite number as an exact quotient. -/
def ratio (mantissa : Nat) (exponent : Int) : Nat × Nat :=
  if 0 ≤ exponent then (mantissa * Nat.pow 2 exponent.toNat, 1)
  else (mantissa, Nat.pow 2 (-exponent).toNat)

/-- The integer that a finite number equals, if it equals one. -/
def toInt? : Binary64 → Option Int
  | .finite negative m e =>
    let (n, d) := ratio m e
    if n % d = 0 then
      some (if negative then -((n / d : Nat) : Int) else ((n / d : Nat) : Int))
    else none
  | _ => none

def negate : Binary64 → Binary64
  | .nan => .nan
  | .infinite n => .infinite !n
  | .finite n m e => .finite (!n) m e

/-- A finite number as a signed multiple of `2 ^ minExponent`. -/
def units (negative : Bool) (m : Nat) (e : Int) : Int :=
  let n : Int := (m * Nat.pow 2 (e - minExponent).toNat : Nat)
  if negative then -n else n

/-- The sum of two numbers, rounded once; a sum of zero keeps a minus sign only if both have it. -/
def add : Binary64 → Binary64 → Binary64
  | .finite n₁ m₁ e₁, .finite n₂ m₂ e₂ =>
    let sum := units n₁ m₁ e₁ + units n₂ m₂ e₂
    if sum = 0 then zero (n₁ && n₂)
    else ofRatio (sum < 0) sum.natAbs (Nat.pow 2 (-minExponent).toNat)
  | .infinite n₁, .infinite n₂ => if n₁ = n₂ then .infinite n₁ else .nan
  | .nan, _ => .nan
  | _, .nan => .nan
  | .infinite n, _ => .infinite n
  | _, .infinite n => .infinite n

/-- The product of two numbers, rounded once. -/
def mul : Binary64 → Binary64 → Binary64
  | .finite n₁ m₁ e₁, .finite n₂ m₂ e₂ =>
    let (num₁, den₁) := ratio m₁ e₁
    let (num₂, den₂) := ratio m₂ e₂
    ofRatio (n₁ != n₂) (num₁ * num₂) (den₁ * den₂)
  | .nan, _ => .nan
  | _, .nan => .nan
  | x, y => if x.isZero || y.isZero then .nan else .infinite (x.isNegative != y.isNegative)

end Binary64

end ApiContract
