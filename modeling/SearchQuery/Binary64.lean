/-!
Numbers of the 64-bit binary floating-point format, held as their bit patterns.
A finite number is a signed significand times a power of two. The only arithmetic
is one correctly rounded step: the number nearest to a quotient of naturals, with
halves going to the even neighbour. Products and quotients of finite numbers are
that step applied to exact quotients.
-/
namespace SearchQuery

structure Binary64 where
  bits : UInt64
deriving DecidableEq, Repr, Inhabited

namespace Binary64

def negative (x : Binary64) : Bool := Nat.pow 2 63 ≤ x.bits.toNat

/-- The bits below the sign. Larger magnitudes have larger patterns. -/
def magnitude (x : Binary64) : Nat := x.bits.toNat % Nat.pow 2 63

/-- The magnitude pattern of infinity; the patterns above it are not numbers. -/
def infinity : Nat := 2047 * Nat.pow 2 52

def isFinite (x : Binary64) : Bool := x.magnitude < infinity

def isZero (x : Binary64) : Bool := x.magnitude == 0

def ofMagnitude (negative : Bool) (magnitude : Nat) : Binary64 :=
  ⟨UInt64.ofNat ((if negative then Nat.pow 2 63 else 0) + magnitude)⟩

/-- The whole number m of a finite magnitude m * 2 ^ q. -/
def significand (x : Binary64) : Nat :=
  if x.magnitude < Nat.pow 2 52 then x.magnitude else Nat.pow 2 52 + x.magnitude % Nat.pow 2 52

def exponent (x : Binary64) : Int := (max (x.magnitude / Nat.pow 2 52) 1 : Nat) - 1075

def quotient (x : Binary64) : Nat × Nat :=
  (x.significand * Nat.pow 2 x.exponent.toNat, Nat.pow 2 (-x.exponent).toNat)

/-- Equality as numbers: the two zeros are equal. -/
def sameNumber (x y : Binary64) : Bool := x == y || (x.isZero && y.isZero)

/-- A quotient rounded to a whole number, halves to the even neighbour. -/
def roundQuotient (num den : Nat) : Nat :=
  let whole := num / den
  let rest := num % den
  if 2 * rest < den then whole
  else if den < 2 * rest then whole + 1
  else whole + whole % 2

def floorLog2 (num den : Nat) : Int :=
  let guess : Int := (num.log2 : Int) - den.log2
  if den * Nat.pow 2 guess.toNat ≤ num * Nat.pow 2 (-guess).toNat then guess else guess - 1

/-- The magnitude pattern nearest to a positive quotient. A significand that rounds up
to 2 ^ 53 carries into the next power, and from the last power into infinity. -/
def nearestMagnitude (num den : Nat) : Nat :=
  let power := max (floorLog2 num den - 52) (-1074)
  let rounded := roundQuotient (num * Nat.pow 2 (-power).toNat) (den * Nat.pow 2 power.toNat)
  min ((power + 1074).toNat * Nat.pow 2 52 + rounded) infinity

def nearest (negative : Bool) (num den : Nat) : Binary64 :=
  ofMagnitude negative (if num = 0 then 0 else nearestMagnitude num den)

def mul (x y : Binary64) : Binary64 :=
  nearest false (x.quotient.1 * y.quotient.1) (x.quotient.2 * y.quotient.2)

def div (x y : Binary64) : Binary64 :=
  nearest false (x.quotient.1 * y.quotient.2) (x.quotient.2 * y.quotient.1)

end Binary64

end SearchQuery
