import SearchQuery.Binary64

/-!
The decimal that stands for a 64-bit number in text: the fewest digits that read
back to it, and among those the ones nearest to it. The search goes through the
grids of one to seventeen digits. On each grid only the two neighbours of the number
can lie in its rounding interval, so those two are tested, in exact arithmetic.
-/
namespace SearchQuery.Binary64

/-- A positive decimal: its digits as a whole number times a power of ten. -/
structure Decimal where
  digits : Nat
  exponent : Int
deriving DecidableEq, Repr, Inhabited

def Decimal.quotient (d : Decimal) : Nat × Nat :=
  (d.digits * Nat.pow 10 d.exponent.toNat, Nat.pow 10 (-d.exponent).toNat)

/-- The gap below a power of two is half the gap above it, except at the bottom. -/
def narrowBelow (x : Binary64) : Bool :=
  x.magnitude % Nat.pow 2 52 == 0 && Nat.pow 2 53 ≤ x.magnitude

/-- Whether a decimal lies in the interval of reals that round to x. The ends are
halfway to the neighbours and belong to it exactly if the significand is even. -/
def readsBack (x : Binary64) (d : Decimal) : Bool :=
  let low := 4 * x.significand - (if x.narrowBelow then 1 else 2)
  let high := 4 * x.significand + 2
  let up := (x.exponent - 2).toNat
  let down := (2 - x.exponent).toNat
  let point := d.quotient.1 * Nat.pow 2 down
  let lowEnd := low * Nat.pow 2 up * d.quotient.2
  let highEnd := high * Nat.pow 2 up * d.quotient.2
  if x.significand % 2 == 0 then lowEnd ≤ point && point ≤ highEnd
  else lowEnd < point && point < highEnd

def belowPower (x : Binary64) (power : Int) : Bool :=
  x.quotient.1 * Nat.pow 10 (-power).toNat < x.quotient.2 * Nat.pow 10 power.toNat

/-- The least power of ten above a positive magnitude. The estimate from the binary
logarithm is at most one too small. -/
def decimalScale (x : Binary64) : Int :=
  let guess := ((x.significand.log2 : Int) + x.exponent) * 30103 / 100000
  if x.belowPower guess then guess
  else if x.belowPower (guess + 1) then guess + 1
  else guess + 2

/-- The shortest-digits choice on one grid: of the two neighbours of x on it the one
that reads back, of two that do the nearer, and at equal distance the even one. -/
def onGrid? (x : Binary64) (power : Int) : Option Decimal :=
  let num := x.quotient.1 * Nat.pow 10 (-power).toNat
  let den := x.quotient.2 * Nat.pow 10 power.toNat
  let below : Decimal := ⟨num / den, power⟩
  let above : Decimal := ⟨num / den + 1, power⟩
  match x.readsBack below, x.readsBack above with
  | true, true => some ⟨roundQuotient num den, power⟩
  | true, false => some below
  | false, true => some above
  | false, false => none

/-- Ten on the grid of one digit is one digit on the next. -/
def Decimal.stripped (d : Decimal) : Decimal :=
  if d.digits % 10 = 0 then ⟨d.digits / 10, d.exponent + 1⟩ else d

/-- The exact value of x, which no finite number needs. -/
def exactDecimal (x : Binary64) : Decimal :=
  ⟨x.significand * Nat.pow 2 x.exponent.toNat * Nat.pow 5 (-x.exponent).toNat, min x.exponent 0⟩

def shortest (x : Binary64) : Decimal :=
  let scale := x.decimalScale
  let grids := (List.range 17).map fun (n : Nat) => scale - 1 - (n : Int)
  ((grids.findSome? x.onGrid?).getD x.exactDecimal).stripped

end SearchQuery.Binary64
