import SearchQuery.Binary64

/-!
Numbers as they are written in digits, and the two ways of giving a written decimal
its 64-bit value. Configuration text takes the nearest number. Interchange text takes
a rounded path instead: the leading digits that fit 64 bits, as a number, times a
power of ten, as a number.
-/
namespace SearchQuery

def digitValue? (c : Char) : Option Nat :=
  if '0' ≤ c ∧ c ≤ '9' then some (c.toNat - '0'.toNat)
  else if 'a' ≤ c ∧ c ≤ 'f' then some (c.toNat - 'a'.toNat + 10)
  else if 'A' ≤ c ∧ c ≤ 'F' then some (c.toNat - 'A'.toNat + 10)
  else none

def isDigitOf (base : Nat) (c : Char) : Bool :=
  (digitValue? c).any (· < base)

def valueOfDigits (base : Nat) (digits : List Char) : Nat :=
  digits.foldl (fun n c => n * base + (digitValue? c).getD 0) 0

/-- A decimal number as written: digits before and after the point, and a power of ten.
The point and the power may be missing, which is what makes a number a whole one. -/
structure Numeral where
  negative : Bool := false
  whole : List Char
  fraction : Option (List Char) := none
  power : Option Int := none
deriving DecidableEq, Repr, Inhabited

namespace Numeral

def isWhole (n : Numeral) : Bool := n.fraction.isNone && n.power.isNone

def wholeValue (n : Numeral) : Nat := valueOfDigits 10 n.whole

/-- The number nearest to a decimal, or infinity. Powers that leave every 64-bit number
far behind are settled without writing them out. -/
def nearest (n : Numeral) : Binary64 :=
  let fraction := n.fraction.getD []
  let digits := valueOfDigits 10 (n.whole ++ fraction)
  let power := n.power.getD 0 - fraction.length
  let size : Int := (Nat.toDigits 10 digits).length + power
  if digits = 0 ∨ size < -400 then Binary64.ofMagnitude n.negative 0
  else if 400 < size then Binary64.ofMagnitude n.negative Binary64.infinity
  else Binary64.nearest n.negative (digits * Nat.pow 10 power.toNat) (Nat.pow 10 (-power).toNat)

/-- Takes digits into a number as long as it fits 64 bits; the digits left over follow. -/
def absorb (n : Nat) : List Char → Nat × List Char
  | [] => (n, [])
  | c :: rest =>
    let next := n * 10 + (digitValue? c).getD 0
    if next < Nat.pow 2 64 then absorb next rest else (n, c :: rest)

def powerOfTen (power : Nat) : Binary64 := Binary64.nearest false (Nat.pow 10 power) 1

def scaleDown (x : Binary64) (power : Nat) : Binary64 :=
  if x.isZero then x
  else if power ≤ 308 then x.div (powerOfTen power)
  else scaleDown (x.div (powerOfTen 308)) (power - 308)
termination_by power

def scale? (x : Binary64) (power : Int) : Option Binary64 :=
  if power < 0 then some (scaleDown x power.natAbs)
  else if 308 < power then if x.isZero then some x else none
  else
    let scaled := x.mul (powerOfTen power.toNat)
    if scaled.isFinite then some scaled else none

/-- The number that interchange text gives a decimal; none beyond the finite numbers.
Whole digits that no longer fit 64 bits count as zeros; fraction digits that do not
fit are dropped. -/
def stepwise? (n : Numeral) : Option Binary64 :=
  let fraction := n.fraction.getD []
  let (leading, dropped) := absorb 0 n.whole
  let (digits, unread) := absorb leading fraction
  let power := n.power.getD 0 + dropped.length - (fraction.length - unread.length : Nat)
  (scale? (Binary64.nearest false digits 1) power).map fun x =>
    Binary64.ofMagnitude n.negative x.magnitude

end Numeral

end SearchQuery
