import EntityQuery.Number.Rounding
/-!
Binary floating-point numbers of 64 bits, held as their bit pattern and computed with exact integer
arithmetic only: a finite number is a sign, a significand and a power of two, and every finite
number is an integer multiple of the smallest positive one.
-/
namespace EntityQuery

/-- A number of the 64-bit binary format, as its bits. -/
structure Double where
  bits : Nat
  deriving DecidableEq, Repr

namespace Double

/-- The stored fraction, 52 bits. -/
def fraction (x : Double) : Nat := x.bits % Nat.pow 2 52

/-- The stored exponent, 11 bits. -/
def exponent (x : Double) : Nat := x.bits / Nat.pow 2 52 % Nat.pow 2 11

def negative (x : Double) : Bool := decide (Nat.pow 2 63 ≤ x.bits)

def isNaN (x : Double) : Bool := decide (x.exponent = 2047 ∧ x.fraction ≠ 0)

def isInfinite (x : Double) : Bool := decide (x.exponent = 2047 ∧ x.fraction = 0)

def isFinite (x : Double) : Bool := decide (x.exponent ≠ 2047)

/-- The significand `m` and the power `k` of a finite number; its size is `m * 2 ^ k / 2 ^ 1074`. -/
def parts (x : Double) : Nat × Nat :=
  if x.exponent = 0 then (x.fraction, 0) else (Nat.pow 2 52 + x.fraction, x.exponent - 1)

/-- The size of a finite number, in units of the smallest positive one. -/
def size (x : Double) : Nat := x.parts.1 * Nat.pow 2 x.parts.2

/-- The value of a finite number, in units of the smallest positive one. -/
def units (x : Double) : Int := if x.negative then -(x.size : Int) else x.size

/-- How many units make one. -/
def unitsPerOne : Nat := Nat.pow 2 1074

def isZero (x : Double) : Bool := decide (x.isFinite ∧ x.size = 0)

def nan : Double := ⟨2047 * Nat.pow 2 52 + Nat.pow 2 51⟩

/-- The sign bit before a size pattern. -/
def signed (minus : Bool) (pattern : Nat) : Double :=
  ⟨if minus then Nat.pow 2 63 + pattern else pattern⟩

def infinity (minus : Bool) : Double := signed minus (2047 * Nat.pow 2 52)

def zero (minus : Bool) : Double := signed minus 0

/-- The power `k` for which `num / den`, in units, has its last significand bit at `2 ^ k`. -/
def powerFor (num den : Nat) : Nat :=
  let scaled := num * unitsPerOne / den
  if scaled < Nat.pow 2 53 then 0 else Nat.log2 scaled - 52

/-- The bit pattern of the number nearest to `num / den`, a tie to the even significand; it may
reach past the largest finite pattern. -/
def nearestPattern (num den : Nat) : Nat :=
  let k := powerFor num den
  k * Nat.pow 2 52 + Number.divToEven (num * unitsPerOne) (den * Nat.pow 2 k)

/-- The number nearest to a quotient; none when it is beyond the finite numbers. -/
def ofRatio? (minus : Bool) (num den : Nat) : Option Double :=
  let pattern := nearestPattern num den
  if pattern < 2047 * Nat.pow 2 52 then some (signed minus pattern) else none

/-- The number nearest to a quotient, infinite beyond the finite numbers. -/
def ofRatio (minus : Bool) (num den : Nat) : Double :=
  (ofRatio? minus num den).getD (infinity minus)

/-- The number nearest to `digits * 10 ^ power`. -/
def ofDecimal (minus : Bool) (digits : Nat) (power : Int) : Double :=
  if 0 ≤ power then ofRatio minus (digits * Nat.pow 10 power.toNat) 1
  else ofRatio minus digits (Nat.pow 10 (-power).toNat)

/-- The number nearest to an integer; none when it is beyond the finite numbers. -/
def ofInt? (n : Int) : Option Double := ofRatio? (decide (n < 0)) n.natAbs 1

/-- Order of two numbers that are not NaN; the two zeros are equal. -/
def compareFinite (x y : Double) : Ordering := compare x.units y.units

/-- The place of a number among negative infinity, the finite numbers and infinity. -/
def rank (x : Double) : Int := if x.isInfinite then (if x.negative then -1 else 1) else 0

/-- Order of two numbers; a NaN is beside no number and before none. -/
def compare? (x y : Double) : Option Ordering :=
  if x.isNaN || y.isNaN then none
  else if x.rank = y.rank then
    some (if x.rank = 0 then compareFinite x y else .eq)
  else some (compare x.rank y.rank)

/-- Order of a number and an integer. -/
def compareInt? (x : Double) (n : Int) : Option Ordering :=
  if x.isNaN then none
  else if x.rank = 0 then some (compare x.units (n * unitsPerOne))
  else some (compare x.rank 0)

/-- The integer that a finite number without fractional part is. -/
def toInt? (x : Double) : Option Int :=
  if x.isFinite && decide (x.size % unitsPerOne = 0) then
    let n : Nat := x.size / unitsPerOne
    some (if x.negative then -(n : Int) else n)
  else none

/-- The integer part of a finite number, toward zero. -/
def truncate (x : Double) : Int :=
  if x.negative then -((x.size / unitsPerOne : Nat) : Int) else (x.size / unitsPerOne : Nat)

/-- The least integer not below a finite number. -/
def ceil (x : Double) : Int :=
  if x.negative then -((x.size / unitsPerOne : Nat) : Int)
  else ((x.size + (unitsPerOne - 1)) / unitsPerOne : Nat)

end Double
end EntityQuery
