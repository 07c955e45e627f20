/-!
Integers of 64 bits, with the powers that bound and scale numbers, and double-precision numbers as
64-bit patterns. A finite number is an integer multiple of `2^-1074`, so values are compared and
rounded as integers; every operation that rounds goes through `round`, nearest with ties to the even
significand. Patterns are kept as they come: two numbers are equal only if all 64 bits are, and an
invalid operation yields the quiet pattern with the sign set.
-/

namespace PropertyGraph

abbrev twoTo (n : Nat) : Nat := Nat.pow 2 n

abbrev tenTo (n : Nat) : Nat := Nat.pow 10 n

/-- The integer if it fits into 64 bits with a sign. -/
def int64? (i : Int) : Option Int64 :=
  if -(twoTo 63 : Int) ≤ i ∧ i < twoTo 63 then some (Int64.ofInt i) else none

def clampInt64 (i : Int) : Int64 :=
  if i < 0 then (int64? i).getD Int64.minValue else (int64? i).getD Int64.maxValue

structure Binary64 where
  bits : UInt64
deriving DecidableEq

namespace Binary64

/-- The pattern without its sign bit. -/
def magnitude (x : Binary64) : Nat := x.bits.toNat % twoTo 63

def negative (x : Binary64) : Bool := decide (twoTo 63 ≤ x.bits.toNat)

def infinityMagnitude : Nat := 2047 * twoTo 52

def isNaN (x : Binary64) : Bool := decide (infinityMagnitude < x.magnitude)

def isInfinite (x : Binary64) : Bool := x.magnitude == infinityMagnitude

def isFinite (x : Binary64) : Bool := decide (x.magnitude < infinityMagnitude)

def isZero (x : Binary64) : Bool := x.magnitude == 0

def ofMagnitude (negative : Bool) (magnitude : Nat) : Binary64 :=
  ⟨UInt64.ofNat ((if negative then twoTo 63 else 0) + magnitude)⟩

def infinity (negative : Bool) : Binary64 := ofMagnitude negative infinityMagnitude

def zero (negative : Bool) : Binary64 := ofMagnitude negative 0

/-- The quiet pattern read from the text `NaN`. -/
def nan : Binary64 := ofMagnitude false (infinityMagnitude + twoTo 51)

/-- The quiet pattern that an invalid operation produces. -/
def invalid : Binary64 := ofMagnitude true (infinityMagnitude + twoTo 51)

def neg (x : Binary64) : Binary64 := ofMagnitude (!x.negative) x.magnitude

def abs (x : Binary64) : Binary64 := ofMagnitude false x.magnitude

/-- Binary exponent above the smallest unit, for a finite number. -/
def unit (x : Binary64) : Nat := x.magnitude / twoTo 52 - 1

def significand (x : Binary64) : Nat :=
  if x.magnitude < twoTo 52 then x.magnitude else x.magnitude % twoTo 52 + twoTo 52

/-- `|x| * 2^1074` for a finite number. -/
def units (x : Binary64) : Nat := x.significand * twoTo x.unit

/-- `x * 2^1074` for a finite number. -/
def scaled (x : Binary64) : Int := if x.negative then -(x.units : Int) else x.units

/-- The quotient rounded to the nearest integer, a half to the even one. -/
def divNearest (numerator denominator : Nat) : Nat :=
  let quotient := numerator / denominator
  let doubled := 2 * (numerator % denominator)
  if doubled < denominator then quotient
  else if denominator < doubled then quotient + 1
  else quotient + quotient % 2

/-- The number nearest to `numerator / denominator * 2^-1074`, infinite beyond the range. -/
def round (negative : Bool) (numerator denominator : Nat) : Binary64 :=
  let whole := numerator / denominator
  let unit := Nat.log2 whole - 52
  let magnitude := unit * twoTo 52 + divNearest numerator (denominator * twoTo unit)
  ofMagnitude negative (min magnitude infinityMagnitude)

def roundInt (numerator : Int) (denominator : Nat) : Binary64 :=
  round (decide (numerator < 0)) numerator.natAbs denominator

def ofInt (i : Int) : Binary64 := roundInt (i * twoTo 1074) 1

/-- Integer part, toward zero, of a finite number. -/
def truncate (x : Binary64) : Int := x.scaled.tdiv (twoTo 1074)

/-- A key that orders all patterns: by value, `-0.0` below `0.0`, and what is no number outside. -/
def orderKey (x : Binary64) : Int :=
  if x.negative then -(x.magnitude : Int) - 1 else x.magnitude

def totalCompare (x y : Binary64) : Ordering := compare x.orderKey y.orderKey

/-- A key that orders numbers by value. -/
def valueKey (x : Binary64) : Int := if x.negative then -(x.magnitude : Int) else x.magnitude

/-- Order by value; absent when an operand is no number. -/
def partialCompare (x y : Binary64) : Option Ordering :=
  if x.isNaN || y.isNaN then none else some (compare x.valueKey y.valueKey)

end Binary64

end PropertyGraph
