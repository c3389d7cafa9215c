/-!
# Doubles

Binary floating-point numbers of 64 bits, as their words.  Values are compared exactly, as fractions
of integers, and a fraction is rounded to the nearest double with ties to the even one.
-/

namespace ScriptGraph

/-- A double, given by its word: one bit of sign, eleven of exponent, fifty-two of fraction. -/
structure Double where
  word : UInt64
deriving DecidableEq, Repr

namespace Double

def isNegative (x : Double) : Bool := 0x8000000000000000 ≤ x.word.toNat

def exponentField (x : Double) : Nat := x.word.toNat / 0x10000000000000 % 0x800

def fractionField (x : Double) : Nat := x.word.toNat % 0x10000000000000

def isFinite (x : Double) : Bool := x.exponentField < 2047

def isNaN (x : Double) : Bool := x.exponentField == 2047 && x.fractionField != 0

/-- The integer `m` of a finite value `± m * 2 ^ q`. -/
def significand (x : Double) : Nat :=
  if x.exponentField = 0 then x.fractionField else 0x10000000000000 + x.fractionField

/-- The power `q` of a finite value `± m * 2 ^ q`. -/
def power (x : Double) : Int := (max x.exponentField 1 : Nat) - 1075

def magnitude (x : Double) : Nat × Nat :=
  if 0 ≤ x.power then (x.significand * Nat.pow 2 x.power.toNat, 1)
  else (x.significand, Nat.pow 2 (-x.power).toNat)

/-- The quotient of two naturals, rounded to the nearest integer and to the even one of two. -/
def roundDiv (num den : Nat) : Nat :=
  let q := num / den
  let r := num % den
  if 2 * r > den || (2 * r == den && q % 2 == 1) then q + 1 else q

/-- `num / den` times the given power of two, as a fraction. -/
def scale (num den : Nat) (power : Int) : Nat × Nat :=
  if 0 ≤ power then (num * Nat.pow 2 power.toNat, den)
  else (num, den * Nat.pow 2 (-power).toNat)

/-- The double nearest to a fraction. -/
def ofFraction (negative : Bool) (num den : Nat) : Double :=
  let sign := if negative then 0x8000000000000000 else 0
  if num = 0 || den = 0 then ⟨UInt64.ofNat sign⟩
  else
    -- the value lies between `2 ^ (e - 1)` and `2 ^ (e + 1)`
    let e : Int := (num.log2 : Int) - den.log2
    let guess := scale num den (52 - e)
    let q := max (if guess.1 / guess.2 < 0x10000000000000 then e - 53 else e - 52) (-1074)
    let scaled := scale num den (-q)
    let word := (q + 1074).toNat * 0x10000000000000 + roundDiv scaled.1 scaled.2
    ⟨UInt64.ofNat (sign + min word (2047 * 0x10000000000000))⟩

def ofRatio (num : Int) (den : Nat) : Double := ofFraction (num < 0) num.natAbs den

def eqInt (x : Double) (n : Int) : Bool :=
  x.isFinite &&
    let (num, den) := x.magnitude
    num == n.natAbs * den && (n == 0 || x.isNegative == decide (n < 0))

def integer? (x : Double) : Option Int :=
  let (num, den) := x.magnitude
  if x.isFinite && num % den == 0 then
    some (if x.isNegative then Int.negOfNat (num / den) else Int.ofNat (num / den))
  else none

/-- Equality of values: both zeros are equal, and a NaN differs from everything. -/
def eqValue (x y : Double) : Bool :=
  !x.isNaN && (x == y || (x.isFinite && y.isFinite && x.significand == 0 && y.significand == 0))

def isPositive (x : Double) : Bool := !x.isNaN && !x.isNegative && x.word != 0

end Double

end ScriptGraph
