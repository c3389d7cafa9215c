import ScriptGraph.Number.Double

/-!
# Shortest decimals

A finite double is written with the fewest digits that read back as the same double, and of these
decimals with the nearest one.  Where the point stands and when an exponent is written is a matter
of the format.
-/

namespace ScriptGraph

/-- A positive decimal `0.d₁d₂… * 10 ^ point`. -/
structure Decimal where
  digits : Nat
  point : Int
deriving Repr

namespace Double

/-- `a / b < c / d` for fractions with positive denominators. -/
def ltFraction (a c : Nat × Nat) : Bool := a.1 * c.2 < c.1 * a.2

def countDigits (n : Nat) : Nat := (Nat.toDigits 10 n).length

/-- `digits * 10 ^ power` as a fraction. -/
def decimalFraction (digits : Nat) (power : Int) : Nat × Nat :=
  if 0 ≤ power then (digits * Nat.pow 10 power.toNat, 1)
  else (digits, Nat.pow 10 (-power).toNat)

def distance (a b : Nat × Nat) : Nat × Nat :=
  let x := a.1 * b.2
  let y := b.1 * a.2
  (if x < y then y - x else x - y, a.2 * b.2)

/-- The power of ten just above a positive magnitude. -/
def decimalPoint (x : Double) : Int :=
  let (num, den) := x.magnitude
  let whole := num / den
  if 0 < whole then countDigits whole
  else Int.negOfNat (((List.range 400).find? fun k => den ≤ num * Nat.pow 10 (k + 1)).getD 0)

/-- The nearest decimal with the given number of digits that reads back as `x`, if there is one. -/
def nearestWith (x : Double) (digits : Nat) : Option Decimal :=
  let value := x.magnitude
  let point := x.decimalPoint
  let power := point - digits
  let grid := decimalFraction 1 power
  let below := value.1 * grid.2 / (value.2 * grid.1)
  let readsBack (n : Nat) :=
    let read := decimalFraction n power
    n != 0 && ofFraction false read.1 read.2 == ofFraction false value.1 value.2
  let good := [below, below + 1].filter readsBack
  match good with
  | [] => none
  | [n] => some ⟨n, power⟩
  | n :: m :: _ =>
      let dn := distance (decimalFraction n power) value
      let dm := distance (decimalFraction m power) value
      if ltFraction dn dm then some ⟨n, power⟩
      else if ltFraction dm dn then some ⟨m, power⟩
      else some ⟨if n % 2 == 0 then n else m, power⟩

/-- The digits of the shortest decimal of a finite double other than zero, without zeros at the
end, and the place of the point after them. -/
def shortest (x : Double) : List Char × Int :=
  let found := (List.range 17).findSome? fun k => x.nearestWith (k + 1)
  match found with
  | none => (['0'], 1)
  | some d =>
      let digits := Nat.toDigits 10 d.digits
      let trimmed := (digits.reverse.dropWhile (· == '0')).reverse
      (trimmed, d.point + digits.length)

structure Format where
  /-- The least place of the point that is written without an exponent. -/
  least : Int
  /-- The greatest place of the point that is written without an exponent. -/
  greatest : Int
  exponent : Int → String
  nan : String
  /-- The text of an infinity, given whether it lies below zero. -/
  infinity : Bool → String

/-- The digits with a point among them; there is a digit on either side of the point. -/
def positional (digits : List Char) (point : Int) : String :=
  if point ≤ 0 then "0." ++ String.ofList (List.replicate (-point).toNat '0' ++ digits)
  else
    let whole := digits.take point.toNat
    let zeros := List.replicate (point.toNat - digits.length) '0'
    let fraction := digits.drop point.toNat
    String.ofList (whole ++ zeros) ++ "." ++
      (if fraction.isEmpty then "0" else String.ofList fraction)

/-- The digits with a point after the first of them, and an exponent. -/
def scientific (format : Format) (digits : List Char) (point : Int) : String :=
  let fraction := digits.drop 1
  String.ofList (digits.take 1) ++
    (if fraction.isEmpty then "" else "." ++ String.ofList fraction) ++ format.exponent (point - 1)

def render (format : Format) (x : Double) : String :=
  let sign := if x.isNegative then "-" else ""
  if x.isNaN then format.nan
  else if !x.isFinite then format.infinity x.isNegative
  else if x.significand == 0 then sign ++ "0.0"
  else
    let (digits, point) := x.shortest
    sign ++ if format.least ≤ point && point ≤ format.greatest then positional digits point
      else scientific format digits point

end Double

end ScriptGraph
