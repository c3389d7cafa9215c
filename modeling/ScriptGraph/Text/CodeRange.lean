/-!
# Tables of code points

Properties of characters beyond ASCII are tables: ascending ranges for a class, runs with a common
shift for a change of case.
-/

namespace ScriptGraph.Text

/-- Membership in ascending, disjoint ranges of code points. -/
def inRanges : List (Nat × Nat) → Nat → Bool
  | [], _ => false
  | (first, last) :: later, n =>
      if n < first then false else n ≤ last || inRanges later n

/-- The characters `first, first + step, …, last`, all of which change case by adding `shift`. -/
structure CaseRun where
  first : Nat
  last : Nat
  step : Nat
  shift : Int

/-- The code point that `n` changes to, if a run holds it.  Runs ascend by their first member. -/
def shiftCase? : List CaseRun → Nat → Option Nat
  | [], _ => none
  | run :: later, n =>
      if n < run.first then none
      else if n ≤ run.last && (n - run.first) % run.step == 0 then some (n + run.shift).toNat
      else shiftCase? later n

/-- The changed form of a character: its expansion, the character a run shifts it to, or itself. -/
def mapCase (runs : List CaseRun) (expansions : List (Nat × List Nat)) (c : Char) : List Char :=
  match expansions.lookup c.toNat with
  | some codes => codes.map Char.ofNat
  | none =>
      match shiftCase? runs c.toNat with
      | some n => [Char.ofNat n]
      | none => [c]

end ScriptGraph.Text
