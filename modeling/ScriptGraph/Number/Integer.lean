import ScriptGraph.Text.Blank
import ScriptGraph.Text.DecimalDigit

/-!
# Integers in texts

An integer is written with digits of any script, with a sign before them if need be, with single
underscores between them if need be, and with white space around it all.
-/

namespace ScriptGraph.Integer

open Text

def digitLimit : Nat := 4300

/-- The values of digits with single underscores between them. -/
def digitValues : List Char → Option (List Nat)
  | [] => none
  | [c] => (digitValue? c).map ([·])
  | c :: '_' :: later => do
      let value ← digitValue? c
      let rest ← digitValues later
      some (value :: rest)
  | c :: later => do
      let value ← digitValue? c
      let rest ← digitValues later
      some (value :: rest)

def natural (text : List Char) : Option Nat := do
  let values ← digitValues text
  if values.length ≤ digitLimit then some (values.foldl (fun n d => n * 10 + d) 0) else none

def ofText? (text : List Char) : Option Int :=
  match trimSpace text with
  | '-' :: digits => (natural digits).map Int.negOfNat
  | '+' :: digits => (natural digits).map Int.ofNat
  | digits => (natural digits).map Int.ofNat

end ScriptGraph.Integer
