import ScriptGraph.Name

/-!
# Parentheses and spans

The parenthesis that closes a group is found by counting depth.  Spans are pieces of a text given by
offsets; the ones of interest lie inside the parentheses after `USING`.
-/

namespace ScriptGraph.Script

open Text Name

/-- The offset of the first closing parenthesis that brings the depth to zero. -/
def closingOffset? (depth : Int) : List Char → Option Nat
  | [] => none
  | '(' :: rest => (closingOffset? (depth + 1) rest).map (· + 1)
  | ')' :: rest => if depth = 1 then some 0 else (closingOffset? (depth - 1) rest).map (· + 1)
  | _ :: rest => (closingOffset? depth rest).map (· + 1)

/-- The offset of the parenthesis that closes the one at `opening`, or the length of the text.  A
negative offset counts from the end of the text, and the count then goes on at the start of the
text.  There is no answer for a place before the text. -/
def closingParen? (text : List Char) (opening : Int) : Option Int :=
  let size : Int := text.length
  if opening < -size then none
  else
    let visited :=
      if opening < 0 then text.drop (opening + size).toNat ++ text else text.drop opening.toNat
    match closingOffset? 0 visited with
    | some n => some (opening + n)
    | none => some size

/-- The place after the parenthesis that closes a group, from a place just inside the group. -/
def afterGroup? (inside : Cursor) : Option Cursor :=
  (closingOffset? 1 inside.rest).map fun n => inside.skip (n + 1)

/-- A half-open piece of a text, given by offsets. -/
structure Span where
  start : Int
  stop : Int
deriving DecidableEq, Repr

namespace Span

def contains (s : Span) (offset : Int) : Bool := s.start ≤ offset && offset < s.stop

/-- The offset of a bound in a text of the given length: a negative bound counts from the end, and
no bound lies outside the text. -/
def clamp (size : Nat) (bound : Int) : Nat :=
  min size (if bound < 0 then (bound + size).toNat else bound.toNat)

def slice (s : Span) (text : List Char) : List Char :=
  let first := clamp text.length s.start
  let last := clamp text.length s.stop
  (text.drop first).take (last - first)

end Span

def usingGroup : Rule where
  body := .all [.startingWord "USING", blanks, .char '(']

/-- The spans inside the parentheses after each `USING`, in the order of the text. -/
def usingSpans (clean : List Char) : List Span :=
  (usingGroup.findAll (.start clean)).map fun hit =>
    let inside : Int := hit.stop.offset
    match closingOffset? 1 hit.stop.rest with
    | some n => ⟨inside, inside + n⟩
    | none => ⟨inside, clean.length⟩

def inSpans (spans : List Span) (offset : Int) : Bool := spans.any (·.contains offset)

end ScriptGraph.Script
