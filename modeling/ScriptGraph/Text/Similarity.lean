/-!
# Similar texts

Two texts are similar if most of their characters belong to blocks that both have, in the same
order.  The blocks are found from the longest one outwards.
-/

namespace ScriptGraph.Text

structure Block where
  first : Nat := 0
  second : Nat := 0
  size : Nat := 0
deriving DecidableEq

def commonStart : List Char → List Char → Nat
  | a :: as, b :: bs => if a = b then commonStart as bs + 1 else 0
  | _, _ => 0

/-- The longest block that two texts have in common: of several the one that comes first in the
first text, and of these the one that comes first in the second text. -/
def longestBlock (a b : List Char) : Block :=
  let blocks := (List.range a.length).flatMap fun i =>
    (List.range b.length).map fun j => { first := i, second := j
                                         size := commonStart (a.drop i) (b.drop j) : Block }
  blocks.foldl (fun best block => if best.size < block.size then block else best) {}

/-- The number of characters in blocks that two texts have in common: the longest block, and the
blocks of the texts before it and after it. -/
def commonSize (a b : List Char) : Nat :=
  let block := longestBlock a b
  if _h : 0 < block.size ∧ block.first < a.length then
    block.size + commonSize (a.take block.first) (b.take block.second) +
      commonSize (a.drop (block.first + block.size)) (b.drop (block.second + block.size))
  else 0
termination_by a.length
decreasing_by
  · simp +zetaDelta only [List.length_take] at *; omega
  · simp +zetaDelta only [List.length_drop] at *; omega

/-- How similar a text is to a given one: the characters in common blocks, and all characters. -/
structure Similarity where
  common : Nat
  total : Nat

namespace Similarity

def of (given text : String) : Similarity :=
  ⟨commonSize text.toList given.toList, text.length + given.length⟩

/-- Three fifths of the characters at least belong to common blocks. -/
def isClose (s : Similarity) : Bool := 3 * s.total ≤ 10 * s.common

/-- A smaller part of the characters belongs to common blocks. -/
def lt (s t : Similarity) : Bool := s.common * t.total < t.common * s.total

end Similarity

def closestLimit : Nat := 3

/-- The texts that are close to a given one, at most three of them, in alphabetical order.  Of more
the most similar ones are taken, and of equally similar ones the last in the alphabet. -/
def closest (given : String) (texts : List String) : List String :=
  let close := texts.filter fun text => (Similarity.of given text).isClose
  let isBetter (a b : String) : Bool :=
    let s := Similarity.of given a
    let t := Similarity.of given b
    t.lt s || (!s.lt t && b ≤ a)
  ((close.mergeSort isBetter).take closestLimit).mergeSort (· ≤ ·)

end ScriptGraph.Text
