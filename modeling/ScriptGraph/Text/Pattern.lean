import ScriptGraph.Text.Cursor
import ScriptGraph.Text.WordChar

/-!
# Patterns

A pattern says which pieces of text may follow a place.  A pattern can match in several ways, and
their order matters: `Pattern.ends` lists the places where a match may end, the preferred one first.
A sequence tries every end of its first part in turn, so a later part can force a shorter match of
an earlier one.
-/

namespace ScriptGraph.Text

/-- A pattern over the text after a place, with one character of look-back. -/
inductive Pattern where
  | empty
  | one (accepts : Char → Bool)
  /-- Any number of characters of a class, more of them preferred. -/
  | run (accepts : Char → Bool)
  | seq (first second : Pattern)
  /-- The first pattern preferred, else the second. -/
  | alt (first second : Pattern)
  /-- Any number of matches of a pattern, more of them preferred. -/
  | many (body : Pattern)
  /-- The empty piece between a word character and something else. -/
  | wordEdge
  /-- The empty piece, unless a character of the class stands before it. -/
  | notAfter (rejects : Char → Bool)
  /-- The empty piece, unless the pattern matches after it. -/
  | notBefore (rejected : Pattern)
  /-- The empty piece at the end of the text. -/
  | atEnd

namespace Pattern

/-- The places after `0, 1, …` characters of a class, the furthest first, and then `nearer`. -/
def runEnds (accepts : Char → Bool) : List Char → List Char → List Cursor → List Cursor
  | back, [], nearer => ⟨back, []⟩ :: nearer
  | back, x :: rest, nearer =>
      if accepts x then runEnds accepts (x :: back) rest (⟨back, x :: rest⟩ :: nearer)
      else ⟨back, x :: rest⟩ :: nearer

/-- The places after any number of steps, more steps first.  A step moves on by a character at
least, so the characters that are left bound their number. -/
def manyEnds (step : Cursor → List Cursor) : List Char → Cursor → List Cursor
  | [], c => [c]
  | _ :: left, c => (step c).flatMap (manyEnds step left) ++ [c]

/-- Whether exactly one of the characters around a place is a word character. -/
def isWordEdge (c : Cursor) : Bool :=
  c.back.head?.any isWord != c.rest.head?.any isWord

/-- The places where a match from `c` may end, the preferred one first. -/
def ends : Pattern → Cursor → List Cursor
  | empty, c => [c]
  | one accepts, ⟨back, x :: rest⟩ => if accepts x then [⟨x :: back, rest⟩] else []
  | one _, ⟨_, []⟩ => []
  | run accepts, ⟨back, rest⟩ => runEnds accepts back rest []
  | seq p q, c => (p.ends c).flatMap q.ends
  | alt p q, c => p.ends c ++ q.ends c
  | many p, c => manyEnds p.ends c.rest c
  | wordEdge, c => if isWordEdge c then [c] else []
  | notAfter rejects, c => if c.back.head?.any rejects then [] else [c]
  | notBefore p, c => if (p.ends c).isEmpty then [c] else []
  | atEnd, c => if c.rest.isEmpty then [c] else []

/-- The preferred match, or nothing. -/
def optional (p : Pattern) : Pattern := alt p empty

def char (x : Char) : Pattern := one (· == x)

/-- One character at least of a class, more of them preferred. -/
def run1 (accepts : Char → Bool) : Pattern := seq (one accepts) (run accepts)

def all : List Pattern → Pattern
  | [] => empty
  | [p] => p
  | p :: ps => seq p (all ps)

/-- The first pattern of several that leads to a match. -/
def any : List Pattern → Pattern
  | [] => notBefore empty
  | [p] => p
  | p :: ps => alt p (any ps)

def matchesAt (p : Pattern) (c : Cursor) : Bool := !(p.ends c).isEmpty

def occursFrom (p : Pattern) : List Char → List Char → Bool
  | back, [] => p.matchesAt ⟨back, []⟩
  | back, x :: rest => p.matchesAt ⟨back, x :: rest⟩ || occursFrom p (x :: back) rest

def occursIn (p : Pattern) (text : List Char) : Bool := occursFrom p [] text

end Pattern

/-- A pattern in three parts, of which the middle one is the piece of text that is wanted. -/
structure Rule where
  lead : Pattern := .empty
  body : Pattern
  trail : Pattern := .empty

/-- Where a rule matches: from `start` to `stop`, its body from `left` to `right`. -/
structure Hit where
  start : Cursor
  left : Cursor
  right : Cursor
  stop : Cursor

namespace Hit

def body (h : Hit) : List Char := h.left.upTo h.right

end Hit

namespace Rule

/-- All matches of a rule at a place, the preferred one first. -/
def hits (r : Rule) (c : Cursor) : List Hit :=
  (r.lead.ends c).flatMap fun left =>
    (r.body.ends left).flatMap fun right =>
      (r.trail.ends right).map fun stop => ⟨c, left, right, stop⟩

def hit? (r : Rule) (c : Cursor) : Option Hit := (r.hits c).head?

/-- The first match from a place on.  The first argument bounds the number of places. -/
def findFrom (r : Rule) : List Char → Cursor → Option Hit
  | [], c => r.hit? c
  | _ :: left, c =>
      match r.hit? c with
      | some h => some h
      | none => findFrom r left (c.skip 1)

def find? (r : Rule) (c : Cursor) : Option Hit := r.findFrom c.rest c

/-- The matches from a place on, each starting where the one before it stopped or later.  A match
is not empty, so the characters that are left bound the number of steps. -/
def findAllFrom (r : Rule) : List Char → Cursor → List Hit
  | [], _ => []
  | _ :: left, c =>
      match r.hit? c with
      | some h => h :: findAllFrom r left h.stop
      | none => findAllFrom r left (c.skip 1)

/-- The matches from a place on, in the order of the text, without overlaps. -/
def findAll (r : Rule) (c : Cursor) : List Hit := r.findAllFrom c.rest c

def reduceFrom (r : Rule) : List Char → Cursor → List Char
  | [], c => c.rest
  | _ :: left, c =>
      match r.hit? c, c.rest with
      | some h, _ => h.body ++ reduceFrom r left h.stop
      | none, [] => []
      | none, x :: rest => x :: reduceFrom r left ⟨x :: c.back, rest⟩

/-- The text with every match of the rule reduced to its body. -/
def reduce (r : Rule) (text : List Char) : List Char := r.reduceFrom text (.start text)

end Rule

end ScriptGraph.Text
