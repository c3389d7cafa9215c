import ScriptGraph.Number.Double

/-!
# Values

Data whose shape is not known beforehand: what a cache file holds and what is read as a graph.  The
keys of a map are texts or bytes, in the order in which they were entered.
-/

namespace ScriptGraph

inductive Key where
  | text (s : String)
  | bytes (data : List UInt8)
deriving DecidableEq, Repr

/-- Data of any shape. -/
inductive Value where
  | null
  | bool (b : Bool)
  | int (n : Int)
  | float (x : Double)
  | text (s : String)
  | bytes (data : List UInt8)
  | list (items : List Value)
  | map (entries : List (Key × Value))
  | ext (code : Int) (data : List UInt8)
  | timestamp (seconds : Int) (nanoseconds : Nat)
deriving Inhabited

namespace Value

def lookup (key : Key) (entries : List (Key × Value)) : Option Value := entries.lookup key

/-- Whether a value is a number equal to an integer; truth values count as zero and one. -/
def eqInt (n : Int) : Value → Bool
  | bool b => n == (if b then 1 else 0)
  | int m => n == m
  | float x => x.eqInt n
  | _ => false

/-- Whether a value is a number equal to a double; truth values count as zero and one. -/
def eqDouble (x : Double) : Value → Bool
  | bool b => x.eqInt (if b then 1 else 0)
  | int m => x.eqInt m
  | float y => x.eqValue y
  | _ => false

/-- Whether two simple values are the same key: numbers are compared by value, and a NaN is the same
key as itself. -/
def sameKey : Value → Value → Bool
  | null, null => true
  | text a, text b => a == b
  | bytes a, bytes b => a == b
  | float x, float y => x == y || x.eqValue y
  | float x, other => eqDouble x other
  | int n, other => eqInt n other
  | bool b, other => eqInt (if b then 1 else 0) other
  | ext code data, ext code' data' => code == code' && data == data'
  | timestamp seconds nanoseconds, timestamp seconds' nanoseconds' =>
      seconds == seconds' && nanoseconds == nanoseconds'
  | _, _ => false

/-- Whether a value counts as present: nothing, zero and what is empty do not. -/
def isTruthy : Value → Bool
  | null => false
  | bool b => b
  | int n => n != 0
  | float x => !x.eqInt 0
  | text s => !s.isEmpty
  | bytes data => !data.isEmpty
  | list items => !items.isEmpty
  | map entries => !entries.isEmpty
  | ext _ _ => true
  | timestamp _ _ => true

section

variable (leaf : Value → Nat)

mutual

/-- How many levels a value takes: one for every list and map around a value that is neither, and so
many as are given for this value. -/
def height : Value → Nat
  | list items => heightOfItems items + 1
  | map entries => heightOfEntries entries + 1
  | other => leaf other

def heightOfItems : List Value → Nat
  | [] => 0
  | item :: later => max (height item) (heightOfItems later)

def heightOfEntries : List (Key × Value) → Nat
  | [] => 0
  | (_, value) :: later => max (height value) (heightOfEntries later)

end

end

/-- The number of values that lie inside one another, the value itself included. -/
def depth : Value → Nat := height fun _ => 1

end Value

end ScriptGraph
