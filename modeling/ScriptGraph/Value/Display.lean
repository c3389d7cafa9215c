import ScriptGraph.Number.Shortest
import ScriptGraph.Text.Quoted
import ScriptGraph.Value.Basic

/-!
# Values in messages

How a value is shown in a message: texts are quoted, and lists and maps are written out.
-/

namespace ScriptGraph.Value

open Text

/-- Doubles in messages: without an exponent from `0.0001` up to sixteen digits before the point,
and with two digits of exponent at least. -/
def doubleFormat : Double.Format where
  least := -3
  greatest := 16
  exponent := fun e =>
    let digits := toString e.natAbs
    "e" ++ (if e < 0 then "-" else "+") ++ (if digits.length < 2 then "0" else "") ++ digits
  nan := "nan"
  infinity := fun negative => if negative then "-inf" else "inf"

def quotedByte (quote : Char) (b : UInt8) : List Char :=
  let c := Char.ofNat b.toNat
  if b.toNat < 0x7f then quotedChar quote c else escapedNumber b.toNat

def quotedBytes (data : List UInt8) : String :=
  let quote := quoteFor (data.map fun b => Char.ofNat b.toNat)
  String.ofList ('b' :: quote :: data.flatMap (quotedByte quote) ++ [quote])

def displayKey : Key → String
  | .text s => quoted s
  | .bytes data => quotedBytes data

mutual

def display : Value → String
  | null => "None"
  | bool b => if b then "True" else "False"
  | int n => toString n
  | float x => x.render doubleFormat
  | text s => quoted s
  | bytes data => quotedBytes data
  | list items => "[" ++ ", ".intercalate (displayItems items) ++ "]"
  | map entries => "\x7b" ++ ", ".intercalate (displayEntries entries) ++ "\x7d"
  | ext code data => "ExtType(code=" ++ toString code ++ ", data=" ++ quotedBytes data ++ ")"
  | timestamp seconds nanoseconds =>
      "Timestamp(seconds=" ++ toString seconds ++ ", nanoseconds=" ++ toString nanoseconds ++ ")"

def displayItems : List Value → List String
  | [] => []
  | item :: later => display item :: displayItems later

def displayEntries : List (Key × Value) → List String
  | [] => []
  | (key, value) :: later => (displayKey key ++ ": " ++ display value) :: displayEntries later

end

/-- How many levels of the stack it takes to show a value: one for each value inside another, and two
more for a value that is shown by its fields. -/
def displayDepth : Value → Nat :=
  height fun
    | ext _ _ => 3
    | timestamp _ _ => 3
    | _ => 1

/-- A value inside a line of text: a text stands as it is. -/
def plain : Value → String
  | text s => s
  | other => display other

def typeName : Value → String
  | null => "NoneType"
  | bool _ => "bool"
  | int _ => "int"
  | float _ => "float"
  | text _ => "str"
  | bytes _ => "bytes"
  | list _ => "list"
  | map _ => "dict"
  | ext _ _ => "ExtType"
  | timestamp _ _ => "Timestamp"

end ScriptGraph.Value
