import ScriptGraph.Number.Shortest
import ScriptGraph.Text.Quoted
import ScriptGraph.Value.Basic

/-!
# JSON text

A value is written as JSON text, on one line or indented.  Texts stay as they are except for quotes,
backslashes and control characters.
-/

namespace ScriptGraph.Value

open Text

/-- Doubles in JSON: without an exponent from `0.00001` up to sixteen digits before the point, and
with a sign before every exponent; only finite ones have a form there. -/
def jsonDouble : Double.Format where
  least := -4
  greatest := 16
  exponent := fun e => "e" ++ (if e < 0 then "" else "+") ++ toString e
  nan := "null"
  infinity := fun _ => "null"

def jsonChar (c : Char) : List Char :=
  if c == '"' || c == '\\' then ['\\', c]
  else if c == '\x08' then ['\\', 'b']
  else if c == '\x0c' then ['\\', 'f']
  else if c == '\n' then ['\\', 'n']
  else if c == '\r' then ['\\', 'r']
  else if c == '\t' then ['\\', 't']
  else if c.toNat < 0x20 then '\\' :: 'u' :: hexDigits 4 c.toNat
  else [c]

def jsonText (s : String) : String := String.ofList ('"' :: s.toList.flatMap jsonChar ++ ['"'])

inductive Layout where
  /-- On one line, without blanks. -/
  | compact
  /-- Every item on a line of its own, two blanks further in than its list. -/
  | indented

namespace Layout

def colon : Layout → String
  | compact => ":"
  | indented => ": "

def newLine : Layout → Nat → String
  | compact, _ => ""
  | indented, depth => "\n" ++ String.ofList (List.replicate (2 * depth) ' ')

def enclose (layout : Layout) (depth : Nat) (opening closing : String) (items : List String) :
    String :=
  if items.isEmpty then opening ++ closing
  else
    let between := "," ++ layout.newLine (depth + 1)
    opening ++ layout.newLine (depth + 1) ++ between.intercalate items ++ layout.newLine depth ++
      closing

end Layout

/-- A key in JSON; bytes have no form there. -/
def jsonKey : Key → String
  | .text s => jsonText s
  | .bytes _ => jsonText ""

mutual

/-- A value in JSON at a depth; bytes and times have no form there. -/
def jsonAt (layout : Layout) (depth : Nat) : Value → String
  | null => "null"
  | bool b => if b then "true" else "false"
  | int n => toString n
  | float x => x.render jsonDouble
  | text s => jsonText s
  | list items => layout.enclose depth "[" "]" (jsonItems layout (depth + 1) items)
  | map entries => layout.enclose depth "\x7b" "\x7d" (jsonEntries layout (depth + 1) entries)
  | bytes _ => "null"
  | ext _ _ => "null"
  | timestamp _ _ => "null"

def jsonItems (layout : Layout) (depth : Nat) : List Value → List String
  | [] => []
  | item :: later => jsonAt layout depth item :: jsonItems layout depth later

def jsonEntries (layout : Layout) (depth : Nat) : List (Key × Value) → List String
  | [] => []
  | (key, value) :: later =>
      (jsonKey key ++ layout.colon ++ jsonAt layout depth value) :: jsonEntries layout depth later

end

def toJson (layout : Layout) (v : Value) : String := jsonAt layout 0 v

end ScriptGraph.Value
