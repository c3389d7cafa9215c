import ScriptGraph.Name

/-!
# Cleaning a script

Before anything is recognised in a script, the parts that could be mistaken for names are taken out:
comments, text literals, the parameters of data types and the column lists of insertions.  Every
pass works on what the one before it has left.
-/

namespace ScriptGraph.Script

open Text Name

/-! ### Comments and literals -/

def afterBlockEnd? : List Char → Option (List Char)
  | '*' :: '/' :: rest => some rest
  | _ :: rest => afterBlockEnd? rest
  | [] => none

theorem length_of_afterBlockEnd? {text rest : List Char} (h : afterBlockEnd? text = some rest) :
    rest.length < text.length := by
  fun_induction afterBlockEnd? text with
  | case1 => cases h; simp only [List.length_cons]; omega
  | case2 _ _ _ ih => have := ih h; simp only [List.length_cons]; omega
  | case3 => cases h

/-- Every block comment becomes one blank, so that the tokens around it stay apart.  A comment that
is not closed stays. -/
def dropBlockComments (text : List Char) : List Char :=
  match text with
  | [] => []
  | '/' :: '*' :: inner =>
      match _h : afterBlockEnd? inner with
      | some rest => ' ' :: dropBlockComments rest
      | none => '/' :: dropBlockComments ('*' :: inner)
  | c :: rest => c :: dropBlockComments rest
termination_by text.length
decreasing_by
  · have := length_of_afterBlockEnd? ‹_›; simp; omega
  · simp
  · simp

/-- Removes the comments that run from two hyphens to the end of the line. -/
def dropLineComments (text : List Char) : List Char :=
  match text with
  | [] => []
  | '-' :: '-' :: rest => dropLineComments (rest.dropWhile (· != '\n'))
  | c :: rest => c :: dropLineComments rest
termination_by text.length
decreasing_by
  · have := (List.dropWhile_suffix (l := rest) (· != '\n')).length_le; simp; omega
  · simp

/-- What follows a text literal, given what follows its opening quote.  A doubled quote inside the
literal stands for one quote; but if the literal is not closed otherwise, the last doubled quote
closes it with its first half. -/
def afterLiteral? : List Char → Option (List Char)
  | [] => none
  | '\'' :: '\'' :: rest => (afterLiteral? rest).or (some ('\'' :: rest))
  | '\'' :: rest => some rest
  | _ :: rest => afterLiteral? rest

theorem length_of_afterLiteral? {text rest : List Char} (h : afterLiteral? text = some rest) :
    rest.length < text.length := by
  fun_induction afterLiteral? text generalizing rest with
  | case1 => cases h
  | case2 inner ih =>
    cases hr : afterLiteral? inner with
    | none => simp [hr] at h; simp [← h]
    | some other =>
      have := ih hr
      simp [hr] at h
      subst h
      simp
      omega
  | case3 => cases h; simp
  | case4 _ _ _ _ ih => have := ih h; simp; omega

/-- Every text literal becomes one blank. -/
def dropLiterals (text : List Char) : List Char :=
  match text with
  | [] => []
  | '\'' :: inner =>
      match _h : afterLiteral? inner with
      | some rest => ' ' :: dropLiterals rest
      | none => '\'' :: dropLiterals inner
  | c :: rest => c :: dropLiterals rest
termination_by text.length
decreasing_by
  · have := length_of_afterLiteral? ‹_›; simp; omega
  · simp
  · simp

def dropCommentsAndLiterals (text : List Char) : List Char :=
  dropLiterals (dropLineComments (dropBlockComments text))

/-! ### Lists in parentheses -/

def parameterizedTypes : List String := [
  "NVARCHAR", "VARCHAR", "NCHAR", "CHAR", "VARBINARY", "BINARY", "DECIMAL", "NUMERIC", "FLOAT",
  "REAL", "TIME", "DATETIME2", "DATETIMEOFFSET"]

/-- A list in parentheses that ends at the first closing one. -/
def upToClosing : Pattern := .all [.char '(', .run (· != ')'), .char ')']

/-- A list in parentheses without further parentheses. -/
def flatList : Pattern := .all [.char '(', .run (fun c => c != '(' && c != ')'), .char ')']

def typeWithParameters : Rule where
  lead := .wordEdge
  body := .any (parameterizedTypes.map .word)
  trail := .seq blanks upToClosing

def insertWithColumns : Rule where
  body := .all [
    .startingWord "INSERT", gap, .optional (.seq (.word "INTO") gap),
    .notBefore (.seq (.word "VALUES") .wordEdge), path]
  trail := .seq blanks flatList

/-- The head of a conditional insertion with its column list. -/
def mergeInsertWithColumns : Rule where
  body := .all [
    .startingWord "WHEN", gap, .optional (.seq (.word "NOT") gap), .word "MATCHED",
    .optional (.all [gap, .word "BY", gap, .alt (.word "TARGET") (.word "SOURCE")]),
    gap, .word "THEN", gap, .word "INSERT"]
  trail := .seq blanks flatList

/-- Takes out the parameters of data types: `DECIMAL(10,2)` becomes `DECIMAL`. -/
def dropTypeParameters (text : List Char) : List Char := typeWithParameters.reduce text

/-- Takes out the column lists of insertions, also of those inside a merge. -/
def dropInsertColumns (text : List Char) : List Char :=
  mergeInsertWithColumns.reduce (insertWithColumns.reduce text)

/-- The text in which definitions and references are looked for. -/
def clean (text : List Char) : List Char :=
  dropInsertColumns (dropTypeParameters (dropCommentsAndLiterals text))

end ScriptGraph.Script
