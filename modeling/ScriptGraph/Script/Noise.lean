import ScriptGraph.Keyword
import ScriptGraph.Script.Paren

/-!
# Names that are not references

Table expressions, derived tables, correlation names and the qualifiers of columns have the shape of
object names.  Their keys are collected, and no reference is reported to a name with such a key.
-/

namespace ScriptGraph.Script

open Text Name

def wantedKey (hit : Hit) : String := Name.key (String.ofList hit.body)

/-! ### Common table expressions -/

/-- What follows the name of a table expression: an optional column list, `AS` and a parenthesis. -/
def expressionTail : Pattern :=
  .all [
    blanks,
    .optional (.all [.char '(', .run (fun c => c != '(' && c != ')'), .char ')', blanks]),
    .word "AS", blanks, .char '(']

/-- The first table expression of a list. -/
def firstExpression : Rule where
  lead := .seq (.startingWord "WITH") gap
  body := identifier
  trail := expressionTail

/-- A further table expression of a list. -/
def furtherExpression : Rule where
  lead := .all [blanks, .char ',', blanks]
  body := identifier
  trail := expressionTail

/-- The keys of the expressions that follow one another from a place inside the parentheses of an
expression.  The first argument bounds their number by the characters that are left. -/
def expressionChain : List Char → Cursor → List String
  | [], _ => []
  | _ :: left, inside =>
      match afterGroup? inside with
      | none => []
      | some after =>
          match furtherExpression.hit? after with
          | none => []
          | some hit => wantedKey hit :: expressionChain left hit.stop

/-- The keys of the names that `WITH` introduces. -/
def tableExpressions (clean : List Char) : List String :=
  (firstExpression.findAll (.start clean)).flatMap fun hit =>
    wantedKey hit :: expressionChain hit.stop.rest hit.stop

/-! ### Aliases -/

/-- An alias, with or without `AS`. -/
def aliasClause : Rule where
  lead := .seq blanks (.optional (.seq (.word "AS") gap))
  body := identifier

/-- The key of the alias at a place, unless a reserved word stands there. -/
def aliasKey? (c : Cursor) : Option String :=
  match aliasClause.hit? c with
  | none => none
  | some hit => if isReserved hit.body then none else some (wantedKey hit)

def sourceWord : Pattern := .seq .wordEdge (.alt (.word "FROM") (.word "JOIN"))

/-- `FROM` or `JOIN` before a derived table. -/
def derivedTable : Rule where
  body := .all [sourceWord, blanks, .char '(']

def derivedTableAliases (clean : List Char) : List String :=
  (derivedTable.findAll (.start clean)).filterMap fun hit =>
    (afterGroup? hit.stop).bind aliasKey?

/-- `FROM` or `JOIN` before a name. -/
def sourceName : Rule where
  lead := .seq sourceWord gap
  body := path

def openingParen : Rule where
  body := .seq blanks (.char '(')

/-- The keys of the aliases of named sources, which may have arguments. -/
def correlationAliases (clean : List Char) : List String :=
  (sourceName.findAll (.start clean)).filterMap fun hit =>
    match openingParen.hit? hit.stop with
    | some arguments => (afterGroup? arguments.stop).bind aliasKey?
    | none => aliasKey? hit.stop

/-! ### Qualifiers in select lists -/

def selectWord : Rule where
  body := .seq (.startingWord "SELECT") .wordEdge

/-- What can end a select list or change its depth. -/
def listBoundary : Rule where
  body := .alt (.one fun c => c == '(' || c == ')' || c == ';')
    (.all [.wordEdge, .any [.word "FROM", .word "INTO", .word "SELECT"], .wordEdge])

/-- The place where a select list ends, from a place at the given depth of parentheses.  The first
list bounds the number of places by the characters that are left. -/
def listEnd? (depth : Nat) : List Char → Cursor → Option Cursor
  | [], _ => none
  | _ :: left, c =>
      match listBoundary.hit? c with
      | none => listEnd? depth left (c.skip 1)
      | some hit =>
          match hit.body, depth with
          | ['('], _ => listEnd? (depth + 1) left hit.stop
          -- the list of a subquery ends with the parentheses around it
          | [')'], 0 => some c
          | [')'], depth + 1 => listEnd? depth left hit.stop
          | _, 0 => some c
          | _, _ => listEnd? depth left hit.stop

/-- The place at the start of a select list, in the text that ends with the list. -/
def selectList (c : Cursor) : Cursor :=
  match listEnd? 0 c.rest c with
  | some stop => c.endingAt stop
  | none => c

/-- A path of identifiers that does not continue another token. -/
def columnPath : Rule where
  lead := .notAfter fun c => isNameChar c || c == ']' || c == '.' || c == '"'
  body := plainPath
  trail := .seq (.optional (.all [blanks, .char '.', blanks, .char '*']))
    (.optional (.seq blanks (.char '(')))

/-- The key of the first part of a column path that has a qualifier, from its text and from what
follows it up to the end of the match. -/
def qualifierKey? (columnPath following : List Char) : Option String :=
  if following.getLast? == some '(' then none
  else if columnPath.contains '.' || following.getLast? == some '*' then
    some (Name.key (String.ofList (columnPath.takeWhile (· != '.'))))
  else none

def columnQualifiers (clean : List Char) : List String :=
  (selectWord.findAll (.start clean)).flatMap fun select =>
    (columnPath.findAll (selectList select.stop)).filterMap fun hit =>
      qualifierKey? hit.body (hit.right.upTo hit.stop)

/-! ### All together -/

/-- The keys of all names in a cleaned script that are not references. -/
def noise (clean : List Char) : List String :=
  (tableExpressions clean ++ derivedTableAliases clean ++ correlationAliases clean ++
    columnQualifiers clean).filter (!·.isEmpty)

end ScriptGraph.Script
