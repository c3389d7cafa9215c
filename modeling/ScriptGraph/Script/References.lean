import ScriptGraph.Object
import ScriptGraph.Script.Noise

/-!
# References in a script

Ten searches over the cleaned script find the objects that it uses: procedures that it executes,
functions that it calls, and tables that it reads or writes.  The searches share one context.  The
search for functions in table position records their keys, and the searches after it leave these
names alone.
-/

namespace ScriptGraph.Script

open Text Name

structure Context where
  clean : List Char
  definition : DbObject
  /-- Keys that are never reported. -/
  noise : List String
  spans : List Span
  /-- Keys of functions that were found in table position. -/
  tableFunctions : List String

/-- The tables that hold the changed rows inside a trigger. -/
def triggerTables : List String := ["inserted", "deleted"]

namespace Context

/-- A reference to a name, unless the name is the definition, noise or a reserved word. -/
def candidate? (ctx : Context) (name : List Char) (kind : Kind) : Option Reference :=
  let raw := String.ofList name
  let key := Name.key raw
  if key.isEmpty || ctx.noise.contains key || ctx.definition.isNamed raw then none
  -- only a name of a single part can be a reserved word
  else if !key.toList.contains '.' && isReserved (trim name) then none
  else (DbObject.make? raw kind).map fun callee => ⟨ctx.definition, callee⟩

/-- A reference to a table, unless the name is one of a function or of a trigger's own tables. -/
def tableCandidate? (ctx : Context) (name : List Char) : Option Reference :=
  let key := Name.key (String.ofList name)
  if ctx.tableFunctions.contains key || triggerTables.contains key then none
  else ctx.candidate? name .table

end Context

/-! ### Rules -/

/-- A procedure that is executed, with or without a variable for its result. -/
def executedProcedure : Rule where
  lead := .all [
    .startingWord "EXEC", .optional (.word "UTE"), gap,
    .optional (.all [.char '@', .run1 isNameChar, blanks, .char '=', blanks])]
  body := path
  trail := notCalled

/-- A function in table position. -/
def tableFunction : Rule where
  lead := .seq (.startingWord "FROM") gap
  body := path
  trail := .seq blanks (.char '(')

/-- A name before an opening parenthesis. -/
def calledName : Rule where
  lead := .notAfter fun c => isNameChar c || c == '[' || c == ']' || c == '.' || c == '"'
  body := plainPath
  trail := .seq blanks (.char '(')

/-- A word after which a table is named, at the end of a text. -/
def beforeTable : Pattern :=
  .all [.wordEdge, .alt (.word "FROM") (.word "REFERENCES"), blanks, .atEnd]

/-- The number of characters in which `beforeTable` is looked for. -/
def lookBack : Nat := 64

/-- Whether a table is named at a place, judged by the last characters before it. -/
def inTablePosition (c : Cursor) : Bool := beforeTable.occursIn (c.back.take lookBack).reverse

def querySource : Rule where
  lead := .seq sourceWord gap
  body := path
  trail := notCalled

def insertTarget : Rule where
  lead := .all [.startingWord "INSERT", gap, .optional (.seq (.word "INTO") gap)]
  body := path

/-- The target of an update, if its schema is named. -/
def updateTarget : Rule where
  lead := .seq (.startingWord "UPDATE") gap
  body := qualifiedPath

def deleteTarget : Rule where
  lead := .all [.startingWord "DELETE", gap, .word "FROM", gap]
  body := path

def mergeTarget : Rule where
  lead := .all [
    .startingWord "MERGE", gap,
    .optional (.all [
      .word "TOP", blanks, .char '(', .run (· != ')'), .char ')', blanks,
      .optional (.seq (.word "PERCENT") gap)]),
    .optional (.seq (.word "INTO") gap)]
  body := path

def usingWord : Rule where
  body := .seq (.startingWord "USING") .wordEdge

def mergeSource : Rule where
  lead := .seq (.word "USING") gap
  body := path
  trail := notCalled

/-! ### Searches -/

inductive Search where
  | procedureCalls
  | tableFunctions
  | scalarFunctions
  | querySources
  | insertTargets
  | updateTargets
  | deleteTargets
  | mergeTargets
  | mergeSources
  | mergeSubquerySources
deriving DecidableEq, Repr

namespace Search

/-- The searches in the order in which a script is searched. -/
def all : List Search := [
  procedureCalls, tableFunctions, scalarFunctions, querySources, insertTargets, updateTargets,
  deleteTargets, mergeTargets, mergeSources, mergeSubquerySources]

def tables (ctx : Context) (rule : Rule) (text : List Char) : List Reference :=
  (rule.findAll (.start text)).filterMap fun hit => ctx.tableCandidate? hit.body

/-- A reference to a called name, unless it is a form of the language or a table is named there. -/
def scalarFunction? (ctx : Context) (hit : Hit) : Option Reference :=
  let name := hit.body
  let key := Name.key (String.ofList name)
  if !key.toList.contains '.' && isNeverCalled (trim name) then none
  else if ctx.tableFunctions.contains key || inTablePosition hit.start then none
  else ctx.candidate? name .userFunction

def references (ctx : Context) : Search → List Reference
  | procedureCalls =>
      (executedProcedure.findAll (.start ctx.clean)).filterMap fun hit =>
        ctx.candidate? hit.body .storedProcedure
  | tableFunctions =>
      (tableFunction.findAll (.start ctx.clean)).filterMap fun hit =>
        ctx.candidate? hit.body .userFunction
  | scalarFunctions => (calledName.findAll (.start ctx.clean)).filterMap (scalarFunction? ctx)
  | querySources =>
      (querySource.findAll (.start ctx.clean)).filterMap fun hit =>
        if inSpans ctx.spans hit.start.offset then none else ctx.tableCandidate? hit.body
  | insertTargets => tables ctx insertTarget ctx.clean
  | updateTargets => tables ctx updateTarget ctx.clean
  | deleteTargets => tables ctx deleteTarget ctx.clean
  | mergeTargets => tables ctx mergeTarget ctx.clean
  | mergeSources =>
      (mergeTarget.findAll (.start ctx.clean)).filterMap fun target =>
        -- the next `USING` counts, also if it belongs to a later statement
        (usingWord.find? target.stop).bind fun word =>
          (mergeSource.hit? word.start).bind fun hit => ctx.tableCandidate? hit.body
  | mergeSubquerySources =>
      -- each span is searched as a text of its own, so nested spans are searched twice
      ctx.spans.flatMap fun span => tables ctx querySource (span.slice ctx.clean)

/-- The context after a search: the search for functions in table position records their keys. -/
def update (ctx : Context) : Search → Context
  | tableFunctions =>
      { ctx with
        tableFunctions :=
          ctx.tableFunctions ++ (references ctx tableFunctions).map (·.callee.key) }
  | _ => ctx

/-- Runs searches one after another; for each of them the references that it finds and the context
after it. -/
def run (ctx : Context) : List Search → List (List Reference × Context)
  | [] => []
  | search :: later =>
      let after := search.update ctx
      (search.references ctx, after) :: run after later

/-- All references that searches find, in order and with repetitions. -/
def candidates (ctx : Context) (searches : List Search) : List Reference :=
  (run ctx searches).flatMap (·.1)

end Search

end ScriptGraph.Script
