import ScriptGraph.Log.Basic
import ScriptGraph.Script.Definition
import ScriptGraph.Script.References

/-!
# Parsing a script

Parsing a script gives the object that it creates and its references to other objects.  A script
that creates nothing has no result, which is no error.
-/

namespace ScriptGraph

structure ParsedScript where
  definition : DbObject
  references : List Reference
deriving DecidableEq

namespace Script

/-- The definition of a script with all its candidate references, repetitions included. -/
structure Analysis where
  definition : DbObject
  candidates : List Reference

namespace Analysis

def result (a : Analysis) : ParsedScript := ⟨a.definition, Reference.distinct a.candidates⟩

end Analysis

def startContext (clean : List Char) (definition : DbObject) : Context where
  clean := clean
  definition := definition
  noise := noise clean
  spans := usingSpans clean
  tableFunctions := []

def analyzeClean (clean : List Char) : Except DefinitionError (Option Analysis) :=
  match definition? clean with
  | .error e => .error e
  | .ok none => .ok none
  | .ok (some definition) =>
      .ok (some ⟨definition, Search.candidates (startContext clean definition) Search.all⟩)

def analyze (text : String) : Except DefinitionError (Option Analysis) :=
  analyzeClean (clean text.toList)

/-- The definition of a script and its references, each of them once. -/
def parse (text : String) : Except DefinitionError (Option ParsedScript) :=
  (analyze text).map (·.map Analysis.result)

def analysisLine : Option Analysis → LogLine
  | none => .debug "No CREATE statement found"
  | some a =>
      .debug ("Parsed " ++ a.definition.kind.label ++ " " ++ a.definition.name ++ ": " ++
        toString a.candidates.length ++ " candidates, " ++
        toString a.result.references.length ++ " edges")

end Script

end ScriptGraph
