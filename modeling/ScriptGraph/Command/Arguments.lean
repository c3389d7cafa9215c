import ScriptGraph.Number.Integer
import ScriptGraph.Text.Quoted
import ScriptGraph.Text.Similarity

/-!
# Arguments of commands

A command takes options, with values or without, and further arguments.  Words that start with a
dash are options; `--option=value` gives a value in one word, and `--` ends the options.  A name
that is not known is refused with the known names that are close to it.
-/

namespace ScriptGraph.Command

/-- Why arguments are refused. -/
inductive UsageError where
  | missingArgument (name : String)
  | extraArguments (given : List String)
  /-- An option that there is not, and the options that may be meant. -/
  | noSuchOption (option : String) (near : List String)
  /-- A command that there is not, and the commands that may be meant. -/
  | noSuchCommand (name : String) (near : List String)
  | missingCommand
  | invalidValue (name reason : String)
  | needsValue (option : String)
  | takesNoValue (option : String)
deriving DecidableEq

namespace UsageError

/-- The question which of the given names is meant. -/
def question : List String → String
  | [] => ""
  | [name] => " Did you mean " ++ Text.quoted name ++ "?"
  | names => " (Did you mean one of: " ++ ", ".intercalate (names.map Text.quoted) ++ "?)"

def message : UsageError → String
  | missingArgument name => "Missing argument '" ++ name ++ "'."
  | extraArguments given =>
      "Got unexpected extra argument" ++ (if given.length = 1 then "" else "s") ++ " (" ++
        " ".intercalate given ++ ")"
  | noSuchOption option near => "No such option " ++ Text.quoted option ++ "." ++ question near
  | noSuchCommand name near => "No such command " ++ Text.quoted name ++ "." ++ question near
  | missingCommand => "Missing command."
  | invalidValue name reason => "Invalid value for '" ++ name ++ "': " ++ reason
  | needsValue option => "Option " ++ Text.quoted option ++ " requires an argument."
  | takesNoValue option => "Option " ++ Text.quoted option ++ " does not take a value."

/-- Whether the error is shown together with the usage of the command. -/
def showsUsage : UsageError → Bool
  | needsValue _ => false
  | takesNoValue _ => false
  | _ => true

end UsageError

structure OptionSpec where
  name : String
  hasValue : Bool := true

/-- Arguments with the options told apart. -/
structure Parsed where
  /-- The options with their values, in the order in which they are given; an option without a value
  has the empty text. -/
  options : List (String × String) := []
  rest : List String := []

namespace Parsed

/-- The last value of an option. -/
def value? (p : Parsed) (name : String) : Option String :=
  (p.options.reverse.find? (·.1 == name)).map (·.2)

def values (p : Parsed) (name : String) : List String :=
  (p.options.filter (·.1 == name)).map (·.2)

def has (p : Parsed) (name : String) : Bool := p.options.any (·.1 == name)

end Parsed

def splitWord (word : String) : String × Option String :=
  let name := word.toList.takeWhile (· != '=')
  match word.toList.drop name.length with
  | [] => (word, none)
  | _ :: value => (String.ofList name, some (String.ofList value))

/-- How a word that starts with a dash is named if no option is called so: after two dashes the
options with a similar name may be meant, and after a single dash the first letter counts. -/
def unknownOption (specs : List OptionSpec) (word : String) : UsageError :=
  match word.toList with
  | '-' :: '-' :: _ =>
      let name := (splitWord word).1
      .noSuchOption name (Text.closest name (specs.map (·.name)))
  | '-' :: c :: _ => .noSuchOption (String.ofList ['-', c]) []
  | _ => .noSuchOption word []

def looksLikeOption (word : String) : Bool := word.startsWith "-" && word != "-"

/-- Tells the options from the further arguments.  If arguments are not `mixed` with options, the
first argument ends the options. -/
def parseWords (specs : List OptionSpec) (mixed : Bool) :
    List String → Except UsageError Parsed
  | [] => .ok {}
  | word :: later =>
      if word = "--" then .ok { rest := later }
      else if looksLikeOption word then
        let (name, given) := splitWord word
        match specs.find? (·.name == name) with
        | none => .error (unknownOption specs word)
        | some spec =>
            match given with
            | some value =>
                if spec.hasValue then add name value (parseWords specs mixed later)
                else .error (.takesNoValue name)
            | none =>
                if spec.hasValue then
                  match later with
                  | value :: after => add name value (parseWords specs mixed after)
                  | [] => .error (.needsValue name)
                else add name "" (parseWords specs mixed later)
      else if mixed then
        (parseWords specs mixed later).map fun p => { p with rest := word :: p.rest }
      else .ok { rest := word :: later }
where
  /-- Enters an option that comes before the others. -/
  add (name value : String) (parsed : Except UsageError Parsed) : Except UsageError Parsed :=
    parsed.map fun p => { p with options := (name, value) :: p.options }

def integerValue (option value : String) : Except UsageError Int :=
  match Integer.ofText? value.toList with
  | some n => .ok n
  | none => .error (.invalidValue option (Text.quoted value ++ " is not a valid integer."))

end ScriptGraph.Command
