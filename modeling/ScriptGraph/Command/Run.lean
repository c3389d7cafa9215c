import ScriptGraph.Command.Arguments
import ScriptGraph.Document.JsonText
import ScriptGraph.Document.Shapes
import ScriptGraph.Log.Operation
import ScriptGraph.Log.Setup
import ScriptGraph.Scan.Basic

/-!
# The commands

`parse` prints what one script creates and uses, `scan` the graph of a tree of scripts.
-/

namespace ScriptGraph.Command

inductive Form where
  | program
  | parse
  | scan
deriving DecidableEq

namespace Form

def name : Form → String
  | program => "invograph"
  | parse => "invograph parse"
  | scan => "invograph scan"

def usage : Form → String
  | program => "invograph [OPTIONS] COMMAND [ARGS]..."
  | parse => "invograph parse [OPTIONS] FILE_PATH"
  | scan => "invograph scan [OPTIONS] DIRECTORY"

def options : Form → List OptionSpec
  | program => [⟨"--version", false⟩, ⟨"--log-level", true⟩, ⟨"--help", false⟩]
  | parse => [⟨"--help", false⟩]
  | scan => [
      ⟨"--workers", true⟩, ⟨"--no-cache", false⟩, ⟨"--exclude", true⟩, ⟨"--output", true⟩,
      ⟨"--help", false⟩]

def commands : List (String × Form) := [("parse", parse), ("scan", scan)]

def ofWord? (word : String) : Option Form := commands.lookup word

def unknownCommand (word : String) : UsageError :=
  .noSuchCommand word (Text.closest word (commands.map (·.1)))

def refusal (form : Form) (error : UsageError) : String :=
  let text := "Error: " ++ error.message ++ "\n"
  if error.showsUsage then
    "Usage: " ++ form.usage ++ "\nTry '" ++ form.name ++ " --help' for help.\n\n" ++ text
  else text

end Form

/-- An error that a command does not deal with. -/
inductive Crash where
  | script (error : ScriptError)
  | scan (error : Scan.ScanError)

structure Outcome where
  /-- The status at the end, or the error that ended the program. -/
  ending : Except Crash Nat
  stdout : String := ""
  stderr : String := ""
  /-- The log, given the number of seconds that the work took. -/
  log : String → Log := fun _ => []
  tree : Tree

/-- What surrounds a command. -/
structure Context where
  env : Environment
  clock : Clock
  mishaps : Mishaps := []
  tree : Tree
  here : Place := []

namespace Outcome

def refused (ctx : Context) (form : Form) (error : UsageError) : Outcome :=
  { ending := .ok 2, stderr := form.refusal error, tree := ctx.tree }

def helped (ctx : Context) (form : Form) : Outcome :=
  { ending := .ok 0, stdout := "Usage: " ++ form.usage ++ "\n", tree := ctx.tree }

end Outcome

/-! ### Arguments that are paths -/

/-- What is at the path that a text gives, if anything. -/
def nodeAt? (ctx : Context) (text : String) : Option Node :=
  if text.isEmpty then none
  else ((ctx.tree.find ((Path.stepsOfText text).fromTop ctx.here)).toOption).map (·.2)

def invalidPath (name kind text problem : String) : UsageError :=
  .invalidValue name (kind ++ " " ++ Text.quoted text ++ " " ++ problem)

def filePath (ctx : Context) (name text : String) : Except UsageError Path :=
  match nodeAt? ctx text with
  | none => .error (invalidPath name "File" text "does not exist.")
  | some .directory => .error (invalidPath name "File" text "is a directory.")
  | some (.file _) => .ok (.ofText text)

def directoryPlace (ctx : Context) (name text : String) : Except UsageError Place :=
  let place := Place.ofWay ((Path.ofText text).fromTop ctx.here)
  match ctx.tree.node? place with
  | none => .error (invalidPath name "Directory" text "does not exist.")
  | some (.file _) => .error (invalidPath name "Directory" text "is a file.")
  | some .directory => .ok place

def outputPath (ctx : Context) (name text : String) : Except UsageError Path :=
  match nodeAt? ctx text with
  | some .directory => .error (invalidPath name "File" text "is a directory.")
  | _ => .ok (.ofText text)

/-- The only further argument of a command, checked. -/
def onlyArgument {α : Type} (name : String) (check : String → Except UsageError α) :
    List String → Except UsageError α
  | [] => .error (.missingArgument name)
  | text :: extra => do
      let value ← check text
      if extra.isEmpty then .ok value else .error (.extraArguments extra)

/-! ### Parsing one script -/

def runParse (ctx : Context) (path : Path) : Outcome :=
  let file : ScriptFile := ⟨path.fromTop ctx.here, path.text, path.parts.getLast?.getD "."⟩
  let (read, after) := readScript ctx.tree ctx.mishaps file
  match outcomeOf file.name read with
  | (.error error, log) => { ending := .error (.script error), log := fun _ => log, tree := after }
  | (.ok outcome, log) =>
      match outcome.result with
      | .failed reason =>
          { ending := .ok 1
            stderr := "Failed to read " ++ path.text ++ ": " ++ reason ++ "\n"
            log := fun _ => log
            tree := after }
      | result =>
          let document := Document.ofParsedFile outcome.file result.script?
          let found := result.script?.isSome
          { ending := .ok (if found then 0 else 2)
            stdout := document.toJson .indented ++ "\n"
            stderr := if found then "" else "No CREATE statement found in " ++ path.text ++ "\n"
            log := fun _ => log
            tree := after }

/-! ### Scanning a tree -/

structure ScanArguments where
  directory : Place
  options : Scan.Options
  output : Option Path

def checkScanOption (ctx : Context) (p : Parsed) (name : String) : Except UsageError Unit :=
  match name, p.value? name with
  | "--workers", some value => (integerValue name value).map fun _ => ()
  | "--output", some value => (outputPath ctx name value).map fun _ => ()
  | _, _ => .ok ()

/-- The arguments of a scan: the options are checked as they are given, and then the directory. -/
def scanArguments (ctx : Context) (p : Parsed) : Except UsageError ScanArguments := do
  p.options.forM fun option => checkScanOption ctx p option.1
  let directory ← onlyArgument "DIRECTORY" (directoryPlace ctx "DIRECTORY") p.rest
  .ok {
    directory
    options := {
      useCache := !p.has "--no-cache"
      exclude := p.values "--exclude"
      workers := (p.value? "--workers").bind fun value => Integer.ofText? value.toList }
    output := (p.value? "--output").map Path.ofText }

/-- Whether a command tells the user about an error of a scan, instead of being ended by it. -/
def isReported : Scan.ScanError → Bool
  | .notDirectory _ => true
  | .script _ => true
  | .pack .tooDeep => true
  | .pack .outOfRange => false
  | .cache _ => false
  | .record _ => false

/-- Prints a graph, or writes it to a file. -/
def emit (ctx : Context) (t : Tree) (output : Option Path) (g : CallGraph) (document : String) :
    Outcome :=
  match output with
  | none => { ending := .ok 0, stdout := document, tree := t }
  | some path =>
      let state : FileState := ⟨Utf8.encode document.toList, ctx.clock.seconds⟩
      match t.write (path.fromTop ctx.here) state with
      | .error fault =>
          { ending := .ok 1
            stderr := "Failed to write " ++ path.text ++ ": " ++ fault.message path.text ++ "\n"
            tree := t }
      | .ok written =>
          { ending := .ok 0
            stderr := "Wrote " ++ toString g.nodes.length ++ " nodes and " ++
              toString g.edges.length ++ " edges to " ++ path.text ++ "\n"
            tree := written }

def runScan (ctx : Context) (args : ScanArguments) : Outcome :=
  let shown := ctx.tree.shown args.directory
  let op : Operation := { name := "scan", details := [("directory", shown)] }
  let run := Scan.scan ctx.env ctx.clock ctx.mishaps args.options ctx.tree args.directory
  match run.result with
  | .error error =>
      let log := op.log run.log (some error.message)
      if isReported error then
        { ending := .ok 1
          stderr := "Scan failed: " ++ error.message ++ "\n"
          log
          tree := run.tree }
      else { ending := .error (.scan error), log, tree := run.tree }
  | .ok report =>
      let g := CallGraph.build report.files
      let info : Document.GraphInfo := ⟨ctx.clock.text, report.directory, report.files⟩
      let document := (Document.ofGraph info g).toJson .indented ++ "\n"
      { emit ctx run.tree args.output g document with
        log := op.log (run.log ++ CallGraph.buildLog report.files) none }

/-! ### The program -/

def runForm (ctx : Context) (form : Form) (words : List String) : Outcome :=
  match parseWords form.options true words with
  | .error error => .refused ctx form error
  | .ok p =>
      if p.has "--help" then .helped ctx form
      else
        match form with
        | .parse =>
            match onlyArgument "FILE_PATH" (filePath ctx "FILE_PATH") p.rest with
            | .error error => .refused ctx form error
            | .ok path => runParse ctx path
        | .scan =>
            match scanArguments ctx p with
            | .error error => .refused ctx form error
            | .ok args => runScan ctx args
        | .program => .helped ctx form

/-- What the words before a command ask for. -/
inductive Request where
  | refused (error : UsageError)
  | version
  | help
  /-- A command with its words, and the log level that is asked for. -/
  | command (form : Form) (words : List String) (level : Option String)

/-- What given options of the program ask for by themselves; the first of them counts. -/
def Parsed.answer? (p : Parsed) : Option Request :=
  p.options.findSome? fun (name, _) =>
    if name = "--version" then some .version
    else if name = "--help" then some .help
    else none

def request (words : List String) : Request :=
  match parseWords Form.program.options false words with
  | .error error => .refused error
  | .ok p =>
      match p.answer?, p.rest with
      | some answer, _ => answer
      | none, [] => .refused .missingCommand
      | none, word :: later =>
          match Form.ofWord? word with
          | some form => .command form later (p.value? "--log-level")
          | none =>
              -- after `--` a word that looks like an option is taken for one first
              match parseWords Form.program.options false (word :: later) with
              | .error error => .refused error
              | .ok again => again.answer?.getD (.refused (Form.unknownCommand word))

structure ProgramRun where
  outcome : Outcome
  level : LogLevel
  /-- What the log shows, given the number of seconds that the work took. -/
  shown : String → Log

/-- Runs the program with its words, at a log level that the words may change. -/
def run (ctx : Context) (level : LogLevel) (words : List String) : ProgramRun :=
  let unchanged (outcome : Outcome) : ProgramRun := ⟨outcome, level, fun _ => []⟩
  match request words with
  | .refused error => unchanged (.refused ctx .program error)
  | .version =>
      unchanged { ending := .ok 0, stdout := "invograph, version " ++ Document.version ++ "\n"
                  tree := ctx.tree }
  | .help => unchanged (.helped ctx .program)
  | .command form later name =>
      let (chosen, warnings) := LogLevel.choose name ctx.env.logLevel
      let outcome := runForm ctx form later
      ⟨outcome, chosen, fun seconds =>
        Log.shown level warnings ++ Log.shown chosen (outcome.log seconds)⟩

end ScriptGraph.Command
