/-
# The command line

Two commands: `run` runs a suite with the reference host, and `check` compiles one and counts what is
in it.  `Request.parse` reads the arguments, and `Request.answer` gives the exit code and the lines to
print.
-/
import BlockFlow.Json.Writer
import BlockFlow.Run
import BlockFlow.UnitFiles

namespace BlockFlow.CommandLine

/-! ## 1. Arguments -/

/-- What the arguments ask for. -/
inductive Request
  | run (suiteDir : String) (entry dataDir : Option String) (maxSteps : Option Nat)
  | check (suiteDir : String)
  deriving Repr, DecidableEq

/-- Arguments that ask for nothing: a call for help, or a mistake. -/
inductive Usage
  | help
  | mistake
  deriving Repr, DecidableEq

/-- The exit code after arguments that ask for nothing. -/
def Usage.code : Usage → Nat
  | .help => 0
  | .mistake => 2

/-- The flags of the two commands. -/
def runFlags : List String := ["--suite-dir", "--entry-unit", "--data-dir", "--max-steps"]

/-- The flags of the second command. -/
def checkFlags : List String := ["--suite-dir"]

/-- Whether an argument is a call for help. -/
def isHelp (arg : String) : Bool := arg == "--help" || arg == "-h"

/-- Whether an argument is a flag rather than a value. -/
def isFlag (arg : String) : Bool := arg.toList.head? == some '-' && arg != "-"

/-- A flag with the value written in the same argument, if there is one. -/
def splitFlag (arg : String) : String × Option String :=
  let cs := arg.toList
  match cs.dropWhile (· != '=') with
  | [] => (arg, none)
  | _ :: value => (String.ofList (cs.takeWhile (· != '=')), some (String.ofList value))

/-- A number of steps. -/
def count? (s : String) : Option Nat := Address.count? s.toList

/-- Adds the value of a flag, which must be known, new and, for a number of steps, a number. -/
def addFlag (known : List String) (seen : List (String × String)) (name value : String) :
    Except Usage (List (String × String)) :=
  if !known.contains name || seen.any (fun f => f.1 == name) then .error .mistake
  else if name == "--max-steps" && (count? value).isNone then .error .mistake
  else .ok (seen ++ [(name, value)])

/-- The values of flags, after those already seen. -/
def flags (known : List String) (seen : List (String × String)) :
    List String → Except Usage (List (String × String))
  | [] => .ok seen
  | arg :: args =>
    if isHelp arg then .error .help
    else
      match splitFlag arg, args with
      | (name, some value), args => do flags known (← addFlag known seen name value) args
      | ("--", none), args => if args.isEmpty then .ok seen else .error .mistake
      | (name, none), value :: args =>
        if isFlag value then .error .mistake
        else do flags known (← addFlag known seen name value) args
      | (_, none), [] => .error .mistake

/-- The value of a flag. -/
def valueOf? (name : String) (seen : List (String × String)) : Option String :=
  (seen.find? fun f => f.1 == name).map Prod.snd

/-- Reads arguments. -/
def Request.parse : List String → Except Usage Request
  | "run" :: args => do
    let seen ← flags runFlags [] args
    match valueOf? "--suite-dir" seen with
    | none => throw .mistake
    | some dir =>
      return .run dir (valueOf? "--entry-unit" seen) (valueOf? "--data-dir" seen)
        ((valueOf? "--max-steps" seen).bind count?)
  | "check" :: args => do
    let seen ← flags checkFlags [] args
    match valueOf? "--suite-dir" seen with
    | none => throw .mistake
    | some dir => return .check dir
  | ["help"] | ["help", "run"] | ["help", "check"] | ["help", "help"] => .error .help
  | arg :: _ => .error (if isHelp arg then .help else .mistake)
  | [] => .error .mistake

/-! ## 2. Directories and sources -/

/-- Why the sources of a suite cannot be had. -/
inductive SourcesError
  | notFound (flag path : String)
  | notDirectory (flag path : String)
  | unreadable (why : Files.ReadError)
  | empty (path : String)
  deriving Repr, DecidableEq

/-- The report of a sources error. -/
def SourcesError.fault : SourcesError → Fault
  | .notFound flag path =>
    { kind := .assertion, code := "CLI_SOURCE_NOT_FOUND"
      message := flag ++ " does not exist: " ++ path }
  | .notDirectory flag path =>
    { kind := .assertion, code := "CLI_SOURCE_NOT_DIR"
      message := flag ++ " is not a directory: " ++ path }
  | .unreadable why => { kind := .assertion, code := "CLI_SOURCE_READ", message := why.message }
  | .empty path =>
    { kind := .assertion, code := "CLI_SOURCE_EMPTY"
      message := "No .unit.xml/.html files under " ++ path }

/-- The absolute path of a directory that a flag names. -/
def directory (fs : Files) (dir flag : String) : Except SourcesError String :=
  let path := Path.join fs.workingDirectory dir
  if !fs.exists? path then .error (.notFound flag path)
  else if !fs.isDirectory path then .error (.notDirectory flag path)
  else .ok path

/-- The sources of the units below a directory, of which there must be one. -/
def unitSources (fs : Files) (dir : String) : Except SourcesError (Dict String String) := do
  let sources ← (fs.unitSources dir).mapError fun f => .unreadable f.why
  if sources.toList.isEmpty then throw (.empty dir)
  return sources

/-! ## 3. Lines -/

/-- The lines that describe a fault. -/
def faultLines (f : Fault) : List String :=
  ["ERROR_CODE:" ++ f.code, "ERROR_MSG_JSON:" ++ Json.quote f.message] ++
    f.ref.toList.map fun ref => "ERROR_REF_JSON:" ++ Json.quote ref

/-- The lines that describe how a run ended. -/
def outcomeLines : Outcome → List String
  | .passed => ["OUTCOME:PASSED"]
  | .exited => ["OUTCOME:EXITED"]
  | .failed f => "OUTCOME:FAILED" :: faultLines f

/-- The exit code after a run. -/
def outcomeCode : Outcome → Nat
  | .failed _ => 1
  | _ => 0

/-- An exit code and the lines to print. -/
structure Answer where
  code : Nat
  lines : List String := []
  deriving Repr, DecidableEq

/-- The answer to a run. -/
def runAnswer (report : Report) (echoes : List String) : Answer where
  code := outcomeCode report.outcome
  lines := "RESULT:OK" :: (echoes.map fun t => "ECHO_JSON:" ++ Json.quote t) ++
    ("STEPS:" ++ toString report.steps) :: outcomeLines report.outcome

/-- The answer to a check. -/
def checkAnswer (s : Suite) : Answer where
  code := 0
  lines := "RESULT:OK" :: (s.units.map fun u => "UNIT_JSON:" ++ Json.quote u.name) ++
    ["BLOCKS:" ++ toString s.tables.blocks.size, "FUNCTIONS:" ++ toString s.tables.functions.size]

/-- The answer when something is in the way. -/
def faultAnswer (f : Fault) : Answer := { code := 1, lines := "RESULT:ERROR" :: faultLines f }

/-! ## 4. Requests -/

/-- The answer to a request, or what is in the way. -/
def Request.answer? (fs : Files) : Request → Except Fault Answer
  | .run suiteDir entry dataDir maxSteps => do
    let dir ← (directory fs suiteDir "suite-dir").mapError SourcesError.fault
    let data ← match dataDir with
      | some d => (directory fs d "data-dir").mapError SourcesError.fault
      | none => Except.ok dir
    let sources ← (unitSources fs dir).mapError SourcesError.fault
    let g : Flow.Setting := { evaluate := Evaluator.standard, files := fs, dataDir := some data }
    let options : RunOptions := { entry, maxSteps := maxSteps.getD (RunOptions.maxSteps {}) }
    let (report, echoes) ← runSources g options sources
    return runAnswer report echoes
  | .check suiteDir => do
    let dir ← (directory fs suiteDir "suite-dir").mapError SourcesError.fault
    let sources ← (unitSources fs dir).mapError SourcesError.fault
    return checkAnswer (← Suite.ofSources sources)

/-- The directories that a request names. -/
def Request.directories : Request → List String
  | .run suiteDir _ dataDir _ => suiteDir :: dataDir.toList
  | .check suiteDir => [suiteDir]

/-- Whether a command names a data file in its target. -/
def namesData (c : Command) : Bool :=
  match Keyword.ofName? c.name with
  | some (k, false) => [Keyword.forJson, .forXml, .loadJsonVars, .loadXmlVars].contains k
  | _ => false

/-- The data files that the commands of units name. -/
def dataFiles (g : Flow.Setting) (units : List ScriptUnit) : List String :=
  let s := Flow.Session.fresh { units }
  units.zipIdx.flatMap fun (u, index) =>
    (u.commands.filter namesData).map fun c => Flow.dataPath g s index (Text.trim c.target)

/-- The data files that a request may read. -/
def Request.dataFiles (fs : Files) : Request → List String
  | .run suiteDir _ dataDir _ =>
    let dir := Path.join fs.workingDirectory suiteDir
    let data := Path.join fs.workingDirectory (dataDir.getD suiteDir)
    match fs.unitSources dir with
    | .error _ => []
    | .ok sources =>
      match ScriptUnit.readAll sources with
      | .error _ => []
      | .ok units =>
        CommandLine.dataFiles
          { evaluate := Evaluator.standard, files := fs, dataDir := some data } units
  | .check _ => []

/-- The answer to a request. -/
def Request.answer (fs : Files) (r : Request) : Answer :=
  match r.answer? fs with
  | .ok a => a
  | .error f => faultAnswer f

/-- The answer to arguments. -/
def answer (fs : Files) (args : List String) : Answer :=
  match Request.parse args with
  | .ok r => r.answer fs
  | .error u => { code := u.code }

end BlockFlow.CommandLine
