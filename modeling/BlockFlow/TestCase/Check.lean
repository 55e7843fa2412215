/-
# Checking suites against test cases

`TestCase.observe` runs the units of a directory and gives the events, and `TestCase.check` compares
them with those that a test case expects.  Data files are looked up in the directory.
-/
import BlockFlow.Run
import BlockFlow.TestCase.Basic
import BlockFlow.UnitFiles

namespace BlockFlow

/-! ## 1. Errors -/

/-- Why a suite does not pass its test case. -/
inductive CaseError
  | unreadable (file : Unreadable)
  | malformed (path : String)
  | schema (found : String)
  | noUnits (dir : String)
  | engine (f : Fault)
  | unfinished (maxSteps : Nat)
  | count (expected : Nat) (observed : List Event)
  | event (index : Nat) (expected observed : Event)
  deriving Repr, DecidableEq

/-- The words for a case error. -/
def CaseError.message : CaseError → String
  | .unreadable file => "cannot read " ++ file.path ++ ": " ++ file.why.message
  | .malformed path => "testcase " ++ path ++ " is not valid JSON: "
  | .schema found =>
    "testcase schema \"" ++ found ++ "\" is not supported (want \"" ++ TestCase.schema ++ "\")"
  | .noUnits dir => "suite directory " ++ dir ++ " holds no .unit.xml or .html units"
  | .engine f => f.text
  | .unfinished maxSteps => "run did not finish within " ++ toString maxSteps ++ " steps"
  | .count expected observed =>
    "expected " ++ toString expected ++ " events but observed " ++ toString observed.length ++
      ":\n" ++ Event.prettyList observed
  | .event index expected observed =>
    "event #" ++ toString index ++ " differs: expected " ++ expected.compact ++ ", observed " ++
      observed.compact

namespace TestCase

/-! ## 2. Files -/

/-- The sources of the units below a directory, of which there must be one. -/
def unitSources (fs : Files) (dir : String) : Except CaseError (Dict String String) := do
  let sources ← (fs.unitSources dir).mapError .unreadable
  if sources.toList.isEmpty then throw (.noUnits dir)
  return sources

/-- Reads a test case. -/
def read (fs : Files) (path : String) : Except CaseError TestCase := do
  let text ← (fs.read path).mapError fun why => .unreadable ⟨path, why⟩
  match (Json.read? text).bind TestCase.ofJson? with
  | none => throw (.malformed path)
  | some c => if c.schemaVersion = schema then return c else throw (.schema c.schemaVersion)

/-! ## 3. Runs -/

/-- What was observed of a run, and the number of its steps. -/
structure Observation where
  events : List Event
  steps : Nat
  deriving Repr, DecidableEq

/-- The event that ends a run; a run that takes all its steps has none. -/
def lastEvent? : Outcome → Option Event
  | .passed => some .passed
  | .exited => some .exited
  | .failed f => if f.code = (stepLimit 0).code then none else some (.failed f.code)

/-- Runs the units below a directory. -/
def observe (c : TestCase) (fs : Files) (dir : String) : Except CaseError Observation := do
  let sources ← unitSources fs dir
  let maxSteps := c.maxSteps.getD (RunOptions.maxSteps {})
  let g : Flow.Setting := { evaluate := Evaluator.standard, files := fs, dataDir := some dir }
  let (report, echoes) ←
    (runSources g { entry := some c.entry, maxSteps } sources).mapError .engine
  match lastEvent? report.outcome with
  | none => throw (.unfinished maxSteps)
  | some e => return ⟨echoes.map .echo ++ [e], report.steps⟩

/-- Compares events from an index on. -/
def compare (index : Nat) : List Event → List Event → Except CaseError Unit
  | e :: es, o :: os => if e = o then compare (index + 1) es os else throw (.event index e o)
  | _, _ => return

/-- Checks the units below a directory against the test case at a path. -/
def check (fs : Files) (dir path : String) : Except CaseError Unit := do
  let c ← read fs path
  let seen ← c.observe fs dir
  if seen.events.length ≠ c.expected.length then throw (.count c.expected.length seen.events)
  compare 0 c.expected seen.events

end TestCase

end BlockFlow
