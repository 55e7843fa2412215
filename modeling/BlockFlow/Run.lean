/-
# Runs

A run drives a session from the first command of its entry unit, one command a step: flow commands
are the session's, all others the host's.  A fault goes to the tries that are running, and a run ends
when there is no next command, when it was asked to end, at a fault that nothing handles, or after a
number of steps.
-/
import BlockFlow.Flow.Execute
import BlockFlow.Host
import BlockFlow.Source

namespace BlockFlow

open BlockFlow.Flow

/-! ## 1. One step -/

/-- A session and the state of its host. -/
structure World (σ : Type) where
  session : Session
  host : σ

/-- What became of one step. -/
inductive StepResult
  | done
  /-- A command failed with a fault, and a try handled it. -/
  | handled (f : Fault)
  | unhandled (f : Fault)
  deriving Repr, DecidableEq

namespace World

variable {σ : Type} (g : Setting) (h : Host σ)

/-- Runs a flow command. -/
def execute (a : Address) (w : World σ) : Except Fault Unit × World σ :=
  let (r, session) := w.session.execute g a
  (r, { w with session })

/-- Has the host run a command. -/
def delegate (c : Command) (w : World σ) : Except Fault Unit × World σ :=
  let (r, host, vars) := h.execute g.evaluate c w.host w.session.vars
  (r, { session := { w.session with vars }, host })

/-- Runs the command at an address. -/
def runCommand (a : Address) (w : World σ) : Except Fault Unit × World σ :=
  match w.session.suite.commandAt? a with
  | some c => if handles c.name then w.execute g a else w.delegate g h c
  | none => w.execute g a

/-- Offers a fault to the tries that are running. -/
def handleFault (f : Fault) (w : World σ) : Disposition × World σ :=
  let (d, session) := Flow.handleFault g f w.session
  (d, { w with session })

/-- Runs the command at an address and offers its fault, if it has one, to the tries. -/
def step (a : Address) (w : World σ) : StepResult × World σ :=
  match w.runCommand g h a with
  | (.ok (), w) => (.done, w)
  | (.error f, w) =>
    match w.handleFault g f with
    | (.handled, w) => (.handled f, w)
    | (.unhandled f, w) => (.unhandled f, w)

/-- The address of the next command, given the one that follows in the unit. -/
def next (default : Option Address) (w : World σ) : Option Address × World σ :=
  let (a, session) := w.session.next default
  (a, { w with session })

/-- Leaves everything that is running. -/
def abandon (w : World σ) : World σ := { w with session := w.session.abandon }

end World

/-! ## 2. Entry units -/

/-- Why a run does not start. -/
inductive EntryError
  | notFound (name : String)
  | mainNotFound
  deriving Repr, DecidableEq

/-- The report of an entry error. -/
def EntryError.fault : EntryError → Fault
  | .notFound name =>
    { kind := .assertion, code := "API_ENTRY_UNIT_NOT_FOUND"
      message := "Entry unit \"" ++ name ++ "\" is not registered." }
  | .mainNotFound =>
    { kind := .assertion, code := "API_ENTRY_MAIN_NOT_FOUND"
      message := "Expected a unit with name=\"main\" as default entry." }

/-- The unit in which a run starts; without a name, the main unit. -/
def Suite.entry (s : Suite) : Option String → Except EntryError Nat
  | some name => (s.unitIndex? name).elim (.error (.notFound name)) .ok
  | none => (s.unitIndex? "main").elim (.error .mainNotFound) .ok

/-! ## 3. Whole runs -/

/-- How a run ended. -/
inductive Outcome
  | passed
  /-- It was asked to end. -/
  | exited
  | failed (f : Fault)
  deriving Repr, DecidableEq, Inhabited

/-- How a run ended, and after how many steps. -/
structure Report where
  outcome : Outcome
  steps : Nat
  deriving Repr, DecidableEq, Inhabited

/-- Where a run starts, and how many steps it may take. -/
structure RunOptions where
  entry : Option String := none
  maxSteps : Nat := 100000
  deriving Repr, DecidableEq, Inhabited

/-- The fault of a run that takes too many steps. -/
def stepLimit (maxSteps : Nat) : Fault where
  kind := .assertion
  code := "API_STEP_LIMIT"
  message := "Run exceeded max_steps=" ++ toString maxSteps ++ "."

namespace World

variable {σ : Type} (g : Setting) (h : Host σ)

/-- Ends a run at an address because it took all its steps. -/
def exhaust (maxSteps : Nat) (a : Address) (w : World σ) : Report × World σ :=
  (⟨.failed ((stepLimit maxSteps).attach (w.session.suite.commandRef a)), maxSteps⟩, w.abandon)

/-- Drives a run for the steps that are left of a number of them. -/
def drive (maxSteps : Nat) : Nat → Option Address → World σ → Report × World σ
  | 0, default, w =>
    match w.next default with
    | (none, w) => (⟨.passed, maxSteps⟩, w)
    | (some a, w) => w.exhaust maxSteps a
  | left + 1, default, w =>
    match w.next default with
    | (none, w) => (⟨.passed, maxSteps - (left + 1)⟩, w)
    | (some a, w) =>
      match w.step g h a with
      | (.unhandled f, w) => (⟨.failed f, maxSteps - left⟩, w.abandon)
      | (_, w) =>
        if w.session.exitRequested then (⟨.exited, maxSteps - left⟩, w.abandon)
        else drive maxSteps left (w.session.suite.successor? a) w

/-- Runs a suite from its entry unit. -/
def run (options : RunOptions) (w : World σ) : Except Fault Report × World σ :=
  match w.session.beforeRun with
  | (some e, session) => (.error (e.fault session.suite.units), { w with session })
  | (none, session) =>
    let w := { w with session }
    match session.suite.entry options.entry with
    | .error e => (.error e.fault, w)
    | .ok unit =>
      let (report, w) :=
        w.drive g h options.maxSteps options.maxSteps (session.suite.present? ⟨unit, 0⟩)
      (.ok report, w)

end World

/-! ## 4. Runs from sources -/

/-- Reads the units of a suite from their sources and compiles them. -/
def Suite.ofSources (sources : Dict String String) : Except Fault Suite := do
  let units ← ScriptUnit.readAll sources
  (Suite.compile units).mapError (CompileError.fault units)

/-- Runs a suite from its sources with the reference host: how it ended, and what it echoed. -/
def runSources (g : Setting) (options : RunOptions) (sources : Dict String String) :
    Except Fault (Report × List String) := do
  let suite ← Suite.ofSources sources
  let world : World Echoes := { session := Session.fresh suite, host := [] }
  match world.run g Host.reference options with
  | (.error f, _) => throw f
  | (.ok report, w) => return (report, w.host.reverse)

end BlockFlow
