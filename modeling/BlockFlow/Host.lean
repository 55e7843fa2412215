/-
# Hosts

A host runs the commands that are not flow commands, over the variables and a state of its own.

`Host.reference` is a host of few commands, enough to drive suites by hand: it collects texts, and
stores, compares and raises values.
-/
import BlockFlow.Command
import BlockFlow.Evaluator
import BlockFlow.Text.Placeholder

namespace BlockFlow

/-- What runs the commands that are not flow commands. -/
structure Host (σ : Type) where
  execute : Evaluator → Command → σ → Namespace → Except Fault Unit × σ × Namespace

/-! ## 1. Placeholders -/

/-- A text with the texts of variables in the place of their placeholders. -/
def Namespace.expand (vars : Namespace) (text : String) : String :=
  Text.expand (fun name => (vars.get? name).map Value.display) text

/-! ## 2. What the reference host reports -/

/-- Why a command of the reference host fails. -/
inductive HostError
  | variableMissing (command : String)
  | mismatch (actual expected : String)
  | failed (message : String)
  | unknown (command : String)
  deriving Repr, DecidableEq

/-- The report of a host error; every one can be caught. -/
def HostError.fault : HostError → Fault
  | .variableMissing command =>
    { kind := .script, code := "SCRIPT_COMMAND_INVALID"
      message := "'" ++ command ++ "' requires a variable name in its value." }
  | .mismatch actual expected =>
    { kind := .script, code := "SCRIPT_ASSERTION_FAILED"
      message := "Actual value '" ++ actual ++ "' did not match '" ++ expected ++ "'" }
  | .failed message => { kind := .script, code := "SCRIPT_COMMAND_FAILED", message }
  | .unknown command =>
    { kind := .script, code := "SCRIPT_UNKNOWN_COMMAND"
      message := "Unknown command: '" ++ command ++ "'" }

@[simp] theorem HostError.isCatchable_fault (e : HostError) : e.fault.isCatchable = true := by
  cases e <;> rfl

/-! ## 3. The reference host -/

/-- The texts that were echoed, the newest first. -/
abbrev Echoes := List String

/-- The variable that a command names in its value, a dollar sign in front or not. -/
def Command.variable? (c : Command) : Option String :=
  let name := match (Text.trim c.value).toList with
    | '$' :: cs => String.ofList cs
    | cs => String.ofList cs
  if name.isEmpty then none else some name

/-- What a command of the reference host does. -/
def Host.perform (evaluate : Evaluator) (c : Command) (echoes : Echoes) (vars : Namespace) :
    Except Fault Unit × Echoes × Namespace :=
  let fail (e : HostError) (vars : Namespace) := (.error e.fault, echoes, vars)
  match c.name with
  | "echo" => (.ok (), vars.expand c.target :: echoes, vars)
  | "store" =>
    match c.variable? with
    | none => fail (.variableMissing c.name) vars
    | some name => (.ok (), echoes, vars.insert name (.text (vars.expand c.target)))
  | "storeEval" =>
    match c.variable? with
    | none => fail (.variableMissing c.name) vars
    | some name =>
      match evaluate c.target vars with
      | (.error e, vars) => (.error e.fault, echoes, vars)
      | (.ok v, vars) => (.ok (), echoes, vars.insert name v)
  | "assertEval" =>
    match evaluate c.target vars with
    | (.error e, vars) => (.error e.fault, echoes, vars)
    | (.ok v, vars) =>
      let expected := vars.expand c.value
      if v.display = expected then (.ok (), echoes, vars)
      else fail (.mismatch v.display expected) vars
  | "fail" => fail (.failed (vars.expand c.target)) vars
  | "comment" | "pause" => (.ok (), echoes, vars)
  | name => fail (.unknown name) vars

/-- The reference host. -/
def Host.reference : Host Echoes := ⟨Host.perform⟩

end BlockFlow
