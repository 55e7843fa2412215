/-
# Expressions over the stored variables

An evaluator takes an expression and the variables, and gives a value or an error together with the
variables afterwards.  `Evaluator.ofInterpreter` makes one from an interpreter of the expression
language: a dollar sign before a name refers to the variable of that name, every variable whose name
the language can write is bound while the expression runs, and bound variables are stored again when
it has run.

An expression that fails stores nothing.  One whose result cannot be stored has stored its
variables, and if a variable cannot be stored then the ones before it are.
-/
import BlockFlow.Fault
import BlockFlow.Script.Eval
import BlockFlow.Text.Word

namespace BlockFlow

/-! ## 1. Evaluators -/

/-- Why an expression has no value. -/
inductive EvalError
  | failed (expr : String) (why : Script.Error)
  | unsupported (typeName : String)
  deriving Repr, DecidableEq

/-- The report of an evaluation error. -/
def EvalError.fault : EvalError → Fault
  | .failed expr why =>
    { kind := .script, code := "SCRIPT_EVAL_ERROR"
      message := "Expression \"" ++ expr ++ "\" failed: " ++ why.message }
  | .unsupported typeName =>
    { kind := .script, code := "SCRIPT_VALUE_UNSUPPORTED"
      message := "Unsupported expression result type \"" ++ typeName ++ "\"." }

/-- What evaluates expressions. -/
abbrev Evaluator := String → Namespace → Except EvalError Value × Namespace

/-- What runs a source of the expression language in a scope. -/
abbrev Interpreter := Script.Scope → String → Except Script.Error (Script.Datum × Script.Scope)

namespace Evaluator

/-! ## 2. Names of variables -/

/-- What stands before the names of stored variables. -/
def mark : String := "__sv_"

/-- The name under which a stored variable is bound. -/
def symbol (name : String) : String := mark ++ name

/-- The characters of an expression with every dollar sign before a name turned into the mark. -/
def markNames : List Char → List Char
  | [] => []
  | '$' :: c :: cs =>
    if Text.isNameStart c then mark.toList ++ markNames (c :: cs) else '$' :: markNames (c :: cs)
  | c :: cs => c :: markNames cs

/-- An expression in the names under which variables are bound. -/
def marked (expr : String) : String := String.ofList (markNames expr.toList)

/-- The names of the variables that can be bound. -/
def bindable (vars : Namespace) : List String := vars.keys.filter Text.isName

/-! ## 3. Scopes -/

/-- The scope of the variables that can be bound. -/
def scopeOf (vars : Namespace) : Script.Scope :=
  (vars.toList.filter fun v => Text.isName v.1).map fun v => (symbol v.1, Script.Datum.ofValue v.2)

/-- Stores the variables of a list of names from a scope, up to the first that cannot be stored. -/
def writeBack (after : Script.Scope) : List String → Namespace → Except EvalError Unit × Namespace
  | [], vars => (.ok (), vars)
  | name :: names, vars =>
    match after.get? (symbol name) with
    | none => writeBack after names vars
    | some d =>
      match d.toValue with
      | .ok v => writeBack after names (vars.insert name v)
      | .error typeName => (.error (.unsupported typeName), vars)

/-! ## 4. The evaluator of an interpreter -/

/-- Evaluates by an interpreter. -/
def ofInterpreter (run : Interpreter) : Evaluator := fun expr vars =>
  match run (scopeOf vars) (marked expr) with
  | .error why => (.error (.failed expr why), vars)
  | .ok (d, after) =>
    match writeBack after (bindable vars) vars with
    | (.error e, vars) => (.error e, vars)
    | (.ok (), vars) => (d.toValue.mapError .unsupported, vars)

/-- The evaluator of the expression language. -/
def standard : Evaluator := ofInterpreter Script.run

end Evaluator

end BlockFlow
