/-
# Evaluating expressions

Expressions are evaluated in a scope that statements may change; whatever goes wrong ends the
evaluation without a value.  The value of a list of statements is that of the last one, and the unit for none.

`Script.run` evaluates a source: it must be well formed, and every variable in it must be in scope.
-/
import BlockFlow.Script.Error
import BlockFlow.Script.Parser
import BlockFlow.Script.Scope
import BlockFlow.Text.Upper

namespace BlockFlow.Script

/-! ## 1. Operands -/

/-- A truth value. -/
def Datum.asBool? : Datum → Option Bool
  | .bool b => some b
  | _ => none

/-- A number with the opposite sign. -/
def Datum.negated? : Datum → Option Datum
  | .int n => checked? (-n.toInt)
  | .float x => some (.float (-x))
  | _ => none

/-- A number as it is. -/
def Datum.affirmed? : Datum → Option Datum
  | .int n => some (.int n)
  | .float x => some (.float x)
  | _ => none

/-- The range between two integers. -/
def rangeOf? (closed : Bool) : Datum → Datum → Option Datum
  | .int _, .int _ =>
    some (.foreign (if closed then "core::ops::range::RangeInclusive<i64>"
      else "core::ops::range::Range<i64>"))
  | _, _ => none

/-- What a function gives on its arguments. -/
def callOf? (function : String) (args : List Datum) : Option Datum :=
  match function, args with
  | "len", [d] => d.size?.map Datum.ofCount
  | "contains", [d, x] => (x.within? d).map .bool
  | "to_upper", [.text s] => some (.text (Text.upper s))
  | "to_upper", [.char c] =>
    match Text.upperChar c with
    | [d] => some (.char d)
    | _ => some (.char c)
  | "type_of", [d] => some (.text d.typeName)
  | "blob", [] => some (.foreign "blob")
  | _, _ => none

/-! ## 2. Evaluation -/

/-- An evaluation in a scope. -/
abbrev Evaluation := StateT Scope Option

/-- The same evaluation, after which the variables that it defined are gone. -/
def Evaluation.enclosed {α : Type} (run : Evaluation α) : Evaluation α := fun sc =>
  (run sc).map fun r => (r.1, Scope.rewind sc.length r.2)

mutual

/-- Evaluates an expression. -/
def Expr.eval : Expr → Evaluation Datum
  | .literal d => pure d
  | .variable name => do (← get).get? name
  | .list items => do return .list (← evalList items)
  | .map fields => do return .map (Dict.ofList (← evalFields fields)).toList
  | .negate e => do (← e.eval).negated?
  | .affirm e => do (← e.eval).affirmed?
  | .not e => do return .bool !(← (← e.eval).asBool?)
  | .operator op l r => do
    let a ← l.eval
    let b ← r.eval
    op.apply a b
  | .both l r => do
    let a ← (← l.eval).asBool?
    if a then return .bool (← (← r.eval).asBool?) else return .bool false
  | .either l r => do
    let a ← (← l.eval).asBool?
    if a then return .bool true else return .bool (← (← r.eval).asBool?)
  | .orElse l r => do
    match ← l.eval with
    | .unit => r.eval
    | d => return d
  | .range closed l r => do
    let a ← l.eval
    let b ← r.eval
    rangeOf? closed a b
  | .within l r => do
    let a ← l.eval
    let b ← r.eval
    return .bool (← a.within? b)
  | .index e i => do
    let d ← e.eval
    let i ← i.eval
    d.part? (.index i)
  | .property e name => do (← e.eval).part? (.property name)
  | .call function args => do callOf? function (← evalList args)
  | .function _ _ => pure (.foreign "Fn")
  | .choose cond yes no => do
    let holds ← (← cond.eval).asBool?
    if holds then (evalStatements yes .unit).enclosed else (evalStatements no .unit).enclosed
  | .block body => (evalStatements body .unit).enclosed

def evalList : List Expr → Evaluation (List Datum)
  | [] => pure []
  | e :: es => do
    let d ← e.eval
    return d :: (← evalList es)

def evalFields : List (String × Expr) → Evaluation (List (String × Datum))
  | [] => pure []
  | (key, e) :: fs => do
    let d ← e.eval
    return (key, d) :: (← evalFields fs)

/-- The variable and the steps of a place, from the variable on. -/
def Expr.place : Expr → Evaluation (String × List Step)
  | .variable name => pure (name, [])
  | .index e i => do
    let (name, steps) ← e.place
    return (name, steps ++ [.index (← i.eval)])
  | .property e key => do
    let (name, steps) ← e.place
    return (name, steps ++ [.property key])
  | _ => fun _ => none

/-- Evaluates a statement; only an expression has a value. -/
def Statement.eval : Statement → Evaluation Datum
  | .expr e => e.eval
  | .assign place op e => do
    let operand ← e.eval
    let (name, steps) ← place.place
    set (← (← get).alter name (Datum.alter (assigned op operand) steps))
    return .unit
  | .define name none => do
    modify ((name, .unit) :: ·)
    return .unit
  | .define name (some e) => do
    let d ← e.eval
    modify ((name, d) :: ·)
    return .unit

/-- Evaluates statements; the value is that of the last one, or the given one. -/
def evalStatements : List Statement → Datum → Evaluation Datum
  | [], d => pure d
  | s :: ss, _ => do evalStatements ss (← s.eval)

end

/-! ## 3. Sources -/

/-- The value of a source and the scope after it. -/
def run (scope : Scope) (source : String) : Except Error (Datum × Scope) :=
  match parse? source with
  | none => .error .malformed
  | some body =>
    match unboundIn? (scope.map Prod.fst) body with
    | some name => .error (.undefined name (Token.place name source))
    | none =>
      match evalStatements body .unit scope with
      | some r => .ok r
      | none => .error .failed

end BlockFlow.Script
