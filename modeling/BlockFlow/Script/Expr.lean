/-
# Expressions and statements

The tree of a source, and the names that it may use: every variable must be in scope where it is
read or written, also in a branch that is never run (`unboundIn?`).
-/
import BlockFlow.Script.Operator

namespace BlockFlow.Script

mutual

/-- An expression. -/
inductive Expr
  | literal (d : Datum)
  | variable (name : String)
  | list (items : List Expr)
  | map (fields : List (String × Expr))
  | negate (e : Expr)
  | affirm (e : Expr)
  | not (e : Expr)
  | operator (op : Operator) (l r : Expr)
  | both (l r : Expr)
  | either (l r : Expr)
  /-- The second if the first is the unit. -/
  | orElse (l r : Expr)
  | range (closed : Bool) (l r : Expr)
  | within (l r : Expr)
  | index (e i : Expr)
  | property (e : Expr) (name : String)
  | call (function : String) (args : List Expr)
  /-- A function of parameters, which is never called. -/
  | function (params : List String) (body : Expr)
  | choose (cond : Expr) (yes no : List Statement)
  | block (body : List Statement)

/-- A statement. -/
inductive Statement
  | expr (e : Expr)
  | assign (place : Expr) (op : Option Operator) (e : Expr)
  | define (name : String) (e : Option Expr)

end

instance : Inhabited Expr := ⟨.literal .unit⟩

/-! ## 1. Scopes -/

/-- The names in scope after a statement. -/
def Statement.namesAfter (names : List String) : Statement → List String
  | .define name _ => name :: names
  | _ => names

mutual

/-- The first variable of an expression that is not among the names. -/
def Expr.unbound? (names : List String) : Expr → Option String
  | .literal _ => none
  | .variable name => if names.contains name then none else some name
  | .list items => unboundInExprs? names items
  | .map fields => unboundInFields? names fields
  | .negate e | .affirm e | .not e => Expr.unbound? names e
  | .operator _ l r | .both l r | .either l r | .orElse l r | .range _ l r | .within l r
  | .index l r => (Expr.unbound? names l).or (Expr.unbound? names r)
  | .property e _ => Expr.unbound? names e
  | .call _ args => unboundInExprs? names args
  | .function params body => Expr.unbound? (params ++ names) body
  | .choose cond yes no =>
    ((Expr.unbound? names cond).or (unboundIn? names yes)).or (unboundIn? names no)
  | .block body => unboundIn? names body

/-- The first variable of a statement that is not among the names. -/
def Statement.unbound? (names : List String) : Statement → Option String
  | .expr e => Expr.unbound? names e
  | .assign place _ e => (Expr.unbound? names place).or (Expr.unbound? names e)
  | .define _ none => none
  | .define _ (some e) => Expr.unbound? names e

def unboundInExprs? (names : List String) : List Expr → Option String
  | [] => none
  | e :: es => (Expr.unbound? names e).or (unboundInExprs? names es)

def unboundInFields? (names : List String) : List (String × Expr) → Option String
  | [] => none
  | (_, e) :: fs => (Expr.unbound? names e).or (unboundInFields? names fs)

/-- The first variable of statements that is not among the names, nor defined by an earlier one. -/
def unboundIn? (names : List String) : List Statement → Option String
  | [] => none
  | s :: ss => (Statement.unbound? names s).or (unboundIn? (s.namesAfter names) ss)

end

end BlockFlow.Script
