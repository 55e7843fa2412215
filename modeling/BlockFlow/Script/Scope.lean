/-
# Scopes and places

A scope lists variables with their data, the innermost first.  A place is a variable, or a part of
one reached by indices and properties.

`Datum.part?` reads a part of a datum, and `Datum.alter` changes one: a map takes a new key where
it had none, a list and a text only change what they have.
-/
import BlockFlow.Script.Operator

namespace BlockFlow.Script

/-! ## 1. Scopes -/

/-- Variables in scope, innermost first. -/
abbrev Scope := List (String × Datum)

namespace Scope

/-- The datum of a variable. -/
def get? (name : String) (sc : Scope) : Option Datum := (sc.find? fun v => v.1 == name).map Prod.snd

/-- Changes the datum of the innermost variable with a name. -/
def alter (name : String) (f : Datum → Option Datum) : Scope → Option Scope
  | [] => none
  | v :: sc =>
    if v.1 == name then (f v.2).map fun d => (v.1, d) :: sc
    else (alter name f sc).map (v :: ·)

/-- A scope without the variables defined since it had a number of them. -/
def rewind (size : Nat) (sc : Scope) : Scope := sc.drop (sc.length - size)

end Scope

/-! ## 2. Parts -/

/-- One step from a datum to a part of it. -/
inductive Step
  | index (i : Datum)
  | property (name : String)
  deriving Inhabited

/-- The position that an index means; a negative one counts from the end. -/
def position? (i : Int64) (size : Nat) : Option Nat :=
  let p := if i.toInt < 0 then i.toInt + size else i.toInt
  if 0 ≤ p ∧ p < size then some p.toNat else none

namespace Datum

/-- The field of a map; a missing one is the unit. -/
def field (fields : List (String × Datum)) (key : String) : Datum :=
  ((fields.find? fun f => f.1 == key).map Prod.snd).getD .unit

/-- The number of elements, of characters or of fields. -/
def size? : Datum → Option Nat
  | .text s => some s.length
  | .list items => some items.length
  | .map fields => some fields.length
  | _ => none

/-- A count as an integer. -/
def ofCount (n : Nat) : Datum := .int (Int64.ofNat n)

/-- The part of a datum that a step leads to. -/
def part? : Datum → Step → Option Datum
  | .list items, .index (.int i) => do items[← position? i items.length]?
  | .text s, .index (.int i) => do
    return .char (← s.toList[← position? i s.length]?)
  | .map fields, .index (.text key) => some (field fields key)
  | .map fields, .property key => some (field fields key)
  | .list items, .property "len" => some (ofCount items.length)
  | .text s, .property "len" => some (ofCount s.length)
  | _, _ => none

/-- Changes the part of a datum that steps lead to. -/
def alter (f : Datum → Option Datum) : List Step → Datum → Option Datum
  | [], d => f d
  | .index (.int i) :: steps, .list items => do
    let p ← position? i items.length
    return .list (items.set p (← alter f steps (← items[p]?)))
  | .index (.int i) :: steps, .text s => do
    let p ← position? i s.length
    match ← alter f steps (.char (← s.toList[p]?)) with
    | .char c => return .text (String.ofList (s.toList.set p c))
    | _ => none
  | .index (.text key) :: steps, .map fields | .property key :: steps, .map fields => do
    return .map (Entries.put key (← alter f steps (field fields key)) fields)
  | _, _ => none

end Datum

/-! ## 3. Assignments -/

/-- What an assignment by an operator gives on the old datum and the operand; a list takes an
operand that is no list as one more element. -/
def assigned (op : Option Operator) (operand old : Datum) : Option Datum :=
  match op, old, operand with
  | none, _, d => some d
  | some .add, .list items, .list more => some (.list (items ++ more))
  | some .add, .list items, d => some (.list (items ++ [d]))
  | some op, old, d => op.apply old d

end BlockFlow.Script
