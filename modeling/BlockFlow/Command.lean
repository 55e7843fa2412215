/-
# Commands and units

A command is a row `name | target | value`, with the span of source text it was read from if it was
read from a text.  A unit is a named list of commands.

`commandRef` writes the reference by which faults name a command: the unit, the position counted
from one, and the row.
-/
import BlockFlow.Address
import BlockFlow.Location

namespace BlockFlow

/-! ## 1. Rows and units -/

/-- One row of a unit. -/
structure Command where
  name : String
  target : String := ""
  value : String := ""
  span : Option Span := none
  deriving Repr, DecidableEq, Inhabited

/-- A named list of commands. -/
structure ScriptUnit where
  name : String
  /-- Where the unit was read from; data files are looked up beside it. -/
  path : String
  commands : List Command
  deriving Repr, DecidableEq, Inhabited

/-- A unit that was not read from a file goes by its name. -/
def ScriptUnit.named (name : String) (commands : List Command) : ScriptUnit := ⟨name, name, commands⟩

/-! ## 2. Looking up addresses -/

/-- The command at an address. -/
def commandAt? (units : List ScriptUnit) (a : Address) : Option Command :=
  units[a.unit]?.bind fun u => u.commands[a.position]?

/-- The reference of the command at an address, for example `@main: 3: [if|$x > 1|]`.  An address
past the end of its unit, or of no unit, gets a shorter one. -/
def commandRef (units : List ScriptUnit) (a : Address) : String :=
  match units[a.unit]? with
  | none => "@" ++ a.toText
  | some u =>
    let place := "@" ++ u.name ++ ": " ++ toString (a.position + 1)
    match u.commands[a.position]? with
    | some c => place ++ ": [" ++ c.name ++ "|" ++ c.target ++ "|" ++ c.value ++ "]"
    | none => place

/-- An address that no command of the suite has. -/
inductive Address.OutOfRange
  | unit (a : Address)
  | position (a : Address) (unitName : String) (size : Nat)
  deriving Repr, DecidableEq

/-- The report of an address out of range. -/
def Address.OutOfRange.fault (e : Address.OutOfRange) : Fault where
  kind := .address
  code := "ADDRESS_OUT_OF_RANGE"
  message := match e with
    | .unit a =>
      "Unit index " ++ toString a.unit ++ " is out of range in address " ++ a.toText ++ "."
    | .position a name size =>
      "Position " ++ toString a.position ++ " is out of range for unit \"" ++ name ++ "\" (" ++
        toString size ++ " commands)."

/-- The command at an address, or the way in which the address is out of range. -/
def Command.locate (units : List ScriptUnit) (a : Address) : Except Address.OutOfRange Command :=
  match units[a.unit]? with
  | none => .error (.unit a)
  | some u =>
    match u.commands[a.position]? with
    | none => .error (.position a u.name u.commands.length)
    | some c => .ok c

/-- Checks that an address is a command's. -/
def Address.check (units : List ScriptUnit) (a : Address) : Except Address.OutOfRange Address :=
  (Command.locate units a).map fun _ => a

theorem Command.locate_eq_ok_iff {units : List ScriptUnit} {a : Address} {c : Command} :
    Command.locate units a = .ok c ↔ commandAt? units a = some c := by
  unfold Command.locate commandAt?
  cases hu : units[a.unit]? with
  | none => simp
  | some u => cases hc : u.commands[a.position]? <;> simp [hc]

/-- The check succeeds exactly where there is a command. -/
theorem Address.check_eq_ok_iff {units : List ScriptUnit} {a b : Address} :
    a.check units = .ok b ↔ b = a ∧ (commandAt? units a).isSome := by
  unfold Address.check
  cases h : Command.locate units a with
  | error e =>
    have : commandAt? units a = none := by
      cases hc : commandAt? units a with
      | none => rfl
      | some c => rw [Command.locate_eq_ok_iff.2 hc] at h; simp at h
    simp [Except.map, this]
  | ok c => simp [Except.map, Command.locate_eq_ok_iff.1 h, eq_comm]

end BlockFlow
