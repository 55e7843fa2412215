/-
# Suites

A suite is a list of units with the tables that compiling them gives: the block map, which links the
commands of every construct to one another, and the addresses of functions and labels.

A `Block` is one command that takes part in a construct.  An opener knows its closer and its
branches or sections; every other block knows its opener.
-/
import BlockFlow.Command
import BlockFlow.Dict
import BlockFlow.Keyword

namespace BlockFlow

/-! ## 1. Blocks -/

/-- What is known, before any run, about a command that takes part in a construct. -/
structure Block where
  address : Address
  keyword : Keyword
  /-- Name of a function, or of a try section. -/
  name : Option String := none
  /-- The opener that a branch, section, closer or jump belongs to. -/
  opener : Option Address := none
  /-- The `elseIf` commands of an `if`, in order. -/
  elseIfs : List Address := []
  /-- The `else` of an `if`. -/
  elseAt : Option Address := none
  /-- The `catch` of a `try`. -/
  catchAt : Option Address := none
  /-- The `finally` of a `try`, also known to its `catch`. -/
  finallyAt : Option Address := none
  /-- The closer, known to the opener and to its branches or sections. -/
  closer : Option Address := none
  deriving Repr, DecidableEq, Inhabited

/-- The nature of the construct that the block opens. -/
def Block.nature? (b : Block) : Option Nature := b.keyword.opens?

/-! ## 2. Symbols -/

/-- A label is known within its unit. -/
structure LabelKey where
  unit : Nat
  label : String
  deriving Repr, DecidableEq, Inhabited

namespace LabelKey

instance : Ord LabelKey := ⟨compareLex (compareOn unit) (compareOn label)⟩

theorem compare_def (a b : LabelKey) :
    compare a b = (compare a.unit b.unit).then (compare a.label b.label) := rfl

instance : Std.TransOrd LabelKey :=
  inferInstanceAs (Std.TransCmp (compareLex (compareOn unit) (compareOn label)))

instance : Std.LawfulEqOrd LabelKey where
  compare_self := by simp
  eq_of_compare {a b} h := by
    rw [compare_def, Ordering.then_eq_eq] at h
    obtain ⟨u, p⟩ := a
    obtain ⟨v, q⟩ := b
    simp_all

/-- The key of a label as it is written in a command. -/
def ofText (label : String) (unit : Nat) : LabelKey := ⟨unit, Text.trim label⟩

/-- The written form. -/
def toText (k : LabelKey) : String := toString k.unit ++ "/" ++ k.label

end LabelKey

/-! ## 3. Tables and suites -/

/-- What compiling units gives. -/
structure Tables where
  blocks : Dict Address Block := ∅
  functions : Dict String Address := ∅
  labels : Dict LabelKey Address := ∅
  deriving Inhabited

/-- Units and the tables made from them. -/
structure Suite where
  units : List ScriptUnit := []
  tables : Tables := {}
  deriving Inhabited

namespace Suite

/-- The block at an address. -/
def blockAt? (s : Suite) (a : Address) : Option Block := s.tables.blocks.get? a

/-- The command at an address. -/
def commandAt? (s : Suite) (a : Address) : Option Command := BlockFlow.commandAt? s.units a

/-- The reference of the command at an address. -/
def commandRef (s : Suite) (a : Address) : String := BlockFlow.commandRef s.units a

/-- The index of the first unit with a name. -/
def unitIndex? (s : Suite) (name : String) : Option Nat := s.units.findIdx? fun u => u.name == name

/-- The address itself, if a command is there. -/
def present? (s : Suite) (a : Address) : Option Address := (s.commandAt? a).map fun _ => a

/-- The address after another one, if a command is there. -/
def successor? (s : Suite) (a : Address) : Option Address := s.present? a.next

end Suite

end BlockFlow
