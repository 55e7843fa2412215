/-
# Addresses

A command's address is the index of its unit and its position there, both below `2 ^ 64`, written
`unit/position`.  Addresses are ordered by unit, then by position.

`Address.parse` reads what `Address.toText` writes and a little more: white space around either
number, and a plus sign in front of it.
-/
import BlockFlow.Fault
import BlockFlow.Text.Blank

namespace BlockFlow

/-- Where a command stands in a suite. -/
structure Address where
  unit : Nat
  position : Nat
  deriving Repr, DecidableEq, Inhabited

namespace Address

/-! ## 1. Order -/

instance : Ord Address := ⟨compareLex (compareOn unit) (compareOn position)⟩

theorem compare_def (a b : Address) :
    compare a b = (compare a.unit b.unit).then (compare a.position b.position) := rfl

instance : Std.TransOrd Address :=
  inferInstanceAs (Std.TransCmp (compareLex (compareOn unit) (compareOn position)))

instance : Std.LawfulEqOrd Address where
  compare_self := by simp
  eq_of_compare {a b} h := by
    rw [compare_def, Ordering.then_eq_eq] at h
    obtain ⟨u, p⟩ := a
    obtain ⟨v, q⟩ := b
    simp_all

/-- Earlier unit, or earlier in the same unit. -/
instance : LT Address := ⟨fun a b => a.unit < b.unit ∨ a.unit = b.unit ∧ a.position < b.position⟩

/-- Earlier, or the same. -/
instance : LE Address := ⟨fun a b => a.unit < b.unit ∨ a.unit = b.unit ∧ a.position ≤ b.position⟩

theorem lt_iff {a b : Address} :
    a < b ↔ a.unit < b.unit ∨ a.unit = b.unit ∧ a.position < b.position := Iff.rfl

theorem le_iff {a b : Address} :
    a ≤ b ↔ a.unit < b.unit ∨ a.unit = b.unit ∧ a.position ≤ b.position := Iff.rfl

instance (a b : Address) : Decidable (a < b) := decidable_of_iff _ lt_iff.symm

instance (a b : Address) : Decidable (a ≤ b) := decidable_of_iff _ le_iff.symm

/-! ## 2. Stepping -/

/-- The greatest number an address can hold. -/
def limit : Nat := Nat.pow 2 64 - 1

/-- The address that follows in the unit. -/
def next (a : Address) : Address := { a with position := a.position + 1 }

/-- The address a number of commands further on, held at `limit`, which no unit reaches. -/
def offset (a : Address) (n : Nat) : Address := { a with position := min (a.position + n) limit }

/-! ## 3. Text -/

/-- The written form. -/
def toText (a : Address) : String := toString a.unit ++ "/" ++ toString a.position

instance : ToString Address := ⟨toText⟩

/-- The number that decimal digits write, if there is one digit at least and it is within `limit`. -/
def digitsValue? (cs : List Char) : Option Nat :=
  if cs.isEmpty || !cs.all Char.isDigit then none
  else
    let n := cs.foldl (fun n c => 10 * n + (c.toNat - 48)) 0
    if n ≤ limit then some n else none

/-- A count: digits after an optional plus sign. -/
def count? : List Char → Option Nat
  | '+' :: cs => digitsValue? cs
  | cs => digitsValue? cs

/-- A count with white space around it. -/
def paddedCount? (cs : List Char) : Option Nat := count? (Text.trimChars cs)

/-- The characters before and after the first slash. -/
def splitSlash : List Char → Option (List Char × List Char)
  | [] => none
  | '/' :: cs => some ([], cs)
  | c :: cs => (splitSlash cs).map fun p => (c :: p.1, p.2)

/-- The address that characters write. -/
def ofChars? (cs : List Char) : Option Address := do
  let (unit, position) ← splitSlash cs
  return ⟨← paddedCount? unit, ← paddedCount? position⟩

/-- A text that writes no address. -/
def malformed (text : String) : Fault where
  kind := .address
  code := "ADDRESS_MALFORMED"
  message := "Malformed command address \"" ++ text ++ "\"."

/-- Reads an address. -/
def parse (text : String) : Except Fault Address :=
  match ofChars? text.toList with
  | some a => .ok a
  | none => .error (malformed text)

end Address

end BlockFlow
