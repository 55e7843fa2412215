/-
# Sets of characters

What a pattern can ask of one character: to be in a list of characters, ranges and classes, or not
to be, perhaps in either letter case.
-/
import BlockFlow.Text.Blank
import BlockFlow.Text.Upper
import BlockFlow.Text.Word

namespace BlockFlow

/-! ## 1. Members -/

/-- One entry of a set of characters. -/
inductive Charset.Member
  | range (first last : Char)
  | digit (negated : Bool)
  | blank (negated : Bool)
  | word (negated : Bool)
  deriving Repr, DecidableEq

/-- The entry for one character. -/
def Charset.Member.single (c : Char) : Charset.Member := .range c c

/-- Whether an entry holds a character. -/
def Charset.Member.has (c : Char) : Charset.Member → Bool
  | .range first last => first ≤ c && c ≤ last
  | .digit negated => Text.isDecimalDigit c != negated
  | .blank negated => Text.isBlank c != negated
  | .word negated => Text.isWord c != negated

/-! ## 2. Letter case -/

/-- The small letters, beyond ASCII, of a capital letter. -/
def Charset.smallLetters (capital : Char) : List Char :=
  Text.upperRuns.filterMap fun (first, last, step, shift) =>
    let n := (capital.toNat : Int) - shift
    if first ≤ n && n ≤ last && (n - first) % step == 0 then some (Char.ofNat n.toNat) else none

/-- A character and its other letter cases. -/
def Charset.cases (c : Char) : List Char :=
  let capital := Text.upperLetter c
  [c, capital, capital.toLower] ++ smallLetters capital

/-! ## 3. Sets -/

/-- A set of characters. -/
structure Charset where
  members : List Charset.Member
  negated : Bool := false
  ignoreCase : Bool := false
  deriving Repr, DecidableEq

namespace Charset

/-- The set of one character. -/
def single (c : Char) : Charset := { members := [.single c] }

/-- The set of all characters. -/
def all : Charset := { members := [], negated := true }

/-- Whether a character is in the set. -/
def has (s : Charset) (c : Char) : Bool :=
  let candidates := if s.ignoreCase then cases c else [c]
  s.members.any (fun m => candidates.any m.has) != s.negated

@[simp] theorem has_single (c d : Char) : (single c).has d = (d == c) := by
  have h : (decide (c ≤ d) && decide (d ≤ c)) = (d == c) := by
    rw [Bool.eq_iff_iff]
    simpa [and_comm] using
      (⟨fun h => Char.le_antisymm h.2 h.1, fun h => h ▸ ⟨Char.le_refl d, Char.le_refl d⟩⟩ :
        c ≤ d ∧ d ≤ c ↔ d = c)
  simpa [has, single, Member.single, Member.has] using h

@[simp] theorem has_all (c : Char) : all.has c = true := rfl

end Charset

end BlockFlow
