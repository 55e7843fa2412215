/-
# Places in a source text

A place is a line and a column, both counted from one; a line ends after a line feed, and columns
count characters.
-/

namespace BlockFlow

/-- A line and a column, both counted from one. -/
structure Location where
  line : Nat
  column : Nat
  deriving Repr, DecidableEq, Inhabited

/-- From the first character to just after the last. -/
structure Span where
  first : Location
  last : Location
  deriving Repr, DecidableEq, Inhabited

/-- The place of a character of a text, by the number of characters before it. -/
def Location.ofOffset (offset : Nat) (cs : List Char) : Location :=
  (cs.take offset).foldl (fun l c =>
    if c == '\n' then ⟨l.line + 1, 1⟩ else ⟨l.line, l.column + 1⟩) ⟨1, 1⟩

@[simp] theorem Location.ofOffset_zero (cs : List Char) : Location.ofOffset 0 cs = ⟨1, 1⟩ := rfl

end BlockFlow
