/-
# Splitting at the top level

A text is split at a separator where it stands outside quotes and brackets.  A quote runs to the
next quote of its kind.  A closing bracket of any kind closes one of any kind, and one too many
closes nothing.

`splitTopLevel` trims the parts.  A blank text has no parts, and every other text has one more part
than separators.
-/
import BlockFlow.Text.Blank

namespace BlockFlow.Text

/-! ## 1. Pieces -/

/-- The marks that quote. -/
def isQuote (c : Char) : Bool := c == '\'' || c == '"' || c.toNat == 0x60

/-- The marks that open a bracket. -/
def isOpening (c : Char) : Bool := c == '(' || c == '[' || c.toNat == 0x7B

/-- The marks that close a bracket. -/
def isClosing (c : Char) : Bool := c == ')' || c == ']' || c.toNat == 0x7D

/-- Puts a character in front of the first piece. -/
def prepend (c : Char) : List (List Char) → List (List Char)
  | [] => [[c]]
  | p :: ps => (c :: p) :: ps

/-- The pieces between separators, from inside a number of brackets and perhaps a quote. -/
def pieces (separator : Char) : Nat → Option Char → List Char → List (List Char)
  | _, _, [] => [[]]
  | depth, some q, c :: cs =>
    prepend c (pieces separator depth (if c == q then none else some q) cs)
  | depth, none, c :: cs =>
    if isQuote c then prepend c (pieces separator depth (some c) cs)
    else if isOpening c then prepend c (pieces separator (depth + 1) none cs)
    else if isClosing c && depth > 0 then prepend c (pieces separator (depth - 1) none cs)
    else if c == separator && depth == 0 then [] :: pieces separator 0 none cs
    else prepend c (pieces separator depth none cs)

/-! ## 2. Parts -/

/-- The trimmed parts of a text; a blank one has none. -/
def splitTopLevel (separator : Char) (s : String) : List String :=
  match pieces separator 0 none s.toList with
  | [p] => if p.all isBlank then [] else [String.ofList (trimChars p)]
  | ps => ps.map fun p => String.ofList (trimChars p)

theorem prepend_ne_nil (c : Char) (ps : List (List Char)) : prepend c ps ≠ [] := by
  cases ps <;> simp [prepend]

theorem pieces_ne_nil (separator : Char) (depth : Nat) (quote : Option Char) (cs : List Char) :
    pieces separator depth quote cs ≠ [] := by
  fun_induction pieces separator depth quote cs <;> simp [prepend_ne_nil]

end BlockFlow.Text
