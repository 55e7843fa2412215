/-
# Placeholders

A placeholder is a variable name in braces after a dollar sign.  Expanding a text puts the texts of
variables in the place of placeholders, in one pass from the left: what was put in is not looked at
again, and a placeholder whose name is not bound stays.
-/
import BlockFlow.Text.Word

namespace BlockFlow.Text

/-- The name of the placeholder that starts here. -/
def placeholder? : List Char → Option (List Char)
  | '$' :: '\x7b' :: c :: cs =>
    if isNameStart c && (cs.dropWhile isWord).head? == some '\x7d' then some (c :: cs.takeWhile isWord)
    else none
  | _ => none

/-- The text of a variable by its name, if it is bound. -/
abbrev Lookup := String → Option String

/-- Expands placeholders, after leaving out a number of characters that one of them took. -/
def expandFrom (lookup : Lookup) : Nat → List Char → List Char
  | _, [] => []
  | skip + 1, _ :: cs => expandFrom lookup skip cs
  | 0, c :: cs =>
    match placeholder? (c :: cs) with
    | none => c :: expandFrom lookup 0 cs
    | some name =>
      match lookup (String.ofList name) with
      | some text => text.toList ++ expandFrom lookup (name.length + 2) cs
      | none => c :: expandFrom lookup 0 cs

/-- A text with its placeholders expanded. -/
def expand (lookup : Lookup) (s : String) : String := String.ofList (expandFrom lookup 0 s.toList)

@[simp] theorem expandFrom_nil (lookup : Lookup) (skip : Nat) : expandFrom lookup skip [] = [] := by
  cases skip <;> rfl

end BlockFlow.Text
