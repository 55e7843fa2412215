/-
# Errors of the expression language

Why a source has no value, with the words for it.  A variable that is not in scope is named with the
place where it stands.
-/
import BlockFlow.Location
import BlockFlow.Script.Token

namespace BlockFlow.Script

/-- Why a source has no value. -/
inductive Error
  | malformed
  | undefined (name : String) (place : Location)
  | failed
  deriving Repr, DecidableEq

namespace Error

/-- The words for a place. -/
def placeText (l : Location) : String :=
  " (line " ++ toString l.line ++ ", position " ++ toString l.column ++ ")"

/-- The words for an error. -/
def message : Error → String
  | .malformed => "Syntax error: Script is incomplete" ++ placeText ⟨1, 1⟩
  | .undefined name place => "Syntax error: Undefined variable: " ++ name ++ placeText place
  | .failed => "Evaluation failed" ++ placeText ⟨1, 1⟩

end Error

/-- The number of characters left from the first token that is a word on. -/
def Token.left? (word : String) : Nat → List Char → Option Nat
  | 0, _ => none
  | fuel + 1, cs =>
    match skipSpace cs.length cs with
    | [] => none
    | cs => do
      let (t, rest) ← Token.next? cs
      if t.is word then return cs.length
      Token.left? word fuel rest

/-- The place of the first token of a source that is a word. -/
def Token.place (word source : String) : Location :=
  let cs := source.toList
  .ofOffset (cs.length - (Token.left? word (cs.length + 1) cs).getD cs.length) cs

end BlockFlow.Script
