/-
# Patterns

A pattern describes texts.  `Pattern.ends` gives the positions at which a match that starts at a
position can end, and a text has a match if one can start anywhere in it (`Pattern.search`).

Repetition is a closure on sets of positions.  A text of `n` characters has `n + 1` of them, so
`n + 1` rounds reach every position that any number of rounds reaches.
-/
import BlockFlow.Pattern.Charset

namespace BlockFlow

/-- A description of texts. -/
inductive Pattern
  /-- The empty text. -/
  | empty
  /-- One character of a set. -/
  | one (s : Charset)
  /-- The beginning of the text. -/
  | start
  /-- The end of the text. -/
  | finish
  /-- The beginning of a line. -/
  | lineStart
  /-- The end of a line. -/
  | lineFinish
  /-- Between a word character and something else, or not. -/
  | border (negated : Bool)
  | seq (p q : Pattern)
  | alt (p q : Pattern)
  /-- A number of matches in a row; without a greatest number, as many as there are. -/
  | times (p : Pattern) (least : Nat) (most : Option Nat)
  deriving Repr, DecidableEq

namespace Pattern

/-! ## 1. Positions -/

/-- Whether the character at a position, or before it, is a word character. -/
def wordAt (text : List Char) (i : Nat) : Bool := text[i]?.any Text.isWord

/-- Whether a position is between a word character and something else. -/
def isBorder (text : List Char) (i : Nat) : Bool :=
  (i != 0 && wordAt text (i - 1)) != wordAt text i

/-- The position itself, under a condition. -/
def stay (i : Nat) (holds : Bool) : List Nat := if holds then [i] else []

/-- A number of rounds of a step on sets of positions. -/
def rounds (step : List Nat → List Nat) : Nat → List Nat → List Nat
  | 0, js => js
  | n + 1, js => rounds step n (step js)

/-- What up to a number of rounds reach. -/
def upTo (step : List Nat → List Nat) : Nat → List Nat → List Nat
  | 0, js => js
  | n + 1, js => (js ++ upTo step n (step js)).eraseDups

/-! ## 2. Matching -/

/-- The positions at which a match that starts at a position can end. -/
def ends (text : List Char) : Pattern → Nat → List Nat
  | .empty, i => [i]
  | .one s, i => if text[i]?.any s.has then [i + 1] else []
  | .start, i => stay i (i == 0)
  | .finish, i => stay i (i == text.length)
  | .lineStart, i => stay i (i == 0 || text[i - 1]? == some '\n')
  | .lineFinish, i => stay i (i == text.length || text[i]? == some '\n')
  | .border negated, i => stay i (isBorder text i != negated)
  | .seq p q, i => ((ends text p i).flatMap (ends text q)).eraseDups
  | .alt p q, i => (ends text p i ++ ends text q i).eraseDups
  | .times p least most, i =>
    let step := fun js => (js.flatMap (ends text p)).eraseDups
    let enough := text.length + 1
    upTo step (min (most.elim enough (· - least)) enough) (rounds step (min least enough) [i])

/-- Whether a match starts somewhere in the text. -/
def search (p : Pattern) (text : String) : Bool :=
  (List.range (text.length + 1)).any fun i => !(p.ends text.toList i).isEmpty

end Pattern

end BlockFlow
