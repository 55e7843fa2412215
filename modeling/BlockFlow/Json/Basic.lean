/-
# JSON documents

The tree of a JSON text.  A number is kept as it was written, since who reads it decides what it has
to be: a count (`Number.toNat?`) or a double (`Number.toFloat?`).

A number becomes a double in two steps: the digits that fit into sixty-four bits are the
significand, and the significand is multiplied or divided by one power of ten.  Each step rounds,
so that the result can miss the nearest double by one; an infinite result is refused.
-/
import BlockFlow.Decimal.Read

namespace BlockFlow

/-! ## 1. Numbers -/

/-- A number as it is written. -/
structure Json.Number where
  negative : Bool
  /-- Digits before the point. -/
  whole : List Char
  /-- Digits after the point, if there is a point. -/
  fraction : Option (List Char)
  /-- Sign and digits of the exponent, if there is one. -/
  exponent : Option (Bool × List Char)
  deriving Repr, DecidableEq

/-- A JSON document. -/
inductive Json
  | null
  | bool (b : Bool)
  | number (n : Json.Number)
  | text (s : String)
  | list (items : List Json)
  /-- Fields in the order of the text; a key may occur more than once. -/
  | object (fields : List (String × Json))
  deriving Inhabited

namespace Json.Number

/-- Numbers of sixty-four bits are below this one. -/
def wordLimit : Nat := Nat.pow 2 64

/-- Appends digits to a significand as long as it fits into sixty-four bits: the significand, and
the digits from the first that does not fit. -/
def significand (n : Nat) : List Char → Nat × List Char
  | [] => (n, [])
  | c :: cs =>
    let m := 10 * n + (c.toNat - 48)
    if m < wordLimit then significand m cs else (n, c :: cs)

/-- The number as a count below `2 ^ 64`, if it is written as one. -/
def toNat? (n : Number) : Option Nat :=
  if n.negative || n.fraction.isSome || n.exponent.isSome then none
  else
    let m := Decimal.natOfDigits n.whole
    if m < wordLimit then some m else none

/-- A significand scaled by a power of ten; `none` if the result is infinite. -/
def scale (m : Nat) (e : Int) : Option Float :=
  let x := Float.ofNat m
  let power (k : Nat) : Float := Float.ofScientific 1 false k
  if m = 0 then some 0.0
  else if e > 308 then none
  else if e ≥ 0 then
    let y := x * power e.toNat
    if y.isInf then none else some y
  else if e ≥ -308 then some (x / power (-e).toNat)
  else if e ≥ -616 then some (x / 1e308 / power (-e - 308).toNat)
  else some 0.0

/-- The double of a number; `none` if it is too large. -/
def magnitude? (n : Number) : Option Float :=
  let (m, dropped) := significand 0 n.whole
  let (m, used) := match n.fraction with
    | none => (m, 0)
    | some ds =>
      let (m, unused) := significand m ds
      (m, ds.length - unused.length)
  let e := match n.exponent with
    | none => 0
    | some (minus, ds) =>
      let k : Int := Decimal.natOfDigits ds
      if minus then -k else k
  scale m ((dropped.length : Int) - used + e)

/-- The double that a number stands for, with its sign also on zero. -/
def toFloat? (n : Number) : Option Float :=
  n.magnitude?.map fun x => if n.negative then -x else x

end Json.Number

end BlockFlow
