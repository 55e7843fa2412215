/-
# Remainders of doubles

The remainder of a division that rounds toward zero is exact: both magnitudes are brought to one
power of two and divided as natural numbers.
-/
import BlockFlow.Decimal.Shortest

namespace BlockFlow.Decimal

/-- The remainder of `a · 2^p` by `b · 2^q`, over the smaller power of two. -/
def remainderParts (a : Nat) (p : Int) (b : Nat) (q : Int) : Nat × Int :=
  let low := min p q
  (a * Nat.pow 2 (p - low).toNat % (b * Nat.pow 2 (q - low).toNat), low)

/-- The remainder of a division of doubles, with the sign of the dividend. -/
def remainder (x y : Float) : Float :=
  match magnitude x, magnitude y with
  | .finite a p, .finite b q =>
    if b = 0 then 0.0 / 0.0
    else
      let (r, e) := remainderParts a p b q
      let z := (Float.ofNat r).scaleB e
      if isNegative x then -z else z
  | .finite _ _, .infinite => x
  | _, _ => 0.0 / 0.0

end BlockFlow.Decimal
