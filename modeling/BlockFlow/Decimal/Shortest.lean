/-
# The fewest digits that read back

A finite double is `m · 2^q`.  The reals that round to it form an interval around it, whose ends
belong to it exactly when `m` is even.  `shortest m q` is the decimal `d · 10^e` with the fewest
digits inside that interval; of two with equally many digits it is the nearer, and a tie goes up.

All comparisons are made on natural numbers, over one common denominator.
-/

namespace BlockFlow.Decimal

/-! ## 1. The parts of a double -/

/-- A double without its sign: a number `m · 2^q`, an infinity, or no number. -/
inductive Magnitude
  | finite (m : Nat) (q : Int)
  | infinite
  | nan
  deriving Repr, DecidableEq

/-- Whether the sign bit of a double is set. -/
def isNegative (x : Float) : Bool := x.toBits ≥ 0x8000000000000000

/-- The magnitude that the low sixty-three bits of a double stand for. -/
def magnitude (x : Float) : Magnitude :=
  let low := x.toBits.toNat % Nat.pow 2 63
  let fraction : Nat := low % Nat.pow 2 52
  let exponent : Nat := low / Nat.pow 2 52
  if exponent == 0x7FF then if fraction == 0 then .infinite else .nan
  else if exponent == 0 then .finite fraction (-1074)
  else .finite (Nat.pow 2 52 + fraction) ((exponent : Int) - 1075)

/-! ## 2. The interval that rounds to a double -/

/-- Three points over a common denominator: the value, and the ends of the interval of reals that
round to it. -/
structure Interval where
  value : Nat
  low : Nat
  high : Nat
  den : Nat
  /-- Whether the ends round to the value too. -/
  closed : Bool

/-- The interval around `m · 2^q`.  Below a power of two the neighbour is half as far away. -/
def Interval.around (m : Nat) (q : Int) : Interval :=
  let below := if m == Nat.pow 2 52 && q > -1074 then 1 else 2
  let up := Nat.pow 2 (q - 2).toNat
  { value := 4 * m * up
    low := (4 * m - below) * up
    high := (4 * m + 2) * up
    den := Nat.pow 2 (2 - q).toNat
    closed := m % 2 == 0 }

/-- Whether `c · 10^e` lies in the interval. -/
def Interval.contains (i : Interval) (c : Nat) (e : Int) : Bool :=
  let x := c * Nat.pow 10 e.toNat * i.den
  let low := i.low * Nat.pow 10 (-e).toNat
  let high := i.high * Nat.pow 10 (-e).toNat
  if i.closed then low ≤ x && x ≤ high else low < x && x < high

/-- The multiple of `10^e` at or below the value, as a count. -/
def Interval.floorAt (i : Interval) (e : Int) : Nat :=
  i.value * Nat.pow 10 (-e).toNat / (Nat.pow 10 e.toNat * i.den)

/-- Whether the point after `c` on the grid of `10^e` is at least as near to the value as `c`. -/
def Interval.upperNearer (i : Interval) (c : Nat) (e : Int) : Bool :=
  (2 * c + 1) * Nat.pow 10 e.toNat * i.den ≤ 2 * i.value * Nat.pow 10 (-e).toNat

/-- The neighbour of the value on the grid of `10^e` that lies in the interval, the nearer of two. -/
def Interval.onGrid (i : Interval) (e : Int) : Option Nat :=
  let c := i.floorAt e
  match i.contains c e, i.contains (c + 1) e with
  | true, true => some (if i.upperNearer c e then c + 1 else c)
  | true, false => some c
  | false, true => some (c + 1)
  | false, false => none

/-! ## 3. The digits -/

/-- A decimal `digits · 10^exponent`. -/
structure Digits where
  digits : Nat
  exponent : Int
  deriving Repr, DecidableEq

/-- The same decimal without trailing zeros, for at most `fuel` of them. -/
def Digits.strip : Nat → Digits → Digits
  | 0, d => d
  | fuel + 1, d =>
    if d.digits ≠ 0 ∧ d.digits % 10 = 0 then strip fuel ⟨d.digits / 10, d.exponent + 1⟩ else d

/-- The number of digits before the point; for a value below one, the count of zeros after the
point, negated. -/
def Interval.pointPosition (i : Interval) : Int :=
  (i.value * Nat.pow 10 342 / i.den).repr.length - 342

/-- The decimal of fewest digits that rounds to `m · 2^q`. -/
def shortest (m : Nat) (q : Int) : Digits :=
  let i := Interval.around m q
  let k := i.pointPosition
  let hit := (List.range 17).findSome? fun (n : Nat) =>
    let e := k - ((n : Int) + 1)
    (i.onGrid e).map fun c => Digits.mk c e
  (hit.getD ⟨i.floorAt (k - 17), k - 17⟩).strip 400

end BlockFlow.Decimal
