/-
# Reading decimals

`ofParts m e` is the double nearest to `m · 10^e`, for exponents of any size: what is far out of
range is decided from the number of digits alone, so that no power of ten beyond the range of
doubles is ever computed.

`readFloat?` reads the texts of numbers: an optional sign, digits with at most one point among or
around them, an optional exponent; or a name of infinity or of no number in any letter case.
-/
import BlockFlow.Decimal.Shortest

namespace BlockFlow.Decimal

/-! ## 1. From digits to a double -/

/-- The double nearest to `m · 10^e`. -/
def ofParts (m : Nat) (e : Int) : Float :=
  let size := (m.repr.length : Int) + e
  if m = 0 then 0.0
  else if size > 310 then 1.0 / 0.0
  else if size < -330 then 0.0
  else Float.ofScientific m (e < 0) e.natAbs

/-- The number that a list of decimal digits writes. -/
def natOfDigits (cs : List Char) : Nat := cs.foldl (fun n c => 10 * n + (c.toNat - 48)) 0

@[simp] theorem natOfDigits_nil : natOfDigits [] = 0 := rfl

/-! ## 2. Texts of numbers -/

/-- A sign in front, and what follows it. -/
def splitSign : List Char → Bool × List Char
  | '-' :: cs => (true, cs)
  | '+' :: cs => (false, cs)
  | cs => (false, cs)

/-- The exponent that may end a number; `none` if something else follows. -/
def readExponent : List Char → Option Int
  | [] => some 0
  | c :: cs =>
    if c == 'e' || c == 'E' then
      let (negative, ds) := splitSign cs
      if ds.isEmpty || !ds.all Char.isDigit then none
      else some (if negative then -(natOfDigits ds : Int) else natOfDigits ds)
    else none

/-- A number without a sign. -/
def readUnsigned (cs : List Char) : Option Float :=
  match String.ofList (cs.map Char.toLower) with
  | "inf" | "infinity" => some (1.0 / 0.0)
  | "nan" => some (0.0 / 0.0)
  | _ =>
    let whole := cs.takeWhile Char.isDigit
    let rest := cs.dropWhile Char.isDigit
    let (fraction, rest) := match rest with
      | '.' :: r => (r.takeWhile Char.isDigit, r.dropWhile Char.isDigit)
      | r => ([], r)
    if whole.isEmpty && fraction.isEmpty then none
    else (readExponent rest).map fun e => ofParts (natOfDigits (whole ++ fraction)) (e - fraction.length)

/-- The double that a text writes. -/
def readFloat? (s : String) : Option Float :=
  let (negative, cs) := splitSign s.toList
  (readUnsigned cs).map fun x => if negative then -x else x

end BlockFlow.Decimal
