/-
# Decimal texts of doubles

Where the digits of `Decimal.shortest` are put: a `Layout` says which magnitudes are written with
an exponent and what follows an integral number.  `Layout.render` writes a double by such a record.
-/
import BlockFlow.Decimal.Shortest

namespace BlockFlow.Decimal

/-- The choices a decimal text leaves open. -/
structure Layout where
  /-- Whether a positive magnitude is written with an exponent. -/
  scientific : Float → Bool
  /-- What follows the digits of an integral number. -/
  integralTail : String
  /-- Whether a negative zero keeps its sign. -/
  signedZero : Bool

/-! ## 1. Placing digits -/

/-- Digits with a point where the exponent says, and never an exponent. -/
def Digits.positional (d : Digits) (tail : String) : String :=
  let text := d.digits.repr.toList
  let point := (text.length : Int) + d.exponent
  if d.exponent ≥ 0 then String.ofList (text ++ List.replicate d.exponent.toNat '0') ++ tail
  else if point > 0 then
    String.ofList (text.take point.toNat ++ '.' :: text.drop point.toNat)
  else String.ofList ('0' :: '.' :: (List.replicate (-point).toNat '0' ++ text))

/-- One digit, a point if more follow, and the exponent after an `e`. -/
def Digits.exponential (d : Digits) : String :=
  let text := d.digits.repr.toList
  let exponent := toString (d.exponent + (text.length : Int) - 1)
  match text with
  | [] => ""
  | [c] => String.singleton c ++ "e" ++ exponent
  | c :: rest => String.ofList (c :: '.' :: rest) ++ "e" ++ exponent

/-! ## 2. Writing a double -/

/-- The text of a double. -/
def Layout.render (l : Layout) (x : Float) : String :=
  let sign := if isNegative x then "-" else ""
  match magnitude x with
  | .nan => "NaN"
  | .infinite => sign ++ "inf"
  | .finite 0 _ => (if l.signedZero then sign else "") ++ "0" ++ l.integralTail
  | .finite m q =>
    let d := shortest m q
    sign ++ if l.scientific x.abs then d.exponential else d.positional l.integralTail

end BlockFlow.Decimal
