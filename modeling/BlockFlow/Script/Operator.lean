/-
# Operators

What the binary operators of the expression language compute.  Integers are checked: a result out
of sixty-four bits, and a division by zero, are errors.  An integer beside a floating number counts
as floating, and a character beside a text as a text.

Data of different kinds are never equal and never ordered, and asking is no error.
-/
import BlockFlow.Decimal.Remainder
import BlockFlow.Script.Datum

namespace BlockFlow.Script

/-- The binary operators on data. -/
inductive Operator
  | add | sub | mul | div | mod | pow
  | eq | ne | lt | le | gt | ge
  | bitAnd | bitOr | bitXor | shiftLeft | shiftRight
  deriving Repr, DecidableEq

/-- Whether an assignment can be by the operator. -/
def Operator.assigns : Operator → Bool
  | .eq | .ne | .lt | .le | .gt | .ge => false
  | _ => true

namespace Datum

/-! ## 1. Equality -/

/-- The text of a text or character. -/
def asText? : Datum → Option String
  | .text s => some s
  | .char c => some (String.singleton c)
  | _ => none

mutual

/-- Whether two data are equal. -/
def equal : Datum → Datum → Bool
  | .unit, .unit => true
  | .bool a, .bool b => a == b
  | .int m, .int n => m == n
  | .int m, .float y => floatOfInt m == y
  | .float x, .int n => x == floatOfInt n
  | .float x, .float y => x == y
  | .text s, .text t => s == t
  | .text s, .char c => s == String.singleton c
  | .char c, .text s => String.singleton c == s
  | .char a, .char b => a == b
  | .list as, .list bs => equalLists as bs
  | .map as, .map bs => equalFields as bs
  | _, _ => false

def equalLists : List Datum → List Datum → Bool
  | [], [] => true
  | a :: as, b :: bs => equal a b && equalLists as bs
  | _, _ => false

def equalFields : List (String × Datum) → List (String × Datum) → Bool
  | [], [] => true
  | (k, a) :: as, (l, b) :: bs => k == l && equal a b && equalFields as bs
  | _, _ => false

end

end Datum

/-! ## 2. Integers -/

/-- An integer, if it fits into sixty-four bits. -/
def checked? (n : Int) : Option Datum :=
  if -Int.pow 2 63 ≤ n ∧ n < Int.pow 2 63 then some (.int (Int64.ofInt n)) else none

/-- A power of integers. -/
def intPower? (m n : Int) : Option Datum :=
  if n < 0 || n ≥ Int.pow 2 32 then none
  else if m = 0 || m = 1 then if n = 0 then some (.int 1) else checked? m
  else if m = -1 then some (.int (if n % 2 = 0 then 1 else -1))
  else if n ≥ 64 then none
  else checked? (m.pow n.toNat)

/-- An integer shifted left by a count, or right by a negative one. -/
def shift (m n : Int) : Datum :=
  if n ≥ 64 then .int 0
  else if n ≥ 0 then .int (Int64.ofInt (m * Int.pow 2 n.toNat))
  else if n ≤ -64 then .int (if m < 0 then -1 else 0)
  else .int (Int64.ofInt (m.fdiv (Int.pow 2 (-n).toNat)))

/-- An operator on integers. -/
def onInts (op : Operator) (a b : Int64) : Option Datum :=
  let m := a.toInt
  let n := b.toInt
  match op with
  | .add => checked? (m + n)
  | .sub => checked? (m - n)
  | .mul => checked? (m * n)
  | .div => if n = 0 then none else checked? (m.tdiv n)
  | .mod => if n = 0 then none else checked? (m.tdiv n) |>.map fun _ => .int (Int64.ofInt (m.tmod n))
  | .pow => intPower? m n
  | .eq => some (.bool (m == n))
  | .ne => some (.bool (m != n))
  | .lt => some (.bool (m < n))
  | .le => some (.bool (m ≤ n))
  | .gt => some (.bool (m > n))
  | .ge => some (.bool (m ≥ n))
  | .bitAnd => some (.int (a &&& b))
  | .bitOr => some (.int (a ||| b))
  | .bitXor => some (.int (a ^^^ b))
  | .shiftLeft => some (shift m n)
  | .shiftRight => some (shift m (-n))

/-! ## 3. Other kinds -/

/-- An operator on floating numbers; none of them fails. -/
def onFloats (op : Operator) (x y : Float) : Option Datum :=
  match op with
  | .add => some (.float (x + y))
  | .sub => some (.float (x - y))
  | .mul => some (.float (x * y))
  | .div => some (.float (x / y))
  | .mod => some (.float (Decimal.remainder x y))
  | .pow => some (.float (x.pow y))
  | .eq => some (.bool (x == y))
  | .ne => some (.bool (x != y))
  | .lt => some (.bool (x < y))
  | .le => some (.bool (x ≤ y))
  | .gt => some (.bool (x > y))
  | .ge => some (.bool (x ≥ y))
  | _ => none

/-- A text without the occurrences of another.  The length of the text bounds their number. -/
def removeAll (word : List Char) : Nat → List Char → List Char
  | 0, cs => cs
  | _, [] => []
  | fuel + 1, c :: cs =>
    if !word.isEmpty && word.isPrefixOf (c :: cs) then removeAll word fuel ((c :: cs).drop word.length)
    else c :: removeAll word fuel cs

/-- An operator on texts. -/
def onTexts (op : Operator) (s t : String) : Option Datum :=
  match op with
  | .add => some (.text (s ++ t))
  | .sub => some (.text (String.ofList (removeAll t.toList s.length s.toList)))
  | .eq => some (.bool (s == t))
  | .ne => some (.bool (s != t))
  | .lt => some (.bool (s < t))
  | .le => some (.bool (s ≤ t))
  | .gt => some (.bool (t < s))
  | .ge => some (.bool (t ≤ s))
  | _ => none

/-- An operator on truth values; `false` comes before `true`. -/
def onBools (op : Operator) (a b : Bool) : Option Datum :=
  match op with
  | .eq => some (.bool (a == b))
  | .ne => some (.bool (a != b))
  | .lt => some (.bool (!a && b))
  | .le => some (.bool (!a || b))
  | .gt => some (.bool (a && !b))
  | .ge => some (.bool (a || !b))
  | .bitAnd => some (.bool (a && b))
  | .bitOr => some (.bool (a || b))
  | .bitXor => some (.bool (a != b))
  | _ => none

/-- An operator on data of different kinds: they are unequal and unordered. -/
def onStrangers : Operator → Option Datum
  | .ne => some (.bool true)
  | .eq | .lt | .le | .gt | .ge => some (.bool false)
  | _ => none

/-- The fields of two maps; of two with one key that of the second. -/
def mergeFields (as bs : List (String × Datum)) : List (String × Datum) :=
  (Dict.insertAll (Dict.ofList as) bs).toList

/-! ## 4. All operators -/

/-- What an operator gives on two data; `none` is an error. -/
def Operator.apply (op : Operator) : Datum → Datum → Option Datum
  | .int m, .int n => onInts op m n
  | .int m, .float y => onFloats op (Datum.floatOfInt m) y
  | .float x, .int n => onFloats op x (Datum.floatOfInt n)
  | .float x, .float y => onFloats op x y
  | .text s, .text t => onTexts op s t
  | .text s, .char c => onTexts op s (String.singleton c)
  | .char c, .text s => onTexts op (String.singleton c) s
  | .char a, .char b =>
    if op = .sub then none else onTexts op (String.singleton a) (String.singleton b)
  | .bool a, .bool b => onBools op a b
  | .unit, .unit =>
    match op with
    | .eq => some (.bool true)
    | .ne | .lt | .le | .gt | .ge => some (.bool false)
    | _ => none
  | .list as, .list bs =>
    match op with
    | .add => some (.list (as ++ bs))
    | .eq => some (.bool (Datum.equalLists as bs))
    | .ne => some (.bool (!Datum.equalLists as bs))
    | _ => none
  | .map as, .map bs =>
    match op with
    | .add => some (.map (mergeFields as bs))
    | .eq => some (.bool (Datum.equalFields as bs))
    | .ne => some (.bool (!Datum.equalFields as bs))
    | _ => none
  | .foreign a, .foreign b => if a = b then none else onStrangers op
  | .text s, b => if op = .add then some (.text (s ++ b.appended)) else onStrangers op
  | a, .text t => if op = .add then some (.text (a.appended ++ t)) else onStrangers op
  | _, _ => onStrangers op

/-- Whether a datum is in another: a text in a text, an element in a list, a key in a map. -/
def Datum.within? (x : Datum) : Datum → Option Bool
  | .text s =>
    x.asText?.map fun t =>
      let word := t.toList
      let rec occurs : List Char → Bool
        | [] => word.isEmpty
        | c :: cs => word.isPrefixOf (c :: cs) || occurs cs
      occurs s.toList
  | .list items => some (items.any fun i => i.equal x)
  | .map fields =>
    match x with
    | .text k => some (fields.any fun f => f.1 == k)
    | _ => none
  | _ => none

end BlockFlow.Script
