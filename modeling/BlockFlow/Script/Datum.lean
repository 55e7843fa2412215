/-
# Data of the expression language

What expressions compute with.  Besides the kinds that variables hold there are integers of
sixty-four bits and single characters, and kinds that no variable can hold: functions, ranges and
byte strings, known by their type name only.

`Datum.ofValue` and `Datum.toValue` convert between data and stored values.
-/
import BlockFlow.Value

namespace BlockFlow.Script

/-- What an expression computes with. -/
inductive Datum
  | unit
  | bool (b : Bool)
  | int (n : Int64)
  | float (x : Float)
  | text (s : String)
  | char (c : Char)
  | list (items : List Datum)
  /-- A map, with its fields in increasing key order. -/
  | map (fields : List (String × Datum))
  /-- A datum that cannot be stored, by the name of its type. -/
  | foreign (typeName : String)
  deriving Inhabited

namespace Datum

/-! ## 1. From stored values -/

mutual

/-- The datum of a stored value; numbers are floating. -/
def ofValue : Value → Datum
  | .null => .unit
  | .bool b => .bool b
  | .number x => .float x
  | .text s => .text s
  | .list items => .list (ofValues items)
  | .map fields => .map (ofFields fields)

def ofValues : List Value → List Datum
  | [] => []
  | v :: vs => ofValue v :: ofValues vs

def ofFields : List (String × Value) → List (String × Datum)
  | [] => []
  | (k, v) :: fs => (k, ofValue v) :: ofFields fs

end

/-! ## 2. To stored values -/

/-- The double of an integer. -/
def floatOfInt (n : Int64) : Float := Float.ofInt n.toInt

mutual

/-- The stored value of a datum, or the type name of a part that cannot be stored.  Integers become
numbers and characters texts. -/
def toValue : Datum → Except String Value
  | .unit => .ok .null
  | .bool b => .ok (.bool b)
  | .int n => .ok (.number (floatOfInt n))
  | .float x => .ok (.number x)
  | .text s => .ok (.text s)
  | .char c => .ok (.text (String.singleton c))
  | .list items => (toValues items).map .list
  | .map fields => (toFields fields).map .map
  | .foreign typeName => .error typeName

def toValues : List Datum → Except String (List Value)
  | [] => .ok []
  | d :: ds => do return (← toValue d) :: (← toValues ds)

def toFields : List (String × Datum) → Except String (List (String × Value))
  | [] => .ok []
  | (k, d) :: fs => do return (k, ← toValue d) :: (← toFields fs)

end

/-! ## 3. Texts of data -/

/-- Floating numbers keep a point, and far from one they are written with an exponent. -/
def floatLayout : Decimal.Layout where
  scientific := fun x => x > Float.ofBits 0x42A2309CE0000000 || x < Float.ofBits 0x3D3C25C260000000
  integralTail := ".0"
  signedZero := false

/-- A text between double quotes. -/
def quoted (s : String) : String :=
  String.ofList ('"' :: (s.toList.flatMap fun c =>
    match c with
    | '"' => ['\\', '"']
    | '\\' => ['\\', '\\']
    | '\n' => ['\\', 'n']
    | '\r' => ['\\', 'r']
    | '\t' => ['\\', 't']
    | c => [c]) ++ ['"'])

mutual

/-- The text of a datum as part of another. -/
def inner : Datum → String
  | .unit => "()"
  | .bool b => if b then "true" else "false"
  | .int n => toString n
  | .float x => floatLayout.render x
  | .text s => quoted s
  | .char c => "'" ++ String.singleton c ++ "'"
  | .list items => "[" ++ ", ".intercalate (inners items) ++ "]"
  | .map fields => "#\x7b" ++ ", ".intercalate (innerFields fields) ++ "\x7d"
  | .foreign typeName => typeName

def inners : List Datum → List String
  | [] => []
  | d :: ds => inner d :: inners ds

def innerFields : List (String × Datum) → List String
  | [] => []
  | (k, d) :: fs => (quoted k ++ ": " ++ inner d) :: innerFields fs

end

/-- The text that a datum adds to another text; the unit adds none. -/
def appended : Datum → String
  | .unit => ""
  | .text s => s
  | .char c => String.singleton c
  | d => inner d

/-- The name of a datum's type. -/
def typeName : Datum → String
  | .unit => "()"
  | .bool _ => "bool"
  | .int _ => "i64"
  | .float _ => "f64"
  | .text _ => "string"
  | .char _ => "char"
  | .list _ => "array"
  | .map _ => "map"
  | .foreign name => name

end Datum

end BlockFlow.Script
