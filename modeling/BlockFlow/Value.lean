/-
# Stored values

The values that variables hold: nothing, a truth value, a number, a text, a list or a map.  A map
lists its fields in increasing key order; `Value.ofFields` builds one from fields in any order.

A value can be shown (`Value.display`), asked for its truth (`Value.isTruthy`) and named by its
kind (`Value.kindName`).  A `Namespace` binds variable names to values.
-/
import BlockFlow.Dict
import BlockFlow.Decimal.Layout

namespace BlockFlow

/-- A value of a stored variable. -/
inductive Value
  | null
  | bool (b : Bool)
  | number (x : Float)
  | text (s : String)
  | list (items : List Value)
  /-- A map, with its fields in increasing key order. -/
  | map (fields : List (String × Value))
  deriving Inhabited

/-- The stored variables. -/
abbrev Namespace := Dict String Value

namespace Value

/-! ## 1. Kinds and truth -/

/-- The map of a list of fields; of two with one key the later wins. -/
def ofFields (fields : List (String × Value)) : Value := .map (Dict.ofList fields).toList

/-- The name of a value's kind. -/
def kindName : Value → String
  | .null => "null"
  | .bool _ => "boolean"
  | .number _ => "number"
  | .text _ => "string"
  | .list _ => "array"
  | .map _ => "map"

/-- The text, if the value is one. -/
def asText? : Value → Option String
  | .text s => some s
  | _ => none

/-- The number, if the value is one. -/
def asNumber? : Value → Option Float
  | .number x => some x
  | _ => none

/-- Whether a condition with this value holds: nothing, `false`, zero, no number and the empty text
and list do not; a map always does. -/
def isTruthy : Value → Bool
  | .null => false
  | .bool b => b
  | .number x => x != 0 && !x.isNaN
  | .text s => !s.isEmpty
  | .list items => !items.isEmpty
  | .map _ => true

/-! ## 2. Display -/

/-- Numbers that are not integral are shown by their fewest digits, without an exponent. -/
def numberLayout : Decimal.Layout where
  scientific := fun _ => false
  integralTail := ""
  signedZero := true

/-- The part of a number after the point, with the number's sign. -/
def fraction (x : Float) : Float := x - if x < 0 then x.ceil else x.floor

/-- The distance from one to the next double. -/
def unitGap : Float := Float.ofBits 0x3CB0000000000000

/-- A number that is within `unitGap` of an integer toward zero is shown as that integer, held to
the range of sixty-four bits. -/
def numberText (x : Float) : String :=
  if x.isFinite && (fraction x).abs < unitGap then toString x.toInt64
  else numberLayout.render x

mutual

/-- The text of a value: list items are separated by commas, map fields stand in braces. -/
def display : Value → String
  | .null => "null"
  | .bool b => if b then "true" else "false"
  | .number x => numberText x
  | .text s => s
  | .list items => ",".intercalate (displayItems items)
  | .map fields => "\x7b" ++ ", ".intercalate (displayFields fields) ++ "\x7d"

def displayItems : List Value → List String
  | [] => []
  | v :: vs => display v :: displayItems vs

def displayFields : List (String × Value) → List String
  | [] => []
  | (k, v) :: fs => (k ++ ": " ++ display v) :: displayFields fs

end

end Value

namespace Namespace

/-- The variable that holds the message of a caught error. -/
def errorName : String := "_error"

/-- The variable that holds what a function returned. -/
def resultName : String := "_result"

/-- The variable that counts the passes of a loop over values. -/
def indexName : String := "_i"

end Namespace

end BlockFlow
