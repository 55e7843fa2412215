/-
# Values in JSON

The stored value that a document stands for: lists and maps item by item, of equal keys the last.
A document with a number out of the range of doubles stands for none.
-/
import BlockFlow.Json.Reader
import BlockFlow.Value

namespace BlockFlow.Json

mutual

/-- The value of a document. -/
def toValue? : Json → Option Value
  | .null => some .null
  | .bool b => some (.bool b)
  | .number n => n.toFloat?.map .number
  | .text s => some (.text s)
  | .list items => (toValues? items).map .list
  | .object fields => (toFields? fields).map .ofFields

def toValues? : List Json → Option (List Value)
  | [] => some []
  | j :: js => do return (← toValue? j) :: (← toValues? js)

def toFields? : List (String × Json) → Option (List (String × Value))
  | [] => some []
  | (k, j) :: fs => do return (k, ← toValue? j) :: (← toFields? fs)

end

end BlockFlow.Json
