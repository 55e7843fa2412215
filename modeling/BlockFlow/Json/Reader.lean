/-
# Reading JSON

A stack machine over tokens: the containers not yet closed, innermost first, and what may come next.
`Json.read?` accepts one document with white space around it and containers nested at most
`maxDepth` deep.
-/
import BlockFlow.Json.Token

namespace BlockFlow.Json

/-! ## 1. The machine -/

/-- A container that is still open, with what it holds so far, last first. -/
inductive Open
  | list (items : List Json)
  /-- An object, with the key whose value is to come. -/
  | object (fields : List (String × Json)) (key : String)

/-- What may come next. -/
inductive Expect
  | value
  /-- A value, or the end of the list just opened. -/
  | firstItem
  /-- A key, or the end of the object just opened. -/
  | firstKey
  | key
  | colon
  /-- A comma, or the end of the container. -/
  | separator
  /-- The end of the text. -/
  | finish (j : Json)

/-- A reader between two tokens. -/
structure Reader where
  stack : List Open
  expect : Expect

/-- Containers may be nested this deep. -/
def maxDepth : Nat := 127

namespace Reader

/-- Hands a complete value to the innermost container. -/
def deliver (j : Json) : List Open → Reader
  | [] => ⟨[], .finish j⟩
  | .list items :: st => ⟨.list (j :: items) :: st, .separator⟩
  | .object fields key :: st => ⟨.object ((key, j) :: fields) "" :: st, .separator⟩

/-- Opens a container, unless too many are open. -/
def push (o : Open) (e : Expect) (st : List Open) : Option Reader :=
  if st.length < maxDepth then some ⟨o :: st, e⟩ else none

/-- Closes the innermost container. -/
def close (t : Token) : List Open → Option Reader
  | .list items :: st => if t = .closeList then some (deliver (.list items.reverse) st) else none
  | .object fields _ :: st =>
    if t = .closeObject then some (deliver (.object fields.reverse) st) else none
  | [] => none

/-- Begins a value. -/
def value (t : Token) (st : List Open) : Option Reader :=
  match t with
  | .nullWord => some (deliver .null st)
  | .trueWord => some (deliver (.bool true) st)
  | .falseWord => some (deliver (.bool false) st)
  | .number n => some (deliver (.number n) st)
  | .text s => some (deliver (.text s) st)
  | .openList => push (.list []) .firstItem st
  | .openObject => push (.object [] "") .firstKey st
  | _ => none

/-- Takes the key of a field. -/
def takeKey (t : Token) : List Open → Option Reader
  | .object fields _ :: st =>
    match t with
    | .text s => some ⟨.object fields s :: st, .colon⟩
    | _ => none
  | _ => none

/-- Takes one token. -/
def step (r : Reader) (t : Token) : Option Reader :=
  match r.expect with
  | .value => value t r.stack
  | .firstItem => if t = .closeList then close t r.stack else value t r.stack
  | .firstKey => if t = .closeObject then close t r.stack else takeKey t r.stack
  | .key => takeKey t r.stack
  | .colon => if t = .colon then some ⟨r.stack, .value⟩ else none
  | .separator =>
    if t = .comma then
      match r.stack with
      | .list _ :: _ => some ⟨r.stack, .value⟩
      | .object _ _ :: _ => some ⟨r.stack, .key⟩
      | [] => none
    else close t r.stack
  | .finish _ => none

end Reader

/-! ## 2. Documents -/

/-- The document that tokens make up. -/
def ofTokens? (ts : List Token) : Option Json := do
  let r ← ts.foldlM Reader.step ⟨[], .value⟩
  match r.expect with
  | .finish j => some j
  | _ => none

/-- The document of a text. -/
def read? (s : String) : Option Json := do ofTokens? (← Token.all? s.toList)

/-- The value of the last field with a key. -/
def field? (key : String) (fields : List (String × Json)) : Option Json :=
  (fields.reverse.find? fun f => f.1 == key).map Prod.snd

end BlockFlow.Json
