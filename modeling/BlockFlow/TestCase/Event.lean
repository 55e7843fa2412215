/-
# Events

What can be observed of a run: every echo, then how the run ended.

An event is written as a JSON object with its kind first, in one line (`Event.compact`) or over
several (`Event.pretty`), and read back from such an object or from the list of its fields.
-/
import BlockFlow.Json.Values
import BlockFlow.Json.Writer

namespace BlockFlow

/-- What can be observed of a run. -/
inductive Event
  | echo (text : String)
  | passed
  | exited
  | failed (code : String)
  deriving Repr, DecidableEq, Inhabited

namespace Event

/-! ## 1. Writing -/

/-- The fields of an event. -/
def fields : Event → List (String × String)
  | .echo text => [("kind", "echo"), ("text", text)]
  | .passed => [("kind", "passed")]
  | .exited => [("kind", "exited")]
  | .failed code => [("kind", "failed"), ("code", code)]

/-- The event in one line. -/
def compact (e : Event) : String :=
  "\x7b" ++ ",".intercalate (e.fields.map fun f => Json.quote f.1 ++ ":" ++ Json.quote f.2) ++ "\x7d"

/-- The event over several lines, as an item of a list. -/
def pretty (e : Event) : String :=
  "  \x7b\n" ++
    ",\n".intercalate (e.fields.map fun f => "    " ++ Json.quote f.1 ++ ": " ++ Json.quote f.2) ++
    "\n  \x7d"

/-- A list of events over several lines. -/
def prettyList (es : List Event) : String :=
  if es.isEmpty then "[]" else "[\n" ++ ",\n".intercalate (es.map pretty) ++ "\n]"

/-! ## 2. Reading -/

/-- The values of a key. -/
def valuesOf (key : String) (fields : List (String × Json)) : List Json :=
  (fields.filter fun f => f.1 == key).map Prod.snd

/-- The text of a key that occurs once. -/
def textOf? (key : String) (fields : List (String × Json)) : Option String :=
  match valuesOf key fields with
  | [.text s] => some s
  | _ => none

/-- The event of fields, among which there may be others. -/
def ofFields? (fields : List (String × Json)) : Option Event := do
  match ← textOf? "kind" fields with
  | "echo" => return .echo (← textOf? "text" fields)
  | "passed" => return .passed
  | "exited" => return .exited
  | "failed" => return .failed (← textOf? "code" fields)
  | _ => none

/-- The event of a list of its fields in order. -/
def ofItems? : List Json → Option Event
  | [.text "echo", .text text] => some (.echo text)
  | [.text "passed"] => some .passed
  | [.text "exited"] => some .exited
  | [.text "failed", .text code] => some (.failed code)
  | _ => none

/-- The event of a document, in which every number has to be one. -/
def ofJson? : Json → Option Event
  | .object fields => do
    discard (Json.toFields? fields)
    ofFields? fields
  | .list items => ofItems? items
  | _ => none

end Event

end BlockFlow
