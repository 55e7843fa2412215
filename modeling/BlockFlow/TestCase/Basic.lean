/-
# Test cases

A test case says where the run of a suite starts, how many steps it may take and which events are to
be observed.  It is a JSON object, or the list of its fields, with the version of its schema.
-/
import BlockFlow.Files
import BlockFlow.TestCase.Event

namespace BlockFlow

/-- What a run of a suite is expected to do. -/
structure TestCase where
  schemaVersion : String
  entry : String := "main"
  maxSteps : Option Nat := none
  expected : List Event := []
  deriving Repr, DecidableEq, Inhabited

namespace TestCase

/-- The schema that test cases are written in. -/
def schema : String := "sb-tool-case.v1"

/-! ## 1. Reading -/

/-- A text that may be left out. -/
def optionalText? (key default : String) (fields : List (String × Json)) : Option String :=
  match Event.valuesOf key fields with
  | [] => some default
  | _ => Event.textOf? key fields

/-- A count that may be left out or be nothing. -/
def optionalCount? (key : String) (fields : List (String × Json)) : Option (Option Nat) :=
  match Event.valuesOf key fields with
  | [] => some none
  | [.null] => some none
  | [.number n] => n.toNat?.map some
  | _ => none

/-- A list of events that may be left out. -/
def optionalEvents? (key : String) (fields : List (String × Json)) : Option (List Event) :=
  match Event.valuesOf key fields with
  | [] => some []
  | [.list items] => items.mapM Event.ofJson?
  | _ => none

/-- The test case of fields, among which there may be others. -/
def ofFields? (fields : List (String × Json)) : Option TestCase := do
  return {
    schemaVersion := ← Event.textOf? "schemaVersion" fields
    entry := ← optionalText? "entryUnit" "main" fields
    maxSteps := ← optionalCount? "maxSteps" fields
    expected := ← optionalEvents? "expectedEvents" fields }

/-- The fields of a test case in the order of a list. -/
def fieldNames : List String := ["schemaVersion", "entryUnit", "maxSteps", "expectedEvents"]

/-- The test case of a document. -/
def ofJson? : Json → Option TestCase
  | .object fields => ofFields? fields
  | .list items =>
    if items.length ≤ fieldNames.length then ofFields? (fieldNames.zip items) else none
  | _ => none

end TestCase

end BlockFlow
