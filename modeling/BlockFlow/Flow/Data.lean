/-
# Loading records

A load command copies one record of a data file into the variables: the only one, or the first for
which a selector holds.
-/
import BlockFlow.Flow.Action

namespace BlockFlow.Flow

open BlockFlow.Flow.Action

/-- Copies the next record into the variables. -/
def takeRecord (cursor : DataCursor) : Action DataCursor := do
  match cursor.next (← ask Session.vars) with
  | .error e => throw e.fault
  | .ok (cursor, vars) =>
    change fun s => { s with vars }
    return cursor

/-- Takes records up to one for which a selector holds; the number of records not yet taken bounds
the search. -/
def selectRecord (g : Setting) (selector path : String) (cursor : DataCursor) : Nat → Action Unit
  | 0 => do
    if !(← condition g selector) then fail (.recordNotFound cursor.format selector path)
  | left + 1 => do
    if !(← condition g selector) then
      selectRecord g selector path (← takeRecord cursor) left

/-- Loads a record of a data file. -/
def loadRecord (g : Setting) (a : Address) (format : DataFormat) (target selector : String) :
    Action Unit := do
  if target.isEmpty then fail (.loadInvalid format)
  let path ← ask fun s => dataPath g s a.unit target
  match (DataCursor.new format).load g.files path with
  | .error e => throw e.fault
  | .ok cursor =>
    let cursor ← takeRecord cursor
    if !selector.isEmpty then
      selectRecord g selector path cursor (cursor.records.length - cursor.position)
    else if !cursor.atEnd then fail (.recordMultiple format)

end BlockFlow.Flow
