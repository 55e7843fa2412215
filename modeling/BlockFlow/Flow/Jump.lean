/-
# Jumps

A jump goes to a label of its unit, or over a number of commands, as long as it stays within its
innermost region.  The conditionals that it leaves end.
-/
import BlockFlow.Decimal.Read
import BlockFlow.Flow.Action
import BlockFlow.Suite.Region

namespace BlockFlow.Flow

open BlockFlow.Flow.Action

/-- Whether an address lies after the opener of a conditional and not after its closer. -/
def IfFrame.spans (suite : Suite) (goal : Address) (c : IfFrame) : Bool :=
  c.opener < goal && ((suite.blockAt? c.opener).bind Block.closer).any fun e => goal ≤ e

/-- The constructs that are left once the innermost conditionals that do not span an address have
ended. -/
def keepSpanning (suite : Suite) (goal : Address) : List Frame → List Frame
  | .conditional c :: rest =>
    if c.spans suite goal then .conditional c :: rest else keepSpanning suite goal rest
  | blocks => blocks

/-- Jumps from an address to another one. -/
def jump (start goal : Address) : Action Unit := do
  match (← ask Session.suite).checkJump start goal with
  | .error e => throw e.fault
  | .ok () =>
    change fun s => (s.setBlocks (keepSpanning s.suite goal s.blocks)).branch goal

/-- Jumps to a label. -/
def goto (a : Address) (label : String) : Action Unit := do
  let key := LabelKey.ofText label a.unit
  match (← ask Session.suite).tables.labels.get? key with
  | some goal => jump a goal
  | none => fail (.labelNotFound key.label)

/-- Jumps to a label if a condition holds. -/
def gotoIf (g : Setting) (a : Address) (cond label : String) : Action Unit := do
  if ← condition g cond then goto a label

/-- The number that a value gives to count by. -/
def numberOf? : Value → Option Float
  | .number x => some x
  | .text s => Decimal.readFloat? (Text.trim s)
  | _ => none

/-- The number of commands to skip. -/
def skipCount (g : Setting) (spec : String) : Action Nat := do
  if spec.isEmpty then return 1
  match (numberOf? (← evaluate g spec)).filter fun x => !x.isNaN with
  | none => fail (.skipNotNumeric spec)
  | some x => if x < 0 then fail (.skipNegative x) else return x.floor.toUInt64.toNat

/-- Skips a number of commands. -/
def skipNext (g : Setting) (a : Address) (spec : String) : Action Unit := do
  let count ← skipCount g spec
  if count = 0 then return
  let goal := a.offset (min (count + 1) Address.limit)
  match goal.check (← ask Session.suite).units with
  | .error e => throw e.fault
  | .ok goal => jump a goal

end BlockFlow.Flow
