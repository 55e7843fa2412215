/-
# Conditionals

The conditions of an `if` and its `elseIf`s are evaluated in order until one holds.  A condition that
does not hold sends the run to the next one, to the `else`, or to the end; a branch command reached
after a branch was run sends it to the end.
-/
import BlockFlow.Flow.Action

namespace BlockFlow.Flow

open BlockFlow.Flow.Action

/-- The block of the `if` that a branch or closer belongs to, which must be innermost. -/
def owningIf (a : Address) : Action Block := do
  let opener? := (← block a).opener
  requireActive opener?
  block (opener?.getD a)

/-- Whether the innermost construct is a conditional of which a branch was run. -/
def hasMatched (s : Session) : Bool :=
  match s.blocks with
  | .conditional c :: _ => c.matched
  | _ => false

/-- The first `elseIf` that the innermost construct has not tried, which is then tried. -/
def takeUntried : Action (Option Address) := do
  match ← ask Session.blocks with
  | .conditional c :: _ =>
    change fun s => s.updateIf fun c => { c with untried := c.untried.tail }
    return c.untried.head?
  | _ => return none

/-- Enters a branch if its condition holds, and goes on to the next one if not. -/
def tryBranch (g : Setting) (b : Block) (cond : String) : Action Unit := do
  if ← condition g cond then
    change fun s => s.updateIf fun c => { c with matched := true }
  else
    goToPart ((← takeUntried) <|> b.elseAt <|> b.closer) "endIf"

/-- Enters a conditional. -/
def enterIf (g : Setting) (a : Address) (cond : String) : Action Unit := do
  let b ← block a
  change fun s => s.push (.conditional { opener := a, untried := b.elseIfs })
  tryBranch g b cond

/-- Reaches an `elseIf`. -/
def reachElseIf (g : Setting) (a : Address) (cond : String) : Action Unit := do
  let b ← owningIf a
  if ← ask hasMatched then goToPart b.closer "endIf" else tryBranch g b cond

/-- Reaches an `else`. -/
def reachElse (a : Address) : Action Unit := do
  let b ← owningIf a
  if ← ask hasMatched then goToPart b.closer "endIf"

/-- Leaves a conditional. -/
def leaveIf (a : Address) : Action Unit := do
  discard (owningIf a)
  leaveTop

end BlockFlow.Flow
