/-
# Deferred transfers

A `break`, `continue`, `return` or `exitTest` that leaves a try with a cleanup section not yet
entered waits: the section runs first, and the closer of the try takes the transfer up again, which
may then wait for the next section on its way.

While a cleanup section runs on behalf of deferred work, a transfer out of it replaces that work.
-/
import BlockFlow.Flow.Action

namespace BlockFlow.Flow

/-! ## 1. Cleanup sections on the way -/

/-- Whether a try has a cleanup section that was not entered. -/
def TryFrame.owesCleanup (suite : Suite) (t : TryFrame) : Bool :=
  t.isActive && !t.cleaned && ((suite.blockAt? t.opener).bind Block.finallyAt).isSome

/-- The number of constructs inside the innermost try that owes its cleanup section.  On the way to a
loop only what is inside the loop counts. -/
def cleanupDepth? (suite : Suite) (goal : Goal) : List Frame → Option Nat
  | [] => none
  | .guarded t :: rest =>
    if t.owesCleanup suite then some 0 else (cleanupDepth? suite goal rest).map (· + 1)
  | .loop _ :: rest => if goal = .loop then none else (cleanupDepth? suite goal rest).map (· + 1)
  | .conditional _ :: rest => (cleanupDepth? suite goal rest).map (· + 1)

/-- The first of several stacks that holds a try owing its cleanup section: the number of stacks
before it, and the number of constructs inside the try. -/
def cleanupIn? (suite : Suite) (goal : Goal) : List (List Frame) → Option (Nat × Nat)
  | [] => none
  | blocks :: rest =>
    match cleanupDepth? suite goal blocks with
    | some n => some (0, n)
    | none => (cleanupIn? suite goal rest).map fun p => (p.1 + 1, p.2)

namespace Session

/-- The try that a transfer has to clean up first: the number of calls inside it, and the number of
constructs of its own call inside it.  Only the end of the run looks beyond the innermost call. -/
def cleanup? (s : Session) (goal : Goal) : Option (Nat × Nat) :=
  if goal = .exit then cleanupIn? s.suite goal s.blockStacks
  else cleanupIn? s.suite goal [s.blocks]

/-- Whether a way to a loop leads out of a try. -/
def leavesTry (tryAt : Address) : List Frame → Bool
  | [] => true
  | .loop _ :: _ => false
  | f :: rest => f.isTryAt tryAt || leavesTry tryAt rest

/-- Whether a transfer leaves the cleanup section that some deferred work waits for. -/
def leavesCleanup (s : Session) (d : Deferred) (goal : Goal) : Bool :=
  if s.depth ≠ d.depth then goal == .exit
  else if goal = .loop then leavesTry d.resumeAt s.blocks
  else true

end Session

open BlockFlow.Flow.Action

/-! ## 2. Deferring and resuming -/

/-- Enters the cleanup section of the innermost construct, which is a try, and defers work to its
closer. -/
def enterCleanup (work : Work) : Action Unit := do
  match ← ask Session.blocks with
  | .guarded t :: _ =>
    change fun s => s.updateTry TryFrame.enterCleanup
    let b ← block t.opener
    change fun s => s.pruneDeferred.defer work t.opener
    goToPart b.finallyAt "finally"
  | _ => fail (.frameMissing "try")

/-- Runs the next cleanup section on the way of a transfer, or the transfer itself once there is
none. -/
def resumeTransfer (origin : Address) (goal : Goal) : Action Unit := do
  match ← ask fun s => s.cleanup? goal with
  | some (calls, constructs) =>
    change fun s => (s.abortCalls calls).drop constructs
    enterCleanup (.transfer origin goal)
  | none => goTo origin

/-- Whether a transfer has to wait; if it has, it is deferred. -/
def deferTransfer (here : Address) (goal : Goal) : Action Bool := do
  let s ← getThe Session
  match s.deferred with
  | d :: rest =>
    if s.leavesCleanup d goal then
      change fun s => { s with deferred := { d with work := .transfer here goal } :: rest }
      return true
  | [] => pure ()
  if s.nesting > -1 ∧ (s.cleanup? goal).isSome then
    resumeTransfer here goal
    return true
  return false

/-- Takes up the work that waits for the closer of a try of the innermost call. -/
def resumeDeferred (tryAt : Address) : Action Unit := do
  let s ← getThe Session
  match s.deferred with
  | d :: rest =>
    if d.resumeAt == tryAt && d.depth == s.depth then
      change fun s => { s with deferred := rest }
      match d.work with
      | .fault f => throw f
      | .transfer origin goal => resumeTransfer origin goal
  | [] => pure ()

end BlockFlow.Flow
