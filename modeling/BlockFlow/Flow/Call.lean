/-
# Calls

A call gives its function a namespace of its own, which holds the arguments alone, and goes on at
the function's opener.  When the function has ended the run is back at the call command, which gives
the caller its variables back and hands over the function's result.

A function's commands are passed over unless it was called.
-/
import BlockFlow.Flow.Transfer
import BlockFlow.Text.Split

namespace BlockFlow.Flow

open BlockFlow.Flow.Action

/-! ## 1. Arguments -/

/-- The name and the expression of an argument. -/
def argument (part : String) : Except FlowError (String × String) :=
  match splitAssignment part with
  | none => .error (.argumentInvalid part)
  | some (left, right) => do
    let name := dropDollar (Text.trim left)
    checkName name "call parameter"
    return (name, Text.trim right)

/-- Evaluates arguments over the caller's variables. -/
def arguments (g : Setting) (args : Namespace) : List String → Action Namespace
  | [] => return args
  | part :: parts =>
    if part.isEmpty then arguments g args parts
    else do
      match argument part with
      | .error e => fail e
      | .ok (name, expr) => arguments g (args.insert name (← evaluate g expr)) parts

/-! ## 2. Entering and leaving a function -/

namespace Session

/-- Enters a function from a call command. -/
def enterCall (s : Session) (callee returnTo : Address) (args : Namespace) : Session :=
  { s with vars := args, calls := { callee, returnTo, saved := s.vars } :: s.calls }

/-- Whether the innermost call has ended and is to go on at an address. -/
def isReturningTo (s : Session) (a : Address) : Bool :=
  s.calls.head?.any fun c => c.returning && c.returnTo == a

/-- Ends the innermost call and hands its result to the caller. -/
def finishCall (s : Session) : Session :=
  let result? := s.vars.get? Namespace.resultName
  let s := s.abortCall
  { s with
    vars := match result? with
      | some v => s.vars.insert Namespace.resultName v
      | none => s.vars.erase Namespace.resultName }

/-- Marks the innermost call as ended, after leaving the constructs in it. -/
def markReturning (s : Session) : Session :=
  let s := s.drop s.blocks.length
  match s.calls with
  | [] => s
  | c :: calls => { s with calls := { c with returning := true } :: calls }

end Session

/-- Reaches a call. -/
def reachCall (g : Setting) (a : Address) (name args : String) : Action Unit := do
  match (← ask Session.suite).tables.functions.get? name with
  | none => fail (.functionNotFound name)
  | some callee =>
    if ← ask fun s => s.isReturningTo a then change Session.finishCall
    else
      let args ← arguments g ∅ (Text.splitTopLevel ',' args)
      change fun s => s.enterCall callee a args
      goTo callee

/-- Reaches the opener of a function, which is entered only by a call. -/
def reachFunction (a : Address) : Action Unit := do
  if (← ask Session.callee?) != some a then goToPart (← block a).closer "endFunction"

/-- Stores the value of an expression as the result of the function, if there is an expression. -/
def storeResult (g : Setting) (expr : String) : Action Unit := do
  if !expr.isEmpty then
    let v ← evaluate g expr
    change fun s => { s with vars := s.vars.insert Namespace.resultName v }

/-- Reaches a command that ends a function; outside of a call of that function it does nothing. -/
def returnFrom (g : Setting) (a : Address) (expr : String) : Action Unit := do
  let function? := (← block a).opener
  let callee? ← ask Session.callee?
  if callee?.isNone || callee? != function? then return
  if ← deferTransfer a .function then return
  storeResult g expr
  let returnTo? ← ask fun s => s.calls.head?.map Call.returnTo
  change Session.markReturning
  goToPart returnTo? "call"

end BlockFlow.Flow
