/-
# Tries

A fault that can be caught goes to the innermost try that takes part in the handling of faults.  In
its body a handler whose pattern fits catches the fault.  Otherwise the fault waits for the cleanup
section, if that was not entered, or goes on from the closer; from the outermost try it is not
handled.

`handleFault` offers a fault to the tries, and `Disposition` says what became of it.
-/
import BlockFlow.Flow.Transfer
import BlockFlow.Pattern.Reader

namespace BlockFlow.Flow

open BlockFlow.Flow.Action

/-! ## 1. Sections -/

/-- The section of the innermost construct, if it is a try. -/
def phase? (s : Session) : Option TryPhase :=
  match s.blocks with
  | .guarded t :: _ => t.phase
  | _ => none

/-- Forgets the message of the fault that was caught last. -/
def clearError : Action Unit := change fun s => { s with vars := s.vars.erase Namespace.errorName }

/-- Enters a try.  One without handler and cleanup section counts only inside of another one. -/
def enterTry (a : Address) : Action Unit := do
  let b ← block a
  let nesting ← ask Session.nesting
  if b.catchAt.isNone && b.finallyAt.isNone && nesting < 0 then
    change fun s => s.push (.guarded { opener := a })
  else
    change fun s =>
      { s.push (.guarded { opener := a, phase := some .trying }) with nesting := s.nesting + 1 }

/-- Reaches a handler, which is passed over unless a fault was caught. -/
def reachCatch (a : Address) : Action Unit := do
  let b ← block a
  requireActive b.opener
  if (← ask phase?) != some .catching then goToPart (b.finallyAt <|> b.closer) "endTry"

/-- Reaches a cleanup section. -/
def reachFinally (a : Address) : Action Unit := do
  requireActive (← block a).opener
  clearError
  change fun s => s.updateTry fun t => if t.isActive then t.enterCleanup else t

/-- Leaves a try, and takes up the work that waited for it. -/
def leaveTry (a : Address) : Action Unit := do
  requireActive (← block a).opener
  clearError
  let blocks ← ask Session.blocks
  change fun s => s.setBlocks blocks.tail
  match blocks with
  | .guarded t :: _ =>
    if t.isActive then
      change fun s => { s with nesting := s.nesting - 1 }
      resumeDeferred t.opener
  | _ => fail (.frameMissing "try")

/-! ## 2. Raising -/

/-- A fault raised by a command. -/
def thrown (message : String) : Fault := { kind := .script, code := "SCRIPT_THROWN", message }

/-- Raises a fault with the text of an expression, or with a standing one. -/
def throwValue (g : Setting) (expr : String) : Action Unit := do
  if expr.isEmpty then throw (thrown "Error thrown")
  throw (thrown (← evaluate g expr).display)

/-- Ends the run, after the cleanup sections that are owed. -/
def exitRun (a : Address) : Action Unit := do
  if !(← deferTransfer a .exit) then change fun s => { s with exitRequested := true }

/-! ## 3. Handlers -/

/-- The body of a pattern between slashes. -/
def patternBody? (text : String) : Option String :=
  match text.toList with
  | '/' :: cs => if cs.getLast? == some '/' then some (String.ofList cs.dropLast) else none
  | _ => none

/-- Whether a text occurs in another. -/
def occursIn (word : List Char) : List Char → Bool
  | [] => word.isEmpty
  | c :: cs => word.isPrefixOf (c :: cs) || occursIn word cs

/-- Whether a handler's text fits a message: a pattern between slashes by a match, any other text by
an occurrence. -/
def fits (text message : String) : Bool :=
  match (patternBody? text).bind Pattern.read? with
  | some p => p.search message
  | none => occursIn text.toList message.toList

/-- What a handler's target asks for: a pattern as it stands, and any other target as the text of its
value, if it has one. -/
def handlerText (g : Setting) (target : String) : Action String :=
  if (patternBody? target).isSome then return target
  else tryCatch (return (← evaluate g target).display) fun _ => return target

/-- Whether a handler catches a fault with a message; one without a target catches every fault. -/
def catches (g : Setting) (message : String) (catchAt : Address) : Action Bool := do
  let target := Text.trim (((← ask fun s => s.suite.commandAt? catchAt).map Command.target).getD "")
  if target.isEmpty then return true
  return fits (← handlerText g target) message

/-! ## 4. Faults -/

/-- What became of a fault. -/
inductive Disposition
  | handled
  | unhandled (f : Fault)
  deriving Repr, DecidableEq

namespace Session

/-- Leaves the constructs of the innermost call up to a try that takes part. -/
def dropToTry (s : Session) : Session := s.drop (s.blocks.takeWhile fun f => !f.isActiveTry).length

/-- The innermost try that takes part, after ending the calls inside it and leaving the constructs
inside it.  The list is that of the calls that are running. -/
def unwindThrough (s : Session) : List Call → Option Address × Session
  | [] => (s.dropToTry.blocks.head?.map Frame.opener, s.dropToTry)
  | _ :: calls =>
    match s.dropToTry.blocks.head? with
    | some f => (some f.opener, s.dropToTry)
    | none =>
      if s.dropToTry.nesting < 0 then (none, s.dropToTry)
      else s.dropToTry.abortCall.unwindThrough calls

/-- The innermost try that takes part, once everything inside it was left. -/
def unwindToTry (s : Session) : Option Address × Session := s.unwindThrough s.calls

end Session

/-- Sends a fault on from a try that does not catch it: to the cleanup section, or to the closer if
there is another try around it. -/
def passOn (f : Fault) (t : TryFrame) (b : Block) : Action Disposition := do
  change fun s => (s.forgetDeferred t.opener).defer (.fault f) t.opener
  match b.finallyAt.filter fun _ => !t.cleaned with
  | some finallyAt =>
    change fun s => (s.updateTry TryFrame.enterCleanup).branch finallyAt
    return .handled
  | none =>
    if (← ask Session.nesting) > 0 then
      goToPart b.closer "endTry"
      return .handled
    change fun s => { s with deferred := [] }
    return .unhandled f

/-- Offers a fault to the innermost try, everything inside which was left. -/
def catchOrPassOn (g : Setting) (f : Fault) (tryAt : Address) : Action Disposition := do
  change Session.pruneDeferred
  let b ← block tryAt
  match ← ask Session.blocks with
  | .guarded t :: _ =>
    match b.catchAt.filter fun _ => !t.caught && t.phase == some .trying with
    | some catchAt =>
      if ← catches g f.message catchAt then
        change fun s =>
          ({ s.updateTry TryFrame.enterHandler with
              vars := s.vars.insert Namespace.errorName (.text f.message) }.forgetDeferred
            tryAt).branch catchAt
        return .handled
    | none => pure ()
    passOn f t b
  | _ => fail (.frameMissing "try")

/-- Offers a fault to the tries around the current command. -/
def handleFault (g : Setting) (f : Fault) (s : Session) : Disposition × Session :=
  let f := match s.current with
    | some a => f.attach (s.suite.commandRef a)
    | none => f
  if !f.isCatchable || s.nesting < 0 then (.unhandled f, s)
  else
    match s.unwindToTry with
    | (none, s) => (.unhandled f, s)
    | (some tryAt, s) =>
      match catchOrPassOn g f tryAt s with
      | (.ok d, s) => (d, s)
      | (.error e, s) => (.unhandled e, s)

end BlockFlow.Flow
