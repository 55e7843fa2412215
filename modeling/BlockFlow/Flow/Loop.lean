/-
# Loops

Entering a loop binds its own names, which get their old bindings back when the loop is left, and
begins the first pass; the closer sends the run back to the opener, which begins the next one.  A
pass begins if the loop's source has one left (`LoopSource.hasPass`); otherwise the run goes on at
the closer, which leaves the loop.

A `break` or `continue` leaves the constructs inside the innermost loop, after the cleanup sections
that they owe.
-/
import BlockFlow.Flow.Transfer
import BlockFlow.Text.Split

namespace BlockFlow.Flow

open BlockFlow.Flow.Action

/-! ## 1. Headers -/

/-- A loop with the names that are its own. -/
structure LoopHeader where
  source : LoopSource
  names : List String := []

/-- The header of a loop under a condition. -/
def whileHeader (cond : String) : Except FlowError LoopHeader :=
  if cond.isEmpty then .error (.loopInvalid .conditionMissing) else .ok { source := .holding cond }

/-- The variable that a statement of a counted loop's header starts with. -/
def headerVariable (ordinal : Nat) (statement : String) : Except FlowError String := do
  let left := Text.trim ((splitAssignment statement).elim statement Prod.fst)
  match left.toList with
  | '$' :: c :: cs =>
    let name := String.ofList (c :: cs)
    checkName name "for loop variable"
    return name
  | _ => throw (.loopInvalid (.headerVariable ordinal left))

/-- The variables of statements, counted from a number on. -/
def headerVariables (ordinal : Nat) : List String → Except FlowError (List String)
  | [] => .ok []
  | statement :: rest => do
    let name ← headerVariable ordinal statement
    return name :: (← headerVariables (ordinal + 1) rest)

/-- The header of a counted loop: statements, a condition and statements, with semicolons between
them. -/
def forHeader (target : String) : Except FlowError LoopHeader :=
  match Text.splitTopLevel ';' target with
  | [init, cond, iterate] => do
    if cond.isEmpty then throw (.loopInvalid .headerCondition)
    let init := Text.splitTopLevel ',' init
    let names ← headerVariables 1 init
    let iterate := (Text.splitTopLevel ',' iterate).filter fun s => !s.isEmpty
    return { source := .counted (init.filter fun s => (splitAssignment s).isSome) cond iterate, names }
  | _ => .error (.loopInvalid .headerParts)

/-- The values that a list of expressions gives; a list that is the only one counts as the values
themselves. -/
def loopValues : Value → List Value
  | .list [.list items] => items
  | .list items => items
  | v => [v]

/-- The header of a loop over values. -/
def foreachHeader (g : Setting) (target value : String) : Action LoopHeader := do
  let var := dropDollar target
  if var.isEmpty then fail (.loopInvalid .variableMissing)
  if let .error e := checkName var "foreach variable" then fail e
  if value.isEmpty then fail (.loopInvalid .valuesMissing)
  let items := loopValues (← evaluate g ("[" ++ value ++ "]"))
  return { source := .values var items 0, names := [var, Namespace.indexName] }

/-- The header of a loop over the records of a data file. -/
def recordsHeader (g : Setting) (a : Address) (k : Keyword) (format : DataFormat) (target : String) :
    Action LoopHeader := do
  if target.isEmpty then fail (.loopInvalid (.fileMissing k.name))
  let path ← ask fun s => dataPath g s a.unit target
  match (DataCursor.new format).load g.files path with
  | .error e => throw e.fault
  | .ok cursor => return { source := .records cursor, names := cursor.fields }

/-! ## 2. Passes -/

/-- Binds a variable. -/
def bindName (name : String) (v : Value) : Action Unit :=
  change fun s => { s with vars := s.vars.insert name v }

/-- Binds the variable of a loop over values to the value at an index. -/
def bindItem (var : String) (items : List Value) (index : Nat) : Action Unit :=
  match items[index]? with
  | some v => bindName var v
  | none => return

/-- Replaces the source of the innermost construct, which is a loop. -/
def setSource (source : LoopSource) : Action Unit :=
  change fun s => s.updateLoop fun l => { l with source }

/-- What comes before the first pass. -/
def LoopSource.begin (g : Setting) : LoopSource → Action Unit
  | .holding _ | .records _ => return
  | .counted init _ _ => evaluateAll g init
  | .values var items _ => bindItem var items 0

/-- What comes between two passes. -/
def LoopSource.advance (g : Setting) : LoopSource → Action Unit
  | .holding _ | .records _ => return
  | .counted _ _ iterate => evaluateAll g iterate
  | .values var items index => do
    setSource (.values var items (index + 1))
    bindItem var items (index + 1)

/-- Whether there is another pass, which a loop over records then has its record for. -/
def LoopSource.hasPass (g : Setting) : LoopSource → Action Bool
  | .holding cond | .counted _ cond _ => condition g cond
  | .values _ items index => do
    bindName Namespace.indexName (.number index.toFloat)
    return index < items.length
  | .records cursor => do
    if cursor.atEnd then return false
    match cursor.next (← ask Session.vars) with
    | .error e => throw e.fault
    | .ok (cursor, vars) =>
      change fun s => { s with vars }
      setSource (.records cursor)
      return true

/-! ## 3. Openers and closers -/

/-- Pushes the frame of a loop: its names keep their bindings, and unbound ones are bound to
nothing. -/
def pushLoop (a : Address) (h : LoopHeader) : Action Unit :=
  change fun s =>
    let saved := Dict.ofList (h.names.map fun name => (name, s.vars.get? name))
    let unbound := h.names.filter fun name => !s.vars.contains name
    { s.push (.loop { opener := a, source := h.source, saved }) with
      vars := s.vars.insertAll (unbound.map (·, Value.null)) }

/-- Begins a pass at the opener of the innermost loop, or goes on at its closer. -/
def beginPass (g : Setting) (a : Address) (k : Keyword) : Action Unit := do
  let more ← (← topLoop).source.hasPass g
  change fun s => s.updateLoop fun l => { l with complete := !more }
  if !more then goToPart (← block a).closer k.terminatorName

/-- Whether the opener at an address is to begin another pass. -/
def isReentering (a : Address) (s : Session) : Bool :=
  match s.blocks with
  | .loop l :: _ => l.opener == a && l.reentering
  | _ => false

/-- Reaches the opener of a loop whose header an action makes. -/
def reachLoop (g : Setting) (a : Address) (k : Keyword) (header : Action LoopHeader) : Action Unit := do
  if ← ask (isReentering a) then
    change fun s => s.updateLoop fun l => { l with reentering := false }
    (← topLoop).source.advance g
  else
    let h ← header
    pushLoop a h
    h.source.begin g
  beginPass g a k

/-- Reaches the closer of a loop. -/
def closeLoop (a : Address) : Action Unit := do
  let opener? := (← block a).opener
  requireActive opener?
  if (← topLoop).complete then leaveTop
  else
    change fun s => s.updateLoop fun l => { l with reentering := true }
    goToPart opener? "loop"

/-! ## 4. Breaking and continuing -/

/-- Leaves the constructs inside the innermost loop of the innermost call. -/
def unwindToLoop : Action LoopFrame := do
  change fun s => s.drop (s.blocks.takeWhile fun f => !f matches .loop _).length
  match ← ask Session.blocks with
  | .loop l :: _ => return l
  | _ => fail .notInLoop

/-- Whether a guard, if there is one, holds. -/
def guardHolds (g : Setting) (guard : String) : Action Bool :=
  if guard.isEmpty then return true else condition g guard

/-- The innermost loop, if the command at an address is to leave it or to go on with it now. -/
def loopToLeave? (g : Setting) (a : Address) (guard : String) : Action (Option LoopFrame) := do
  if !(← guardHolds g guard) then return none
  if ← deferTransfer a .loop then return none
  return some (← unwindToLoop)

/-- Breaks out of a loop. -/
def breakLoop (g : Setting) (a : Address) (guard : String) : Action Unit := do
  if let some l ← loopToLeave? g a guard then
    change fun s => s.updateLoop fun l => { l with complete := true }
    goToPart (← block l.opener).closer "loop end"

/-- Goes on with the next pass of a loop. -/
def continueLoop (g : Setting) (a : Address) (guard : String) : Action Unit := do
  if let some l ← loopToLeave? g a guard then
    change fun s => s.updateLoop fun l => { l with reentering := true }
    goTo l.opener

end BlockFlow.Flow
