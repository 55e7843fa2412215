/-
# Compiling units

One pass over the commands of each unit builds the tables of a suite.  A `Draft` holds the tables so
far and the openers not yet closed, innermost first; `Draft.flow` says what each keyword does to it,
or which `Misuse` it is.

The first error stops the pass.  `compile` returns the tables built up to there beside it: an
engine whose units were replaced by units that do not compile is left with them.
-/
import BlockFlow.Suite.Basic

namespace BlockFlow

/-! ## 1. Compile errors -/

/-- Why a command cannot stand where it stands. -/
inductive Misuse
  | waits
  | labelUnnamed
  | functionUnnamed
  | duplicateLabel (label : String)
  | duplicateFunction (name : String) (existing : Address)
  | elseIfAfterElse (elseAt : Address)
  | secondElse
  | secondCatch
  | secondFinally
  | catchAfterFinally (finallyAt : Address)
  | noConditional
  | noTryForCatch
  | noTryForFinally
  | noOpener (expected : Keyword)
  | mismatch (pending : Address)
  | outsideLoop
  | outsideFunction
  deriving Repr, DecidableEq

/-- Why units do not compile. -/
inductive CompileError
  | misuse (here : Address) (why : Misuse)
  /-- Openers without a closer, outermost first. -/
  | unterminated (openers : List (Address × Keyword))
  deriving Repr, DecidableEq

namespace Misuse

/-- The code of a misuse. -/
def code : Misuse → String
  | .waits => "COMPILE_AND_WAIT"
  | .labelUnnamed | .functionUnnamed => "COMPILE_NAME_MISSING"
  | .duplicateLabel _ => "COMPILE_DUPLICATE_LABEL"
  | .duplicateFunction _ _ => "COMPILE_DUPLICATE_FUNCTION"
  | .elseIfAfterElse _ => "COMPILE_ELSE_ORDER"
  | .secondElse => "COMPILE_DUPLICATE_ELSE"
  | .secondCatch => "COMPILE_DUPLICATE_CATCH"
  | .secondFinally => "COMPILE_DUPLICATE_FINALLY"
  | .catchAfterFinally _ => "COMPILE_FINALLY_ORDER"
  | .noConditional | .noTryForCatch | .noTryForFinally | .noOpener _ => "COMPILE_BLOCK_NOT_PENDING"
  | .mismatch _ => "COMPILE_BLOCK_MISMATCH"
  | .outsideLoop => "COMPILE_NOT_IN_LOOP"
  | .outsideFunction => "COMPILE_NOT_IN_FUNCTION"

/-- The message of a misuse.  It names the offending command, or in two cases the command that
should have come later. -/
def message (ref : Address → String) (here : Address) : Misuse → String
  | .waits => ref here ++ ", AndWait suffix is not valid for flow commands"
  | .labelUnnamed => ref here ++ ", requires a label name"
  | .functionUnnamed => ref here ++ ", requires a function name"
  | .duplicateLabel label =>
    ref here ++ ", label '" ++ label ++ "' is already defined in this unit"
  | .duplicateFunction name existing =>
    ref here ++ ", function '" ++ name ++ "' is already defined at " ++ ref existing
  | .elseIfAfterElse elseAt => ref elseAt ++ " An else has to come after all elseIfs."
  | .secondElse => ref here ++ " There can only be one else associated with a given if."
  | .secondCatch => ref here ++ " There can only be one catch-block associated with a given try."
  | .secondFinally =>
    ref here ++ " There can only be one finally-block associated with a given try."
  | .catchAfterFinally finallyAt =>
    ref finallyAt ++ " A finally-block has to be last in a try section."
  | .noConditional => ref here ++ ", is not valid outside of an if/endIf block"
  | .noTryForCatch => ref here ++ ", is not valid without a try block"
  | .noTryForFinally => ref here ++ ", without a beginning [try]"
  | .noOpener expected => ref here ++ ", without an beginning [" ++ expected.name ++ "]"
  | .mismatch pending => ref here ++ ", does not match command " ++ ref pending
  | .outsideLoop => ref here ++ ", is not valid outside of a loop"
  | .outsideFunction => ref here ++ ", is not valid outside of a function/endFunction block"

end Misuse

/-- The report of a compile error.  The reference of the offending command is attached, except where
the message already opens with it or several commands are named. -/
def CompileError.fault (units : List ScriptUnit) : CompileError → Fault
  | .misuse here .waits =>
    { kind := .grammar, code := Misuse.waits.code
      message := Misuse.waits.message (commandRef units) here }
  | .misuse here why =>
    { kind := .grammar, code := why.code, message := why.message (commandRef units) here
      ref := some (commandRef units here) }
  | .unterminated openers =>
    { kind := .grammar, code := "COMPILE_UNTERMINATED_BLOCK"
      message := "; ".intercalate (openers.map fun o =>
        commandRef units o.1 ++ " without a terminating '" ++ o.2.terminatorName ++ "'") }

/-! ## 2. Drafts -/

/-- Tables under construction. -/
structure Draft where
  tables : Tables := {}
  /-- Openers not yet closed, innermost first. -/
  pending : List Address := []
  deriving Inhabited

namespace Draft

/-- The block recorded at an address.  Every pending address has one. -/
def block (d : Draft) (a : Address) : Block :=
  (d.tables.blocks.get? a).getD { address := a, keyword := .label }

/-- Records a block. -/
def define (d : Draft) (b : Block) : Draft :=
  { d with tables.blocks := d.tables.blocks.insert b.address b }

/-- Completes the block recorded at an address. -/
def link (d : Draft) (a : Address) (f : Block → Block) : Draft :=
  { d with tables.blocks := d.tables.blocks.modify a f }

/-- Completes the block at an address, if there is an address. -/
def linkAll (d : Draft) (as : List Address) (f : Block → Block) : Draft :=
  as.foldl (fun d a => d.link a f) d

/-- Records an opener and makes it the innermost pending one. -/
def openBlock (d : Draft) (a : Address) (k : Keyword) (name : Option String) : Draft :=
  let d := d.define { address := a, keyword := k, name }
  { d with pending := a :: d.pending }

/-- The innermost pending opener, which must be of the expected keyword. -/
def innermost (d : Draft) (expected : Keyword) (missing : Misuse) : Except Misuse Address :=
  match d.pending with
  | [] => .error missing
  | top :: _ => if (d.block top).keyword = expected then .ok top else .error (.mismatch top)

/-- Closes the innermost pending opener, which must be of the expected keyword and, if the closer
is named, of that name. -/
def closeBlock (d : Draft) (expected : Keyword) (name : Option String) :
    Except Misuse (Address × Draft) :=
  match d.pending with
  | [] => .error (.noOpener expected)
  | top :: rest =>
    if (d.block top).keyword ≠ expected then .error (.mismatch top)
    else if name.isSome ∧ (d.block top).name ≠ name then .error (.mismatch top)
    else .ok (top, { d with pending := rest })

/-- Closes a construct without branches: opener and closer are linked to each other. -/
def closeWith (d : Draft) (a : Address) (k expected : Keyword) (name : Option String) :
    Except Misuse Draft := do
  let (top, d) ← d.closeBlock expected name
  let d := d.link top fun b => { b with closer := some a }
  return d.define { address := a, keyword := k, opener := some top }

/-- The innermost pending opener of a nature. -/
def enclosing? (d : Draft) (n : Nature) : Option Address :=
  d.pending.find? fun a => (d.block a).nature? == some n

/-- A target that is a name. -/
def nonEmpty? (target : String) : Option String := if target.isEmpty then none else some target

/-! ## 3. One command -/

/-- What a flow command with a trimmed target does to the draft. -/
def flow (d : Draft) (a : Address) (k : Keyword) (target : String) : Except Misuse Draft :=
  match k with
  | .label => do
    if target.isEmpty then throw .labelUnnamed
    let key := LabelKey.ofText target a.unit
    if d.tables.labels.contains key then throw (.duplicateLabel target)
    return { d with tables.labels := d.tables.labels.insert key a }
  | .ifThen => return d.openBlock a k none
  | .elseIf => do
    let top ← d.innermost .ifThen .noConditional
    if let some elseAt := (d.block top).elseAt then throw (.elseIfAfterElse elseAt)
    let d := d.define { address := a, keyword := k, opener := some top }
    return d.link top fun b => { b with elseIfs := b.elseIfs ++ [a] }
  | .otherwise => do
    let top ← d.innermost .ifThen .noConditional
    if (d.block top).elseAt.isSome then throw .secondElse
    let d := d.define { address := a, keyword := k, opener := some top }
    return d.link top fun b => { b with elseAt := some a }
  | .endIf => do
    let (top, d) ← d.closeBlock .ifThen none
    let d := d.define { address := a, keyword := k, opener := some top }
    let branches := (d.block top).elseIfs ++ (d.block top).elseAt.toList
    return d.linkAll (top :: branches) fun b => { b with closer := some a }
  | .tryBlock => return d.openBlock a k (nonEmpty? target)
  | .catchError => do
    let top ← d.innermost .tryBlock .noTryForCatch
    if (d.block top).catchAt.isSome then throw .secondCatch
    if let some finallyAt := (d.block top).finallyAt then throw (.catchAfterFinally finallyAt)
    let d := d.define { address := a, keyword := k, opener := some top }
    return d.link top fun b => { b with catchAt := some a }
  | .finallyDo => do
    let top ← d.innermost .tryBlock .noTryForFinally
    if (d.block top).finallyAt.isSome then throw .secondFinally
    let d := d.define { address := a, keyword := k, opener := some top }
    return d.linkAll (top :: (d.block top).catchAt.toList) fun b => { b with finallyAt := some a }
  | .endTry => do
    let (top, d) ← d.closeBlock .tryBlock (nonEmpty? target)
    let d := d.define { address := a, keyword := k, opener := some top }
    let sections := (d.block top).catchAt.toList ++ (d.block top).finallyAt.toList
    return d.linkAll (top :: sections) fun b => { b with closer := some a }
  | .whileLoop | .forLoop | .foreach | .forJson | .forXml => return d.openBlock a k none
  | .breakLoop | .continueLoop => do
    let some top := d.enclosing? .loop | throw .outsideLoop
    return d.define { address := a, keyword := k, opener := some top }
  | .endWhile => d.closeWith a k .whileLoop none
  | .endFor => d.closeWith a k .forLoop none
  | .endForeach => d.closeWith a k .foreach none
  | .endForJson => d.closeWith a k .forJson none
  | .endForXml => d.closeWith a k .forXml none
  | .function | .script => do
    if target.isEmpty then throw .functionUnnamed
    if let some existing := d.tables.functions.get? target then
      throw (.duplicateFunction target existing)
    let d := { d with tables.functions := d.tables.functions.insert target a }
    return d.openBlock a k (some target)
  | .returnValue => do
    let some top := d.enclosing? .function | throw .outsideFunction
    return d.define { address := a, keyword := k, opener := some top }
  | .endFunction => d.closeWith a k .function (nonEmpty? target)
  | .endScript => d.closeWith a k .script (nonEmpty? target)
  | .call => return d.define { address := a, keyword := k }
  | .goto | .gotoIf | .skipNext | .throwError | .exitTest | .loadJsonVars | .loadXmlVars =>
    return d

/-- What any command does to the draft; commands of the host leave it alone. -/
def command (d : Draft) (a : Address) (c : Command) : Except CompileError Draft :=
  match Keyword.ofName? c.name with
  | none => .ok d
  | some (_, true) => .error (.misuse a .waits)
  | some (k, false) => (d.flow a k (Text.trim c.target)).mapError (.misuse a)

/-! ## 4. Units -/

/-- The commands of a unit from a position on: the draft before the first error, and the error. -/
def commands (d : Draft) (a : Address) : List Command → Draft × Option CompileError
  | [] => (d, none)
  | c :: cs =>
    match d.command a c with
    | .ok d => commands d a.next cs
    | .error e => (d, some e)

end Draft

/-- The tables with those of one more unit, and the error that stopped it. -/
def Tables.addUnit (t : Tables) (index : Nat) (u : ScriptUnit) : Tables × Option CompileError :=
  match Draft.commands { tables := t } ⟨index, 0⟩ u.commands with
  | (d, some e) => (d.tables, some e)
  | (d, none) =>
    if d.pending.isEmpty then (d.tables, none)
    else (d.tables, some (.unterminated (d.pending.reverse.map fun a => (a, (d.block a).keyword))))

/-- The tables with those of more units, the first of which has the given index. -/
def Tables.addUnits (t : Tables) (index : Nat) : List ScriptUnit → Tables × Option CompileError
  | [] => (t, none)
  | u :: us =>
    match t.addUnit index u with
    | (t, none) => t.addUnits (index + 1) us
    | (t, some e) => (t, some e)

/-- The tables of units, as far as they could be built, and the error that stopped the pass. -/
def Tables.ofUnits (units : List ScriptUnit) : Tables × Option CompileError :=
  Tables.addUnits {} 0 units

/-- Compiles units; the index of each becomes the unit of its addresses. -/
def Suite.compile (units : List ScriptUnit) : Except CompileError Suite :=
  match Tables.ofUnits units with
  | (t, none) => .ok ⟨units, t⟩
  | (_, some e) => .error e

/-- A suite is over the units that it was compiled from. -/
theorem Suite.units_of_compile {units : List ScriptUnit} {s : Suite} (h : Suite.compile units = .ok s) :
    s.units = units := by
  unfold Suite.compile at h
  split at h <;> cases h
  rfl

end BlockFlow
