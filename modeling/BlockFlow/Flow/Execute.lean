/-
# Executing commands

`Session.execute` runs the flow command at an address.  A fault gets the reference of the command,
unless it has one.
-/
import BlockFlow.Flow.Call
import BlockFlow.Flow.Conditional
import BlockFlow.Flow.Data
import BlockFlow.Flow.Guard
import BlockFlow.Flow.Jump
import BlockFlow.Flow.Loop

namespace BlockFlow.Flow

open BlockFlow.Flow.Action

/-- Whether commands with a name are flow commands; all others are left to a host. -/
def handles (name : String) : Bool :=
  match Keyword.ofName? name with
  | some (_, false) => true
  | _ => false

/-- What a flow command with a trimmed target and value does. -/
def perform (g : Setting) (a : Address) (k : Keyword) (target value : String) : Action Unit :=
  match k with
  | .label => return
  | .goto => goto a target
  | .gotoIf => gotoIf g a target value
  | .skipNext => skipNext g a target
  | .ifThen => enterIf g a target
  | .elseIf => reachElseIf g a target
  | .otherwise => reachElse a
  | .endIf => leaveIf a
  | .tryBlock => enterTry a
  | .catchError => reachCatch a
  | .finallyDo => reachFinally a
  | .endTry => leaveTry a
  | .throwError => throwValue g target
  | .whileLoop =>
    reachLoop g a k <| match whileHeader target with
      | .ok h => return h
      | .error e => fail e
  | .forLoop =>
    reachLoop g a k <| match forHeader target with
      | .ok h => return h
      | .error e => fail e
  | .foreach => reachLoop g a k (foreachHeader g target value)
  | .forJson => reachLoop g a k (recordsHeader g a k .json target)
  | .forXml => reachLoop g a k (recordsHeader g a k .xml target)
  | .breakLoop => breakLoop g a target
  | .continueLoop => continueLoop g a target
  | .endWhile | .endFor | .endForeach | .endForJson | .endForXml => closeLoop a
  | .call => reachCall g a target value
  | .function | .script => reachFunction a
  | .returnValue => returnFrom g a target
  | .endFunction | .endScript => returnFrom g a ""
  | .exitTest => exitRun a
  | .loadJsonVars => loadRecord g a .json target value
  | .loadXmlVars => loadRecord g a .xml target value

/-- Runs the command at an address, which must be a flow command. -/
def dispatch (g : Setting) (a : Address) : Action Unit := do
  match Command.locate (← ask fun s => s.suite.units) a with
  | .error e => throw e.fault
  | .ok c =>
    match Keyword.ofName? c.name with
    | some (k, false) => perform g a k (Text.trim c.target) (Text.trim c.value)
    | _ => fail (.commandUnknown c.name)

/-- Runs the flow command at an address. -/
def Session.execute (g : Setting) (a : Address) (s : Session) : Except Fault Unit × Session :=
  match dispatch g a { s with current := some a } with
  | (.ok (), s) => (.ok (), s)
  | (.error f, s) => (.error (f.attach (s.suite.commandRef a)), s)

end BlockFlow.Flow
