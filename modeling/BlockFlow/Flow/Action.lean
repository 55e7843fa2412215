/-
# Actions

An action changes a session and gives a result or a fault; what it changed before a fault stays
changed.  This module holds the steps that the commands are made of: evaluating an expression,
finding the block of a command, checking which construct is innermost, and going on elsewhere.
-/
import BlockFlow.Evaluator
import BlockFlow.Flow.Error
import BlockFlow.Flow.Session

namespace BlockFlow.Flow

/-! ## 1. Settings and actions -/

/-- What a run depends on besides its suite. -/
structure Setting where
  evaluate : Evaluator
  files : Files := {}
  /-- Where data files are looked up; by default beside the unit that names them. -/
  dataDir : Option String := none

/-- A change of a session with a result or a fault. -/
abbrev Action := ExceptT Fault (StateM Session)

namespace Action

/-- A change that cannot fail. -/
def change (f : Session → Session) : Action Unit := modifyThe Session f

/-- What a session says. -/
def ask {α : Type} (f : Session → α) : Action α := return f (← getThe Session)

/-- Fails with a flow error. -/
def fail {α : Type} (e : FlowError) : Action α := throw e.fault

/-! ## 2. Expressions -/

/-- Evaluates an expression over the variables. -/
def evaluate (g : Setting) (expr : String) : Action Value := do
  let (result, vars) := g.evaluate expr (← ask Session.vars)
  change fun s => { s with vars }
  match result with
  | .ok v => return v
  | .error e => throw e.fault

/-- Evaluates a condition. -/
def condition (g : Setting) (expr : String) : Action Bool := return (← evaluate g expr).isTruthy

/-- Evaluates expressions in turn. -/
def evaluateAll (g : Setting) : List String → Action Unit
  | [] => return
  | expr :: exprs => do
    discard (evaluate g expr)
    evaluateAll g exprs

/-! ## 3. Blocks -/

/-- The block of a command. -/
def block (a : Address) : Action Block := do
  match ← ask fun s => s.suite.blockAt? a with
  | some b => return b
  | none => fail (.blockMissing (← ask fun s => s.suite.commandRef a))

/-- Goes on at an address. -/
def goTo (a : Address) : Action Unit := change fun s => s.branch a

/-- Goes on at the given part of a block. -/
def goToPart (a? : Option Address) (what : String) : Action Unit :=
  match a? with
  | some a => goTo a
  | none => fail (.partMissing what)

/-- Checks that the innermost construct is the one opened at an address. -/
def requireActive (expected : Option Address) : Action Unit := do
  let s ← getThe Session
  let active := s.blocks.head?.map Frame.opener
  if active.isSome && active == expected then return
  fail (.scopeMismatch ((s.current.map s.suite.commandRef).getD "") (active.map s.suite.commandRef))

/-- The innermost construct, which must be a loop. -/
def topLoop : Action LoopFrame := do
  match ← ask Session.blocks with
  | .loop l :: _ => return l
  | _ => fail (.frameMissing "loop")

/-- Leaves the innermost construct, if there is one. -/
def leaveTop : Action Unit := change fun s => s.drop 1

end Action

/-! ## 4. Names -/

/-- Checks the name of a variable that a command binds. -/
def checkName (name what : String) : Except FlowError Unit :=
  if Text.isLetteredName name then .ok () else .error (.nameInvalid what name)

/-- A text without the dollar sign in front of it. -/
def dropDollar (s : String) : String :=
  match s.toList with
  | '$' :: cs => String.ofList cs
  | _ => s

/-- The text before the first equals sign, and the one after it. -/
def splitAssignment (s : String) : Option (String × String) :=
  let cs := s.toList
  match cs.dropWhile (· != '=') with
  | [] => none
  | _ :: rest => some (String.ofList (cs.takeWhile (· != '=')), String.ofList rest)

/-- Where a data file is: an absolute path as it is, any other seen from the data directory or from
the directory of a unit. -/
def dataPath (g : Setting) (s : Session) (unit : Nat) (raw : String) : String :=
  let path :=
    if "file://".toList.isPrefixOf raw.toList then String.ofList (raw.toList.drop 7) else raw
  if Path.isAbsolute path then path
  else
    match g.dataDir with
    | some dir => Path.join dir path
    | none =>
      match s.suite.units[unit]?.bind fun u => Path.parent? u.path with
      | some dir => Path.join dir path
      | none => path

end BlockFlow.Flow
