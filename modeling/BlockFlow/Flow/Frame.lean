/-
# Frames

What a run knows about the constructs it is in.  Entering a conditional, a loop or a try pushes a
`Frame`, and calling a function pushes a `Call` with frames of its own.  Work that waits for a
cleanup section to end is `Deferred`.
-/
import BlockFlow.Record
import BlockFlow.Suite.Basic

namespace BlockFlow.Flow

/-! ## 1. Conditionals -/

/-- A conditional that is running. -/
structure IfFrame where
  opener : Address
  /-- The `elseIf` commands not yet tried. -/
  untried : List Address := []
  /-- Whether a branch was entered. -/
  matched : Bool := false
  deriving Inhabited

/-! ## 2. Loops -/

/-- What a loop goes over. -/
inductive LoopSource
  /-- As long as a condition holds. -/
  | holding (cond : String)
  /-- As long as a condition holds, with statements before the first and between passes. -/
  | counted (init : List String) (cond : String) (iterate : List String)
  /-- Values, of which those before the index were passed. -/
  | values (var : String) (items : List Value) (index : Nat)
  /-- The records of a data file. -/
  | records (cursor : DataCursor)
  deriving Inhabited

/-- A loop that is running. -/
structure LoopFrame where
  opener : Address
  source : LoopSource
  /-- What the loop's own names were bound to before it. -/
  saved : Dict String (Option Value) := ∅
  /-- Whether no pass is left. -/
  complete : Bool := false
  /-- Whether the opener is to begin another pass. -/
  reentering : Bool := false
  deriving Inhabited

/-! ## 3. Tries -/

/-- The section that a try is in. -/
inductive TryPhase
  | trying
  | catching
  | finallying
  deriving Repr, DecidableEq, Inhabited

/-- A try that is running. -/
structure TryFrame where
  opener : Address
  /-- The section it is in; a try that handles nothing outside of every other one has none. -/
  phase : Option TryPhase := none
  /-- Whether it has caught a fault. -/
  caught : Bool := false
  /-- Whether its cleanup section was entered. -/
  cleaned : Bool := false
  deriving Inhabited

namespace TryFrame

/-- Whether the try takes part in the handling of faults. -/
def isActive (t : TryFrame) : Bool := t.phase.isSome

/-- The try with its cleanup section entered. -/
def enterCleanup (t : TryFrame) : TryFrame := { t with phase := some .finallying, cleaned := true }

/-- The try with its handler entered. -/
def enterHandler (t : TryFrame) : TryFrame := { t with phase := some .catching, caught := true }

end TryFrame

/-! ## 4. Frames -/

/-- A construct that is running. -/
inductive Frame
  | conditional (f : IfFrame)
  | loop (f : LoopFrame)
  | guarded (f : TryFrame)
  deriving Inhabited

namespace Frame

/-- The command that opened the construct. -/
def opener : Frame → Address
  | .conditional f => f.opener
  | .loop f => f.opener
  | .guarded f => f.opener

/-- Whether the frame is a try that takes part in the handling of faults. -/
def isActiveTry : Frame → Bool
  | .guarded f => f.isActive
  | _ => false

/-- Whether the frame is a try opened at an address. -/
def isTryAt (a : Address) : Frame → Bool
  | .guarded f => f.opener == a
  | _ => false

end Frame

/-- The call of a function. -/
structure Call where
  /-- The function's opener. -/
  callee : Address
  /-- The command that called it. -/
  returnTo : Address
  /-- The caller's variables. -/
  saved : Namespace
  /-- The constructs that are running in the function, innermost first. -/
  blocks : List Frame := []
  /-- Whether the function has ended and its caller is to go on. -/
  returning : Bool := false
  deriving Inhabited

/-! ## 5. Deferred work -/

/-- Where a transfer of control goes: to a loop, out of a function, or to the end of the run. -/
inductive Goal
  | loop
  | function
  | exit
  deriving Repr, DecidableEq, Inhabited

/-- What waits for a cleanup section to end. -/
inductive Work
  | fault (f : Fault)
  /-- A command that transfers control. -/
  | transfer (origin : Address) (goal : Goal)
  deriving Repr, DecidableEq, Inhabited

/-- Work with the place where it goes on. -/
structure Deferred where
  work : Work
  /-- The try whose closer takes the work up. -/
  resumeAt : Address
  /-- The call depth of that try. -/
  depth : Nat
  deriving Repr, DecidableEq, Inhabited

end BlockFlow.Flow
