/-
# Sessions

A session is one run over a suite: the variables, the calls and constructs that are running, the
work that was deferred, and where to go on.  Everything a run does is a change of its session.

`Session.nesting` counts the tries that take part in the handling of faults, less one.  Frames leave
the stacks through `Session.discard`, which gives loop names their old bindings and keeps the count:
`blocks_drop` and `calls_abortCalls` say what is left on the stacks, and `Namespace.get?_restore`
what a restored name is bound to.
-/
import BlockFlow.Flow.Frame
import BlockFlow.Suite.Compile

namespace BlockFlow

/-- Gives names the bindings they had: a value, or none. -/
def Namespace.restore (vars : Namespace) (saved : Dict String (Option Value)) : Namespace :=
  saved.toList.foldl
    (fun vars b =>
      match b.2 with
      | some v => vars.insert b.1 v
      | none => vars.erase b.1) vars

/-- A saved name gets its binding back, and every other name keeps the one it has. -/
@[simp] theorem Namespace.get?_restore (vars : Namespace) (saved : Dict String (Option Value))
    (name : String) : (vars.restore saved).get? name = (saved.get? name).getD (vars.get? name) := by
  obtain ⟨es, h⟩ := saved
  rw [show Dict.get? ⟨es, h⟩ name = Entries.find? name es from rfl, Namespace.restore]
  induction es generalizing vars with
  | nil => rfl
  | cons e es ih =>
    have he := List.pairwise_cons.1 h
    obtain ⟨key, v?⟩ := e
    rw [List.foldl_cons, ih _ he.2]
    by_cases hk : name = key
    · subst hk
      rw [Entries.find?_eq_none_of_lt he.1]
      cases v? with
      | none => simp [Entries.find?]
      | some v => simp [Entries.find?]
    · have hc : (compare name key == .eq) = false := by simpa using hk
      simp only [Entries.find?, hc, Bool.false_eq_true, if_false]
      congr 1
      cases v? with
      | none => simp [hk]
      | some v => simp [hk]

namespace Flow

/-- One run over a suite. -/
structure Session where
  suite : Suite
  vars : Namespace := ∅
  /-- The function calls that are running, innermost first. -/
  calls : List Call := []
  /-- The constructs that are running outside of every call, innermost first. -/
  base : List Frame := []
  /-- One less than the number of tries that take part in the handling of faults. -/
  nesting : Int := -1
  /-- Work that waits for cleanup sections, innermost first. -/
  deferred : List Deferred := []
  /-- Where the last command went, if it did not go to the next one. -/
  pending : Option Address := none
  exitRequested : Bool := false
  /-- The command that runs, or ran last. -/
  current : Option Address := none
  deriving Inhabited

namespace Session

/-! ## 1. Stacks -/

/-- The number of calls, the run itself counting as one. -/
def depth (s : Session) : Nat := s.calls.length + 1

/-- The constructs that are running in the innermost call. -/
def blocks (s : Session) : List Frame :=
  match s.calls with
  | [] => s.base
  | c :: _ => c.blocks

/-- Replaces the constructs of the innermost call. -/
def setBlocks (s : Session) (blocks : List Frame) : Session :=
  match s.calls with
  | [] => { s with base := blocks }
  | c :: calls => { s with calls := { c with blocks } :: calls }

/-- The constructs of every call, innermost call first. -/
def blockStacks (s : Session) : List (List Frame) := s.calls.map Call.blocks ++ [s.base]

/-- The constructs of the call at a depth, the run itself being at depth one. -/
def stackAt? (s : Session) (depth : Nat) : Option (List Frame) :=
  if depth = 0 then none else s.blockStacks.reverse[depth - 1]?

/-- Enters a construct. -/
def push (s : Session) (f : Frame) : Session := s.setBlocks (f :: s.blocks)

/-- Changes the innermost construct. -/
def updateTop (s : Session) (f : Frame → Frame) : Session :=
  match s.blocks with
  | [] => s
  | top :: rest => s.setBlocks (f top :: rest)

/-- Changes the innermost construct if it is a try. -/
def updateTry (s : Session) (f : TryFrame → TryFrame) : Session :=
  s.updateTop fun
    | .guarded t => .guarded (f t)
    | top => top

/-- Changes the innermost construct if it is a loop. -/
def updateLoop (s : Session) (f : LoopFrame → LoopFrame) : Session :=
  s.updateTop fun
    | .loop l => .loop (f l)
    | top => top

/-- Changes the innermost construct if it is a conditional. -/
def updateIf (s : Session) (f : IfFrame → IfFrame) : Session :=
  s.updateTop fun
    | .conditional c => .conditional (f c)
    | top => top

/-- The function that is running, outside of every call none. -/
def callee? (s : Session) : Option Address := s.calls.head?.map Call.callee

/-- Goes on at an address instead of the next command. -/
def branch (s : Session) (a : Address) : Session := { s with pending := some a }

@[simp] theorem blocks_setBlocks (s : Session) (bs : List Frame) : (s.setBlocks bs).blocks = bs := by
  unfold setBlocks blocks
  cases s.calls <;> rfl

@[simp] theorem depth_setBlocks (s : Session) (bs : List Frame) : (s.setBlocks bs).depth = s.depth := by
  unfold setBlocks depth
  cases s.calls <;> rfl

@[simp] theorem suite_setBlocks (s : Session) (bs : List Frame) : (s.setBlocks bs).suite = s.suite := by
  unfold setBlocks
  cases s.calls <;> rfl

@[simp] theorem vars_setBlocks (s : Session) (bs : List Frame) : (s.setBlocks bs).vars = s.vars := by
  unfold setBlocks
  cases s.calls <;> rfl

@[simp] theorem nesting_setBlocks (s : Session) (bs : List Frame) :
    (s.setBlocks bs).nesting = s.nesting := by
  unfold setBlocks
  cases s.calls <;> rfl

@[simp] theorem deferred_setBlocks (s : Session) (bs : List Frame) :
    (s.setBlocks bs).deferred = s.deferred := by
  unfold setBlocks
  cases s.calls <;> rfl

@[simp] theorem setBlocks_blocks (s : Session) : s.setBlocks s.blocks = s := by
  unfold setBlocks blocks
  obtain ⟨_, _, calls, _⟩ := s
  cases calls <;> rfl

@[simp] theorem blocks_push (s : Session) (f : Frame) : (s.push f).blocks = f :: s.blocks := by
  simp [push]

/-! ## 2. Leaving constructs -/

/-- What leaving a construct does besides dropping its frame. -/
def discard (s : Session) : Frame → Session
  | .conditional _ => s
  | .loop l => { s with vars := s.vars.restore l.saved }
  | .guarded t => if t.isActive then { s with nesting := s.nesting - 1 } else s

/-- Leaves constructs in turn. -/
def discardAll (s : Session) (fs : List Frame) : Session := fs.foldl discard s

/-- Drops a number of constructs of the innermost call. -/
def drop (s : Session) (n : Nat) : Session :=
  (s.setBlocks (s.blocks.drop n)).discardAll (s.blocks.take n)

/-- Ends the innermost call: its constructs are left, and the caller's variables come back. -/
def abortCall (s : Session) : Session :=
  match s.calls with
  | [] => s
  | c :: calls => { s.discardAll c.blocks with calls, vars := c.saved }

/-- Ends a number of calls. -/
def abortCalls (s : Session) : Nat → Session
  | 0 => s
  | n + 1 => s.abortCall.abortCalls n

/-- Leaves every call and construct, so that the variables are those outside of them. -/
def abandon (s : Session) : Session :=
  let s := s.abortCalls s.calls.length
  { s.drop s.blocks.length with nesting := -1, deferred := [], pending := none }

/-- Leaving a construct takes no frame off by itself. -/
@[simp] theorem calls_discard (s : Session) (f : Frame) : (s.discard f).calls = s.calls := by
  cases f with
  | guarded t => simp only [discard]; split <;> rfl
  | _ => rfl

@[simp] theorem base_discard (s : Session) (f : Frame) : (s.discard f).base = s.base := by
  cases f with
  | guarded t => simp only [discard]; split <;> rfl
  | _ => rfl

@[simp] theorem discardAll_nil (s : Session) : s.discardAll [] = s := rfl

@[simp] theorem discardAll_cons (s : Session) (f : Frame) (fs : List Frame) :
    s.discardAll (f :: fs) = (s.discard f).discardAll fs := rfl

@[simp] theorem calls_discardAll (s : Session) (fs : List Frame) :
    (s.discardAll fs).calls = s.calls := by
  induction fs generalizing s with
  | nil => rfl
  | cons f fs ih => rw [discardAll_cons, ih, calls_discard]

@[simp] theorem base_discardAll (s : Session) (fs : List Frame) :
    (s.discardAll fs).base = s.base := by
  induction fs generalizing s with
  | nil => rfl
  | cons f fs ih => rw [discardAll_cons, ih, base_discard]

@[simp] theorem blocks_discardAll (s : Session) (fs : List Frame) :
    (s.discardAll fs).blocks = s.blocks := by
  unfold blocks
  rw [calls_discardAll, base_discardAll]

/-- Dropping takes exactly the innermost constructs off. -/
@[simp] theorem blocks_drop (s : Session) (n : Nat) : (s.drop n).blocks = s.blocks.drop n := by
  unfold drop
  rw [blocks_discardAll, blocks_setBlocks]

@[simp] theorem calls_abortCall (s : Session) : s.abortCall.calls = s.calls.tail := by
  unfold abortCall
  split <;> rename_i h <;> rw [h] <;> rfl

/-- As many calls end as asked for, or all there are. -/
@[simp] theorem calls_abortCalls (s : Session) (n : Nat) :
    (s.abortCalls n).calls = s.calls.drop n := by
  induction n generalizing s with
  | zero => rfl
  | succ n ih => rw [abortCalls, ih, calls_abortCall, List.drop_tail]

/-- After everything was left no construct is running. -/
@[simp] theorem blocks_abandon (s : Session) : s.abandon.blocks = [] := by
  have h (t : Session) : { t with nesting := -1, deferred := [], pending := none }.blocks = t.blocks := rfl
  rw [abandon, h, blocks_drop, List.drop_length]

/-! ## 3. Deferred work -/

/-- Drops deferred work whose try is no longer running. -/
def pruneDeferred (s : Session) : Session :=
  { s with
    deferred := s.deferred.filter fun d =>
      (s.stackAt? d.depth).any fun blocks => blocks.any (Frame.isTryAt d.resumeAt) }

/-- Drops the deferred work of a try of the innermost call. -/
def forgetDeferred (s : Session) (a : Address) : Session :=
  { s with deferred := s.deferred.filter fun d => d.resumeAt != a || d.depth != s.depth }

/-- Defers work to the closer of a try of the innermost call. -/
def defer (s : Session) (work : Work) (a : Address) : Session :=
  { s with deferred := ⟨work, a, s.depth⟩ :: s.deferred }

/-! ## 4. Life of a session -/

/-- A session over a suite that has not started. -/
def fresh (suite : Suite) : Session := { suite }

/-- A session over units. -/
def ofUnits (units : List ScriptUnit) : Except CompileError Session := (Suite.compile units).map fresh

/-- Compiles the units again and starts over; the variables stay.  If the units do not compile then
the tables made so far stay and nothing else changes. -/
def beforeRun (s : Session) : Option CompileError × Session :=
  let (tables, error?) := Tables.ofUnits s.suite.units
  let s := { s with suite.tables := tables }
  match error? with
  | some e => (some e, s)
  | none => (none, { fresh s.suite with vars := s.vars })

/-- A session whose units compile starts over as a new session over them, with its variables. -/
theorem beforeRun_of_ok {s new : Session} (h : ofUnits s.suite.units = .ok new) :
    s.beforeRun = (none, { new with vars := s.vars }) := by
  rw [ofUnits, Suite.compile] at h
  unfold beforeRun
  rcases hu : Tables.ofUnits s.suite.units with ⟨tables, _ | e⟩ <;> rw [hu] at h <;> cases h
  rfl

/-- Puts other units in the place of those of the suite, and starts over. -/
def replaceUnits (s : Session) (units : List ScriptUnit) : Option CompileError × Session :=
  beforeRun { s with suite.units := units }

/-- The command that runs next: where the last one went, or the given one. -/
def next (s : Session) (default : Option Address) : Option Address × Session :=
  let a := s.pending <|> default
  (a, { s with pending := none, current := a })

/-- Whether a run has deferred work. -/
def hasDeferred (s : Session) : Bool := !s.deferred.isEmpty

end Session

end Flow

end BlockFlow
