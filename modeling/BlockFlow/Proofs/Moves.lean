/-
# Moves

What one command can do to a session, apart from its variables.  `Move` lists the ways, and
`dispatch_move`, for which the commands are gone through kind by kind, says that there is no other one;
every invariant of runs is read off this list.

A move is described by the session it leads to, which also says where the run goes on.  A move that
fails leads to the session in which the fault is offered to the tries.
-/
import BlockFlow.Proofs.Regions
import BlockFlow.Proofs.Ways

namespace BlockFlow.Flow

/-! ## 1. Sessions about to run a command -/

/-- The goal of a command that transfers control. -/
def goalOf? : Keyword → Option Goal
  | .breakLoop | .continueLoop => some .loop
  | .returnValue | .endFunction | .endScript => some .function
  | .exitTest => some .exit
  | _ => none

namespace Session

/-- The session may run a command: what it knows fits its suite, and no call waits to be finished. -/
structure Ready (s : Session) : Prop extends s.Fitted where
  pending : s.pending = none
  running : ∀ c calls, s.calls = c :: calls → c.returning = false

/-- The command at an address transfers control to a goal, and concerns the call that is running. -/
structure Transfers (s : Session) (a : Address) (goal : Goal) : Prop where
  carries : (s.suite.keywordAt? a).bind goalOf? = some goal
  callee : goal = .function →
    ∃ b o, s.suite.blockAt? a = some b ∧ b.opener = some o ∧ s.callee? = some o

/-- Going on from a command to the next one leads out of no construct and into none: the command is neither
a cleanup section's first nor a closer, except that of a function that was not called, nor an opener, except
that of the function that was called. -/
structure Passable (s : Session) (a : Address) : Prop where
  section_ : s.suite.keywordAt? a ≠ some .finallyDo
  closer : ∀ o, s.suite.Construct o a → s.suite.Opens .function o ∧ s.callee? ≠ some o
  opener : ∀ n, s.suite.Opens n a → s.callee? = some a

/-- The number of constructs inside the innermost loop, or of all if there is none. -/
def insideLoop (s : Session) : Nat := (s.blocks.takeWhile fun f => !f.isLoop).length

/-- The session that has entered a try. -/
def enterTry (s : Session) (t : TryFrame) : Session :=
  { s.push (.guarded t) with nesting := s.nesting + if t.isActive then 1 else 0 }

/-- The session that has left a try by its closer. -/
def leaveTry (s : Session) (t : TryFrame) (rest : List Frame) : Session :=
  { s.setBlocks rest with nesting := s.nesting - if t.isActive then 1 else 0 }

/-- The innermost try takes up a transfer at its closer, and no cleanup section on the way is owed. -/
structure Resumes (s : Session) (a : Address) (t : TryFrame) (rest : List Frame) (d : Deferred)
    (ds : List Deferred) (origin : Address) (goal : Goal) : Prop where
  top : s.blocks = .guarded t :: rest
  closer : s.suite.Construct t.opener a
  active : t.isActive
  deferred : s.deferred = d :: ds
  resumeAt : d.resumeAt = t.opener
  depth : d.depth = s.depth
  work : d.work = .transfer origin goal
  clear : (s.leaveTry t rest).cleanup? goal = none

end Session

/-! ## 2. The ways a command can go -/

/-- **What a command can do** to a session, with the fault it fails with, if it does. -/
inductive Move (a : Address) (s : Session) : Except Fault Unit → Session → Prop
  /-- Nothing but variables changes. -/
  | stay {r : Except Fault Unit} {v : Namespace} (pass : r = .ok () → s.Passable a) :
      Move a s r (s.proceed none v)
  | jump {goal : Address} {v : Namespace} (unlinked : s.suite.blockAt? a = none)
      (keyword : ∃ k ∈ [Keyword.goto, .gotoIf, .skipNext], s.suite.keywordAt? a = some k)
      (accepted : s.suite.checkJump a goal = .ok ()) :
      Move a s (.ok ()) ((s.setBlocks (keepSpanning s.suite goal s.blocks)).proceed (some goal) v)
  /-- A conditional or a loop is entered. -/
  | enter {f : Frame} {r : Except Fault Unit} {p? : Option Address} {v : Namespace}
      (fits : f.Fits s.suite) (opener : f.opener = a) (noTry : ∀ t, f ≠ .guarded t)
      (fresh : ∀ l, f = .loop l → l.reentering = false)
      (again : ∀ l rest, s.blocks = .loop l :: rest → l.reentering → l.opener ≠ a)
      (part : ∀ p, p? = some p → s.suite.IsPart a p) :
      Move a s r ((s.push f).proceed p? v)
  | enterTry {t : TryFrame} {v : Namespace} (fits : Frame.Fits s.suite (.guarded t))
      (opener : t.opener = a) (phase : ∀ p, t.phase = some p → p = .trying) (caught : t.caught = false)
      (cleaned : t.cleaned = false) :
      Move a s (.ok ()) ((s.enterTry t).proceed none v)
  /-- A branch of the innermost conditional is reached. -/
  | branch {c c' : IfFrame} {rest : List Frame} {r : Except Fault Unit} {p? : Option Address}
      {v : Namespace} (top : s.blocks = .conditional c :: rest) (at_ : s.suite.IsPart c.opener a)
      (open_ : ¬s.suite.Construct c.opener a) (opener : c'.opener = c.opener)
      (untried : ∀ p ∈ c'.untried, p ∈ c.untried)
      (part : ∀ p, p? = some p → s.suite.IsPart c.opener p) :
      Move a s r ((s.setBlocks (.conditional c' :: rest)).proceed p? v)
  /-- The innermost construct, no try, is left by its closer. -/
  | leave {f : Frame} {rest : List Frame} {v : Namespace} (top : s.blocks = f :: rest)
      (noTry : ∀ t, f ≠ .guarded t) (closer : s.suite.Construct f.opener a) :
      Move a s (.ok ()) ((s.drop 1).proceed none v)
  /-- The handler of the innermost try is passed over. -/
  | skipHandler {t : TryFrame} {rest : List Frame} {p : Address}
      (top : s.blocks = .guarded t :: rest) (at_ : s.suite.IsPart t.opener a)
      (handler : s.suite.keywordAt? a = some .catchError) (phase : t.phase ≠ some .catching)
      (part : s.suite.IsPart t.opener p) (last : ∀ q, finallyOf? s.suite t.opener = some q → p = q) :
      Move a s (.ok ()) (s.proceed (some p) s.vars)
  | reachFinally {t : TryFrame} {rest : List Frame} {v : Namespace}
      (top : s.blocks = .guarded t :: rest) (at_ : finallyOf? s.suite t.opener = some a)
      (active : t.isActive) :
      Move a s (.ok ()) ((s.setBlocks (.guarded t.enterCleanup :: rest)).proceed none v)
  /-- The innermost try is left by its closer, where no work waits for it. -/
  | closeTry {t : TryFrame} {rest : List Frame} {v : Namespace}
      (top : s.blocks = .guarded t :: rest) (closer : s.suite.Construct t.opener a)
      (quiet : t.isActive → ∀ d ds, s.deferred = d :: ds →
        ¬(d.resumeAt = t.opener ∧ d.depth = s.depth)) :
      Move a s (.ok ()) ((s.leaveTry t rest).proceed none v)
  | rethrow {t : TryFrame} {rest : List Frame} {d : Deferred} {ds : List Deferred} {f : Fault}
      {v : Namespace} (top : s.blocks = .guarded t :: rest) (closer : s.suite.Construct t.opener a)
      (active : t.isActive) (deferred : s.deferred = d :: ds) (resumeAt : d.resumeAt = t.opener)
      (depth : d.depth = s.depth) (work : d.work = .fault f) :
      Move a s (.error f) (((s.leaveTry t rest).withDeferred ds).proceed none v)
  | resume {t : TryFrame} {rest : List Frame} {d : Deferred} {ds : List Deferred} {origin : Address}
      {goal : Goal} {v : Namespace} (resumes : s.Resumes a t rest d ds origin goal) :
      Move a s (.ok ())
        (((s.leaveTry t rest).withDeferred ds).proceed (some origin) v)
  | resuspend {t : TryFrame} {rest : List Frame} {d : Deferred} {ds : List Deferred}
      {origin : Address} {goal : Goal} {s' : Session} (top : s.blocks = .guarded t :: rest)
      (closer : s.suite.Construct t.opener a) (active : t.isActive) (deferred : s.deferred = d :: ds)
      (resumeAt : d.resumeAt = t.opener) (depth : d.depth = s.depth)
      (work : d.work = .transfer origin goal)
      (suspends : Suspends origin goal ((s.leaveTry t rest).withDeferred ds) s') :
      Move a s (.ok ()) s'
  /-- The closer of the innermost loop sends the run back to its opener. -/
  | repeat_ {l : LoopFrame} {rest : List Frame} (top : s.blocks = .loop l :: rest)
      (closer : s.suite.Construct l.opener a) :
      Move a s (.ok ())
        ((s.setBlocks (.loop { l with reentering := true } :: rest)).proceed (some l.opener) s.vars)
  /-- The opener of the innermost loop begins another pass, or ends the loop. -/
  | again {l l' : LoopFrame} {rest : List Frame} {r : Except Fault Unit} {p? : Option Address}
      {v : Namespace} (top : s.blocks = .loop l :: rest) (at_ : l.opener = a)
      (reentering : l.reentering) (opener : l'.opener = l.opener) (saved : l'.saved = l.saved)
      (done : l'.reentering = false) (part : ∀ p, p? = some p → s.suite.IsPart a p)
      (binds : ∀ name, l'.source.Binds name → l.source.Binds name) :
      Move a s r ((s.setBlocks (.loop l' :: rest)).proceed p? v)
  /-- A transfer takes the place of the work that waits for a cleanup section that it leaves. -/
  | replace {d : Deferred} {ds : List Deferred} {goal : Goal} {v : Namespace}
      (transfers : s.Transfers a goal) (deferred : s.deferred = d :: ds)
      (leaves : s.leavesCleanup d goal) :
      Move a s (.ok ())
        ((s.withDeferred ({ d with work := .transfer a goal } :: ds)).proceed none v)
  | suspend {goal : Goal} {s' : Session} (transfers : s.Transfers a goal) (stays : s.Stays goal)
      (suspends : Suspends a goal s s') : Move a s (.ok ()) s'
  | breakLoop {l : LoopFrame} {rest : List Frame} {e : Address} {v : Namespace}
      (transfers : s.Transfers a .loop) (stays : s.Stays .loop) (clear : s.cleanup? .loop = none)
      (top : s.blocks.drop s.insideLoop = .loop l :: rest) (closer : s.suite.Construct l.opener e) :
      Move a s (.ok ()) (((s.drop s.insideLoop).setBlocks
        (.loop { l with complete := true } :: rest)).proceed (some e) v)
  | continueLoop {l : LoopFrame} {rest : List Frame} {v : Namespace}
      (transfers : s.Transfers a .loop) (stays : s.Stays .loop) (clear : s.cleanup? .loop = none)
      (top : s.blocks.drop s.insideLoop = .loop l :: rest) :
      Move a s (.ok ()) (((s.drop s.insideLoop).setBlocks
        (.loop { l with reentering := true } :: rest)).proceed (some l.opener) v)
  /-- A transfer to a loop finds none in the call that is running. -/
  | adrift {v : Namespace} (transfers : s.Transfers a .loop) (stays : s.Stays .loop)
      (clear : s.cleanup? .loop = none) (noLoop : ∀ f ∈ s.blocks, f.isLoop = false) :
      Move a s (.error FlowError.notInLoop.fault) ((s.drop s.blocks.length).proceed none v)
  | returnFrom {c : Call} {calls : List Call} {v : Namespace} (transfers : s.Transfers a .function)
      (stays : s.Stays .function) (clear : s.cleanup? .function = none) (call : s.calls = c :: calls) :
      Move a s (.ok ()) (s.markReturning.proceed (some c.returnTo) v)
  | exit (transfers : s.Transfers a .exit) (stays : s.Stays .exit) (clear : s.cleanup? .exit = none) :
      Move a s (.ok ()) (({ s with exitRequested := true } : Session).proceed none s.vars)
  | enterCall {callee : Address} {args v : Namespace} (keyword : s.suite.keywordAt? a = some .call)
      (opens : s.suite.Opens .function callee)
      (names : ∃ c, s.suite.commandAt? a = some c ∧
        s.suite.tables.functions.get? (Text.trim c.target) = some callee) :
      Move a s (.ok ()) (((s.withVars v).enterCall callee a args).proceed (some callee) args)
  /-- A function that was not called is passed over. -/
  | skipFunction {e : Address} (opens : s.suite.Opens .function a) (closer : s.suite.Construct a e)
      (callee : s.callee? ≠ some a) : Move a s (.ok ()) (s.proceed (some e) s.vars)

/-- A move to the next command, when nothing else was pending. -/
theorem Move.withVars {a : Address} {s t : Session} {r : Except Fault Unit} {v : Namespace}
    (h : Move a s r (t.proceed none v)) (hp : t.pending = none) : Move a s r (t.withVars v) := by
  rwa [Session.withVars_eq_proceed hp]

/-! ## 3. Reaching the innermost construct -/

/-- A frame about an opener has the nature of its construct. -/
theorem Frame.Fits.nature_eq {suite : Suite} {f : Frame} (hf : f.Fits suite) {b : Block}
    (hb : suite.blockAt? f.opener = some b) : b.nature? = some f.nature := by
  obtain ⟨⟨b', hb', hn⟩, -⟩ := hf
  cases hb.symm.trans hb'
  exact hn

@[simp] theorem Session.setBlocks_setBlocks (s : Session) (bs cs : List Frame) :
    (s.setBlocks bs).setBlocks cs = s.setBlocks cs := by
  unfold Session.setBlocks
  cases s.calls <;> rfl

namespace Action

variable {s : Session} {Q : Except Fault Unit → Session → Prop}

theorem Ends.requireActive {expected : Option Address}
    (hok : ∀ f rest, s.blocks = f :: rest → expected = some f.opener → Q (.ok ()) s)
    (herr : ∀ f, Q (.error f) s) : (Action.requireActive expected).Ends s Q := by
  unfold Action.requireActive
  simp only [ends_bind, ends_getThe]
  split
  · rename_i h
    rw [Bool.and_eq_true, beq_iff_eq] at h
    cases hb : s.blocks with
    | nil => simp [hb] at h
    | cons f rest =>
      refine hok f rest hb ?_
      rw [← h.2, hb]
      rfl
  · exact herr _

end Action

section

open BlockFlow.Flow.Action

variable {a : Address} {s : Session}

theorem Session.Ready.mem_fits (h : s.Ready) {f : Frame} {rest : List Frame} (hs : s.blocks = f :: rest) :
    f.Fits s.suite :=
  h.fits f (by rw [Session.frames, hs]; simp)

theorem Ends.requireActive_of_top {Q : Except Fault Unit → Session → Prop} {f : Frame}
    {rest : List Frame} (hs : s.blocks = f :: rest) (hQ : Q (.ok ()) s) :
    (Action.requireActive (some f.opener)).Ends s Q := by
  unfold Action.requireActive
  simp only [ends_bind, ends_getThe, hs, List.head?_cons, Option.map_some, Option.isSome_some,
    Bool.true_and, beq_self_eq_true, if_true, ends_pure]
  exact hQ

/-- Reaching a part of the innermost construct. -/
theorem Ends.own_part {α : Type} {Q : Except Fault α → Session → Prop} {f : Frame} {rest : List Frame}
    {k : Block → Unit → Action α} (hs : s.blocks = f :: rest) (ha : s.suite.IsPart f.opener a)
    (hQ : ∀ c, c.opener = some f.opener → (k c ()).Ends s Q) :
    (Action.block a >>= fun c => requireActive c.opener >>= k c).Ends s Q := by
  obtain ⟨c, hc, ho, -⟩ := ha
  rw [ends_bind]
  refine Ends.block hc ?_
  dsimp only
  rw [ends_bind, ho]
  exact Ends.requireActive_of_top hs (hQ c ho)

/-! ## 4. Commands that fail or change nothing -/

/-- A command that fails at once. -/
theorem Session.Ready.fail_move (h : s.Ready) (f : Fault) : Move a s (.error f) s := by
  have := Move.stay (a := a) (s := s) (r := .error f) (v := s.vars) nofun
  rwa [← Session.withVars_eq_proceed h.pending] at this

/-- A command that goes on to the next one. -/
theorem Session.Ready.pass_move (h : s.Ready) (hpass : s.Passable a) (v : Namespace) :
    Move a s (.ok ()) (s.withVars v) := by
  rw [Session.withVars_eq_proceed h.pending]
  exact .stay fun _ => hpass

/-- Commands that are no closers and begin no cleanup section are passable. -/
theorem Session.Ready.passable (h : s.Ready) {k : Keyword} (hk : s.suite.keywordAt? a = some k)
    (hclose : k.closes? = none) (hfinally : k ≠ .finallyDo) (hopen : k.opens?.isSome → s.callee? = some a) :
    s.Passable a where
  section_ hf := hfinally (Option.some.inj (hk.symm.trans hf))
  closer o ho := absurd ho (h.nested.not_construct hk hclose)
  opener n := by
    rintro ⟨b, hb, hn⟩
    cases hk.symm.trans (h.nested.keyword hb)
    exact hopen (by rw [show b.keyword.opens? = some n from hn]; rfl)

theorem Session.Ready.passable_of_not_linked (h : s.Ready) {k : Keyword} (hk : s.suite.keywordAt? a = some k)
    (hlinked : k.isLinked = false) : s.Passable a := by
  refine h.passable hk (by cases k <;> first | rfl | cases hlinked) (by rintro rfl; cases hlinked) fun ho => ?_
  obtain ⟨n, hn⟩ := Option.isSome_iff_exists.1 ho
  cases hlinked.symm.trans (Keyword.isLinked_of_opens? hn)

end

end BlockFlow.Flow
