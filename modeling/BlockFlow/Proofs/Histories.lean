/-
# Runs do not depend on history

A session may be used in any way before it is run: run before, and to any end; driven by hand, and left
at any point; given other units, which compile or do not.  `Operation` lists the ways.  None of them but
the last changes which units the session has, and a run compiles these again and starts over, so that it
is a run of a new session over them: `run_after_history`.

That commands, the handling of faults and whole runs leave the suite as it is holds of every session,
whatever became of it: `Action.KeepsSuite` goes through the text of the commands and asks nothing of the
session.
-/
import BlockFlow.Proofs.Stacks
import BlockFlow.Run

namespace BlockFlow.Flow

/-! ## 1. Sessions over one suite -/

namespace Session

@[simp] theorem suite_push (s : Session) (f : Frame) : (s.push f).suite = s.suite := s.suite_setBlocks _

@[simp] theorem suite_drop (s : Session) (n : Nat) : (s.drop n).suite = s.suite := (s.kept_drop n).suite

@[simp] theorem suite_abortCall (s : Session) : s.abortCall.suite = s.suite := s.kept_abortCall.suite

@[simp] theorem suite_abortCalls (s : Session) (n : Nat) : (s.abortCalls n).suite = s.suite :=
  (s.kept_abortCalls n).suite

theorem suite_markReturning (s : Session) : s.markReturning.suite = s.suite := by
  unfold markReturning
  dsimp only
  split
  · exact s.suite_drop _
  · exact s.suite_drop _

theorem suite_finishCall (s : Session) : s.finishCall.suite = s.suite := s.suite_abortCall

theorem suite_abandon (s : Session) : s.abandon.suite = s.suite :=
  (suite_drop _ _).trans (s.suite_abortCalls _)

theorem suite_unwindThrough (calls : List Call) : ∀ s : Session, (s.unwindThrough calls).2.suite = s.suite := by
  induction calls with
  | nil => exact fun s => s.suite_drop _
  | cons c calls ih =>
    intro s
    unfold unwindThrough
    split
    · exact s.suite_drop _
    · split
      · exact s.suite_drop _
      · rw [ih, suite_abortCall]
        exact s.suite_drop _

end Session

/-! ## 2. Actions that leave the suite as it is -/

namespace Action

variable {α β : Type}

/-- The action leaves the suite as it is, whatever the session. -/
def KeepsSuite (m : Action α) : Prop := ∀ s, (m s).2.suite = s.suite

theorem OnlyVars.keepsSuite {m : Action α} (h : m.OnlyVars) : m.KeepsSuite := fun s => by
  obtain ⟨v, hv⟩ := h s
  rw [hv, Session.suite_withVars]

namespace KeepsSuite

theorem pure (a : α) : (Pure.pure a : Action α).KeepsSuite := fun _ => rfl

theorem throw (f : Fault) : (MonadExcept.throw f : Action α).KeepsSuite := fun _ => rfl

theorem fail (e : FlowError) : (Action.fail e : Action α).KeepsSuite := fun _ => rfl

theorem ask (f : Session → α) : (Action.ask f).KeepsSuite := fun _ => rfl

theorem get : (getThe Session : Action Session).KeepsSuite := fun _ => rfl

theorem change {f : Session → Session} (h : ∀ s, (f s).suite = s.suite) : (Action.change f).KeepsSuite := h

theorem bind {m : Action α} {f : α → Action β} (hm : m.KeepsSuite) (hf : ∀ a, (f a).KeepsSuite) :
    (m >>= f).KeepsSuite := fun s => by
  have hfirst := hm s
  rw [bind_apply]
  generalize m s = r at hfirst
  rcases r with ⟨_ | a, t⟩
  · exact hfirst
  · exact (hf a t).trans hfirst

theorem ite {c : Prop} [Decidable c] {m n : Action α} (hm : m.KeepsSuite) (hn : n.KeepsSuite) :
    (if c then m else n).KeepsSuite := by
  split
  · exact hm
  · exact hn

theorem map {m : Action α} (hm : m.KeepsSuite) (f : α → β) : (f <$> m).KeepsSuite := by
  rw [map_eq_pure_bind]
  exact hm.bind fun _ => pure _

theorem discard {m : Action α} (hm : m.KeepsSuite) : (Functor.discard m : Action Unit).KeepsSuite := hm.map _

theorem updateTop (f : Session → Frame → Frame) : (Action.change fun s => s.updateTop (f s)).KeepsSuite :=
  change fun s => s.suite_updateTop _

theorem block (a : Address) : (Action.block a).KeepsSuite := by
  refine bind (ask _) fun b? => ?_
  split
  · exact pure _
  · exact bind (ask _) fun _ => fail _

theorem goTo (a : Address) : (Action.goTo a).KeepsSuite := change fun _ => rfl

theorem goToPart (a? : Option Address) (what : String) : (Action.goToPart a? what).KeepsSuite := by
  unfold Action.goToPart
  split
  · exact goTo _
  · exact fail _

theorem requireActive (expected : Option Address) : (Action.requireActive expected).KeepsSuite :=
  bind get fun _ => ite (pure _) (fail _)

theorem topLoop : Action.topLoop.KeepsSuite := by
  refine bind (ask _) fun blocks => ?_
  split
  · exact pure _
  · exact fail _

theorem leaveTop : Action.leaveTop.KeepsSuite := change fun s => s.suite_drop 1

/-! ## 3. Commands -/

variable (g : Setting) (a : Address)

theorem owningIf : (Flow.owningIf a).KeepsSuite :=
  bind (block a) fun _ => bind (requireActive _) fun _ => block _

theorem takeUntried : Flow.takeUntried.KeepsSuite := by
  refine bind (ask _) fun blocks => ?_
  split
  · exact bind (updateTop _) fun _ => pure _
  · exact pure _

theorem tryBranch (b : Block) (cond : String) : (Flow.tryBranch g b cond).KeepsSuite :=
  bind (OnlyVars.condition g cond).keepsSuite fun _ =>
    ite (updateTop _) (bind takeUntried fun _ => goToPart _ _)

theorem enterIf (cond : String) : (Flow.enterIf g a cond).KeepsSuite :=
  bind (block a) fun b => bind (change fun s => s.suite_push _) fun _ => tryBranch g b cond

theorem reachElseIf (cond : String) : (Flow.reachElseIf g a cond).KeepsSuite :=
  bind (owningIf a) fun b => bind (ask _) fun _ => ite (goToPart _ _) (tryBranch g b cond)

theorem reachElse : (Flow.reachElse a).KeepsSuite :=
  bind (owningIf a) fun _ => bind (ask _) fun _ => ite (goToPart _ _) (pure _)

theorem leaveIf : (Flow.leaveIf a).KeepsSuite := bind (owningIf a).discard fun _ => leaveTop

theorem enterTry : (Flow.enterTry a).KeepsSuite :=
  bind (block a) fun _ => bind (ask _) fun _ =>
    ite (change fun s => s.suite_push _) (change fun s => s.suite_push _)

theorem reachCatch : (Flow.reachCatch a).KeepsSuite :=
  bind (block a) fun _ => bind (requireActive _) fun _ => bind (ask _) fun _ =>
    ite (goToPart _ _) (pure _)

theorem reachFinally : (Flow.reachFinally a).KeepsSuite :=
  bind (block a) fun _ => bind (requireActive _) fun _ => bind OnlyVars.clearError.keepsSuite fun _ =>
    updateTop _

theorem enterCleanup (work : Work) : (Flow.enterCleanup work).KeepsSuite := by
  refine bind (ask _) fun blocks => ?_
  split
  · exact bind (updateTop _) fun _ => bind (block _) fun _ => bind (change fun _ => rfl) fun _ =>
      goToPart _ _
  · exact fail _

theorem resumeTransfer (origin : Address) (goal : Goal) : (Flow.resumeTransfer origin goal).KeepsSuite := by
  refine bind (ask _) fun cleanup? => ?_
  split
  · exact bind (change fun s => (Session.suite_drop _ _).trans (s.suite_abortCalls _)) fun _ =>
      enterCleanup _
  · exact goTo _

theorem deferTransfer (goal : Goal) : (Flow.deferTransfer a goal).KeepsSuite := by
  have hway (s : Session) : (if s.nesting > -1 ∧ (s.cleanup? goal).isSome then do
        Flow.resumeTransfer a goal
        Pure.pure true
      else Pure.pure false : Action Bool).KeepsSuite :=
    ite (bind (resumeTransfer a goal) fun _ => pure _) (pure _)
  refine bind get fun s => ?_
  dsimp only
  split
  · exact ite (bind (change fun _ => rfl) fun _ => pure _) (hway s)
  · exact hway s

theorem resumeDeferred (tryAt : Address) : (Flow.resumeDeferred tryAt).KeepsSuite := by
  refine bind get fun s => ?_
  split
  · refine ite (bind (change fun _ => rfl) fun _ => ?_) (pure _)
    split
    · exact throw _
    · exact resumeTransfer _ _
  · exact pure _

theorem leaveTry : (Flow.leaveTry a).KeepsSuite := by
  refine bind (block a) fun _ => bind (requireActive _) fun _ => bind OnlyVars.clearError.keepsSuite fun _ =>
    bind (ask _) fun blocks => bind (change fun s => s.suite_setBlocks _) fun _ => ?_
  split
  · exact ite (bind (change fun _ => rfl) fun _ => resumeDeferred _) (pure _)
  · exact fail _

theorem exitRun : (Flow.exitRun a).KeepsSuite :=
  bind (deferTransfer a _) fun _ => ite (change fun _ => rfl) (pure _)

theorem jump (goal : Address) : (Flow.jump a goal).KeepsSuite := by
  refine bind (ask _) fun suite => ?_
  split
  · exact throw _
  · exact change fun s => s.suite_setBlocks _

theorem goto (label : String) : (Flow.goto a label).KeepsSuite := by
  refine bind (ask _) fun suite => ?_
  split
  · exact jump a _
  · exact fail _

theorem gotoIf (cond label : String) : (Flow.gotoIf g a cond label).KeepsSuite :=
  bind (OnlyVars.condition g cond).keepsSuite fun _ => ite (goto a label) (pure _)

theorem skipNext (spec : String) : (Flow.skipNext g a spec).KeepsSuite := by
  refine bind (OnlyVars.skipCount g spec).keepsSuite fun count => ite (pure _) <| bind (ask _) fun suite => ?_
  split
  · exact throw _
  · exact jump a _

theorem setSource (source : LoopSource) : (Flow.setSource source).KeepsSuite := updateTop _

theorem advance (source : LoopSource) : (source.advance g).KeepsSuite := by
  cases source with
  | holding | records => exact pure _
  | counted init cond iterate => exact (OnlyVars.evaluateAll g iterate).keepsSuite
  | values var items index =>
    exact bind (setSource _) fun _ => (OnlyVars.bindItem var items (index + 1)).keepsSuite

theorem hasPass (source : LoopSource) : (source.hasPass g).KeepsSuite := by
  cases source with
  | holding cond | counted init cond iterate => exact (OnlyVars.condition g cond).keepsSuite
  | values var items index => exact bind (OnlyVars.bindName _ _).keepsSuite fun _ => pure _
  | records cursor =>
    refine ite (pure _) <| bind (ask _) fun vars => ?_
    split
    · exact throw _
    · exact bind (change fun _ => rfl) fun _ => bind (setSource _) fun _ => pure _

theorem beginPass (k : Keyword) : (Flow.beginPass g a k).KeepsSuite :=
  bind topLoop fun _ => bind (hasPass g _) fun _ => bind (updateTop _) fun _ =>
    ite (bind (block a) fun _ => goToPart _ _) (pure _)

theorem reachLoop (k : Keyword) {header : Action LoopHeader} (h : header.KeepsSuite) :
    (Flow.reachLoop g a k header).KeepsSuite :=
  bind (ask _) fun _ => ite
    (bind (updateTop _) fun _ => bind topLoop fun _ => bind (advance g _) fun _ => beginPass g a k)
    (bind h fun h => bind (change fun s => s.suite_push _) fun _ =>
      bind (OnlyVars.begin g h.source).keepsSuite fun _ => beginPass g a k)

theorem closeLoop : (Flow.closeLoop a).KeepsSuite :=
  bind (block a) fun _ => bind (requireActive _) fun _ => bind topLoop fun _ =>
    ite leaveTop (bind (updateTop _) fun _ => goToPart _ _)

theorem unwindToLoop : Flow.unwindToLoop.KeepsSuite := by
  refine bind (change fun s => s.suite_drop _) fun _ => bind (ask _) fun blocks => ?_
  split
  · exact pure _
  · exact fail _

theorem loopToLeave? (guard : String) : (Flow.loopToLeave? g a guard).KeepsSuite :=
  bind (OnlyVars.guardHolds g guard).keepsSuite fun _ => ite (pure _) <| bind (deferTransfer a _) fun _ =>
    ite (pure _) (bind unwindToLoop fun _ => pure _)

theorem breakLoop (guard : String) : (Flow.breakLoop g a guard).KeepsSuite := by
  refine bind (loopToLeave? g a guard) fun l? => ?_
  split
  · exact bind (updateTop _) fun _ => bind (block _) fun _ => goToPart _ _
  · exact pure _

theorem continueLoop (guard : String) : (Flow.continueLoop g a guard).KeepsSuite := by
  refine bind (loopToLeave? g a guard) fun l? => ?_
  split
  · exact bind (updateTop _) fun _ => goTo _
  · exact pure _

theorem reachCall (name args : String) : (Flow.reachCall g a name args).KeepsSuite := by
  refine bind (ask _) fun suite => ?_
  split
  · exact fail _
  · exact bind (ask _) fun _ => ite (change Session.suite_finishCall) <|
      bind (OnlyVars.arguments g _ _).keepsSuite fun _ => bind (change fun _ => rfl) fun _ => goTo _

theorem reachFunction : (Flow.reachFunction a).KeepsSuite :=
  bind (ask _) fun _ => ite (bind (block a) fun _ => goToPart _ _) (pure _)

theorem returnFrom (expr : String) : (Flow.returnFrom g a expr).KeepsSuite :=
  bind (block a) fun _ => bind (ask _) fun _ => ite (pure _) <| bind (deferTransfer a _) fun _ =>
    ite (pure _) <| bind (OnlyVars.storeResult g expr).keepsSuite fun _ => bind (ask _) fun _ =>
      bind (change Session.suite_markReturning) fun _ => goToPart _ _

/-- **Every flow command** leaves the suite as it is. -/
theorem perform (k : Keyword) (target value : String) : (Flow.perform g a k target value).KeepsSuite := by
  cases k
  case label => exact pure _
  case goto => exact goto a target
  case gotoIf => exact gotoIf g a target value
  case skipNext => exact skipNext g a target
  case ifThen => exact enterIf g a target
  case elseIf => exact reachElseIf g a target
  case otherwise => exact reachElse a
  case endIf => exact leaveIf a
  case tryBlock => exact enterTry a
  case catchError => exact reachCatch a
  case finallyDo => exact reachFinally a
  case endTry => exact leaveTry a
  case «throwError» => exact (OnlyVars.throwValue g target).keepsSuite
  case whileLoop | forLoop =>
    refine reachLoop g a _ ?_
    split
    · exact pure _
    · exact fail _
  case foreach => exact reachLoop g a _ (OnlyVars.foreachHeader g target value).keepsSuite
  case forJson | forXml => exact reachLoop g a _ (OnlyVars.recordsHeader g a _ _ target).keepsSuite
  case breakLoop => exact breakLoop g a target
  case continueLoop => exact continueLoop g a target
  case endWhile | endFor | endForeach | endForJson | endForXml => exact closeLoop a
  case call => exact reachCall g a target value
  case function | script => exact reachFunction a
  case returnValue => exact returnFrom g a target
  case endFunction | endScript => exact returnFrom g a ""
  case exitTest => exact exitRun a
  case loadJsonVars | loadXmlVars => exact (OnlyVars.loadRecord g a _ target value).keepsSuite

theorem dispatch : (Flow.dispatch g a).KeepsSuite := by
  refine bind (ask _) fun units => ?_
  split
  · exact throw _
  · split
    · exact perform g a _ _ _
    · exact fail _

/-! ## 4. Faults -/

theorem passOn (f : Fault) (t : TryFrame) (b : Block) : (Flow.passOn f t b).KeepsSuite := by
  refine bind (change fun _ => rfl) fun _ => ?_
  split
  · exact bind (change fun s => s.suite_updateTop _) fun _ => pure _
  · exact bind (ask _) fun _ => ite (bind (goToPart _ _) fun _ => pure _)
      (bind (change fun _ => rfl) fun _ => pure _)

theorem catchOrPassOn (f : Fault) (tryAt : Address) : (Flow.catchOrPassOn g f tryAt).KeepsSuite := by
  refine bind (change fun _ => rfl) fun _ => bind (block tryAt) fun b => bind (ask _) fun blocks => ?_
  split
  · dsimp only
    split
    · exact bind (OnlyVars.catches g _ _).keepsSuite fun _ =>
        ite (bind (change fun s => s.suite_updateTop _) fun _ => pure _) (passOn _ _ _)
    · exact passOn _ _ _
  · exact fail _

end KeepsSuite

end Action

namespace Session

variable (g : Setting)

theorem suite_execute (a : Address) (s : Session) : (s.execute g a).2.suite = s.suite := by
  have h := Action.KeepsSuite.dispatch g a { s with current := some a }
  unfold execute
  generalize dispatch g a { s with current := some a } = r at h
  rcases r with ⟨_ | _, t⟩
  · exact h
  · exact h

theorem suite_handleFault (f : Fault) (s : Session) : (handleFault g f s).2.suite = s.suite := by
  have hway : s.unwindToTry.2.suite = s.suite := suite_unwindThrough s.calls s
  unfold handleFault
  generalize s.current = current
  cases current <;> dsimp only
  case' some a => generalize f.attach (s.suite.commandRef a) = f
  all_goals
    split
    · rfl
    · rcases hu : s.unwindToTry with ⟨_ | tryAt, t⟩ <;> rw [hu] at hway
      · exact hway
      · have hkept := (Action.KeepsSuite.catchOrPassOn g f tryAt t).trans hway
        dsimp only
        generalize catchOrPassOn g f tryAt t = r at hkept ⊢
        rcases r with ⟨_ | _, u⟩
        · exact hkept
        · exact hkept

end Session

end BlockFlow.Flow

namespace BlockFlow

open BlockFlow.Flow

/-! ## 5. Runs -/

namespace World

variable {σ : Type} (g : Setting) (h : Host σ)

theorem suite_runCommand (a : Address) (w : World σ) :
    (w.runCommand g h a).2.session.suite = w.session.suite := by
  unfold runCommand
  split
  · split
    · exact Session.suite_execute g a w.session
    · rfl
  · exact Session.suite_execute g a w.session

theorem suite_step (a : Address) (w : World σ) : (w.step g h a).2.session.suite = w.session.suite := by
  have hrun := w.suite_runCommand g h a
  unfold step
  generalize w.runCommand g h a = r at hrun
  rcases r with ⟨f | _, v⟩
  · have hoffer : (v.handleFault g f).2.session.suite = w.session.suite :=
      (Session.suite_handleFault g f v.session).trans hrun
    dsimp only
    generalize v.handleFault g f = r at hoffer
    rcases r with ⟨_ | _, u⟩
    · exact hoffer
    · exact hoffer
  · exact hrun

theorem suite_next (default : Option Address) (w : World σ) :
    (w.next default).2.session.suite = w.session.suite := rfl

/-- **A run leaves the suite as it is**, however it ends. -/
theorem suite_drive (maxSteps left : Nat) : ∀ (default : Option Address) (w : World σ),
    (w.drive g h maxSteps left default).2.session.suite = w.session.suite := by
  induction left with
  | zero =>
    intro default w
    have hnext := w.suite_next default
    unfold drive
    generalize w.next default = r at hnext
    rcases r with ⟨_ | a, v⟩
    · exact hnext
    · exact v.session.suite_abandon.trans hnext
  | succ left ih =>
    intro default w
    have hnext := w.suite_next default
    unfold drive
    generalize w.next default = r at hnext
    rcases r with ⟨_ | a, v⟩
    · exact hnext
    · have hstep := (v.suite_step g h a).trans hnext
      have hgoes (u : World σ) (hu : u.session.suite = w.session.suite) :
          (if u.session.exitRequested then
            ((⟨.exited, maxSteps - left⟩ : Report), u.abandon)
          else drive g h maxSteps left (u.session.suite.successor? a) u).2.session.suite = w.session.suite := by
        split
        · exact u.session.suite_abandon.trans hu
        · exact (ih _ u).trans hu
      dsimp only
      generalize v.step g h a = r at hstep
      rcases r with ⟨_ | f | f, u⟩
      · exact hgoes u hstep
      · exact hgoes u hstep
      · exact u.session.suite_abandon.trans hstep

end World

namespace Flow.Session

theorem units_beforeRun (s : Session) : s.beforeRun.2.suite.units = s.suite.units := by
  unfold beforeRun
  rcases Tables.ofUnits s.suite.units with ⟨tables, _ | _⟩ <;> rfl

/-- A session whose units do not compile says why, and has its variables and units. -/
theorem beforeRun_of_error {s : Session} {e : CompileError} (h : ofUnits s.suite.units = .error e) :
    ∃ left, s.beforeRun = (some e, left) ∧ left.suite.units = s.suite.units ∧ left.vars = s.vars := by
  rw [ofUnits, Suite.compile] at h
  unfold beforeRun
  rcases hu : Tables.ofUnits s.suite.units with ⟨tables, _ | e'⟩ <;> rw [hu] at h <;> cases h
  exact ⟨_, rfl, rfl, rfl⟩

/-- A new session is over the units that it was made from. -/
theorem units_of_ofUnits {units : List ScriptUnit} {new : Session} (h : ofUnits units = .ok new) :
    new.suite.units = units := by
  unfold ofUnits at h
  cases hs : Suite.compile units with
  | error e =>
    rw [hs] at h
    cases h
  | ok suite =>
    rw [hs] at h
    cases h
    exact Suite.units_of_compile hs

end Flow.Session

namespace World

variable {σ : Type} (g : Setting) (h : Host σ)

theorem units_run (options : RunOptions) (w : World σ) :
    (w.run g h options).2.session.suite.units = w.session.suite.units := by
  have hbefore := w.session.units_beforeRun
  unfold run
  generalize w.session.beforeRun = r at hbefore
  rcases r with ⟨_ | e, session⟩
  · dsimp only
    split
    · exact hbefore
    · exact (congrArg Suite.units (suite_drive g h _ _ _ _)).trans hbefore
  · exact hbefore

/-- **A run of a session** is a run of a new session over its units, or fails as the making of one does. -/
theorem run_eq_run_new (options : RunOptions) (s : Session) (host : σ) :
    match Session.ofUnits s.suite.units with
    | .ok new =>
      World.run g h options ⟨s, host⟩ = World.run g h options ⟨{ new with vars := s.vars }, host⟩
    | .error e => ∃ left, World.run g h options ⟨s, host⟩ =
        (.error (e.fault s.suite.units), ⟨left, host⟩) ∧ left.vars = s.vars := by
  split
  · rename_i new hnew
    -- Starting over takes both sessions to one and the same.
    have hsame : Session.ofUnits ({ new with vars := s.vars } : Session).suite.units = .ok new := by
      rw [Session.units_of_ofUnits hnew]
      exact hnew
    have hagain : ({ new with vars := s.vars } : Session).beforeRun = (none, { new with vars := s.vars }) :=
      Session.beforeRun_of_ok hsame
    unfold run
    dsimp only
    rw [Session.beforeRun_of_ok hnew, hagain]
  · rename_i e he
    obtain ⟨left, hleft, hunits, hvars⟩ := Session.beforeRun_of_error he
    refine ⟨left, ?_, hvars⟩
    unfold run
    dsimp only
    rw [hleft, ← hunits]

end World

/-! ## 6. Histories -/

/-- What may be done with a session: everything that starts it over, drives it or changes its variables,
by hand or by a run with a host of any kind. -/
inductive Operation : Type 1
  | beforeRun
  | replaceUnits (units : List ScriptUnit)
  | next (default : Option Address)
  | execute (g : Setting) (a : Address)
  | handleFault (g : Setting) (f : Fault)
  | assign (vars : Namespace)
  | abandon
  | run {σ : Type} (g : Setting) (h : Host σ) (options : RunOptions) (host : σ)

namespace Operation

/-- The session after an operation, whatever its result. -/
def apply (s : Session) : Operation → Session
  | .beforeRun => s.beforeRun.2
  | .replaceUnits units => (s.replaceUnits units).2
  | .next default => (s.next default).2
  | .execute g a => (s.execute g a).2
  | .handleFault g f => (Flow.handleFault g f s).2
  | .assign vars => { s with vars }
  | .abandon => s.abandon
  | .run g h options host => (World.run g h options ⟨s, host⟩).2.session

/-- The units that are installed after an operation: those that were given last, whether or not they
compile. -/
def installed (units : List ScriptUnit) : Operation → List ScriptUnit
  | .replaceUnits others => others
  | _ => units

/-- **No operation changes which units are installed**, but the one that replaces them. -/
theorem units_apply (s : Session) (op : Operation) : (op.apply s).suite.units = op.installed s.suite.units := by
  cases op with
  | beforeRun => exact s.units_beforeRun
  | replaceUnits units => exact Session.units_beforeRun _
  | next default => rfl
  | execute g a => exact congrArg Suite.units (Session.suite_execute g a s)
  | handleFault g f => exact congrArg Suite.units (Session.suite_handleFault g f s)
  | assign vars => rfl
  | abandon => exact congrArg Suite.units s.suite_abandon
  | run g h options host => exact World.units_run g h options ⟨s, host⟩

end Operation

/-- The session after operations in turn. -/
def Flow.Session.after (s : Session) (ops : List Operation) : Session := ops.foldl Operation.apply s

/-- The units that are installed after operations in turn. -/
def installedAfter (units : List ScriptUnit) (ops : List Operation) : List ScriptUnit :=
  ops.foldl Operation.installed units

theorem units_after (s : Session) (ops : List Operation) :
    (s.after ops).suite.units = installedAfter s.suite.units ops := by
  induction ops generalizing s with
  | nil => rfl
  | cons op ops ih =>
    rw [Session.after, List.foldl_cons, ← Session.after, ih, op.units_apply]
    rfl

/-- **Runs do not depend on history.**  After any operations, a run is a run of a new session over the
units that are installed, with the variables as they are: it ends alike, and leaves the same session and
host.  If these units do not compile it fails as the making of that session does. -/
theorem run_after_history (s : Session) (ops : List Operation) {σ : Type} (g : Setting) (h : Host σ)
    (options : RunOptions) (host : σ) :
    match Session.ofUnits (installedAfter s.suite.units ops) with
    | .ok new => World.run g h options ⟨s.after ops, host⟩ =
        World.run g h options ⟨{ new with vars := (s.after ops).vars }, host⟩
    | .error e => ∃ left, World.run g h options ⟨s.after ops, host⟩ =
        (.error (e.fault (installedAfter s.suite.units ops)), ⟨left, host⟩) ∧
          left.vars = (s.after ops).vars := by
  rw [← units_after]
  exact World.run_eq_run_new g h options (s.after ops) host

end BlockFlow
