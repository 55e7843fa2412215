/-
# Veiled sessions

What a call saves is meant for its caller, and so is what the loops around it save.  `Session.veil` takes all that
away from a session, seen from one of its calls: the variables that this call and those outside of it have saved,
and the bindings that the loops outside of it have saved.

As long as the call is running nothing of it is read.  An action is `Blind` if it keeps the call and does the same
over the veiled session; this holds of all that the commands are made of, except for what ends calls.
-/
import BlockFlow.Proofs.Stacks

namespace BlockFlow.Flow

/-! ## 1. What is veiled -/

/-- The construct without what a loop has saved. -/
def Frame.bare : Frame → Frame
  | .loop l => .loop { l with saved := ∅ }
  | f => f

/-- Calls without what the outermost ones of a number have saved, and without what the loops outside of these have
saved. -/
def veilCalls (n : Nat) : List Call → List Call
  | [] => []
  | c :: calls =>
    { c with
      saved := if n ≤ calls.length then c.saved else ∅
      blocks := if n ≤ calls.length + 1 then c.blocks else c.blocks.map Frame.bare } :: veilCalls n calls

/-- The session without what a number of its outermost calls have saved, and without what the loops outside of these
have saved. -/
def Session.veil (n : Nat) (s : Session) : Session :=
  { s with calls := veilCalls n s.calls, base := if n = 0 then s.base else s.base.map Frame.bare }

section

variable {n : Nat}

@[simp] theorem length_veilCalls (calls : List Call) : (veilCalls n calls).length = calls.length := by
  induction calls with
  | nil => rfl
  | cons c calls ih => rw [veilCalls, List.length_cons, ih, List.length_cons]

/-- The innermost call of those that are veiled has its constructs. -/
theorem veilCalls_cons {c : Call} {calls : List Call} (h : n ≤ (c :: calls).length) : veilCalls n (c :: calls) =
    { c with saved := if n ≤ calls.length then c.saved else ∅ } :: veilCalls n calls := by
  rw [veilCalls, if_pos (show n ≤ calls.length + 1 from h)]

/-- A call inside of those that are veiled is as it was. -/
theorem veilCalls_inner {c : Call} {calls : List Call} (h : n ≤ calls.length) :
    veilCalls n (c :: calls) = c :: veilCalls n calls := by
  rw [veilCalls_cons (Nat.le_succ_of_le h), if_pos h]

@[simp] theorem Frame.isTryAt_bare (f : Frame) (a : Address) : f.bare.isTryAt a = f.isTryAt a := by
  cases f <;> rfl

@[simp] theorem Frame.bare_bare (f : Frame) : f.bare.bare = f.bare := by
  cases f <;> rfl

/-- What a loop has saved does not say which cleanup sections are owed. -/
theorem cleanupDepth?_bare (suite : Suite) (goal : Goal) (fs : List Frame) :
    cleanupDepth? suite goal (fs.map Frame.bare) = cleanupDepth? suite goal fs := by
  induction fs with
  | nil => rfl
  | cons f fs ih => cases f <;> simp only [List.map_cons, Frame.bare, cleanupDepth?, ih]

theorem cleanupIn?_bare (suite : Suite) (goal : Goal) (rest : List (List Frame)) :
    cleanupIn? suite goal (rest.map (List.map Frame.bare)) = cleanupIn? suite goal rest := by
  induction rest with
  | nil => rfl
  | cons fs rest ih => simp only [List.map_cons, cleanupIn?, cleanupDepth?_bare, ih]

end

/-! ## 2. Operations on veiled sessions -/

namespace Session

variable {n : Nat} {s : Session}

@[simp] theorem length_calls_veil : (s.veil n).calls.length = s.calls.length := length_veilCalls s.calls

@[simp] theorem depth_veil : (s.veil n).depth = s.depth := by rw [depth, length_calls_veil, depth]

@[simp] theorem suite_veil : (s.veil n).suite = s.suite := rfl

@[simp] theorem vars_veil : (s.veil n).vars = s.vars := rfl

@[simp] theorem nesting_veil : (s.veil n).nesting = s.nesting := rfl

@[simp] theorem deferred_veil : (s.veil n).deferred = s.deferred := rfl

@[simp] theorem current_veil : (s.veil n).current = s.current := rfl

/-- The constructs of the innermost call can be seen, if it is not outside of those that are veiled. -/
theorem blocks_veil (h : n ≤ s.calls.length) : (s.veil n).blocks = s.blocks := by
  unfold veil blocks
  cases hc : s.calls with
  | nil =>
    rw [hc] at h
    exact if_pos (Nat.le_zero.1 h)
  | cons c calls =>
    rw [hc] at h
    dsimp only
    rw [veilCalls_cons h]

theorem callee?_veil : (s.veil n).callee? = s.callee? := by
  unfold veil callee?
  cases s.calls <;> rfl

theorem isReturningTo_veil (a : Address) : (s.veil n).isReturningTo a = s.isReturningTo a := by
  unfold veil isReturningTo
  cases s.calls <;> rfl

theorem setBlocks_veil (h : n ≤ s.calls.length) (bs : List Frame) :
    (s.veil n).setBlocks bs = (s.setBlocks bs).veil n := by
  unfold veil setBlocks
  cases hc : s.calls with
  | nil =>
    rw [hc] at h
    obtain rfl := Nat.le_zero.1 h
    rfl
  | cons c calls =>
    rw [hc] at h
    dsimp only
    rw [veilCalls_cons h, veilCalls_cons (c := { c with blocks := bs }) h]

@[simp] theorem length_calls_setBlocks (bs : List Frame) : (s.setBlocks bs).calls.length = s.calls.length := by
  unfold setBlocks
  cases s.calls <;> rfl

theorem push_veil (h : n ≤ s.calls.length) (f : Frame) : (s.veil n).push f = (s.push f).veil n := by
  rw [push, blocks_veil h, setBlocks_veil h, push]

theorem updateTop_veil (h : n ≤ s.calls.length) (f : Frame → Frame) :
    (s.veil n).updateTop f = (s.updateTop f).veil n := by
  unfold updateTop
  rw [blocks_veil h]
  split
  · rfl
  · exact setBlocks_veil h _

theorem updateTry_veil (h : n ≤ s.calls.length) (f : TryFrame → TryFrame) :
    (s.veil n).updateTry f = (s.updateTry f).veil n := updateTop_veil h _

@[simp] theorem length_calls_updateTop (f : Frame → Frame) : (s.updateTop f).calls.length = s.calls.length := by
  unfold updateTop
  split
  · rfl
  · exact length_calls_setBlocks _

theorem discard_veil (f : Frame) : (s.veil n).discard f = (s.discard f).veil n := by
  cases f with
  | conditional c | loop l => rfl
  | guarded t =>
    unfold discard
    dsimp only
    split <;> rfl

theorem discardAll_veil (fs : List Frame) : (s.veil n).discardAll fs = (s.discardAll fs).veil n := by
  induction fs generalizing s with
  | nil => rfl
  | cons f fs ih => rw [discardAll_cons, discard_veil, ih, discardAll_cons]

theorem drop_veil (h : n ≤ s.calls.length) (k : Nat) : (s.veil n).drop k = (s.drop k).veil n := by
  rw [drop, blocks_veil h, setBlocks_veil h, discardAll_veil, drop]

@[simp] theorem length_calls_drop (k : Nat) : (s.drop k).calls.length = s.calls.length := by
  rw [drop, calls_discardAll, length_calls_setBlocks]

theorem dropToTry_veil (h : n ≤ s.calls.length) : (s.veil n).dropToTry = s.dropToTry.veil n := by
  rw [dropToTry, blocks_veil h, drop_veil h, dropToTry]

@[simp] theorem length_calls_dropToTry : s.dropToTry.calls.length = s.calls.length := length_calls_drop _

/-- Calls end that are inside of those that are veiled. -/
theorem abortCall_veil (h : n < s.calls.length) : (s.veil n).abortCall = s.abortCall.veil n := by
  unfold abortCall
  cases hc : s.calls with
  | nil =>
    rw [hc] at h
    cases h
  | cons c calls =>
    rw [hc] at h
    have hveil : (s.veil n).calls = c :: veilCalls n calls := by
      rw [veil, hc, veilCalls_inner (Nat.le_of_lt_succ h)]
    rw [hveil]
    dsimp only
    rw [discardAll_veil]
    unfold veil
    rfl

theorem abortCalls_veil {k : Nat} (h : n + k ≤ s.calls.length) : (s.veil n).abortCalls k = (s.abortCalls k).veil n := by
  induction k generalizing s with
  | zero => rfl
  | succ k ih =>
    have hk : n + k ≤ s.abortCall.calls.length := by
      rw [calls_abortCall, List.length_tail]
      omega
    rw [abortCalls, abortCall_veil (by omega), ih hk, abortCalls]

theorem finishCall_veil (h : n < s.calls.length) : (s.veil n).finishCall = s.finishCall.veil n := by
  unfold finishCall
  rw [abortCall_veil h]
  rfl

theorem enterCall_veil (h : n ≤ s.calls.length) (callee returnTo : Address) (args : Namespace) :
    (s.veil n).enterCall callee returnTo args = (s.enterCall callee returnTo args).veil n := by
  unfold enterCall veil
  dsimp only
  rw [veilCalls_inner h]

theorem markReturning_veil (h : n ≤ s.calls.length) : (s.veil n).markReturning = s.markReturning.veil n := by
  have hdrop : n ≤ (s.drop s.blocks.length).calls.length := by rwa [length_calls_drop]
  unfold markReturning
  rw [blocks_veil h, drop_veil h]
  generalize s.drop s.blocks.length = t at hdrop
  dsimp only
  unfold veil
  cases hc : t.calls with
  | nil =>
    dsimp only [veilCalls]
    rw [hc]
    rfl
  | cons c calls =>
    rw [hc] at hdrop
    dsimp only
    rw [veilCalls_cons hdrop, veilCalls_cons (c := { c with returning := true }) hdrop]

@[simp] theorem length_calls_markReturning : s.markReturning.calls.length = s.calls.length := by
  rw [← length_calls_drop (s := s) s.blocks.length]
  unfold markReturning
  dsimp only
  generalize s.drop s.blocks.length = t
  split
  · rfl
  · rename_i hc
    rw [hc]
    rfl

/-- The stacks differ in what their loops have saved. -/
theorem blockStacks_veil : (s.veil n).blockStacks.map (List.map Frame.bare) =
    s.blockStacks.map (List.map Frame.bare) := by
  have hmap (fs : List Frame) : (fs.map Frame.bare).map Frame.bare = fs.map Frame.bare := by
    rw [List.map_map]
    exact List.map_congr_left fun f _ => f.bare_bare
  have hite (p : Prop) [Decidable p] (fs : List Frame) :
      (if p then fs else fs.map Frame.bare).map Frame.bare = fs.map Frame.bare := by
    split
    · rfl
    · exact hmap fs
  have hcalls (calls : List Call) : ((veilCalls n calls).map Call.blocks).map (List.map Frame.bare) =
      (calls.map Call.blocks).map (List.map Frame.bare) := by
    induction calls with
    | nil => rfl
    | cons c calls ih => rw [veilCalls, List.map_cons, List.map_cons, ih, List.map_cons, List.map_cons, hite]
  unfold blockStacks veil
  dsimp only
  rw [List.map_append, List.map_append, hcalls, List.map_singleton, List.map_singleton, hite]

theorem cleanup?_veil (h : n ≤ s.calls.length) (goal : Goal) : (s.veil n).cleanup? goal = s.cleanup? goal := by
  unfold cleanup?
  rw [blocks_veil h, suite_veil, ← cleanupIn?_bare _ _ (s.veil n).blockStacks, blockStacks_veil, cleanupIn?_bare]

theorem leavesCleanup_veil (h : n ≤ s.calls.length) (d : Deferred) (goal : Goal) :
    (s.veil n).leavesCleanup d goal = s.leavesCleanup d goal := by
  unfold leavesCleanup
  rw [depth_veil, blocks_veil h]

/-- Whether a try is running at a depth can be seen. -/
theorem any_stackAt?_veil (depth : Nat) (a : Address) :
    ((s.veil n).stackAt? depth).any (fun blocks => blocks.any (Frame.isTryAt a)) =
      (s.stackAt? depth).any (fun blocks => blocks.any (Frame.isTryAt a)) := by
  have hbare (o : Option (List Frame)) : o.any (fun blocks => blocks.any (Frame.isTryAt a)) =
      (o.map (List.map Frame.bare)).any (fun blocks => blocks.any (Frame.isTryAt a)) := by
    cases o with
    | none => rfl
    | some fs => simp [List.any_map, Function.comp_def]
  rw [hbare, hbare (s.stackAt? depth)]
  congr 1
  unfold stackAt?
  split
  · rfl
  · rw [← List.getElem?_map, List.map_reverse, blockStacks_veil, ← List.map_reverse, List.getElem?_map]

theorem pruneDeferred_veil : (s.veil n).pruneDeferred = s.pruneDeferred.veil n := by
  unfold pruneDeferred
  simp only [any_stackAt?_veil, deferred_veil]
  rfl

theorem forgetDeferred_veil (a : Address) : (s.veil n).forgetDeferred a = (s.forgetDeferred a).veil n := by
  unfold forgetDeferred
  rw [depth_veil]
  rfl

theorem defer_veil (work : Work) (a : Address) : (s.veil n).defer work a = (s.defer work a).veil n := by
  unfold defer
  rw [depth_veil]
  rfl

end Session

/-! ## 3. Actions that do not see through a veil -/

namespace Action

variable {α β : Type}

/-- **The action sees nothing of what is veiled**, and keeps the calls: over a veiled session it comes to the same
result, and to the session that it comes to anyway, veiled. -/
def Blind (n : Nat) (m : Action α) : Prop :=
  ∀ s : Session, n ≤ s.calls.length → n ≤ (m s).2.calls.length ∧ m (s.veil n) = ((m s).1, (m s).2.veil n)

namespace Blind

variable {n : Nat}

theorem pure (a : α) : (Pure.pure a : Action α).Blind n := fun _ hs => ⟨hs, rfl⟩

theorem throw (f : Fault) : (MonadExcept.throw f : Action α).Blind n := fun _ hs => ⟨hs, rfl⟩

theorem fail (e : FlowError) : (Action.fail e : Action α).Blind n := throw _

theorem ask {f : Session → α} (h : ∀ s : Session, n ≤ s.calls.length → f (s.veil n) = f s) :
    (Action.ask f).Blind n := fun s hs => ⟨hs, congrArg (fun a => (Except.ok a, s.veil n)) (h s hs)⟩

theorem change {f : Session → Session} (h : ∀ s : Session, n ≤ s.calls.length →
    n ≤ (f s).calls.length ∧ f (s.veil n) = (f s).veil n) : (Action.change f).Blind n :=
  fun s hs => ⟨(h s hs).1, congrArg (fun t => (Except.ok (), t)) (h s hs).2⟩

theorem bind {m : Action α} {f : α → Action β} (hm : m.Blind n) (hf : ∀ a, (f a).Blind n) :
    (m >>= f).Blind n := fun s hs => by
  obtain ⟨hkeeps, hsame⟩ := hm s hs
  rw [bind_apply, bind_apply, hsame]
  generalize m s = r at hkeeps
  rcases r with ⟨_ | a, t⟩
  · exact ⟨hkeeps, rfl⟩
  · exact hf a t hkeeps

/-- What depends on a session may depend on what can be seen of it. -/
theorem get_bind {f : Session → Action β} (hsame : ∀ s : Session, n ≤ s.calls.length → f (s.veil n) = f s)
    (hf : ∀ s, (f s).Blind n) : (getThe Session >>= f : Action β).Blind n := fun s hs => by
  rw [bind_apply, bind_apply]
  change n ≤ (f s s).2.calls.length ∧ f (s.veil n) (s.veil n) = _
  rw [hsame s hs]
  exact hf s s hs

theorem ite {c : Prop} [Decidable c] {m m' : Action α} (hm : m.Blind n) (hm' : m'.Blind n) :
    (if c then m else m').Blind n := by
  split
  · exact hm
  · exact hm'

theorem map {m : Action α} (hm : m.Blind n) (f : α → β) : (f <$> m).Blind n := by
  rw [map_eq_pure_bind]
  exact hm.bind fun a => pure (f a)

theorem discard {m : Action α} (hm : m.Blind n) : (Functor.discard m : Action Unit).Blind n := hm.map _

theorem tryCatch {m : Action α} {f : Fault → Action α} (hm : m.Blind n) (hf : ∀ e, (f e).Blind n) :
    (MonadExcept.tryCatch m f).Blind n := fun s hs => by
  obtain ⟨hkeeps, hsame⟩ := hm s hs
  rw [tryCatch_apply, tryCatch_apply, hsame]
  generalize m s = r at hkeeps
  rcases r with ⟨e | _, t⟩
  · exact hf e t hkeeps
  · exact ⟨hkeeps, rfl⟩

/-! ## 4. Steps that the commands are made of -/

theorem vars (f : Session → Namespace) (h : ∀ s : Session, f (s.veil n) = f s) :
    (Action.change fun s => { s with vars := f s }).Blind n :=
  change fun s hs => ⟨hs, by rw [h]; rfl⟩

theorem updateTop {f : Session → Session} {u : Frame → Frame} (h : ∀ s, f s = s.updateTop u) :
    (Action.change f).Blind n :=
  change fun s hs => by
    rw [h, h, Session.length_calls_updateTop]
    exact ⟨hs, Session.updateTop_veil hs u⟩

theorem blocks : (Action.ask Session.blocks).Blind n := ask fun _ => Session.blocks_veil

theorem evaluate (g : Setting) (expr : String) : (Action.evaluate g expr).Blind n := by
  refine (ask fun _ _ => rfl).bind fun vars => ?_
  refine (Blind.vars _ fun _ => rfl).bind fun _ => ?_
  split
  · exact pure _
  · exact throw _

theorem condition (g : Setting) (expr : String) : (Action.condition g expr).Blind n :=
  (evaluate g expr).bind fun _ => pure _

theorem evaluateAll (g : Setting) : ∀ exprs : List String, (Action.evaluateAll g exprs).Blind n
  | [] => pure _
  | expr :: exprs => (evaluate g expr).discard.bind fun _ => evaluateAll g exprs

theorem block (a : Address) : (Action.block a).Blind n := by
  refine (ask fun _ _ => rfl).bind fun b? => ?_
  split
  · exact pure _
  · exact (ask fun _ _ => rfl).bind fun _ => fail _

theorem goTo (a : Address) : (Action.goTo a).Blind n := change fun _ hs => ⟨hs, rfl⟩

theorem goToPart (a? : Option Address) (what : String) : (Action.goToPart a? what).Blind n := by
  unfold Action.goToPart
  split
  · exact goTo _
  · exact fail _

theorem requireActive (expected : Option Address) : (Action.requireActive expected).Blind n :=
  get_bind (fun s hs => by rw [Session.blocks_veil hs]; rfl) fun _ => ite (pure _) (fail _)

theorem topLoop : Action.topLoop.Blind n := by
  refine blocks.bind fun blocks => ?_
  split
  · exact pure _
  · exact fail _

theorem leaveTop : Action.leaveTop.Blind n :=
  change fun _ hs => ⟨by rwa [Session.length_calls_drop], Session.drop_veil hs 1⟩

theorem push (fr : Session → Frame) (k : Session → Session → Session)
    (hfr : ∀ s : Session, fr (s.veil n) = fr s) (hcalls : ∀ s t, (k s t).calls = t.calls)
    (hk : ∀ s t : Session, k (s.veil n) (t.veil n) = (k s t).veil n) :
    (Action.change fun s => k s (s.push (fr s))).Blind n :=
  change fun s hs => by
    have hlength : (s.push (fr s)).calls.length = s.calls.length := Session.length_calls_setBlocks _
    rw [hfr, Session.push_veil hs, hk, hcalls, hlength]
    exact ⟨hs, rfl⟩

/-! ## 5. Commands that end no call -/

variable (g : Setting) (a : Address)

theorem takeUntried : Flow.takeUntried.Blind n := by
  refine blocks.bind fun blocks => ?_
  split
  · exact (updateTop fun _ => rfl).bind fun _ => pure _
  · exact pure _

theorem tryBranch (b : Block) (cond : String) : (Flow.tryBranch g b cond).Blind n :=
  (condition g cond).bind fun _ =>
    ite (updateTop fun _ => rfl) (takeUntried.bind fun _ => goToPart _ _)

theorem enterIf (cond : String) : (Flow.enterIf g a cond).Blind n :=
  (block a).bind fun b => bind (push (fun _ => .conditional { opener := a, untried := b.elseIfs }) (fun _ t => t)
    (fun _ => rfl) (fun _ _ => rfl) fun _ _ => rfl) fun _ => tryBranch g b cond

theorem owningIf : (Flow.owningIf a).Blind n :=
  (block a).bind fun _ => (requireActive _).bind fun _ => block _

theorem hasMatched : (Action.ask Flow.hasMatched).Blind n :=
  ask fun s hs => by rw [Flow.hasMatched, Session.blocks_veil hs, Flow.hasMatched]

theorem reachElseIf (cond : String) : (Flow.reachElseIf g a cond).Blind n :=
  (owningIf a).bind fun b => hasMatched.bind fun _ => ite (goToPart _ _) (tryBranch g b cond)

theorem reachElse : (Flow.reachElse a).Blind n :=
  (owningIf a).bind fun _ => hasMatched.bind fun _ => ite (goToPart _ _) (pure _)

theorem leaveIf : (Flow.leaveIf a).Blind n := (owningIf a).discard.bind fun _ => leaveTop

theorem enterTry : (Flow.enterTry a).Blind n :=
  (block a).bind fun _ => (ask fun _ _ => rfl).bind fun _ => ite
    (push (fun _ => .guarded { opener := a }) (fun _ t => t) (fun _ => rfl) (fun _ _ => rfl) fun _ _ => rfl)
    (push (fun _ => .guarded { opener := a, phase := some .trying }) (fun s t => { t with nesting := s.nesting + 1 })
      (fun _ => rfl) (fun _ _ => rfl) fun _ _ => rfl)

theorem reachCatch : (Flow.reachCatch a).Blind n :=
  (block a).bind fun _ => (requireActive _).bind fun _ =>
    (ask fun s hs => by rw [phase?, Session.blocks_veil hs, phase?]).bind fun _ => ite (goToPart _ _) (pure _)

theorem clearError : Flow.clearError.Blind n := vars _ fun _ => rfl

theorem reachFinally : (Flow.reachFinally a).Blind n :=
  (block a).bind fun _ => (requireActive _).bind fun _ => clearError.bind fun _ => updateTop fun _ => rfl

theorem throwValue (expr : String) : (Flow.throwValue g expr).Blind n :=
  ite ((throw _).bind fun _ => (evaluate g expr).bind fun _ => throw _)
    ((evaluate g expr).bind fun _ => throw _)

theorem jump (goal : Address) : (Flow.jump a goal).Blind n := by
  refine (ask fun _ _ => rfl).bind fun suite => ?_
  split
  · exact throw _
  · refine change fun s hs => ⟨?_, ?_⟩
    · exact Nat.le_trans hs (Nat.le_of_eq (Session.length_calls_setBlocks _).symm)
    · rw [Session.blocks_veil hs, Session.setBlocks_veil hs]
      rfl

theorem goto (label : String) : (Flow.goto a label).Blind n := by
  refine (ask fun _ _ => rfl).bind fun suite => ?_
  split
  · exact jump _ _
  · exact fail _

theorem gotoIf (cond label : String) : (Flow.gotoIf g a cond label).Blind n :=
  (condition g cond).bind fun _ => ite (goto a label) (pure _)

theorem skipCount (spec : String) : (Flow.skipCount g spec).Blind n := by
  refine ite (pure _) ((evaluate g spec).bind fun v => ?_)
  split
  · exact fail _
  · exact ite (fail _) (pure _)

theorem skipNext (spec : String) : (Flow.skipNext g a spec).Blind n := by
  refine (skipCount g spec).bind fun count => ite (pure _) ((ask fun _ _ => rfl).bind fun suite => ?_)
  split
  · exact throw _
  · exact jump _ _

theorem takeRecord (cursor : DataCursor) : (Flow.takeRecord cursor).Blind n := by
  refine (ask fun _ _ => rfl).bind fun values => ?_
  split
  · exact throw _
  · exact (vars _ fun _ => rfl).bind fun _ => pure _

theorem selectRecord (selector path : String) : ∀ (left : Nat) (cursor : DataCursor),
    (Flow.selectRecord g selector path cursor left).Blind n
  | 0, _ => (condition g selector).bind fun _ => ite (fail _) (pure _)
  | left + 1, cursor => (condition g selector).bind fun _ =>
    ite ((takeRecord cursor).bind fun c => selectRecord selector path left c) (pure _)

theorem loadRecord (format : DataFormat) (target selector : String) :
    (Flow.loadRecord g a format target selector).Blind n := by
  refine ite ((fail _).bind fun _ => (ask fun _ _ => rfl).bind fun path => ?_)
    ((ask fun _ _ => rfl).bind fun path => ?_)
  all_goals
    split
    · exact throw _
    · exact (takeRecord _).bind fun c => ite (selectRecord g _ _ _ _) (ite (fail _) (pure _))

theorem foreachHeader (target value : String) : (Flow.foreachHeader g target value).Blind n := by
  refine ite ((fail _).bind fun _ => ?_) ?_
  all_goals
    dsimp only
    split
    · refine (fail _).bind fun _ => ite ((fail _).bind fun _ => ?_) ?_ <;>
        exact (evaluate g _).bind fun _ => pure _
    · refine ite ((fail _).bind fun _ => ?_) ?_ <;> exact (evaluate g _).bind fun _ => pure _

theorem recordsHeader (k : Keyword) (format : DataFormat) (target : String) :
    (Flow.recordsHeader g a k format target).Blind n := by
  refine ite ((fail _).bind fun _ => (ask fun _ _ => rfl).bind fun path => ?_)
    ((ask fun _ _ => rfl).bind fun path => ?_)
  all_goals
    split
    · exact throw _
    · exact pure _

theorem bindName (name : String) (v : Value) : (Flow.bindName name v).Blind n := vars _ fun _ => rfl

theorem bindItem (var : String) (items : List Value) (index : Nat) : (Flow.bindItem var items index).Blind n := by
  unfold Flow.bindItem
  split
  · exact bindName _ _
  · exact pure _

theorem setSource (source : LoopSource) : (Flow.setSource source).Blind n := updateTop fun _ => rfl

theorem begin (source : LoopSource) : (source.begin g).Blind n := by
  cases source with
  | holding | records => exact pure _
  | counted init _ _ => exact evaluateAll g init
  | values var items _ => exact bindItem var items 0

theorem advance (source : LoopSource) : (source.advance g).Blind n := by
  cases source with
  | holding | records => exact pure _
  | counted _ _ iterate => exact evaluateAll g iterate
  | values var items index => exact (setSource _).bind fun _ => bindItem var items (index + 1)

theorem hasPass (source : LoopSource) : (source.hasPass g).Blind n := by
  cases source with
  | holding cond | counted init cond iterate => exact condition g cond
  | values var items index => exact (bindName _ _).bind fun _ => pure _
  | records cursor =>
    refine ite (pure _) ((ask fun _ _ => rfl).bind fun values => ?_)
    split
    · exact throw _
    · exact (vars _ fun _ => rfl).bind fun _ => (setSource _).bind fun _ => pure _

theorem pushLoop (h : LoopHeader) : (Flow.pushLoop a h).Blind n :=
  push
    (fun s => .loop { opener := a, source := h.source
                      saved := Dict.ofList (h.names.map fun name => (name, s.vars.get? name)) })
    (fun s t => { t with
      vars := s.vars.insertAll ((h.names.filter fun name => !s.vars.contains name).map (·, Value.null)) })
    (fun _ => rfl) (fun _ _ => rfl) fun _ _ => rfl

theorem beginPass (k : Keyword) : (Flow.beginPass g a k).Blind n :=
  topLoop.bind fun _ => (hasPass g _).bind fun _ => (updateTop fun _ => rfl).bind fun _ =>
    ite ((block a).bind fun _ => goToPart _ _) (pure _)

theorem reachLoop {k : Keyword} {header : Action LoopHeader} (hheader : header.Blind n) :
    (Flow.reachLoop g a k header).Blind n :=
  (ask fun s hs => by rw [isReentering, Session.blocks_veil hs, isReentering]).bind fun _ => ite
    ((updateTop fun _ => rfl).bind fun _ => topLoop.bind fun _ => (advance g _).bind fun _ => beginPass g a k)
    (hheader.bind fun h => (pushLoop a h).bind fun _ => (begin g _).bind fun _ => beginPass g a k)

theorem closeLoop : (Flow.closeLoop a).Blind n :=
  (block a).bind fun _ => (requireActive _).bind fun _ => topLoop.bind fun _ =>
    ite leaveTop ((updateTop fun _ => rfl).bind fun _ => goToPart _ _)

theorem unwindToLoop : Flow.unwindToLoop.Blind n := by
  refine (change fun s hs => ⟨?_, ?_⟩).bind fun _ => blocks.bind fun blocks => ?_
  · rwa [Session.length_calls_drop]
  · rw [Session.blocks_veil hs, Session.drop_veil hs]
  · split
    · exact pure _
    · exact fail _

theorem guardHolds (guard : String) : (Flow.guardHolds g guard).Blind n := ite (pure _) (condition g guard)

theorem enterCleanup (work : Work) : (Flow.enterCleanup work).Blind n := by
  refine blocks.bind fun blocks => ?_
  split
  · refine (updateTop fun _ => rfl).bind fun _ => (block _).bind fun _ =>
      bind (change fun s hs => ⟨hs, ?_⟩) fun _ => goToPart _ _
    rw [Session.pruneDeferred_veil, Session.defer_veil]
  · exact fail _

theorem arguments : ∀ (parts : List String) (args : Namespace), (Flow.arguments g args parts).Blind n
  | [], _ => pure _
  | part :: parts, args => by
    unfold Flow.arguments
    refine ite (arguments parts args) ?_
    split
    · exact fail _
    · exact (evaluate g _).bind fun v => arguments parts _

theorem reachFunction : (Flow.reachFunction a).Blind n :=
  (ask fun _ _ => Session.callee?_veil).bind fun _ => ite ((block a).bind fun _ => goToPart _ _) (pure _)

theorem storeResult (expr : String) : (Flow.storeResult g expr).Blind n :=
  ite ((evaluate g expr).bind fun _ => vars _ fun _ => rfl) (pure _)

theorem handlerText (target : String) : (Flow.handlerText g target).Blind n :=
  ite (pure _) (tryCatch ((evaluate g target).bind fun _ => pure _) fun _ => pure _)

theorem catches (message : String) (catchAt : Address) : (Flow.catches g message catchAt).Blind n :=
  (ask fun _ _ => rfl).bind fun _ => ite (pure _) ((handlerText g _).bind fun _ => pure _)

theorem passOn (f : Fault) (t : TryFrame) (b : Block) : (Flow.passOn f t b).Blind n := by
  refine bind (change fun s hs => ⟨hs, ?_⟩) fun _ => ?_
  · rw [Session.forgetDeferred_veil, Session.defer_veil]
  split
  · refine (change fun s hs => ⟨?_, ?_⟩).bind fun _ => pure _
    · exact Nat.le_trans hs (Nat.le_of_eq (Session.length_calls_updateTop _).symm)
    · rw [Session.updateTry_veil hs]
      rfl
  · exact (ask fun _ _ => rfl).bind fun _ => ite ((goToPart _ _).bind fun _ => pure _)
      (bind (change fun _ hs => ⟨hs, rfl⟩) fun _ => pure _)

theorem catchOrPassOn (f : Fault) (tryAt : Address) : (Flow.catchOrPassOn g f tryAt).Blind n := by
  refine bind (change fun _ hs => ⟨hs, Session.pruneDeferred_veil⟩) fun _ => (block _).bind fun b =>
    blocks.bind fun blocks => ?_
  split
  · split
    · refine (catches g _ _).bind fun _ => ite ((change fun s hs => ⟨?_, ?_⟩).bind fun _ => pure _) (passOn _ _ _)
      · exact Nat.le_trans hs (Nat.le_of_eq (Session.length_calls_updateTop _).symm)
      · rw [Session.updateTry_veil hs]
        change ((Session.veil n { s.updateTry TryFrame.enterHandler with vars := _ }).forgetDeferred tryAt).branch _ = _
        rw [Session.forgetDeferred_veil]
        rfl
    · exact passOn _ _ _
  · exact fail _

end Blind

end Action

end BlockFlow.Flow
