/-
# Snapshots

Entering a loop saves the bindings of its own names, and calling a function saves the caller's variables.
The saved bindings are given back when the loop or the call is left, by whichever way, innermost first.  A
`Snapshot` is what is given back, and `Session.snapshots` lists those of a session as a stack.

What can happen to the stack is said by two relations.  `Session.Unwinds` takes snapshots off and gives them
back, and `Session.Lowers` lets the variables change before.  `Effect` says which of these a command does, or
which snapshot it puts on.
-/
import BlockFlow.Proofs.Moments

namespace BlockFlow.Flow

/-! ## 1. What is given back -/

/-- What leaving a loop or a call gives back: the bindings of a loop's own names, or a caller's variables.  It
goes with the command that entered the loop or made the call. -/
inductive Snapshot
  | loop (opener : Address) (saved : Dict String (Option Value))
  | call (site : Address) (saved : Namespace)

namespace Snapshot

def restore (vars : Namespace) : Snapshot → Namespace
  | .loop _ saved => vars.restore saved
  | .call _ saved => saved

/-- The binding that a name is given back, if it is given one: a value, or none. -/
def binding? (name : String) : Snapshot → Option (Option Value)
  | .loop _ saved => saved.get? name
  | .call _ saved => some (saved.get? name)

end Snapshot

/-- Gives snapshots back in turn. -/
def restoreAll (vars : Namespace) (sns : List Snapshot) : Namespace := sns.foldl Snapshot.restore vars

/-- The binding that a name is given back by the lowest of several snapshots that give it one. -/
def lowest? (name : String) (sns : List Snapshot) : Option (Option Value) :=
  sns.reverse.findSome? (Snapshot.binding? name)

section

variable {vars : Namespace} {name : String} {sn : Snapshot} {sns gone : List Snapshot}

@[simp] theorem restoreAll_nil (vars : Namespace) : restoreAll vars [] = vars := rfl

theorem restoreAll_append (vars : Namespace) (sns gone : List Snapshot) :
    restoreAll vars (sns ++ gone) = restoreAll (restoreAll vars sns) gone := List.foldl_append

theorem lowest?_append : lowest? name (sns ++ gone) = (lowest? name gone).or (lowest? name sns) := by
  rw [lowest?, List.reverse_append, List.findSome?_append]
  rfl

theorem get?_restore : (Snapshot.restore vars sn).get? name = (sn.binding? name).getD (vars.get? name) := by
  cases sn with
  | loop opener saved => exact Namespace.get?_restore vars saved name
  | call site saved => rfl

/-- **The lowest snapshot wins**: a name is bound as the lowest snapshot says that covers it, and as before if
none does. -/
theorem get?_restoreAll : (restoreAll vars sns).get? name = (lowest? name sns).getD (vars.get? name) := by
  induction sns generalizing vars with
  | nil => rfl
  | cons sn sns ih =>
    change (restoreAll (Snapshot.restore vars sn) sns).get? name = (lowest? name ([sn] ++ sns)).getD _
    rw [ih, get?_restore, lowest?_append]
    cases lowest? name sns with
    | some b => rfl
    | none =>
      change _ = (([sn].reverse.findSome? (Snapshot.binding? name))).getD _
      cases h : sn.binding? name <;> simp [h]

/-- The caller's variables, given back by the lowest call, are those that the loops around it leave. -/
theorem restoreAll_call (inner : List Snapshot) (site : Address) (saved : Namespace) (outer : List Snapshot) :
    restoreAll vars (inner ++ .call site saved :: outer) = restoreAll saved outer := by
  rw [restoreAll_append]
  rfl

end

/-! ## 2. Snapshots of a session -/

/-- What leaving a construct gives back. -/
def Frame.snapshot? : Frame → Option Snapshot
  | .loop l => some (.loop l.opener l.saved)
  | .conditional _ | .guarded _ => none

/-- What leaving constructs gives back. -/
def snapshotsIn (fs : List Frame) : List Snapshot := fs.filterMap Frame.snapshot?

theorem snapshotsIn_append (fs gs : List Frame) : snapshotsIn (fs ++ gs) = snapshotsIn fs ++ snapshotsIn gs :=
  List.filterMap_append

/-- What ending a call gives back. -/
def Call.snapshots (c : Call) : List Snapshot := snapshotsIn c.blocks ++ [.call c.returnTo c.saved]

namespace Session

/-- What leaving everything gives back, innermost first. -/
def snapshots (s : Session) : List Snapshot := s.calls.flatMap Call.snapshots ++ snapshotsIn s.base

/-- What leaving all but the innermost constructs gives back. -/
def around (s : Session) : List Snapshot :=
  match s.calls with
  | [] => []
  | c :: calls => .call c.returnTo c.saved :: (calls.flatMap Call.snapshots ++ snapshotsIn s.base)

/-- Constructs and calls are left, and what they had saved is given back. -/
def Unwinds (s s' : Session) : Prop :=
  ∃ gone, s.snapshots = gone ++ s'.snapshots ∧ s'.vars = restoreAll s.vars gone

/-- Variables change, and then constructs and calls are left. -/
def Lowers (s s' : Session) : Prop := ∃ v, (s.withVars v).Unwinds s'

/-- No loop and no call is entered or left, and no variable changes. -/
def Still (s s' : Session) : Prop := s'.snapshots = s.snapshots ∧ s'.vars = s.vars

/-- No loop and no call is entered or left. -/
def SameSnapshots (s s' : Session) : Prop := s'.snapshots = s.snapshots

variable {s s' t : Session} {f : Frame} {fs : List Frame} {v : Namespace}

theorem snapshots_eq (s : Session) : s.snapshots = snapshotsIn s.blocks ++ s.around := by
  unfold snapshots around blocks
  cases s.calls with
  | nil => simp
  | cons c calls => simp [Call.snapshots]

@[simp] theorem around_setBlocks (s : Session) (bs : List Frame) : (s.setBlocks bs).around = s.around := by
  unfold setBlocks around
  cases s.calls <;> rfl

theorem snapshots_setBlocks (s : Session) (bs : List Frame) :
    (s.setBlocks bs).snapshots = snapshotsIn bs ++ s.around := by
  rw [snapshots_eq, blocks_setBlocks, around_setBlocks]

@[simp] theorem snapshots_withVars (s : Session) (v : Namespace) : (s.withVars v).snapshots = s.snapshots := rfl

/-- Constructs change that save nothing. -/
theorem snapshots_of_blocks {bs : List Frame} (h : snapshotsIn bs = snapshotsIn s.blocks) :
    (s.setBlocks bs).snapshots = s.snapshots := by
  rw [snapshots_setBlocks, h, ← snapshots_eq]

theorem snapshots_updateTop {f : Frame → Frame} (h : ∀ top, (f top).snapshot? = top.snapshot?) :
    (s.updateTop f).snapshots = s.snapshots ∧ (s.updateTop f).vars = s.vars := by
  unfold updateTop
  cases hb : s.blocks with
  | nil => exact ⟨rfl, rfl⟩
  | cons top rest =>
    refine ⟨snapshots_of_blocks ?_, vars_setBlocks _ _⟩
    rw [hb, snapshotsIn, snapshotsIn, List.filterMap_cons, List.filterMap_cons, h]

theorem vars_discard (s : Session) (f : Frame) : (s.discard f).vars = restoreAll s.vars (snapshotsIn [f]) := by
  cases f with
  | conditional _ | loop _ => rfl
  | guarded t =>
    unfold discard
    dsimp only
    split <;> rfl

theorem vars_discardAll (s : Session) (fs : List Frame) :
    (s.discardAll fs).vars = restoreAll s.vars (snapshotsIn fs) := by
  induction fs generalizing s with
  | nil => rfl
  | cons f fs ih =>
    rw [discardAll_cons, ih, vars_discard, ← restoreAll_append, ← snapshotsIn_append]
    rfl

theorem snapshots_discardAll (s : Session) (fs : List Frame) : (s.discardAll fs).snapshots = s.snapshots := by
  rw [snapshots, calls_discardAll, base_discardAll, ← snapshots]

/-! ## 3. Leaving constructs and calls -/

theorem Unwinds.of_eq (hs : s'.snapshots = s.snapshots) (hv : s'.vars = s.vars) : s.Unwinds s' :=
  ⟨[], hs.symm, hv⟩

theorem Unwinds.refl (s : Session) : s.Unwinds s := .of_eq rfl rfl

theorem Unwinds.trans (h : s.Unwinds s') (h' : s'.Unwinds t) : s.Unwinds t := by
  obtain ⟨gone, hs, hv⟩ := h
  obtain ⟨gone', hs', hv'⟩ := h'
  exact ⟨gone ++ gone', by rw [hs, hs', List.append_assoc], by rw [hv', hv, restoreAll_append]⟩

/-- **Constructs are left** by giving back what they had saved. -/
theorem unwinds_drop (s : Session) (n : Nat) : s.Unwinds (s.drop n) := by
  refine ⟨snapshotsIn (s.blocks.take n), ?_, ?_⟩
  · rw [drop, snapshots_discardAll, snapshots_setBlocks, ← List.append_assoc, ← snapshotsIn_append,
      List.take_append_drop, snapshots_eq]
  · rw [drop, vars_discardAll, vars_setBlocks]

/-- **A call is ended** by giving back what its constructs had saved, and then the caller's variables. -/
theorem unwinds_abortCall (s : Session) : s.Unwinds s.abortCall := by
  unfold abortCall
  cases hc : s.calls with
  | nil => exact .refl s
  | cons c calls =>
    refine ⟨c.snapshots, ?_, ?_⟩
    · rw [snapshots, hc, List.flatMap_cons, List.append_assoc]
      change _ = _ ++ (calls.flatMap Call.snapshots ++ snapshotsIn (s.discardAll c.blocks).base)
      rw [base_discardAll]
    · rw [Call.snapshots, restoreAll_call]
      rfl

theorem unwinds_abortCalls (s : Session) (k : Nat) : s.Unwinds (s.abortCalls k) := by
  induction k generalizing s with
  | zero => exact .refl s
  | succ k ih => exact s.unwinds_abortCall.trans (ih _)

theorem unwinds_markReturning (s : Session) : s.Unwinds s.markReturning := by
  refine (s.unwinds_drop s.blocks.length).trans ?_
  unfold markReturning
  dsimp only
  split
  · exact .refl _
  · rename_i c calls hc
    refine .of_eq ?_ rfl
    rw [snapshots, snapshots, hc]
    rfl

/-- Leaving everything gives every snapshot back. -/
theorem unwinds_abandon (s : Session) : s.Unwinds s.abandon ∧ s.abandon.snapshots = [] := by
  have hcalls : s.abandon.calls = [] := by
    change ((s.abortCalls s.calls.length).drop _).calls = []
    rw [drop, calls_discardAll, setBlocks]
    have : (s.abortCalls s.calls.length).calls = [] := by rw [calls_abortCalls, List.drop_length]
    rw [this]
  refine ⟨((s.unwinds_abortCalls _).trans (unwinds_drop _ _)).trans (.of_eq rfl rfl), ?_⟩
  rw [snapshots_eq, blocks_abandon, around, hcalls]
  rfl

theorem unwinds_unwindThrough (calls : List Call) : ∀ s : Session, s.Unwinds (s.unwindThrough calls).2 := by
  induction calls with
  | nil => exact fun s => s.unwinds_drop _
  | cons c calls ih =>
    intro s
    unfold unwindThrough
    split
    · exact s.unwinds_drop _
    · split
      · exact s.unwinds_drop _
      · exact ((s.unwinds_drop _).trans (unwinds_abortCall _)).trans (ih _)

/-- The way to the innermost try that takes part leaves constructs and calls. -/
theorem unwinds_unwindToTry (s : Session) : s.Unwinds s.unwindToTry.2 := unwinds_unwindThrough s.calls s

theorem Unwinds.lowers (h : s.Unwinds s') : s.Lowers s' := ⟨s.vars, h⟩

theorem SameSnapshots.lowers (h : s.SameSnapshots s') : s.Lowers s' := ⟨s'.vars, .of_eq h rfl⟩

theorem Lowers.trans (h : s.Lowers s') (h' : s'.Unwinds t) : s.Lowers t := by
  obtain ⟨v, hv⟩ := h
  exact ⟨v, hv.trans h'⟩

theorem SameSnapshots.trans_lowers (h : s.SameSnapshots s') (h' : s'.Lowers t) : s.Lowers t := by
  obtain ⟨v, gone, hs, hv⟩ := h'
  exact ⟨v, gone, by rw [snapshots_withVars, ← h]; exact hs, hv⟩

end Session

/-! ## 4. Actions within a course -/

/-- A relation of sessions that holds across changes in turn, and across those that neither enter nor leave a
loop or a call nor change a variable. -/
class Session.Course (R : Session → Session → Prop) : Prop extends Session.Way R where
  quiet {s s' : Session} : s'.snapshots = s.snapshots → s'.vars = s.vars → R s s'

instance : Session.Course Session.Still where
  refl _ := ⟨rfl, rfl⟩
  trans h h' := ⟨h'.1.trans h.1, h'.2.trans h.2⟩
  quiet := .intro

instance : Session.Course Session.Unwinds where
  refl := .refl
  trans := .trans
  quiet := .of_eq

instance : Session.Course Session.SameSnapshots where
  refl _ := rfl
  trans h h' := h'.trans h
  quiet h _ := h

namespace Action

variable {α β : Type}

namespace Within

variable {R : Session → Session → Prop} [Session.Course R]

theorem quiet {f : Session → Session} (hs : ∀ s, (f s).snapshots = s.snapshots) (hv : ∀ s, (f s).vars = s.vars) :
    (Action.change f).Within R := fun s => Session.Course.quiet (hs s) (hv s)

theorem goTo (a : Address) : (Action.goTo a).Within R := quiet (fun _ => rfl) fun _ => rfl

theorem block (a : Address) : (Action.block a).Within R := by
  refine (ask _).bind fun b? => ?_
  split
  · exact pure _
  · exact (ask _).bind fun _ => fail _

theorem goToPart (a? : Option Address) (what : String) : (Action.goToPart a? what).Within R := by
  unfold Action.goToPart
  split
  · exact goTo _
  · exact fail _

theorem requireActive (expected : Option Address) : (Action.requireActive expected).Within R := by
  refine get.bind fun s => ite (pure _) (fail _)

theorem topLoop : Action.topLoop.Within R := by
  refine (ask _).bind fun blocks => ?_
  split
  · exact pure _
  · exact fail _

theorem updateTry (f : TryFrame → TryFrame) : (Action.change fun s => s.updateTry f).Within R :=
  have h := fun s => Session.snapshots_updateTop (s := s) fun top => by cases top <;> rfl
  quiet (fun s => (h s).1) fun s => (h s).2

/-- Loops go on that keep what they have saved. -/
theorem updateLoop {f : LoopFrame → LoopFrame} (hf : ∀ l, (f l).opener = l.opener ∧ (f l).saved = l.saved) :
    (Action.change fun s => s.updateLoop f).Within R :=
  have h := fun s => Session.snapshots_updateTop (s := s) fun top => by
    cases top with
    | conditional _ | guarded _ => rfl
    | loop l => exact congrArg₂ (fun a saved => some (Snapshot.loop a saved)) (hf l).1 (hf l).2
  quiet (fun s => (h s).1) fun s => (h s).2

theorem updateIf (f : IfFrame → IfFrame) : (Action.change fun s => s.updateIf f).Within R :=
  have h := fun s => Session.snapshots_updateTop (s := s) fun top => by cases top <;> rfl
  quiet (fun s => (h s).1) fun s => (h s).2

/-- Constructs are entered that save nothing. -/
theorem push {f : Session → Session} {fr : Frame} (hf : ∀ s, (f s).snapshots = (s.push fr).snapshots)
    (hv : ∀ s, (f s).vars = s.vars) (hfr : fr.snapshot? = none) : (Action.change f).Within R := by
  refine quiet (fun s => (hf s).trans (Session.snapshots_of_blocks ?_)) hv
  rw [snapshotsIn, List.filterMap_cons, hfr, snapshotsIn]

end Within

theorem OnlyVars.sameSnapshots {m : Action α} (h : m.OnlyVars) : m.Within Session.SameSnapshots := fun s => by
  obtain ⟨v, hv⟩ := h s
  rw [hv]
  rfl

theorem OnlyVars.lowers {m : Action α} (h : m.OnlyVars) : m.Within Session.Lowers :=
  fun s => (h.sameSnapshots s).lowers

namespace Within

theorem sameSnapshots_bind {m : Action α} {f : α → Action β} (hm : m.Within Session.SameSnapshots)
    (hf : ∀ a, (f a).Within Session.Lowers) : (m >>= f).Within Session.Lowers :=
  .bind_of hm hf Session.SameSnapshots.lowers Session.SameSnapshots.trans_lowers

theorem lowers_bind {m : Action α} {f : α → Action β} (hm : m.Within Session.Lowers)
    (hf : ∀ a, (f a).Within Session.Unwinds) : (m >>= f).Within Session.Lowers :=
  .bind_of hm hf id .trans

theorem lowers {m : Action α} (h : m.Within Session.Unwinds) : m.Within Session.Lowers := fun s => (h s).lowers

end Within

end Action

section

open BlockFlow.Flow.Action

variable {g : Setting} {a : Address} {s : Session} {R : Session → Session → Prop} [Session.Course R]

/-! ## 5. Commands that leave constructs -/

theorem enterCleanup_within (work : Work) : (enterCleanup work).Within R := by
  refine .bind (.ask _) fun blocks => ?_
  split
  · exact .bind (.updateTry _) fun _ => .bind (.block _) fun _ =>
      .bind (.quiet (fun _ => rfl) fun _ => rfl) fun _ => .goToPart _ _
  · exact .fail _

theorem resumeTransfer_unwinds (origin : Address) (goal : Goal) :
    (resumeTransfer origin goal).Within Session.Unwinds := by
  refine .bind (.ask _) fun cleanup? => ?_
  split
  · exact .bind (.change fun s => (s.unwinds_abortCalls _).trans (Session.unwinds_drop _ _)) fun _ =>
      enterCleanup_within _
  · exact .goTo _

/-- A transfer that has to wait leaves constructs, and one that has not changes nothing. -/
theorem deferTransfer_ends (s : Session) (goal : Goal) :
    (deferTransfer a goal).Ends s fun r t => s.Unwinds t ∧ (r = .ok false → t = s) := by
  have hway : Ends (if s.nesting > -1 ∧ (s.cleanup? goal).isSome then do
        resumeTransfer a goal
        pure true
      else pure false) s fun r t => s.Unwinds t ∧ (r = .ok false → t = s) := by
    split
    · rw [ends_bind]
      refine Ends.mono (Q := fun _ t => s.Unwinds t) (resumeTransfer_unwinds a goal s) fun r t h => ?_
      cases r with
      | error f => exact ⟨h, by rintro ⟨⟩⟩
      | ok _ => exact ⟨h, by rintro ⟨⟩⟩
    · exact ⟨.refl s, fun _ => rfl⟩
  unfold deferTransfer
  rw [ends_bind, ends_getThe]
  dsimp only
  split
  · split
    · exact ⟨.of_eq rfl rfl, by rintro ⟨⟩⟩
    · exact hway
  · exact hway

theorem deferTransfer_unwinds (goal : Goal) : (deferTransfer a goal).Within Session.Unwinds :=
  fun s => (deferTransfer_ends s goal).1

theorem resumeDeferred_unwinds (tryAt : Address) : (resumeDeferred tryAt).Within Session.Unwinds := by
  refine .bind .get fun s => ?_
  split
  · refine .ite (.bind (.quiet (fun _ => rfl) fun _ => rfl) fun _ => ?_) (.pure _)
    split
    · exact .throw _
    · exact resumeTransfer_unwinds _ _
  · exact .pure _

theorem leaveTop_unwinds : leaveTop.Within Session.Unwinds := .change fun s => s.unwinds_drop 1

theorem unwindToLoop_unwinds : unwindToLoop.Within Session.Unwinds := by
  refine .bind (.change fun s => s.unwinds_drop _) fun _ => .bind (.ask _) fun blocks => ?_
  split
  · exact .pure _
  · exact .fail _

theorem owningIf_within (a : Address) : (owningIf a).Within R :=
  .bind (.block a) fun _ => .bind (.requireActive _) fun _ => .block _

theorem leaveIf_unwinds (a : Address) : (leaveIf a).Within Session.Unwinds :=
  .bind (owningIf_within a).discard fun _ => leaveTop_unwinds

theorem closeLoop_unwinds (a : Address) : (closeLoop a).Within Session.Unwinds :=
  .bind (.block a) fun _ => .bind (.requireActive _) fun _ => .bind .topLoop fun _ =>
    .ite leaveTop_unwinds (.bind (.updateLoop fun _ => ⟨rfl, rfl⟩) fun _ => .goToPart _ _)

/-- Variables change, and then constructs are left. -/
theorem loopToLeave?_lowers (guard : String) : (loopToLeave? g a guard).Within Session.Lowers :=
  .lowers_bind (OnlyVars.guardHolds g guard).lowers fun _ => .ite (.pure _) <|
    .bind (deferTransfer_unwinds _) fun _ => .ite (.pure _) (.bind unwindToLoop_unwinds fun _ => .pure _)

theorem breakLoop_lowers (guard : String) : (breakLoop g a guard).Within Session.Lowers := by
  refine .lowers_bind (loopToLeave?_lowers guard) fun l? => ?_
  split
  · exact .bind (.updateLoop fun _ => ⟨rfl, rfl⟩) fun _ => .bind (.block _) fun _ => .goToPart _ _
  · exact .pure _

theorem continueLoop_lowers (guard : String) : (continueLoop g a guard).Within Session.Lowers := by
  refine .lowers_bind (loopToLeave?_lowers guard) fun l? => ?_
  split
  · exact .bind (.updateLoop fun _ => ⟨rfl, rfl⟩) fun _ => .goTo _
  · exact .pure _

theorem exitRun_unwinds (a : Address) : (exitRun a).Within Session.Unwinds :=
  .bind (deferTransfer_unwinds _) fun _ => .ite (.quiet (fun _ => rfl) fun _ => rfl) (.pure _)

/-- The result is stored before the constructs of the function are left. -/
theorem returnFrom_lowers (expr : String) : (returnFrom g a expr).Within Session.Lowers := by
  refine .sameSnapshots_bind (.block a) fun b => .sameSnapshots_bind (.ask _) fun callee? =>
    .ite (Action.Within.lowers (.pure _)) fun s => ?_
  have hends : Ends (do
      if ← deferTransfer a .function then return
      storeResult g expr
      let returnTo? ← ask fun s => s.calls.head?.map Call.returnTo
      change Session.markReturning
      goToPart returnTo? "call") s fun _ t => s.Lowers t := by
    rw [ends_bind]
    refine (deferTransfer_ends s .function).mono ?_
    rintro r t ⟨hunwinds, hsame⟩
    cases r with
    | error f => exact hunwinds.lowers
    | ok waits =>
      cases waits with
      | true => exact hunwinds.lowers
      | false =>
        cases hsame rfl
        exact Action.Within.lowers_bind (OnlyVars.storeResult g expr).lowers (fun _ => .bind (.ask _) fun _ =>
          .bind (.change Session.unwinds_markReturning) fun _ => .goToPart _ _) s
  exact hends

theorem Session.snapshots_leaveTry {t : TryFrame} {rest : List Frame} (hs : s.blocks = .guarded t :: rest) :
    (s.leaveTry t rest).snapshots = s.snapshots :=
  Session.snapshots_of_blocks (by rw [hs]; rfl)

/-- The closer of a try leaves the try, and then what the work leaves that it takes up. -/
theorem leaveTry_lowers (h : s.Ready) (hk : s.suite.keywordAt? a = some .endTry) :
    (leaveTry a).Ends s fun _ t => s.Lowers t := by
  refine ownTry_ends h hk rfl ?_ fun _ => (Session.Unwinds.refl s).lowers
  intro t rest b c hs _ _ _ _ _ _ _
  refine closeTry_ends hs fun v _ => ?_
  have hleft : (s.withVars v).Unwinds ((s.leaveTry t rest).withVars v) := .of_eq (Session.snapshots_leaveTry hs) rfl
  have hworks : (if t.isActive then resumeDeferred t.opener else pure () : Action Unit).Within Session.Unwinds :=
    .ite (resumeDeferred_unwinds _) (.pure _)
  exact ⟨v, hleft.trans (hworks _)⟩

end

end BlockFlow.Flow
