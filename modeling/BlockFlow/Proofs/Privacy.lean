/-
# Callees do not see their callers

What is saved for a caller is read again only when the call ends.  So two runs that differ in nothing else go on
alike as long as the call is running, whatever its function does: it may call other functions, leave loops, fail or
put transfers off (`callees_see_no_callers`).

`Action.BlindWhile` says of an action that it sees nothing of what is veiled, unless it ends the call; then nothing
is claimed but that it does so in both runs.  It holds of every command (`BlindWhile.dispatch`), of the handling of
faults (`alike_handleFault`) and so of steps (`alike_step`).  `Moment.course` is what a run shows up to the step that
ends the call.
-/
import BlockFlow.Proofs.Returns
import BlockFlow.Proofs.Veils

namespace BlockFlow.Flow

open BlockFlow.Flow.Action

/-! ## 1. Calls that end -/

/-- Whether a snapshot is given back by a call. -/
def Snapshot.isCall : Snapshot → Bool
  | .call _ _ => true
  | .loop _ _ => false

namespace Session

variable {n : Nat} {s t : Session}

theorem countP_snapshotsIn (fs : List Frame) : (snapshotsIn fs).countP Snapshot.isCall = 0 := by
  rw [List.countP_eq_zero]
  intro sn hsn
  obtain ⟨f, -, hf⟩ := List.mem_filterMap.1 hsn
  cases f <;> cases hf
  exact Bool.false_ne_true

theorem countP_snapshots (s : Session) : s.snapshots.countP Snapshot.isCall = s.calls.length := by
  have hcalls (calls : List Call) : (calls.flatMap Call.snapshots).countP Snapshot.isCall = calls.length := by
    induction calls with
    | nil => rfl
    | cons c calls ih =>
      rw [List.flatMap_cons, List.countP_append, ih, Call.snapshots, List.countP_append, countP_snapshotsIn,
        List.length_cons, Nat.zero_add, Nat.add_comm]
      rfl
  rw [snapshots, List.countP_append, hcalls, countP_snapshotsIn, Nat.add_zero]

/-- Leaving constructs and calls makes no call. -/
theorem Lowers.length_calls (h : s.Lowers t) : t.calls.length ≤ s.calls.length := by
  obtain ⟨v, gone, hgone, -⟩ := h
  rw [← t.countP_snapshots, ← s.countP_snapshots, ← s.snapshots_withVars v, hgone, List.countP_append]
  exact Nat.le_add_left _ _

/-- Nothing is veiled outside of no call. -/
@[simp] theorem veil_zero (s : Session) : s.veil 0 = s := by
  have hcalls (calls : List Call) : veilCalls 0 calls = calls := by
    induction calls with
    | nil => rfl
    | cons c calls ih => rw [veilCalls_inner (Nat.zero_le _), ih]
  rw [veil, hcalls, if_pos rfl]

end Session

/-- What comes of a session and of the veiled one: the same, veiled, or a session without the call. -/
def Alike {α : Type} (n : Nat) (x y : α × Session) : Prop :=
  (n ≤ x.2.calls.length ∧ y = (x.1, x.2.veil n)) ∨ (x.2.calls.length < n ∧ y.2.calls.length < n)

/-- What comes of alike sessions is alike, if it sees nothing of what is veiled and makes no call. -/
theorem Alike.andThen {α β : Type} {n : Nat} {x y : α × Session} {f : α × Session → β × Session} (h : Alike n x y)
    (hf : ∀ r s, n ≤ s.calls.length → Alike n (f (r, s)) (f (r, s.veil n)))
    (hlow : ∀ p, (f p).2.calls.length ≤ p.2.calls.length) : Alike n (f x) (f y) := by
  rcases h with ⟨hkeeps, rfl⟩ | ⟨h, h'⟩
  · exact hf x.1 x.2 hkeeps
  · exact .inr ⟨(hlow x).trans_lt h, (hlow y).trans_lt h'⟩

namespace Action

variable {α β : Type} {n : Nat}

/-- **The action sees nothing of what is veiled** as long as the call is running, which it may end. -/
def BlindWhile (n : Nat) (m : Action α) : Prop :=
  ∀ s : Session, n ≤ s.calls.length → Alike n (m s) (m (s.veil n))

theorem Blind.blindWhile {m : Action α} (h : m.Blind n) : m.BlindWhile n := fun s hs => .inl (h s hs)

namespace BlindWhile

theorem bind_of_blind {m : Action α} {f : α → Action β} (hm : m.Blind n) (hf : ∀ a, (f a).BlindWhile n) :
    (m >>= f).BlindWhile n := fun s hs => by
  obtain ⟨hkeeps, hsame⟩ := hm s hs
  rw [bind_apply, bind_apply, hsame]
  generalize m s = r at hkeeps
  rcases r with ⟨_ | a, t⟩
  · exact .inl ⟨hkeeps, rfl⟩
  · exact hf a t hkeeps

/-- What comes after a call was ended makes no call. -/
theorem bind {m : Action α} {f : α → Action β} (hm : m.BlindWhile n) (hf : ∀ a, (f a).BlindWhile n)
    (hlow : ∀ a, (f a).Within Session.Lowers) : (m >>= f).BlindWhile n := fun s hs => by
  have hsame := hm s hs
  rw [bind_apply, bind_apply]
  generalize m s = x at hsame
  generalize m (s.veil n) = y at hsame
  apply hsame.andThen
  · rintro (e | a) t ht
    · exact .inl ⟨ht, rfl⟩
    · exact hf a t ht
  · rintro ⟨_ | a, t⟩
    · exact le_rfl
    · exact (hlow a t).length_calls

theorem ite {c : Prop} [Decidable c] {m m' : Action α} (hm : m.BlindWhile n) (hm' : m'.BlindWhile n) :
    (if c then m else m').BlindWhile n := by
  split
  · exact hm
  · exact hm'

theorem get_bind {f : Session → Action β} (hsame : ∀ s : Session, n ≤ s.calls.length → f (s.veil n) = f s)
    (hf : ∀ s, (f s).BlindWhile n) : (getThe Session >>= f : Action β).BlindWhile n := fun s hs => by
  rw [bind_apply, bind_apply]
  change Alike n (f s s) (f (s.veil n) (s.veil n))
  rw [hsame s hs]
  exact hf s s hs

/-- Ending calls. -/
theorem change {f : Session → Session} (h : ∀ s : Session, n ≤ s.calls.length →
    (n ≤ (f s).calls.length ∧ f (s.veil n) = (f s).veil n) ∨
      ((f s).calls.length < n ∧ (f (s.veil n)).calls.length < n)) : (Action.change f).BlindWhile n := fun s hs => by
  rcases h s hs with ⟨hkeeps, hsame⟩ | hends
  · exact .inl ⟨hkeeps, congrArg (fun t => (Except.ok (), t)) hsame⟩
  · exact .inr hends

/-! ## 2. Commands that may end calls -/

theorem abort (hn : 0 < n) (calls constructs : Nat) :
    (Action.change fun s => (s.abortCalls calls).drop constructs).BlindWhile n := by
  refine change fun s hs => ?_
  rw [Session.length_calls_drop, Session.length_calls_drop, Session.calls_abortCalls, Session.calls_abortCalls,
    List.length_drop, List.length_drop, Session.length_calls_veil]
  by_cases hk : n + calls ≤ s.calls.length
  · refine .inl ⟨by omega, ?_⟩
    rw [Session.abortCalls_veil hk, Session.drop_veil]
    rw [Session.calls_abortCalls, List.length_drop]
    omega
  · exact .inr ⟨by omega, by omega⟩

theorem resumeTransfer (hn : 0 < n) (origin : Address) (goal : Goal) :
    (Flow.resumeTransfer origin goal).BlindWhile n := by
  refine bind_of_blind (.ask fun s hs => Session.cleanup?_veil hs goal) fun cleanup? => ?_
  split
  · exact bind (abort hn _ _) (fun _ => (Blind.enterCleanup _).blindWhile) fun _ => (enterCleanup_within _).lowers
  · exact (Blind.goTo _).blindWhile

theorem deferTransfer (hn : 0 < n) (here : Address) (goal : Goal) : (Flow.deferTransfer here goal).BlindWhile n := by
  have hway (s : Session) : (if s.nesting > -1 ∧ (s.cleanup? goal).isSome then do
        Flow.resumeTransfer here goal
        pure true
      else pure false : Action Bool).BlindWhile n :=
    ite (bind (resumeTransfer hn _ _) (fun _ => (Blind.pure _).blindWhile) fun _ => (Within.pure _).lowers)
      (Blind.pure _).blindWhile
  refine get_bind (fun s hs => ?_) fun s => ?_
  · rw [Session.deferred_veil, Session.nesting_veil, Session.cleanup?_veil hs]
    simp only [Session.leavesCleanup_veil hs]
  · dsimp only
    split
    · refine ite ?_ (hway s)
      exact bind_of_blind (.change fun _ hs => ⟨hs, rfl⟩) fun _ => (Blind.pure _).blindWhile
    · exact hway s

theorem resumeDeferred (hn : 0 < n) (tryAt : Address) : (Flow.resumeDeferred tryAt).BlindWhile n := by
  refine get_bind (fun s _ => ?_) fun s => ?_
  · rw [Session.deferred_veil, Session.depth_veil]
  · split
    · refine ite (bind_of_blind (.change fun _ hs => ⟨hs, rfl⟩) fun _ => ?_) (Blind.pure _).blindWhile
      split
      · exact (Blind.throw _).blindWhile
      · exact resumeTransfer hn _ _
    · exact (Blind.pure _).blindWhile

theorem leaveTry (hn : 0 < n) (a : Address) : (Flow.leaveTry a).BlindWhile n := by
  refine bind_of_blind (.block a) fun _ => bind_of_blind (.requireActive _) fun _ => bind_of_blind .clearError fun _ =>
    bind_of_blind .blocks fun blocks => bind_of_blind (.change fun s hs => ⟨?_, ?_⟩) fun _ => ?_
  · rwa [Session.length_calls_setBlocks]
  · exact Session.setBlocks_veil hs _
  · split
    · exact ite (bind_of_blind (.change fun _ hs => ⟨hs, rfl⟩) fun _ => resumeDeferred hn _) (Blind.pure _).blindWhile
    · exact (Blind.fail _).blindWhile

variable (g : Setting) (a : Address)

theorem loopToLeave? (hn : 0 < n) (guard : String) : (Flow.loopToLeave? g a guard).BlindWhile n :=
  bind_of_blind (.guardHolds g guard) fun _ => ite (Blind.pure _).blindWhile <|
    bind (deferTransfer hn a _)
      (fun _ => (Blind.ite (.pure _) (.bind .unwindToLoop fun _ => .pure _)).blindWhile)
      fun _ => (Within.ite (.pure _) (.bind unwindToLoop_unwinds fun _ => .pure _)).lowers

/-- What follows once it is known which loop to leave. -/
theorem after_loopToLeave? (hn : 0 < n) {guard : String} {f : Option LoopFrame → Action Unit}
    (hf : ∀ l?, (f l?).Blind n) (hlow : ∀ l?, (f l?).Within Session.Unwinds) :
    (Flow.loopToLeave? g a guard >>= f).BlindWhile n :=
  bind (loopToLeave? g a hn guard) (fun l? => (hf l?).blindWhile) fun l? => (hlow l?).lowers

theorem breakLoop (hn : 0 < n) (guard : String) : (Flow.breakLoop g a guard).BlindWhile n := by
  refine after_loopToLeave? g a hn (fun l? => ?_) fun l? => ?_
  all_goals split
  · exact (Blind.updateTop fun _ => rfl).bind fun _ => .bind (.block _) fun _ => .goToPart _ _
  · exact .pure _
  · exact .bind (.updateLoop fun _ => ⟨rfl, rfl⟩) fun _ => .bind (.block _) fun _ => .goToPart _ _
  · exact .pure _

theorem continueLoop (hn : 0 < n) (guard : String) : (Flow.continueLoop g a guard).BlindWhile n := by
  refine after_loopToLeave? g a hn (fun l? => ?_) fun l? => ?_
  all_goals split
  · exact (Blind.updateTop fun _ => rfl).bind fun _ => .goTo _
  · exact .pure _
  · exact .bind (.updateLoop fun _ => ⟨rfl, rfl⟩) fun _ => .goTo _
  · exact .pure _

theorem exitRun (hn : 0 < n) : (Flow.exitRun a).BlindWhile n :=
  bind (deferTransfer hn a _) (fun _ => Blind.blindWhile (.ite (.change fun _ hs => ⟨hs, rfl⟩) (.pure _)))
    fun _ => .lowers (.ite (.quiet (fun _ => rfl) fun _ => rfl) (.pure _))

theorem returnFrom (hn : 0 < n) (expr : String) : (Flow.returnFrom g a expr).BlindWhile n := by
  refine bind_of_blind (.block a) fun _ => bind_of_blind (.ask fun _ _ => Session.callee?_veil) fun _ =>
    ite (Blind.pure _).blindWhile <| bind (deferTransfer hn a _) (fun _ => ?_) fun _ => ?_
  · refine (Blind.ite (.pure _) (.bind (.storeResult g expr) fun _ => .bind (.ask fun s _ => ?_) fun _ =>
      .bind (.change fun s hs => ⟨?_, Session.markReturning_veil hs⟩) fun _ => .goToPart _ _)).blindWhile
    · unfold Session.veil
      cases s.calls <;> rfl
    · rwa [Session.length_calls_markReturning]
  · exact .ite (Within.pure _).lowers (.lowers_bind (OnlyVars.storeResult g expr).lowers fun _ =>
      .bind (.ask _) fun _ => .bind (.change Session.unwinds_markReturning) fun _ => .goToPart _ _)

theorem reachCall (hn : 0 < n) (name args : String) : (Flow.reachCall g a name args).BlindWhile n := by
  refine bind_of_blind (.ask fun _ _ => rfl) fun suite => ?_
  split
  · exact (Blind.fail _).blindWhile
  · refine bind_of_blind (.ask fun _ _ => Session.isReturningTo_veil a) fun _ => ite (change fun s hs => ?_) ?_
    · have hlength (t : Session) : t.finishCall.calls.length = t.calls.length - 1 := by
        rw [← List.length_tail, ← t.calls_abortCall]
        rfl
      rw [hlength, hlength, Session.length_calls_veil]
      by_cases hinner : n < s.calls.length
      · exact .inl ⟨Nat.le_pred_of_lt hinner, Session.finishCall_veil hinner⟩
      · exact .inr ⟨by omega, by omega⟩
    · refine (Blind.bind (.arguments g _ _) fun args =>
        .bind (.change fun s hs => ⟨?_, ?_⟩) fun _ => .goTo _).blindWhile
      · exact Nat.le_succ_of_le hs
      · exact Session.enterCall_veil hs _ _ _

/-- **Every flow command** sees nothing of what is veiled. -/
theorem perform (hn : 0 < n) (k : Keyword) (target value : String) :
    (Flow.perform g a k target value).BlindWhile n := by
  cases k
  case label => exact (Blind.pure _).blindWhile
  case goto => exact (Blind.goto a target).blindWhile
  case gotoIf => exact (Blind.gotoIf g a target value).blindWhile
  case skipNext => exact (Blind.skipNext g a target).blindWhile
  case ifThen => exact (Blind.enterIf g a target).blindWhile
  case elseIf => exact (Blind.reachElseIf g a target).blindWhile
  case otherwise => exact (Blind.reachElse a).blindWhile
  case endIf => exact (Blind.leaveIf a).blindWhile
  case tryBlock => exact (Blind.enterTry a).blindWhile
  case catchError => exact (Blind.reachCatch a).blindWhile
  case finallyDo => exact (Blind.reachFinally a).blindWhile
  case endTry => exact leaveTry hn a
  case «throwError» => exact (Blind.throwValue g target).blindWhile
  case whileLoop =>
    refine (Blind.reachLoop g a ?_).blindWhile
    split
    · exact .pure _
    · exact .fail _
  case forLoop =>
    refine (Blind.reachLoop g a ?_).blindWhile
    split
    · exact .pure _
    · exact .fail _
  case foreach => exact (Blind.reachLoop g a (.foreachHeader g target value)).blindWhile
  case forJson | forXml => exact (Blind.reachLoop g a (.recordsHeader g a _ _ target)).blindWhile
  case breakLoop => exact breakLoop g a hn target
  case continueLoop => exact continueLoop g a hn target
  case endWhile | endFor | endForeach | endForJson | endForXml => exact (Blind.closeLoop a).blindWhile
  case call => exact reachCall g a hn target value
  case function | script => exact (Blind.reachFunction a).blindWhile
  case returnValue => exact returnFrom g a hn target
  case endFunction | endScript => exact returnFrom g a hn ""
  case exitTest => exact exitRun a hn
  case loadJsonVars | loadXmlVars => exact (Blind.loadRecord g a _ target value).blindWhile

theorem dispatch (hn : 0 < n) : (Flow.dispatch g a).BlindWhile n := by
  refine bind_of_blind (.ask fun _ _ => rfl) fun units => ?_
  split
  · exact (Blind.throw _).blindWhile
  · split
    · exact perform g a hn _ _ _
    · exact (Blind.fail _).blindWhile

end BlindWhile

end Action

/-! ## 3. Faults -/

section

variable {n : Nat} {g : Setting}

/-- The way to the innermost try that takes part is the same, up to the call that is veiled. -/
theorem alike_unwindThrough (hn : 0 < n) (calls : List Call) : ∀ (calls' : List Call) (s : Session),
    calls'.length = calls.length → n ≤ s.calls.length →
    Alike n (s.unwindThrough calls) ((s.veil n).unwindThrough calls') := by
  have hshorter (calls : List Call) (t : Session) : (t.unwindThrough calls).2.calls.length ≤ t.calls.length :=
    (t.unwinds_unwindThrough calls).lowers.length_calls
  induction calls with
  | nil =>
    intro calls' s hlength hs
    obtain rfl := List.eq_nil_of_length_eq_zero hlength
    refine .inl ⟨by rwa [Session.unwindThrough, Session.length_calls_dropToTry], ?_⟩
    rw [Session.unwindThrough, Session.dropToTry_veil hs, Session.blocks_veil (by rwa [Session.length_calls_dropToTry])]
    rfl
  | cons c calls ih =>
    intro calls' s hlength hs
    obtain ⟨c', calls', rfl⟩ := List.exists_cons_of_length_eq_add_one hlength
    have hdrop : n ≤ s.dropToTry.calls.length := by rwa [Session.length_calls_dropToTry]
    unfold Session.unwindThrough
    rw [Session.dropToTry_veil hs, Session.blocks_veil hdrop, Session.nesting_veil]
    generalize s.dropToTry = t at hdrop
    split
    · exact .inl ⟨hdrop, rfl⟩
    · split
      · exact .inl ⟨hdrop, rfl⟩
      · by_cases hinner : n < t.calls.length
        · rw [Session.abortCall_veil hinner]
          refine ih calls' t.abortCall (Nat.succ.inj hlength) ?_
          rw [Session.calls_abortCall, List.length_tail]
          exact Nat.le_pred_of_lt hinner
        -- The innermost call that is veiled is ended on the way, and no call is made after that.
        · have hended (u : Session) (calls : List Call) (hu : u.calls.length = n) :
              (u.abortCall.unwindThrough calls).2.calls.length < n := by
            refine Nat.lt_of_le_of_lt (hshorter calls u.abortCall) ?_
            rw [Session.calls_abortCall, List.length_tail, hu]
            omega
          exact .inr ⟨hended t calls (by omega), hended _ calls' (by rw [Session.length_calls_veil]; omega)⟩

/-- **What becomes of a fault** is the same for the veiled session, unless the call ends. -/
theorem alike_handleFault (hn : 0 < n) (f : Fault) (s : Session) (hs : n ≤ s.calls.length) :
    Alike n (handleFault g f s) (handleFault g f (s.veil n)) := by
  unfold handleFault
  rw [Session.current_veil, Session.nesting_veil, Session.suite_veil]
  generalize s.current = current
  cases current <;> dsimp only
  case' some a => generalize f.attach (s.suite.commandRef a) = f
  all_goals
    split
    · exact .inl ⟨hs, rfl⟩
    · have hsame : Alike n s.unwindToTry (s.veil n).unwindToTry :=
        alike_unwindThrough hn s.calls _ s (length_veilCalls _) hs
      generalize s.unwindToTry = x at hsame
      generalize (s.veil n).unwindToTry = y at hsame
      apply hsame.andThen
      · rintro (_ | tryAt) t ht
        · exact .inl ⟨ht, rfl⟩
        · obtain ⟨hkeeps, hsame⟩ := Blind.catchOrPassOn g f tryAt t ht
          dsimp only
          rw [hsame]
          generalize catchOrPassOn g f tryAt t = r at hkeeps
          rcases r with ⟨_ | _, u⟩ <;> exact .inl ⟨hkeeps, rfl⟩
      · rintro ⟨_ | tryAt, t⟩
        · exact le_rfl
        · have hlow := (catchOrPassOn_same (g := g) (f := f) tryAt t).lowers.length_calls
          dsimp only at hlow ⊢
          rcases hr : catchOrPassOn g f tryAt t with ⟨_ | _, u⟩ <;> rw [hr] at hlow <;> exact hlow

/-- A fault makes no call. -/
theorem length_calls_handleFault (f : Fault) (s : Session) : (handleFault g f s).2.calls.length ≤ s.calls.length := by
  obtain ⟨u, hunwinds, hsettled, -⟩ := handleFault_unwinds g f s
  rw [← Session.countP_snapshots, ← hsettled, Session.countP_snapshots]
  exact hunwinds.lowers.length_calls

end

/-! ## 4. Steps -/

section

variable {σ : Type} {n : Nat} {g : Setting} {host : Host σ} {a : Address} {w : World σ}

theorem alike_execute (hn : 0 < n) (a : Address) (s : Session) (hs : n ≤ s.calls.length) :
    Alike n (s.execute g a) ((s.veil n).execute g a) := by
  have hsame := BlindWhile.dispatch g a hn { s with current := some a } hs
  unfold Session.execute
  rw [show ({ s.veil n with current := some a } : Session) = { s with current := some a }.veil n from rfl]
  generalize dispatch g a { s with current := some a } = x at hsame
  generalize dispatch g a (Session.veil n { s with current := some a }) = y at hsame
  apply hsame.andThen
  · rintro (_ | _) t ht <;> exact .inl ⟨ht, rfl⟩
  · rintro ⟨_ | _, t⟩ <;> exact le_rfl

/-- What comes of a world and of the one over the veiled session: alike sessions, and the same host. -/
def AlikeWorlds {α : Type} (n : Nat) (x y : α × World σ) : Prop :=
  y.2.host = x.2.host ∧ Alike n (x.1, x.2.session) (y.1, y.2.session)

variable (g host a) in
theorem alike_runCommand (hn : 0 < n) (hs : n ≤ w.session.calls.length) :
    AlikeWorlds n (w.runCommand g host a) (World.runCommand g host a { w with session := w.session.veil n }) := by
  have hexec : AlikeWorlds n (w.execute g a) (World.execute g a { w with session := w.session.veil n }) :=
    ⟨rfl, alike_execute hn a w.session hs⟩
  unfold World.runCommand
  dsimp only
  rw [Session.suite_veil]
  split
  · split
    · exact hexec
    · exact ⟨rfl, .inl ⟨hs, rfl⟩⟩
  · exact hexec

/-- What becomes of a step whose command fails with a fault. -/
def Disposition.result (f : Fault) : Disposition → StepResult
  | .handled => .handled f
  | .unhandled f => .unhandled f

/-- What follows a command: its fault, if it has one, is offered to the tries. -/
def settle (g : Setting) : Except Fault Unit × Session → StepResult × Session
  | (.ok (), s) => (.done, s)
  | (.error f, s) => ((handleFault g f s).1.result f, (handleFault g f s).2)

/-- A step runs a command and settles what comes of it. -/
theorem step_eq_settle {r : Except Fault Unit} {w' : World σ} (h : w.runCommand g host a = (r, w')) :
    w.step g host a = ((settle g (r, w'.session)).1, { w' with session := (settle g (r, w'.session)).2 }) := by
  unfold World.step settle World.handleFault
  rw [h]
  cases r with
  | ok _ => rfl
  | error f =>
    dsimp only
    rcases handleFault g f w'.session with ⟨_ | _, s⟩ <;> rfl

theorem alike_settle (hn : 0 < n) {x y : Except Fault Unit × Session} (h : Alike n x y) :
    Alike n (settle g x) (settle g y) := by
  apply h.andThen
  · rintro (f | _) t ht
    · rcases alike_handleFault (g := g) hn f t ht with ⟨hkeeps, hsame⟩ | hends
      · obtain ⟨hd, ht⟩ := Prod.mk.inj hsame
        exact .inl ⟨hkeeps, Prod.ext (congrArg (Disposition.result f) hd) ht⟩
      · exact .inr hends
    · exact .inl ⟨ht, rfl⟩
  · rintro ⟨f | _, t⟩
    · exact length_calls_handleFault f t
    · exact le_rfl

variable (g host a) in
/-- **A step sees nothing of what is veiled.** -/
theorem alike_step (hn : 0 < n) (hs : n ≤ w.session.calls.length) :
    AlikeWorlds n (w.step g host a) (World.step g host a { w with session := w.session.veil n }) := by
  obtain ⟨hhost, halike⟩ := alike_runCommand g host a hn hs
  rw [step_eq_settle rfl, step_eq_settle rfl]
  exact ⟨hhost, alike_settle hn halike⟩

end

/-! ## 5. What a run shows -/

/-- What a run shows of a command, and when: as long as a call is running, or when it ends. -/
inductive Shown (σ : Type)
  /-- A command ran and left the call running, with these variables and this state of the host. -/
  | ran (at_ : Address) (result : StepResult) (vars : Namespace) (host : σ)
  /-- A command ended the call, and handed over its result if that is what it did. -/
  | left (at_ : Address) (host : σ) (delivered : Option (Option Value))

namespace Moment

variable {σ : Type}

/-- The moment over the veiled session. -/
def veil (n : Nat) (m : Moment σ) : Moment σ := ⟨{ m.world with session := m.session.veil n }, m.following⟩

/-- What the caller has as a result after the next command, if that finishes the innermost call. -/
def delivered (m m' : Moment σ) (a : Address) : Option (Option Value) :=
  if m.session.isReturningTo a then some (m'.session.vars.get? Namespace.resultName) else none

/-- What a run shows of a number of commands, as long as its outermost calls, of a given number, are running. -/
def course (g : Setting) (host : Host σ) (calls : Nat) : Nat → Moment σ → List (Shown σ)
  | 0, _ => []
  | k + 1, m =>
    match m.next?, m.advance g host with
    | some a, some (x, m') =>
      if m'.session.calls.length < calls then [.left a m'.world.host (m.delivered m' a)]
      else
        .ran a x m'.session.vars m'.world.host ::
          match x with
          | .unhandled _ => []
          | _ => if m'.session.exitRequested then [] else course g host calls k m'
    | _, _ => []

end Moment

section

variable {σ : Type} {g : Setting} {host : Host σ} {m₀ m₁ m m' : Moment σ} {n : Nat}

/-- The next command of the veiled moment does what it does anyway, unless it ends the call. -/
theorem Moment.advance_veil (hn : 0 < n) (hs : n ≤ m.session.calls.length) {x : StepResult}
    (hadv : m.advance g host = some (x, m')) : ∃ y m'', (m.veil n).advance g host = some (y, m'') ∧
      m''.world.host = m'.world.host ∧ ((n ≤ m'.session.calls.length ∧ y = x ∧ m'' = m'.veil n) ∨
        (m'.session.calls.length < n ∧ m''.session.calls.length < n)) := by
  obtain ⟨a, hnext, heq⟩ := Option.map_eq_some_iff.1 hadv
  obtain ⟨rfl, rfl⟩ := Prod.mk.inj heq
  have hnext' : (m.veil n).next? = some a := hnext
  have hpoised : (m.veil n).poised = { m.poised with session := m.poised.session.veil n } := rfl
  obtain ⟨hhost, halike⟩ := alike_step g host a (w := m.poised) hn hs
  refine ⟨_, _, by rw [Moment.advance, hnext', hpoised]; rfl, hhost, ?_⟩
  rcases halike with ⟨hkeeps, hsame⟩ | hends
  · obtain ⟨hx, hsession⟩ := Prod.mk.inj hsame
    exact .inl ⟨hkeeps, hx, congrArg₂ (fun s σ => Moment.mk ⟨s, σ⟩ a.next) hsession hhost⟩
  · exact .inr hends

/-- A call that is finished hands over the result that its function has. -/
theorem Reachable.delivers (h : Reachable g host m₀ m) (hm₀ : m₀.Starts) {a : Address} (ha : m.next? = some a)
    (hended : m.session.isReturningTo a) {x : StepResult} (hadv : m.advance g host = some (x, m')) :
    m'.session.vars.get? Namespace.resultName = m.session.vars.get? Namespace.resultName := by
  obtain ⟨c, hc, hret⟩ := (Option.any_eq_true _ _).1 hended
  rw [Bool.and_eq_true] at hret
  obtain ⟨outer, hcalls⟩ := List.head?_eq_some_iff.1 hc
  obtain ⟨b, hb, -, hturn⟩ := h.turn hm₀ hadv
  obtain ⟨rfl, -⟩ := hturn.of_ended hcalls hret.1
  obtain ⟨b', new?, gone, u, hb', he⟩ := Moment.exchange_of_advance (h.sound hm₀) hadv
  cases ha.symm.trans hb'
  cases he.aftermath with
  | settled running => cases hended.symm.trans running
  | handsOver ended vars =>
    rw [vars]
    change (handResult (m.session.vars.get? Namespace.resultName) u.vars).get? Namespace.resultName = _
    cases m.session.vars.get? Namespace.resultName <;> simp [handResult]

/-- What is handed over is the same if the moments differ in nothing but what is veiled. -/
theorem Reachable.delivered_eq {m₁ m₂ m₂' : Moment σ} (h : Reachable g host m₀ m) (hm₀ : m₀.Starts)
    (h' : Reachable g host m₁ m') (hm₁ : m₁.Starts) (hsame : m.veil n = m'.veil n) {a : Address} {x x' : StepResult}
    (ha : m.next? = some a) (ha' : m'.next? = some a) (hadv : m.advance g host = some (x, m₂))
    (hadv' : m'.advance g host = some (x', m₂')) : m.delivered m₂ a = m'.delivered m₂' a := by
  have hended : m.session.isReturningTo a = m'.session.isReturningTo a := by
    rw [← Session.isReturningTo_veil (n := n), show m.session.veil n = (m.veil n).session from rfl, hsame]
    exact Session.isReturningTo_veil a
  have hvars : m.session.vars = m'.session.vars :=
    show (m.veil n).session.vars = (m'.veil n).session.vars by rw [hsame]
  unfold Moment.delivered
  rw [hended]
  split
  · rename_i hended'
    rw [h.delivers hm₀ ha (hended.trans hended') hadv, h'.delivers hm₁ ha' hended' hadv', hvars]
  · rfl

/-- **Two runs show the same** as long as a call is running, if they differ in nothing but what is veiled. -/
theorem Reachable.course_eq (hn : 0 < n) {m₁ : Moment σ} (hm₀ : m₀.Starts) (hm₁ : m₁.Starts) (k : Nat) :
    ∀ {m m' : Moment σ}, Reachable g host m₀ m → Reachable g host m₁ m' → m.veil n = m'.veil n →
      n ≤ m.session.calls.length → m.course g host n k = m'.course g host n k := by
  -- A step keeps that the veiled moments are equal, unless both runs end the call with it.
  induction k with
  | zero => exact fun _ _ _ _ => rfl
  | succ k ih =>
    intro m m' h h' hsame hs
    have hs' : n ≤ m'.session.calls.length := by
      rw [← Session.length_calls_veil (n := n), show m'.session.veil n = (m'.veil n).session from rfl, ← hsame]
      exact hs.trans_eq Session.length_calls_veil.symm
    have hnext : m.next? = m'.next? := show (m.veil n).next? = (m'.veil n).next? by rw [hsame]
    unfold Moment.course
    rw [hnext]
    cases ha : m'.next? with
    | none => rfl
    | some a =>
      obtain ⟨⟨x, m₂⟩, hadv⟩ : ∃ r, m.advance g host = some r := ⟨_, by rw [Moment.advance, hnext, ha]; rfl⟩
      obtain ⟨⟨x', m₂'⟩, hadv'⟩ : ∃ r, m'.advance g host = some r := ⟨_, by rw [Moment.advance, ha]; rfl⟩
      obtain ⟨y, mv, hy, hhost, hcases⟩ := Moment.advance_veil hn hs hadv
      obtain ⟨y', mv', hy', hhost', hcases'⟩ := Moment.advance_veil hn hs' hadv'
      rw [hsame, hy'] at hy
      obtain ⟨rfl, rfl⟩ := Prod.mk.inj (Option.some.inj hy)
      have hstate : m₂.world.host = m₂'.world.host := hhost.symm.trans hhost'
      have hkept {m m' : Moment σ} (hs : n ≤ m.session.calls.length) (hm : m' = m.veil n) :
          ¬m'.session.calls.length < n := by
        rw [hm, show (m.veil n).session.calls.length = m.session.calls.length from Session.length_calls_veil]
        exact Nat.not_lt.2 hs
      rw [hadv, hadv']
      dsimp only
      rcases hcases with ⟨hkeeps, rfl, hm⟩ | ⟨hends, hv⟩ <;> rcases hcases' with ⟨hkeeps', rfl, hm'⟩ | ⟨hends', hv'⟩
      · have hveil : m₂.veil n = m₂'.veil n := hm.symm.trans hm'
        have hvars : m₂.session.vars = m₂'.session.vars :=
          show (m₂.veil n).session.vars = (m₂'.veil n).session.vars by rw [hveil]
        have hexit : m₂.session.exitRequested = m₂'.session.exitRequested :=
          show (m₂.veil n).session.exitRequested = (m₂'.veil n).session.exitRequested by rw [hveil]
        rw [if_neg (Nat.not_lt.2 hkeeps), if_neg (Nat.not_lt.2 hkeeps'), hvars, hstate, hexit]
        congr 1
        have hgo (hx : ∀ f, y' ≠ .unhandled f) : (if m₂'.session.exitRequested then [] else m₂.course g host n k) =
            if m₂'.session.exitRequested then [] else m₂'.course g host n k := by
          split
          · rfl
          · rename_i hexit'
            have hexit' := Bool.eq_false_iff.2 hexit'
            exact ih (h.step hadv hx (hexit.trans hexit')) (h'.step hadv' hx hexit') hveil hkeeps
        cases y' with
        | unhandled f => rfl
        | done => exact hgo fun _ h => by cases h
        | handled f => exact hgo fun _ h => by cases h
      · exact absurd hv' (hkept hkeeps hm)
      · exact absurd hv (hkept hkeeps' hm')
      · rw [if_pos hends, if_pos hends', hstate, h.delivered_eq hm₀ h' hm₁ hsame (hnext.trans ha) ha hadv hadv']

/-- **Callees do not see their callers.**  Two moments of runs over the same suite, with the same host in the same
state, may differ in what their calls have saved for their callers and in what the loops outside of the innermost
call have saved.  As long as that call is running, the runs go on with the same commands, results, variables and
states of the host; and if its command finishes it then the same result is handed over. -/
theorem callees_see_no_callers {m₁ : Moment σ} (hm₀ : m₀.Starts) (h : Reachable g host m₀ m) (hm₁ : m₁.Starts)
    (h' : Reachable g host m₁ m')
    (hsame : m.veil m.session.calls.length = m'.veil m.session.calls.length) (k : Nat) :
    m.course g host m.session.calls.length k = m'.course g host m.session.calls.length k := by
  cases hn : m.session.calls.length with
  | zero =>
    have hveil (m : Moment σ) : m.veil 0 = m :=
      congrArg (fun s => Moment.mk ⟨s, m.world.host⟩ m.following) m.session.veil_zero
    rw [hn, hveil, hveil] at hsame
    rw [hsame]
  | succ n =>
    rw [hn] at hsame
    exact Reachable.course_eq (Nat.succ_pos n) hm₀ hm₁ k h h' hsame (Nat.le_of_eq hn.symm)

/-- A run may begin with other variables. -/
theorem Moment.Starts.withVars (h : m.Starts) (v : Namespace) :
    Moment.Starts ⟨{ m.world with session := m.session.withVars v }, m.following⟩ := by
  obtain ⟨units, suite, vars, σ', unit, hsuite, rfl⟩ := h
  exact ⟨units, suite, v, σ', unit, hsuite, rfl⟩

/-- A function is called with a variable of its caller or without it, and hands over the same result. -/
theorem function_returns_alike : ∃ (m₀ m m' : Moment Unit) (c c' : Call) (vars : Namespace),
    Moment.ofUnits [.named "main" [{ name := "call", target := "f" }, { name := "function", target := "f" },
      { name := "return", target := "1" }, { name := "endFunction" }]] = .ok m₀ ∧
    m₀.after? .trivial silent 2 = some m ∧
    Moment.after? .trivial silent ⟨{ m₀.world with
      session := m₀.session.withVars ((∅ : Namespace).insert "x" .null) }, m₀.following⟩ 2 = some m' ∧
    m.session.calls = [c] ∧ m'.session.calls = [c'] ∧ c.saved.get? "x" = none ∧ c'.saved.get? "x" = some .null ∧
    m.veil 1 = m'.veil 1 ∧
    m.course .trivial silent 1 3 = [.ran ⟨0, 2⟩ .done vars (), .left ⟨0, 0⟩ () (some (some (.bool true)))] ∧
    m'.course .trivial silent 1 3 = m.course .trivial silent 1 3 := by
  obtain ⟨m₀, m, m', c, c', vars, hm₀, hm, hm', hc, hc', hx, hx', hsame, hcourse⟩ :
      ∃ (m₀ m m' : Moment Unit) (c c' : Call) (vars : Namespace),
      Moment.ofUnits [.named "main" [{ name := "call", target := "f" }, { name := "function", target := "f" },
        { name := "return", target := "1" }, { name := "endFunction" }]] = .ok m₀ ∧
      m₀.after? .trivial silent 2 = some m ∧
      Moment.after? .trivial silent ⟨{ m₀.world with
        session := m₀.session.withVars ((∅ : Namespace).insert "x" .null) }, m₀.following⟩ 2 = some m' ∧
      m.session.calls = [c] ∧ m'.session.calls = [c'] ∧ c.saved.get? "x" = none ∧ c'.saved.get? "x" = some .null ∧
      m.veil 1 = m'.veil 1 ∧
      m.course .trivial silent 1 3 = [.ran ⟨0, 2⟩ .done vars (), .left ⟨0, 0⟩ () (some (some (.bool true)))] :=
    ⟨_, _, _, _, _, _, rfl, rfl, rfl, rfl, rfl, rfl, rfl, rfl, rfl⟩
  have hstarts := starts_ofUnits hm₀
  have hone : m.session.calls.length = 1 := by rw [hc]; rfl
  have halike := callees_see_no_callers hstarts (reachable_of_after? hm) (hstarts.withVars _)
    (reachable_of_after? hm') (by rw [hone]; exact hsame) 3
  rw [hone] at halike
  exact ⟨m₀, m, m', c, c', vars, hm₀, hm, hm', hc, hc', hx, hx', hsame, hcourse, halike.symm⟩

end

end BlockFlow.Flow
