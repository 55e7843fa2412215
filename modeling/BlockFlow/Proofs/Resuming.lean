/-
# Transfers that are taken up again

When the closer of a try takes up a transfer that waited for its cleanup section, and nothing else on the
way is owed, the run goes back to the command of the transfer.  That command makes the transfer unless
other work is still deferred whose cleanup section the transfer leaves: it then takes the place of that
work, and the run goes on behind it.  The other way to fail is a transfer to a loop that is not running
in the call any more.

`Session.Completes` says that a transfer has been made, and `resumed_transfer_completes_iff` when a
transfer that is taken up again is.
-/
import BlockFlow.Proofs.Moments

namespace BlockFlow.Flow

open BlockFlow.Flow.Action

/-! ## 1. Making a transfer -/

/-- The session in which a transfer was taken up and is to be made by its command. -/
def Session.resumed (s : Session) (t : TryFrame) (rest : List Frame) (ds : List Deferred)
    (origin : Address) (v : Namespace) : Session :=
  ((s.leaveTry t rest).withDeferred ds).proceed (some origin) v

/-- **A transfer has been made.**  A `break` leaves the constructs inside the innermost loop, which is
then complete, and goes on at its closer; a `continue` goes on at its opener for another pass; a
`return` ends the call and goes on at its command; an `exitTest` ends the run. -/
def Session.Completes (k : Keyword) (s s' : Session) : Prop :=
  match k with
  | .breakLoop => ∃ l rest e, s.blocks.drop s.insideLoop = .loop l :: rest ∧
      s'.blocks = .loop { l with complete := true } :: rest ∧ s.suite.Construct l.opener e ∧
      s'.pending = some e
  | .continueLoop => ∃ l rest, s.blocks.drop s.insideLoop = .loop l :: rest ∧
      s'.blocks = .loop { l with reentering := true } :: rest ∧ s'.pending = some l.opener
  | .returnValue | .endFunction | .endScript => ∃ c calls, s.calls = c :: calls ∧
      s'.calls = { c with blocks := [], returning := true } :: calls ∧ s'.pending = some c.returnTo
  | .exitTest => s'.exitRequested = true
  | _ => False

/-- A command of a transfer has no guard, and the expression of its result, if it has one, evaluates. -/
def Plain (g : Setting) (vars : Namespace) (k : Keyword) (c : Command) : Prop :=
  match k with
  | .breakLoop | .continueLoop => Text.trim c.target = ""
  | .returnValue => Text.trim c.target = "" ∨ ∃ v, (g.evaluate (Text.trim c.target) vars).1 = .ok v
  | _ => True

section

variable {g : Setting} {a : Address} {s : Session} {goal : Goal}

/-- A transfer that leaves the cleanup section of the newest deferred work replaces that work. -/
theorem Ends.deferTransfer_of_leaves {Q : Except Fault Bool → Session → Prop} {d : Deferred}
    {ds : List Deferred} (hc : s.Counted) (hd : s.deferred = d :: ds) (hl : s.leavesCleanup d goal)
    (hQ : Q (.ok true) (s.withDeferred ({ d with work := .transfer a goal } :: ds))) :
    (deferTransfer a goal).Ends s Q := by
  have hmoves : ¬s.Stays goal := fun hst => by rw [hst d ds hd] at hl; cases hl
  refine Ends.deferTransfer hc ?_ (fun hst => absurd hst hmoves) fun hst => absurd hst hmoves
  intro d' ds' hd' _
  cases hd.symm.trans hd'
  exact hQ

/-- A transfer that nothing holds up is not deferred. -/
theorem Ends.deferTransfer_of_clear {Q : Except Fault Bool → Session → Prop} (hc : s.Counted)
    (hst : s.Stays goal) (hclear : s.cleanup? goal = none) (hQ : Q (.ok false) s) :
    (deferTransfer a goal).Ends s Q := by
  refine Ends.deferTransfer hc ?_ ?_ fun _ _ => hQ
  · intro d ds hd hl
    rw [hst d ds hd] at hl
    cases hl
  · rintro - s' ⟨clean, -, -, -⟩
    cases hclear.symm.trans clean

/-! ## 2. Transfers to a loop -/

theorem loopToLeave?_of_leaves {Q : Except Fault (Option LoopFrame) → Session → Prop} {d : Deferred}
    {ds : List Deferred} (hc : s.Counted) (hd : s.deferred = d :: ds) (hl : s.leavesCleanup d .loop)
    (hQ : Q (.ok none) (s.withDeferred ({ d with work := .transfer a .loop } :: ds))) :
    (loopToLeave? g a "").Ends s Q := by
  have hguard : guardHolds g "" = pure true := rfl
  unfold loopToLeave?
  rw [hguard, ends_bind, ends_pure]
  dsimp only
  rw [if_neg (by decide), ends_bind]
  exact Ends.deferTransfer_of_leaves hc hd hl hQ

theorem loopToLeave?_of_clear {Q : Except Fault (Option LoopFrame) → Session → Prop} (hc : s.Counted)
    (hst : s.Stays .loop) (hclear : s.cleanup? .loop = none)
    (hloop : ∀ l rest, s.blocks.drop s.insideLoop = .loop l :: rest →
      Q (.ok (some l)) (s.drop s.insideLoop))
    (hnone : (∀ f ∈ s.blocks, f.isLoop = false) →
      Q (.error FlowError.notInLoop.fault) (s.drop s.blocks.length)) :
    (loopToLeave? g a "").Ends s Q := by
  have hguard : guardHolds g "" = pure true := rfl
  unfold loopToLeave?
  rw [hguard, ends_bind, ends_pure]
  dsimp only
  rw [if_neg (by decide), ends_bind]
  refine Ends.deferTransfer_of_clear hc hst hclear ?_
  dsimp only
  rw [if_neg (by decide), ends_bind]
  exact unwindToLoop_ends hloop hnone

/-- Deferred work whose cleanup section a transfer leaves. -/
theorem Session.exists_leaves (h : ¬s.Stays goal) :
    ∃ d ds, s.deferred = d :: ds ∧ s.leavesCleanup d goal := by
  unfold Session.Stays at h
  push Not at h
  obtain ⟨d, ds, hd, hl⟩ := h
  exact ⟨d, ds, hd, by simpa using hl⟩

/-- What a transfer that is run as it should completes needs. -/
def Session.Free (s : Session) (goal : Goal) : Prop :=
  s.Stays goal ∧ (goal = .loop → ∃ f ∈ s.blocks, f.isLoop)

/-- The innermost loop, of which nothing but its progress changes. -/
theorem Ends.setLoop {Q : Except Fault Unit → Session → Prop} {f : LoopFrame → LoopFrame}
    {l : LoopFrame} {rest : List Frame} (hs : s.blocks = .loop l :: rest)
    (hQ : Q (.ok ()) (s.setBlocks (.loop (f l) :: rest))) :
    (Action.change fun s => s.updateLoop f).Ends s Q := by
  rw [ends_change, Session.updateLoop, Session.updateTop, hs]
  exact hQ

theorem breakLoop_completes_iff (h : s.Ready) (hclear : s.cleanup? .loop = none) :
    (breakLoop g a "").Ends s fun r s' =>
      (r = .ok () ∧ s.Completes .breakLoop s') ↔ s.Free .loop := by
  unfold breakLoop
  rw [ends_bind]
  by_cases hst : s.Stays .loop
  · refine loopToLeave?_of_clear h.counted hst hclear (fun l rest hl => ?_) fun hnone => ?_
    · obtain ⟨b, e, hb, he, hcon⟩ := h.exists_closer hl
      have hdrop : (s.drop s.insideLoop).blocks = .loop l :: rest := by rw [Session.blocks_drop, hl]
      have hloop : ∃ f ∈ s.blocks, f.isLoop :=
        ⟨.loop l, List.mem_of_mem_drop (by rw [hl]; exact List.mem_cons_self), rfl⟩
      dsimp only
      rw [ends_bind]
      refine Ends.setLoop hdrop ?_
      dsimp only
      rw [ends_bind]
      refine Ends.block (b := b) ?_ (Ends.goToPart he ?_)
      · rw [Session.suite_setBlocks, (s.kept_drop _).suite]
        exact hb
      · exact iff_of_true ⟨rfl, l, rest, e, hl, Session.blocks_setBlocks _ _, hcon, rfl⟩
          ⟨hst, fun _ => hloop⟩
    · refine iff_of_false nofun fun hfree => ?_
      obtain ⟨f, hf, hloop⟩ := hfree.2 rfl
      rw [hnone f hf] at hloop
      cases hloop
  · obtain ⟨d, ds, hd, hl⟩ := s.exists_leaves hst
    refine loopToLeave?_of_leaves h.counted hd hl ?_
    refine iff_of_false ?_ fun hfree => hst hfree.1
    rintro ⟨-, l, rest, e, -, -, -, hp⟩
    cases h.pending.symm.trans hp

theorem continueLoop_completes_iff (h : s.Ready) (hclear : s.cleanup? .loop = none) :
    (continueLoop g a "").Ends s fun r s' =>
      (r = .ok () ∧ s.Completes .continueLoop s') ↔ s.Free .loop := by
  unfold continueLoop
  rw [ends_bind]
  by_cases hst : s.Stays .loop
  · refine loopToLeave?_of_clear h.counted hst hclear (fun l rest hl => ?_) fun hnone => ?_
    · have hdrop : (s.drop s.insideLoop).blocks = .loop l :: rest := by rw [Session.blocks_drop, hl]
      have hloop : ∃ f ∈ s.blocks, f.isLoop :=
        ⟨.loop l, List.mem_of_mem_drop (by rw [hl]; exact List.mem_cons_self), rfl⟩
      dsimp only
      rw [ends_bind]
      refine Ends.setLoop hdrop ?_
      exact iff_of_true ⟨rfl, l, rest, hl, Session.blocks_setBlocks _ _, rfl⟩ ⟨hst, fun _ => hloop⟩
    · refine iff_of_false nofun fun hfree => ?_
      obtain ⟨f, hf, hloop⟩ := hfree.2 rfl
      rw [hnone f hf] at hloop
      cases hloop
  · obtain ⟨d, ds, hd, hl⟩ := s.exists_leaves hst
    refine loopToLeave?_of_leaves h.counted hd hl ?_
    refine iff_of_false ?_ fun hfree => hst hfree.1
    rintro ⟨-, l, rest, -, -, hp⟩
    cases h.pending.symm.trans hp

/-! ## 3. Transfers out of a function, and to the end of the run -/

/-- An expression that evaluates. -/
theorem Ends.evaluate_of_ok {Q : Except Fault Value → Session → Prop} {expr : String} {v : Value}
    (hv : (g.evaluate expr s.vars).1 = .ok v)
    (hQ : Q (.ok v) (s.withVars (g.evaluate expr s.vars).2)) : (Action.evaluate g expr).Ends s Q := by
  rw [ends_evaluate, hv]
  exact hQ

theorem returnFrom_completes_iff (h : s.Ready) (ht : s.Transfers a .function)
    (hclear : s.cleanup? .function = none) {k : Keyword} {expr : String}
    (hk : k = .returnValue ∨ k = .endFunction ∨ k = .endScript)
    (hexpr : expr = "" ∨ ∃ v, (g.evaluate expr s.vars).1 = .ok v) :
    (returnFrom g a expr).Ends s fun r s' => (r = .ok () ∧ s.Completes k s') ↔ s.Free .function := by
  obtain ⟨b, o, hb, ho, hcallee⟩ := ht.callee rfl
  have hcompletes (s' : Session) : s.Completes k s' ↔ ∃ c calls, s.calls = c :: calls ∧
      s'.calls = { c with blocks := [], returning := true } :: calls ∧ s'.pending = some c.returnTo := by
    rcases hk with rfl | rfl | rfl <;> rfl
  unfold returnFrom
  rw [ends_bind]
  refine Ends.block hb ?_
  dsimp only
  rw [ends_bind, ends_ask]
  dsimp only
  rw [hcallee, ho, if_neg (by simp), ends_bind]
  by_cases hst : s.Stays .function
  · refine Ends.deferTransfer_of_clear h.counted hst hclear ?_
    dsimp only
    rw [if_neg (by decide), ends_bind]
    have hstore : (storeResult g expr).Ends s fun r s' => r = .ok () ∧ ∃ v, s' = s.withVars v := by
      unfold storeResult
      rcases hexpr with rfl | ⟨v, hv⟩
      · exact ⟨rfl, s.vars, rfl⟩
      · split
        · rw [ends_bind]
          exact Ends.evaluate_of_ok hv ⟨rfl, _, rfl⟩
        · exact ⟨rfl, s.vars, rfl⟩
    refine hstore.mono ?_
    rintro r t ⟨rfl, v, rfl⟩
    obtain ⟨c, calls, hc⟩ : ∃ c calls, s.calls = c :: calls := by
      refine List.exists_cons_of_ne_nil fun hnil => ?_
      rw [Session.callee?, hnil] at hcallee
      cases hcallee
    dsimp only
    simp only [ends_bind, ends_ask, ends_change, Session.calls_withVars, hc]
    refine Ends.goToPart (p := c.returnTo) rfl ?_
    rw [hcompletes]
    refine iff_of_true ⟨rfl, c, calls, hc, ?_, rfl⟩ ⟨hst, by rintro ⟨⟩⟩
    rw [Session.branch, Session.markReturning_eq (s := s.withVars v) hc]
  · obtain ⟨d, ds, hd, hl⟩ := s.exists_leaves hst
    refine Ends.deferTransfer_of_leaves h.counted hd hl ?_
    dsimp only
    rw [if_pos rfl, ends_pure, hcompletes]
    refine iff_of_false ?_ fun hfree => hst hfree.1
    rintro ⟨-, c, calls, -, -, hp⟩
    cases h.pending.symm.trans hp

theorem exitRun_completes_iff (h : s.Ready) (hx : s.exitRequested = false)
    (hclear : s.cleanup? .exit = none) : (exitRun a).Ends s fun r s' =>
      (r = .ok () ∧ s.Completes .exitTest s') ↔ s.Free .exit := by
  unfold exitRun
  rw [ends_bind]
  by_cases hst : s.Stays .exit
  · refine Ends.deferTransfer_of_clear h.counted hst hclear ?_
    exact iff_of_true ⟨rfl, rfl⟩ ⟨hst, nofun⟩
  · obtain ⟨d, ds, hd, hl⟩ := s.exists_leaves hst
    refine Ends.deferTransfer_of_leaves h.counted hd hl ?_
    refine iff_of_false ?_ fun hfree => hst hfree.1
    rintro ⟨-, hexit⟩
    cases hx.symm.trans hexit

theorem perform_completes_iff (h : s.Ready) (hx : s.exitRequested = false) (ht : s.Transfers a goal)
    (hclear : s.cleanup? goal = none) {k : Keyword} {c : Command} (hk : goalOf? k = some goal)
    (hplain : Plain g s.vars k c) :
    (perform g a k (Text.trim c.target) (Text.trim c.value)).Ends s fun r s' =>
      (r = .ok () ∧ s.Completes k s') ↔ s.Free goal := by
  cases k <;> cases hk
  case breakLoop =>
    rw [perform, show Text.trim c.target = "" from hplain]
    exact breakLoop_completes_iff h hclear
  case continueLoop =>
    rw [perform, show Text.trim c.target = "" from hplain]
    exact continueLoop_completes_iff h hclear
  case returnValue => exact returnFrom_completes_iff h ht hclear (.inl rfl) hplain
  case endFunction => exact returnFrom_completes_iff h ht hclear (.inr (.inl rfl)) (.inl rfl)
  case endScript => exact returnFrom_completes_iff h ht hclear (.inr (.inr rfl)) (.inl rfl)
  case exitTest => exact exitRun_completes_iff h hx hclear

/-! ## 4. Taking a transfer up -/

/-- The closer of a try. -/
theorem Session.Ready.keyword_closer (h : s.Ready) {t : TryFrame} {rest : List Frame}
    (hs : s.blocks = .guarded t :: rest) (hcl : s.suite.Construct t.opener a) :
    s.suite.keywordAt? a = some .endTry := by
  obtain ⟨b, k, hb, hk, hclose⟩ := h.nested.keyword_of_construct hcl
  have hn := (h.mem_fits hs).nature_eq hb
  rw [Block.nature?] at hn
  have hkey : b.keyword = .tryBlock := by
    cases hkey : b.keyword <;> rw [hkey] at hn <;> first | rfl | cases hn
  rw [hkey] at hclose
  have hend : k = .endTry := by cases k <;> first | rfl | cases hclose
  exact hend ▸ hk

/-- The innermost try takes up deferred work at its closer. -/
structure Session.TakesUp (s : Session) (a : Address) (t : TryFrame) (rest : List Frame) (d : Deferred)
    (ds : List Deferred) : Prop where
  top : s.blocks = .guarded t :: rest
  closer : s.suite.Construct t.opener a
  active : t.isActive
  deferred : s.deferred = d :: ds
  resumeAt : d.resumeAt = t.opener
  depth : d.depth = s.depth

/-- The session in which the innermost try was left and the work for it taken up. -/
def Session.relieved (s : Session) (t : TryFrame) (rest : List Frame) (ds : List Deferred) : Session :=
  (s.leaveTry t rest).withDeferred ds

/-- **The closer of a try takes up** the work that waits for it: a fault is raised again, and a transfer
waits for the next section that it owes or goes back to its command. -/
theorem leaveTry_takes_up (h : s.Ready) {t : TryFrame} {rest : List Frame} {d : Deferred}
    {ds : List Deferred} (hu : s.TakesUp a t rest d ds) : (leaveTry a).Ends s fun r s' =>
      (∀ f, d.work = .fault f → r = .error f ∧ ∃ v, s' = (s.relieved t rest ds).withVars v) ∧
      ∀ origin goal, d.work = .transfer origin goal → r = .ok () ∧
        (Suspends origin goal (s.relieved t rest ds) s' ∨
          (s.relieved t rest ds).cleanup? goal = none ∧ ∃ v, s' = s.resumed t rest ds origin v) := by
  have hdef (v : Namespace) : ((s.leaveTry t rest).withVars v).deferred = s.deferred := s.deferred_setBlocks _
  have hdep (v : Namespace) : ((s.leaveTry t rest).withVars v).depth = s.depth := s.depth_setBlocks _
  refine Ends.own_part hu.top (h.nested.isPart_closer hu.closer) fun _ _ => closeTry_ends hu.top fun v _ => ?_
  rw [if_pos hu.active]
  refine Ends.resumeDeferred ?_ ?_ ?_ ?_ <;> rw [hdef, hdep]
  · exact fun hquiet => absurd ⟨hu.resumeAt, hu.depth⟩ (hquiet d ds hu.deferred)
  · intro d' ds' f hd' _ _ hw
    cases hu.deferred.symm.trans hd'
    refine ⟨fun f' hf => ?_, fun origin goal ht => by cases hw.symm.trans ht⟩
    cases hw.symm.trans hf
    exact ⟨rfl, v, rfl⟩
  · intro d' ds' origin goal s' hd' _ _ hw hs'
    cases hu.deferred.symm.trans hd'
    refine ⟨fun f hf => (by cases hw.symm.trans hf), fun origin' goal' ht => ?_⟩
    cases hw.symm.trans ht
    exact ⟨rfl, .inl (Suspends.of_withVars (v := v) hs')⟩
  · intro d' ds' origin goal hd' _ _ hw hclear
    cases hu.deferred.symm.trans hd'
    refine ⟨fun f hf => (by cases hw.symm.trans hf), fun origin' goal' ht => ?_⟩
    cases hw.symm.trans ht
    exact ⟨rfl, .inr ⟨hclear, v, rfl⟩⟩

theorem Session.Resumes.takesUp {t : TryFrame} {rest : List Frame} {d : Deferred} {ds : List Deferred}
    {origin : Address} (hr : s.Resumes a t rest d ds origin goal) : s.TakesUp a t rest d ds :=
  ⟨hr.top, hr.closer, hr.active, hr.deferred, hr.resumeAt, hr.depth⟩

/-- The closer that takes up work makes no transfer itself. -/
theorem Session.TakesUp.not_transfers {t : TryFrame} {rest : List Frame} {d : Deferred} {ds : List Deferred}
    (h : s.TakesUp a t rest d ds) (hready : s.Ready) : ¬s.Transfers a goal := by
  intro ht
  have hcarries := ht.carries
  rw [hready.keyword_closer h.top h.closer] at hcarries
  cases hcarries

end

/-! ## 5. The step that takes a transfer up, and the next one -/

section

variable {σ : Type} {g : Setting} {host : Host σ} {a origin : Address} {w : World σ} {t : TryFrame}
  {rest : List Frame} {d : Deferred} {ds : List Deferred} {goal : Goal}

/-- Running a flow command, whose fault gets the reference of the command. -/
theorem runCommand_flow (g : Setting) (host : Host σ) (hc : w.session.current = some a) {c : Command} {k : Keyword}
    (hcmd : w.session.suite.commandAt? a = some c) (hof : Keyword.ofName? c.name = some (k, false)) :
    (perform g a k (Text.trim c.target) (Text.trim c.value)).Ends w.session fun r s' =>
      w.runCommand g host a =
        (r.mapError fun f => f.attach (s'.suite.commandRef a), { w with session := s' }) := by
  have hcur : { w.session with current := some a } = w.session := by rw [← hc]
  have hdispatch : dispatch g a w.session =
      perform g a k (Text.trim c.target) (Text.trim c.value) w.session := by
    have : (dispatch g a).Ends w.session fun r s' =>
        (r, s') = perform g a k (Text.trim c.target) (Text.trim c.value) w.session := by
      unfold dispatch
      rw [ends_bind, ends_ask]
      dsimp only
      rw [show Command.locate w.session.suite.units a = .ok c from Command.locate_eq_ok_iff.2 hcmd]
      dsimp only
      rw [hof]
      exact rfl
    exact this
  have hrun : w.runCommand g host a = w.execute g a := by
    rw [World.runCommand, hcmd]
    dsimp only
    rw [if_pos (by simp [handles, hof])]
  unfold Ends
  rw [hrun, World.execute, Session.execute, hcur, hdispatch]
  rcases perform g a k (Text.trim c.target) (Text.trim c.value) w.session with ⟨f | x, s'⟩ <;> rfl

/-- **The command of the closer of a try** fails with the fault that it takes up, and does not fail with a
transfer. -/
theorem Session.TakesUp.runCommand (h : w.session.TakesUp a t rest d ds) (hready : w.session.Ready)
    (hc : w.session.current = some a) (g : Setting) (host : Host σ) : ∃ s',
      (∀ f, d.work = .fault f → w.runCommand g host a =
          (.error (f.attach (s'.suite.commandRef a)), { w with session := s' }) ∧
        ∃ v, s' = (w.session.relieved t rest ds).withVars v) ∧
      ∀ origin goal, d.work = .transfer origin goal → w.runCommand g host a = (.ok (), { w with session := s' }) ∧
        (Suspends origin goal (w.session.relieved t rest ds) s' ∨
          (w.session.relieved t rest ds).cleanup? goal = none ∧ ∃ v, s' = w.session.resumed t rest ds origin v) := by
  obtain ⟨cmd, hcmd, hof⟩ := commandAt?_of_keywordAt? (hready.keyword_closer h.top h.closer)
  have hrun := runCommand_flow g host hc hcmd hof
  have htakes := leaveTry_takes_up hready h
  unfold Ends at hrun htakes
  rw [show perform g a .endTry (Text.trim cmd.target) (Text.trim cmd.value) = Flow.leaveTry a from rfl] at hrun
  rcases hleave : Flow.leaveTry a w.session with ⟨r, s'⟩
  rw [hleave] at hrun htakes
  obtain ⟨hfault, htransfer⟩ := htakes
  refine ⟨s', fun f hw => ?_, fun origin goal hw => ?_⟩
  · obtain ⟨rfl, hs'⟩ := hfault f hw
    exact ⟨hrun, hs'⟩
  · obtain ⟨rfl, hs'⟩ := htransfer origin goal hw
    exact ⟨hrun, hs'⟩

/-- A step that runs a flow command is done if the command does not fail. -/
theorem step_flow (g : Setting) (host : Host σ) (hc : w.session.current = some a) {c : Command} {k : Keyword}
    (hcmd : w.session.suite.commandAt? a = some c) (hof : Keyword.ofName? c.name = some (k, false)) :
    (perform g a k (Text.trim c.target) (Text.trim c.value)).Ends w.session fun r s' =>
      (r = .ok () → w.step g host a = (.done, { w with session := s' })) ∧
        (r ≠ .ok () → (w.step g host a).1 ≠ .done) := by
  have hrun := runCommand_flow g host hc hcmd hof
  unfold Ends at hrun ⊢
  unfold World.step
  rw [hrun]
  rcases perform g a k (Text.trim c.target) (Text.trim c.value) w.session with ⟨f | x, s'⟩
  · refine ⟨by rintro ⟨⟩, fun _ => ?_⟩
    dsimp only [Except.mapError]
    split <;> rintro ⟨⟩
  · exact ⟨fun _ => rfl, fun hne => absurd rfl hne⟩

/-- What a step does whose command fails. -/
theorem step_of_error {w' : World σ} {f : Fault} (h : w.runCommand g host a = (.error f, w')) :
    ((handleFault g f w'.session).1 = .handled ∧
      w.step g host a = (.handled f, { w' with session := (handleFault g f w'.session).2 })) ∨
    ∃ f', (handleFault g f w'.session).1 = .unhandled f' ∧
      w.step g host a = (.unhandled f', { w' with session := (handleFault g f w'.session).2 }) := by
  unfold World.step World.handleFault
  rw [h]
  dsimp only
  rcases handleFault g f w'.session with ⟨d, s'⟩
  cases d with
  | handled => exact .inl ⟨rfl, rfl⟩
  | unhandled f' => exact .inr ⟨f', rfl, rfl⟩

/-- The session that is about to run the command of a transfer that was taken up. -/
theorem Session.Resumes.poised {s : Session} (hr : s.Resumes a t rest d ds origin goal)
    (h : s.Sound a) (hrun : s.Running) (v : Namespace) :
    ((s.resumed t rest ds origin v).poise (some origin)).Ready ∧
      ((s.resumed t rest ds origin v).poise (some origin)).Transfers origin goal := by
  obtain ⟨hsound, hrunning⟩ := h.leaveTry hrun hr.top hr.deferred a
  have hsuite : (s.leaveTry t rest).suite = s.suite := (s.kept_leaveTry t rest).suite
  have hsound' : (s.resumed t rest ds origin v).Sound a :=
    hsound.goOn hrunning hsound.toFitted (Session.Kept.refl _) rfl _ _ _
  refine ⟨(hsound'.poise (some origin)).ready rfl hrunning, ?_⟩
  obtain ⟨hkey, hfun⟩ := h.ledger.carried d (by rw [hr.deferred]; exact List.mem_cons_self) _ _ hr.work
  refine ⟨?_, fun hg => ?_⟩
  · rw [← hkey, ← hsuite]
    rfl
  · obtain ⟨b, o, hb, ho, hcallee⟩ := hfun hg
    refine ⟨b, o, ?_, ho, ?_⟩
    · rw [← hb, ← hsuite]
      rfl
    · rw [hr.depth, ← Session.callee?_eq_sites] at hcallee
      rw [← hcallee]
      exact s.callee?_setBlocks rest

/-- What a flow command does is what the step does that runs it. -/
theorem Moment.done_iff {m : Moment σ} (ha : m.next? = some a) {c : Command} {k : Keyword}
    (hc : m.session.suite.commandAt? a = some c) (hof : Keyword.ofName? c.name = some (k, false))
    {P : Session → Prop} {X : Prop} (h : (perform g a k (Text.trim c.target) (Text.trim c.value)).Ends
      m.poised.session fun r s' => (r = .ok () ∧ P s') ↔ X) :
    (∃ m', m.advance g host = some (.done, m') ∧ P m'.session) ↔ X := by
  have hflow := step_flow (w := m.poised) g host ha hc hof
  have hadvance : m.advance g host = some ((m.poised.step g host a).1,
      ⟨(m.poised.step g host a).2, a.next⟩) := by
    rw [Moment.advance, ha, Option.map_some]
  unfold Ends at hflow
  refine Iff.trans ?_ h
  rw [hadvance]
  constructor
  · rintro ⟨m', hm', hdone⟩
    obtain ⟨hresult, hsession⟩ := Prod.mk.inj (Option.some.inj hm')
    have hok := not_not.1 fun hne => hflow.2 hne hresult
    refine ⟨hok, ?_⟩
    rw [← hsession, hflow.1 hok] at hdone
    exact hdone
  · rintro ⟨hok, hdone⟩
    refine ⟨_, by rw [hflow.1 hok], ?_⟩
    exact hdone

variable (host) in
/-- **A transfer that nothing holds up** is made by its command exactly if it leaves no cleanup section that
deferred work waits for and, if it goes to a loop, there is one. -/
theorem Moment.completes_iff {m : Moment σ} (ha : m.next? = some a) (hready : m.poised.session.Ready)
    (hx : m.session.exitRequested = false) (ht : m.poised.session.Transfers a goal)
    (hclear : m.poised.session.cleanup? goal = none) :
    ∃ c k, m.session.suite.commandAt? a = some c ∧ Keyword.ofName? c.name = some (k, false) ∧
      goalOf? k = some goal ∧ (Plain g m.session.vars k c →
        ((∃ m', m.advance g host = some (.done, m') ∧ m.poised.session.Completes k m'.session) ↔
          m.poised.session.Free goal)) := by
  obtain ⟨k, hk, hgoal⟩ := Option.bind_eq_some_iff.1 ht.carries
  obtain ⟨c, hc, hof⟩ := commandAt?_of_keywordAt? hk
  exact ⟨c, k, hc, hof, hgoal, fun hplain =>
    Moment.done_iff ha hc hof (perform_completes_iff hready hx ht hclear hgoal hplain)⟩

/-- **The closer that takes a transfer up** with no cleanup section on its way makes its command run next. -/
theorem Reachable.takes_up {m₀ m : Moment σ} (hreach : Reachable g host m₀ m) (hm₀ : m₀.Starts)
    (ha : m.next? = some a) (hr : m.poised.session.Resumes a t rest d ds origin goal) :
    ∃ m₁ v, m.advance g host = some (.done, m₁) ∧ m₁.next? = some origin ∧
      m₁.session = m.poised.session.resumed t rest ds origin v ∧ m₁.poised.session.Ready ∧
      m₁.session.exitRequested = false ∧ m₁.poised.session.Transfers origin goal ∧
      m₁.poised.session.cleanup? goal = none := by
  have hsound : m.poised.session.Sound a := (m.place_of_next? ha) ▸ (hreach.sound hm₀).poise _
  have hrun := hsound.running_of_blocks hr.top
  have hready := hsound.ready rfl hrun
  obtain ⟨s', -, htransfer⟩ := hr.takesUp.runCommand hready ha g host
  obtain ⟨hdone, hsus⟩ := htransfer origin goal hr.work
  obtain ⟨v, rfl⟩ : ∃ v, s' = m.poised.session.resumed t rest ds origin v := by
    rcases hsus with ⟨clean, -, -, -⟩ | ⟨-, hs'⟩
    · cases hr.clear.symm.trans clean
    · exact hs'
  obtain ⟨hready₁, ht₁⟩ := hr.poised hsound hrun v
  refine ⟨⟨⟨m.poised.session.resumed t rest ds origin v, m.poised.host⟩, a.next⟩, v, ?_, rfl, rfl, hready₁,
    ?_, ht₁, hr.clear⟩
  · rw [Moment.advance, ha, Option.map_some, World.step, hdone]
  · exact (m.poised.session.kept_leaveTry t rest).exitRequested.trans (hreach.exitRequested hm₀)

/-- **A transfer that is taken up again** with no cleanup section on its way makes its command run next,
and that command makes the transfer exactly if it leaves no cleanup section that other deferred work
waits for and, if it goes to a loop, there is one. -/
theorem resumed_transfer_completes_iff {m₀ m : Moment σ} (hm₀ : m₀.Starts)
    (hreach : Reachable g host m₀ m) (ha : m.next? = some a)
    (hr : m.poised.session.Resumes a t rest d ds origin goal) :
    ∃ m₁ c k, m.advance g host = some (.done, m₁) ∧ m₁.next? = some origin ∧
      m₁.session.blocks = rest ∧ m₁.session.deferred = ds ∧
      m₁.session.suite.commandAt? origin = some c ∧ Keyword.ofName? c.name = some (k, false) ∧
      goalOf? k = some goal ∧
      (Plain g m₁.session.vars k c →
        ((∃ m₂, m₁.advance g host = some (.done, m₂) ∧ m₁.poised.session.Completes k m₂.session) ↔
          (∀ d' ds', ds = d' :: ds' → m₁.session.leavesCleanup d' goal = false) ∧
            (goal = .loop → ∃ f ∈ rest, f.isLoop))) := by
  obtain ⟨m₁, v, hadv, hnext, hs, hready, hx, ht, hclear⟩ := hreach.takes_up hm₀ ha hr
  have hblocks : m₁.session.blocks = rest := hs ▸ Session.blocks_setBlocks _ _
  have hdeferred : m₁.session.deferred = ds := by rw [hs]; rfl
  obtain ⟨c, k, hc, hof, hgoal, hiff⟩ := Moment.completes_iff (g := g) host hnext hready hx ht hclear
  refine ⟨m₁, c, k, hadv, hnext, hblocks, hdeferred, hc, hof, hgoal, fun hplain => (hiff hplain).trans ?_⟩
  have hfree : m₁.poised.session.Free goal = m₁.session.Free goal := rfl
  rw [hfree, Session.Free, Session.Stays, hblocks, hdeferred]

/-- An `exitTest` in the body of a try ends the run once the cleanup section has run. -/
theorem exitTest_completes_after_cleanup :
    ∃ m₀ m m₁ m₂ : Moment Unit, Moment.ofUnits [.named "main" [{ name := "try" },
        { name := "exitTest" }, { name := "finally" }, { name := "endTry" }]] = .ok m₀ ∧
      m₀.after? .trivial silent 3 = some m ∧ m.next? = some ⟨0, 3⟩ ∧
      m.advance .trivial silent = some (.done, m₁) ∧ m₁.next? = some ⟨0, 1⟩ ∧
      m₁.advance .trivial silent = some (.done, m₂) ∧ m₂.session.exitRequested = true := by
  let t : TryFrame := { opener := ⟨0, 0⟩, phase := some .finallying, cleaned := true }
  let d : Deferred := ⟨.transfer ⟨0, 1⟩ .exit, ⟨0, 0⟩, 1⟩
  obtain ⟨m₀, m, hm₀, hm, hnext, hr⟩ : ∃ m₀ m, Moment.ofUnits [.named "main" [{ name := "try" },
        { name := "exitTest" }, { name := "finally" }, { name := "endTry" }]] = .ok m₀ ∧
      m₀.after? .trivial silent 3 = some m ∧ m.next? = some ⟨0, 3⟩ ∧
      m.poised.session.Resumes ⟨0, 3⟩ t [] d [] ⟨0, 1⟩ .exit :=
    ⟨_, _, rfl, rfl, rfl, ⟨rfl, ⟨_, rfl, rfl, rfl⟩, rfl, rfl, rfl, rfl, rfl, rfl⟩⟩
  obtain ⟨m₁, c, k, hadv, hnext₁, -, -, -, -, hgoal, hiff⟩ := resumed_transfer_completes_iff
    (starts_ofUnits hm₀) (reachable_of_after? hm) hnext hr
  have hk : k = .exitTest := by cases k <;> first | rfl | cases hgoal
  subst hk
  obtain ⟨m₂, hadv₂, hexit⟩ := (hiff trivial).2 ⟨nofun, nofun⟩
  exact ⟨m₀, m, m₁, m₂, hm₀, hm, hnext, hadv, hnext₁, hadv₂, hexit⟩

end

end BlockFlow.Flow
