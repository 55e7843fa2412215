/-
# Moves of jumps and transfers

A jump leaves conditionals only.  A transfer takes the place of deferred work that it leaves behind, or
waits for a cleanup section on its way, or is free to go.
-/
import Mathlib.Data.List.TakeWhile
import BlockFlow.Proofs.Moves

namespace BlockFlow.Flow

section

open BlockFlow.Flow.Action

variable {g : Setting} {a : Address} {s : Session}

/-! ## 1. Jumps -/

theorem jump_move (h : s.Ready) (hunlinked : s.suite.blockAt? a = none)
    (hk : ∃ k ∈ [Keyword.goto, .gotoIf, .skipNext], s.suite.keywordAt? a = some k) (goal : Address)
    (v : Namespace) : (jump a goal).Ends (s.withVars v) (Move a s) := by
  have hpend : (s.withVars v).pending = none := h.pending
  unfold jump
  rw [ends_bind, ends_ask, Session.suite_withVars]
  dsimp only
  split
  · rw [ends_throw, Session.withVars_eq_proceed h.pending]
    exact .stay nofun
  · rename_i hj
    rw [ends_change, Session.suite_withVars, Session.blocks_withVars, Session.setBlocks_withVars,
      Session.branch_withVars]
    exact .jump hunlinked hk hj

theorem goto_move (h : s.Ready) (hunlinked : s.suite.blockAt? a = none)
    (hk : ∃ k ∈ [Keyword.goto, .gotoIf, .skipNext], s.suite.keywordAt? a = some k) (label : String)
    (v : Namespace) : (goto a label).Ends (s.withVars v) (Move a s) := by
  unfold goto
  rw [ends_bind, ends_ask]
  dsimp only
  split
  · exact jump_move h hunlinked hk _ v
  · rw [ends_fail, Session.withVars_eq_proceed h.pending]
    exact .stay nofun

theorem gotoIf_move (h : s.Ready) (hk : s.suite.keywordAt? a = some .gotoIf) (cond label : String) :
    (gotoIf g a cond label).Ends s (Move a s) := by
  have hunlinked : s.suite.blockAt? a = none :=
    h.nested.blockAt?_eq_none fun k hk' => by cases hk.symm.trans hk'; rfl
  unfold gotoIf
  rw [ends_bind]
  refine (OnlyVars.condition g cond).ends fun r v => ?_
  cases r with
  | error f =>
    rw [Session.withVars_eq_proceed h.pending]
    exact .stay nofun
  | ok held =>
    dsimp only
    split
    · exact goto_move h hunlinked ⟨_, by simp, hk⟩ label v
    · exact h.pass_move (h.passable hk rfl (by decide) (by rintro ⟨⟩)) v

theorem skipNext_move (h : s.Ready) (hk : s.suite.keywordAt? a = some .skipNext) (spec : String) :
    (skipNext g a spec).Ends s (Move a s) := by
  have hunlinked : s.suite.blockAt? a = none :=
    h.nested.blockAt?_eq_none fun k hk' => by cases hk.symm.trans hk'; rfl
  unfold skipNext
  rw [ends_bind]
  refine (OnlyVars.skipCount g spec).ends fun r v => ?_
  cases r with
  | error f =>
    rw [Session.withVars_eq_proceed h.pending]
    exact .stay nofun
  | ok count =>
    dsimp only
    split
    · exact h.pass_move (h.passable hk rfl (by decide) (by rintro ⟨⟩)) v
    · rw [ends_bind, ends_ask]
      dsimp only
      split
      · rw [ends_throw, Session.withVars_eq_proceed h.pending]
        exact .stay nofun
      · exact jump_move h hunlinked ⟨_, by simp, hk⟩ _ v

/-! ## 2. Transfers to loops -/

/-- The constructs inside the innermost loop are the innermost ones. -/
theorem Session.takeWhile_insideLoop (s : Session) :
    (s.blocks.takeWhile fun f => !f.isLoop) = s.blocks.take s.insideLoop :=
  List.prefix_iff_eq_take.1 (List.takeWhile_prefix _)

/-- The constructs of a call are those inside its innermost loop and the others. -/
theorem Session.take_insideLoop {f : Frame} {rest : List Frame} (h : s.blocks.drop s.insideLoop = f :: rest) :
    s.blocks = s.blocks.take s.insideLoop ++ f :: rest := by rw [← h, List.take_append_drop]

/-- What is left after the constructs inside the innermost loop begins with the loop. -/
theorem isLoop_of_drop_insideLoop {f : Frame} {rest : List Frame} (h : s.blocks.drop s.insideLoop = f :: rest) :
    f.isLoop = true := by
  have hsplit := List.takeWhile_append_dropWhile (p := fun f : Frame => !f.isLoop) (l := s.blocks)
  have hdrop : s.blocks.drop s.insideLoop = s.blocks.dropWhile fun f => !f.isLoop := by
    conv_lhs => rw [← hsplit, Session.insideLoop]
    exact List.drop_left
  have hf := List.head_dropWhile_not (p := fun f : Frame => !f.isLoop) (l := s.blocks)
    (by rw [← hdrop, h]; exact List.cons_ne_nil _ _)
  simpa only [← hdrop, h, List.head_cons, Bool.not_eq_false'] using hf

/-- Leaving the constructs inside the innermost loop. -/
theorem unwindToLoop_ends {Q : Except Fault LoopFrame → Session → Prop}
    (hloop : ∀ l rest, s.blocks.drop s.insideLoop = .loop l :: rest →
      Q (.ok l) (s.drop s.insideLoop))
    (hnone : (∀ f ∈ s.blocks, f.isLoop = false) →
      Q (.error FlowError.notInLoop.fault) (s.drop s.blocks.length)) :
    unwindToLoop.Ends s Q := by
  unfold unwindToLoop
  rw [ends_bind, ends_change]
  change Ends _ (s.drop s.insideLoop) _
  rw [ends_bind, ends_ask, Session.blocks_drop]
  dsimp only
  split
  · rename_i l rest hl
    exact hloop l rest hl
  · rename_i hl
    have hnil : s.blocks.drop s.insideLoop = [] := by
      cases hd : s.blocks.drop s.insideLoop with
      | nil => rfl
      | cons f rest =>
        have hf := isLoop_of_drop_insideLoop hd
        cases f with
        | loop l => exact absurd hd (hl l rest)
        | conditional c => cases hf
        | guarded t => cases hf
    have hlen : s.insideLoop = s.blocks.length := by
      have := congrArg List.length hnil
      rw [List.length_drop] at this
      have hle : s.insideLoop ≤ s.blocks.length := (List.takeWhile_prefix _).length_le
      simp only [List.length_nil] at this
      omega
    have hno : ∀ f ∈ s.blocks, f.isLoop = false := by
      have := List.takeWhile_eq_self_iff.1 ((List.takeWhile_prefix _).eq_of_length hlen)
      exact fun f hf => by simpa using this f hf
    rw [ends_fail, hlen]
    exact hnone hno

/-- The ways a command that breaks out of a loop, or goes on with it, can go up to the loop. -/
theorem loopToLeave?_ends {Q : Except Fault (Option LoopFrame) → Session → Prop} (h : s.Ready)
    (guard : String)
    (hstay : ∀ r v, (∀ l, r ≠ .ok (some l)) → Q r (s.withVars v))
    (hreplace : ∀ d ds v, s.deferred = d :: ds → s.leavesCleanup d .loop →
      Q (.ok none) ((s.withDeferred ({ d with work := .transfer a .loop } :: ds)).withVars v))
    (hsuspend : ∀ s', s.Stays .loop → Suspends a .loop s s' → Q (.ok none) s')
    (hloop : ∀ l rest v, s.Stays .loop → s.cleanup? .loop = none →
      s.blocks.drop s.insideLoop = .loop l :: rest →
      Q (.ok (some l)) ((s.drop s.insideLoop).withVars v))
    (hadrift : ∀ v, s.Stays .loop → s.cleanup? .loop = none →
      (∀ f ∈ s.blocks, f.isLoop = false) →
      Q (.error FlowError.notInLoop.fault) ((s.drop s.blocks.length).withVars v)) :
    (loopToLeave? g a guard).Ends s Q := by
  unfold loopToLeave?
  rw [ends_bind]
  refine (OnlyVars.guardHolds g guard).ends fun r v => ?_
  cases r with
  | error f => exact hstay _ v nofun
  | ok held =>
    dsimp only
    split
    · exact hstay _ v nofun
    · rw [ends_bind]
      refine Ends.deferTransfer (h.counted.withVars v) ?_ ?_ ?_
      · exact fun d ds hd hl => hreplace d ds v hd hl
      · exact fun hst s' hs' => hsuspend s' hst hs'.of_withVars
      · intro hst hclear
        simp only [Bool.false_eq_true, if_false]
        rw [ends_bind]
        refine unwindToLoop_ends (fun l rest hl => ?_) fun hno => ?_
        · obtain ⟨w, hw⟩ := s.drop_withVars v s.insideLoop
          rw [show (s.withVars v).insideLoop = s.insideLoop from rfl, hw]
          exact hloop l rest w hst hclear hl
        · obtain ⟨w, hw⟩ := s.drop_withVars v s.blocks.length
          rw [Session.blocks_withVars, hw]
          exact hadrift w hst hclear hno

/-- A loop that is running has its closer. -/
theorem Session.Ready.exists_closer (h : s.Ready) {n : Nat} {f : Frame} {rest : List Frame}
    (hs : s.blocks.drop n = f :: rest) :
    ∃ b e, s.suite.blockAt? f.opener = some b ∧ b.closer = some e ∧ s.suite.Construct f.opener e := by
  have hmem : f ∈ s.frames := by
    refine List.mem_append_left _ (List.mem_of_mem_drop (i := n) ?_)
    rw [hs]
    exact List.mem_cons_self
  obtain ⟨⟨b, hb, hn⟩, -⟩ := h.fits f hmem
  have hns : b.nature?.isSome := by rw [hn]; rfl
  obtain ⟨e, he⟩ := h.nested.closed hb hns
  exact ⟨b, e, hb, he, b, hb, hns, he⟩

theorem loopJump_ends {Q : Except Fault (Option LoopFrame) → Session → Prop} (h : s.Ready) {k : Keyword}
    (hk : s.suite.keywordAt? a = some k) (hgoal : goalOf? k = some .loop) (hclose : k.closes? = none)
    (hfinally : k ≠ .finallyDo) (hopen : k.opens? = none) (guard : String)
    (hmove : ∀ r t, (∀ l, r ≠ .ok (some l)) → Move a s (r.map fun _ => ()) t → Q r t)
    (hloop : ∀ l rest v, s.Stays .loop → s.cleanup? .loop = none →
      s.blocks.drop s.insideLoop = .loop l :: rest →
      Q (.ok (some l)) ((s.drop s.insideLoop).withVars v)) :
    (loopToLeave? g a guard).Ends s Q := by
  have ht : s.Transfers a .loop := ⟨by rw [hk]; exact hgoal, nofun⟩
  refine loopToLeave?_ends h guard ?_ ?_ ?_ hloop ?_
  · intro r v hr
    refine hmove r _ hr ?_
    rw [Session.withVars_eq_proceed h.pending]
    exact .stay fun _ => h.passable hk hclose hfinally (by rw [hopen]; rintro ⟨⟩)
  · intro d ds v hd hl
    exact hmove _ _ nofun ((Move.replace ht hd hl).withVars h.pending)
  · exact fun s' hst hs' => hmove _ _ nofun (.suspend ht hst hs')
  · intro v hst hclear hno
    exact hmove _ _ nofun
      ((Move.adrift ht hst hclear hno).withVars ((s.kept_drop _).pending.trans h.pending))

theorem breakLoop_move (h : s.Ready) (hk : s.suite.keywordAt? a = some .breakLoop) (guard : String) :
    (breakLoop g a guard).Ends s (Move a s) := by
  have ht : s.Transfers a .loop := ⟨by rw [hk]; rfl, nofun⟩
  unfold breakLoop
  rw [ends_bind]
  refine loopJump_ends h hk rfl rfl (by decide) rfl guard ?_ ?_
  · intro r t hr hm
    cases r with
    | error f => exact hm
    | ok l? =>
      cases l? with
      | none => exact hm
      | some l => exact absurd rfl (hr l)
  · intro l rest v hst hclear hl
    obtain ⟨b, e, hb, he, hcon⟩ := h.exists_closer hl
    have hblocks : ((s.drop s.insideLoop).withVars v).blocks = .loop l :: rest := by
      rw [Session.blocks_withVars, Session.blocks_drop, hl]
    dsimp only
    rw [ends_bind, ends_change, Session.updateLoop, Session.updateTop, hblocks]
    dsimp only
    rw [ends_bind, Session.setBlocks_withVars]
    refine Ends.block (b := b) ?_ (Ends.goToPart he ?_)
    · rw [Session.suite_withVars, (Session.kept_setBlocks _ _).suite, (s.kept_drop _).suite]
      exact hb
    · rw [Session.branch_withVars]
      exact .breakLoop ht hst hclear hl hcon

theorem continueLoop_move (h : s.Ready) (hk : s.suite.keywordAt? a = some .continueLoop)
    (guard : String) : (continueLoop g a guard).Ends s (Move a s) := by
  have ht : s.Transfers a .loop := ⟨by rw [hk]; rfl, nofun⟩
  unfold continueLoop
  rw [ends_bind]
  refine loopJump_ends h hk rfl rfl (by decide) rfl guard ?_ ?_
  · intro r t hr hm
    cases r with
    | error f => exact hm
    | ok l? =>
      cases l? with
      | none => exact hm
      | some l => exact absurd rfl (hr l)
  · intro l rest v hst hclear hl
    have hblocks : ((s.drop s.insideLoop).withVars v).blocks = .loop l :: rest := by
      rw [Session.blocks_withVars, Session.blocks_drop, hl]
    dsimp only
    rw [ends_bind, ends_change, Session.updateLoop, Session.updateTop, hblocks]
    dsimp only
    rw [Session.setBlocks_withVars, ends_goTo, Session.branch_withVars]
    exact .continueLoop ht hst hclear hl

/-! ## 3. The end of the run and of a function -/

theorem exitRun_move (h : s.Ready) (hk : s.suite.keywordAt? a = some .exitTest) :
    (exitRun a).Ends s (Move a s) := by
  have ht : s.Transfers a .exit := ⟨by rw [hk]; rfl, nofun⟩
  unfold exitRun
  rw [ends_bind]
  refine Ends.deferTransfer h.counted (fun d ds hd hl => ?_) (fun hst s' hs' => ?_) fun hst hclear => ?_
  · exact (Move.replace (v := s.vars) ht hd hl).withVars h.pending
  · exact .suspend ht hst hs'
  · exact (Move.exit ht hst hclear).withVars h.pending

/-- A command that leaves a function is passed where its function was not called. -/
theorem passable_of_not_called (h : s.Ready) {b : Block} (hb : s.suite.blockAt? a = some b)
    (hgoal : goalOf? b.keyword = some .function) (hother : ∀ o, b.opener = some o → s.callee? ≠ some o) :
    s.Passable a := by
  have hk := h.nested.keyword hb
  refine ⟨fun hf => ?_, fun o ho => ?_, fun n => ?_⟩
  · rw [Option.some.inj (hk.symm.trans hf)] at hgoal
    cases hgoal
  · obtain ⟨bo, k, hbo, hk', hcl⟩ := h.nested.keyword_of_construct ho
    cases hk.symm.trans hk'
    obtain ⟨o', b', ho', hb', hkb, hcon⟩ := h.nested.construct_of_closes? hb hcl
    cases (h.nested.isPart_closer ho).unique (h.nested.isPart_closer hcon)
    refine ⟨⟨bo, hbo, ?_⟩, hother o ho'⟩
    rw [Block.nature?]
    cases hkey : b.keyword <;> rw [hkey] at hgoal hcl <;>
      first | (cases hgoal; done) | cases hcl | (rw [← Option.some.inj hcl]; rfl)
  · rintro ⟨b', hb', hn⟩
    cases hb.symm.trans hb'
    rw [Block.nature?] at hn
    cases hkey : b.keyword <;> rw [hkey] at hgoal hn <;> first | (cases hgoal; done) | cases hn

theorem Session.markReturning_withVars (s : Session) (v : Namespace) :
    ∃ w, (s.withVars v).markReturning = s.markReturning.withVars w := by
  obtain ⟨w, hw⟩ := s.drop_withVars v s.blocks.length
  refine ⟨w, ?_⟩
  unfold Session.markReturning
  rw [Session.blocks_withVars, hw]
  dsimp only
  rw [Session.calls_withVars]
  cases (s.drop s.blocks.length).calls <;> rfl

theorem returnFrom_move (h : s.Ready) {k : Keyword} (hk : s.suite.keywordAt? a = some k)
    (hgoal : goalOf? k = some .function) (expr : String) :
    (returnFrom g a expr).Ends s (Move a s) := by
  obtain ⟨b, hb, rfl⟩ := h.nested.exists_block hk (by cases k <;> first | rfl | cases hgoal)
  unfold returnFrom
  rw [ends_bind]
  refine Ends.block hb ?_
  dsimp only
  rw [ends_bind, ends_ask]
  dsimp only
  split
  · rename_i hother
    refine h.pass_move (passable_of_not_called h hb hgoal fun o ho hc => ?_) s.vars
    simp [hc, ho] at hother
  · rename_i hown
    obtain ⟨o, ho, hcallee⟩ : ∃ o, b.opener = some o ∧ s.callee? = some o := by
      cases hc : s.callee? with
      | none => simp [hc] at hown
      | some o =>
        refine ⟨o, ?_, rfl⟩
        rw [hc] at hown
        exact (by simpa using hown : some o = b.opener).symm
    have ht : s.Transfers a .function :=
      ⟨by rw [hk]; exact hgoal, fun _ => ⟨b, o, hb, ho, hcallee⟩⟩
    rw [ends_bind]
    refine Ends.deferTransfer h.counted (fun d ds hd hl => ?_) (fun hst s' hs' => ?_)
      fun hst hclear => ?_
    · exact (Move.replace (v := s.vars) ht hd hl).withVars h.pending
    · exact .suspend ht hst hs'
    · simp only [Bool.false_eq_true, if_false]
      rw [ends_bind]
      refine (OnlyVars.storeResult g expr).ends fun r v => ?_
      cases r with
      | error f =>
        rw [Session.withVars_eq_proceed h.pending]
        exact .stay (by rintro ⟨⟩)
      | ok _ =>
        cases hcs : s.calls with
        | nil =>
          rw [Session.callee?, hcs] at hcallee
          cases hcallee
        | cons c calls =>
          dsimp only
          simp only [ends_bind, ends_ask, Session.calls_withVars, hcs, ends_change]
          obtain ⟨w, hw⟩ := s.markReturning_withVars v
          refine Ends.goToPart (p := c.returnTo) rfl ?_
          rw [hw, Session.branch_withVars]
          exact .returnFrom ht hst hclear hcs

end

end BlockFlow.Flow
