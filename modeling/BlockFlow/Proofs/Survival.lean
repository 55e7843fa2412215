/-
# Deferred work that lasts

Work that waits for a cleanup section stays as it is, whatever the section does.  `Loss` lists how it can
cease to wait: the closer of its try takes it up, its try is left, a fault comes to its try, or a transfer
that leads out of the section takes its place.

`deferred_work_lasts` says that in suites without transfers to the end of the run there is no other way.  So
a transfer to a loop inside the section, or one in a function that the section calls, leaves the work alone.
-/
import BlockFlow.Proofs.Delivery
import BlockFlow.Proofs.Detours

namespace BlockFlow.Flow

/-! ## 1. Transfers that lead out of a section -/

/-- In the call of the try that work waits for, a loop is running inside the try. -/
def Session.LoopsInside (s : Session) (d : Deferred) : Prop :=
  s.depth = d.depth ∧ ∃ above t rest, s.blocks = above ++ .guarded t :: rest ∧ t.opener = d.resumeAt ∧
    ∃ f ∈ above, f.isLoop = true

/-- A transfer to a loop or out of a function leads out of the section that work waits for: it is made in the
call of the try and, if it goes to a loop, with none running inside the try. -/
def Session.LeadsOut (s : Session) (d : Deferred) (goal : Goal) : Prop :=
  s.depth = d.depth ∧ (goal = .loop → ¬s.LoopsInside d)

section

variable {g : Setting} {s s' : Session} {a origin : Address} {goal : Goal} {d : Deferred} {f : Fault}
  {x : StepResult}

/-- The transfers that take the place of work are those that lead out of its section. -/
theorem Session.Distinct.leadsOut (hs : s.Distinct) (h : s.leavesCleanup d goal = true) (hgoal : goal ≠ .exit) :
    s.LeadsOut d goal := by
  unfold Session.leavesCleanup at h
  split at h
  · exact absurd (beq_iff_eq.1 h) hgoal
  · rename_i hdepth
    refine ⟨not_not.1 hdepth, ?_⟩
    rintro rfl ⟨-, above, t, rest, hb, ho, l, hl, hloop⟩
    rw [if_pos rfl, hb] at h
    -- no try with the opener of this one stands before the loop
    have hbefore : ∀ f ∈ (above ++ .guarded t :: rest).takeWhile fun f => !f.isLoop,
        f.isTryAt d.resumeAt = false := by
      intro f hf
      have hnodup : (s.blocks.map Frame.opener).Nodup := hs _ List.mem_cons_self
      rw [hb, List.map_append, List.nodup_append] at hnodup
      have hin : f ∈ above := by
        rw [List.takeWhile_append, if_neg] at hf
        · exact (List.takeWhile_prefix _).subset hf
        · intro hlen
          have hall := List.takeWhile_eq_self_iff.1 ((List.takeWhile_prefix _).eq_of_length hlen) l hl
          simp [hloop] at hall
      cases f with
      | conditional _ | loop _ => rfl
      | guarded u =>
        refine beq_eq_false_iff_ne.2 fun heq => ?_
        exact hnodup.2.2 u.opener (List.mem_map_of_mem (f := Frame.opener) hin) t.opener
          (by rw [List.map_cons]; exact List.mem_cons_self) (heq.trans ho.symm)
    rw [leavesTry_eq_false ⟨l, List.mem_append_left _ hl, hloop⟩ hbefore] at h
    cases h

/-- A transfer that waits for a section on its way leaves the tries that it does not lead out of. -/
theorem Suspends.mem_spots (h : Suspends origin goal s s') (hgoal : goal ≠ .exit)
    (hspot : d.spot ∈ s.spots fun _ => true) (hin : ¬s.LeadsOut d goal) : d.spot ∈ s'.spots fun _ => true := by
  obtain ⟨pre, L, post, above, t, rest, p, hlev, hb, -, -, -, hlev', -, hloop, -, hpre⟩ := h.levels default
  rw [hpre hgoal] at hlev
  obtain ⟨rfl, rfl⟩ := List.cons.inj hlev
  rw [s'.spots_eq _ default, hlev' default, spotsOf, List.mem_append]
  rcases List.mem_append.1 hspot with htop | hout
  · obtain ⟨hdepth, -⟩ := mem_spotsIn.1 htop
    obtain ⟨rfl, -, above', t', rest', hb', ho, f, hf, hfl⟩ : goal = .loop ∧ s.LoopsInside d := by
      have hdepth : s.depth = d.depth := hdepth.symm
      by_contra hno
      exact hin ⟨hdepth, fun hg hl => hno ⟨hg, hl⟩⟩
    refine .inl (mem_spotsIn.2 ⟨hdepth.trans s.depth_eq, t', List.mem_cons_of_mem _ ?_, rfl, ho⟩)
    -- the loop stands outside of the try whose section is entered
    rcases List.append_eq_append_iff.1 (hb.symm.trans hb') with ⟨c, hc, hrest⟩ | ⟨c, hc, -⟩
    · cases c with
      | nil =>
        rw [List.append_nil] at hc
        rw [hloop rfl f (hc ▸ hf)] at hfl
        cases hfl
      | cons y c =>
        rw [(List.cons.inj hrest).2]
        simp
    · rw [hloop rfl f (by rw [hc]; exact List.mem_append_left _ hf)] at hfl
      cases hfl
  · exact .inr hout

/-! ## 2. Steps -/

/-- The command of a transfer has one goal. -/
theorem Session.Transfers.goal_eq {goal' : Goal} (h : s.Transfers a goal) (h' : s.Transfers a goal') :
    goal = goal' := Option.some.inj (h.carries.symm.trans h'.carries)

/-- A step that goes on finishes a call or is a move. -/
theorem Step.of_done (h : Step g a s .done s') :
    (∃ v, s' = s.abortCall.withVars v) ∨ s.Ready ∧ Move a s (.ok ()) s' := by
  cases h with
  | finish => exact .inl ⟨_, rfl⟩
  | move ready move => exact .inr ⟨ready, move⟩

/-- **What a command leaves of deferred work**, if it goes on. -/
theorem Move.keeps (m : Move a s (.ok ()) s') (hready : s.Ready) (hdistinct : s.Distinct)
    (hlacks : s.suite.Lacks .exitTest) (hm : s.Mirrors) (hd : d ∈ s.deferred) : d ∈ s'.deferred ∨
      (∃ t rest ds, s.TakesUp a t rest d ds) ∨
      (d.spot ∉ s'.spots fun _ => true) ∧ (∀ goal, s.Transfers a goal → s.LeadsOut d goal) ∨
      ∃ goal ds, s.Transfers a goal ∧ s.LeadsOut d goal ∧ s.deferred = d :: ds ∧
        s'.deferred = { d with work := .transfer a goal } :: ds := by
  have hkept {u : Session} (h : u.deferred = s.deferred) : d ∈ u.deferred := h ▸ hd
  have hsuspends {u : Session} {origin : Address} {goal : Goal} (hu : d ∈ u.deferred)
      (h : Suspends origin goal u s') : d ∈ s'.deferred ∨ d.spot ∉ s'.spots fun _ => true := by
    obtain ⟨t, rest, -, hdef⟩ := h.deferred
    by_cases hspot : d.spot ∈ s'.spots fun _ => true
    · rw [hdef]
      exact .inl (List.mem_cons_of_mem _ (List.mem_filter.2 ⟨hu, decide_eq_true hspot⟩))
    · exact .inr hspot
  cases m with
  | stay | skipHandler | skipFunction | exit | enterCall => exact .inl hd
  | jump | enter | enterTry | branch | reachFinally | closeTry | repeat_ | again =>
    exact .inl (hkept (s.deferred_setBlocks _))
  | leave => exact .inl (hkept (s.kept_drop 1).deferred)
  | @resume t rest e ds origin goal v resumes =>
    rcases List.mem_cons.1 (resumes.deferred ▸ hd) with rfl | hmem
    · exact .inr (.inl ⟨t, rest, ds, resumes.takesUp⟩)
    · exact .inl hmem
  | @resuspend t rest e ds origin goal _ top closer active deferred resumeAt depth work suspends =>
    have htakes : s.TakesUp a t rest e ds := ⟨top, closer, active, deferred, resumeAt, depth⟩
    rcases List.mem_cons.1 (deferred ▸ hd) with rfl | hmem
    · exact .inr (.inl ⟨t, rest, ds, htakes⟩)
    · rcases hsuspends (u := (s.leaveTry t rest).withDeferred ds) hmem suspends with hin | hout
      · exact .inl hin
      · exact .inr (.inr (.inl ⟨hout, fun goal ht => absurd ht (htakes.not_transfers hready)⟩))
  | @replace e ds goal v transfers deferred leaves =>
    rcases List.mem_cons.1 (deferred ▸ hd) with rfl | hmem
    · exact .inr (.inr (.inr
        ⟨goal, ds, transfers, hdistinct.leadsOut leaves (transfers.ne_exit hlacks), deferred, rfl⟩))
    · exact .inl (List.mem_cons_of_mem _ hmem)
  | @suspend goal _ transfers stays suspends =>
    rcases hsuspends hd suspends with hin | hout
    · exact .inl hin
    · refine .inr (.inr (.inl ⟨hout, fun goal' ht => ?_⟩))
      cases transfers.goal_eq ht
      by_contra hno
      obtain ⟨t, ht', -, ho⟩ := Session.mem_spots_iff.1 (hm.subset (List.mem_map_of_mem (f := Deferred.spot) hd))
      refine hout (suspends.mem_spots (transfers.ne_exit hlacks) ?_ hno)
      exact Session.mem_spots_iff.2 ⟨t, ht', rfl, ho⟩
  | breakLoop | continueLoop => exact .inl (hkept ((s.kept_drop _).trans (Session.kept_setBlocks _ _)).deferred)
  | returnFrom transfers stays clear call => exact .inl (hkept (Session.kept_markReturning call).deferred)

/-- A command that fails takes up deferred work or leaves it alone. -/
theorem Move.keeps_of_error (m : Move a s (.error f) s') (hd : d ∈ s.deferred) :
    d ∈ s'.deferred ∨ ∃ t rest ds, s.TakesUp a t rest d ds := by
  cases m with
  | stay => exact .inl hd
  | enter | branch | again => exact .inl ((s.deferred_setBlocks _).symm ▸ hd)
  | @rethrow t rest e ds _ _ top closer active deferred resumeAt depth work =>
    rcases List.mem_cons.1 (deferred ▸ hd) with rfl | hmem
    · exact .inr ⟨t, rest, ds, top, closer, active, deferred, resumeAt, depth⟩
    · exact .inl hmem
  | adrift => exact .inl ((s.kept_drop _).deferred ▸ hd)

/-- The work that is left once a fault has come to a try. -/
theorem Session.mem_relieve {u : Session} {o : Address} : d ∈ (u.relieve o).deferred ↔
    d ∈ u.deferred ∧ (d.spot ∈ u.spots fun _ => true) ∧ d.spot ≠ (u.depth, o) := by
  rw [Session.relieve, Session.deferred_forgetDeferred, List.mem_filter, Session.deferred_pruneDeferred,
    List.mem_filter, decide_eq_true_iff, decide_eq_true_iff, and_assoc]
  exact Iff.rfl

/-- No work is left once a fault has come to the only try that takes part. -/
theorem Session.Mirrors.relieve_eq_nil (hm : s.Mirrors) (hc : s.Counted) {k n : Nat} {t : TryFrame}
    {rest : List Frame} (hr : s.Reaches k n t rest) (hzero : s.nesting = 0) :
    (((s.abortCalls k).drop n).relieve t.opener).deferred = [] := by
  obtain ⟨post, -, ho, hsub⟩ := hm.relieve hr
  have hlen := hc.length_tries
  rw [hr.placed.choose_spec.2, hzero, List.length_cons] at hlen
  have hnone : triesIn (rest :: post.map Level.blocks) = [] := by
    rw [← ho]
    exact List.length_eq_zero_iff.1 (by omega)
  have hspots : spotsOf (TryFrame.isSettled s.suite) (⟨rest, default, none⟩ :: post) = [] := by
    refine List.eq_nil_iff_forall_not_mem.2 fun y hy => ?_
    obtain ⟨u, hu, hkind, -⟩ := mem_spotsOf_iff.1 hy
    have : (y.1, u) ∈ triesIn (rest :: post.map Level.blocks) := List.mem_filterMap.2
      ⟨_, hu, by rw [Frame.active?_of_isActive (TryFrame.isSettled_iff.1 hkind).1]; rfl⟩
    rw [hnone] at this
    cases this
  rw [spotsOf] at hspots
  rw [hspots] at hsub
  exact List.map_eq_nil_iff.1 (List.sublist_nil.1 hsub)

/-- **What an offer leaves of deferred work**: all but that of the try that the fault comes to, and of those
that are left. -/
theorem Offer.keeps {r : Disposition} (o : Offer g f s r s') (hc : s.Counted) (hm : s.Mirrors)
    (hd : d ∈ s.deferred) : d ∈ s'.deferred ∨ (d.spot ∉ s'.spots fun _ => true) ∨
      f.isCatchable = true ∧ ∃ t, s.tries.head? = some (d.depth, t) ∧ t.opener = d.resumeAt := by
  have hmain {k n : Nat} {t : TryFrame} {rest : List Frame} (hcatch : f.isCatchable = true)
      (hr : s.Reaches k n t rest) (t' : TryFrame) (ho : t'.opener = t.opener) {ds : List Deferred}
      (hds : d ∈ (((s.abortCalls k).drop n).relieve t.opener).deferred → d ∈ ds)
      (hs' : s'.blocks = .guarded t' :: rest) (hout : s'.outer = ((s.abortCalls k).drop n).outer) :
      d ∈ ds ∨ (d.spot ∉ s'.spots fun _ => true) ∨
        f.isCatchable = true ∧ ∃ t, s.tries.head? = some (d.depth, t) ∧ t.opener = d.resumeAt := by
    by_cases hspot : d.spot = (((s.abortCalls k).drop n).depth, t.opener)
    · obtain ⟨hdepth, hopener⟩ := Prod.mk.inj hspot
      refine .inr (.inr ⟨hcatch, t, ?_, hopener.symm⟩)
      rw [hr.placed.choose_spec.2, hdepth]
      rfl
    · by_cases hstands : d.spot ∈ ((s.abortCalls k).drop n).spots fun _ => true
      · exact .inl (hds (Session.mem_relieve.2 ⟨hr.kept.deferred ▸ hd, hstands, hspot⟩))
      · refine .inr (.inl ?_)
        rw [Session.spots_of_blocks hs' hout, spotsIn_guarded, ho]
        rwa [Session.spots, hr.blocks, spotsIn_guarded] at hstands
  cases o with
  | refused => exact .inl hd
  | @caught k n t rest p v catchable reaches =>
    exact hmain catchable reaches t.enterHandler rfl (fun h => by rwa [← Session.deferred_setBlocks] at h)
      (Session.blocks_setBlocks _ _) (Session.outer_setBlocks _ _)
  | @cleaned k n t rest p v catchable reaches =>
    exact hmain catchable reaches t.enterCleanup rfl (fun h => by
      rw [Session.deferred_proceed, Session.detain, Session.deferred_setBlocks]
      exact List.mem_cons_of_mem _ h) (Session.blocks_setBlocks _ _) (Session.outer_setBlocks _ _)
  | @passed k n t rest e v catchable reaches =>
    exact hmain catchable reaches t rfl (fun h => by
      rw [Session.deferred_proceed, Session.detain, Session.deferred_setBlocks]
      exact List.mem_cons_of_mem _ h) (Session.blocks_setBlocks _ _) (Session.outer_setBlocks _ _)
  | @spent k n t rest v catchable reaches _ _ nesting =>
    refine hmain catchable reaches t rfl (fun h => ?_) (Session.blocks_setBlocks _ _) (Session.outer_setBlocks _ _)
    rw [hm.relieve_eq_nil hc reaches nesting] at h
    cases h

end

/-! ## 3. Runs -/

/-- **How work ceases to wait** in the step from one moment to the next. -/
inductive Loss {σ : Type} (g : Setting) (host : Host σ) (d : Deferred) (m : Moment σ) (x : StepResult)
    (m' : Moment σ) : Prop
  /-- The closer of its try takes it up. -/
  | closed {a : Address} {t : TryFrame} {rest : List Frame} {ds : List Deferred} (next : m.next? = some a)
      (takes : m.poised.session.TakesUp a t rest d ds)
  /-- Its try is left. -/
  | left (gone : d.spot ∉ m'.session.spots fun _ => true)
  /-- A fault comes to its try. -/
  | reached {f : Fault} {s : Session} {t : TryFrame} (fails : m.Fails g host f s)
      (catchable : f.isCatchable = true) (comes : s.tries.head? = some (d.depth, t))
      (opener : t.opener = d.resumeAt)
  /-- A transfer that leads out of its section takes its place. -/
  | replaced {a : Address} {goal : Goal} {ds : List Deferred} (next : m.next? = some a)
      (transfers : m.poised.session.Transfers a goal) (out : m.session.LeadsOut d goal) (done : x = .done)
      (newest : m.session.deferred = d :: ds)
      (after : m'.session.deferred = { d with work := .transfer a goal } :: ds)

section

variable {σ : Type} {g : Setting} {host : Host σ} {m₀ m m' : Moment σ} {a : Address} {goal : Goal}
  {d : Deferred} {x : StepResult}

/-- A step goes on, or its command fails and the fault is offered to the tries. -/
theorem Reachable.done_or_fails (hreach : Reachable g host m₀ m) (hm₀ : m₀.Starts)
    (hadv : m.advance g host = some (x, m')) : x = .done ∨
      x ≠ .done ∧ ∃ f s r, m.Fails g host f s ∧ Offer g f s r m'.session := by
  obtain ⟨a, ha, heq⟩ := Option.map_eq_some_iff.1 hadv
  rcases hrun : m.poised.runCommand g host a with ⟨r, w⟩
  cases r with
  | ok _ =>
    rw [World.step, hrun] at heq
    exact .inl (Prod.mk.inj heq).1.symm
  | error f =>
    have hfails : m.Fails g host (f.attach (m.session.suite.commandRef a)) w.session :=
      ⟨a, f, w, ha, hrun, rfl, rfl⟩
    obtain ⟨-, -, -, -, x', m₁, hadv', hcase⟩ := hfails.offer hm₀ hreach
    cases hadv.symm.trans hadv'
    rcases hcase with ⟨f', rfl, hoffer⟩ | ⟨rfl, hoffer⟩
    · exact .inr ⟨by rintro ⟨⟩, _, _, _, hfails, hoffer⟩
    · exact .inr ⟨by rintro ⟨⟩, _, _, _, hfails, hoffer⟩

/-- **What a step that goes on leaves of deferred work.** -/
theorem Reachable.keeps_of_done (hreach : Reachable g host m₀ m) (hm₀ : m₀.Starts)
    (hlacks : m₀.session.suite.Lacks .exitTest) (hd : d ∈ m.session.deferred) (ha : m.next? = some a)
    (hadv : m.advance g host = some (.done, m')) : d ∈ m'.session.deferred ∨
      Loss g host d m .done m' ∧ ∀ goal, m.poised.session.Transfers a goal → m.session.LeadsOut d goal := by
  have hu := hreach.upright_of_exitless hm₀ hlacks
  have hs := hreach.sound hm₀
  have hpoised : m.poised.session = m.session.poise (some a) := by rw [← ha]; rfl
  obtain ⟨a', ha', -, -, hstep⟩ := Moment.step_of_advance hs hadv
  cases ha.symm.trans ha'
  rw [← hpoised] at hstep
  rcases hstep.of_done with ⟨v, hfinish⟩ | ⟨ready, move⟩
  · rw [hfinish]
    exact .inl (m.poised.session.kept_abortCall.deferred ▸ hd)
  · have hlacks : m.poised.session.suite.Lacks .exitTest := (hreach.suite hm₀).symm ▸ hlacks
    rcases move.keeps ready (hu.stands.distinct hs) hlacks hu.mirrors hd with
      hin | ⟨t, rest, ds, htakes⟩ | ⟨hgone, hout⟩ | ⟨goal, ds, ht, hout, hnew, hafter⟩
    · exact .inl hin
    · exact .inr ⟨.closed ha htakes, fun goal ht => absurd ht (htakes.not_transfers ready)⟩
    · exact .inr ⟨.left hgone, hout⟩
    · refine .inr ⟨.replaced ha ht hout rfl hnew hafter, fun goal' ht' => ?_⟩
      rw [← ht.goal_eq ht']
      exact hout

/-- **Work waits through a step**, or ceases to in one of the ways listed. -/
theorem Reachable.keeps_or_loses (hreach : Reachable g host m₀ m) (hm₀ : m₀.Starts)
    (hlacks : m₀.session.suite.Lacks .exitTest) (hd : d ∈ m.session.deferred)
    (hadv : m.advance g host = some (x, m')) : d ∈ m'.session.deferred ∨ Loss g host d m x m' := by
  rcases hreach.done_or_fails hm₀ hadv with rfl | ⟨-, f, s, r, hfails, hoffer⟩
  · obtain ⟨a, ha, -⟩ := Option.map_eq_some_iff.1 hadv
    exact (hreach.keeps_of_done hm₀ hlacks hd ha hadv).imp_right And.left
  · have hu := hreach.upright_of_exitless hm₀ hlacks
    obtain ⟨a, f', ha, hmove⟩ := hfails.move hm₀ hreach
    rcases hmove.keeps_of_error hd with hin | ⟨t, rest, ds, htakes⟩
    · have hmirrors := hmove.mirrors hu.mirrors (hu.stands.distinct (hreach.sound hm₀))
      rcases hoffer.keeps (hfails.offer hm₀ hreach).1.counted hmirrors hin with
        hin | hgone | ⟨hcatch, t, hcomes, ho⟩
      · exact .inl hin
      · exact .inr (.left hgone)
      · exact .inr (.reached hfails hcatch hcomes ho)
    · exact .inr (.closed ha htakes)

/-- **Work waits through a run**, up to the step in which it ceases to. -/
theorem Reachable.lasts_or_ends (hreach : Reachable g host m₀ m) (hm₀ : m₀.Starts)
    (hlacks : m₀.session.suite.Lacks .exitTest) (hd : d ∈ m.session.deferred) (h : Reachable g host m m') :
    Along g host (fun s => d ∈ s.deferred) m m' ∨ ∃ m₁ x m₂, Along g host (fun s => d ∈ s.deferred) m m₁ ∧
      m₁.advance g host = some (x, m₂) ∧ Loss g host d m₁ x m₂ ∧ Reachable g host m₂ m' := by
  induction h with
  | start => exact .inl (.start hd)
  | step reached advance handled goesOn ih =>
    rcases ih with along | ⟨m₁, y, m₂, along, hadv, hloss, hafter⟩
    · rcases (hreach.trans reached).keeps_or_loses hm₀ hlacks along.holds advance with hin | hloss
      · exact .inl (.step along advance handled goesOn hin)
      · exact .inr ⟨_, _, _, along, advance, hloss, .start⟩
    · exact .inr ⟨m₁, y, m₂, along, hadv, hloss, .step hafter advance handled goesOn⟩

/-- Faults that wait have the reference of the command that failed with them. -/
theorem Reachable.attributed (hreach : Reachable g host m₀ m) (hm₀ : m₀.Starts) :
    ∀ e ∈ m.session.deferred, e.work.IsAttributed := by
  refine hreach.invariant (P := fun s _ => ∀ e ∈ s.deferred, e.work.IsAttributed) hm₀ (fun _ h => h) ?_ ?_
  · obtain ⟨units, suite, vars, σ', unit, -, rfl⟩ := hm₀
    rintro _ ⟨⟩
  · intro m s' a x _ _ ih hstep hx _ e he
    rcases hstep.deferred hx e he with hold | ⟨hnew, -⟩
    · exact ih e hold
    · exact hnew

/-- At the closer of its try work is taken up. -/
theorem Reachable.takes_up_at_closer (hreach : Reachable g host m₀ m) (hm₀ : m₀.Starts)
    (hlacks : m₀.session.suite.Lacks .exitTest) (hd : d ∈ m.session.deferred) (ha : m.next? = some a)
    (hdepth : m.session.depth = d.depth) (hcloser : m.session.suite.Construct d.resumeAt a) :
    ∃ t rest ds, m.poised.session.TakesUp a t rest d ds := by
  have hu := hreach.upright_of_exitless hm₀ hlacks
  have hs := hreach.sound hm₀
  rw [m.place_of_next? ha] at hu hs
  exact (hu.poise m.next?).takes_up (hs.poise m.next?) hd hdepth hcloser

/-- **Deferred work lasts.**  In a suite without transfers to the end of the run, work that waits for the
cleanup section of a try keeps waiting, unchanged, in every step and in every run up to the step in which the
closer of the try takes it up, the try is left, a fault comes to the try, or a transfer takes its place that
is made in the call of the try and, if it goes to a loop, with none running inside the try.  A transfer of any
other kind that goes on leaves the work alone.  The closer of the try fails with the fault that waits, and
goes on with the transfer that does. -/
theorem deferred_work_lasts (hm₀ : m₀.Starts) (hlacks : m₀.session.suite.Lacks .exitTest)
    (hreach : Reachable g host m₀ m) (hd : d ∈ m.session.deferred) :
    (∀ x m', m.advance g host = some (x, m') → d ∈ m'.session.deferred ∨ Loss g host d m x m') ∧
    (∀ m', Reachable g host m m' → Along g host (fun s => d ∈ s.deferred) m m' ∨
      ∃ m₁ x m₂, Along g host (fun s => d ∈ s.deferred) m m₁ ∧ m₁.advance g host = some (x, m₂) ∧
        Loss g host d m₁ x m₂ ∧ Reachable g host m₂ m') ∧
    (∀ a goal m', m.next? = some a → m.poised.session.Transfers a goal → ¬m.session.LeadsOut d goal →
      m.advance g host = some (.done, m') → d ∈ m'.session.deferred) ∧
    (∀ a, m.next? = some a → m.session.depth = d.depth → m.session.suite.Construct d.resumeAt a →
      ∃ t rest ds, m.poised.session.TakesUp a t rest d ds ∧
        (∀ f, d.work = .fault f →
          ∃ v, m.Fails g host f ((m.poised.session.relieved t rest ds).withVars v)) ∧
        ∀ origin goal, d.work = .transfer origin goal → ∃ m₁, m.advance g host = some (.done, m₁) ∧
          (Suspends origin goal (m.poised.session.relieved t rest ds) m₁.session ∨ m₁.Arrives origin goal)) := by
  refine ⟨fun x m' hadv => hreach.keeps_or_loses hm₀ hlacks hd hadv,
    fun m' h => hreach.lasts_or_ends hm₀ hlacks hd h, fun a goal m' ha ht hin hadv => ?_,
    fun a ha hdepth hcloser => ?_⟩
  · rcases hreach.keeps_of_done hm₀ hlacks hd ha hadv with hkept | ⟨-, hout⟩
    · exact hkept
    · exact absurd (hout goal ht) hin
  · obtain ⟨t, rest, ds, htakes⟩ := hreach.takes_up_at_closer hm₀ hlacks hd ha hdepth hcloser
    refine ⟨t, rest, ds, htakes, fun f hw => ?_, fun origin goal hw => ?_⟩
    · exact hreach.raises hm₀ ha htakes hw (hreach.attributed hm₀ d hd f hw)
    · obtain ⟨m₁, hadv, hsus | ⟨-, harrives, -⟩⟩ := hreach.closes hm₀ ha htakes hw
      · exact ⟨m₁, hadv, .inl hsus⟩
      · exact ⟨m₁, hadv, .inr harrives⟩

/-- A `break` in a cleanup section, out of a loop and a try inside the section, leaves the fault alone that waits
for the section, and the section's closer fails with it. -/
theorem break_inside_cleanup_keeps_fault : ∃ (m₀ m m₁ m₂ : Moment Unit) (f : Fault) (d : Deferred) (s : Session),
    Moment.ofUnits [.named "main" [{ name := "try" }, { name := "throw" }, { name := "finally" },
      { name := "while", target := "c" }, { name := "try" }, { name := "break" }, { name := "finally" },
      { name := "endTry" }, { name := "endWhile" }, { name := "endTry" }]] = .ok m₀ ∧
    d.work = .fault f ∧ m₀.after? .trivial silent 5 = some m ∧ m.session.deferred = [d] ∧
    m.next? = some ⟨0, 5⟩ ∧ m.advance .trivial silent = some (.done, m₁) ∧ d ∈ m₁.session.deferred ∧
    m₀.after? .trivial silent 10 = some m₂ ∧ m₂.session.deferred = [d] ∧ m₂.next? = some ⟨0, 9⟩ ∧
      m₂.Fails .trivial silent f s := by
  obtain ⟨m₀, m, m₁, m₂, f, d, hm₀, hlacks, hw, hm, hd, ha, ht, hinside, hadv, hm₂, hd₂, ha₂, hdepth, hcloser⟩ :
      ∃ (m₀ m m₁ m₂ : Moment Unit) (f : Fault) (d : Deferred),
      Moment.ofUnits [.named "main" [{ name := "try" }, { name := "throw" }, { name := "finally" },
        { name := "while", target := "c" }, { name := "try" }, { name := "break" }, { name := "finally" },
        { name := "endTry" }, { name := "endWhile" }, { name := "endTry" }]] = .ok m₀ ∧
      m₀.session.suite.Lacks .exitTest ∧ d.work = .fault f ∧ m₀.after? .trivial silent 5 = some m ∧
      m.session.deferred = [d] ∧ m.next? = some ⟨0, 5⟩ ∧ m.poised.session.Transfers ⟨0, 5⟩ .loop ∧
      m.session.LoopsInside d ∧ m.advance .trivial silent = some (.done, m₁) ∧
      m₀.after? .trivial silent 10 = some m₂ ∧ m₂.session.deferred = [d] ∧ m₂.next? = some ⟨0, 9⟩ ∧
      m₂.session.depth = d.depth ∧ m₂.session.suite.Construct d.resumeAt ⟨0, 9⟩ :=
    ⟨_, _, _, _, _, _, rfl, by decide, rfl, rfl, rfl, rfl, ⟨rfl, nofun⟩,
      ⟨rfl, [_, _], _, [], rfl, rfl, _, List.mem_cons_of_mem _ List.mem_cons_self, rfl⟩, rfl, rfl, rfl, rfl, rfl,
      ⟨_, rfl, rfl, rfl⟩⟩
  have hstarts := starts_ofUnits hm₀
  obtain ⟨-, -, hinner, -⟩ := deferred_work_lasts hstarts hlacks (reachable_of_after? hm) (d := d)
    (by rw [hd]; exact List.mem_cons_self)
  obtain ⟨-, -, -, hclose⟩ := deferred_work_lasts hstarts hlacks (reachable_of_after? hm₂) (d := d)
    (by rw [hd₂]; exact List.mem_cons_self)
  obtain ⟨t, rest, ds, -, hraises, -⟩ := hclose _ ha₂ hdepth hcloser
  obtain ⟨v, hfails⟩ := hraises f hw
  exact ⟨m₀, m, m₁, m₂, f, d, _, hm₀, hw, hm, hd, ha, hadv,
    hinner _ _ _ ha ht (fun hout => hout.2 rfl hinside) hadv, hm₂, hd₂, ha₂, hfails⟩

end

end BlockFlow.Flow
