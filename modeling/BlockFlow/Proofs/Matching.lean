/-
# Deferred work is matched with tries

At every stage of a run over a suite without transfers to the end of the run the deferred work, oldest first,
waits for tries at positions that go up, one work for one try (`deferred_work_is_matched`).  So the work for
the innermost try is the newest when the run comes to the try's closer, which takes it up, and a try at which
work is waiting stays at its position as long as the work does.

The stages are those of `Stage`, so that this holds also between a command that fails and the offer of its
fault.  What carries the induction is that the session is upright there: `Phase.Upright`, `Stage.upright`.
-/
import BlockFlow.Proofs.Counting
import BlockFlow.Proofs.Positions

namespace BlockFlow.Flow

/-! ## 1. Tries that go on -/

section

variable {g : Setting} {a : Address} {s s' : Session} {x : StepResult} {t' : TryFrame} {rest : List Frame}
  {post : List (List Frame)} {d : Deferred} {q : Position}

/-- Where a try comes from that is running after a step: it was running before, or it has been entered.  Only
a step after which no work is deferred may end otherwise. -/
theorem Step.try_origin (h : Step g a s x s') (hne : s'.deferred ≠ []) (hB : s'.Bears (.guarded t') rest post) :
    (∃ t, s.Bears (.guarded t) rest post ∧ t.Advances t') ∨
      s.blockStacks = rest :: post ∧ s'.blockStacks = (.guarded t' :: rest) :: post := by
  by_cases hx : ∀ f, x ≠ .unhandled f
  · rcases (h.shift hx).origin hB with hbefore | ⟨hafter, ⟨hstacks, -⟩ | ⟨f, hbefore, hbecomes, -⟩⟩
    · exact .inl ⟨t', hbefore, .refl t'⟩
    · exact .inr ⟨hstacks, hafter⟩
    · cases hbecomes with
      | guarded advances => exact .inl ⟨_, hbefore, advances⟩
  · obtain ⟨f, rfl⟩ := not_forall_not.1 hx
    cases h with
    | unhandled ready move offer =>
      cases offer with
      | refused =>
        obtain ⟨left, hleft⟩ := hB
        obtain ⟨left, hleft⟩ := move.placed_of_error hleft
        exact .inl ⟨t', ⟨left, hleft⟩, .refl t'⟩
      | spent => exact absurd rfl hne

/-- **The try for which work is waiting stays** at its position and goes on there, if the work is deferred after
the step. -/
theorem Step.waitsAt (h : Step g a s x s') (hdistinct : s.Distinct) (hm : s'.Matched) (hd : d ∈ s'.deferred)
    (hq : s.WaitsAt d q) : s'.WaitsAt d q ∧ ∃ t t', s.frameAt? q = some (.guarded t) ∧
      s'.frameAt? q = some (.guarded t') ∧ t.Advances t' := by
  obtain ⟨q', hq'⟩ := hm.exists_waitsAt hd
  obtain ⟨hdepth, t, ht, -, ho⟩ := hq
  obtain ⟨hdepth', t', ht', -, ho'⟩ := id hq'
  have hne := List.ne_nil_of_mem hd
  obtain ⟨rest, post, hbears, hpos⟩ := mem_located.1 (Session.frameAt?_eq_some_iff.1 ht')
  rcases h.try_origin hne hbears with ⟨u, hbefore, hadv⟩ | ⟨hstacks, hafter⟩
  · have hu : s.frameAt? q' = some (.guarded u) :=
      Session.frameAt?_eq_some_iff.2 (mem_located.2 ⟨rest, post, hbefore, hpos⟩)
    obtain rfl := hdistinct.eq_of_opener ht hu (hdepth.trans hdepth'.symm)
      (ho.trans (ho'.symm.trans hadv.opener))
    exact ⟨hq', u, t', hu, ht', hadv⟩
  · -- no try of the same opener was running in the call in which one has been entered
    exfalso
    have hbelow : (q, .guarded t) ∈ located (rest :: post) := hstacks ▸ Session.frameAt?_eq_some_iff.1 ht
    have hlocated : located s'.blockStacks =
        (⟨post.length + 1, rest.length⟩, .guarded t') :: located (rest :: post) := by
      rw [hafter]
      rfl
    have hlt : q.Before q' := by
      have hpair := pairwise_located (A := s'.blockStacks)
      rw [hlocated, List.pairwise_cons] at hpair
      exact hpos ▸ hpair.1 _ hbelow
    have hin : s'.frameAt? q = some (.guarded t) :=
      Session.frameAt?_eq_some_iff.2 (hlocated ▸ List.mem_cons_of_mem _ hbelow)
    obtain rfl := (hm.distinct hne).eq_of_opener hin ht' (hdepth.trans hdepth'.symm) (ho.trans ho'.symm)
    exact q.not_before_self hlt

end

/-! ## 2. Work that is taken up -/

/-- **Deferred work is taken up** by the command at an address, leaving other work: no work waits for its try
any more, and a fault is raised, while a transfer goes back to its command or waits for another try. -/
structure Deferred.TakenUp (d : Deferred) (a : Address) (ds : List Deferred) (r : Except Fault Unit)
    (s' : Session) : Prop where
  gone : ∀ e ∈ s'.deferred, e.spot ≠ d.spot
  fault : ∀ f, d.work = .fault f → r = .error (f.attach (s'.suite.commandRef a)) ∧ s'.deferred = ds
  transfer : ∀ origin goal, d.work = .transfer origin goal → r = .ok () ∧
    (s'.deferred = ds ∧ s'.pending = some origin ∨
      ∃ e es, s'.deferred = e :: es ∧ e.work = d.work ∧ es.Sublist ds)

section

variable {σ : Type} {g : Setting} {host : Host σ} {w w' : World σ} {a : Address} {t : TryFrame}
  {rest : List Frame} {d : Deferred} {ds : List Deferred} {r : Except Fault Unit}

/-- **The closer of a try takes up** the work that waits for it. -/
theorem Session.TakesUp.takenUp (h : w.session.TakesUp a t rest d ds) (hready : w.session.Ready)
    (hm : w.session.Matched) (hc : w.session.current = some a) (hrun : w.runCommand g host a = (r, w')) :
    d.TakenUp a ds r w'.session := by
  have hdistinct := hm.distinct (h.deferred ▸ List.cons_ne_nil _ _)
  have hothers : ∀ e ∈ ds, e.spot ≠ d.spot := by
    have hpair := hm.pairwise_spot
    rw [h.deferred, List.pairwise_cons] at hpair
    exact fun e he => (hpair.1 e he).symm
  have hspot : d.spot = (w.session.depth, t.opener) := Prod.ext h.depth h.resumeAt
  obtain ⟨s', hfault, htransfer⟩ := h.runCommand hready hc g host
  cases hwork : d.work with
  | fault f =>
    obtain ⟨hf, v, rfl⟩ := hfault f hwork
    obtain ⟨rfl, rfl⟩ := Prod.mk.inj (hrun.symm.trans hf)
    refine ⟨hothers, fun f' hw => ?_, fun origin goal hw => by cases hwork.symm.trans hw⟩
    cases hwork.symm.trans hw
    exact ⟨rfl, rfl⟩
  | transfer origin goal =>
    obtain ⟨hok, hsuspends | ⟨-, v, rfl⟩⟩ := htransfer origin goal hwork <;>
      obtain ⟨rfl, rfl⟩ := Prod.mk.inj (hrun.symm.trans hok)
    · obtain ⟨u, rest', hb, hdef⟩ := hsuspends.deferred
      have hsub : (ds.filter fun e => decide (e.spot ∈ s'.spots fun _ => true)).Sublist ds := List.filter_sublist
      refine ⟨?_, fun f hw => (by cases hwork.symm.trans hw), fun origin' goal' hw => ?_⟩
      · dsimp only
        rw [hdef]
        refine List.forall_mem_cons.2 ⟨fun heq => ?_, fun e he => hothers e (hsub.subset he)⟩
        -- the try for which the transfer waits now was around the one that was left
        have hmem := hsuspends.spot_mem hb
        rw [show (s'.depth, u.opener) = (w.session.depth, t.opener) from heq.trans hspot] at hmem
        exact hdistinct.spot_not_mem h.top ds _ hmem
      · cases hwork.symm.trans hw
        exact ⟨rfl, .inr ⟨_, _, hdef, hwork.symm, hsub⟩⟩
    · refine ⟨hothers, fun f hw => (by cases hwork.symm.trans hw), fun origin' goal' hw => ?_⟩
      cases hwork.symm.trans hw
      exact ⟨rfl, .inl ⟨rfl, rfl⟩⟩

end

/-! ## 3. What one part of a step keeps -/

section

variable {σ : Type} {g : Setting} {host : Host σ} {w w' : World σ} {s s' : Session} {a : Address}
  {r : Except Fault Unit} {f : Fault}

/-- A session without a call that has ended is sound wherever it goes on. -/
theorem Session.Sound.of_running {p : Address} (h : s.Sound p) (hr : s.Running) (q : Address) : s.Sound q where
  toFitted := h.toFitted
  calls := h.calls
  running := h.running
  returning c calls hc hret := by
    have := hr c (hc ▸ List.mem_cons_self)
    cases hret.symm.trans this
  ledger := h.ledger

/-- A command keeps the suite. -/
theorem World.suite_runCommand (hs : w.session.Sound a) (hp : w.session.pending = none)
    (hc : w.session.current = some a) (hrun : w.runCommand g host a = (r, w')) :
    w'.session.suite = w.session.suite := by
  rcases World.runCommand_cases hs hp hc hrun with ⟨-, hstep⟩ | ⟨f, f', -, -, hmove, -⟩
  · exact hstep.kept.1
  · exact hmove.kept.1

theorem Session.Upright.matched (h : s.Upright a) (hs : s.Sound a) : s.Matched :=
  h.mirrors.matched (h.stands.distinct hs)

/-- **A command that fails leaves the session upright** at some address. -/
theorem Move.upright_of_error (m : Move a s (.error f) s') (hready : s.Ready) (hs : s.Sound a) (hu : s.Upright a)
    (hlacks : s.suite.Lacks .exitTest) : ∃ p, s'.Upright p := by
  obtain ⟨hr, p, hlaid⟩ := m.laid_of_error hready hs (enclosing_fair hs.nested) hu.stands
    (Ground.carries_bottom_levels s')
    (fun t rest d ds origin goal hres fs R hrest hholds =>
      hu.holds_origin hs hres (by rintro rfl; exact hs.not_resumes_exit hlacks hres) hrest hholds)
    (fun d ds goal ht hd hl hz => hu.zone_next hs ht hd hl hz)
  refine ⟨p, .inl ?_, m.mirrors hu.mirrors (hu.stands.distinct hs), ?_⟩
  · rw [hr.standing, m.kept.1]
    exact hlaid
  · rw [m.kept.1]
    exact m.rooted hu hs

/-- **A try that handles a fault leaves the session upright.** -/
theorem Offer.upright (o : Offer g f s .handled s') {p : Address} (hs : s.Sound p) (hr : s.Running)
    (hu : s.Upright p) (following : Address) : s'.Upright (s'.pending.getD following) := by
  obtain ⟨q, hlaid⟩ := hu.stands.exists_laid hr
  have hsuite := o.kept.1
  refine ⟨.inl ?_, o.mirrors hu.mirrors, hsuite ▸ o.rooted hu.rooted⟩
  rw [(o.running hr).standing, hsuite]
  exact o.laid hs.toFitted (enclosing_fair hs.nested) hlaid (Ground.carries_bottom_levels _) _

/-- A fault that no try handles leaves the session as it is, or without deferred work. -/
theorem Offer.of_unhandled {f' : Fault} (o : Offer g f s (.unhandled f') s') : s' = s ∨ s'.deferred = [] := by
  cases o with
  | refused => exact .inl rfl
  | spent => exact .inr rfl

/-! ## 4. Stages are upright -/

/-- What holds of the session at a stage of a run over a suite without transfers to the end of the run. -/
def Phase.Upright : Phase → Session → Prop
  | .idle, s => s.Matched
  | .between following, s => s.Upright (s.pending.getD following)
  | .command a, s => s.Upright a
  | .failed _ _, s => ∃ r, s.Upright r

theorem Phase.Upright.matched {p : Phase} (h : p.Upright s) (hs : p.Holds s) : s.Matched := by
  cases p with
  | idle => exact h
  | between following => exact Session.Upright.matched h hs
  | command a => exact Session.Upright.matched h hs.1
  | failed a f =>
    obtain ⟨q, hu⟩ := h
    obtain ⟨hr, r, hs⟩ := hs
    exact hu.matched (hs.of_running hr q)

/-- **Every stage is upright.** -/
theorem Stage.upright {p : Phase} (h : Stage g host p w) (hlacks : w.session.suite.Lacks .exitTest) :
    p.Upright w.session := by
  induction h with
  | created compiles vars state => exact Session.matched_of_deferred rfl
  | @begins p w s stage compiles unit ih =>
    have hu := (starts_first (w := w) (by rw [compiles]) unit).upright
    rw [Moment.first, compiles] at hu
    exact hu
  | @refused p w s e stage fails ih =>
    rcases w.session.beforeRun_cases with ⟨e', tables, hrun⟩ | ⟨suite, -, hrun⟩ <;>
      cases hrun.symm.trans fails
    have hm := (ih hlacks).matched stage.holds
    exact ⟨hm.spots, hm.distinct⟩
  | @goesOn following a w w' stage next ih =>
    have hplace := Moment.place_of_next? (m := ⟨w, following⟩) (congrArg Prod.fst next)
    obtain rfl : w' = _ := (congrArg Prod.snd next).symm
    have hu : w.session.Upright (w.session.pending.getD following) := ih hlacks
    exact hplace ▸ hu.poise _
  | @passes following w w' stage next ih =>
    obtain rfl : w' = _ := (congrArg Prod.snd next).symm
    have hm := (ih hlacks).matched stage.holds
    exact ⟨hm.spots, hm.distinct⟩
  | @done a w w' stage runs ih =>
    obtain ⟨hs, hp, hc⟩ := stage.holds
    have hsuite := World.suite_runCommand hs hp hc runs
    rw [hsuite] at hlacks
    rcases World.runCommand_cases hs hp hc runs with ⟨-, hstep⟩ | ⟨f, f', hr, -⟩
    · exact hstep.upright (by rintro f ⟨⟩) hs hp (ih hlacks) fun t rest d ds origin => hs.not_resumes_exit hlacks
    · cases hr
  | @fails a f w w' stage runs ih =>
    obtain ⟨hs, hp, hc⟩ := stage.holds
    have hsuite := World.suite_runCommand hs hp hc runs
    rw [hsuite] at hlacks
    rcases World.runCommand_cases hs hp hc runs with ⟨hr, -⟩ | ⟨f, f', -, hready, hmove, -⟩
    · cases hr
    · exact hmove.upright_of_error hready hs (ih hlacks) hlacks
  | @handled a f w w' stage offer ih =>
    obtain ⟨hr, r, hs⟩ := stage.holds
    have ho := World.handleFault_offer hs.toFitted offer
    obtain ⟨p, hu⟩ := ih (ho.kept.1 ▸ hlacks)
    exact ho.upright (hs.of_running hr p) hr hu a.next
  | @unhandled a f f' w w' stage offer ih =>
    obtain ⟨hr, r, hs⟩ := stage.holds
    have ho := World.handleFault_offer hs.toFitted offer
    obtain ⟨p, hu⟩ := ih (ho.kept.1 ▸ hlacks)
    rcases ho.of_unhandled with heq | hnil
    · exact heq ▸ hu.matched (hs.of_running hr p)
    · exact Session.matched_of_deferred hnil
  | abandoned stage ih => exact Session.matched_of_deferred rfl

theorem Stage.matched {p : Phase} (h : Stage g host p w) (hlacks : w.session.suite.Lacks .exitTest) :
    w.session.Matched := (h.upright hlacks).matched h.holds

/-! ## 5. Deferred work and its tries -/

/-- **The try for which work is waiting stays** at its position in every part of a run in which the work is
deferred. -/
theorem Along.waitsAt {m₀ m m' : Moment σ} {d : Deferred} {q : Position}
    (h : Along g host (fun s => d ∈ s.deferred) m m') (hm₀ : m₀.Starts) (hreach : Reachable g host m₀ m)
    (hlacks : m₀.session.suite.Lacks .exitTest) (hq : m.session.WaitsAt d q) : m'.session.WaitsAt d q := by
  induction h with
  | start => exact hq
  | step along advance handled goesOn holds ih =>
    have hbefore := hreach.trans along.reachable
    have hafter := hbefore.step advance handled goesOn
    obtain ⟨a, -, -, -, hstep⟩ := Moment.step_of_advance (hbefore.sound hm₀) advance
    have hdistinct := (hbefore.upright_of_exitless hm₀ hlacks).stands.distinct (hbefore.sound hm₀)
    have hm := (hafter.upright_of_exitless hm₀ hlacks).matched (hafter.sound hm₀)
    exact (hstep.waitsAt (s := Session.poise _ (some a)) hdistinct hm holds ⟨ih.depth, ih.exists_try⟩).1

/-- **Deferred work is matched with tries.**  At every stage of a run over a suite without `exitTest` the
deferred work, oldest first, waits at positions that go up: for tries that take part, each in the call of the
depth that its work has and opened where the work says.  So each work waits for one try and no try has two
works; when the run comes to the closer of the innermost try the work for it, if there is any, is the newest
and is taken up; and as long as work is deferred its try stays at its position and goes on there. -/
theorem deferred_work_is_matched {p : Phase} (h : Stage g host p w) (hlacks : w.session.suite.Lacks .exitTest) :
    (∃ ps, List.Forall₂ w.session.WaitsAt w.session.deferred.reverse ps ∧ ps.Pairwise Position.Before) ∧
    (∀ d ∈ w.session.deferred, ∃! q, w.session.WaitsAt d q) ∧
    (w.session.deferred.Pairwise fun d e => ∀ q, w.session.WaitsAt d q → ¬w.session.WaitsAt e q) ∧
    (∀ a t rest d, p = .command a → w.session.blocks = .guarded t :: rest →
      w.session.suite.Construct t.opener a → d ∈ w.session.deferred →
      w.session.WaitsAt d ⟨w.session.depth, rest.length⟩ → ∃ ds, w.session.deferred = d :: ds ∧
        ∀ r w', w.runCommand g host a = (r, w') → d.TakenUp a ds r w'.session) ∧
    ∀ a x w', p = .command a → w.step g host a = (x, w') → ∀ d ∈ w'.session.deferred, ∀ q,
      w.session.WaitsAt d q → w'.session.WaitsAt d q ∧ ∃ t t', w.session.frameAt? q = some (.guarded t) ∧
        w'.session.frameAt? q = some (.guarded t') ∧ t.Advances t' := by
  have hm := h.matched hlacks
  refine ⟨hm.exists_positions, fun d hd => ?_, hm.pairwise_spot.imp ?_, ?_, ?_⟩
  · obtain ⟨q, hq⟩ := hm.exists_waitsAt hd
    exact ⟨q, hq, fun q' hq' => hm.unique hd hq' hq⟩
  · exact fun {d e} hne q hd he => hne (hd.spot_eq he)
  · rintro a t rest d rfl hb hcloser hd ⟨hdepth, u, hu, -, ho⟩
    obtain ⟨hs, hp, hc⟩ := h.holds
    cases (Session.frameAt?_top hb).symm.trans hu
    obtain ⟨t, rest, ds, htakes⟩ := Session.Upright.takes_up (h.upright hlacks) hs hd hdepth (ho ▸ hcloser)
    exact ⟨ds, htakes.deferred, fun r w' hrun =>
      htakes.takenUp (hs.ready hp (hs.running_of_blocks hb)) hm hc hrun⟩
  · rintro a x w' rfl hstep d hd q hq
    obtain ⟨hs, hp, hc⟩ := h.holds
    have hu : w.session.Upright a := h.upright hlacks
    have hstep' : Step g a w.session (w.step g host a).1 (w.step g host a).2.session := step_step hs hp hc
    rw [hstep] at hstep'
    have hlacks' : w'.session.suite.Lacks .exitTest := hstep'.kept.1 ▸ hlacks
    have hm' : w'.session.Matched := by
      rcases h.step hstep with ⟨-, hafter⟩ | ⟨-, hafter⟩
      · exact hafter.matched hlacks'
      · exact hafter.matched hlacks'
    exact hstep'.waitsAt (hu.stands.distinct hs) hm' hd hq

/-- A cleanup section calls a function whose try runs its own one: two works wait, and the closer of the inner
try takes up the newer. -/
theorem inner_work_is_taken_up_first : ∃ (w w' : World Unit) (d e : Deferred) (r : Except Fault Unit),
    Stage .trivial silent (.command ⟨0, 9⟩) w ∧ w.session.deferred = [d, e] ∧
    (∃ ps, List.Forall₂ w.session.WaitsAt [e, d] ps ∧ ps.Pairwise Position.Before) ∧
    w.runCommand .trivial silent ⟨0, 9⟩ = (r, w') ∧ d.TakenUp ⟨0, 9⟩ [e] r w'.session := by
  obtain ⟨m₀, m, d, e, t, hm₀, hm, hnext, hlacks, hd, hb, hcloser, hwaits⟩ :
      ∃ (m₀ m : Moment Unit) (d e : Deferred) (t : TryFrame),
      Moment.ofUnits [.named "main" [{ name := "try" }, { name := "throw" }, { name := "finally" },
        { name := "call", target := "f" }, { name := "endTry" }, { name := "function", target := "f" },
        { name := "try" }, { name := "throw" }, { name := "finally" }, { name := "endTry" },
        { name := "endFunction" }]] = .ok m₀ ∧
      m₀.after? .trivial silent 8 = some m ∧ m.next? = some ⟨0, 9⟩ ∧
      m.poised.session.suite.Lacks .exitTest ∧ m.poised.session.deferred = [d, e] ∧
      m.poised.session.blocks = [.guarded t] ∧ m.poised.session.suite.Construct t.opener ⟨0, 9⟩ ∧
      m.poised.session.WaitsAt d ⟨m.poised.session.depth, 0⟩ :=
    ⟨_, _, _, _, _, rfl, rfl, rfl, by decide, rfl, rfl, ⟨_, rfl, rfl, rfl⟩, rfl, _, rfl, rfl, rfl⟩
  have hstage := ((reachable_of_after? hm).stage (starts_ofUnits hm₀)).poised hnext
  obtain ⟨hmatch, -, -, htakes, -⟩ := deferred_work_is_matched hstage hlacks
  obtain ⟨ds, hds, htaken⟩ := htakes ⟨0, 9⟩ t [] d rfl hb hcloser (hd ▸ List.mem_cons_self) hwaits
  cases hd.symm.trans hds
  rw [hd] at hmatch
  exact ⟨_, _, d, e, _, hstage, hd, hmatch, rfl, htaken _ _ rfl⟩

end

end BlockFlow.Flow
