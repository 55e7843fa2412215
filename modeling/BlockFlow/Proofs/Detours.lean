/-
# Transfers through cleanup sections

A transfer of control runs the cleanup sections that are owed on its way, one after the other, and is
then made by its command: `Session.owed` lists the tries, innermost first, and `Tour` is the part of the
run that goes through their sections.  `Tour.exists_of_suspends` says that the run goes this way as long
as each section runs to its closer.

Where the command of the transfer is back, what is left of the constructs leads to the same target as
before: `Session.Leads`.
-/
import BlockFlow.Proofs.Sections

namespace BlockFlow.Flow

open BlockFlow.Flow.Action

/-! ## 1. Sections that are owed -/

/-- The spots of the tries on the way of a transfer that owe their cleanup section, innermost first. -/
def Session.owed (s : Session) (goal : Goal) : List Spot :=
  spotsIn (TryFrame.owesCleanup s.suite) s.depth (onTheWay goal s.blocks) ++
    if goal = .exit then spotsOf (TryFrame.owesCleanup s.suite) s.outer else []

/-- Some of the constructs on the way of a transfer have been left, and its target is the same. -/
structure Session.Leads (s : Session) (goal : Goal) (s' : Session) : Prop where
  suite : s'.suite = s.suite
  sites : goal ≠ .exit → s'.sites = s.sites
  outer : goal ≠ .exit → s'.outer.map Level.blocks = s.outer.map Level.blocks
  blocks : goal ≠ .exit → ∃ left, s.blocks = left ++ s'.blocks ∧
    (goal = .loop → ∀ f ∈ left, f.isLoop = false)

section

variable {s s' u : Session} {goal : Goal} {origin : Address} {kind : TryFrame → Bool}

theorem spotsOf_congr {ls ls' : List Level} (h : ls.map Level.blocks = ls'.map Level.blocks) :
    spotsOf kind ls = spotsOf kind ls' := by
  induction ls generalizing ls' with
  | nil => rw [List.map_eq_nil_iff.1 h.symm]
  | cons L ls ih =>
    cases ls' with
    | nil => cases h
    | cons L' ls' =>
      obtain ⟨hL, hls⟩ := List.cons.inj h
      have hlen := congrArg List.length hls
      rw [List.length_map, List.length_map] at hlen
      rw [spotsOf, spotsOf, ih hls, hL, hlen]

/-- A transfer that is free to go owes nothing. -/
theorem Session.owed_eq_nil (h : s.cleanup? goal = none) : s.owed goal = [] := by
  obtain ⟨hway, hall⟩ := Session.cleanup?_eq_none_iff.1 h
  rw [Session.owed, spotsIn_eq_nil hway, List.nil_append]
  split
  · rename_i hg
    refine List.eq_nil_iff_forall_not_mem.2 fun x hx => ?_
    have hx : x ∈ s.spots (TryFrame.owesCleanup s.suite) := List.mem_append_right _ hx
    obtain ⟨t, ht, howes, -⟩ := Session.mem_spots_iff.1 hx
    have hin : .guarded t ∈ s.frames := by
      have := mem_flatten_of_placed ht
      rwa [Session.blockStacks_eq, List.flatten_cons] at this
    rw [hall hg t hin] at howes
    cases howes
  · rfl

theorem Session.Leads.refl (s : Session) (goal : Goal) : s.Leads goal s :=
  ⟨rfl, fun _ => rfl, fun _ => rfl, fun _ => ⟨[], rfl, by rintro - _ ⟨⟩⟩⟩

theorem Session.Leads.trans (h : s.Leads goal s') (h' : s'.Leads goal u) : s.Leads goal u where
  suite := h'.suite.trans h.suite
  sites hg := (h'.sites hg).trans (h.sites hg)
  outer hg := (h'.outer hg).trans (h.outer hg)
  blocks hg := by
    obtain ⟨left, hl, hloop⟩ := h.blocks hg
    obtain ⟨left', hl', hloop'⟩ := h'.blocks hg
    refine ⟨left ++ left', by rw [hl, hl', List.append_assoc], fun hg f hf => ?_⟩
    rcases List.mem_append.1 hf with hf | hf
    · exact hloop hg f hf
    · exact hloop' hg f hf

theorem takeWhile_eq_of_inside {left bs : List Frame} (h : ∀ f ∈ left, f.isLoop = false) :
    (left ++ bs).takeWhile (fun f => !f.isLoop) = left ++ bs.takeWhile fun f => !f.isLoop :=
  List.takeWhile_append_of_pos fun f hf => by simp [h f hf]

/-- The innermost loop is the same where only constructs inside it were left. -/
theorem Session.Leads.drop_insideLoop (h : s.Leads .loop s') :
    s'.blocks.drop s'.insideLoop = s.blocks.drop s.insideLoop := by
  obtain ⟨left, hl, hloop⟩ := h.blocks (by rintro ⟨⟩)
  rw [Session.insideLoop, Session.insideLoop, hl, takeWhile_eq_of_inside (hloop rfl), List.length_append,
    List.drop_length_add_append]

theorem Session.Leads.exists_loop (h : s.Leads goal s') (hg : goal = .loop) (hs : ∃ f ∈ s.blocks, f.isLoop) :
    ∃ f ∈ s'.blocks, f.isLoop := by
  subst hg
  obtain ⟨left, hl, hloop⟩ := h.blocks (by rintro ⟨⟩)
  obtain ⟨f, hf, hfl⟩ := hs
  rw [hl] at hf
  rcases List.mem_append.1 hf with hf | hf
  · rw [hloop rfl f hf] at hfl
    cases hfl
  · exact ⟨f, hf, hfl⟩

/-- Only the end of the run leaves calls on its way to a section. -/
theorem Suspends.sites (h : Suspends origin goal s s') (hg : goal ≠ .exit) : s'.sites = s.sites := by
  obtain ⟨clean, blocks, owes, hsection⟩ := h
  rename_i k n t rest p v
  obtain ⟨pre, L, post, above, t', rest', -, rfl, -, -, -, -, -, -, hpre⟩ := Session.cleanup?_eq_some clean default
  rw [hpre hg] at blocks ⊢
  exact (Session.sites_setBlocks _ _).trans (s.sites_drop n)

theorem Session.owed_exit (s : Session) : s.owed .exit = s.spots (TryFrame.owesCleanup s.suite) := by
  rw [Session.owed, if_pos rfl]
  rfl

section

variable {above : List Frame} {pre post : List Level} {L : Level}

/-- The end of the run owes the section of the innermost try that owes one, and those that are owed around
it. -/
theorem Session.owed_exit_cons (hlev : s.levels default = pre ++ L :: post)
    (hb : L.blocks = above ++ .guarded t :: rest) (howes : t.owesCleanup s.suite = true)
    (habove : NoneOwe s.suite above) (hpre : ∀ M ∈ pre, NoneOwe s.suite M.blocks) (hsuite : u.suite = s.suite)
    (hu : u.blocks = rest) (houter : u.outer.map Level.blocks = post.map Level.blocks) :
    s.owed .exit = (u.depth, t.opener) :: u.owed .exit := by
  obtain ⟨X, hX, hinside⟩ := spotsOf_split (TryFrame.owesCleanup s.suite) pre post hb
  have hnone : spotsIn (TryFrame.owesCleanup s.suite) (post.length + 1) above = [] := spotsIn_eq_nil habove
  have hnil : X = [] := by
    refine List.eq_nil_iff_forall_not_mem.2 fun x hx => ?_
    rcases hinside x hx with ⟨-, M, hM, w, hw, hkind⟩ | hx
    · rw [hpre M hM w hw] at hkind
      cases hkind
    · rw [hnone] at hx
      cases hx
  have hdepth : u.depth = post.length + 1 := by
    rw [Session.depth_eq]
    simpa using congrArg List.length houter
  rw [Session.owed_exit, Session.owed_exit, s.spots_eq _ default, hlev, hX, hnil, List.nil_append, spotsIn_guarded,
    if_pos howes, Session.spots, hsuite, hu, hdepth, spotsOf_congr houter]
  rfl

/-- Another transfer owes that of the innermost try of its call, and those that are owed around it. -/
theorem Session.owed_cons (hg : goal ≠ .exit) (hb : s.blocks = above ++ .guarded t :: rest)
    (howes : t.owesCleanup s.suite = true) (habove : NoneOwe s.suite above)
    (hloop : goal = .loop → ∀ f ∈ above, f.isLoop = false) (hsuite : u.suite = s.suite) (hu : u.blocks = rest)
    (hdepth : u.depth = s.depth) : s.owed goal = (u.depth, t.opener) :: u.owed goal := by
  have hnone : spotsIn (TryFrame.owesCleanup s.suite) s.depth above = [] := spotsIn_eq_nil habove
  rw [Session.owed, Session.owed, if_neg hg, if_neg hg, List.append_nil, List.append_nil, hsuite, hu, hdepth, hb]
  by_cases hg' : goal = .loop
  · rw [onTheWay, onTheWay, if_pos hg', if_pos hg', takeWhile_eq_of_inside (hloop hg'), spotsIn_append, hnone,
      List.nil_append, List.takeWhile_cons_of_pos rfl, spotsIn_guarded, if_pos howes]
    rfl
  · rw [onTheWay, onTheWay, if_neg hg', if_neg hg', spotsIn_append, hnone, List.nil_append, spotsIn_guarded,
      if_pos howes]
    rfl

end

/-- **A transfer that waits** waits for the first section that it owes, and owes the others from there. -/
theorem Suspends.owed (h : Suspends origin goal s s') : ∃ t rest, s'.blocks = .guarded t :: rest ∧
    ∀ u : Session, u.suite = s.suite → u.blocks = rest →
      u.outer.map Level.blocks = s'.outer.map Level.blocks → u.sites = s'.sites →
      s.owed goal = (s'.depth, t.opener) :: u.owed goal ∧ s.Leads goal u := by
  obtain ⟨pre, L, post, above, t, rest, -, hlev, hb, howes, -, -, hlev', habove, hloop, hpre, hexit⟩ :=
    h.levels default
  obtain ⟨hl, hout⟩ := List.cons.inj (hlev' default)
  have hblocks : s'.blocks = .guarded t.enterCleanup :: rest := congrArg Level.blocks hl
  refine ⟨t.enterCleanup, rest, hblocks, fun u hsuite hu huo husites => ?_⟩
  have hudepth : u.depth = s'.depth := by
    rw [Session.depth_eq_sites, husites, ← Session.depth_eq_sites]
  rw [show s'.outer = post from hout] at huo
  rw [← hudepth]
  by_cases hg : goal = .exit
  · subst hg
    exact ⟨Session.owed_exit_cons (t := t) hlev hb howes habove hpre hsuite hu huo, hsuite, fun hne => absurd rfl hne,
      fun hne => absurd rfl hne, fun hne => absurd rfl hne⟩
  · rw [hexit hg] at hlev
    obtain ⟨rfl, hpost⟩ := List.cons.inj hlev
    have hsb : s.blocks = above ++ .guarded t :: rest := hb
    have hsites : u.sites = s.sites := husites.trans (h.sites hg)
    have hdepth : u.depth = s.depth := by
      rw [Session.depth_eq_sites, hsites, ← Session.depth_eq_sites]
    refine ⟨Session.owed_cons (t := t) hg hsb howes habove hloop hsuite hu hdepth, hsuite, fun _ => hsites, fun _ => ?_,
      fun _ => ⟨above ++ [.guarded t], by rw [hsb, hu, List.append_assoc]; rfl, fun hg' f hf => ?_⟩⟩
    · rw [huo, hpost]
    · rcases List.mem_append.1 hf with hf | hf
      · exact hloop hg' f hf
      · rw [List.mem_singleton.1 hf]
        rfl

theorem Suspends.owed_ne_nil (h : Suspends origin goal s s') : s.owed goal ≠ [] := by
  obtain ⟨t, rest, -, howed⟩ := h.owed
  rw [(howed (s'.setBlocks rest) ((s'.suite_setBlocks _).trans h.kept.1) (s'.blocks_setBlocks _)
    (by rw [Session.outer_setBlocks]) (s'.sites_setBlocks _)).1]
  exact List.cons_ne_nil _ _

end

/-! ## 2. Commands that set out, and closers that go on -/

/-- The guard of the command of a transfer holds, if it has one. -/
def Goes (g : Setting) (vars : Namespace) (k : Keyword) (c : Command) : Prop :=
  match k with
  | .breakLoop | .continueLoop => Text.trim c.target = "" ∨
      ∃ v, (g.evaluate (Text.trim c.target) vars).1 = .ok v ∧ v.isTruthy = true
  | _ => True

section

variable {g : Setting} {s s' : Session} {a origin : Address} {goal : Goal} {t : TryFrame} {rest : List Frame}
  {d : Deferred} {ds : List Deferred}

/-- A transfer that owes a cleanup section waits for it. -/
theorem Ends.deferTransfer_of_owed {Q : Except Fault Bool → Session → Prop} (hc : s.Counted)
    (hst : s.Stays goal) (howed : s.cleanup? goal ≠ none) (hQ : ∀ s', Suspends a goal s s' → Q (.ok true) s') :
    (deferTransfer a goal).Ends s Q := by
  refine Ends.deferTransfer hc (fun d ds hd hl => ?_) (fun _ => hQ) fun _ hnone => absurd hnone howed
  rw [hst d ds hd] at hl
  cases hl

/-- A guard that holds changes variables only. -/
theorem guardHolds_of_holds {guard : String} (h : guard = "" ∨
    ∃ v, (g.evaluate guard s.vars).1 = .ok v ∧ v.isTruthy = true) :
    (guardHolds g guard).Ends s fun r s' => r = .ok true ∧ ∃ v, s' = s.withVars v := by
  unfold guardHolds
  rcases h with rfl | ⟨v, hv, htrue⟩
  · exact ⟨rfl, s.vars, rfl⟩
  · split
    · exact ⟨rfl, s.vars, rfl⟩
    · unfold condition
      rw [ends_bind]
      exact Ends.evaluate_of_ok hv ⟨congrArg _ htrue, _, rfl⟩

theorem loopToLeave?_of_owed {guard : String} (hc : s.Counted) (hst : s.Stays .loop)
    (howed : s.cleanup? .loop ≠ none) (hgoes : guard = "" ∨
      ∃ v, (g.evaluate guard s.vars).1 = .ok v ∧ v.isTruthy = true) :
    (loopToLeave? g a guard).Ends s fun r s' => r = .ok none ∧ Suspends a .loop s s' := by
  unfold loopToLeave?
  rw [ends_bind]
  refine (guardHolds_of_holds hgoes).mono ?_
  rintro r t ⟨rfl, v, rfl⟩
  dsimp only
  rw [if_neg (by decide), ends_bind]
  refine Ends.deferTransfer_of_owed hc hst howed fun s' hs' => ?_
  exact ⟨rfl, hs'.of_withVars⟩

theorem breakLoop_of_owed {guard : String} (hc : s.Counted) (hst : s.Stays .loop)
    (howed : s.cleanup? .loop ≠ none) (hgoes : guard = "" ∨
      ∃ v, (g.evaluate guard s.vars).1 = .ok v ∧ v.isTruthy = true) :
    (breakLoop g a guard).Ends s fun r s' => r = .ok () ∧ Suspends a .loop s s' := by
  unfold breakLoop
  rw [ends_bind]
  refine (loopToLeave?_of_owed hc hst howed hgoes).mono ?_
  rintro r t ⟨rfl, hs'⟩
  exact ⟨rfl, hs'⟩

theorem continueLoop_of_owed {guard : String} (hc : s.Counted) (hst : s.Stays .loop)
    (howed : s.cleanup? .loop ≠ none) (hgoes : guard = "" ∨
      ∃ v, (g.evaluate guard s.vars).1 = .ok v ∧ v.isTruthy = true) :
    (continueLoop g a guard).Ends s fun r s' => r = .ok () ∧ Suspends a .loop s s' := by
  unfold continueLoop
  rw [ends_bind]
  refine (loopToLeave?_of_owed hc hst howed hgoes).mono ?_
  rintro r t ⟨rfl, hs'⟩
  exact ⟨rfl, hs'⟩

/-- **The command of a transfer that owes a cleanup section** waits for it. -/
theorem perform_suspends (h : s.Ready) (ht : s.Transfers a goal) (hst : s.Stays goal)
    (howed : s.cleanup? goal ≠ none) {k : Keyword} {c : Command} (hk : goalOf? k = some goal)
    (hgoes : Goes g s.vars k c) :
    (perform g a k (Text.trim c.target) (Text.trim c.value)).Ends s fun r s' =>
      r = .ok () ∧ Suspends a goal s s' := by
  have hreturn {expr : String} (hgoal : goal = .function) : (returnFrom g a expr).Ends s fun r s' =>
      r = .ok () ∧ Suspends a goal s s' := by
    subst hgoal
    obtain ⟨b, o, hb, ho, hcallee⟩ := ht.callee rfl
    unfold returnFrom
    rw [ends_bind]
    refine Ends.block hb ?_
    dsimp only
    rw [ends_bind, ends_ask]
    dsimp only
    rw [hcallee, ho, if_neg (by simp), ends_bind]
    exact Ends.deferTransfer_of_owed h.counted hst howed fun s' hs' => ⟨rfl, hs'⟩
  cases k <;> cases hk
  case breakLoop => exact breakLoop_of_owed h.counted hst howed hgoes
  case continueLoop => exact continueLoop_of_owed h.counted hst howed hgoes
  case returnValue | endFunction | endScript => exact hreturn rfl
  case exitTest =>
    change (exitRun a).Ends s _
    unfold exitRun
    rw [ends_bind]
    exact Ends.deferTransfer_of_owed h.counted hst howed fun s' hs' => ⟨rfl, hs'⟩

end

/-! ## 3. Tours -/

section

variable {σ : Type}

/-- The part of a run through cleanup sections that some work waits for in turn: each section begins and
runs to its closer, and the closer goes on. -/
inductive Tour (g : Setting) (host : Host σ) (work : Work) : List Spot → Moment σ → Moment σ → Prop
  | done {m : Moment σ} : Tour g host work [] m m
  | section_ {m m₁ m₂ m' : Moment σ} {t : TryFrame} {spot : Spot} {spots : List Spot}
      (begins : m.session.Begins t ⟨work, spot.2, spot.1⟩)
      (runs : SectionRuns g host ⟨work, spot.2, spot.1⟩ m m₁)
      (closes : m₁.advance g host = some (.done, m₂)) (rest : Tour g host work spots m₂ m') :
      Tour g host work (spot :: spots) m m'

/-- Every section that work comes to from a moment on runs to its closer. -/
def SectionsRun (g : Setting) (host : Host σ) (work : Work) (m : Moment σ) : Prop :=
  ∀ spots m' t d, Tour g host work spots m m' → m'.session.Begins t d → d.work = work →
    ∃ m'', SectionRuns g host d m' m''

/-- The command of a transfer runs next, and owes no cleanup section. -/
structure Moment.Arrives (m : Moment σ) (a : Address) (goal : Goal) : Prop where
  next : m.next? = some a
  ready : m.poised.session.Ready
  transfers : m.poised.session.Transfers a goal
  clear : m.poised.session.cleanup? goal = none
  exitRequested : m.session.exitRequested = false

variable {g : Setting} {host : Host σ} {m₀ m m₁ m₂ : Moment σ} {a origin : Address} {goal : Goal}
  {t : TryFrame} {rest : List Frame} {d : Deferred} {ds : List Deferred} {s : Session} {work : Work} {n : Nat}

/-- **The closer that takes a transfer up** enters the next section that it owes, or the command of the
transfer runs next. -/
theorem Reachable.closes (hreach : Reachable g host m₀ m) (hm₀ : m₀.Starts) (ha : m.next? = some a)
    (hu : m.poised.session.TakesUp a t rest d ds) (hw : d.work = .transfer origin goal) :
    ∃ m₁, m.advance g host = some (.done, m₁) ∧
      (Suspends origin goal (m.poised.session.relieved t rest ds) m₁.session ∨
        (m.poised.session.relieved t rest ds).cleanup? goal = none ∧ m₁.Arrives origin goal ∧
          ∃ v, m₁.session = m.poised.session.resumed t rest ds origin v) := by
  by_cases hclear : (m.poised.session.relieved t rest ds).cleanup? goal = none
  · obtain ⟨m₁, v, hadv, hnext, hs, hready, hx, ht, hclear₁⟩ := hreach.takes_up hm₀ ha
      ⟨hu.top, hu.closer, hu.active, hu.deferred, hu.resumeAt, hu.depth, hw, hclear⟩
    exact ⟨m₁, hadv, .inr ⟨hclear, ⟨hnext, hready, ht, hclear₁, hx⟩, v, hs⟩⟩
  · have hsound : m.poised.session.Sound a := (m.place_of_next? ha) ▸ (hreach.sound hm₀).poise _
    have hready := hsound.ready rfl (hsound.running_of_blocks hu.top)
    obtain ⟨s', -, htransfer⟩ := hu.runCommand hready ha g host
    obtain ⟨hrun, hsus⟩ := htransfer origin goal hw
    refine ⟨⟨⟨s', m.poised.host⟩, a.next⟩, ?_, .inl (hsus.resolve_right fun h => hclear h.1)⟩
    rw [Moment.advance, ha, Option.map_some, World.step, hrun]

/-- A transfer that waits is the newest deferred work, and the section that it waits for begins. -/
theorem Suspends.begins {s' : Session} (h : Suspends origin goal s s') {rest : List Frame}
    (hb : s'.blocks = .guarded t :: rest) :
    s'.Begins t ⟨.transfer origin goal, t.opener, s'.depth⟩ ∧
      ∃ ds, s'.deferred = ⟨.transfer origin goal, t.opener, s'.depth⟩ :: ds ∧ ∀ e ∈ ds, e ∈ s.deferred := by
  obtain ⟨t', rest', hb', hdef⟩ := h.deferred
  cases hb.symm.trans hb'
  obtain ⟨pre, L, post, above, w, rest₁, p, -, -, -, hfin, hpend, hlev, -⟩ := h.levels default
  cases hb.symm.trans (congrArg Level.blocks (List.cons.inj (hlev default)).1)
  refine ⟨⟨⟨rest, hb⟩, ⟨_, hdef⟩, rfl, p, ?_, hpend⟩, _, hdef, fun e he => (List.mem_filter.1 he).1⟩
  rw [h.kept.1]
  exact hfin

/-- **A section that a transfer waits for is passed**: its closer goes on from where the try was left. -/
theorem SectionRuns.passes (hruns : SectionRuns g host d m₁ m₂) (hm₀ : m₀.Starts)
    (hreach : Reachable g host m₀ m₁) (hu₁ : m₁.session.Upright m₁.place)
    (hsus : Suspends origin goal s m₁.session) (hbegins : m₁.session.Begins t d)
    (hw : d.work = .transfer origin goal) : ∃ m' u, m₂.advance g host = some (.done, m') ∧
      s.owed goal = (m₁.session.depth, t.opener) :: u.owed goal ∧ s.Leads goal u ∧
      (∀ e ∈ u.deferred, ∃ e' ∈ s.deferred, e'.spot = e.spot) ∧ u.exitRequested = false ∧
      (Suspends origin goal u m'.session ∧ m'.session.Upright m'.place ∨
        u.owed goal = [] ∧ m'.Arrives origin goal ∧ ∃ v, m'.session = u.proceed (some origin) v) := by
  obtain ⟨rest, hb⟩ := hbegins.top
  obtain ⟨t', rest', hb', howed⟩ := hsus.owed
  cases hb.symm.trans hb'
  obtain ⟨-, ds, hd, hold⟩ := hsus.begins hb
  obtain ⟨ds', hd'⟩ := hbegins.newest
  cases hd'.symm.trans hd
  have hends := hruns.ends hm₀ hreach hu₁ hbegins hb hd
  obtain ⟨t₂, hb₂, ho₂, hact₂⟩ := hends.top
  obtain ⟨ds₂, hd₂, hspots⟩ := hends.deferred
  obtain ⟨e, hnext, hcloser⟩ := hruns.closer
  have hsuite : m₂.session.suite = m₁.session.suite :=
    ((hreach.trans hruns.along.reachable).suite hm₀).trans (hreach.suite hm₀).symm
  have hopener : t₂.opener = t.opener := ho₂
  have htakes : m₂.poised.session.TakesUp e t₂ rest ⟨.transfer origin goal, t.opener, m₁.session.depth⟩ ds₂ :=
    ⟨hb₂, hopener ▸ hcloser, hact₂, hd₂, hopener.symm, hruns.depth.symm⟩
  have hreach₂ := hreach.trans hruns.along.reachable
  obtain ⟨m', hadv, hgo⟩ := hreach₂.closes hm₀ hnext htakes rfl
  let u := m₂.poised.session.relieved t₂ rest ds₂
  have husuite : u.suite = m₂.session.suite := m₂.poised.session.suite_setBlocks rest
  obtain ⟨howed, hleads⟩ := howed u ((husuite.trans hsuite).trans hsus.kept.1)
    (Session.blocks_setBlocks _ _)
    ((congrArg (List.map Level.blocks) (Session.outer_setBlocks _ _)).trans hends.outer)
    ((Session.sites_setBlocks _ _).trans hends.sites)
  refine ⟨m', u, hadv, howed, hleads, fun e he => ?_, ?_, ?_⟩
  · obtain ⟨e', he', heq⟩ := hspots e he
    exact ⟨e', hold e' he', heq⟩
  · exact (m₂.poised.session.kept_leaveTry t₂ rest).exitRequested.trans (hreach₂.exitRequested hm₀)
  · rcases hgo with hsus' | ⟨hclear, harrives, v, hs'⟩
    · refine .inl ⟨hsus', hreach₂.upright_next hm₀ (hruns.upright hm₀ hreach hu₁ hruns.along .start) hadv
        (by rintro _ ⟨⟩) ?_⟩
      -- a transfer that waits for another section is not made next
      rintro e es ⟨a, t', rest', origin', ha, hr⟩
      cases hnext.symm.trans ha
      cases hb₂.symm.trans hr.top
      obtain ⟨rfl, rfl⟩ := List.cons.inj (hd₂.symm.trans hr.deferred)
      obtain ⟨-, rfl⟩ := Work.transfer.inj hr.work
      exact hsus'.owed_ne_nil (Session.owed_eq_nil hr.clear)
    · exact .inr ⟨Session.owed_eq_nil hclear, harrives, v, hs'⟩

/-- **A transfer that waits tours the sections that it owes**, in order and each once, if each runs to its
closer, and its command then runs where its target is the same as before. -/
theorem Tour.exists_of_suspends (hm₀ : m₀.Starts) (hreach : Reachable g host m₀ m₁)
    (hu : m₁.session.Upright m₁.place) (hsus : Suspends origin goal s m₁.session)
    (hsections : SectionsRun g host (.transfer origin goal) m₁) :
    ∃ m₂, Tour g host (.transfer origin goal) (s.owed goal) m₁ m₂ ∧ m₂.Arrives origin goal ∧
      Reachable g host m₀ m₂ ∧ s.Leads goal m₂.session ∧
      ∀ e ∈ m₂.session.deferred, ∃ e' ∈ s.deferred, e'.spot = e.spot := by
  generalize hspots : s.owed goal = spots
  induction spots generalizing s m₁ with
  | nil =>
    obtain ⟨t, rest, hb, -⟩ := hsus.owed
    obtain ⟨hbegins, -⟩ := hsus.begins hb
    obtain ⟨m', hruns⟩ := hsections _ _ _ _ .done hbegins rfl
    obtain ⟨-, u, -, howed, -⟩ := hruns.passes hm₀ hreach hu hsus hbegins rfl
    cases hspots.symm.trans howed
  | cons spot spots ih =>
    obtain ⟨t, rest, hb, -⟩ := hsus.owed
    obtain ⟨hbegins, -⟩ := hsus.begins hb
    obtain ⟨m', hruns⟩ := hsections _ _ _ _ .done hbegins rfl
    obtain ⟨m'', u, hadv, howed, hleads, hdef, hx, hgo⟩ := hruns.passes hm₀ hreach hu hsus hbegins rfl
    obtain ⟨rfl, rfl⟩ := List.cons.inj (hspots.symm.trans howed)
    rcases hgo with ⟨hsus', hu'⟩ | ⟨hnil, harrives, v, hs'⟩
    · have hreach'' : Reachable g host m₀ m'' :=
        (hreach.trans hruns.along.reachable).step hadv (by rintro _ ⟨⟩) (hsus'.kept.2.2.trans hx)
      obtain ⟨m₂, htour, harrives, hreach₂, hleads₂, hdef₂⟩ := ih hreach'' hu' hsus'
        (fun spots m₃ t' d' htour => by
          have htour : Tour g host _ ((m₁.session.depth, t.opener) :: spots) m₁ m₃ :=
            .section_ hbegins hruns hadv htour
          exact hsections _ _ _ _ htour) rfl
      refine ⟨m₂, .section_ hbegins hruns hadv htour, harrives, hreach₂, hleads.trans hleads₂, fun e he => ?_⟩
      obtain ⟨e', he', heq⟩ := hdef₂ e he
      obtain ⟨e'', he'', heq'⟩ := hdef e' he'
      exact ⟨e'', he'', heq'.trans heq⟩
    · refine ⟨m'', ?_, harrives, ?_, ?_, fun e he => hdef e ?_⟩
      · rw [hnil]
        exact .section_ hbegins hruns hadv .done
      · exact (hreach.trans hruns.along.reachable).step hadv (by rintro _ ⟨⟩) harrives.exitRequested
      · exact hleads.trans (hs' ▸ ⟨rfl, fun _ => rfl, fun _ => rfl, fun _ => ⟨[], rfl, by rintro - _ ⟨⟩⟩⟩)
      · rw [hs'] at he
        exact he

/-- **A section that was run** is the only one that its work comes to, if no work is left. -/
theorem Tour.eq_of_after (hm₀ : m₀.Starts) (hreach : Reachable g host m₀ m)
    (hd : ∀ t d', m.session.Begins t d' → d'.work = work → d' = d) (hruns : SectionRuns g host d m m₁)
    (hn : m.after? g host n = some m₁)
    (hearly : ∀ i < n, ∀ m', m.after? g host i = some m' → m'.next? ≠ m₁.next?)
    (hcloses : m₁.advance g host = some (.done, m₂)) (hquiet : m₂.session.deferred = [])
    (hgoesOn : m₂.session.exitRequested = false) {spots : List Spot} {m' : Moment σ}
    (htour : Tour g host work spots m m') : spots = [] ∧ m' = m ∨ m' = m₂ := by
  cases htour with
  | done => exact .inl ⟨rfl, rfl⟩
  | @section_ _ m₃ m₄ _ t spot spots begins runs closes rest =>
    cases hd t _ begins rfl
    have hend : ∀ m', m.after? g host (n + 1) = some m' →
        (⟨work, spot.2, spot.1⟩ : Deferred) ∉ m'.session.deferred := by
      intro m' hm'
      cases (after?_succ hn hcloses (by rintro _ ⟨⟩) hgoesOn).symm.trans hm'
      rw [hquiet]
      exact List.not_mem_nil
    cases hruns.eq_of_after hm₀ hreach hn hearly hend runs
    cases hcloses.symm.trans closes
    cases rest with
    | done => exact .inr rfl
    | section_ begins =>
      obtain ⟨ds, hds⟩ := begins.newest
      cases hquiet.symm.trans hds

theorem SectionsRun.of_after (hm₀ : m₀.Starts) (hreach : Reachable g host m₀ m)
    (hd : ∀ t d', m.session.Begins t d' → d'.work = work → d' = d) (hruns : SectionRuns g host d m m₁)
    (hn : m.after? g host n = some m₁)
    (hearly : ∀ i < n, ∀ m', m.after? g host i = some m' → m'.next? ≠ m₁.next?)
    (hcloses : m₁.advance g host = some (.done, m₂)) (hquiet : m₂.session.deferred = [])
    (hgoesOn : m₂.session.exitRequested = false) : SectionsRun g host work m := by
  intro spots m' t d' htour hbegins hw
  rcases htour.eq_of_after hm₀ hreach hd hruns hn hearly hcloses hquiet hgoesOn with ⟨-, rfl⟩ | rfl
  · cases hd t d' hbegins hw
    exact ⟨m₁, hruns⟩
  · obtain ⟨ds, hds⟩ := hbegins.newest
    cases hquiet.symm.trans hds

end

/-! ## 4. Transfers that are made at the end of their way -/

/-- The way of a transfer to where it is made: its command runs at once, or after a tour. -/
inductive Detour {σ : Type} (g : Setting) (host : Host σ) (work : Work) : List Spot → Moment σ → Moment σ → Prop
  | straight {m : Moment σ} : Detour g host work [] m m
  | around {m m₁ m₂ : Moment σ} {spot : Spot} {spots : List Spot}
      (setsOut : m.advance g host = some (.done, m₁)) (tour : Tour g host work (spot :: spots) m₁ m₂) :
      Detour g host work (spot :: spots) m m₂

section

variable {g : Setting} {s s' : Session} {a : Address} {goal : Goal}

/-- A binding that no loop had saved is kept when constructs are left. -/
theorem Session.get?_discardAll {fs : List Frame} {name : String}
    (h : ∀ l, .loop l ∈ fs → l.saved.get? name = none) :
    (s.discardAll fs).vars.get? name = s.vars.get? name := by
  induction fs generalizing s with
  | nil => rfl
  | cons f fs ih =>
    rw [Session.discardAll_cons, ih fun l hl => h l (List.mem_cons_of_mem _ hl)]
    cases f with
    | conditional _ => rfl
    | guarded t =>
      unfold Session.discard
      dsimp only
      split <;> rfl
    | loop l =>
      change (s.vars.restore l.saved).get? name = _
      rw [Namespace.get?_restore, h l List.mem_cons_self]
      rfl

/-- A `return` hands the value of its expression over as the result of its call, if no loop that it leaves
has saved a binding of that name. -/
def Session.HandsOver (s : Session) (g : Setting) (k : Keyword) (c : Command) (s' : Session) : Prop :=
  k = .returnValue → ∀ v, Text.trim c.target ≠ "" → (g.evaluate (Text.trim c.target) s.vars).1 = .ok v →
    (∀ l, .loop l ∈ s.blocks → l.saved.get? Namespace.resultName = none) →
    s'.vars.get? Namespace.resultName = some v

/-- The value of a `return` is the result of its call, unless a loop that it leaves had a variable of that
name. -/
theorem returnFrom_stores (h : s.Ready) (ht : s.Transfers a .function) (hst : s.Stays .function)
    (hclear : s.cleanup? .function = none) {expr : String} {v : Value} (hexpr : expr ≠ "")
    (hv : (g.evaluate expr s.vars).1 = .ok v)
    (hsaved : ∀ l, .loop l ∈ s.blocks → l.saved.get? Namespace.resultName = none) :
    (returnFrom g a expr).Ends s fun _ s' => s'.vars.get? Namespace.resultName = some v := by
  obtain ⟨b, o, hb, ho, hcallee⟩ := ht.callee rfl
  obtain ⟨c, calls, hc⟩ : ∃ c calls, s.calls = c :: calls := by
    refine List.exists_cons_of_ne_nil fun hnil => ?_
    rw [Session.callee?, hnil] at hcallee
    cases hcallee
  have hstore : (storeResult g expr).Ends s fun r s' => r = .ok () ∧
      ∃ w, s' = s.withVars w ∧ w.get? Namespace.resultName = some v := by
    unfold storeResult
    rw [if_pos (by simpa using hexpr), ends_bind]
    refine Ends.evaluate_of_ok hv ⟨rfl, _, rfl, ?_⟩
    simp
  unfold returnFrom
  rw [ends_bind]
  refine Ends.block hb ?_
  dsimp only
  rw [ends_bind, ends_ask]
  dsimp only
  rw [hcallee, ho, if_neg (by simp), ends_bind]
  refine Ends.deferTransfer_of_clear h.counted hst hclear ?_
  dsimp only
  rw [if_neg (by decide), ends_bind]
  refine hstore.mono ?_
  rintro r t ⟨rfl, w, rfl, hw⟩
  dsimp only
  simp only [ends_bind, ends_ask, ends_change, Session.calls_withVars, hc]
  refine Ends.goToPart (p := c.returnTo) rfl ?_
  rw [Session.branch, Session.markReturning_eq (s := s.withVars w) hc]
  change ((s.withVars w).drop s.blocks.length).vars.get? _ = _
  have hleft : ∀ l, .loop l ∈ (s.withVars w).blocks.take s.blocks.length →
      l.saved.get? Namespace.resultName = none := fun l hl => hsaved l (List.mem_of_mem_take hl)
  rw [Session.drop, Session.get?_discardAll hleft, Session.vars_setBlocks]
  exact hw

end

section

variable {σ : Type} {g : Setting} {host : Host σ} {m₀ m m₁ m₂ : Moment σ} {a : Address} {goal : Goal}
  {c : Command} {k : Keyword}

theorem Session.Transfers.goalOf?_eq {s : Session} (ht : s.Transfers a goal)
    (hc : s.suite.commandAt? a = some c) (hof : Keyword.ofName? c.name = some (k, false)) :
    goalOf? k = some goal := by
  obtain ⟨k', hk', hgoal⟩ := Option.bind_eq_some_iff.1 ht.carries
  obtain ⟨c', hc', hof'⟩ := commandAt?_of_keywordAt? hk'
  cases hc.symm.trans hc'
  cases hof.symm.trans hof'
  exact hgoal

/-- **The command of a transfer that owes a cleanup section** makes the run wait for it. -/
theorem Moment.suspends (ha : m.next? = some a) (hready : m.poised.session.Ready)
    (ht : m.poised.session.Transfers a goal) (hst : m.session.Stays goal)
    (howed : m.session.cleanup? goal ≠ none) (hc : m.session.suite.commandAt? a = some c)
    (hof : Keyword.ofName? c.name = some (k, false)) (hgoes : Goes g m.session.vars k c) :
    ∃ m₁, m.advance g host = some (.done, m₁) ∧ Suspends a goal m.poised.session m₁.session := by
  have hk := ht.goalOf?_eq hc hof
  have hflow := step_flow (w := m.poised) g host ha hc hof
  obtain ⟨hok, hsus⟩ := perform_suspends (g := g) hready ht hst howed hk hgoes
  refine ⟨⟨⟨_, m.poised.host⟩, a.next⟩, ?_, hsus⟩
  rw [Moment.advance, ha, Option.map_some, hflow.1 hok]

/-- **The way of a transfer.** -/
theorem Reachable.detours (hreach : Reachable g host m₀ m) (hm₀ : m₀.Starts) (hkeep : KeepsExits g host m₀ m)
    (ha : m.next? = some a) (ht : m.poised.session.Transfers a goal) (hst : m.session.Stays goal)
    (hc : m.session.suite.commandAt? a = some c) (hof : Keyword.ofName? c.name = some (k, false))
    (hgoes : Goes g m.session.vars k c)
    (hsections : ∀ m₁, m.advance g host = some (.done, m₁) → SectionsRun g host (.transfer a goal) m₁) :
    ∃ m₂, Detour g host (.transfer a goal) (m.session.owed goal) m m₂ ∧ m₂.Arrives a goal ∧
      Reachable g host m₀ m₂ ∧ m.session.Leads goal m₂.session ∧
      ∀ e ∈ m₂.session.deferred, ∃ e' ∈ m.session.deferred, e'.spot = e.spot := by
  have hsound : m.poised.session.Sound a := (m.place_of_next? ha) ▸ (hreach.sound hm₀).poise _
  have hready : m.poised.session.Ready := hsound.ready rfl (ht.running hsound)
  by_cases hclear : m.session.cleanup? goal = none
  · rw [Session.owed_eq_nil hclear]
    exact ⟨m, .straight, ⟨ha, hready, ht, hclear, hreach.exitRequested hm₀⟩, hreach, .refl _ _,
      fun e he => ⟨e, he, rfl⟩⟩
  · obtain ⟨m₁, hadv, hsus⟩ : ∃ m₁, m.advance g host = some (.done, m₁) ∧
        Suspends a goal m.poised.session m₁.session := Moment.suspends ha hready ht hst hclear hc hof hgoes
    have hx₁ := hsus.kept.2.2.trans (hreach.exitRequested hm₀)
    have hreach₁ := hreach.step hadv (by rintro _ ⟨⟩) hx₁
    have hu₁ : m₁.session.Upright m₁.place := by
      refine hreach.upright_next hm₀ (hreach.upright_of_advance hm₀ hkeep hadv hx₁) hadv (by rintro _ ⟨⟩) ?_
      rintro d ds ⟨a', t, rest, origin, ha', hr⟩
      cases ha.symm.trans ha'
      exact hr.takesUp.not_transfers hready ht
    obtain ⟨m₂, htour, harrives, hreach₂, hleads, hdef⟩ :=
      Tour.exists_of_suspends hm₀ hreach₁ hu₁ hsus (hsections m₁ hadv)
    refine ⟨m₂, ?_, harrives, hreach₂, ⟨hleads.suite, hleads.sites, hleads.outer, hleads.blocks⟩, hdef⟩
    cases hspots : m.session.owed goal with
    | nil => exact absurd hspots hsus.owed_ne_nil
    | cons spot spots =>
      rw [show m.poised.session.owed goal = spot :: spots from hspots] at htour
      exact .around hadv htour

/-- **A transfer that owes cleanup sections runs them and is then made.**  With no other work deferred, a
transfer comes by way of the sections that it owes, innermost first, each once and with nothing in
between, back to its command, which makes it: the target is the one from before, and a `return` hands over
the value that its expression has then, unless a loop that it leaves gives the variable of the result an
older value back. -/
theorem transfer_tours_cleanup (hm₀ : m₀.Starts) (hreach : Reachable g host m₀ m)
    (hkeep : KeepsExits g host m₀ m) (ha : m.next? = some a) (ht : m.poised.session.Transfers a goal)
    (hquiet : m.session.deferred = []) (hloop : goal = .loop → ∃ f ∈ m.session.blocks, f.isLoop)
    (hc : m.session.suite.commandAt? a = some c) (hof : Keyword.ofName? c.name = some (k, false))
    (hguard : goal = .loop → Text.trim c.target = "")
    (hsections : ∀ m₁, m.advance g host = some (.done, m₁) → SectionsRun g host (.transfer a goal) m₁) :
    ∃ m₂, Detour g host (.transfer a goal) (m.session.owed goal) m m₂ ∧ m₂.next? = some a ∧
      m.session.Leads goal m₂.session ∧ m₂.session.deferred = [] ∧
      (Plain g m₂.session.vars k c → ∃ m₃, m₂.advance g host = some (.done, m₃) ∧
        m₂.poised.session.Completes k m₃.session ∧ m₂.session.HandsOver g k c m₃.session) := by
  have hgoal : goalOf? k = some goal := ht.goalOf?_eq hc hof
  have hst : m.session.Stays goal := fun d ds hd => by cases hquiet.symm.trans hd
  have hgoes : Goes g m.session.vars k c := by
    cases k <;> cases hgoal
    case breakLoop | continueLoop => exact .inl (hguard rfl)
    all_goals trivial
  obtain ⟨m₂, hdetour, harrives, hreach₂, hleads, hdef⟩ :=
    hreach.detours hm₀ hkeep ha ht hst hc hof hgoes hsections
  have hquiet₂ : m₂.session.deferred = [] := by
    refine List.eq_nil_iff_forall_not_mem.2 fun e he => ?_
    obtain ⟨e', he', -⟩ := hdef e he
    rw [hquiet] at he'
    cases he'
  refine ⟨m₂, hdetour, harrives.next, hleads, hquiet₂, fun hplain => ?_⟩
  have hst₂ : m₂.poised.session.Stays goal := fun d ds hd => by cases hquiet₂.symm.trans hd
  have hc₂ : m₂.session.suite.commandAt? a = some c := by rw [hleads.suite, hc]
  have hfree : m₂.poised.session.Free goal := ⟨hst₂, fun hg => hleads.exists_loop hg (hloop hg)⟩
  have hmade := perform_completes_iff harrives.ready harrives.exitRequested harrives.transfers harrives.clear
    hgoal hplain
  have hstored : (perform g a k (Text.trim c.target) (Text.trim c.value)).Ends m₂.poised.session fun _ s' =>
      m₂.session.HandsOver g k c s' := by
    intro hk v hexpr hv hsaved
    subst hk
    cases hgoal
    exact returnFrom_stores harrives.ready harrives.transfers hst₂ harrives.clear hexpr hv hsaved
  have hboth : (perform g a k (Text.trim c.target) (Text.trim c.value)).Ends m₂.poised.session fun r s' =>
      (r = .ok () ∧ m₂.poised.session.Completes k s' ∧ m₂.session.HandsOver g k c s') ↔
        m₂.poised.session.Free goal :=
    iff_of_true ⟨(hmade.2 hfree).1, (hmade.2 hfree).2, hstored⟩ hfree
  exact (Moment.done_iff harrives.next hc₂ hof hboth).2 hfree

/-- A `break` in the body of a try inside a loop runs the cleanup section and then leaves the loop. -/
theorem break_tours_cleanup : ∃ m₀ m m₁ m₂ m₃ : Moment Unit,
    Moment.ofUnits [.named "main" [{ name := "while", target := "a" }, { name := "try" },
      { name := "break" }, { name := "finally" }, { name := "endTry" }, { name := "endWhile" }]] = .ok m₀ ∧
    m₀.after? .trivial silent 2 = some m ∧ m.next? = some ⟨0, 2⟩ ∧
    m.advance .trivial silent = some (.done, m₁) ∧ m₁.next? = some ⟨0, 3⟩ ∧
    Tour .trivial silent (.transfer ⟨0, 2⟩ .loop) [(1, ⟨0, 1⟩)] m₁ m₂ ∧ m₂.next? = some ⟨0, 2⟩ ∧
    m₂.advance .trivial silent = some (.done, m₃) ∧ m₂.poised.session.Completes .breakLoop m₃.session := by
  let d : Deferred := ⟨.transfer ⟨0, 2⟩ .loop, ⟨0, 1⟩, 1⟩
  -- the command, the cleanup section and its closer, as they run
  obtain ⟨m₀, m, m₁, m', m₂, hm₀, hlacks, hm, ha, hkey, hcmd, hquiet, hloop, howed, hadv, hnext, hd₁, hx₁, hadv₁,
      hd', hx', hcloser, hadv', hd₂, hx₂⟩ : ∃ m₀ m m₁ m' m₂ : Moment Unit,
      Moment.ofUnits [.named "main" [{ name := "while", target := "a" }, { name := "try" },
        { name := "break" }, { name := "finally" }, { name := "endTry" }, { name := "endWhile" }]] = .ok m₀ ∧
      m₀.session.suite.Lacks .exitTest ∧ m₀.after? .trivial silent 2 = some m ∧ m.next? = some ⟨0, 2⟩ ∧
      (m.session.suite.keywordAt? ⟨0, 2⟩).bind goalOf? = some .loop ∧
      m.session.suite.commandAt? ⟨0, 2⟩ = some { name := "break" } ∧ m.session.deferred = [] ∧
      (∃ f ∈ m.session.blocks, f.isLoop = true) ∧ m.session.owed .loop = [(1, ⟨0, 1⟩)] ∧
      m.advance .trivial silent = some (.done, m₁) ∧ m₁.next? = some ⟨0, 3⟩ ∧ m₁.session.deferred = [d] ∧
      m₁.session.exitRequested = false ∧ m₁.advance .trivial silent = some (.done, m') ∧
      m'.session.deferred = [d] ∧ m'.session.exitRequested = false ∧
      (m'.session.depth = 1 ∧ m'.next? = some ⟨0, 4⟩ ∧ m'.session.suite.Construct ⟨0, 1⟩ ⟨0, 4⟩) ∧
      m'.advance .trivial silent = some (.done, m₂) ∧ m₂.session.deferred = [] ∧
      m₂.session.exitRequested = false :=
    ⟨_, _, _, _, _, rfl, by decide, rfl, rfl, rfl, rfl, rfl,
      ⟨_, List.mem_cons_of_mem _ List.mem_cons_self, rfl⟩, rfl, rfl, rfl, rfl, rfl, rfl, rfl, rfl,
      ⟨rfl, rfl, _, rfl, rfl, rfl⟩, rfl, rfl, rfl⟩
  have hstarts := starts_ofUnits hm₀
  have hreach := reachable_of_after? hm
  have hreach₁ := hreach.step hadv (by rintro _ ⟨⟩) hx₁
  have hruns : SectionRuns .trivial silent d m₁ m' :=
    ⟨.step (.start (by rw [hd₁]; exact List.mem_cons_self)) hadv₁ (by rintro _ ⟨⟩) hx'
      (by rw [hd']; exact List.mem_cons_self),
      fun _ _ _ h _ htakes => absurd htakes ((hreach₁.trans h).not_takesUpExit hstarts hlacks),
      hcloser.1, _, hcloser.2⟩
  have hsections : ∀ m₁, m.advance .trivial silent = some (.done, m₁) →
      SectionsRun .trivial silent (.transfer ⟨0, 2⟩ .loop) m₁ := by
    intro m₁' h
    cases hadv.symm.trans h
    refine .of_after hstarts hreach₁ (fun t d' hbegins _ => ?_) hruns
      (after?_succ (n := 0) rfl hadv₁ (by rintro _ ⟨⟩) hx') (fun i hi m'' h => ?_) hadv' hd₂ hx₂
    · obtain ⟨ds, hds⟩ := hbegins.newest
      exact (List.cons.inj (hds.symm.trans hd₁)).1
    · obtain rfl : i = 0 := by omega
      cases h
      rw [hnext, hcloser.2.1]
      decide
  obtain ⟨m₂', hdetour, hnext₂, -, -, hmade⟩ := transfer_tours_cleanup (c := { name := "break" })
    (k := .breakLoop) hstarts hreach (hstarts.keepsExits hlacks) ha ⟨hkey, by rintro ⟨⟩⟩ hquiet (fun _ => hloop) hcmd rfl
    (fun _ => rfl) hsections
  obtain ⟨m₃, hadv₂, hcompletes, -⟩ := hmade rfl
  rw [howed] at hdetour
  cases hdetour with
  | around setsOut tour =>
    cases hadv.symm.trans setsOut
    exact ⟨m₀, m, m₁, m₂', m₃, hm₀, hm, ha, hadv, hnext, tour, hnext₂, hadv₂, hcompletes⟩

end

/-! ## 5. Guards -/

section

variable {g : Setting} {s s' : Session} {a : Address} {goal : Goal} {k : Keyword} {c : Command}

/-- A transfer to a loop that leaves no cleanup section still leaves none where only constructs inside the
loop were left, and no other work was deferred. -/
theorem Session.Leads.stays (h : s.Leads .loop s') (hst : s.Stays .loop) (hm : s.Mirrors) (hd : s.Distinct)
    (hdef : ∀ e ∈ s'.deferred, ∃ e' ∈ s.deferred, e'.spot = e.spot) : s'.Stays .loop := by
  intro e es he
  obtain ⟨e', he', hspot⟩ := hdef e (by rw [he]; exact List.mem_cons_self)
  have hdepth : s'.depth = s.depth := by
    rw [Session.depth_eq_sites, Session.depth_eq_sites, h.sites (by rintro ⟨⟩)]
  rw [Session.leavesCleanup]
  by_cases hne : s'.depth ≠ e.depth
  · rw [if_pos hne]
    rfl
  · rw [if_neg hne, if_pos rfl]
    have hed : e'.spot.1 = s.depth := by
      rw [hspot, ← hdepth]
      exact (not_not.1 hne).symm
    -- the work waits for a try outside of the loop
    have hout : e'.spot ∈ spotsIn (TryFrame.isSettled s.suite) s.depth (s.blocks.drop s.insideLoop) := by
      obtain ⟨d, ds, hds⟩ := List.exists_cons_of_ne_nil (List.ne_nil_of_mem he')
      have hmirror : (s.deferred.map Deferred.spot).Sublist (s.spots (TryFrame.isSettled s.suite)) := hm
      rw [Session.spots, ← List.take_append_drop s.insideLoop s.blocks, ← s.takeWhile_insideLoop,
        spotsIn_append, List.append_assoc, hds, List.map_cons] at hmirror
      have hmem := (sublist_of_head_not_mem hmirror (hst.not_mem_inside hds _)).subset
        (show e'.spot ∈ _ by rw [← List.map_cons, ← hds]; exact List.mem_map_of_mem he')
      refine (List.mem_append.1 hmem).resolve_right fun hmem => ?_
      have := depth_le_of_mem_spotsOf hmem
      rw [hed, Session.depth_eq] at this
      omega
    obtain ⟨-, t, ht, -, ho⟩ := mem_spotsIn.1 hout
    have hsame := h.drop_insideLoop
    have hsplit (u : Session) : u.blocks = (u.blocks.takeWhile fun f => !f.isLoop) ++ u.blocks.drop u.insideLoop := by
      rw [u.takeWhile_insideLoop, List.take_append_drop]
    have hloop : ∃ f ∈ s'.blocks, f.isLoop := by
      obtain ⟨f, rest, hl⟩ := List.exists_cons_of_ne_nil (List.ne_nil_of_mem ht)
      exact ⟨f, by rw [hsplit s', hsame, hl]; simp, isLoop_of_drop_insideLoop hl⟩
    refine leavesTry_eq_false hloop fun f hf => ?_
    cases f with
    | conditional _ | loop _ => rfl
    | guarded u =>
      refine beq_eq_false_iff_ne.2 fun huo => ?_
      obtain ⟨left, hleft, -⟩ := h.blocks (by rintro ⟨⟩)
      have hnodup : (s.blocks.map Frame.opener).Nodup := hd _ List.mem_cons_self
      rw [hleft, hsplit s', hsame, List.map_append, List.map_append, ← List.append_assoc,
        List.nodup_append] at hnodup
      refine hnodup.2.2 u.opener ?_ t.opener (List.mem_map_of_mem (f := Frame.opener) ht) ?_
      · exact List.mem_append_right _ (List.mem_map_of_mem (f := Frame.opener) hf)
      · rw [huo, ho, hspot]
        rfl

/-- What a guard does to a transfer to a loop. -/
theorem loopToLeave?_guarded {Q : Except Fault (Option LoopFrame) → Session → Prop} {guard : String}
    (hguard : guard ≠ "")
    (hholds : ∀ v w, (g.evaluate guard s.vars).1 = .ok v → v.isTruthy = true →
      (loopToLeave? g a "").Ends (s.withVars w) Q)
    (hnot : ∀ v w, (g.evaluate guard s.vars).1 = .ok v → v.isTruthy = false → Q (.ok none) (s.withVars w))
    (herror : ∀ e w, (g.evaluate guard s.vars).1 = .error e → Q (.error e.fault) (s.withVars w)) :
    (loopToLeave? g a guard).Ends s Q := by
  unfold loopToLeave? at hholds ⊢
  rw [ends_bind]
  unfold guardHolds
  rw [if_neg (by simpa using hguard)]
  unfold condition
  rw [ends_bind]
  cases hv : (g.evaluate guard s.vars).1 with
  | error f =>
    unfold evaluate
    rw [ends_bind, ends_ask]
    dsimp only
    rw [ends_bind, ends_change, hv]
    exact herror f _ hv
  | ok v =>
    refine Ends.evaluate_of_ok hv ?_
    dsimp only
    rw [ends_pure]
    dsimp only
    cases htrue : v.isTruthy with
    | true =>
      have := hholds v (g.evaluate guard s.vars).2 hv htrue
      rw [ends_bind] at this
      exact this
    | false => exact hnot v _ hv htrue

theorem Session.Ready.withVars (h : s.Ready) (v : Namespace) : (s.withVars v).Ready :=
  ⟨⟨h.nested, h.fits, h.counted⟩, h.pending, h.running⟩

/-- A guarded transfer to a loop is made exactly if its guard holds, if it is made without a guard. -/
theorem guarded_ends {K : Option LoopFrame → Action Unit} {guard : String} (h : s.Ready)
    (hguard : guard ≠ "") (hnone : K none = pure ()) (hgoesOn : ∀ s', s.Completes k s' → s'.pending ≠ none)
    (hmade : ∀ w, (loopToLeave? g a "" >>= K).Ends (s.withVars w) fun r s' => r = .ok () ∧ s.Completes k s') :
    (loopToLeave? g a guard >>= K).Ends s fun r s' =>
      ((r = .ok () ∧ s.Completes k s') ↔
        ∃ v, (g.evaluate guard s.vars).1 = .ok v ∧ v.isTruthy = true) ∧
      ((r = .ok () ∧ ∃ w, s' = s.withVars w) ↔
        ∃ v, (g.evaluate guard s.vars).1 = .ok v ∧ v.isTruthy = false) := by
  rw [ends_bind]
  refine loopToLeave?_guarded hguard (fun v w hv htrue => ?_) (fun v w hv hfalse => ?_) fun e w he => ?_
  · have hmade := hmade w
    rw [ends_bind] at hmade
    refine hmade.mono fun r t ht => ?_
    cases r with
    | error e => cases ht.1
    | ok l? =>
      refine Ends.mono (m := K l?) ht fun r s' hdone => ⟨iff_of_true hdone ⟨v, hv, htrue⟩, iff_of_false ?_ ?_⟩
      · rintro ⟨-, w', rfl⟩
        exact hgoesOn _ hdone.2 h.pending
      · rintro ⟨v', hv', hfalse⟩
        cases hv.symm.trans hv'
        cases htrue.symm.trans hfalse
  · dsimp only
    rw [hnone, ends_pure]
    refine ⟨iff_of_false ?_ ?_, iff_of_true ⟨rfl, w, rfl⟩ ⟨v, hv, hfalse⟩⟩
    · rintro ⟨-, hdone⟩
      exact hgoesOn _ hdone h.pending
    · rintro ⟨v', hv', htrue⟩
      cases hv.symm.trans hv'
      cases htrue.symm.trans hfalse
  · refine ⟨iff_of_false ?_ ?_, iff_of_false ?_ ?_⟩
    · rintro ⟨hr, -⟩
      cases hr
    · rintro ⟨v, hv, -⟩
      cases he.symm.trans hv
    · rintro ⟨hr, -⟩
      cases hr
    · rintro ⟨v, hv, -⟩
      cases he.symm.trans hv

/-- **A guarded transfer to a loop** that nothing holds up is made exactly if its guard holds; if the guard
does not hold the run goes on behind the command. -/
theorem perform_guarded (h : s.Ready) (hclear : s.cleanup? .loop = none) (hfree : s.Free .loop)
    (hk : goalOf? k = some .loop) (hguard : Text.trim c.target ≠ "") :
    (perform g a k (Text.trim c.target) (Text.trim c.value)).Ends s fun r s' =>
      ((r = .ok () ∧ s.Completes k s') ↔
        ∃ v, (g.evaluate (Text.trim c.target) s.vars).1 = .ok v ∧ v.isTruthy = true) ∧
      ((r = .ok () ∧ ∃ v, s' = s.withVars v) ↔
        ∃ v, (g.evaluate (Text.trim c.target) s.vars).1 = .ok v ∧ v.isTruthy = false) := by
  cases k <;> cases hk
  case breakLoop =>
    refine guarded_ends h hguard rfl ?_ fun w => ?_
    · rintro s' ⟨l, rest, e, -, -, -, hp⟩ hnone
      cases hp.symm.trans hnone
    · exact (breakLoop_completes_iff (h.withVars w) hclear).mono fun r s' hiff => hiff.2 hfree
  case continueLoop =>
    refine guarded_ends h hguard rfl ?_ fun w => ?_
    · rintro s' ⟨l, rest, -, -, hp⟩ hnone
      cases hp.symm.trans hnone
    · exact (continueLoop_completes_iff (h.withVars w) hclear).mono fun r s' hiff => hiff.2 hfree

end

section

variable {σ : Type} {g : Setting} {host : Host σ} {m₀ m : Moment σ} {a : Address} {c : Command} {k : Keyword}

/-- **A guarded transfer to a loop is decided again.**  When its guard holds but it owes cleanup sections, it
comes by way of them back to its command, with the same loop as before: the command then makes the transfer
exactly if the guard still holds, and goes on behind itself exactly if the guard does not. -/
theorem guarded_transfer_is_decided_again (hm₀ : m₀.Starts) (hreach : Reachable g host m₀ m)
    (hkeep : KeepsExits g host m₀ m) (ha : m.next? = some a) (ht : m.poised.session.Transfers a .loop)
    (hst : m.session.Stays .loop) (hloop : ∃ f ∈ m.session.blocks, f.isLoop)
    (hc : m.session.suite.commandAt? a = some c) (hof : Keyword.ofName? c.name = some (k, false))
    (hguard : Text.trim c.target ≠ "")
    (hholds : ∃ v, (g.evaluate (Text.trim c.target) m.session.vars).1 = .ok v ∧ v.isTruthy = true)
    (hsections : ∀ m₁, m.advance g host = some (.done, m₁) → SectionsRun g host (.transfer a .loop) m₁) :
    ∃ m₂, Detour g host (.transfer a .loop) (m.session.owed .loop) m m₂ ∧ m₂.next? = some a ∧
      m.session.Leads .loop m₂.session ∧
      ((∃ m₃, m₂.advance g host = some (.done, m₃) ∧ m₂.poised.session.Completes k m₃.session) ↔
        ∃ v, (g.evaluate (Text.trim c.target) m₂.session.vars).1 = .ok v ∧ v.isTruthy = true) ∧
      ((∃ m₃, m₂.advance g host = some (.done, m₃) ∧
          ∃ v, m₃.session = m₂.poised.session.withVars v) ↔
        ∃ v, (g.evaluate (Text.trim c.target) m₂.session.vars).1 = .ok v ∧ v.isTruthy = false) := by
  have hgoal : goalOf? k = some .loop := ht.goalOf?_eq hc hof
  have hgoes : Goes g m.session.vars k c := by
    cases k <;> cases hgoal
    all_goals exact .inr hholds
  obtain ⟨m₂, hdetour, harrives, -, hleads, hdef⟩ := hreach.detours hm₀ hkeep ha ht hst hc hof hgoes hsections
  have hst₂ : m₂.session.Stays .loop := by
    by_cases hquiet : m.session.deferred = []
    · intro e es he
      obtain ⟨e', he', -⟩ := hdef e (by rw [he]; exact List.mem_cons_self)
      rw [hquiet] at he'
      cases he'
    · obtain ⟨d, ds, hds⟩ := List.exists_cons_of_ne_nil hquiet
      have hu := hreach.upright_of_mem hm₀ hkeep (d := d) (by rw [hds]; exact List.mem_cons_self)
      exact hleads.stays hst hu.mirrors (hu.stands.distinct (hreach.sound hm₀)) hdef
  have hc₂ : m₂.session.suite.commandAt? a = some c := by rw [hleads.suite, hc]
  have hdone := perform_guarded (g := g) (a := a) harrives.ready harrives.clear
    ⟨hst₂, fun hg => hleads.exists_loop hg hloop⟩ hgoal hguard
  exact ⟨m₂, hdetour, harrives.next, hleads, Moment.done_iff (g := g) harrives.next hc₂ hof hdone.1,
    Moment.done_iff (g := g) (P := fun s' => ∃ v, s' = m₂.poised.session.withVars v) harrives.next hc₂ hof
      hdone.2⟩

/-- A guard that the cleanup section makes fail does not leave the loop. -/
theorem guard_fails_after_cleanup : ∃ m₀ m m₁ m₂ m₃ : Moment Unit,
    Moment.ofUnits [.named "main" [{ name := "while", target := "a" }, { name := "try" },
      { name := "break", target := "b" }, { name := "finally" }, { name := "bind" }, { name := "endTry" },
      { name := "endWhile" }]] = .ok m₀ ∧
    m₀.after? (.holdsUntil "x") (binding "x") 2 = some m ∧ m.next? = some ⟨0, 2⟩ ∧
    m.advance (.holdsUntil "x") (binding "x") = some (.done, m₁) ∧ m₁.next? = some ⟨0, 3⟩ ∧
    Tour (.holdsUntil "x") (binding "x") (.transfer ⟨0, 2⟩ .loop) [(1, ⟨0, 1⟩)] m₁ m₂ ∧
    m₂.next? = some ⟨0, 2⟩ ∧ m₂.advance (.holdsUntil "x") (binding "x") = some (.done, m₃) ∧
    ∃ v, m₃.session = m₂.poised.session.withVars v := by
  let d : Deferred := ⟨.transfer ⟨0, 2⟩ .loop, ⟨0, 1⟩, 1⟩
  -- the command, the cleanup section with its two commands, and its closer, as they run
  obtain ⟨m₀, m, m₁, m', m'', m₂, hm₀, hlacks, hm, ha, hkey, hcmd, hholds, hquiet, hloop, howed, hadv, hnext,
      hd₁, hx₁, hadv₁, hnext', hd', hx', hadv', hd'', hx'', hcloser, hadv'', hd₂, hx₂, hfails⟩ :
      ∃ m₀ m m₁ m' m'' m₂ : Moment Unit,
      Moment.ofUnits [.named "main" [{ name := "while", target := "a" }, { name := "try" },
        { name := "break", target := "b" }, { name := "finally" }, { name := "bind" }, { name := "endTry" },
        { name := "endWhile" }]] = .ok m₀ ∧
      m₀.session.suite.Lacks .exitTest ∧ m₀.after? (.holdsUntil "x") (binding "x") 2 = some m ∧
      m.next? = some ⟨0, 2⟩ ∧ (m.session.suite.keywordAt? ⟨0, 2⟩).bind goalOf? = some .loop ∧
      m.session.suite.commandAt? ⟨0, 2⟩ = some { name := "break", target := "b" } ∧
      (∃ v, ((Setting.holdsUntil "x").evaluate (Text.trim "b") m.session.vars).1 = .ok v ∧ v.isTruthy = true) ∧
      m.session.deferred = [] ∧ (∃ f ∈ m.session.blocks, f.isLoop = true) ∧
      m.session.owed .loop = [(1, ⟨0, 1⟩)] ∧ m.advance (.holdsUntil "x") (binding "x") = some (.done, m₁) ∧
      m₁.next? = some ⟨0, 3⟩ ∧ m₁.session.deferred = [d] ∧ m₁.session.exitRequested = false ∧
      m₁.advance (.holdsUntil "x") (binding "x") = some (.done, m') ∧ m'.next? = some ⟨0, 4⟩ ∧
      m'.session.deferred = [d] ∧ m'.session.exitRequested = false ∧
      m'.advance (.holdsUntil "x") (binding "x") = some (.done, m'') ∧ m''.session.deferred = [d] ∧
      m''.session.exitRequested = false ∧
      (m''.session.depth = 1 ∧ m''.next? = some ⟨0, 5⟩ ∧ m''.session.suite.Construct ⟨0, 1⟩ ⟨0, 5⟩) ∧
      m''.advance (.holdsUntil "x") (binding "x") = some (.done, m₂) ∧ m₂.session.deferred = [] ∧
      m₂.session.exitRequested = false ∧
      ∃ v, ((Setting.holdsUntil "x").evaluate (Text.trim "b") m₂.session.vars).1 = .ok v ∧ v.isTruthy = false :=
    ⟨_, _, _, _, _, _, rfl, by decide, rfl, rfl, rfl, rfl, ⟨_, rfl, rfl⟩, rfl,
      ⟨_, List.mem_cons_of_mem _ List.mem_cons_self, rfl⟩, rfl, rfl, rfl, rfl, rfl, rfl, rfl, rfl, rfl, rfl, rfl,
      rfl, ⟨rfl, rfl, _, rfl, rfl, rfl⟩, rfl, rfl, rfl, _, rfl, rfl⟩
  have hstarts := starts_ofUnits hm₀
  have hreach := reachable_of_after? hm
  have hreach₁ := hreach.step hadv (by rintro _ ⟨⟩) hx₁
  have hmem {s : Session} (h : s.deferred = [d]) : d ∈ s.deferred := by rw [h]; exact List.mem_cons_self
  have hruns : SectionRuns (.holdsUntil "x") (binding "x") d m₁ m'' :=
    ⟨.step (.step (.start (hmem hd₁)) hadv₁ (by rintro _ ⟨⟩) hx' (hmem hd')) hadv' (by rintro _ ⟨⟩) hx''
      (hmem hd''), fun _ _ _ h _ htakes => absurd htakes ((hreach₁.trans h).not_takesUpExit hstarts hlacks),
      hcloser.1, _, hcloser.2⟩
  have hbegins (t : TryFrame) (d' : Deferred) (h : m₁.session.Begins t d')
      (_ : d'.work = .transfer ⟨0, 2⟩ .loop) : d' = d := by
    obtain ⟨ds, hds⟩ := h.newest
    exact (List.cons.inj (hds.symm.trans hd₁)).1
  have hafter := after?_succ (n := 0) rfl hadv₁ (by rintro _ ⟨⟩) hx'
  have hearly : ∀ i < 2, ∀ m₃, m₁.after? (.holdsUntil "x") (binding "x") i = some m₃ → m₃.next? ≠ m''.next? := by
    intro i hi m₃ h
    obtain rfl | rfl : i = 0 ∨ i = 1 := by omega
    · cases h
      rw [hnext, hcloser.2.1]
      decide
    · cases hafter.symm.trans h
      rw [hnext', hcloser.2.1]
      decide
  have hafter' := after?_succ hafter hadv' (by rintro _ ⟨⟩) hx''
  have hsections : ∀ m₁, m.advance (.holdsUntil "x") (binding "x") = some (.done, m₁) →
      SectionsRun (.holdsUntil "x") (binding "x") (.transfer ⟨0, 2⟩ .loop) m₁ := by
    intro m₁' h
    cases hadv.symm.trans h
    exact .of_after hstarts hreach₁ hbegins hruns hafter' hearly hadv'' hd₂ hx₂
  obtain ⟨m₂', hdetour, hnext₂, -, -, hpasses⟩ := guarded_transfer_is_decided_again (k := .breakLoop) hstarts
    hreach (hstarts.keepsExits hlacks) ha ⟨hkey, by rintro ⟨⟩⟩ (fun d ds hd => by cases hquiet.symm.trans hd) hloop hcmd rfl
    (by decide) hholds hsections
  rw [howed] at hdetour
  cases hdetour with
  | around setsOut tour =>
    cases hadv.symm.trans setsOut
    rcases tour.eq_of_after hstarts hreach₁ hbegins hruns hafter' hearly hadv'' hd₂ hx₂ with ⟨hnil, -⟩ | rfl
    · cases hnil
    · obtain ⟨m₃, hadv₂, hpassed⟩ := hpasses.2 hfails
      exact ⟨m₀, m, m₁, m₂', m₃, hm₀, hm, ha, hadv, hnext, tour, hnext₂, hadv₂, hpassed⟩

end

end BlockFlow.Flow
