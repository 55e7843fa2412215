/-
# Deferred work and the stacks

What a command does to the deferred work goes with what it does to the stacks.  The closer of a try takes
up the newest work if it waits for that try (`Session.TakesUp`).  Of the work that is left some may be
forgotten, a transfer may take the place of the newest, and other work may be put before it, which then
waits for the innermost try: these are the ways of `Session.Recounts`.

`Step.recounts` says so of every command that takes no work up, and `Reachable.recounts_rest` of a closer that does.
-/
import BlockFlow.Proofs.Shifts

namespace BlockFlow.Flow

/-- The command makes a transfer, or takes one up. -/
def Session.Brings (s : Session) (a origin : Address) (goal : Goal) : Prop :=
  origin = a ∧ s.Transfers a goal ∨ ∃ t rest d ds, s.TakesUp a t rest d ds ∧ d.work = .transfer origin goal

/-- **A command puts work before other work**: the work waits for the innermost try, which is in its section
or at its closer.  It is the only work of its spot, or the try has just come to its section. -/
structure Session.Defers (s : Session) (a : Address) (s' : Session) (before : List Deferred) (t : TryFrame)
    (rest : List Frame) (post : List (List Frame)) (d : Deferred) (ds : List Deferred) : Prop where
  top : s'.blockStacks = (.guarded t :: rest) :: post
  active : t.isActive = true
  spot : d.spot = (post.length + 1, t.opener)
  deferred : s'.deferred = d :: ds
  kept : ds.Sublist before
  sole : (∀ e ∈ ds, e.spot ≠ d.spot) ∨
    ∃ u, s.Bears (.guarded u) rest post ∧ u.opener = t.opener ∧ u.cleaned = false
  waits : t.cleaned = true ∨ ∃ p, s'.pending = some p ∧ s.suite.Construct t.opener p
  brings : ∀ origin goal, d.work = .transfer origin goal → s.Brings a origin goal
  around : ∀ origin goal, d.work = .transfer origin goal → goal ≠ .exit →
    ∃ above u, s.blocks = above ++ .guarded u :: rest ∧ u.opener = t.opener ∧ post = s.outer.map Level.blocks

/-- **What a command does to deferred work.** -/
inductive Session.Recounts (s : Session) (a : Address) (s' : Session) (before : List Deferred) : Prop
  | forget (kept : s'.deferred.Sublist before)
  | defer {t : TryFrame} {rest : List Frame} {post : List (List Frame)} {d : Deferred} {ds : List Deferred}
      (defers : s.Defers a s' before t rest post d ds)
  | replace {d : Deferred} {ds : List Deferred} {goal : Goal} (transfers : s.Transfers a goal)
      (newest : before = d :: ds) (deferred : s'.deferred = { d with work := .transfer a goal } :: ds)
      (depth : goal ≠ .exit → d.depth = s.depth) (unmoved : s'.blockStacks = s.blockStacks)

section

variable {s s' u : Session} {a origin : Address} {goal : Goal} {g : Setting} {f : Fault} {ds : List Deferred}

/-- A transfer that is made or taken up waits for a cleanup section. -/
theorem Suspends.recounts (h : Suspends origin goal u s') (left : List Frame) (hb : s.blocks = left ++ u.blocks)
    (ho : u.outer = s.outer) (hbrings : s.Brings a origin goal) : s.Recounts a s' u.deferred := by
  obtain ⟨pre, L, post, above, t, rest, p, hlev, hL, howes, -, -, hlev', -, -, -, hpre⟩ := h.levels default
  obtain ⟨t', rest', hs', hdef⟩ := h.deferred
  obtain ⟨hl, hout⟩ := List.cons.inj (hlev' default)
  have hblocks : s'.blocks = .guarded t.enterCleanup :: rest := congrArg Level.blocks hl
  cases hs'.symm.trans hblocks
  have hdepth : s'.depth = (post.map Level.blocks).length + 1 := by
    rw [Session.depth_eq, List.length_map]
    exact congrArg (List.length · + 1) hout
  obtain ⟨inner, hinner⟩ := Session.placed_of_levels hlev hL
  have hbears : s.Bears (.guarded t) rest (post.map Level.blocks) := by
    refine ⟨left.map (fun f => (u.outer.length + 1, f)) ++ inner, ?_⟩
    rw [s.blockStacks_eq, hb, placed_cons_append, ← ho, List.length_map, ← u.blockStacks_eq, hinner,
      List.append_assoc]
    rfl
  have hdefers : s.Defers a s' u.deferred t.enterCleanup rest (post.map Level.blocks) _ _ :=
    { top := by rw [s'.blockStacks_eq_levels default, hlev', List.map_cons]
      active := rfl
      spot := by
        rw [← hdepth]
        rfl
      deferred := hdef
      kept := List.filter_sublist
      sole := .inr ⟨t, hbears, rfl, (TryFrame.owesCleanup_iff.1 howes).2.1⟩
      waits := .inl rfl
      brings := by
        rintro _ _ ⟨⟩
        exact hbrings
      around := by
        rintro _ _ ⟨⟩ hne
        rw [hpre hne] at hlev
        obtain ⟨rfl, rfl⟩ := List.cons.inj hlev
        exact ⟨left ++ above, t, by rw [hb, show u.blocks = _ from hL, List.append_assoc], rfl, by rw [ho]⟩ }
  exact .defer hdefers

/-- A fault that a try handles. -/
theorem Offer.recounts (o : Offer g f u .handled s') (hsuite : u.suite = s.suite) :
    s.Recounts a s' u.deferred := by
  have hrelieve {k n : Nat} {t : TryFrame} {rest : List Frame} (hr : u.Reaches k n t rest) (o : Address) :
      (((u.abortCalls k).drop n).relieve o).deferred.Sublist u.deferred :=
    hr.kept.deferred ▸ (Session.relieve_sublist _ _).trans (Session.pruneDeferred_sublist _)
  have hdetain {k n : Nat} {t t' : TryFrame} {rest : List Frame} {p : Address} {v : Namespace}
      (hr : u.Reaches k n t rest) (ho : t'.opener = t.opener) (hactive : t'.isActive = true)
      (hwaits : t'.cleaned = true ∨ s.suite.Construct t'.opener p) :
      s.Recounts a ((((u.abortCalls k).drop n).detain f t' rest).proceed (some p) v) u.deferred := by
    have hblocks : ((((u.abortCalls k).drop n).detain f t' rest).proceed (some p) v).blockStacks =
        (.guarded t' :: rest) :: ((u.abortCalls k).drop n).outer.map Level.blocks := by
      rw [Session.blockStacks_eq]
      exact congrArg₂ List.cons (Session.blocks_setBlocks _ _)
        (congrArg (List.map Level.blocks) (Session.outer_setBlocks _ _))
    refine .defer
      { top := hblocks
        active := hactive
        spot := ?spot
        deferred := Session.deferred_setBlocks _ _
        kept := hrelieve hr t'.opener
        sole := .inl fun e he => ?sole
        waits := hwaits.imp_right fun h => ⟨p, rfl, h⟩
        brings := by rintro _ _ ⟨⟩
        around := by rintro _ _ ⟨⟩ }
    case spot =>
      rw [List.length_map, ← Session.depth_eq]
      rfl
    case sole =>
      rw [Session.relieve, Session.deferred_forgetDeferred, List.mem_filter, decide_eq_true_iff] at he
      exact he.2
  cases o with
  | @caught k n t rest p v catchable reaches =>
    refine .forget ?_
    rw [Session.deferred_proceed, Session.withTry, Session.deferred_setBlocks]
    exact hrelieve reaches _
  | cleaned catchable reaches => exact hdetain reaches rfl rfl (.inl rfl)
  | passed catchable reaches uncaught done nesting closer =>
    exact hdetain reaches rfl reaches.active (.inr (hsuite ▸ closer))

/-- A command that takes up no work. -/
theorem Move.recounts {x : Except Fault Unit} (m : Move a s x s')
    (hno : ∀ t rest d ds, ¬s.TakesUp a t rest d ds) : s.Recounts a s' s.deferred := by
  have hsame (h : s'.deferred = s.deferred) : s.Recounts a s' s.deferred := .forget (h ▸ List.Sublist.refl _)
  cases m with
  | stay | skipHandler | skipFunction | exit | enterCall => exact hsame rfl
  | jump | enter | enterTry | branch | reachFinally | closeTry | repeat_ | again =>
    exact hsame (s.deferred_setBlocks _)
  | leave => exact hsame (s.kept_drop 1).deferred
  | rethrow top closer active deferred resumeAt depth =>
    exact absurd ⟨top, closer, active, deferred, resumeAt, depth⟩ (hno _ _ _ _)
  | resume resumes => exact absurd resumes.takesUp (hno _ _ _ _)
  | resuspend top closer active deferred resumeAt depth =>
    exact absurd ⟨top, closer, active, deferred, resumeAt, depth⟩ (hno _ _ _ _)
  | replace transfers deferred leaves =>
    exact .replace transfers deferred rfl (fun hne => (Session.depth_eq_of_leavesCleanup leaves hne).symm) rfl
  | suspend transfers stays suspends =>
    exact suspends.recounts [] rfl rfl (.inl ⟨rfl, transfers⟩)
  | breakLoop | continueLoop => exact hsame ((s.kept_drop _).trans (Session.kept_setBlocks _ _)).deferred
  | adrift => exact hsame (s.kept_drop _).deferred
  | returnFrom transfers stays clear call => exact hsame (Session.kept_markReturning call).deferred

/-- A command that takes up no work and fails leaves the deferred work alone. -/
theorem Move.deferred_eq_of_error (m : Move a s (.error f) s')
    (hno : ∀ t rest d ds, ¬s.TakesUp a t rest d ds) : s'.deferred = s.deferred := by
  cases m with
  | stay => rfl
  | enter | branch | again => exact s.deferred_setBlocks _
  | rethrow top closer active deferred resumeAt depth =>
    exact absurd ⟨top, closer, active, deferred, resumeAt, depth⟩ (hno _ _ _ _)
  | adrift => exact (s.kept_drop _).deferred

theorem Step.recounts {x : StepResult} (h : Step g a s x s') (hx : ∀ f, x ≠ .unhandled f)
    (hno : ∀ t rest d ds, ¬s.TakesUp a t rest d ds) : s.Recounts a s' s.deferred := by
  cases h with
  | finish => exact .forget (s.kept_abortCall.deferred ▸ List.Sublist.refl _)
  | move ready move => exact move.recounts hno
  | handled ready move same offer =>
    exact move.deferred_eq_of_error hno ▸ offer.recounts move.kept.1
  | unhandled => exact absurd rfl (hx _)

end

section

variable {σ : Type} {g : Setting} {host : Host σ} {m₀ m m' : Moment σ} {a : Address} {x : StepResult}

/-- The closer that takes up work is done with the work that it leaves. -/
theorem Reachable.recounts_rest (hreach : Reachable g host m₀ m) (hm₀ : m₀.Starts)
    (hadv : m.advance g host = some (x, m')) (hx : ∀ f, x ≠ .unhandled f) (ha : m.next? = some a) {t : TryFrame}
    {rest : List Frame} {d : Deferred} {ds : List Deferred} (hu : m.poised.session.TakesUp a t rest d ds) :
    m.poised.session.Recounts a m'.session ds := by
  have hsound : m.poised.session.Sound a := (m.place_of_next? ha) ▸ (hreach.sound hm₀).poise _
  have hready := hsound.ready rfl (hsound.running_of_blocks hu.top)
  obtain ⟨s', hfault, htransfer⟩ := hu.runCommand hready ha g host
  rw [Moment.advance, ha, Option.map_some] at hadv
  obtain ⟨hstep, rfl⟩ := Prod.mk.inj (Option.some.inj hadv)
  have hleft := hsound.toFitted.leaveTry hu.top
  have hfitted (v : Namespace) : ((m.poised.session.relieved t rest ds).withVars v).Fitted :=
    ⟨hleft.nested, hleft.fits, hleft.counted⟩
  have hsuite (v : Namespace) : ((m.poised.session.relieved t rest ds).withVars v).suite = m.poised.session.suite :=
    m.poised.session.suite_setBlocks rest
  cases hw : d.work with
  | fault f =>
    obtain ⟨hrun, v, rfl⟩ := hfault f hw
    rcases step_of_error hrun with ⟨hhandled, hw⟩ | ⟨f', -, hw⟩
    · rw [hw]
      have hoffer := handleFault_offer g
        (f.attach (((m.poised.session.relieved t rest ds).withVars v).suite.commandRef a)) (hfitted v)
      rw [hhandled] at hoffer
      exact hoffer.recounts (hsuite v)
    · rw [hw] at hstep
      exact absurd hstep.symm (hx f')
  | transfer origin goal =>
    obtain ⟨hrun, hs'⟩ := htransfer origin goal hw
    rw [World.step, hrun]
    rcases hs' with hsuspends | ⟨-, v, rfl⟩
    · exact hsuspends.recounts [.guarded t]
        (hu.top.trans (congrArg _ (Session.blocks_setBlocks _ rest).symm)) (Session.outer_setBlocks _ _)
        (.inr ⟨t, rest, d, ds, hu, hw⟩)
    · exact .forget (List.Sublist.refl _)

end

end BlockFlow.Flow
