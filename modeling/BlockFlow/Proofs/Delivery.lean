/-
# Faults on their way

A fault that can be caught goes from try to try, innermost first: `Session.tries`.  A try that does not
catch it runs its cleanup section, if it owes one, and its closer then raises the fault again; from any
other try the fault goes on at once.  `Delivery` is the part of the run in which tries are passed, and
`fault_is_delivered` says where it ends: at the first handler that catches the fault, or with the run.
-/
import BlockFlow.Proofs.Keeping

namespace BlockFlow.Flow

open BlockFlow.Flow.Action

/-! ## 1. The tries that take part -/

/-- The try of a frame, if it takes part in the handling of faults. -/
def Frame.active? : Frame → Option TryFrame
  | .guarded t => if t.isActive then some t else none
  | .conditional _ | .loop _ => none

/-- The tries of stacks that take part, with the depths of their calls, innermost first. -/
def triesIn (A : List (List Frame)) : List (Nat × TryFrame) :=
  (placed A).filterMap fun x => x.2.active?.map (Prod.mk x.1)

/-- The tries that take part, with the depths of their calls, innermost first. -/
def Session.tries (s : Session) : List (Nat × TryFrame) := triesIn s.blockStacks

/-- The innermost try that takes part is in its body, and its handler's pattern fits a fault, once everything
inside the try was left. -/
def Session.Takes (s : Session) (g : Setting) (f : Fault) (t : TryFrame) (p : Address) : Prop :=
  catchOf? s.suite t.opener = some p ∧ t.phase = some .trying ∧
    (catches g f.message p s.unwindToTry.2.pruneDeferred).1 = .ok true

section

variable {s : Session} {k n : Nat} {t : TryFrame} {rest : List Frame} {A : List (List Frame)}

theorem Frame.active?_of_isActive (h : t.isActive = true) : (Frame.guarded t).active? = some t := if_pos h

theorem Frame.active?_eq_none {f : Frame} (h : f.isActiveTry = false) : f.active? = none := by
  cases f with
  | conditional _ | loop _ => rfl
  | guarded t => exact if_neg (by rw [show t.isActive = false from h]; decide)

theorem length_triesIn : (triesIn A).length = A.flatten.countP Frame.isActiveTry := by
  induction A with
  | nil => rfl
  | cons fs A ih =>
    rw [triesIn, placed, List.filterMap_append, List.length_append, List.flatten_cons, List.countP_append, ← ih,
      triesIn]
    congr 1
    induction fs with
    | nil => rfl
    | cons f fs ih =>
      rw [List.map_cons, List.filterMap_cons, List.countP_cons, ← ih]
      cases hf : f.isActiveTry with
      | false =>
        rw [Frame.active?_eq_none hf]
        rfl
      | true =>
        cases f with
        | conditional _ | loop _ => cases hf
        | guarded t =>
          rw [Frame.active?_of_isActive hf]
          rfl

/-- The counter of a session counts the tries that take part. -/
theorem Session.Counted.length_tries (h : s.Counted) : s.nesting + 1 = (s.tries.length : Int) := by
  rw [Session.tries, length_triesIn, Session.blockStacks_eq, List.flatten_cons]
  exact h

/-- **The try that a fault comes to** is the innermost one that takes part. -/
theorem Session.Reaches.placed (h : s.Reaches k n t rest) : ∃ left, placed s.blockStacks =
    left ++ (((s.abortCalls k).drop n).depth, .guarded t) ::
      placed (rest :: ((s.abortCalls k).drop n).outer.map Level.blocks) ∧
    s.tries = (((s.abortCalls k).drop n).depth, t) ::
      triesIn (rest :: ((s.abortCalls k).drop n).outer.map Level.blocks) := by
  obtain ⟨pre, L, post, above, hlev, rfl, hb, rfl, habove, hpre⟩ := h.levels default
  have hout : ((s.abortCalls pre.length).drop above.length).outer = post :=
    (List.cons.inj (Session.levels_uncover hlev hb default)).2
  have hstacks : s.blockStacks = pre.map Level.blocks ++ (above ++ .guarded t :: rest) :: post.map Level.blocks := by
    rw [s.blockStacks_eq_levels default, hlev, List.map_append, List.map_cons, hb]
  obtain ⟨left, hleft, hin⟩ := exists_placed_append (pre.map Level.blocks)
    ((above ++ .guarded t :: rest) :: post.map Level.blocks)
  rw [placed_cons_append, ← hstacks] at hleft
  rw [Session.depth_eq, hout]
  have heq : Flow.placed s.blockStacks =
      (left ++ above.map fun f => ((post.map Level.blocks).length + 1, f)) ++
        (post.length + 1, .guarded t) :: Flow.placed (rest :: post.map Level.blocks) := by
    rw [hleft, List.append_assoc, Flow.placed, Flow.placed, List.map_cons, List.length_map]
    rfl
  refine ⟨_, heq, ?_⟩
  have hnone : (left ++ above.map fun f => ((post.map Level.blocks).length + 1, f)).filterMap
      (fun x => x.2.active?.map (Prod.mk x.1)) = [] := by
    refine List.filterMap_eq_nil_iff.2 fun x hx => ?_
    have hidle : x.2.isActiveTry = false := by
      rcases List.mem_append.1 hx with hx | hx
      · obtain ⟨fs, hfs, hmem⟩ := hin x hx
        obtain ⟨M, hM, rfl⟩ := List.mem_map.1 hfs
        exact hpre M hM _ hmem
      · obtain ⟨f, hf, rfl⟩ := List.mem_map.1 hx
        exact habove f hf
    rw [Frame.active?_eq_none hidle]
    rfl
  rw [Session.tries, triesIn, heq, List.filterMap_append, hnone, List.nil_append, List.filterMap_cons,
    Frame.active?_of_isActive h.active]
  rfl

/-- There is one innermost try that takes part. -/
theorem Session.Reaches.unique {k' n' : Nat} {t' : TryFrame} {rest' : List Frame} (h : s.Reaches k n t rest)
    (h' : s.Reaches k' n' t' rest') : k = k' ∧ n = n' := by
  obtain ⟨pre, L, post, above, hlev, rfl, hb, rfl, habove, hpre⟩ := h.levels default
  obtain ⟨pre', L', post', above', hlev', rfl, hb', rfl, habove', hpre'⟩ := h'.levels default
  -- of two splits at the first element of a kind neither comes before the other
  have hfirst {α : Type} {P : α → Prop} {A A' B B' : List α} {x x' : α} (heq : A ++ x :: B = A' ++ x' :: B')
      (hA : ∀ y ∈ A, P y) (hA' : ∀ y ∈ A', P y) (hx : ¬P x) (hx' : ¬P x') : A = A' ∧ x = x' := by
    rcases List.append_eq_append_iff.1 heq with ⟨C, rfl, hC⟩ | ⟨C, rfl, hC⟩ <;> cases C with
    | nil =>
      obtain ⟨rfl, -⟩ := List.cons.inj hC
      exact ⟨by simp, rfl⟩
    | cons y C =>
      obtain ⟨rfl, -⟩ := List.cons.inj hC
      first
        | exact absurd (hA' _ (by simp)) hx
        | exact absurd (hA _ (by simp)) hx'
  have hactive {M : Level} {above rest : List Frame} {t : TryFrame} (hM : M.blocks = above ++ .guarded t :: rest)
      (ht : t.isActive = true) : ¬∀ f ∈ M.blocks, f.isActiveTry = false := by
    intro hall
    have := hall (.guarded t) (by rw [hM]; simp)
    rw [show Frame.isActiveTry (.guarded t) = t.isActive from rfl, ht] at this
    cases this
  obtain ⟨rfl, rfl⟩ := hfirst (hlev.symm.trans hlev') hpre hpre' (hactive hb h.active) (hactive hb' h'.active)
  obtain ⟨rfl, -⟩ := hfirst (P := fun f => f.isActiveTry = false) (hb.symm.trans hb') habove habove'
    (by rw [show Frame.isActiveTry (.guarded t) = t.isActive from rfl, h.active]; decide)
    (by rw [show Frame.isActiveTry (.guarded t') = t'.isActive from rfl, h'.active]; decide)
  exact ⟨rfl, rfl⟩

end

/-! ## 2. Commands that fail -/

section

variable {σ : Type} {g : Setting} {host : Host σ} {m₀ m m' : Moment σ} {a : Address} {f : Fault} {s : Session}
  {x : StepResult}

/-- The command that runs next fails with a fault, which has the reference of the command unless it had
one, and leaves a session whose tries are offered the fault. -/
def Moment.Fails (m : Moment σ) (g : Setting) (host : Host σ) (f : Fault) (s : Session) : Prop :=
  ∃ a f' w, m.next? = some a ∧ m.poised.runCommand g host a = (.error f', w) ∧ s = w.session ∧
    f = f'.attach (m.session.suite.commandRef a)

/-- The fault that no try handles is the one that was offered. -/
theorem Offer.eq_of_unhandled {f' : Fault} {s' : Session} (h : Offer g f s (.unhandled f') s') : f' = f := by
  cases h <;> rfl

/-- A command that fails finishes no call. -/
theorem Moment.Fails.ready (h : m.Fails g host f s) (hm₀ : m₀.Starts) (hreach : Reachable g host m₀ m) :
    m.poised.session.Ready := by
  obtain ⟨a, f', w, ha, hrun, -, -⟩ := h
  have hsound : m.poised.session.Sound a := (m.place_of_next? ha) ▸ (hreach.sound hm₀).poise _
  have hstep : Step g a m.poised.session (m.poised.step g host a).1 (m.poised.step g host a).2.session :=
    step_step hsound rfl ha
  rcases step_of_error hrun with ⟨-, hw⟩ | ⟨f₁, -, hw⟩
  · rw [hw] at hstep
    cases hstep with
    | handled ready => exact ready
  · rw [hw] at hstep
    cases hstep with
    | unhandled ready => exact ready

/-- What a command that fails does before its fault is offered. -/
theorem Moment.Fails.move (h : m.Fails g host f s) (hm₀ : m₀.Starts) (hreach : Reachable g host m₀ m) :
    ∃ a f', m.next? = some a ∧ Move a m.poised.session (.error f') s := by
  have hready := h.ready hm₀ hreach
  obtain ⟨a, f₀, w, ha, hrun, rfl, -⟩ := h
  obtain ⟨r, hmove, hres⟩ := runCommand_move (w := m.poised) g host hready ha
  rw [hrun] at hmove hres
  obtain ⟨-, hok⟩ | ⟨f₁, -, rfl, -, -⟩ := hres
  · cases hok
  · exact ⟨a, f₁, ha, hmove⟩

/-- **A fault is offered to the tries** in the step of the command that fails with it. -/
theorem Moment.Fails.offer (h : m.Fails g host f s) (hm₀ : m₀.Starts) (hreach : Reachable g host m₀ m) :
    s.Fitted ∧ s.suite = m.session.suite ∧ s.exitRequested = false ∧ (∀ ref, f.attach ref = f) ∧
      ∃ x m', m.advance g host = some (x, m') ∧
        ((∃ f', x = .handled f' ∧ Offer g f s .handled m'.session) ∨
          x = .unhandled f ∧ Offer g f s (.unhandled f) m'.session) := by
  have hready := h.ready hm₀ hreach
  obtain ⟨a, f₁, ha, hmove⟩ := h.move hm₀ hreach
  obtain ⟨a', f', w, ha', hrun, rfl, rfl⟩ := h
  cases ha.symm.trans ha'
  have hsound : m.poised.session.Sound a := (m.place_of_next? ha) ▸ (hreach.sound hm₀).poise _
  obtain ⟨hsuite, hcurrent, hexit⟩ := hmove.kept
  have hfitted := (hmove.sound hready hsound).toFitted
  have hx : w.session.exitRequested = false := by
    rcases hexit with heq | ⟨hno, -⟩
    · exact heq.trans (hreach.exitRequested hm₀)
    · cases hno
  have hblame : w.session.blame f' = f'.attach (m.session.suite.commandRef a) := by
    rw [Session.blame, show w.session.current = some a from hcurrent.trans ha]
    dsimp only
    rw [show w.session.suite = m.session.suite from hsuite]
  have hoffer : Offer g (w.session.blame f') w.session _ _ := handleFault_offer g f' hfitted
  rw [hblame] at hoffer
  have hadv : m.advance g host = some ((m.poised.step g host a).1, ⟨(m.poised.step g host a).2, a.next⟩) := by
    rw [Moment.advance, ha, Option.map_some]
  refine ⟨hfitted, hsuite, hx, fun ref => Fault.attach_attach _ _ _, _, _, hadv, ?_⟩
  rcases step_of_error hrun with ⟨hd, hw⟩ | ⟨f₁, hd, hw⟩
  · rw [hw]
    rw [hd] at hoffer
    exact .inl ⟨f', rfl, hoffer⟩
  · rw [hw]
    rw [hd] at hoffer
    cases hoffer.eq_of_unhandled
    exact .inr ⟨rfl, hoffer⟩

/-- **The closer that takes a fault up** fails with it. -/
theorem Reachable.raises (hreach : Reachable g host m₀ m) (hm₀ : m₀.Starts) (ha : m.next? = some a)
    {t : TryFrame} {rest : List Frame} {d : Deferred} {ds : List Deferred}
    (hu : m.poised.session.TakesUp a t rest d ds) (hw : d.work = .fault f) (href : ∀ ref, f.attach ref = f) :
    ∃ v, m.Fails g host f ((m.poised.session.relieved t rest ds).withVars v) := by
  have hsound : m.poised.session.Sound a := (m.place_of_next? ha) ▸ (hreach.sound hm₀).poise _
  have hready := hsound.ready rfl (hsound.running_of_blocks hu.top)
  obtain ⟨s', hfault, -⟩ := hu.runCommand hready ha g host
  obtain ⟨hrun, v, rfl⟩ := hfault f hw
  refine ⟨v, a, _, _, ha, hrun, rfl, ?_⟩
  rw [href, href]

end

/-! ## 3. From try to try -/

section

variable {σ : Type}

/-- The part of a run in which a fault passes tries that do not catch it, between a command that fails with
it and the last one that does. -/
inductive Delivery (g : Setting) (host : Host σ) (f : Fault) : List (Nat × TryFrame) → Moment σ → Moment σ → Prop
  | arrived {m : Moment σ} : Delivery g host f [] m m
  /-- A try that owes its cleanup section runs it, and its closer raises the fault again. -/
  | cleaned {m m₁ m₂ m' : Moment σ} {s : Session} {n : Nat} {t : TryFrame} {ts : List (Nat × TryFrame)}
      {f' : Fault} (fails : m.Fails g host f s) (innermost : s.tries.head? = some (n, t))
      (uncaught : ∀ p, ¬s.Takes g f t p) (owes : t.owesCleanup s.suite = true)
      (handled : m.advance g host = some (.handled f', m₁))
      (begins : m₁.session.Begins t.enterCleanup ⟨.fault f, t.opener, n⟩)
      (runs : SectionRuns g host ⟨.fault f, t.opener, n⟩ m₁ m₂) (rest : Delivery g host f ts m₂ m') :
      Delivery g host f ((n, t) :: ts) m m'
  /-- From a try that owes no cleanup section the fault goes on at its closer. -/
  | passed {m m₁ m' : Moment σ} {s : Session} {n : Nat} {t : TryFrame} {ts : List (Nat × TryFrame)}
      {f' : Fault} {e : Address} (fails : m.Fails g host f s) (innermost : s.tries.head? = some (n, t))
      (uncaught : ∀ p, ¬s.Takes g f t p) (owes : t.owesCleanup s.suite = false)
      (handled : m.advance g host = some (.handled f', m₁))
      (next : m₁.next? = some e) (closer : s.suite.Construct t.opener e) (rest : Delivery g host f ts m₁ m') :
      Delivery g host f ((n, t) :: ts) m m'

/-- Every cleanup section that is run while a fault is delivered runs to its closer, and leaves none on the way that
work waits for. -/
def DeliveryRuns (g : Setting) (host : Host σ) (f : Fault) (m : Moment σ) : Prop :=
  ∀ ts m' m₁ x t d, Delivery g host f ts m m' → m'.advance g host = some (x, m₁) →
    m₁.session.Begins t d → d.work = .fault f → ∃ m₂, SectionKeeps g host d m₁ m₂

variable {g : Setting} {host : Host σ} {m₀ m m' : Moment σ} {a : Address} {f : Fault} {s : Session}
  {x : StepResult}

/-- The closer of a try raises the fault again that waits for it, with nothing below the try changed. -/
theorem Reachable.raises_again (hreach : Reachable g host m₀ m) (hm₀ : m₀.Starts) (ha : m.next? = some a)
    {t : TryFrame} {rest : List Frame} {d : Deferred} {ds : List Deferred}
    (hu : m.poised.session.TakesUp a t rest d ds) (hw : d.work = .fault f) (href : ∀ ref, f.attach ref = f) :
    ∃ s', m.Fails g host f s' ∧ s'.blockStacks = rest :: m.session.outer.map Level.blocks ∧
      s'.sites = m.session.sites := by
  obtain ⟨v, hfails⟩ := hreach.raises hm₀ ha hu hw href
  refine ⟨_, hfails, ?_, Session.sites_setBlocks _ _⟩
  rw [Session.blockStacks_eq]
  exact congrArg₂ List.cons (Session.blocks_setBlocks _ _)
    (congrArg (List.map Level.blocks) (Session.outer_setBlocks _ _))

/-- The calls around the try that a fault comes to. -/
theorem Session.Reaches.sites_eq {k n : Nat} {t : TryFrame} {rest : List Frame} (_ : s.Reaches k n t rest) :
    ((s.abortCalls k).drop n).sites = s.sites.drop (s.depth - ((s.abortCalls k).drop n).depth) := by
  rw [Session.depth_eq_sites, Session.depth_eq_sites, Session.sites_drop, Session.sites_abortCalls, List.length_drop]
  rcases Nat.le_total k s.sites.length with hk | hk
  · rw [show s.sites.length + 1 - (s.sites.length - k + 1) = k by omega]
  · rw [List.drop_eq_nil_of_le hk, List.drop_eq_nil_of_le (by omega)]

/-- A session that goes on in its innermost construct, with some work deferred. -/
structure Session.GoesOnIn (u s' : Session) (f : Frame) (rest : List Frame) (ds : List Deferred) (p : Address) :
    Prop where
  blocks : s'.blocks = f :: rest
  outer : s'.outer = u.outer
  sites : s'.sites = u.sites
  depth : s'.depth = u.depth
  deferred : s'.deferred = ds
  pending : s'.pending = some p

theorem Session.GoesOnIn.next? {u : Session} {m' : Moment σ} {fr : Frame} {rest : List Frame}
    {ds : List Deferred} {p : Address} (h : u.GoesOnIn m'.session fr rest ds p) : m'.next? = some p := by
  rw [Moment.next?, h.pending]
  rfl

/-- One try passes a fault on: it runs its cleanup section if it owes one, and its closer fails with the
fault, which has then one try less to come to. -/
structure Passes (g : Setting) (host : Host σ) (m₀ m : Moment σ) (f : Fault) (s : Session) (x : Nat × TryFrame)
    (m' : Moment σ) (s' : Session) : Prop where
  delivery : Delivery g host f [x] m m'
  fails : m'.Fails g host f s'
  reachable : Reachable g host m₀ m'
  tries : s.tries = x :: s'.tries
  placed : ∃ left, placed s.blockStacks = left ++ placed s'.blockStacks
  sites : ∃ k, s'.sites = s.sites.drop k

/-- The closer of a try that a fault came to raises it again. -/
theorem Session.Reaches.passes {k n : Nat} {t t' : TryFrame} {rest : List Frame} {e : Address} {d : Deferred}
    {ds : List Deferred} (hr : s.Reaches k n t rest) (hm₀ : m₀.Starts) (hreach : Reachable g host m₀ m')
    (hnext : m'.next? = some e)
    (hu : m'.poised.session.TakesUp e t' rest d ds) (hw : d.work = .fault f) (href : ∀ ref, f.attach ref = f)
    (hdelivery : Delivery g host f [(((s.abortCalls k).drop n).depth, t)] m m')
    (houter : m'.session.outer.map Level.blocks = ((s.abortCalls k).drop n).outer.map Level.blocks)
    (hsites : m'.session.sites = ((s.abortCalls k).drop n).sites) :
    ∃ s', Passes g host m₀ m f s (((s.abortCalls k).drop n).depth, t) m' s' := by
  obtain ⟨left, hplaced, htries⟩ := hr.placed
  obtain ⟨s', hfails, hstacks, hs'⟩ := hreach.raises_again hm₀ hnext hu hw href
  rw [houter] at hstacks
  refine ⟨s', hdelivery, hfails, hreach, ?_, ⟨left ++ [(((s.abortCalls k).drop n).depth, .guarded t)], ?_⟩, _,
    hs'.trans (hsites.trans hr.sites_eq)⟩
  · rw [htries, Session.tries, hstacks]
  · rw [hplaced, hstacks, List.append_assoc]
    rfl

/-- The parts of a delivery. -/
theorem Delivery.trans {ts ts' : List (Nat × TryFrame)} {m'' : Moment σ} (h : Delivery g host f ts m m')
    (h' : Delivery g host f ts' m' m'') : Delivery g host f (ts ++ ts') m m'' := by
  induction h with
  | arrived => exact h'
  | cleaned fails innermost uncaught owes handled begins runs _ ih =>
    exact .cleaned fails innermost uncaught owes handled begins runs (ih h')
  | passed fails innermost uncaught owes handled next closer _ ih =>
    exact .passed fails innermost uncaught owes handled next closer (ih h')

/-- A fault that passes one try, whose section ends and is the last one. -/
theorem DeliveryRuns.of_after {m₁ m₂ m₃ : Moment σ} {x₁ x₂ : StepResult} {d : Deferred} {n : Nat} (hm₀ : m₀.Starts)
    (hreach : Reachable g host m₀ m) (hreach₁ : Reachable g host m₀ m₁) (hadv : m.advance g host = some (x₁, m₁))
    (hno : ∀ e o, m₁.next? = some e → ¬m₀.session.suite.Construct o e)
    (hd : ∀ t d', m₁.session.Begins t d' → d' = d) (hkeeps : SectionKeeps g host d m₁ m₂)
    (hn : m₁.after? g host n = some m₂)
    (hearly : ∀ i < n, ∀ m', m₁.after? g host i = some m' → m'.next? ≠ m₂.next?)
    (hadv₂ : m₂.advance g host = some (x₂, m₃)) (hx₂ : ∀ f, x₂ ≠ .unhandled f)
    (hno₃ : ∀ e o, m₃.next? = some e → ¬m₀.session.suite.Construct o e) (hquiet : m₃.session.deferred = [])
    (hgoesOn : m₃.session.exitRequested = false) : DeliveryRuns g host f m := by
  have hreach₂ := hreach₁.trans hkeeps.along.reachable
  have hend : ∀ m', m₁.after? g host (n + 1) = some m' → d ∉ m'.session.deferred := by
    intro m' hm'
    cases (after?_succ hn hadv₂ hx₂ hgoesOn).symm.trans hm'
    rw [hquiet]
    exact List.not_mem_nil
  -- a fault does not go on at a command that closes no try
  have hsuite {m' : Moment σ} {s' : Session} (hr : Reachable g host m₀ m') (h : m'.Fails g host f s') :
      s'.suite = m₀.session.suite := by
    obtain ⟨-, hsuite, -⟩ := h.offer hm₀ hr
    exact hsuite.trans (hr.suite hm₀)
  have hlast {ts : List (Nat × TryFrame)} {m' : Moment σ} (h : Delivery g host f ts m₂ m') : m' = m₂ := by
    cases h with
    | arrived => rfl
    | cleaned fails innermost uncaught owes handled begins =>
      cases hadv₂.symm.trans handled
      obtain ⟨ds, hds⟩ := begins.newest
      cases hquiet.symm.trans hds
    | passed fails innermost uncaught owes handled next closer =>
      cases hadv₂.symm.trans handled
      rw [hsuite hreach₂ fails] at closer
      exact absurd closer (hno₃ _ _ next)
  intro ts m' m'' x t d' hdelivery hadv' hbegins _
  cases hdelivery with
  | arrived =>
    cases hadv.symm.trans hadv'
    cases hd t d' hbegins
    exact ⟨m₂, hkeeps⟩
  | @cleaned _ m₁' m₂' _ _ _ _ _ _ fails innermost uncaught owes handled begins runs rest =>
    cases hadv.symm.trans handled
    cases hd _ _ begins
    cases hkeeps.eq_of_after hm₀ hreach₁ hn hearly hend runs
    cases hlast rest
    cases hadv₂.symm.trans hadv'
    obtain ⟨ds, hds⟩ := hbegins.newest
    cases hquiet.symm.trans hds
  | passed fails innermost uncaught owes handled next closer =>
    cases hadv.symm.trans handled
    rw [hsuite hreach fails] at closer
    exact absurd closer (hno _ _ next)

end

end BlockFlow.Flow
