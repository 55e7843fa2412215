/-
# Constructs around the run

At every command of a run the frames of a call are strictly nested constructs around the command, inside
the function that was called: `Level.Encloses`.  The fence `enclosing` says so of sessions, and
`Session.Upright` adds what its steps rely on: the deferred work mirrors the stacks, and a transfer waits
for a try around its command.

The one thing that breaks this is an `exitTest` that is taken up again while other work is deferred: the
command runs where its own constructs are no longer, and takes the place of that work instead of ending
the run.  `KeepsExits` says that it did not happen up to a moment, and a suite without `exitTest` cannot
do it.
-/
import BlockFlow.Proofs.Mirror
import BlockFlow.Proofs.Resuming

namespace BlockFlow

namespace Suite

variable {s : Suite} {a o e : Address} {k : Keyword}

/-- One construct lies inside another one. -/
def Inside (s : Suite) (o a : Address) : Prop := ∃ e f, s.Construct o e ∧ s.Construct a f ∧ a < o ∧ e < f

theorem Nested.inside (hn : s.Nested) (hs : s.Spans a o) (he : s.Construct o e) : s.Inside o a := by
  obtain ⟨f, ha, hlt, -⟩ := id hs
  exact ⟨e, f, he, ha, hlt, hn.closer_lt_of_spans hs ha he⟩

/-- No command of the suite has a keyword. -/
def Lacks (s : Suite) (k : Keyword) : Prop :=
  ∀ u ∈ s.units, ∀ c ∈ u.commands, Keyword.ofName? c.name ≠ some (k, false)

instance (s : Suite) (k : Keyword) : Decidable (s.Lacks k) := by
  unfold Lacks
  infer_instance

theorem Lacks.keywordAt?_ne (h : s.Lacks k) : s.keywordAt? a ≠ some k := by
  intro hk
  obtain ⟨c, hc, hof⟩ := Flow.commandAt?_of_keywordAt? hk
  obtain ⟨u, hu, hcu⟩ := Option.bind_eq_some_iff.1 hc
  exact h u (List.mem_of_getElem? hu) c (List.mem_of_getElem? hcu) hof

/-- Only one keyword transfers to the end of the run. -/
theorem Lacks.goalOf?_ne (h : s.Lacks .exitTest) : (s.keywordAt? a).bind Flow.goalOf? ≠ some .exit := by
  intro hgoal
  obtain ⟨k, hk, hkey⟩ := Option.bind_eq_some_iff.1 hgoal
  have : k = .exitTest := by cases k <;> first | rfl | cases hkey
  exact h.keywordAt?_ne (this ▸ hk)

/-- There are commands up to the closer of a construct. -/
theorem Nested.exists_command (hn : s.Nested) (he : s.Construct o e) (ho : o ≤ a) (hae : a ≤ e) :
    ∃ c, s.commandAt? a = some c := by
  obtain ⟨b, hb, -⟩ := hn.isPart_closer he
  obtain ⟨c, hc, -⟩ := Flow.commandAt?_of_keywordAt? (hn.keyword hb)
  obtain ⟨u, hu, hcu⟩ := Option.bind_eq_some_iff.1 hc
  have hunit : a.unit = e.unit := by
    rcases ho.eq_or_lt with rfl | hlt
    · exact (hn.unit_of_isPart (hn.isPart_closer he)).symm
    · exact hn.unit_of_spans ⟨e, he, hlt, hae⟩ |>.trans (hn.unit_of_isPart (hn.isPart_closer he)).symm
  have hlt : a.position < u.commands.length := by
    have := (List.getElem?_eq_some_iff.1 hcu).1
    rw [Address.le_iff] at hae
    omega
  refine ⟨u.commands[a.position], Option.bind_eq_some_iff.2 ⟨u, hunit ▸ hu, ?_⟩⟩
  exact List.getElem?_eq_getElem hlt

end Suite

namespace Flow

/-! ## 1. The fence of closers -/

/-- The fence along closers: a frame holds the run up to its closer, and a function that is called holds
it from its opener on. -/
def enclosing (suite : Suite) : Fence where
  bound f := (suite.blockAt? f.opener).bind Block.closer
  zone c r := ∀ k, c = some k → suite.Opens .function k ∧ ∃ e, suite.Construct k e ∧ k ≤ r ∧ r ≤ e

section

variable {suite : Suite} {f : Frame} {c : Option Address} {fs : List Frame} {a o e p r : Address}

theorem enclosing_bound_iff (hf : f.Fits suite) :
    (enclosing suite).bound f = some e ↔ suite.Construct f.opener e := by
  obtain ⟨⟨b, hb, hnat⟩, -⟩ := hf
  unfold enclosing
  dsimp only
  rw [hb, Option.bind_some]
  constructor
  · exact fun he => ⟨b, hb, by rw [hnat]; rfl, he⟩
  · rintro ⟨b', hb', -, he⟩
    cases hb.symm.trans hb'
    exact he

/-- **The fence of closers fits** every nested suite. -/
theorem enclosing_fair (hn : suite.Nested) : (enclosing suite).Fair suite where
  nested := hn
  part hf hq := .inl ((enclosing_bound_iff hf).1 hq)
  inner hz he hlt hle := by
    intro k hk
    obtain ⟨hfun, e', he', hko, hoe⟩ := hz k hk
    refine ⟨hfun, e', he', hko.trans hlt.le, ?_⟩
    rcases hko.eq_or_lt with rfl | hko
    · cases he.unique he'
      exact hle
    · exact hle.trans (hn.closer_lt_of_spans ⟨e', he', hko, hoe⟩ he' he).le
  after {c o e} hz he hno := by
    intro k hk
    obtain ⟨hfun, e', he', hko, hoe⟩ := hz k hk
    have hko : k < o := lt_of_le_of_ne hko (by rintro rfl; exact hno hfun)
    have hlt := hn.closer_lt_of_spans ⟨e', he', hko, hoe⟩ he' he
    have hke := hko.trans (hn.opener_lt_closer he)
    refine ⟨hfun, e', he', (hke.trans e.lt_next).le, (Address.next_le_iff ?_).2 hlt⟩
    have hunit := hn.unit_of_isPart (hn.isPart_closer he')
    exact (Address.unit_eq_of_between hke hlt.le hunit.symm).trans hunit.symm
  next {c a} hz hpass := by
    intro k hk
    obtain ⟨hfun, e', he', hka, hae⟩ := hz k hk
    have hne : a ≠ e' := by
      rintro rfl
      exact (hpass k he').2 hk
    have hunit := hn.unit_of_isPart (hn.isPart_closer he')
    refine ⟨hfun, e', he', hka.trans a.lt_next.le, (Address.next_le_iff ?_).2 (lt_of_le_of_ne hae hne)⟩
    rcases hka.eq_or_lt with rfl | hlt
    · exact hunit.symm
    · exact (Address.unit_eq_of_between hlt hae hunit.symm).trans hunit.symm
  jump {c a goal} hz hblock hj := by
    intro k hk
    obtain ⟨hfun, e', he', hka, hae⟩ := hz k hk
    have hne : k ≠ a := by
      rintro rfl
      obtain ⟨b, hb, -⟩ := hfun
      cases hblock.symm.trans hb
    have hborders : suite.Borders k a := ⟨⟨e', he', lt_of_le_of_ne hka hne, hae⟩, .function, by decide, hfun⟩
    obtain ⟨e'', he'', hlt, hle⟩ := hn.spans_of_checkJump hj (hn.not_closesTry hblock) hborders
    exact ⟨hfun, e'', he'', hlt.le, hle⟩
  entry {o} hfun := by
    rintro k hk
    cases hk
    obtain ⟨e, he⟩ := hn.exists_construct_of_opens hfun
    exact ⟨hfun, e, he, le_rfl, (hn.opener_lt_closer he).le⟩

/-! ## 2. Frames that hold a command -/

namespace Fence.Holds

/-- A frame that holds an address has it inside its construct. -/
theorem spans_head (h : (enclosing suite).Holds c (f :: fs) r) (hf : f.Fits suite) (hn : suite.Nested) :
    suite.Spans f.opener r := by
  obtain ⟨e, he⟩ := hn.exists_construct_of_opens hf.1
  obtain ⟨hlt, hle⟩ := h.1 e ((enclosing_bound_iff hf).2 he)
  exact ⟨e, he, hlt, hle⟩

theorem spans (hn : suite.Nested) (hfits : ∀ f ∈ fs, f.Fits suite)
    (h : (enclosing suite).Holds c fs r) : ∀ f ∈ fs, suite.Spans f.opener r := by
  induction fs generalizing r with
  | nil => rintro _ ⟨⟩
  | cons g fs ih =>
    obtain ⟨hg, hfits⟩ := List.forall_mem_cons.1 hfits
    have hhead := h.spans_head hg hn
    refine List.forall_mem_cons.2 ⟨hhead, fun f hf => ?_⟩
    exact hn.spans_trans (ih hfits h.2.2 f hf) hhead

/-- **The frames of a call are strictly nested.** -/
theorem pairwise (hn : suite.Nested) (hfits : ∀ f ∈ fs, f.Fits suite)
    (h : (enclosing suite).Holds c fs r) :
    fs.Pairwise fun f g => suite.Inside f.opener g.opener := by
  induction fs generalizing r with
  | nil => exact .nil
  | cons f fs ih =>
    obtain ⟨hf, hfits⟩ := List.forall_mem_cons.1 hfits
    refine List.pairwise_cons.2 ⟨fun g hg => ?_, ih hfits h.2.2⟩
    obtain ⟨e, he⟩ := hn.exists_construct_of_opens hf.1
    exact hn.inside (spans hn hfits h.2.2 g hg) he

/-- The function that was called holds what its frames hold. -/
theorem zone (hn : suite.Nested) (hfits : ∀ f ∈ fs, f.Fits suite) (h : (enclosing suite).Holds c fs r) :
    (enclosing suite).zone c r := by
  induction fs generalizing r with
  | nil => exact h
  | cons f fs ih =>
    obtain ⟨hf, hfits⟩ := List.forall_mem_cons.1 hfits
    obtain ⟨e, he, hlt, hle⟩ := h.spans_head hf hn
    exact (enclosing_fair hn).inner (ih hfits h.2.2) he hlt hle

/-- The frames of a call are inside the function that was called. -/
theorem inside_callee (hn : suite.Nested) (hfits : ∀ f ∈ fs, f.Fits suite)
    (h : (enclosing suite).Holds c fs r) {k : Address} (hk : c = some k) :
    ∀ f ∈ fs, suite.Inside f.opener k := by
  intro f hf
  obtain ⟨above, rest, rfl⟩ := List.append_of_mem hf
  have hrest : ∀ g ∈ rest, g.Fits suite := fun g hg =>
    hfits g (List.mem_append_right _ (List.mem_cons_of_mem _ hg))
  obtain ⟨hfun, e', he', hle, hle'⟩ := h.below.zone hn hrest k hk
  have hfit := hfits f hf
  have hne : k ≠ f.opener := by
    rintro rfl
    exact hfit.not_function hfun
  obtain ⟨e, he⟩ := hn.exists_construct_of_opens hfit.1
  exact hn.inside ⟨e', he', lt_of_le_of_ne hle hne, hle'⟩ he

theorem nodup (hn : suite.Nested) (hfits : ∀ f ∈ fs, f.Fits suite)
    (h : (enclosing suite).Holds c fs r) : (fs.map Frame.opener).Nodup := by
  refine List.pairwise_map.2 ((h.pairwise hn hfits).imp ?_)
  rintro f g ⟨e, e', -, -, hlt, -⟩ heq
  rw [heq] at hlt
  exact lt_irrefl _ hlt

end Fence.Holds

end

/-- Over the bottom every level holds the place of its call. -/
theorem Laid.holds_mem {F : Fence} {ls : List Level} (h : Laid F .bottom ls) :
    ∀ L ∈ ls, F.Holds L.callee L.blocks L.place := by
  induction h with
  | floor holds =>
    intro L hL
    obtain rfl := List.mem_singleton.1 (show L ∈ [_] from hL)
    rw [show Ground.bottom.rest = [] from rfl, List.append_nil]
    exact holds
  | call holds below ih => exact List.forall_mem_cons.2 ⟨holds, ih⟩

section

variable {F : Fence} {s s' : Session} {a r : Address}

/-- A command that makes a transfer finishes no call. -/
theorem Session.Transfers.running {goal : Goal} (h : s.Transfers a goal) (hs : s.Sound a) : s.Running := by
  by_contra hno
  obtain ⟨c, calls, hcs, hret⟩ := hs.exists_returning hno
  obtain ⟨-, rfl⟩ := hs.returning c calls hcs hret
  have hkey := (hs.calls c (by rw [hcs]; exact List.mem_cons_self)).keyword
  obtain ⟨k, hk, hgoal⟩ := Option.bind_eq_some_iff.1 h.carries
  cases hk.symm.trans hkey
  cases hgoal

/-- A call that has ended has no constructs, and the levels around it go on. -/
theorem Session.Sound.standing_of_not_running (hs : s.Sound r) (hrun : ¬s.Running) (q : Address) :
    s.blocks = [] ∧ s.standing q = s.outer := by
  obtain ⟨c, calls, hcs, hret⟩ := hs.exists_returning hrun
  refine ⟨(hs.returning c calls hcs hret).1, ?_⟩
  unfold Session.standing
  rw [hcs]
  exact if_pos hret

/-- What the constructs of the calls hold: those of the innermost one the command that runs next, unless
the call has ended or its innermost loop begins another pass there. -/
theorem Session.Stands.holds (h : s.Stands F .bottom r) (hs : s.Sound r) :
    (∀ L ∈ s.outer, F.Holds L.callee L.blocks L.place) ∧
      (s.blocks = [] ∧ ¬s.Running ∨ F.Holds s.callee? s.blocks r ∨
        ∃ l rest, s.blocks = .loop l :: rest ∧ l.reentering ∧ l.opener = r ∧
          F.Holds s.callee? s.blocks r.next) := by
  rcases h with h | ⟨l, rest, hb, hre, ho, h⟩
  · by_cases hrun : s.Running
    · rw [hrun.standing] at h
      have := h.holds_mem
      exact ⟨fun L hL => this L (List.mem_cons_of_mem _ hL), .inr (.inl (this _ List.mem_cons_self))⟩
    · obtain ⟨hnil, hstanding⟩ := hs.standing_of_not_running hrun r
      exact ⟨(hstanding ▸ h).holds_mem, .inl ⟨hnil, hrun⟩⟩
  · have := h.holds_mem
    exact ⟨fun L hL => this L (List.mem_cons_of_mem _ hL),
      .inr (.inr ⟨l, rest, hb, hre, ho, this _ List.mem_cons_self⟩)⟩

theorem Session.Sound.fits_outer (hs : s.Sound r) {L : Level} (hL : L ∈ s.outer) :
    ∀ f ∈ L.blocks, f.Fits s.suite := fun f hf =>
  hs.fits f ((s.mem_frames_iff r).2 ⟨L, List.mem_cons_of_mem _ hL, hf⟩)

/-- No two constructs of one call share an opener. -/
theorem Session.Stands.distinct (h : s.Stands (enclosing s.suite) .bottom r) (hs : s.Sound r) : s.Distinct := by
  have hn := hs.nested
  have hf := hs.toFitted.blocks
  obtain ⟨houter, htop⟩ := h.holds hs
  refine List.forall_mem_cons.2 ⟨?_, fun L hL => (houter L hL).nodup hn (hs.fits_outer hL)⟩
  change (s.blocks.map Frame.opener).Nodup
  rcases htop with ⟨hnil, -⟩ | htop | ⟨l, rest, -, -, -, htop⟩
  · rw [hnil]
    exact List.nodup_nil
  · exact htop.nodup hn hf
  · exact htop.nodup hn hf

/-! ## 3. Upright sessions -/

theorem Session.Transfers.ne_exit {s : Session} {a : Address} {goal : Goal} (ht : s.Transfers a goal)
    (h : s.suite.Lacks .exitTest) : goal ≠ .exit := by
  rintro rfl
  exact h.goalOf?_ne ht.carries

/-- A transfer, but that to the end of the run, waits for a try around its command. -/
def Deferred.Rooted (suite : Suite) (d : Deferred) : Prop :=
  ∀ origin goal, d.work = .transfer origin goal → goal ≠ .exit → suite.Spans d.resumeAt origin

/-- **Upright sessions**: their constructs are around the run, and their deferred work mirrors the
constructs. -/
structure Session.Upright (s : Session) (r : Address) : Prop where
  stands : s.Stands (enclosing s.suite) .bottom r
  mirrors : s.Mirrors
  rooted : ∀ d ∈ s.deferred, d.Rooted s.suite

variable {goal : Goal} {origin : Address} {x : Except Fault Unit}

/-- Transfers that wait for a cleanup section wait for a try around their command. -/
theorem Suspends.rooted (m : Suspends origin goal s s') (hd : ∀ d ∈ s.deferred, d.Rooted s.suite)
    (h : goal ≠ .exit → ∀ t, .guarded t ∈ s.blocks → s.suite.Spans t.opener origin) :
    ∀ d ∈ s'.deferred, d.Rooted s.suite := by
  obtain ⟨pre, L, post, above, t, rest, -, hlev, hb, -, -, -, hlev', -, -, -, hpre⟩ := m.levels default
  obtain ⟨t', rest', hs', hdef⟩ := m.deferred
  cases hs'.symm.trans (congrArg Level.blocks (List.cons.inj (hlev' default)).1)
  rw [hdef]
  refine List.forall_mem_cons.2 ⟨?_, fun d hmem => hd d (List.mem_filter.1 hmem).1⟩
  rintro _ _ ⟨⟩ hne
  rw [hpre hne] at hlev
  obtain ⟨rfl, -⟩ := List.cons.inj hlev
  exact h hne t (by rw [show s.blocks = _ from hb]; simp)

/-- The constructs of the innermost call are around a command that makes a transfer. -/
theorem Session.Upright.holds (h : s.Upright a) (hs : s.Sound a) (ht : s.Transfers a goal) :
    (enclosing s.suite).Holds s.callee? s.blocks a := by
  rcases (h.stands.holds hs).2 with ⟨-, hno⟩ | htop | ⟨l, rest, hb, -, rfl, -⟩
  · exact absurd (ht.running hs) hno
  · exact htop
  · obtain ⟨k, hk, hopens, -⟩ := ht.keyword
    refine absurd (hs.toFitted.top hb).1 (not_opens_of_keyword hs.nested hk ?_)
    rw [hopens]
    rintro ⟨⟩

/-- **Moves keep deferred transfers rooted.** -/
theorem Move.rooted (m : Move a s x s') (h : s.Upright a) (hs : s.Sound a) :
    ∀ d ∈ s'.deferred, d.Rooted s.suite := by
  have hn := hs.nested
  have hsame {u : Session} (hu : u.deferred = s.deferred) : ∀ d ∈ u.deferred, d.Rooted s.suite :=
    fun d hd => h.rooted d (hu ▸ hd)
  have htail {ds : List Deferred} {d : Deferred} (hd : s.deferred = d :: ds) :
      ∀ d ∈ ds, d.Rooted s.suite := fun e he => h.rooted e (hd ▸ List.mem_cons_of_mem _ he)
  cases m with
  | stay | skipHandler | skipFunction | exit | enterCall => exact h.rooted
  | jump | enter | enterTry | branch | reachFinally | closeTry | repeat_ | again =>
    exact hsame (s.deferred_setBlocks _)
  | leave => exact hsame (s.kept_drop 1).deferred
  | rethrow top closer active deferred => exact htail deferred
  | resume resumes => exact htail resumes.deferred
  | @resuspend t rest d ds origin goal _ top closer active deferred resumeAt depth work suspends =>
    have hsuite : ((s.leaveTry t rest).withDeferred ds).suite = s.suite := s.suite_setBlocks _
    have hroot := h.rooted d (by rw [deferred]; exact List.mem_cons_self)
    refine hsuite ▸ suspends.rooted (hsuite.symm ▸ htail deferred) fun hne t' ht' => ?_
    rw [hsuite]
    have ht' : .guarded t' ∈ rest := (s.blocks_setBlocks rest) ▸ ht'
    -- the try around the innermost one is around everything that is inside it
    have hspan := hroot origin goal work hne
    rw [resumeAt] at hspan
    have hholds : (enclosing s.suite).Holds s.callee? (.guarded t :: rest) a := by
      rcases (h.stands.holds hs).2 with ⟨hnil, -⟩ | htop | ⟨l, rest', hb, -⟩
      · cases top.symm.trans hnil
      · exact top ▸ htop
      · cases top.symm.trans hb
    have hfits : ∀ f ∈ rest, f.Fits s.suite := fun f hf =>
      hs.toFitted.blocks f (by rw [top]; exact List.mem_cons_of_mem _ hf)
    exact hn.spans_trans (Fence.Holds.spans hn hfits hholds.2.2 _ ht') hspan
  | @replace d ds goal v transfers deferred leaves =>
    refine List.forall_mem_cons.2 ⟨?_, htail deferred⟩
    rintro _ _ ⟨⟩ hne
    obtain ⟨t, ht, ho, -⟩ := h.mirrors.exists_try (d := d) (by rw [deferred]; exact List.mem_cons_self)
      (Session.depth_eq_of_leavesCleanup leaves hne).symm
    change s.suite.Spans d.resumeAt a
    rw [← ho]
    exact (h.holds hs transfers).spans hn hs.toFitted.blocks _ ht
  | suspend transfers stays suspends =>
    exact suspends.rooted h.rooted fun _ t ht => (h.holds hs transfers).spans hn hs.toFitted.blocks _ ht
  | breakLoop | continueLoop =>
    exact hsame ((s.kept_drop _).trans (Session.kept_setBlocks _ _)).deferred
  | adrift => exact hsame (s.kept_drop _).deferred
  | returnFrom transfers stays clear call => exact hsame (Session.kept_markReturning call).deferred

/-- Where a fault was handled only the fault was deferred. -/
theorem Offer.mem_deferred {g : Setting} {f : Fault} (o : Offer g f s .handled s') {d : Deferred}
    (hd : d ∈ s'.deferred) : d ∈ s.deferred ∨ d.work = .fault f := by
  have hrelieve {k n : Nat} {t : TryFrame} {rest : List Frame} (hr : s.Reaches k n t rest) (o : Address)
      (hd : d ∈ (((s.abortCalls k).drop n).relieve o).deferred) : d ∈ s.deferred := by
    rw [← hr.kept.deferred]
    exact ((Session.relieve_sublist _ _).trans (Session.pruneDeferred_sublist _)).subset hd
  have hdetain {k n : Nat} {t t' : TryFrame} {rest : List Frame} (hr : s.Reaches k n t rest)
      (hd : d ∈ (((s.abortCalls k).drop n).detain f t' rest).deferred) : d ∈ s.deferred ∨ d.work = .fault f := by
    rw [Session.detain, Session.deferred_setBlocks] at hd
    rcases List.mem_cons.1 hd with rfl | hd
    · exact .inr rfl
    · exact .inl (hrelieve hr _ hd)
  cases o with
  | caught catchable reaches => exact .inl (hrelieve reaches _ ((Session.deferred_setBlocks _ _) ▸ hd))
  | cleaned catchable reaches => exact hdetain reaches hd
  | passed catchable reaches => exact hdetain reaches hd

theorem Offer.rooted {g : Setting} {f : Fault} (o : Offer g f s .handled s')
    (h : ∀ d ∈ s.deferred, d.Rooted s.suite) : ∀ d ∈ s'.deferred, d.Rooted s.suite := by
  intro d hd
  rcases o.mem_deferred hd with hd | hw
  · exact h d hd
  · intro origin goal hw'
    cases hw.symm.trans hw'

/-- A transfer that takes the place of other work is not the last command of its function: the try that
the work waits for is around it. -/
theorem Session.Upright.zone_next (h : s.Upright a) (hs : s.Sound a) (ht : s.Transfers a goal) {d : Deferred}
    {ds : List Deferred} (hd : s.deferred = d :: ds)
    (hl : s.leavesCleanup d goal) (hz : (enclosing s.suite).zone s.callee? a) :
    (enclosing s.suite).zone s.callee? a.next := by
  have hn := hs.nested
  refine (enclosing_fair hn).next hz fun o ho => ⟨?_, fun hc => ?_⟩
  · obtain ⟨k, hk, -, hpart⟩ := ht.keyword
    obtain ⟨b, k', hb, hk', hclose⟩ := hn.keyword_of_construct ho
    cases hk.symm.trans hk'
    exact ⟨b, hb, hpart _ (Keyword.partOf?_of_closes? hclose)⟩
  · have hne : goal ≠ .exit := by
      rintro rfl
      obtain ⟨k, hk, hgoal⟩ := Option.bind_eq_some_iff.1 ht.carries
      exact hn.not_construct hk (by cases k <;> first | rfl | cases hgoal) ho
    obtain ⟨t, hmem, -⟩ := h.mirrors.exists_try (d := d) (by rw [hd]; exact List.mem_cons_self)
      (Session.depth_eq_of_leavesCleanup hl hne).symm
    have hholds := h.holds hs ht
    obtain ⟨e, e', he, he', -, hlt⟩ := hholds.inside_callee hn hs.toFitted.blocks hc _ hmem
    cases ho.unique he'
    obtain ⟨e'', he'', -, hle⟩ := hholds.spans hn hs.toFitted.blocks _ hmem
    cases he.unique he''
    exact absurd hlt (not_lt.2 hle)

/-- The command of a transfer that is taken up stands where the try around it does, seen from the constructs
around that. -/
theorem Session.Upright.holds_origin (h : s.Upright a) (hs : s.Sound a) {t : TryFrame} {rest : List Frame}
    {d : Deferred} {ds : List Deferred} (hr : s.Resumes a t rest d ds origin goal) (hne : goal ≠ .exit)
    {fs R : List Frame} (hrest : rest = fs ++ R) (hholds : (enclosing s.suite).Holds s.callee? fs t.opener) :
    (enclosing s.suite).Holds s.callee? fs origin := by
  have hroot := h.rooted d (by rw [hr.deferred]; exact List.mem_cons_self) origin goal hr.work hne
  rw [hr.resumeAt] at hroot
  obtain ⟨e, he, hlt, hle⟩ := hroot
  refine hholds.inner (enclosing_fair hs.nested) (fun f hf => hs.toFitted.blocks f ?_) he hlt hle
  rw [hr.top, hrest]
  exact List.mem_cons_of_mem _ (List.mem_append_left _ hf)

/-- A suite without transfers to the end of the run has none to take up. -/
theorem Session.Sound.not_resumes_exit (hs : s.Sound a) (hsuite : s.suite.Lacks .exitTest) {b : Address}
    {t : TryFrame} {rest : List Frame} {d : Deferred} {ds : List Deferred} :
    ¬s.Resumes b t rest d ds origin .exit := by
  intro hr
  obtain ⟨hkey, -⟩ := hs.ledger.carried d (by rw [hr.deferred]; exact List.mem_cons_self) _ _ hr.work
  exact hsuite.goalOf?_ne hkey

/-- **Commands keep sessions upright**, but for an end of the run that is taken up again. -/
theorem Step.upright {g : Setting} {x : StepResult} (h : Step g a s x s') (hx : ∀ f, x ≠ .unhandled f)
    (hs : s.Sound a) (hp : s.pending = none) (hu : s.Upright a)
    (hexit : ∀ t rest d ds origin, ¬s.Resumes a t rest d ds origin .exit) :
    s'.Upright (s'.pending.getD a.next) := by
  have hn := hs.nested
  have hsuite := h.kept.1
  refine ⟨?_, h.mirrors hx hs hu.mirrors (hu.stands.distinct hs), ?_⟩
  · rw [hsuite]
    refine h.laid hx hs hp (enclosing_fair hn) hu.stands (Ground.carries_bottom_standing s') ?_ ?_
    · rintro t rest d ds origin goal hr fs R hrest hholds
      refine hu.holds_origin hs hr ?_ hrest hholds
      rintro rfl
      exact hexit t rest d ds origin hr
    · intro d ds goal ht hd hl hz
      exact hu.zone_next hs ht hd hl hz
  · rw [hsuite]
    cases h with
    | finish call returning => exact fun d hd => hu.rooted d (s.kept_abortCall.deferred ▸ hd)
    | move ready move => exact move.rooted hu hs
    | handled ready move same offer =>
      exact move.kept.1 ▸ offer.rooted (move.kept.1.symm ▸ move.rooted hu hs)
    | unhandled => exact absurd rfl (hx _)

end

/-! ## 4. Upright moments -/

section

variable {σ : Type} {g : Setting} {host : Host σ} {m₀ m m' : Moment σ} {a : Address} {x : StepResult}
  {d : Deferred} {ds : List Deferred}

/-- The closer that runs next takes up a transfer to the end of the run, which its command is then to make. -/
def Moment.TakesUpExit (m : Moment σ) (d : Deferred) (ds : List Deferred) : Prop :=
  ∃ a t rest origin, m.next? = some a ∧ m.poised.session.Resumes a t rest d ds origin .exit

/-- The step of that closer leaves the other work deferred. -/
theorem Moment.TakesUpExit.advance (h : m.TakesUpExit d ds) (hm₀ : m₀.Starts) (hreach : Reachable g host m₀ m) :
    ∃ m₁, m.advance g host = some (.done, m₁) ∧ m₁.session.deferred = ds := by
  obtain ⟨a, t, rest, origin, ha, hr⟩ := h
  obtain ⟨m₁, v, hadv, -, hs, -⟩ := hreach.takes_up hm₀ ha hr
  exact ⟨m₁, hadv, by rw [hs]; rfl⟩

/-- **Up to a moment every end of the run that was taken up was made**: no other work was deferred then. -/
def KeepsExits (g : Setting) (host : Host σ) (m₀ m : Moment σ) : Prop :=
  ∀ m' d ds, Reachable g host m₀ m' → Reachable g host m' m → m'.TakesUpExit d ds → ds = []

theorem KeepsExits.of_step (h : KeepsExits g host m₀ m') (advance : m.advance g host = some (x, m'))
    (handled : ∀ f, x ≠ .unhandled f) (goesOn : m'.session.exitRequested = false) : KeepsExits g host m₀ m :=
  fun m₁ d ds h₁ h₂ => h m₁ d ds h₁ (h₂.step advance handled goesOn)

/-- The moment at which the command of a transfer to the end of the run is to make it, once no other work
is deferred. -/
def Moment.Exits (g : Setting) (host : Host σ) (m m₀ : Moment σ) : Prop :=
  ∃ m' d, Reachable g host m₀ m' ∧ m'.TakesUpExit d [] ∧ m'.advance g host = some (.done, m)

/-- The run ends at that moment. -/
theorem Moment.Exits.ends (h : m.Exits g host m₀) (hm₀ : m₀.Starts) : (∃ a, m.next? = some a) ∧
    ∀ x m', m.advance g host = some (x, m') → m'.session.exitRequested = true := by
  obtain ⟨m', d, hreach, ⟨a, t, rest, origin, hnext, hr⟩, hadv⟩ := h
  obtain ⟨m₁, v, hadv', hnext', hs, hready, hx, ht, hclear⟩ := hreach.takes_up hm₀ hnext hr
  obtain ⟨-, rfl⟩ := Prod.mk.inj (Option.some.inj (hadv.symm.trans hadv'))
  obtain ⟨c, k, -, -, hgoal, hiff⟩ := Moment.completes_iff (g := g) host hnext' hready hx ht hclear
  have hk : k = .exitTest := by cases k <;> first | rfl | cases hgoal
  subst hk
  have hfree : m.poised.session.Free .exit := by
    refine ⟨fun d' ds' hd => ?_, by rintro ⟨⟩⟩
    have hnil : m.session.deferred = [] := by rw [hs]; rfl
    cases hnil.symm.trans hd
  obtain ⟨m₂, hadv₂, hexit⟩ := (hiff trivial).2 hfree
  refine ⟨⟨origin, hnext'⟩, fun x m' h => ?_⟩
  obtain ⟨-, rfl⟩ := Prod.mk.inj (Option.some.inj (hadv₂.symm.trans h))
  exact hexit

theorem Session.Upright.poise {s : Session} {r : Address} (h : s.Upright r) (a? : Option Address) :
    (s.poise a?).Upright r := ⟨h.stands, h.mirrors, h.rooted⟩

theorem Moment.Starts.upright (h : m.Starts) : m.session.Upright m.place := by
  obtain ⟨units, suite, vars, σ', unit, hsuite, rfl⟩ := h
  exact ⟨.inl (@Laid.floor _ _ [] _ _ (by rintro _ ⟨⟩)), List.nil_sublist _, by rintro _ ⟨⟩⟩

/-- **One command keeps a run upright**, unless it takes up the end of the run. -/
theorem Reachable.upright_next (hreach : Reachable g host m₀ m) (hm₀ : m₀.Starts)
    (hu : m.session.Upright m.place) (advance : m.advance g host = some (x, m'))
    (handled : ∀ f, x ≠ .unhandled f) (hno : ∀ d ds, ¬m.TakesUpExit d ds) :
    m'.session.Upright m'.place := by
  obtain ⟨a, ha, hplace, hfollow, hstep⟩ := Moment.step_of_advance (hreach.sound hm₀) advance
  rw [Moment.place, hfollow]
  refine hstep.upright handled (hreach.sound_poise hm₀ ha) rfl ((hplace ▸ hu).poise _) ?_
  intro t rest d ds origin hr
  refine hno d ds ⟨a, t, rest, origin, ha, ?_⟩
  rwa [show m.poised.session = m.session.poise (some a) by rw [Moment.poised, ha]]

/-- **Moments of a run are upright** as long as every end of the run that was taken up was made. -/
theorem Reachable.upright (h : Reachable g host m₀ m) (hm₀ : m₀.Starts) (hkeep : KeepsExits g host m₀ m) :
    m.session.Upright m.place ∨ m.Exits g host m₀ := by
  induction h with
  | start => exact .inl hm₀.upright
  | @step m m' x reached advance handled goesOn ih =>
    rcases ih (hkeep.of_step advance handled goesOn) with hu | hexits
    · by_cases hr : ∃ d ds, m.TakesUpExit d ds
      · obtain ⟨d, ds, hr⟩ := hr
        obtain rfl := hkeep m d ds reached (.step .start advance handled goesOn) hr
        obtain ⟨m₁, hadv, -⟩ := hr.advance hm₀ reached
        obtain ⟨rfl, rfl⟩ := Prod.mk.inj (Option.some.inj (advance.symm.trans hadv))
        exact .inr ⟨m, d, reached, hr, advance⟩
      · exact .inl (reached.upright_next hm₀ hu advance handled fun d ds h => hr ⟨d, ds, h⟩)
    · have := (hexits.ends hm₀).2 x m' advance
      rw [goesOn] at this
      cases this

/-- Moments whose command does not end the run are upright. -/
theorem Reachable.upright_of_advance (h : Reachable g host m₀ m) (hm₀ : m₀.Starts)
    (hkeep : KeepsExits g host m₀ m) (hadv : m.advance g host = some (x, m'))
    (hx : m'.session.exitRequested = false) : m.session.Upright m.place := by
  rcases h.upright hm₀ hkeep with hu | hexits
  · exact hu
  · have := (hexits.ends hm₀).2 x m' hadv
    rw [hx] at this
    cases this

/-- A run of a suite without transfers to the end of the run has none to take up. -/
theorem Reachable.not_takesUpExit (h : Reachable g host m₀ m) (hm₀ : m₀.Starts)
    (hsuite : m₀.session.suite.Lacks .exitTest) : ¬m.TakesUpExit d ds := by
  rintro ⟨a, t, rest, origin, -, hr⟩
  exact ((h.sound hm₀).poise m.next?).not_resumes_exit ((h.suite hm₀).symm ▸ hsuite) hr

/-- So every end of the run that it takes up is made. -/
theorem Moment.Starts.keepsExits (hm₀ : m₀.Starts) (hsuite : m₀.session.suite.Lacks .exitTest) :
    KeepsExits g host m₀ m :=
  fun _ _ _ h _ htakes => absurd htakes (h.not_takesUpExit hm₀ hsuite)

/-- The moments of a run of a suite without transfers to the end of the run are upright. -/
theorem Reachable.upright_of_exitless (h : Reachable g host m₀ m) (hm₀ : m₀.Starts)
    (hsuite : m₀.session.suite.Lacks .exitTest) : m.session.Upright m.place := by
  rcases h.upright hm₀ (hm₀.keepsExits hsuite) with hu | ⟨m', d, h', htakes, -⟩
  · exact hu
  · exact absurd htakes (h'.not_takesUpExit hm₀ hsuite)

end

/-! ## 5. The constructs around every command -/

/-- **The constructs of a call enclose the command that it is at**: they are strictly nested constructs of
the command's unit, inside the function that was called, each opened before the command and closed not
before it.  The innermost one may be a loop whose opener is the command, which begins another pass. -/
structure Level.Encloses (suite : Suite) (L : Level) : Prop where
  opens : ∀ f ∈ L.blocks, suite.Opens f.nature f.opener
  nested : L.blocks.Pairwise fun f g => suite.Inside f.opener g.opener
  unit : ∀ f ∈ L.blocks, f.opener.unit = L.place.unit
  around : ∀ f ∈ L.blocks, suite.Spans f.opener L.place ∨
    ∃ l rest, L.blocks = .loop l :: rest ∧ f = .loop l ∧ l.reentering ∧ l.opener = L.place
  callee : ∀ k, L.callee = some k → suite.Opens .function k ∧ ∀ f ∈ L.blocks, suite.Inside f.opener k
  distinct : (L.blocks.map Frame.opener).Nodup

section

variable {s : Session} {a : Address}

/-- Every level but the innermost one is at the command that called the function of the level inside it,
and runs the function of a call. -/
theorem mem_levelsOf {base : List Frame} {calls : List Call} {r : Address} {L : Level}
    (h : L ∈ levelsOf base calls r) : (L.place = r ∨ ∃ c ∈ calls, L.place = c.returnTo) ∧
      ∀ k, L.callee = some k → ∃ c ∈ calls, c.callee = k := by
  induction calls generalizing r with
  | nil =>
    obtain rfl := List.mem_singleton.1 h
    exact ⟨.inl rfl, by rintro _ ⟨⟩⟩
  | cons c calls ih =>
    rcases List.mem_cons.1 h with rfl | h
    · exact ⟨.inl rfl, by rintro _ ⟨⟩; exact ⟨c, List.mem_cons_self, rfl⟩⟩
    · obtain ⟨hplace, hcallee⟩ := ih h
      refine ⟨.inr ?_, fun k hk => ?_⟩
      · rcases hplace with hplace | ⟨d, hd, hplace⟩
        · exact ⟨c, List.mem_cons_self, hplace⟩
        · exact ⟨d, List.mem_cons_of_mem _ hd, hplace⟩
      · obtain ⟨d, hd, hdk⟩ := hcallee k hk
        exact ⟨d, List.mem_cons_of_mem _ hd, hdk⟩

theorem Session.Sound.genuine (hs : s.Sound a) {c : Call} (hc : c ∈ s.calls) :
    s.suite.Opens .function c.callee ∧ s.suite.keywordAt? c.returnTo = some .call := by
  have := hs.calls c.site (List.mem_map_of_mem hc)
  exact ⟨this.callee, this.keyword⟩

/-- The levels around the innermost one are at calls. -/
theorem Session.Sound.keyword_outer (hs : s.Sound a) {L : Level} (hL : L ∈ s.outer) :
    s.suite.keywordAt? L.place = some .call := by
  unfold Session.outer at hL
  cases hc : s.calls with
  | nil =>
    rw [hc] at hL
    cases hL
  | cons c calls =>
    rw [hc] at hL
    obtain ⟨hplace, -⟩ := mem_levelsOf (show L ∈ levelsOf s.base calls c.returnTo from hL)
    rcases hplace with hplace | ⟨d, hd, hplace⟩
    · exact hplace ▸ (hs.genuine (by rw [hc]; exact List.mem_cons_self)).2
    · exact hplace ▸ (hs.genuine (by rw [hc]; exact List.mem_cons_of_mem _ hd)).2

theorem Session.Sound.opens_callee (hs : s.Sound a) {L : Level} (hL : L ∈ s.levels a) {k : Address}
    (hk : L.callee = some k) : s.suite.Opens .function k := by
  rw [s.levels_eq] at hL
  obtain ⟨c, hc, rfl⟩ := (mem_levelsOf hL).2 k hk
  exact (hs.genuine hc).1

/-- Frames that hold the place of their call enclose it. -/
theorem Fence.Holds.encloses {suite : Suite} {L : Level} {r : Address} (hn : suite.Nested)
    (hfits : ∀ f ∈ L.blocks, f.Fits suite) (h : (enclosing suite).Holds L.callee L.blocks r)
    (hcallee : ∀ k, L.callee = some k → suite.Opens .function k)
    (hplace : r = L.place ∨ ∃ l rest, L.blocks = .loop l :: rest ∧ l.reentering ∧ l.opener = L.place) :
    L.Encloses suite where
  opens f hf := (hfits f hf).1
  nested := h.pairwise hn hfits
  unit := by
    have hbelow {f : Frame} {fs : List Frame} (hfits : ∀ f ∈ fs, f.Fits suite)
        (h : (enclosing suite).Holds L.callee fs r) (hf : f ∈ fs) : f.opener.unit = r.unit :=
      (hn.unit_of_spans (h.spans hn hfits f hf)).symm
    rcases hplace with rfl | ⟨l, rest, hb, -, ho⟩
    · exact fun f => hbelow hfits h
    · intro f hf
      have hl : l.opener.unit = r.unit := hbelow hfits h (f := .loop l) (by rw [hb]; exact List.mem_cons_self)
      rw [hbelow hfits h hf, ← hl, ho]
  around f hf := by
    rcases hplace with rfl | ⟨l, rest, hb, hre, ho⟩
    · exact .inl (h.spans hn hfits f hf)
    · rw [hb] at h hf hfits
      rcases List.mem_cons.1 hf with rfl | hf
      · exact .inr ⟨l, rest, hb, rfl, hre, ho⟩
      · refine .inl (ho ▸ Fence.Holds.spans hn (fun g hg => hfits g (List.mem_cons_of_mem _ hg)) h.2.2 f hf)
  callee k hk := ⟨hcallee k hk, h.inside_callee hn hfits hk⟩
  distinct := h.nodup hn hfits

/-- **The constructs of an upright session enclose** the commands that its calls are at. -/
theorem Session.Upright.encloses (h : s.Upright a) (hs : s.Sound a) :
    (∀ L ∈ s.levels a, L.Encloses s.suite) ∧
      ∀ L ∈ s.outer, s.suite.keywordAt? L.place = some .call ∧
        ∀ f ∈ L.blocks, s.suite.Spans f.opener L.place := by
  have hn := hs.nested
  have hfits := hs.toFitted.blocks
  obtain ⟨houter, htop⟩ := h.stands.holds hs
  have hcallee {L : Level} (hL : L ∈ s.levels a) := fun k (hk : L.callee = some k) => hs.opens_callee hL hk
  refine ⟨List.forall_mem_cons.2 ⟨?_, fun L hL => ?_⟩, fun L hL => ?_⟩
  · have hcallee := hcallee (L := s.level a) List.mem_cons_self
    rcases htop with ⟨hnil, -⟩ | htop | ⟨l, rest, hb, hre, ho, htop⟩
    · have hb : (s.level a).blocks = [] := hnil
      constructor <;> simp only [hb, List.not_mem_nil, false_imp_iff, implies_true, List.Pairwise.nil,
        List.map_nil, List.nodup_nil, and_true]
      exact hcallee
    · exact htop.encloses (L := s.level a) hn hfits hcallee (.inl rfl)
    · exact htop.encloses (L := s.level a) hn hfits hcallee (.inr ⟨l, rest, hb, hre, ho⟩)
  · exact (houter L hL).encloses hn (hs.fits_outer hL) (hcallee (List.mem_cons_of_mem _ hL)) (.inl rfl)
  · exact ⟨hs.keyword_outer hL, (houter L hL).spans hn (hs.fits_outer hL)⟩

end

section

variable {σ : Type} {g : Setting} {host : Host σ} {m₀ m : Moment σ} {a : Address}

/-- **Constructs always enclose the command.**  Whenever a command of a suite without `exitTest` is about
to run, the constructs of its call enclose it, and those of every call around it enclose the call
command that it is at. -/
theorem levels_enclose_command (hm₀ : m₀.Starts)
    (hsuite : m₀.session.suite.Lacks .exitTest) (hreach : Reachable g host m₀ m)
    (ha : m.next? = some a) :
    (∀ L ∈ m.session.levels a, L.Encloses m.session.suite) ∧
      ∀ L ∈ m.session.outer, m.session.suite.keywordAt? L.place = some .call ∧
        ∀ f ∈ L.blocks, m.session.suite.Spans f.opener L.place := by
  have hu := hreach.upright_of_exitless hm₀ hsuite
  have hs := hreach.sound hm₀
  rw [m.place_of_next? ha] at hu hs
  exact hu.encloses hs

/-- In the second pass of a loop its body is inside the loop. -/
theorem loop_encloses_body :
    ∃ m₀ m : Moment Unit, Moment.ofUnits [.named "main" [{ name := "while", target := "a" },
        { name := "echo" }, { name := "endWhile" }]] = .ok m₀ ∧
      m₀.after? .trivial silent 4 = some m ∧ m.next? = some ⟨0, 1⟩ ∧
      (m.session.level ⟨0, 1⟩).Encloses m.session.suite ∧
      m.session.blocks.map Frame.opener = [⟨0, 0⟩] := by
  obtain ⟨m₀, m, hm₀, hm, hnext, hlacks, hb⟩ : ∃ m₀ m : Moment Unit,
      Moment.ofUnits [.named "main" [{ name := "while", target := "a" }, { name := "echo" },
        { name := "endWhile" }]] = .ok m₀ ∧
      m₀.after? .trivial silent 4 = some m ∧ m.next? = some ⟨0, 1⟩ ∧
      m₀.session.suite.Lacks .exitTest ∧ m.session.blocks.map Frame.opener = [⟨0, 0⟩] :=
    ⟨_, _, rfl, rfl, rfl, by decide, rfl⟩
  have h := levels_enclose_command (starts_ofUnits hm₀) hlacks (reachable_of_after? hm) hnext
  exact ⟨m₀, m, hm₀, hm, hnext, h.1 _ List.mem_cons_self, hb⟩

/-! ## 6. Runs that pass -/

section

variable {s : Session} {r : Address}

/-- A call that has ended is at its `call` command. -/
theorem Session.Sound.running_of_commandAt? (hs : s.Sound r) (hnone : s.suite.commandAt? r = none) : s.Running := by
  by_contra hno
  obtain ⟨c, calls, hcs, hret⟩ := hs.exists_returning hno
  have hkey := (hs.calls c (by rw [hcs]; exact List.mem_cons_self)).keyword
  rw [← (hs.returning c calls hcs hret).2] at hkey
  obtain ⟨cmd, hcmd, -⟩ := commandAt?_of_keywordAt? hkey
  cases hnone.symm.trans hcmd

/-- No call and no construct encloses a place without a command. -/
theorem Session.Upright.nothing_encloses (hu : s.Upright r) (hs : s.Sound r)
    (hnone : s.suite.commandAt? r = none) : s.calls = [] ∧ s.blocks = [] := by
  have hn := hs.nested
  have hfits := hs.toFitted.blocks
  have habsurd {o e : Address} (he : s.suite.Construct o e) (hle : o ≤ r) (hle' : r ≤ e) : False := by
    obtain ⟨cmd, hcmd⟩ := hn.exists_command he hle hle'
    cases hnone.symm.trans hcmd
  have hholds : (enclosing s.suite).Holds s.callee? s.blocks r := by
    rcases (hu.stands.holds hs).2 with ⟨-, hno⟩ | htop | ⟨l, rest, hb, -, rfl, -⟩
    · exact absurd (hs.running_of_commandAt? hnone) hno
    · exact htop
    · obtain ⟨e, he⟩ := hn.exists_construct_of_opens (hs.toFitted.top hb).1
      exact (habsurd he le_rfl (hn.opener_lt_closer he).le).elim
  constructor
  · cases hc : s.calls with
    | nil => rfl
    | cons c calls =>
      obtain ⟨-, e, he, hle, hle'⟩ := hholds.zone hn hfits c.callee (by rw [Session.callee?, hc]; rfl)
      exact (habsurd he hle hle').elim
  · refine List.eq_nil_iff_forall_not_mem.2 fun f hf => ?_
    obtain ⟨e, he, hlt, hle⟩ := hholds.spans hn hfits f hf
    exact habsurd he hlt.le hle

/-- Where no construct is left, no try is counted and no work is deferred. -/
theorem Session.Upright.nothing_counted (hu : s.Upright r) (hs : s.Sound r) (hcalls : s.calls = [])
    (hblocks : s.blocks = []) : s.nesting = -1 ∧ s.deferred = [] := by
  have houter : s.outer = [] := by rw [Session.outer, hcalls]
  constructor
  · have hcount := hs.counted
    rw [Session.Counted, Session.frames, hblocks, houter] at hcount
    simp at hcount
    omega
  · have hmirrors := hu.mirrors
    rw [Session.Mirrors, Session.spots, hblocks, houter] at hmirrors
    exact List.map_eq_nil_iff.1 (List.sublist_nil.1 hmirrors)

end

/-- There is no command where a run without a next command goes on. -/
theorem Moment.commandAt?_place (hnext : m.next? = none) : m.session.suite.commandAt? m.place = none := by
  unfold Moment.next? at hnext
  unfold Moment.place
  cases hpend : m.session.pending with
  | some p => simp [hpend] at hnext
  | none =>
    rw [hpend] at hnext
    cases hc : m.session.suite.commandAt? m.following with
    | none => exact hc
    | some c => simp [Suite.present?, hc] at hnext

/-- Where an upright run has no next command, nothing is left to close. -/
theorem Reachable.closed (hreach : Reachable g host m₀ m) (hm₀ : m₀.Starts) (hu : m.session.Upright m.place)
    (hnext : m.next? = none) : m.session.calls = [] ∧ m.session.blocks = [] ∧ m.session.nesting = -1 ∧
      m.session.deferred = [] := by
  have hs := hreach.sound hm₀
  obtain ⟨hcalls, hblocks⟩ := hu.nothing_encloses hs (Moment.commandAt?_place hnext)
  exact ⟨hcalls, hblocks, hu.nothing_counted hs hcalls hblocks⟩

/-- **A run that passes has closed everything**: no call and no construct is left, no try is counted, and
no work is deferred, as long as every end of the run that was taken up again was made. -/
theorem closed_of_passed {w w' : World σ} {options : RunOptions} {report : Report}
    (h : w.run g host options = (.ok report, w')) (hp : report.outcome = .passed)
    (hkeep : ∀ unit m, w.session.beforeRun.2.suite.entry options.entry = .ok unit →
      Reachable g host (Moment.first w unit) m → KeepsExits g host (Moment.first w unit) m) :
    w'.session.calls = [] ∧ w'.session.blocks = [] ∧ w'.session.nesting = -1 ∧
      w'.session.deferred = [] ∧ w'.session.exitRequested = false := by
  obtain ⟨unit, m, hentry, hm₀, hreach, hnext, rfl⟩ := exists_moment_of_passed h hp
  rcases hreach.upright hm₀ (hkeep unit m hentry hreach) with hu | hexits
  · obtain ⟨hcalls, hblocks, hnesting, hdeferred⟩ := hreach.closed hm₀ hu hnext
    exact ⟨hcalls, hblocks, hnesting, hdeferred, hreach.exitRequested hm₀⟩
  · obtain ⟨a, ha⟩ := (hexits.ends hm₀).1
    cases hnext.symm.trans ha

/-- A run that throws twice, once out of a cleanup section, and catches what is thrown passes with
everything closed. -/
theorem run_closes_after_cleanup : ∃ (s : Session) (report : Report) (w' : World Unit),
    Session.ofUnits [.named "main" [{ name := "try" }, { name := "try" }, { name := "throw" },
      { name := "finally" }, { name := "throw" }, { name := "endTry" }, { name := "catch" },
      { name := "endTry" }]] = .ok s ∧
    (⟨s, ()⟩ : World Unit).run .trivial silent { maxSteps := 20 } = (.ok report, w') ∧
    report.outcome = .passed ∧ w'.session.blocks = [] ∧ w'.session.deferred = [] := by
  obtain ⟨s, report, w', hs, hrun, hpassed, hfirst, hlacks⟩ :
      ∃ (s : Session) (report : Report) (w' : World Unit),
      Session.ofUnits [.named "main" [{ name := "try" }, { name := "try" }, { name := "throw" },
        { name := "finally" }, { name := "throw" }, { name := "endTry" }, { name := "catch" },
        { name := "endTry" }]] = .ok s ∧
      (⟨s, ()⟩ : World Unit).run .trivial silent { maxSteps := 20 } = (.ok report, w') ∧
      report.outcome = .passed ∧ s.beforeRun.1 = none ∧ s.beforeRun.2.suite.Lacks .exitTest :=
    ⟨_, _, _, rfl, rfl, rfl, rfl, by decide⟩
  obtain ⟨-, hblocks, -, hdeferred, -⟩ := closed_of_passed hrun hpassed fun unit m _ _ =>
    (starts_first hfirst unit).keepsExits hlacks
  exact ⟨s, report, w', hs, hrun, hpassed, hblocks, hdeferred⟩

end

end Flow

end BlockFlow
