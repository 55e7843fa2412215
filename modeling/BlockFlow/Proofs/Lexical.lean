/-
# Stacks and nesting

In a suite without jumps and ends of the run, whose transfers leave no try on their way, the stacks are
what the text of the suite says: at every command each call has exactly the constructs that the command it
is at lies in, `Level.FollowsNesting`.

That the frames are around the command is known from `Session.Upright`.  What is shown here is that no
construct around it is missing: `Suite.Filled` says so of a stack, the innermost frame being the innermost
construct and so on outwards, and `Move.filled` that commands keep it so.  As no transfer of such a suite
waits for a cleanup section, the deferred work is faults only; so a command fails with a scope mismatch only
if the host reports one, `Moment.fromHost`.  `run_follows_nesting` says all this of whole runs.
-/
import BlockFlow.Proofs.Delivery
import BlockFlow.Proofs.Faults

namespace BlockFlow

namespace Suite

/-! ## 1. Constructs around an address -/

/-- A construct is around an address, inside the function that is called.  The closer of a construct is
inside it, unless the construct is a function. -/
def Around (s : Suite) (c : Option Address) (p o : Address) : Prop :=
  (∃ e, s.Construct o e ∧ o < p ∧ p ≤ e ∧ (s.Opens .function o → p ≠ e)) ∧ ∀ k, c = some k → s.Inside o k

/-- A conditional, a loop or a try is around an address: opened before it and closed not before it, inside
the function that is called, or outside of all functions. -/
def Surrounds (s : Suite) (c : Option Address) (p o : Address) : Prop :=
  (∃ n, n ≠ .function ∧ s.Opens n o) ∧ s.Spans o p ∧
    match c with
    | some k => s.Inside o k
    | none => ∀ k, s.Opens .function k → ¬s.Inside o k

section

variable {s : Suite} {c : Option Address} {a e o p t : Address}

/-- Going on at the next command enters no construct but the one opened before it. -/
theorem Around.of_next (h : s.Around c a.next o) : o = a ∨ s.Around c a o := by
  obtain ⟨⟨e, he, hlt, hle, -⟩, hc⟩ := h
  rcases (Address.lt_next_iff.1 hlt).eq_or_lt with rfl | hlt
  · exact .inl rfl
  · have hae := a.lt_next.trans_le hle
    exact .inr ⟨⟨e, he, hlt, hae.le, fun _ => hae.ne⟩, hc⟩

/-- Around a part of a construct there are the construct and what is around it. -/
theorem Nested.around_part (hn : s.Nested) (hp : s.IsPart t p) (h : s.Around c p o) :
    o = t ∨ s.Around c t o := by
  obtain ⟨⟨e, he, hlt, hle, -⟩, hc⟩ := h
  obtain ⟨f, ht, htp, -⟩ := hn.spans_of_isPart hp
  rcases lt_trichotomy t o with hto | rfl | hot
  · exact absurd hle (not_le.2 (hn.closer_lt_part hp he hto hlt))
  · exact .inl rfl
  · have hte := htp.trans_le hle
    exact .inr ⟨⟨e, he, hot, hte.le, fun _ => hte.ne⟩, hc⟩

/-- Of two constructs around an address, the inner one is inside what the outer one is inside. -/
theorem Nested.inside_of_spans {k : Address} (hn : s.Nested) (hin : s.Inside t k) (ht : s.Spans t a)
    (ho : s.Spans o a) (hto : t < o) : s.Inside o k := by
  obtain ⟨e, f, hte, hkf, hkt, hef⟩ := hin
  obtain ⟨e', hte', -, hae⟩ := ht
  obtain ⟨e₁, hoe, hoa, -⟩ := ho
  have hkt : s.Spans k t := ⟨f, hkf, hkt, ((hn.opener_lt_closer hte).trans hef).le⟩
  exact hn.inside (hn.spans_trans hkt ⟨e', hte', hto, (hoa.trans_le hae).le⟩) hoe

/-! ## 2. Filled stacks -/

/-- **Frames with nothing missing**: the first one is the innermost construct around an address, the others
are around its opener in the same way, and nothing is around that of the last. -/
def Filled (s : Suite) (c : Option Address) : List Flow.Frame → Address → Prop
  | [], p => ∀ o, ¬s.Around c p o
  | f :: fs, p => (∀ o, s.Around c p o → o = f.opener ∨ s.Around c f.opener o) ∧ s.Filled c fs f.opener

variable {f f' : Flow.Frame} {fs above : List Flow.Frame}

/-- Every construct around the address is among the frames. -/
theorem Filled.mem (h : s.Filled c fs p) (ho : s.Around c p o) : o ∈ fs.map Flow.Frame.opener := by
  induction fs generalizing p with
  | nil => exact absurd ho (h o)
  | cons f fs ih =>
    rcases h.1 o ho with rfl | ho
    · exact List.mem_cons_self
    · exact List.mem_cons_of_mem _ (ih h.2 ho)

/-- The frames are also filled where nothing else is around. -/
theorem Filled.mono (h : s.Filled c fs p) (hle : ∀ o, s.Around c a o → s.Around c p o) : s.Filled c fs a := by
  cases fs with
  | nil => exact fun o ho => h o (hle o ho)
  | cons f fs => exact ⟨fun o ho => h.1 o (hle o ho), h.2⟩

/-- What is around the address inside one of the frames stands above that frame. -/
theorem Filled.mem_above (h : s.Filled c (above ++ f :: fs) p) (ho : s.Around c p o) (hlt : f.opener < o) :
    o ∈ above.map Flow.Frame.opener := by
  induction above generalizing p with
  | nil =>
    rcases h.1 o ho with rfl | ⟨⟨e, -, hlt', -⟩, -⟩
    · exact absurd hlt (lt_irrefl _)
    · exact absurd hlt (lt_asymm hlt')
  | cons g above ih =>
    rcases h.1 o ho with rfl | ho
    · exact List.mem_cons_self
    · exact List.mem_cons_of_mem _ (ih h.2 ho)

theorem Filled.below (h : s.Filled c (above ++ f :: fs) p) : s.Filled c fs f.opener := by
  induction above generalizing p with
  | nil => exact h.2
  | cons g above ih => exact ih h.2

/-- The innermost frame changes. -/
theorem Filled.retop (h : s.Filled c (f :: fs) p) (ho : f'.opener = f.opener) : s.Filled c (f' :: fs) p := by
  rw [Filled, ho]
  exact h

/-- The run goes on at the next command, no opener of a construct inside the function. -/
theorem Filled.next (h : s.Filled c fs a) (ha : ∀ n, s.Opens n a → c = some a) : s.Filled c fs a.next := by
  refine h.mono fun o ho => ho.of_next.resolve_left ?_
  rintro rfl
  obtain ⟨⟨e, ⟨b, hb, hnat, -⟩, -⟩, hc⟩ := ho
  obtain ⟨n, hn⟩ := Option.isSome_iff_exists.1 hnat
  obtain ⟨-, -, -, -, hlt, -⟩ := hc o (ha n ⟨b, hb, hn⟩)
  exact lt_irrefl o hlt

theorem Filled.next_part (h : s.Filled c fs p) (hn : s.Nested) (hp : s.IsPart t p) : s.Filled c fs p.next := by
  refine h.next ?_
  intro n ho
  obtain ⟨e, he⟩ := hn.exists_construct_of_opens ho
  exact absurd rfl (hp.ne_opener he)

/-- A construct is opened, and the run goes on at the next command. -/
theorem Filled.enter (h : s.Filled c fs f.opener) : s.Filled c (f :: fs) f.opener.next :=
  ⟨fun _ ho => ho.of_next, h⟩

/-- A loop begins another pass at its opener. -/
theorem Filled.again (h : s.Filled c fs f.opener) : s.Filled c (f :: fs) f.opener := ⟨fun _ ho => .inr ho, h⟩

/-- The run goes on at a part of the innermost construct. -/
theorem Filled.part (h : s.Filled c fs f.opener) (hn : s.Nested) (hp : s.IsPart f.opener p) :
    s.Filled c (f :: fs) p :=
  ⟨fun _ ho => hn.around_part hp ho, h⟩

/-- A construct goes on, and the run inside it. -/
theorem GoesOn.filled {p? : Option Address} (hg : s.GoesOn f.opener a p?) (hn : s.Nested)
    (h : s.Filled c fs f.opener) : s.Filled c (f :: fs) (p?.getD a.next) := by
  cases hg with
  | part isPart => exact h.part hn isPart
  | opener => exact h.again
  | next at_ =>
    rcases at_ with rfl | ⟨hpart, -⟩
    · exact h.enter
    · exact (h.part hn hpart).next_part hn hpart

/-- The run goes on after the closer of the innermost construct. -/
theorem Filled.leave (h : s.Filled c (f :: fs) e) (hn : s.Nested) (he : s.Construct f.opener e) :
    s.Filled c fs e.next := by
  refine h.2.mono fun o ho => ?_
  have hne : o ≠ e := by
    rintro rfl
    obtain ⟨⟨e', he', -⟩, -⟩ := ho
    exact (hn.isPart_closer he).ne_opener he' rfl
  rcases h.1 o (ho.of_next.resolve_left hne) with rfl | ho'
  · obtain ⟨⟨e', he', -, hle, -⟩, -⟩ := ho
    cases he.unique he'
    exact absurd hle (not_le.2 e.lt_next)
  · exact ho'

end

/-! ## 3. Structured suites -/

/-- Every try around a command is around a construct of a nature that is around the command too: no try
lies between the command and the innermost construct of that nature around it. -/
def NoTryBelow (s : Suite) (n : Nature) (a : Address) : Prop :=
  ∀ t, s.Opens .guarded t → s.Spans t a → ∃ o, s.Opens n o ∧ s.Spans o a ∧ t < o

/-- **A structured suite**: nothing jumps or asks the run to end, and no try lies between a `break` or
`continue` and its loop, nor between a `return` and its function. -/
structure Structured (s : Suite) : Prop where
  goto : s.Lacks .goto
  gotoIf : s.Lacks .gotoIf
  skipNext : s.Lacks .skipNext
  exitTest : s.Lacks .exitTest
  loops {a} : s.keywordAt? a = some .breakLoop ∨ s.keywordAt? a = some .continueLoop → s.NoTryBelow .loop a
  functions {a} : s.keywordAt? a = some .returnValue → s.NoTryBelow .function a

end Suite

namespace Flow

section

variable {s s' : Session} {a r : Address} {goal : Goal} {g : Setting} {P : Fault → Prop}

/-- The calls that have not ended have nothing missing. -/
def Session.Filled (s : Session) (r : Address) : Prop :=
  ∀ L ∈ s.standing r, s.suite.Filled L.callee L.blocks L.place

theorem Session.filled_iff (hr : s.Running) : s.Filled r ↔ s.suite.Filled s.callee? s.blocks r ∧
    ∀ L ∈ s.outer, s.suite.Filled L.callee L.blocks L.place := by
  unfold Session.Filled
  rw [hr.standing, Session.levels, List.forall_mem_cons]
  rfl

/-- Only faults of a kind are deferred. -/
def Session.OnlyFaults (P : Fault → Prop) (s : Session) : Prop := ∀ d ∈ s.deferred, ∃ f, d.work = .fault f ∧ P f

/-- In a structured suite the constructs are filled, and only faults are deferred. -/
structure Session.Lexical (P : Fault → Prop) (s : Session) (r : Address) : Prop where
  filled : s.Filled r
  onlyFaults : s.OnlyFaults P

/-! ## 4. Transfers without a detour -/

/-- A frame of a loop's opener is a loop. -/
theorem Frame.Fits.isLoop {suite : Suite} {f : Frame} (hf : f.Fits suite) (h : suite.Opens .loop f.opener) :
    f.isLoop = true := by
  obtain ⟨b, hb, hnat⟩ := h
  have := (hf.nature_eq hb).symm.trans hnat
  cases f with
  | loop l => rfl
  | conditional c | guarded t => cases this

/-- Where a try stands in the innermost call, no function is closed. -/
theorem Session.Transfers.closes?_eq_none (ht : s.Transfers a .function) (hs : s.Sound a) (hu : s.Upright a)
    {t : TryFrame} (hmem : .guarded t ∈ s.blocks) {k : Keyword} (hk : s.suite.keywordAt? a = some k) :
    k.closes? = none := by
  have hn := hs.nested
  have hfits := hs.toFitted.blocks
  have hholds := hu.holds hs ht
  refine Option.eq_none_iff_forall_ne_some.2 fun q hq => ?_
  obtain ⟨b, o, hb, ho, hcallee⟩ := ht.callee rfl
  have hkey : b.keyword = k := Option.some.inj ((hn.keyword hb).symm.trans hk)
  obtain ⟨o', -, ho', -, -, hcon⟩ := hn.construct_of_closes? hb (hkey ▸ hq)
  cases ho.symm.trans ho'
  -- the try is closed before the function, but it is around the function's closer
  obtain ⟨e, f, he, hf, -, hlt⟩ := hholds.inside_callee hn hfits hcallee _ hmem
  cases hf.unique hcon
  obtain ⟨e', he', -, hle⟩ := hholds.spans hn hfits _ hmem
  cases he.unique he'
  exact absurd hle (not_le.2 hlt)

/-- **What is around the command inside a try** of the innermost call stands above the try. -/
theorem Session.Transfers.exists_above (ht : s.Transfers a goal) (hs : s.Sound a) (hu : s.Upright a)
    (hl : s.Filled a) {above rest : List Frame} {t : TryFrame} (hb : s.blocks = above ++ .guarded t :: rest)
    {o : Address} (hspan : s.suite.Spans o a) (hto : t.opener < o)
    (hfun : s.suite.Opens .function o → ¬s.suite.Construct o a) : ∃ f ∈ above, f.opener = o := by
  have hn := hs.nested
  have hfits := hs.toFitted.blocks
  have hholds := hu.holds hs ht
  have hmem : .guarded t ∈ s.blocks := by rw [hb]; simp
  have htry : s.suite.Spans t.opener a := hholds.spans hn hfits _ hmem
  obtain ⟨e, he, hoa, hae⟩ := id hspan
  have hin (k : Address) (hk : s.callee? = some k) : s.suite.Inside o k :=
    hn.inside_of_spans (hholds.inside_callee hn hfits hk _ hmem) htry hspan hto
  have hne (hof : s.suite.Opens .function o) : a ≠ e := by
    rintro rfl
    exact hfun hof he
  have hcur := ((s.filled_iff (ht.running hs)).1 hl).1
  rw [hb] at hcur
  exact List.mem_map.1 (hcur.mem_above ⟨⟨e, he, hoa, hae, hne⟩, hin⟩ hto)

/-- **No try is left by a transfer** of a structured suite: a try around the command is around the loop. -/
theorem Session.Transfers.loop_of_try (ht : s.Transfers a goal) (hstr : s.suite.Structured) (hs : s.Sound a)
    (hu : s.Upright a) (hl : s.Filled a) {above rest : List Frame} {t : TryFrame}
    (hb : s.blocks = above ++ .guarded t :: rest) : goal = .loop ∧ ∃ f ∈ above, f.isLoop = true := by
  have hn := hs.nested
  have hfits := hs.toFitted.blocks
  have hmem : .guarded t ∈ s.blocks := by rw [hb]; simp
  have hspan : s.suite.Spans t.opener a := (hu.holds hs ht).spans hn hfits _ hmem
  have hopens := (hfits _ hmem).1
  have hfit {f : Frame} (hf : f ∈ above) : f.Fits s.suite :=
    hfits f (by rw [hb]; exact List.mem_append_left _ hf)
  have hloop (h : s.suite.NoTryBelow .loop a) : ∃ f ∈ above, f.isLoop = true := by
    obtain ⟨o, ho, hso, hto⟩ := h t.opener hopens hspan
    obtain ⟨f, hf, rfl⟩ := ht.exists_above hs hu hl hb hso hto fun hof => by cases ho.unique hof
    exact ⟨f, hf, (hfit hf).isLoop ho⟩
  obtain ⟨k, hk, hgoal⟩ := Option.bind_eq_some_iff.1 ht.carries
  cases k <;> cases hgoal
  case breakLoop => exact ⟨rfl, hloop (hstr.loops (.inl hk))⟩
  case continueLoop => exact ⟨rfl, hloop (hstr.loops (.inr hk))⟩
  case returnValue =>
    obtain ⟨o, ho, hso, hto⟩ := hstr.functions hk t.opener hopens hspan
    obtain ⟨f, hf, rfl⟩ := ht.exists_above hs hu hl hb hso hto fun _ => hn.not_construct hk rfl
    exact absurd ho (hfit hf).not_function
  case endFunction | endScript => cases ht.closes?_eq_none hs hu hmem hk
  case exitTest => exact absurd hk hstr.exitTest.keywordAt?_ne

/-- So no transfer waits, and none takes the place of other work. -/
theorem Session.Transfers.direct (ht : s.Transfers a goal) (hstr : s.suite.Structured) (hs : s.Sound a)
    (hu : s.Upright a) (hl : s.Filled a) : s.Stays goal ∧ s.cleanup? goal = none := by
  have htry {above rest : List Frame} {t : TryFrame} (hb : s.blocks = above ++ .guarded t :: rest) :
      goal = .loop ∧ ∃ f ∈ above, f.isLoop := ht.loop_of_try hstr hs hu hl hb
  have hinside (t : TryFrame) : .guarded t ∉ s.blocks.takeWhile fun f => !f.isLoop := by
    intro hmem
    obtain ⟨above, rest, hsplit⟩ := List.append_of_mem hmem
    have hb : s.blocks = above ++ .guarded t :: (rest ++ s.blocks.dropWhile fun f => !f.isLoop) := by
      conv_lhs => rw [← List.takeWhile_append_dropWhile (p := fun f : Frame => !f.isLoop) (l := s.blocks), hsplit]
      simp
    obtain ⟨-, f, hf, hloop⟩ := htry hb
    have := List.mem_takeWhile_imp (hsplit ▸ List.mem_append_left _ hf : f ∈ s.blocks.takeWhile fun f => !f.isLoop)
    rw [hloop] at this
    cases this
  refine ⟨fun d ds hd => ?_, Session.cleanup?_eq_none_iff.2 ⟨fun t hmem => ?_, fun h => absurd h (ht.ne_exit hstr.exitTest)⟩⟩
  · rw [Session.leavesCleanup]
    by_cases hdepth : s.depth ≠ d.depth
    · rw [if_pos hdepth]
      exact beq_eq_false_iff_ne.2 (ht.ne_exit hstr.exitTest)
    rw [if_neg hdepth]
    -- the work waits for a try of the innermost call, which is around the loop
    obtain ⟨t, hplaced, -, -⟩ := Session.mem_spots_iff.1
      (hu.mirrors.subset (List.mem_map_of_mem (f := Deferred.spot) (by rw [hd]; exact List.mem_cons_self)))
    have hmem : .guarded t ∈ s.blocks := by
      rw [s.blockStacks_eq, show d.spot.1 = s.depth from (not_not.1 hdepth).symm, Session.depth_eq,
        ← List.length_map (f := Level.blocks)] at hplaced
      exact mem_placed_top.1 hplaced
    obtain ⟨above, rest, hb⟩ := List.append_of_mem hmem
    obtain ⟨rfl, f, hf, hloop⟩ := htry hb
    rw [if_pos rfl]
    refine leavesTry_eq_false ⟨f, by rw [hb]; exact List.mem_append_left _ hf, hloop⟩ fun f' hf' => ?_
    cases f' with
    | conditional _ | loop _ => rfl
    | guarded u => exact absurd hf' (hinside u)
  · rw [onTheWay] at hmem
    split at hmem
    · exact absurd hmem (hinside t)
    · obtain ⟨above, rest, hb⟩ := List.append_of_mem hmem
      exact absurd (htry hb).1 ‹_›

/-! ## 5. Moves keep stacks filled -/

/-- The innermost call is filled afterwards, and the others were. -/
theorem Session.Restacks.filled {bs : List Frame} (h : s.Restacks bs s') (hsuite : s'.suite = s.suite)
    (hr : s'.Running) (hout : ∀ L ∈ s.outer, s.suite.Filled L.callee L.blocks L.place)
    (hf : s.suite.Filled s.callee? bs r) : s'.Filled r := by
  rw [s'.filled_iff hr, hsuite, h.outer, h.callee, h.blocks]
  exact ⟨hf, hout⟩

/-- **Commands of a structured suite leave no construct out.** -/
theorem Move.filled (m : Move a s (.ok ()) s') (h : s.Ready) (hs : s.Sound a) (hu : s.Upright a)
    (hstr : s.suite.Structured) (hl : s.Lexical P a) : s'.Filled (s'.pending.getD a.next) := by
  have hn := hs.nested
  have hf := h.toFitted
  have hr := h.runs hs
  obtain ⟨hcur, hout⟩ := (s.filled_iff hr).1 hl.filled
  have hsuite := m.kept.1
  have hdirect {goal : Goal} (ht : s.Transfers a goal) := ht.direct hstr hs hu hl.filled
  rcases m.running hr with hr' | ⟨c, calls, v, ht, hc, rfl⟩
  rotate_left
  · -- the call that has ended no longer stands
    unfold Session.Filled
    rw [Session.standing_markReturning hc, hsuite]
    exact hout
  have hgo {bs : List Frame} {r : Address} (h : s.Restacks bs s') (hf : s.suite.Filled s.callee? bs r) :
      s'.Filled r := h.filled hsuite hr' hout hf
  have hturn {above rest : List Frame} {f f' : Frame} (ht : s.Turns a above f f' rest s') :
      s'.Filled (s'.pending.getD a.next) := by
    rw [ht.before] at hcur
    exact hgo ht.after (Suite.Filled.retop (ht.goesOn.filled hn hcur.below) ht.opener)
  have hclose {f : Frame} {rest : List Frame} (hc : s.Closes a f rest s') : s'.Filled a.next := by
    rw [hc.top] at hcur
    exact hgo hc.after (hcur.leave hn hc.closer)
  -- no transfer is deferred that could be taken up
  have hnoWork {d : Deferred} {ds : List Deferred} {origin : Address} {goal : Goal} (hd : s.deferred = d :: ds)
      (hw : d.work = .transfer origin goal) : False := by
    obtain ⟨f, hf, -⟩ := hl.onlyFaults d (by rw [hd]; exact List.mem_cons_self)
    cases hw.symm.trans hf
  cases m with
  | stay pass => exact hgo (.proceed .refl _ _) (hcur.next (pass rfl).opener)
  | jump unlinked keyword accepted =>
    obtain ⟨k, hk, hkey⟩ := keyword
    simp only [List.mem_cons, List.not_mem_nil, or_false] at hk
    rcases hk with rfl | rfl | rfl
    · exact absurd hkey hstr.goto.keywordAt?_ne
    · exact absurd hkey hstr.gotoIf.keywordAt?_ne
    · exact absurd hkey hstr.skipNext.keywordAt?_ne
  | enter fits opener noTry fresh again part =>
    subst opener
    exact hgo ((Session.Restacks.setBlocks _).proceed _ _) ((Suite.GoesOn.of_part (.inl rfl) part).filled hn hcur)
  | @enterTry t v fits opener =>
    subst opener
    exact hgo ((Session.Restacks.enterTry t).proceed _ _) (Suite.Filled.enter (f := .guarded t) hcur)
  | branch top at_ open_ opener untried part => exact hturn (.branch hf top at_ open_ opener untried part)
  | reachFinally top at_ active => exact hturn (.reachFinally hf top at_ active)
  | repeat_ top closer => exact hturn (.repeat_ hf top)
  | again top at_ reentering opener saved done part binds =>
    exact hturn (.again hf top at_ opener saved part binds)
  | breakLoop transfers stays clear top closer => exact hturn (.breakLoop hf clear top closer)
  | continueLoop transfers stays clear top => exact hturn (.continueLoop hf clear top)
  | leave top noTry closer => exact hclose ⟨top, closer, (Session.Restacks.tail top).proceed _ _⟩
  | closeTry top closer quiet => exact hclose ((Session.Closes.of_leaveTry top closer).proceed _ _)
  | skipHandler top at_ handler phase part last =>
    rw [top] at hcur
    exact hgo (top ▸ .proceed .refl _ _) (hcur.2.part hn part)
  | resume resumes => exact (hnoWork resumes.deferred resumes.work).elim
  | resuspend top closer active deferred resumeAt depth work => exact (hnoWork deferred work).elim
  | replace transfers deferred leaves =>
    rw [(hdirect transfers).1 _ _ deferred] at leaves
    cases leaves
  | suspend transfers stays suspends =>
    obtain ⟨clean, -⟩ := suspends
    cases (hdirect transfers).2.symm.trans clean
  | returnFrom transfers stays clear call => exact absurd hr' (Session.not_running_markReturning call _ _)
  | exit transfers => exact absurd rfl (transfers.ne_exit hstr.exitTest)
  | @enterCall callee args v keyword opens names =>
    rw [Session.filled_iff hr']
    constructor
    · rintro o ⟨⟨e, he, hlt, -⟩, hc⟩
      obtain ⟨-, -, -, -, hlt', -⟩ := hc callee rfl
      exact lt_asymm hlt hlt'
    · change ∀ L ∈ ((s.withVars v).enterCall callee a args).outer, _
      rw [Session.outer_enterCall]
      exact List.forall_mem_cons.2 ⟨hcur, hout⟩
  | @skipFunction e opens closer callee =>
    refine hgo (.proceed .refl _ _) (hcur.mono fun o ho => ?_)
    refine (hn.around_part (hn.isPart_closer closer) ho).resolve_left ?_
    rintro rfl
    obtain ⟨⟨e', he, -, -, hne⟩, -⟩ := ho
    exact hne opens (closer.unique he)

/-- The constructs of all calls are filled below each of their frames, and those of the outer calls at their
commands, even where a command has failed. -/
structure Session.Grounded (s : Session) : Prop where
  outer : ∀ L ∈ s.outer, s.suite.Filled L.callee L.blocks L.place
  below : ∀ above f rest, s.blocks = above ++ f :: rest → s.suite.Filled s.callee? rest f.opener

/-- A command that fails leaves no construct out below those that remain. -/
theorem Move.grounded {f : Fault} (m : Move a s (.error f) s') (hr : s.Running) (hl : s.Filled a) :
    s'.Grounded := by
  obtain ⟨hcur, hout⟩ := (s.filled_iff hr).1 hl
  have hsuite := m.kept.1
  have hof {bs : List Frame} {p : Address} (hr : s.Restacks bs s') (hf : s.suite.Filled s.callee? bs p) :
      s'.Grounded := by
    refine ⟨by rw [hr.outer, hsuite]; exact hout, ?_⟩
    rw [hr.blocks, hr.callee, hsuite]
    rintro above f rest rfl
    exact hf.below
  cases m with
  | stay pass => exact hof (.proceed .refl _ _) hcur
  | enter fits opener noTry fresh again part =>
    subst opener
    exact hof ((Session.Restacks.setBlocks _).proceed _ _) hcur.enter
  | @branch c c' rest r p? v top at_ open_ opener =>
    rw [top] at hcur
    exact hof ((Session.Restacks.setBlocks _).proceed _ _) (Suite.Filled.retop (f := .conditional c) hcur opener)
  | rethrow top =>
    rw [top] at hcur
    exact hof (((Session.Restacks.leaveTry _ _).withDeferred _).proceed _ _) hcur.2
  | @again l l' rest r p? v top at_ reentering opener =>
    rw [top] at hcur
    exact hof ((Session.Restacks.setBlocks _).proceed _ _) (Suite.Filled.retop (f := .loop l) hcur opener)
  | adrift transfers =>
    refine ⟨by rw [Session.outer_proceed, s.outer_drop, hsuite]; exact hout, fun above f rest hb => ?_⟩
    rw [Session.blocks_proceed, Session.blocks_drop, List.drop_length] at hb
    cases above <;> cases hb

/-- **A try that handles a fault** has no construct left out around it. -/
theorem Offer.filled {f : Fault} (o : Offer g f s .handled s') (hf : s.Fitted) (hr : s'.Running)
    (hg : s.Grounded) (d : Address) : s'.Filled (s'.pending.getD d) := by
  have hn := hf.nested
  have hsuite := o.kept.1
  obtain ⟨pre, L, post, above, t, t', rest, p, hlev, hb, -, hans, hp, hlev', -⟩ := o.levels default
  have hfit : Frame.Fits s.suite (.guarded t) :=
    hf.fits _ ((s.mem_frames_iff default).2 ⟨L, by rw [hlev]; simp, by rw [hb]; simp⟩)
  -- the level of the try is the innermost one, or that of an outer call
  have hrest : s.suite.Filled L.callee rest t.opener := by
    have hL : L ∈ s.levels default := by rw [hlev]; simp
    rcases List.mem_cons.1 hL with rfl | hL
    · exact hg.below above (.guarded t) rest hb
    · have := hg.outer L hL
      rw [hb] at this
      exact this.below
  have hpost : ∀ M ∈ post, s.suite.Filled M.callee M.blocks M.place := by
    intro M hM
    refine hg.outer M ?_
    cases pre with
    | nil =>
      rw [(List.cons.inj hlev).2]
      exact hM
    | cons N pre =>
      rw [(List.cons.inj hlev).2]
      simp [hM]
  obtain ⟨ho, hpart⟩ : t'.opener = t.opener ∧ s.suite.IsPart t.opener p := by
    cases hans with
    | handler at_ => exact ⟨rfl, (isPart_of_catchOf? hn hfit at_).1⟩
    | cleanup at_ => exact ⟨rfl, isPart_of_finallyOf? hn hfit at_⟩
    | closer at_ => exact ⟨rfl, hn.isPart_closer at_⟩
  unfold Session.Filled
  rw [hr.standing, hp, Option.getD_some, hlev', hsuite, List.forall_mem_cons]
  refine ⟨Suite.Filled.retop (f := .guarded t) ?_ ho, hpost⟩
  exact Suite.Filled.part (f := .guarded t) hrest hn hpart

/-! ## 6. Faults only -/

/-- Commands of a structured suite defer nothing themselves. -/
theorem Move.onlyFaults {x : Except Fault Unit} (m : Move a s x s') (h : s.OnlyFaults P)
    (hdirect : ∀ {goal}, s.Transfers a goal → s.Stays goal ∧ s.cleanup? goal = none) : s'.OnlyFaults P := by
  have hsame {u : Session} (hu : u.deferred = s.deferred) : u.OnlyFaults P := fun d hd => h d (hu ▸ hd)
  have htail {ds : List Deferred} {d : Deferred} (hd : s.deferred = d :: ds) :
      ∀ e ∈ ds, ∃ f, e.work = .fault f ∧ P f := fun e he => h e (hd ▸ List.mem_cons_of_mem _ he)
  cases m with
  | stay | skipHandler | skipFunction | exit | enterCall => exact h
  | jump | enter | enterTry | branch | reachFinally | closeTry | repeat_ | again =>
    exact hsame (s.deferred_setBlocks _)
  | leave => exact hsame (s.kept_drop 1).deferred
  | rethrow top closer active deferred => exact htail deferred
  | resume resumes => exact htail resumes.deferred
  | @resuspend t rest d ds origin goal _ top closer active deferred resumeAt depth work suspends =>
    obtain ⟨f, hf, -⟩ := h d (by rw [deferred]; exact List.mem_cons_self)
    cases work.symm.trans hf
  | replace transfers deferred leaves =>
    rw [(hdirect transfers).1 _ _ deferred] at leaves
    cases leaves
  | suspend transfers stays suspends =>
    obtain ⟨clean, -⟩ := suspends
    cases (hdirect transfers).2.symm.trans clean
  | breakLoop | continueLoop =>
    exact hsame ((s.kept_drop _).trans (Session.kept_setBlocks _ _)).deferred
  | adrift => exact hsame (s.kept_drop _).deferred
  | returnFrom transfers stays clear call => exact hsame (Session.kept_markReturning call).deferred

/-- A try that handles a fault defers nothing else. -/
theorem Offer.onlyFaults {f : Fault} (o : Offer g f s .handled s') (h : s.OnlyFaults P) (hf : P f) :
    s'.OnlyFaults P := by
  intro d hd
  rcases o.mem_deferred hd with hd | hw
  · exact h d hd
  · exact ⟨f, hw, hf⟩

/-! ## 7. Steps of structured suites -/

/-- The constructs around a call that has ended are filled after its command. -/
theorem Session.Filled.finish {c : Call} {calls : List Call} (h : s.Filled a) (hs : s.Sound a)
    (hc : s.sites = c :: calls) (hret : c.returning = true) (v : Namespace) :
    (s.abortCall.withVars v).Filled a.next := by
  obtain ⟨L, post, ho, rfl⟩ := s.place_of_returning hs hc hret
  have hgenuine := hs.calls c (by rw [hc]; exact List.mem_cons_self)
  have hplace := (hs.returning c calls hc hret).2
  have hstanding : s.standing L.place = L :: post := by
    rw [Session.standing, hc]
    dsimp only
    rw [if_pos hret, ho]
  unfold Session.Filled at h ⊢
  rw [hstanding, List.forall_mem_cons] at h
  rw [(hs.finishCall hc hret v default).2.standing,
    show (s.abortCall.withVars v).levels L.place.next = ⟨L.blocks, L.place.next, L.callee⟩ :: post from
      s.levels_abortCall ho _,
    show (s.abortCall.withVars v).suite = s.suite from s.kept_abortCall.suite, List.forall_mem_cons]
  refine ⟨h.1.next fun n hn => ?_, h.2⟩
  exact absurd hn (not_opens_of_keyword hs.nested (hplace ▸ hgenuine.keyword) (by rintro ⟨⟩))

/-- **Commands keep sessions lexical** in a structured suite. -/
theorem Step.lexical {x : StepResult} (h : Step g a s x s') (hx : ∀ f, x ≠ .unhandled f) (hs : s.Sound a)
    (hp : s.pending = none) (hu : s.Upright a) (hstr : s.suite.Structured) (hl : s.Lexical P a)
    (hhandled : ∀ f, x = .handled f → P (f.attach (s.suite.commandRef a))) :
    s'.Lexical P (s'.pending.getD a.next) := by
  have hdirect {goal : Goal} (ht : s.Transfers a goal) := ht.direct hstr hs hu hl.filled
  cases h with
  | @finish c calls v call returning =>
    rw [show (s.abortCall.withVars v).pending = none from s.kept_abortCall.pending.trans hp]
    exact ⟨hl.filled.finish hs call returning v, fun d hd => hl.onlyFaults d (s.kept_abortCall.deferred ▸ hd)⟩
  | move ready move => exact ⟨move.filled ready hs hu hstr hl, move.onlyFaults hl.onlyFaults hdirect⟩
  | @handled f f' t _ ready move same offer =>
    have hr := ready.runs hs
    have hrt : t.Running := fun c hc => hr c (move.sites_of_error ▸ hc)
    refine ⟨offer.filled (move.sound ready hs).toFitted (offer.running hrt) (move.grounded hr hl.filled) _, ?_⟩
    exact offer.onlyFaults (move.onlyFaults hl.onlyFaults hdirect) (same ▸ hhandled f' rfl)
  | unhandled => exact absurd rfl (hx _)

/-! ## 8. The innermost construct -/

/-- **A command that belongs to a construct finds it innermost** where nothing is missing. -/
theorem Session.Filled.atHome (hl : s.Filled a) (hu : s.Upright a) (hs : s.Sound a) (hr : s.Running) :
    s.AtHome a := by
  intro o ho hno
  have hn := hs.nested
  have hfits := hs.toFitted.blocks
  obtain ⟨e, he, hlt, hle⟩ := hn.spans_of_isPart ho
  have hholds : (enclosing s.suite).Holds s.callee? s.blocks a := by
    rcases (hu.stands.holds hs).2 with ⟨-, hno⟩ | htop | ⟨l, rest, hb, -, rfl, -⟩
    · exact absurd hr hno
    · exact htop
    · obtain ⟨e, he⟩ := hn.exists_construct_of_opens (hs.toFitted.top hb).1
      exact absurd rfl (ho.ne_opener he)
  have haround : s.suite.Around s.callee? a o := by
    refine ⟨⟨e, he, hlt, hle, fun h => absurd h hno⟩, fun k hk => ?_⟩
    obtain ⟨hfun, f, hf, hka, haf⟩ := hholds.zone hn hfits k hk
    rcases lt_trichotomy k o with hko | rfl | hok
    · exact hn.inside ⟨f, hf, hko, hlt.le.trans haf⟩ he
    · exact absurd hfun hno
    · have hka := lt_of_le_of_ne hka (ho.ne_opener hf)
      exact absurd haf (not_le.2 (hn.closer_lt_part ho hf hok hka))
  obtain ⟨hcur, -⟩ := (s.filled_iff hr).1 hl
  cases hb : s.blocks with
  | nil =>
    rw [hb] at hcur
    exact absurd haround (hcur o)
  | cons f rest =>
    rw [hb] at hcur hholds hfits
    refine ⟨f, rest, rfl, (hcur.1 o haround).elim Eq.symm fun h => ?_⟩
    obtain ⟨⟨-, -, hof, -⟩, -⟩ := h
    obtain ⟨e', he', hfa, hae⟩ := hholds.spans_head (hfits f List.mem_cons_self) hn
    exact absurd hae (not_le.2 (hn.closer_lt_part ho he' hof hfa))

/-! ## 9. Stacks that follow the nesting -/

/-- **The constructs of a call follow the nesting** of the suite: they are the conditionals, loops and tries
around the command that the call is at, in their order from the inside, and the loop that begins another
pass at that command. -/
structure Level.FollowsNesting (suite : Suite) (L : Level) : Prop where
  opens : ∀ f ∈ L.blocks, suite.Opens f.nature f.opener
  ordered : L.blocks.Pairwise fun f g => suite.Inside f.opener g.opener
  mem_iff : ∀ o, o ∈ L.blocks.map Frame.opener ↔ suite.Surrounds L.callee L.place o ∨
    o = L.place ∧ ∃ l rest, L.blocks = .loop l :: rest ∧ l.reentering ∧ l.opener = o

/-- Frames that enclose their command and miss no construct follow the nesting. -/
theorem Level.Encloses.followsNesting {suite : Suite} {L : Level} (h : L.Encloses suite)
    (hf : suite.Filled L.callee L.blocks L.place) : L.FollowsNesting suite where
  opens := h.opens
  ordered := h.nested
  mem_iff o := by
    constructor
    · rintro ho
      obtain ⟨f, hmem, rfl⟩ := List.mem_map.1 ho
      rcases h.around f hmem with hspan | ⟨l, rest, hb, rfl, hre, hl⟩
      · refine .inl ⟨⟨_, f.nature_ne_function, h.opens f hmem⟩, hspan, ?_⟩
        cases hc : L.callee with
        | some k => exact (h.callee k hc).2 f hmem
        | none =>
          -- a function around the frame would be around the command too, and no frame is a function
          rintro k hk ⟨e, e', he, he', hlt, hlt'⟩
          obtain ⟨e₁, he₁, hfp, hpe⟩ := hspan
          cases he.unique he₁
          have hpe' := hpe.trans_lt hlt'
          obtain ⟨f', hf', rfl⟩ := List.mem_map.1
            (hf.mem ⟨⟨e', he', hlt.trans hfp, hpe'.le, fun _ => hpe'.ne⟩, by rw [hc]; rintro _ ⟨⟩⟩)
          obtain ⟨b, hb, hnat⟩ := hk
          obtain ⟨b', hb', hnat'⟩ := h.opens f' hf'
          cases hb.symm.trans hb'
          exact f'.nature_ne_function (Option.some.inj (hnat'.symm.trans hnat))
      · exact .inr ⟨hl, l, rest, hb, hre, rfl⟩
    · rintro (⟨⟨n, hn, b, hb, hnat⟩, ⟨e, he, hlt, hle⟩, hcallee⟩ | ⟨-, l, rest, hb, -, rfl⟩)
      · refine hf.mem ⟨⟨e, he, hlt, hle, ?_⟩, fun k hk => by rw [hk] at hcallee; exact hcallee⟩
        rintro ⟨b', hb', hnat'⟩
        cases hb.symm.trans hb'
        exact absurd (Option.some.inj (hnat.symm.trans hnat')) hn
      · rw [hb]
        exact List.mem_cons_self

/-- **The calls of a structured suite follow its nesting.** -/
theorem Session.Lexical.followsNesting (hl : s.Lexical P a) (hu : s.Upright a) (hs : s.Sound a) :
    ∀ L ∈ s.standing a, L.FollowsNesting s.suite := by
  intro L hL
  have hlevels : L ∈ s.levels a := by
    unfold Session.standing at hL
    split at hL
    · exact hL
    · split at hL
      · exact List.mem_cons_of_mem _ hL
      · exact hL
  exact ((hu.encloses hs).1 L hlevels).followsNesting (hl.filled L hL)

end

/-! ## 10. Runs of structured suites -/

section

variable {σ : Type} {g : Setting} {host : Host σ} {m₀ m m' : Moment σ} {a : Address} {f : Fault} {x : StepResult}

/-- The command that runs next is one of the host, which reports a fault. -/
def Moment.Reports (g : Setting) (host : Host σ) (m : Moment σ) (f : Fault) : Prop :=
  ∃ a c, m.next? = some a ∧ m.session.suite.commandAt? a = some c ∧ handles c.name = false ∧
    (host.execute g.evaluate c m.world.host m.session.vars).1 = .error f

/-- If a fault is a scope mismatch then the host has reported one in the run. -/
def FromHost (g : Setting) (host : Host σ) (m₀ : Moment σ) (f : Fault) : Prop :=
  f.IsMismatch → ∃ m f', Reachable g host m₀ m ∧ m.Reports g host f' ∧ f'.IsMismatch

theorem FromHost.of_code {f' : Fault} (h : FromHost g host m₀ f) (hcode : f'.code = f.code) :
    FromHost g host m₀ f' := fun hf => h (by rw [Fault.IsMismatch, ← hcode]; exact hf)

/-- The fault that a step reports is that of its command, but for the reference. -/
theorem Moment.error_of_advance (hm₀ : m₀.Starts) (hreach : Reachable g host m₀ m)
    (hadv : m.advance g host = some (x, m')) (hx : x = .handled f ∨ x = .unhandled f) :
    ∃ a f' w, m.next? = some a ∧ m.poised.runCommand g host a = (.error f', w) ∧
      (f = f' ∨ f = f'.attach (m.session.suite.commandRef a)) := by
  obtain ⟨a, ha, heq⟩ := Option.map_eq_some_iff.1 hadv
  obtain ⟨hstep, -⟩ := Prod.mk.inj heq
  rcases hrun : m.poised.runCommand g host a with ⟨f' | _, w⟩
  · refine ⟨a, f', w, ha, hrun, ?_⟩
    obtain ⟨-, -, -, -, x', m₁, hadv', hx'⟩ :=
      Moment.Fails.offer (f := f'.attach (m.session.suite.commandRef a)) ⟨a, f', w, ha, hrun, rfl, rfl⟩ hm₀ hreach
    obtain ⟨rfl, rfl⟩ := Prod.mk.inj (Option.some.inj (hadv.symm.trans hadv'))
    rcases step_of_error hrun with ⟨-, hw⟩ | ⟨f₁, -, hw⟩ <;> rw [hw] at hstep
    · rcases hx with rfl | rfl <;> cases hstep
      exact .inl rfl
    · rcases hx' with ⟨_, rfl, -⟩ | ⟨rfl, -⟩
      · cases hstep
      · rcases hx with hx | hx <;> cases hx
        exact .inr rfl
  · rw [World.step, hrun] at hstep
    rcases hx with rfl | rfl <;> cases hstep

/-- **A command of a structured suite fails with a scope mismatch** only if the host has reported one. -/
theorem Moment.fromHost (hm₀ : m₀.Starts) (hreach : Reachable g host m₀ m)
    (hu : m.session.Upright m.place) (hl : m.session.Lexical (FromHost g host m₀) m.place)
    (hadv : m.advance g host = some (x, m')) (hx : x = .handled f ∨ x = .unhandled f) :
    FromHost g host m₀ f := by
  obtain ⟨a, f', w, ha, hrun, hf'⟩ := Moment.error_of_advance hm₀ hreach hadv hx
  refine FromHost.of_code (f := f') ?_ (by rcases hf' with rfl | rfl <;> simp)
  intro hf
  have hready : m.poised.session.Ready :=
    Moment.Fails.ready ⟨a, f', w, ha, hrun, rfl, rfl⟩ hm₀ hreach
  have hs := hreach.sound_poise hm₀ ha
  have hposed : m.poised.session = m.session.poise (some a) := by rw [Moment.poised, ha]
  have hplace := m.place_of_next? ha
  rw [hplace] at hu hl
  have hhome : m.poised.session.AtHome a := by
    rw [hposed] at hready ⊢
    exact Session.Filled.atHome (s := m.session.poise (some a)) hl.filled (hu.poise _) hs (hready.runs hs)
  have hcur : m.poised.session.current = some a := by rw [hposed]; rfl
  rcases runCommand_accounts hready hcur hhome hrun hf with ⟨d, hd, f₀, hw, hf₀⟩ | ⟨c, hc, hh, hexec⟩
  · obtain ⟨f₁, hw', hfrom⟩ := hl.onlyFaults d hd
    cases hw.symm.trans hw'
    exact hfrom hf₀
  · exact ⟨m, f', hreach, ⟨a, c, ha, hc, hh, hexec⟩, hf⟩

theorem Moment.Starts.lexical {P : Fault → Prop} (h : m.Starts) : m.session.Lexical P m.place := by
  obtain ⟨units, suite, vars, σ', unit, hsuite, rfl⟩ := h
  refine ⟨fun L hL => ?_, by rintro _ ⟨⟩⟩
  obtain rfl := List.mem_singleton.1 (show L ∈ [_] from hL)
  rintro o ⟨⟨e, he, hlt, hle, -⟩, -⟩
  have hunit := (Suite.nested_of_compile hsuite).unit_of_spans ⟨e, he, hlt, hle⟩
  rcases hlt with hlt | ⟨-, hlt⟩
  · exact absurd hunit hlt.ne'
  · exact absurd hlt (Nat.not_lt_zero _)

/-- **The moments of a run of a structured suite are lexical.** -/
theorem Reachable.lexical (h : Reachable g host m₀ m) (hm₀ : m₀.Starts)
    (hstr : m₀.session.suite.Structured) : m.session.Lexical (FromHost g host m₀) m.place := by
  induction h with
  | start => exact hm₀.lexical
  | @step m m' x reached advance handled goesOn ih =>
    have hu := reached.upright_of_exitless hm₀ hstr.exitTest
    obtain ⟨a, ha, hplace, hfollow, hstep⟩ := Moment.step_of_advance (reached.sound hm₀) advance
    rw [Moment.place, hfollow]
    refine hstep.lexical handled (reached.sound_poise hm₀ ha) rfl ((hplace ▸ hu).poise _)
      (show m.session.suite.Structured from (reached.suite hm₀).symm ▸ hstr) ?_ fun f hf => ?_
    · have := hplace ▸ ih
      exact ⟨this.filled, this.onlyFaults⟩
    · exact (Moment.fromHost hm₀ reached hu ih advance (.inl hf)).of_code (Fault.code_attach _ _)

/-- **Runs of structured suites follow the nesting.**  Whenever a command is about to run, the constructs of
every call that has not ended are those that are around the command it is at; the run fails with a scope
mismatch only if the host has reported one; and if it passes then everything is closed. -/
theorem run_follows_nesting {w : World σ} (hcompiles : w.session.beforeRun.1 = none)
    (hstr : w.session.beforeRun.2.suite.Structured) :
    (∀ unit m a, Reachable g host (Moment.first w unit) m → m.next? = some a →
      (∀ L ∈ m.session.standing a, L.FollowsNesting m.session.suite) ∧
        (m.session.Running ∨ m.session.blocks = [])) ∧
    ∀ options report w', w.run g host options = (.ok report, w') →
      (∀ f, report.outcome = .failed f → f.IsMismatch → ∃ unit m f',
        Reachable g host (Moment.first w unit) m ∧ m.Reports g host f' ∧ f'.IsMismatch) ∧
      (report.outcome = .passed → w'.session.calls = [] ∧ w'.session.blocks = [] ∧
        w'.session.nesting = -1 ∧ w'.session.deferred = []) := by
  have hm₀ (unit : Nat) : (Moment.first w unit).Starts := starts_first hcompiles unit
  have hupright {unit : Nat} {m : Moment σ} (h : Reachable g host (Moment.first w unit) m) :
      m.session.Upright m.place := h.upright_of_exitless (hm₀ unit) hstr.exitTest
  have hlexical {unit : Nat} {m : Moment σ} (h : Reachable g host (Moment.first w unit) m) :
      m.session.Lexical (FromHost g host (Moment.first w unit)) m.place := h.lexical (hm₀ unit) hstr
  refine ⟨fun unit m a hreach ha => ?_, fun options report w' hrun => ?_⟩
  · have hs := hreach.sound (hm₀ unit)
    refine ⟨m.place_of_next? ha ▸ (hlexical hreach).followsNesting (hupright hreach) hs, ?_⟩
    by_cases hr : m.session.Running
    · exact .inl hr
    · obtain ⟨c, calls, hcs, hret⟩ := hs.exists_returning hr
      exact .inr (hs.returning c calls hcs hret).1
  · obtain ⟨unit, m, -, -, hreach, hends⟩ := exists_moment_of_run hrun
    generalize hout : report.outcome = outcome at hends
    refine ⟨?_, ?_⟩
    · rintro f rfl hf
      cases hends with
      | failed advance =>
        obtain ⟨m', f', hm', hreports, hf'⟩ :=
          Moment.fromHost (hm₀ unit) hreach (hupright hreach) (hlexical hreach) advance (.inr rfl) hf
        exact ⟨unit, m', f', hm', hreports, hf'⟩
      | exhausted code =>
        rw [Fault.IsMismatch, code] at hf
        exact absurd hf (by decide)
    · rintro rfl
      cases hends with
      | passed next => exact hreach.closed (hm₀ unit) (hupright hreach) next

/-- The suite of a loop in a try, left by a `break`. -/
theorem nested_break_follows_nesting : ∃ (s : Session) (w : World Unit) (m : Moment Unit),
    Session.ofUnits [.named "main" [{ name := "try" }, { name := "while", target := "a" }, { name := "break" },
      { name := "endWhile" }, { name := "endTry" }]] = .ok s ∧ w = ⟨s, ()⟩ ∧
    (Moment.first w 0).after? .trivial silent 2 = some m ∧ m.next? = some ⟨0, 2⟩ ∧
    (m.session.level ⟨0, 2⟩).FollowsNesting m.session.suite ∧
    m.session.blocks.map Frame.opener = [⟨0, 1⟩, ⟨0, 0⟩] := by
  obtain ⟨s, m, hs, hb, hm, hnext, hblocks, hcalls, hlacks, hkeys, htries, hloop⟩ :
      ∃ (s : Session) (m : Moment Unit),
      Session.ofUnits [.named "main" [{ name := "try" }, { name := "while", target := "a" }, { name := "break" },
        { name := "endWhile" }, { name := "endTry" }]] = .ok s ∧ s.beforeRun.1 = none ∧
      (Moment.first (⟨s, ()⟩ : World Unit) 0).after? .trivial silent 2 = some m ∧ m.next? = some ⟨0, 2⟩ ∧
      m.session.blocks.map Frame.opener = [⟨0, 1⟩, ⟨0, 0⟩] ∧ m.session.calls = [] ∧
      (∀ k ∈ [Keyword.goto, .gotoIf, .skipNext, .exitTest, .returnValue, .continueLoop],
        s.beforeRun.2.suite.Lacks k) ∧
      (∀ e ∈ s.beforeRun.2.suite.tables.blocks.toList, e.2.keyword = .breakLoop → e.1 = ⟨0, 2⟩) ∧
      (∀ e ∈ s.beforeRun.2.suite.tables.blocks.toList, e.2.nature? = some .guarded → e.1 = ⟨0, 0⟩) ∧
      ∃ b, s.beforeRun.2.suite.blockAt? ⟨0, 1⟩ = some b ∧ b.nature? = some .loop ∧ b.closer = some ⟨0, 3⟩ :=
    ⟨_, _, rfl, rfl, rfl, rfl, rfl, rfl, by decide, by decide, by decide, _, rfl, rfl, rfl⟩
  obtain ⟨l, hl, hlnat, hclose⟩ := hloop
  have hn : s.beforeRun.2.suite.Nested := (starts_first (w := ⟨s, ()⟩) hb 0).sound.nested
  have hspan : s.beforeRun.2.suite.Spans ⟨0, 1⟩ ⟨0, 2⟩ :=
    ⟨⟨0, 3⟩, ⟨l, hl, by rw [hlnat]; rfl, hclose⟩, by decide, by decide⟩
  have hstr : s.beforeRun.2.suite.Structured :=
    { goto := hlacks _ (by decide)
      gotoIf := hlacks _ (by decide)
      skipNext := hlacks _ (by decide)
      exitTest := hlacks _ (by decide)
      loops := fun {a} ha t ht _ => by
        rcases ha with ha | ha
        · obtain ⟨b, hb, hk⟩ := hn.exists_block ha rfl
          obtain ⟨c, hc, hnat⟩ := ht
          cases hkeys (a, b) (Dict.get?_eq_some_iff.1 hb) hk
          cases htries (t, c) (Dict.get?_eq_some_iff.1 hc) hnat
          exact ⟨⟨0, 1⟩, ⟨l, hl, hlnat⟩, hspan, by decide⟩
        · exact absurd ha (hlacks _ (by decide)).keywordAt?_ne
      functions := fun h => absurd h (hlacks _ (by decide)).keywordAt?_ne }
  have hstanding : m.session.level ⟨0, 2⟩ ∈ m.session.standing ⟨0, 2⟩ := by
    rw [Session.standing, Session.sites, hcalls]
    exact List.mem_cons_self
  have h := (run_follows_nesting (w := ⟨s, ()⟩) hb hstr).1 0 m _ (reachable_of_after? hm) hnext
  exact ⟨s, _, m, hs, rfl, hm, hnext, h.1 _ hstanding, hblocks⟩

end

end Flow

end BlockFlow
