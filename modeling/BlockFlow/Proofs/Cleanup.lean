/-
# Cleanup sections are entered once

What a command does to the tries that are running.  Constructs are left from the top of the stacks only,
and no try is left before its cleanup section was entered (`Cut`); of the constructs that remain the
innermost one may change, and a try only goes forward (`Touch`).  Faults and transfers enter a cleanup
section that was not entered yet and a handler of a try that is in its body (`Enters`).

`step_keeps_cleanup` says so of every command of a run.  The tries that still owe their cleanup section
are fenced by it, so that the run cannot come to their closer: `owing`.
-/
import BlockFlow.Proofs.Layers

namespace BlockFlow.Flow

/-! ## 1. What a command does to the constructs that are running -/

/-- Every try among the constructs has entered its cleanup section, if it has one. -/
def AllCleaned (suite : Suite) (fs : List Frame) : Prop :=
  ∀ t, .guarded t ∈ fs → (finallyOf? suite t.opener).isSome → t.cleaned = true

/-- **Constructs are left**, over the stacks of all calls, and no cleanup section is skipped. -/
inductive Cut (suite : Suite) : List (List Frame) → List (List Frame) → Prop
  | intro {pre post : List (List Frame)} {above fs : List Frame}
      (cleaned : AllCleaned suite (pre.flatten ++ above)) :
      Cut suite (pre ++ (above ++ fs) :: post) (fs :: post)

/-- A try that was just entered is in its body, if it takes part, and has done nothing yet. -/
structure TryFrame.IsFresh (t : TryFrame) : Prop where
  phase : ∀ p, t.phase = some p → p = .trying
  caught : t.caught = false
  cleaned : t.cleaned = false

/-- **A construct is entered or goes on**, or a call begins. -/
inductive Touch : List (List Frame) → List (List Frame) → Prop
  | same {fss : List (List Frame)} : Touch fss fss
  | enter {f : Frame} {fs : List Frame} {fss : List (List Frame)}
      (fresh : ∀ t, f = .guarded t → t.IsFresh) : Touch (fs :: fss) ((f :: fs) :: fss)
  | call {fss : List (List Frame)} : Touch fss ([] :: fss)
  | advance {f f' : Frame} {fs : List Frame} {fss : List (List Frame)} (advances : f.Advances f') :
      Touch ((f :: fs) :: fss) ((f' :: fs) :: fss)

/-- **Where a session goes on** after constructs were left: in a cleanup section only if that is the
innermost try's and was not entered, in a handler only if the innermost try is in its body and has not
caught a fault. -/
structure Session.Enters (s : Session) (mid : List (List Frame)) : Prop where
  cleanup {p} : s.pending = some p → s.suite.keywordAt? p = some .finallyDo →
    ∃ t fs fss, mid = (.guarded t :: fs) :: fss ∧ finallyOf? s.suite t.opener = some p ∧
      t.cleaned = false ∧ s.blockStacks = (.guarded t.enterCleanup :: fs) :: fss
  handler {p} : s.pending = some p → s.suite.keywordAt? p = some .catchError →
    ∃ t fs fss, mid = (.guarded t :: fs) :: fss ∧ catchOf? s.suite t.opener = some p ∧
      t.phase = some .trying ∧ t.caught = false ∧
      s.blockStacks = (.guarded t.enterHandler :: fs) :: fss

/-- The command at an address makes a transfer or takes one up. -/
def Steers (suite : Suite) (a : Address) : Prop :=
  suite.keywordAt? a = some .endTry ∨ ((suite.keywordAt? a).bind goalOf?).isSome

/-- What a command at an address that does not fail does to the tries. -/
def Session.Tended (s : Session) (a : Address) (s' : Session) : Prop :=
  ∃ mid, Cut s.suite s.blockStacks mid ∧ Touch mid s'.blockStacks ∧ (Steers s.suite a → s'.Enters mid)

/-! ## 2. Leaving constructs -/

section

variable {suite : Suite} {fs gs : List Frame} {A B C post : List (List Frame)}

theorem AllCleaned.append (h : AllCleaned suite fs) (h' : AllCleaned suite gs) :
    AllCleaned suite (fs ++ gs) := by
  intro t ht
  rcases List.mem_append.1 ht with ht | ht
  · exact h t ht
  · exact h' t ht

/-- A try that owes nothing has entered its cleanup section. -/
theorem cleaned_of_not_owes {t : TryFrame} (hf : Frame.Fits suite (.guarded t))
    (ho : t.owesCleanup suite = false) (hs : (finallyOf? suite t.opener).isSome) : t.cleaned = true := by
  obtain ⟨p, hp⟩ := Option.isSome_iff_exists.1 hs
  cases hact : t.isActive with
  | false =>
    obtain ⟨b, hb, hbp⟩ := Option.bind_eq_some_iff.1 hp
    cases hbp.symm.trans (hf.2 hact b hb).2
  | true =>
    by_contra hcl
    have := TryFrame.owesCleanup_iff.2 ⟨hact, Bool.eq_false_iff.2 hcl, p, hp⟩
    rw [ho] at this
    cases this

theorem AllCleaned.of_noneOwe (hf : ∀ f ∈ fs, f.Fits suite) (h : NoneOwe suite fs) : AllCleaned suite fs :=
  fun t ht => cleaned_of_not_owes (hf _ ht) (h t ht)

/-- Tries that take no part have no cleanup section. -/
theorem AllCleaned.of_inactive (hf : ∀ f ∈ fs, f.Fits suite) (h : ∀ f ∈ fs, f.isActiveTry = false) :
    AllCleaned suite fs := by
  refine AllCleaned.of_noneOwe hf fun t ht => Bool.eq_false_iff.2 fun ho => ?_
  have := h _ ht
  rw [show Frame.isActiveTry (.guarded t) = true from (TryFrame.owesCleanup_iff.1 ho).1] at this
  cases this

theorem AllCleaned.of_noTry (h : ∀ f ∈ fs, ∀ t, f ≠ .guarded t) : AllCleaned suite fs :=
  fun t ht => absurd rfl (h _ ht t)

/-- Leaving constructs of the innermost call. -/
theorem Cut.above (h : AllCleaned suite fs) : Cut suite ((fs ++ gs) :: post) (gs :: post) :=
  @Cut.intro suite [] post fs gs h

theorem Cut.refl : Cut suite (fs :: post) (fs :: post) := @Cut.above suite [] fs post nofun

theorem Cut.trans (h : Cut suite A B) (h' : Cut suite B C) : Cut suite A C := by
  obtain ⟨cleaned⟩ := h
  rename_i pre post above fs
  generalize hB : fs :: post = B at h'
  obtain ⟨cleaned'⟩ := h'
  rename_i pre' post' above' fs'
  cases pre' with
  | nil =>
    obtain ⟨rfl, rfl⟩ := List.cons.inj hB
    rw [← List.append_assoc]
    refine Cut.intro ?_
    rw [← List.append_assoc]
    exact cleaned.append cleaned'
  | cons P pre' =>
    obtain ⟨rfl, rfl⟩ := List.cons.inj hB
    have hsplit : pre ++ (above ++ fs) :: (pre' ++ (above' ++ fs') :: post') =
        (pre ++ (above ++ fs) :: pre') ++ (above' ++ fs') :: post' := by simp
    change Cut suite (pre ++ (above ++ fs) :: (pre' ++ (above' ++ fs') :: post')) _
    rw [hsplit]
    refine Cut.intro ?_
    have := cleaned.append cleaned'
    simpa [List.append_assoc] using this

/-- The innermost construct, no try, is left whatever it is. -/
theorem Cut.retop {t : TryFrame} {f : Frame} {rest : List Frame} (left : List Frame)
    (h : Cut suite ((f :: gs) :: A) ((.guarded t :: rest) :: post)) (hf : ∀ t, f ≠ .guarded t)
    (hleft : AllCleaned suite left) : Cut suite ((left ++ gs) :: A) ((.guarded t :: rest) :: post) := by
  generalize hX : (f :: gs) :: A = X at h
  obtain ⟨cleaned⟩ := h
  rename_i pre above
  cases pre with
  | nil =>
    obtain ⟨hfs, rfl⟩ := List.cons.inj hX
    cases above with
    | nil => exact absurd (List.cons.inj hfs).1 (hf t)
    | cons g above =>
      obtain ⟨rfl, rfl⟩ := List.cons.inj hfs
      change Cut suite ((left ++ (above ++ .guarded t :: rest)) :: A) _
      rw [← List.append_assoc]
      exact Cut.above (hleft.append fun u hu => cleaned u (List.mem_cons_of_mem _ hu))
  | cons P pre =>
    obtain ⟨rfl, rfl⟩ := List.cons.inj hX
    refine @Cut.intro suite ((left ++ gs) :: pre) _ _ _ ?_
    intro u hu
    simp only [List.flatten_cons, List.mem_append] at hu
    rcases hu with ((hu | hu) | hu) | hu
    · exact hleft u hu
    all_goals exact cleaned u (by simp [hu])

end

/-! ## 3. Where the run goes on -/

/-- The command at an address begins neither a handler nor a cleanup section. -/
def NoSection (suite : Suite) (p : Address) : Prop :=
  suite.keywordAt? p ≠ some .finallyDo ∧ suite.keywordAt? p ≠ some .catchError

section

variable {suite : Suite} {o p : Address}

theorem NoSection.of_closer (hn : suite.Nested) (he : suite.Construct o p) : NoSection suite p :=
  ⟨fun h => hn.not_construct h rfl he, fun h => hn.not_construct h rfl he⟩

/-- The parts of a construct that is no try begin no section. -/
theorem NoSection.of_isPart (hn : suite.Nested) {f : Frame} (hf : f.Fits suite)
    (hnoTry : ∀ t, f ≠ .guarded t) (hp : suite.IsPart f.opener p) : NoSection suite p := by
  have hnot {k : Keyword} (hk : suite.keywordAt? p = some k) (hpart : k.partOf? = some .tryBlock) :
      False := by
    obtain ⟨c, hc, rfl⟩ := hn.exists_block hk (Keyword.isLinked_of_partOf? hpart)
    obtain ⟨o, b, ho, hb, hkey, -, hpo⟩ := hn.exists_owner hc hpart
    cases hp.unique hpo
    have hnat := hf.nature_eq hb
    rw [Block.nature?, hkey] at hnat
    cases f with
    | conditional c => cases hnat
    | loop l => cases hnat
    | guarded t => exact hnoTry t rfl
  exact ⟨fun h => hnot h rfl, fun h => hnot h rfl⟩

theorem NoSection.of_opens (hn : suite.Nested) {n : Nature} (ho : suite.Opens n p) : NoSection suite p := by
  obtain ⟨b, hb, hnat⟩ := ho
  have hkey := hn.keyword hb
  refine ⟨fun h => ?_, fun h => ?_⟩ <;>
  · rw [h] at hkey
    rw [Block.nature?, ← Option.some.inj hkey] at hnat
    cases hnat

theorem NoSection.of_transfer {goal : Goal} (h : (suite.keywordAt? p).bind goalOf? = some goal) :
    NoSection suite p := by
  refine ⟨fun hk => ?_, fun hk => ?_⟩ <;>
  · rw [hk] at h
    cases h

end

section

variable {s s' : Session} {a : Address} {mid : List (List Frame)} {f f' : Frame} {above rest bs : List Frame}

theorem Session.Enters.of_noSection (h : ∀ p, s.pending = some p → NoSection s.suite p) : s.Enters mid :=
  ⟨fun hp hk => absurd hk (h _ hp).1, fun hp hk => absurd hk (h _ hp).2⟩

/-! ## 4. Moves -/

theorem Session.blockStacks_eq_levels (s : Session) (r : Address) :
    s.blockStacks = (s.levels r).map Level.blocks := by
  rw [Session.blockStacks_eq, Session.levels, List.map_cons, Session.level]

/-- The stacks of a session that waits for a cleanup section. -/
theorem Suspends.tended {origin : Address} {goal : Goal} (h : Suspends origin goal s s') (hf : s.Fitted)
    (hsuite : s'.suite = s.suite) : ∃ mid, Cut s.suite s.blockStacks mid ∧ Touch mid s'.blockStacks ∧
      s'.Enters mid := by
  obtain ⟨pre, L, post, above, t, rest, p, hlev, hb, howes, hsec, hp, hlev', habove, -, hpre, -⟩ :=
    h.levels default
  have hstacks (u : Session) := u.blockStacks_eq_levels default
  have hmem {L' : Level} {f : Frame} (hL : L' ∈ s.levels default) (hf' : f ∈ L'.blocks) :
      f.Fits s.suite := hf.fits f ((s.mem_frames_iff default).2 ⟨L', hL, hf'⟩)
  have hL : L ∈ s.levels default := by
    rw [hlev]
    exact List.mem_append_right _ List.mem_cons_self
  have hfit : Frame.Fits s.suite (.guarded t) := hmem hL (by rw [hb]; simp)
  have hafter : s'.blockStacks = (.guarded t.enterCleanup :: rest) :: post.map Level.blocks := by
    rw [hstacks, hlev', List.map_cons]
  obtain ⟨hact, hcl, -⟩ := TryFrame.owesCleanup_iff.1 howes
  refine ⟨(.guarded t :: rest) :: post.map Level.blocks, ?_, ?_, ?_⟩
  · rw [hstacks, hlev, List.map_append, List.map_cons, hb]
    refine Cut.intro (AllCleaned.append ?_ (.of_noneOwe (fun f hf' => hmem hL ?_) habove))
    rotate_left
    · rw [hb]
      exact List.mem_append_left _ hf'
    intro u hu
    obtain ⟨fs, hfs, hu⟩ := List.mem_flatten.1 hu
    obtain ⟨M, hM, rfl⟩ := List.mem_map.1 hfs
    have hM' : M ∈ s.levels default := by
      rw [hlev]
      exact List.mem_append_left _ hM
    exact cleaned_of_not_owes (hmem hM' hu) (hpre M hM u hu)
  · rw [hafter]
    exact .advance (.guarded (.enterCleanup hact))
  · refine ⟨fun hp' hk => ?_, fun hp' hk => ?_⟩
    · cases hp.symm.trans hp'
      exact ⟨t, rest, _, rfl, hsuite ▸ hsec, hcl, hafter⟩
    · cases hp.symm.trans hp'
      have hkey := keywordAt?_of_finallyOf? hf.nested hfit hsec
      rw [hsuite, hkey] at hk
      cases hk

/-- Constructs of the innermost call are left. -/
theorem Session.Tended.leave (above : List Frame) (hsuite : s'.suite = s.suite) (hb : s.blocks = above ++ bs)
    (hab : AllCleaned s.suite above) (hr : s.Restacks bs s')
    (hp : Steers s.suite a → ∀ p, s'.pending = some p → NoSection s.suite p) : s.Tended a s' := by
  refine ⟨bs :: s.outer.map Level.blocks, ?_, hr.blockStacks ▸ .same, fun hst => .of_noSection (hsuite ▸ hp hst)⟩
  rw [s.blockStacks_eq, hb]
  exact Cut.above hab

/-- No construct of the innermost call changes. -/
theorem Session.Tended.same (hsuite : s'.suite = s.suite) (hr : s.Restacks s.blocks s')
    (hp : Steers s.suite a → ∀ p, s'.pending = some p → NoSection s.suite p) : s.Tended a s' :=
  .leave [] hsuite rfl nofun hr hp

/-- A construct is entered. -/
theorem Session.Tended.enter (hsuite : s'.suite = s.suite) (hfresh : ∀ t, f = .guarded t → t.IsFresh)
    (hr : s.Restacks (f :: s.blocks) s')
    (hp : Steers s.suite a → ∀ p, s'.pending = some p → NoSection s.suite p) : s.Tended a s' := by
  refine ⟨s.blockStacks, ?_, ?_, fun hst => .of_noSection (hsuite ▸ hp hst)⟩
  · rw [s.blockStacks_eq]
    exact Cut.refl
  · rw [hr.blockStacks, s.blockStacks_eq]
    exact .enter hfresh

/-- The innermost construct is left by its closer, and owes nothing. -/
theorem Session.Closes.tended (h : s.Closes a f rest s') (hf : s.Fitted)
    (hclose : ∀ t rest, s.blocks = .guarded t :: rest → s.suite.Construct t.opener a →
      t.owesCleanup s.suite = false) : AllCleaned s.suite [f] := by
  intro t ht
  cases List.mem_singleton.1 ht
  exact cleaned_of_not_owes (hf.top h.top) (hclose t rest h.top h.closer)

/-- **A construct goes on** that is no try or enters its cleanup section. -/
theorem Session.Turns.tended (h : s.Turns a above f f' rest s') (hf : s.Fitted) (hsuite : s'.suite = s.suite) :
    s.Tended a s' := by
  have hfits (g : Frame) (hg : g ∈ above ++ f :: rest) : g.Fits s.suite := hf.blocks g (h.before ▸ hg)
  have hfit := hfits f (by simp)
  refine ⟨(f :: rest) :: s.outer.map Level.blocks, ?_, ?_, fun _ => .of_noSection fun p hp => ?_⟩
  · rw [s.blockStacks_eq, h.before]
    exact Cut.above (.of_noneOwe (fun g hg => hfits g (List.mem_append_left _ hg)) h.noneOwe)
  · rw [h.after.blockStacks]
    exact .advance h.advances
  · rw [hsuite]
    have hgoes := h.goesOn
    rw [hp] at hgoes
    cases hgoes with
    | part isPart => exact .of_isPart hf.nested hfit (fun t ht => nomatch hp.symm.trans (h.onward t ht)) isPart
    | opener => exact .of_opens hf.nested hfit.1

/-- Outside of every loop of a call a transfer to a loop finds no cleanup section owed only if none is. -/
theorem AllCleaned.of_clear (hf : s.Fitted) (hclear : s.cleanup? .loop = none)
    (hno : ∀ f ∈ s.blocks, f.isLoop = false) : AllCleaned s.suite s.blocks := by
  have hway := (Session.cleanup?_eq_none_iff.1 hclear).1
  rw [onTheWay, if_pos rfl, List.takeWhile_eq_self_iff.2 fun f hf' => by simp [hno f hf']] at hway
  exact .of_noneOwe hf.blocks hway

/-- **What a move does to the tries**, if none of them is closed that owes its cleanup section. -/
theorem Move.tended {x : Except Fault Unit} (m : Move a s x s') (h : s.Ready) (hs : s.Sound a)
    (hclose : ∀ t rest, s.blocks = .guarded t :: rest → s.suite.Construct t.opener a →
      t.owesCleanup s.suite = false) : s.Tended a s' := by
  have hn := h.nested
  have hf := h.toFitted
  have hsuite := m.kept.1
  have hturn {above rest : List Frame} {f f' : Frame} (ht : s.Turns a above f f' rest s') : s.Tended a s' :=
    ht.tended hf hsuite
  have hclosed {f : Frame} {rest : List Frame} (hc : s.Closes a f rest s')
      (hp : Steers s.suite a → ∀ p, s'.pending = some p → NoSection s.suite p) : s.Tended a s' :=
    .leave [f] hsuite hc.top (hc.tended hf hclose) hc.after hp
  cases m with
  | stay pass => exact .same hsuite (.proceed .refl _ _) nofun
  | replace => exact .same hsuite ⟨rfl, rfl, rfl⟩ nofun
  | exit => exact .same hsuite ⟨rfl, rfl, rfl⟩ nofun
  | @jump goal v unlinked keyword accepted =>
    obtain ⟨left, hfs, hleft⟩ := exists_keepSpanning s.suite goal s.blocks
    refine .leave left hsuite hfs (.of_noTry fun f hf' t ht => ?_) ((Session.Restacks.setBlocks _).proceed _ _) ?_
    · obtain ⟨c, rfl⟩ := hleft f hf'
      cases ht
    · rintro (hst | hst)
      · obtain ⟨b, hb, -⟩ := hn.exists_block hst rfl
        cases unlinked.symm.trans hb
      · obtain ⟨k, hk, hkey⟩ := keyword
        rw [hkey] at hst
        simp only [List.mem_cons, List.not_mem_nil, or_false] at hk
        rcases hk with rfl | rfl | rfl <;> cases hst
  | enter fits opener noTry fresh again part =>
    subst opener
    exact .enter hsuite (fun t ht => absurd ht (noTry t)) ((Session.Restacks.setBlocks _).proceed _ _)
      fun _ p hp => .of_isPart hn fits noTry (part p hp)
  | enterTry fits opener phase caught cleaned =>
    exact .enter hsuite (by rintro _ ⟨⟩; exact ⟨phase, caught, cleaned⟩)
      ((Session.Restacks.enterTry _).proceed _ _) nofun
  | branch top at_ open_ opener untried part => exact hturn (.branch hf top at_ open_ opener untried part)
  | reachFinally top at_ active => exact hturn (.reachFinally hf top at_ active)
  | repeat_ top closer => exact hturn (.repeat_ hf top)
  | again top at_ reentering opener saved done part binds =>
    exact hturn (.again hf top at_ opener saved part binds)
  | breakLoop transfers stays clear top closer => exact hturn (.breakLoop hf clear top closer)
  | continueLoop transfers stays clear top => exact hturn (.continueLoop hf clear top)
  | leave top noTry closer => exact hclosed ⟨top, closer, (Session.Restacks.tail top).proceed _ _⟩ nofun
  | closeTry top closer quiet => exact hclosed ((Session.Closes.of_leaveTry top closer).proceed _ _) nofun
  | rethrow top closer => exact hclosed (((Session.Closes.of_leaveTry top closer).withDeferred _).proceed _ _) nofun
  | @resume t rest d ds origin goal v resumes =>
    refine hclosed (((Session.Closes.of_leaveTry resumes.top resumes.closer).withDeferred _).proceed _ _) ?_
    rintro - p ⟨⟩
    have hmem : d ∈ s.deferred := by
      rw [resumes.deferred]
      exact List.mem_cons_self
    exact .of_transfer (hs.ledger.carried d hmem _ _ resumes.work).1
  | @resuspend t rest d ds origin goal _ top closer active deferred resumeAt depth work suspends =>
    have hc := (Session.Closes.of_leaveTry top closer).withDeferred ds
    have hleft := hf.leaveTry top
    obtain ⟨mid, hcut, htouch, henters⟩ := suspends.tended ⟨hleft.nested, hleft.fits, hleft.counted⟩
      (hsuite.trans (s.suite_setBlocks _).symm)
    rw [show ((s.leaveTry t rest).withDeferred ds).suite = s.suite from s.suite_setBlocks _,
      hc.after.blockStacks] at hcut
    refine ⟨mid, Cut.trans ?_ hcut, htouch, fun _ => henters⟩
    rw [s.blockStacks_eq, top]
    exact @Cut.above s.suite [.guarded t] _ _ (hc.tended hf hclose)
  | suspend transfers stays suspends =>
    obtain ⟨mid, hcut, htouch, henters⟩ := suspends.tended hf hsuite
    exact ⟨mid, hcut, htouch, fun _ => henters⟩
  | skipHandler top at_ handler =>
    refine .same hsuite (.proceed .refl _ _) ?_
    rintro (hst | hst)
    · cases handler.symm.trans hst
    · rw [handler] at hst
      cases hst
  | skipFunction opens closer callee =>
    refine .same hsuite (.proceed .refl _ _) ?_
    rintro - p ⟨⟩
    exact .of_closer hn closer
  | adrift transfers stays clear noLoop =>
    refine .leave s.blocks hsuite (List.append_nil _).symm (.of_clear hf clear noLoop) ?_ nofun
    exact List.drop_length (l := s.blocks) ▸ (Session.Restacks.drop _).proceed _ _
  | @returnFrom c calls v transfers stays clear call =>
    have hall := AllCleaned.of_noneOwe hf.blocks (Session.cleanup?_eq_none_iff.1 clear).1
    have hgenuine := hs.calls c.site (by rw [Session.sites, call]; exact List.mem_cons_self)
    have hkey : s.suite.keywordAt? c.returnTo = some .call := hgenuine.keyword
    refine .leave s.blocks hsuite (List.append_nil _).symm hall ((Session.Restacks.markReturning call).proceed _ _) ?_
    rintro - p ⟨⟩
    exact ⟨by rw [hkey]; rintro ⟨⟩, by rw [hkey]; rintro ⟨⟩⟩
  | @enterCall callee args v keyword opens names =>
    refine ⟨s.blockStacks, ?_, .call, fun _ => .of_noSection ?_⟩
    · rw [s.blockStacks_eq]
      exact Cut.refl
    · rintro p ⟨⟩
      exact .of_opens hn opens

/-- Constructs that a failed command entered or changed are left with the others inside the try that the
fault goes to. -/
theorem Move.cut_of_error {f : Fault} (m : Move a s (.error f) s') (hf : s.Fitted)
    (hclose : ∀ t rest, s.blocks = .guarded t :: rest → s.suite.Construct t.opener a →
      t.owesCleanup s.suite = false) {t : TryFrame} {rest : List Frame} {post : List (List Frame)}
    (hcut : Cut s.suite s'.blockStacks ((.guarded t :: rest) :: post)) :
    Cut s.suite s.blockStacks ((.guarded t :: rest) :: post) := by
  have hretop (left : List Frame) {gs : List Frame} {f' : Frame} (hr : s.Restacks (f' :: gs) s')
      (hb : s.blocks = left ++ gs) (hf' : ∀ t, f' ≠ .guarded t) (hleft : ∀ g ∈ left, ∀ t, g ≠ .guarded t) :
      Cut s.suite s.blockStacks ((.guarded t :: rest) :: post) := by
    rw [hr.blockStacks] at hcut
    rw [s.blockStacks_eq, hb]
    exact hcut.retop left hf' (.of_noTry hleft)
  have hleave (left : List Frame) {gs : List Frame} (hr : s.Restacks gs s') (hb : s.blocks = left ++ gs)
      (hleft : AllCleaned s.suite left) : Cut s.suite s.blockStacks ((.guarded t :: rest) :: post) := by
    rw [hr.blockStacks] at hcut
    rw [s.blockStacks_eq, hb]
    exact (Cut.above hleft).trans hcut
  cases m with
  | stay => exact hcut
  | enter fits opener noTry =>
    exact hretop [] ((Session.Restacks.setBlocks _).proceed _ _) rfl noTry nofun
  | @branch c c' rest' _ _ _ top =>
    exact hretop [.conditional c] ((Session.Restacks.setBlocks _).proceed _ _) top nofun
      fun g hg => by rw [List.mem_singleton.1 hg]; exact nofun
  | @again l l' rest' _ _ _ top =>
    exact hretop [.loop l] ((Session.Restacks.setBlocks _).proceed _ _) top nofun
      fun g hg => by rw [List.mem_singleton.1 hg]; exact nofun
  | @rethrow u rest' d ds _ v top closer =>
    have hc := ((Session.Closes.of_leaveTry top closer).withDeferred ds).proceed none v
    exact hleave [.guarded u] hc.after top (hc.tended hf hclose)
  | adrift transfers stays clear noLoop =>
    refine hleave _ ((Session.Restacks.drop _).proceed _ _) (List.take_append_drop _ _).symm ?_
    rw [List.take_length]
    exact .of_clear hf clear noLoop

end

/-! ## 5. Tries that owe their cleanup section -/

/-- The fence that keeps the run before the cleanup section of every try that owes it. -/
def owing (suite : Suite) : Fence where
  bound
    | .guarded t => if t.owesCleanup suite then finallyOf? suite t.opener else none
    | _ => none
  zone _ _ := True

section

variable {suite : Suite} {s s' : Session} {a : Address} {g : Setting} {x : StepResult}

theorem owing_fair (hn : suite.Nested) : (owing suite).Fair suite where
  nested := hn
  part {f q} _ hq := by
    cases f with
    | guarded t =>
      rw [owing] at hq
      dsimp only at hq
      split at hq
      · rename_i ho
        exact .inr ⟨⟨t, rfl, (TryFrame.owesCleanup_iff.1 ho).2.1⟩, hq⟩
      · cases hq
    | conditional c => cases hq
    | loop l => cases hq
  inner _ _ _ _ := trivial
  after _ _ _ := trivial
  next _ _ := trivial
  jump _ _ _ := trivial
  entry _ := trivial

/-- Frames hold every address if none of those on the way owes its cleanup section. -/
theorem holds_of_noneOwe {c : Option Address} {goal : Goal} {o p : Address} {R : List Frame} :
    ∀ {fs : List Frame}, NoneOwe suite (onTheWay goal (fs ++ R)) → (owing suite).Holds c fs o →
      (owing suite).Holds c fs p
  | [], _, _ => trivial
  | .loop l :: fs, _, h => ⟨nofun, nofun, h.2.2⟩
  | .conditional i :: fs, hno, h => by
    have hno' : NoneOwe suite (onTheWay goal (fs ++ R)) := by
      intro t ht
      refine hno t ?_
      unfold onTheWay at ht ⊢
      split at ht
      · rename_i hg
        rw [if_pos hg, List.cons_append, List.takeWhile_cons_of_pos rfl]
        exact List.mem_cons_of_mem _ ht
      · rename_i hg
        rw [if_neg hg]
        exact List.mem_cons_of_mem _ ht
    exact ⟨nofun, fun hc => holds_of_noneOwe hno' (h.2.1 hc), h.2.2⟩
  | .guarded t :: fs, hno, h => by
    refine ⟨fun q hq => ?_, nofun, h.2.2⟩
    have ht : t.owesCleanup suite = false := by
      refine hno t ?_
      unfold onTheWay
      split
      · rw [List.cons_append, List.takeWhile_cons_of_pos rfl]
        exact List.mem_cons_self
      · exact List.mem_cons_self
    rw [owing] at hq
    dsimp only at hq
    rw [if_neg (by rw [ht]; decide)] at hq
    cases hq

theorem Laid.holds_bottom {F : Fence} {L : Level} {post : List Level} (h : Laid F .bottom (L :: post)) :
    F.Holds L.callee L.blocks L.place := by
  cases h with
  | floor holds =>
    rw [show Ground.bottom.rest = [] from rfl, List.append_nil]
    exact holds
  | call holds below => exact holds

/-- **At its closer** a try owes nothing. -/
theorem Session.Stands.not_owing (h : s.Stands (owing s.suite) .bottom a) (hs : s.Sound a) {t : TryFrame}
    {rest : List Frame} (top : s.blocks = .guarded t :: rest) (closer : s.suite.Construct t.opener a) :
    t.owesCleanup s.suite = false := by
  refine Bool.eq_false_iff.2 fun ho => ?_
  obtain ⟨-, -, q, hq⟩ := TryFrame.owesCleanup_iff.1 ho
  have hfit := hs.toFitted.top top
  have hlaid : Laid (owing s.suite) .bottom (s.levels a) := by
    rcases h with h | ⟨l, rest', hb, -⟩
    · rwa [(hs.running_of_blocks top).standing] at h
    · cases top.symm.trans hb
  have hholds := hlaid.holds_bottom
  rw [show (s.level a).blocks = .guarded t :: rest from top] at hholds
  have hbound : (owing s.suite).bound (.guarded t) = some q := by
    rw [owing]
    dsimp only
    rw [if_pos ho, hq]
  have hle := (hholds.1 q hbound).2
  obtain ⟨e, he, -, hqe⟩ := hs.nested.spans_of_isPart (isPart_of_finallyOf? hs.nested hfit hq)
  cases closer.unique he
  cases le_antisymm hle hqe
  exact hs.nested.not_construct (keywordAt?_of_finallyOf? hs.nested hfit hq) rfl closer

/-- Commands keep the tries fenced that owe their cleanup section. -/
theorem Step.stands_owing (h : Step g a s x s') (hx : ∀ f, x ≠ .unhandled f) (hs : s.Sound a)
    (hp : s.pending = none) (hl : s.Stands (owing s.suite) .bottom a) :
    s'.Stands (owing s'.suite) .bottom (s'.pending.getD a.next) := by
  rw [h.kept.1]
  refine h.laid hx hs hp (owing_fair hs.nested) hl (Ground.carries_bottom_standing s') ?_
    fun _ _ _ _ _ _ _ => trivial
  intro t rest d ds origin goal hr fs R hrest hholds
  have hclear := (Session.cleanup?_eq_none_iff.1 hr.clear).1
  rw [show (s.leaveTry t rest).suite = s.suite from s.suite_setBlocks rest,
    show (s.leaveTry t rest).blocks = fs ++ R from (s.blocks_setBlocks rest).trans hrest] at hclear
  exact holds_of_noneOwe hclear hholds

end

section

variable {σ : Type} {g : Setting} {host : Host σ} {m₀ m m' : Moment σ} {x : StepResult} {a : Address}

/-- At every moment of a run the tries that owe their cleanup section are fenced by it. -/
theorem Reachable.stands_owing (h : Reachable g host m₀ m) (hm₀ : m₀.Starts) :
    m.session.Stands (owing m.session.suite) .bottom m.place := by
  refine h.invariant (P := fun s r => s.Stands (owing s.suite) .bottom r) hm₀ (fun _ h => h) ?_ ?_
  · obtain ⟨units, suite, vars, σ', unit, hsuite, rfl⟩ := hm₀
    exact .inl (@Laid.floor _ _ [] _ _ trivial)
  · intro m s' a x hreach ha hl hstep hx _
    exact hstep.stands_owing hx (hreach.sound_poise hm₀ ha) rfl hl

/-! ## 6. What every command of a run does to the tries -/

/-- The levels that an offer leaves, seen as a cut of the stacks. -/
theorem cut_of_levels {s : Session} (hf : s.Fitted) {pre post : List Level} {L : Level}
    {above rest : List Frame} {t : TryFrame} (hlev : s.levels default = pre ++ L :: post)
    (hb : L.blocks = above ++ .guarded t :: rest) (habove : ∀ f ∈ above, f.isActiveTry = false)
    (hpre : ∀ M ∈ pre, ∀ f ∈ M.blocks, f.isActiveTry = false) :
    Cut s.suite s.blockStacks ((.guarded t :: rest) :: post.map Level.blocks) := by
  have hmem {L' : Level} {f : Frame} (hL : L' ∈ s.levels default) (hf' : f ∈ L'.blocks) :
      f.Fits s.suite := hf.fits f ((s.mem_frames_iff default).2 ⟨L', hL, hf'⟩)
  have hL : L ∈ s.levels default := by
    rw [hlev]
    exact List.mem_append_right _ List.mem_cons_self
  rw [s.blockStacks_eq_levels default, hlev, List.map_append, List.map_cons, hb]
  refine Cut.intro (.append (.of_inactive (fun f hf' => ?_) fun f hf' => ?_) (.of_inactive (fun f hf' => ?_) habove))
  · obtain ⟨fs, hfs, hf'⟩ := List.mem_flatten.1 hf'
    obtain ⟨M, hM, rfl⟩ := List.mem_map.1 hfs
    have hM' : M ∈ s.levels default := by
      rw [hlev]
      exact List.mem_append_left _ hM
    exact hmem hM' hf'
  · obtain ⟨fs, hfs, hf'⟩ := List.mem_flatten.1 hf'
    obtain ⟨M, hM, rfl⟩ := List.mem_map.1 hfs
    exact hpre M hM f hf'
  · refine hmem hL ?_
    rw [hb]
    exact List.mem_append_left _ hf'

/-- The try that handles a fault goes forward, and the session goes on in it. -/
theorem Offer.tended {f : Fault} {s s' : Session} (o : Offer g f s .handled s') (hf : s.Fitted) :
    ∃ t rest post, Cut s.suite s.blockStacks ((.guarded t :: rest) :: post) ∧
      Touch ((.guarded t :: rest) :: post) s'.blockStacks ∧ s'.Enters ((.guarded t :: rest) :: post) := by
  obtain ⟨pre, L, post, above, t, t', rest, p, hlev, hb, hact, hans, hp, hlev', habove, hpre⟩ :=
    o.levels default
  have hn := hf.nested
  have hsuite := o.kept.1
  have hfit : Frame.Fits s.suite (.guarded t) :=
    hf.fits _ ((s.mem_frames_iff default).2 ⟨L, by rw [hlev]; simp, by rw [hb]; simp⟩)
  have hafter : s'.blockStacks = (.guarded t' :: rest) :: post.map Level.blocks := by
    rw [s'.blockStacks_eq_levels default, hlev', List.map_cons]
  refine ⟨t, rest, post.map Level.blocks, cut_of_levels hf hlev hb habove hpre, ?_, ?_⟩
  · rw [hafter]
    cases hans with
    | handler at_ phase caught => exact .advance (.guarded (.enterHandler phase))
    | cleanup at_ cleaned => exact .advance (.guarded (.enterCleanup hact))
    | closer at_ done => exact .same
  · cases hans with
    | handler at_ phase caught =>
      refine ⟨fun hp' hk => ?_, fun hp' _ => ?_⟩
      · cases hp.symm.trans hp'
        rw [hsuite, keywordAt?_of_catchOf? hn hfit at_] at hk
        cases hk
      · cases hp.symm.trans hp'
        exact ⟨t, rest, _, rfl, hsuite ▸ at_, phase, caught, hafter⟩
    | cleanup at_ cleaned =>
      refine ⟨fun hp' _ => ?_, fun hp' hk => ?_⟩
      · cases hp.symm.trans hp'
        exact ⟨t, rest, _, rfl, hsuite ▸ at_, cleaned, hafter⟩
      · cases hp.symm.trans hp'
        rw [hsuite, keywordAt?_of_finallyOf? hn hfit at_] at hk
        cases hk
    | closer at_ done =>
      refine .of_noSection fun q hq => ?_
      cases hp.symm.trans hq
      exact hsuite ▸ .of_closer hn at_

/-- A fault that no try handles leaves no try that owes its cleanup section. -/
theorem Offer.cleaned_of_unhandled {f f' : Fault} {s s' : Session} (o : Offer g f s (.unhandled f') s')
    (hf : s.Fitted) (hcatch : f'.isCatchable) : AllCleaned s.suite s'.frames := by
  cases o with
  | refused why =>
    rcases why with hno | hneg
    · cases hno.symm.trans hcatch
    · refine .of_inactive hf.fits fun f hmem => Bool.eq_false_iff.2 fun hact => ?_
      exact absurd (hf.counted.nesting_nonneg_iff.2 ⟨f, hmem, hact⟩) (by omega)
  | @spent k n t rest v catchable reaches uncaught done nesting =>
    let u := (s.abortCalls k).drop n
    have hfu : u.Fitted := (hf.abortCalls k).drop n
    have hframes : u.frames = .guarded t :: (rest ++ (u.outer.map Level.blocks).flatten) := by
      rw [Session.frames, show u.blocks = .guarded t :: rest from reaches.blocks, List.cons_append]
    have hsuite : u.suite = s.suite := reaches.kept.suite
    -- it is the only one of its kind
    have hothers : ∀ f ∈ rest ++ (u.outer.map Level.blocks).flatten, f.isActiveTry = false := by
      have hone : u.frames.countP Frame.isActiveTry = 1 := by
        have hcount := hf.counted
        unfold Session.Counted at hcount
        rw [reaches.countP]
        omega
      rw [hframes, List.countP_cons, if_pos (show Frame.isActiveTry (.guarded t) = true from reaches.active)] at hone
      have hzero := List.countP_eq_zero.1 (Nat.succ.inj hone)
      exact fun f hmem => Bool.eq_false_iff.2 (hzero f hmem)
    have hs' : (((u.detain f t rest).withDeferred []).withVars v).frames = u.frames := by
      change (((u.relieve t.opener).defer (.fault f) t.opener).setBlocks (.guarded t :: rest)).frames = _
      rw [Session.frames_setBlocks, hframes, List.cons_append]
      rfl
    change AllCleaned s.suite (((u.detain f t rest).withDeferred []).withVars v).frames
    rw [hs', hframes, ← List.singleton_append]
    refine .append (fun w hw hsec => ?_) (.of_inactive (fun f hmem => ?_) hothers)
    · cases List.mem_singleton.1 hw
      rcases done with hnone | hdone
      · rw [hnone] at hsec
        cases hsec
      · exact hdone
    · refine hsuite ▸ hfu.fits f ?_
      rw [hframes]
      exact List.mem_cons_of_mem _ hmem

/-- **What a command does to the tries**, if none of them is closed that owes its cleanup section. -/
theorem Step.tended {s s' : Session} (h : Step g a s x s') (hs : s.Sound a)
    (hl : s.Stands (owing s.suite) .bottom a) :
    ∃ mid, Cut s.suite s.blockStacks mid ∧ Touch mid s'.blockStacks ∧
      ((∃ f, x = .handled f) ∨ x = .done ∧ Steers s.suite a → s'.Enters mid) := by
  cases h with
  | @finish c calls v call returning =>
    obtain ⟨hblocks, rfl⟩ := hs.returning c calls call returning
    obtain ⟨L, post, ho, -⟩ := s.place_of_returning hs call returning
    have hkey := (hs.calls c (by rw [call]; exact List.mem_cons_self)).keyword
    have hafter : (s.abortCall.withVars v).blockStacks = s.outer.map Level.blocks := by
      rw [Session.blockStacks_eq_levels _ default, ho]
      change (s.abortCall.levels default).map Level.blocks = _
      rw [s.levels_abortCall ho, List.map_cons, List.map_cons]
    refine ⟨s.outer.map Level.blocks, ?_, ?_, ?_⟩
    · rw [s.blockStacks_eq, hblocks, ho, List.map_cons]
      exact @Cut.intro _ [[]] _ [] _ nofun
    · rw [hafter]
      exact .same
    · rintro (⟨f, ⟨⟩⟩ | ⟨-, hst | hst⟩)
      · rw [hkey] at hst
        cases hst
      · rw [hkey] at hst
        cases hst
  | move ready move =>
    obtain ⟨mid, hcut, htouch, henters⟩ := move.tended ready hs fun t rest => hl.not_owing hs
    exact ⟨mid, hcut, htouch, fun h => henters (h.resolve_left nofun).2⟩
  | handled ready move same offer =>
    have hsuite := move.kept.1
    obtain ⟨t, rest, post, hcut, htouch, henters⟩ := offer.tended (move.sound ready hs).toFitted
    rw [hsuite] at hcut
    exact ⟨_, move.cut_of_error hs.toFitted (fun t rest => hl.not_owing hs) hcut, htouch, fun _ => henters⟩
  | unhandled ready move offer =>
    cases offer with
    | refused =>
      obtain ⟨mid, hcut, htouch, -⟩ := move.tended ready hs fun t rest => hl.not_owing hs
      exact ⟨mid, hcut, htouch, nofun⟩
    | @spent k n t rest v catchable reaches =>
      obtain ⟨pre, L, post, above, hlev, hb, hlev', habove, hpre⟩ :=
        @Session.Reaches.levels_setBlocks _
          (((((Session.abortCalls _ k).drop n).detain _ t rest).withDeferred []).withVars v) k n t _ rest
          reaches (fun q => Session.levels_setBlocks _ _ q) default
      have hcut := cut_of_levels (move.sound ready hs).toFitted hlev hb habove hpre
      rw [move.kept.1] at hcut
      refine ⟨_, move.cut_of_error hs.toFitted (fun t rest => hl.not_owing hs) hcut, ?_, nofun⟩
      rw [Session.blockStacks_eq_levels _ default, hlev', List.map_cons]
      exact .same

/-- A try that is in its body has caught nothing. -/
def BodyUncaught (fs : List Frame) : Prop :=
  ∀ t, .guarded t ∈ fs → t.phase = some .trying → t.caught = false

/-- What a command does to the stacks keeps it so. -/
theorem BodyUncaught.step {suite : Suite} {A mid B : List (List Frame)} (h : BodyUncaught A.flatten)
    (hcut : Cut suite A mid) (htouch : Touch mid B) : BodyUncaught B.flatten := by
  have hmid : BodyUncaught mid.flatten := by
    obtain ⟨-⟩ := hcut
    refine fun t ht => h t ?_
    simp only [List.flatten_append, List.flatten_cons, List.mem_append] at ht ⊢
    rcases ht with ht | ht
    · exact .inr (.inl (.inr ht))
    · exact .inr (.inr ht)
  cases htouch with
  | same | call => exact hmid
  | enter fresh =>
    rintro t ht hphase
    rcases List.mem_cons.1 ht with heq | ht
    · exact (fresh t heq.symm).caught
    · exact hmid t ht hphase
  | advance advances =>
    rintro t ht hphase
    rcases List.mem_cons.1 ht with heq | ht
    · cases advances with
      | conditional | loop => cases heq
      | @guarded t₀ t' advances =>
        cases heq
        rw [advances.body hphase]
        refine hmid t₀ List.mem_cons_self ?_
        cases hp : t₀.phase with
        | none => cases hphase.symm.trans (advances.idle hp)
        | some p =>
          obtain ⟨p', hp', hrank⟩ := advances.phase p hp
          cases hphase.symm.trans hp'
          cases p with
          | trying => rfl
          | catching | finallying => exact absurd hrank (by decide)
    · exact hmid t (List.mem_cons_of_mem _ ht) hphase

/-- **Cleanup sections are entered, and entered once.**  A command of a run leaves no construct but from
the top of the stacks, and no try whose cleanup section was not entered.  Of those that remain only the
innermost one changes, and a try goes forward.  Where a fault was handled, or a transfer was made or
taken up, a cleanup section begins only if it was not entered, and a handler only if its try is in its
body and has caught nothing.  Once the run is asked to end, or a fault that could be caught is not
handled, no try is left that owes its cleanup section. -/
theorem step_keeps_cleanup (hm₀ : m₀.Starts) (hreach : Reachable g host m₀ m) (ha : m.next? = some a)
    (h : m.advance g host = some (x, m')) :
    (∃ mid, Cut m.session.suite m.session.blockStacks mid ∧ Touch mid m'.session.blockStacks ∧
      ((∃ f, x = .handled f) ∨ x = .done ∧ Steers m.session.suite a → m'.session.Enters mid)) ∧
    (m'.session.exitRequested → AllCleaned m.session.suite m'.session.frames) ∧
    ∀ f, x = .unhandled f → f.isCatchable → AllCleaned m.session.suite m'.session.frames := by
  have hs := hreach.sound_poise hm₀ ha
  have hl : (m.session.poise (some a)).Stands (owing m.session.suite) .bottom a := by
    have := hreach.stands_owing hm₀
    rw [m.place_of_next? ha] at this
    exact this
  obtain ⟨a', ha', -, -, hstep⟩ := Moment.step_of_advance (hreach.sound hm₀) h
  cases ha.symm.trans ha'
  refine ⟨hstep.tended hs hl, fun hexit => ?_, ?_⟩
  · have hrunning : m.session.exitRequested = false := hreach.exitRequested hm₀
    rcases hstep.kept.2 with hsame | ⟨hclear, hframes⟩
    · rw [hsame] at hexit
      cases hrunning.symm.trans hexit
    · rw [hframes]
      exact .of_noneOwe hs.fits ((Session.cleanup?_eq_none_iff.1 hclear).2 rfl)
  · rintro f rfl hcatch
    cases hstep with
    | unhandled ready move offer =>
      have hclean := offer.cleaned_of_unhandled (move.sound ready hs).toFitted hcatch
      rwa [move.kept.1] at hclean

/-- A fault in the body of a try without a handler begins its cleanup section. -/
theorem fault_enters_cleanup_of_body :
    ∃ (m₀ m m' : Moment Unit) (f : Fault), Moment.ofUnits [.named "main" [{ name := "try" },
        { name := "throw", target := "a" }, { name := "finally" }, { name := "endTry" }]] = .ok m₀ ∧
      m₀.after? .trivial silent 1 = some m ∧ m.next? = some ⟨0, 1⟩ ∧
      m.advance .trivial silent = some (.handled f, m') ∧ m'.session.pending = some ⟨0, 2⟩ ∧
      ∃ (t : TryFrame) (fs : List Frame) (fss : List (List Frame)), t.cleaned = false ∧
        m'.session.blockStacks = (.guarded t.enterCleanup :: fs) :: fss := by
  obtain ⟨m₀, m, m', f, hm₀, hm, hnext, hadv, hp, hkey⟩ : ∃ (m₀ m m' : Moment Unit) (f : Fault),
      Moment.ofUnits [.named "main" [{ name := "try" }, { name := "throw", target := "a" },
        { name := "finally" }, { name := "endTry" }]] = .ok m₀ ∧
      m₀.after? .trivial silent 1 = some m ∧ m.next? = some ⟨0, 1⟩ ∧
      m.advance .trivial silent = some (.handled f, m') ∧ m'.session.pending = some ⟨0, 2⟩ ∧
      m'.session.suite.keywordAt? ⟨0, 2⟩ = some .finallyDo :=
    ⟨_, _, _, _, rfl, rfl, rfl, rfl, rfl, rfl⟩
  obtain ⟨⟨mid, -, -, henters⟩, -⟩ :=
    step_keeps_cleanup (starts_ofUnits hm₀) (reachable_of_after? hm) hnext hadv
  obtain ⟨t, fs, fss, -, -, hcleaned, hafter⟩ := (henters (.inl ⟨f, rfl⟩)).cleanup hp hkey
  exact ⟨m₀, m, m', f, hm₀, hm, hnext, hadv, hp, t, fs, fss, hcleaned, hafter⟩

end

end BlockFlow.Flow
