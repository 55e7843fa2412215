/-
# Cleanup sections that run to their closers

Work that was deferred to the closer of a try is still waiting when the run comes to that closer, and
nothing else has changed below the try: `SectionRuns.ends`.  All that a section has to do for this is to
keep its work deferred until then and to take up no other end of the run, which it does unless a fault or a
transfer leaves it.

The stacks are seen as one list of frames with the depths of their calls, innermost first: `placed`.  A
command takes frames off its front, and then puts one on or changes the first, so what is below a frame
stays as it is while the frame is there.
-/
import BlockFlow.Proofs.Cleanup
import BlockFlow.Proofs.Enclosing
import Mathlib.Data.List.Nodup

namespace BlockFlow.Flow

/-! ## 1. Frames with their depths -/

/-- The frames of stacks with the depths of their calls, innermost first. -/
def placed : List (List Frame) → List (Nat × Frame)
  | [] => []
  | fs :: fss => fs.map (fun f => (fss.length + 1, f)) ++ placed fss

section

variable {suite : Suite} {A B C pre post : List (List Frame)} {fs gs : List Frame} {n : Nat} {f : Frame}
  {x : Nat × Frame} {o : Address} {tail : List (Nat × Frame)}

theorem placed_cons_append (fs gs : List Frame) (post : List (List Frame)) : placed ((fs ++ gs) :: post) =
    fs.map (fun f => (post.length + 1, f)) ++ placed (gs :: post) := by
  rw [placed, placed, List.map_append, List.append_assoc]

theorem placed_cons_cons (f : Frame) (fs : List Frame) (post : List (List Frame)) :
    placed ((f :: fs) :: post) = (post.length + 1, f) :: placed (fs :: post) := rfl

/-- The frames of inner stacks come first. -/
theorem exists_placed_append (pre post : List (List Frame)) :
    ∃ left, placed (pre ++ post) = left ++ placed post ∧ ∀ x ∈ left, ∃ fs ∈ pre, x.2 ∈ fs := by
  induction pre with
  | nil => exact ⟨[], rfl, by rintro _ ⟨⟩⟩
  | cons fs pre ih =>
    obtain ⟨left, hleft, hpre⟩ := ih
    refine ⟨_ ++ left, by rw [List.cons_append, placed, hleft, List.append_assoc], fun x hx => ?_⟩
    rcases List.mem_append.1 hx with hx | hx
    · obtain ⟨f, hf, rfl⟩ := List.mem_map.1 hx
      exact ⟨fs, List.mem_cons_self, hf⟩
    · obtain ⟨gs, hgs, hx⟩ := hpre x hx
      exact ⟨gs, List.mem_cons_of_mem _ hgs, hx⟩

theorem mem_flatten_of_placed (h : (n, f) ∈ placed A) : f ∈ A.flatten := by
  obtain ⟨left, hleft, hin⟩ := exists_placed_append A []
  rw [List.append_nil, placed, List.append_nil] at hleft
  obtain ⟨fs, hfs, hf⟩ := hin _ (hleft ▸ h)
  exact List.mem_flatten_of_mem hfs hf

theorem depth_le_of_mem_placed (h : x ∈ placed A) : x.1 ≤ A.length := by
  induction A with
  | nil => cases h
  | cons fs A ih =>
    rcases List.mem_append.1 h with h | h
    · obtain ⟨f, -, rfl⟩ := List.mem_map.1 h
      exact le_rfl
    · exact (ih h).trans (Nat.le_succ _)

/-- The frames of the innermost call are those at its depth. -/
theorem mem_placed_top : (A.length + 1, f) ∈ placed (fs :: A) ↔ f ∈ fs := by
  rw [placed, List.mem_append]
  constructor
  · rintro (h | h)
    · obtain ⟨f', hf, heq⟩ := List.mem_map.1 h
      rwa [← (Prod.mk.inj heq).2]
    · exact absurd (depth_le_of_mem_placed h) (by simp)
  · exact fun h => .inl (List.mem_map_of_mem h)

/-- Stacks are determined by their frames and their number. -/
theorem placed_inj (h : placed A = placed B) (hlen : A.length = B.length) : A = B := by
  induction A generalizing B with
  | nil => exact (List.length_eq_zero_iff.1 hlen.symm).symm
  | cons fs A ih =>
    cases B with
    | nil => cases hlen
    | cons gs B =>
      have hlen : A.length = B.length := Nat.succ.inj hlen
      have hsplit (fs : List Frame) {A : List (List Frame)} (hA : A.length = B.length) :
          (placed (fs :: A)).partition (fun x => decide (x.1 = B.length + 1)) =
            (fs.map fun f => (B.length + 1, f), placed A) := by
        have htop : ∀ x ∈ fs.map fun f => (B.length + 1, f), decide (x.1 = B.length + 1) = true := by
          intro x hx
          obtain ⟨f, -, rfl⟩ := List.mem_map.1 hx
          simp
        have hbelow : ∀ x ∈ placed A, ¬decide (x.1 = B.length + 1) = true := by
          intro x hx
          have := depth_le_of_mem_placed hx
          simp only [decide_eq_true_eq]
          omega
        rw [List.partition_eq_filter_filter, placed, hA, List.filter_append, List.filter_append,
          List.filter_eq_self.2 htop, List.filter_eq_nil_iff.2 hbelow, List.append_nil]
        congr 1
        rw [List.filter_eq_nil_iff.2 fun x hx => by simp [htop x hx], List.filter_eq_self.2 fun x hx => by
          simpa using hbelow x hx, List.nil_append]
      have heq := (hsplit fs hlen).symm.trans ((congrArg _ h).trans (hsplit gs rfl))
      obtain ⟨htop, hrest⟩ := Prod.mk.inj heq
      rw [ih hrest hlen, (List.map_inj_right fun _ _ h => (Prod.mk.inj h).2).1 htop]

/-- Constructs are left from the front. -/
theorem Cut.placed (h : Cut suite A B) : ∃ left, Flow.placed A = left ++ Flow.placed B := by
  obtain ⟨cleaned⟩ := h
  rename_i pre post above fs
  obtain ⟨left, hleft, -⟩ := exists_placed_append pre ((above ++ fs) :: post)
  exact ⟨left ++ _, by rw [hleft, placed_cons_append, List.append_assoc]⟩

/-- A construct is entered at the front, or goes on there. -/
theorem Touch.placed (h : Touch A B) : Flow.placed B = Flow.placed A ∨
    (∃ n f, (∀ t, f = .guarded t → t.IsFresh) ∧ Flow.placed B = (n, f) :: Flow.placed A) ∨
      ∃ n f f' r, f.Advances f' ∧ Flow.placed A = (n, f) :: r ∧ Flow.placed B = (n, f') :: r := by
  cases h with
  | same | call => exact .inl rfl
  | enter fresh => exact .inr (.inl ⟨_, _, fresh, rfl⟩)
  | advance advances => exact .inr (.inr ⟨_, _, _, _, advances, rfl, rfl⟩)

theorem Frame.Advances.opener {f f' : Frame} (h : f.Advances f') : f'.opener = f.opener := by
  cases h with
  | conditional opener | loop opener => exact opener
  | guarded advances => exact advances.opener

/-! ## 2. What is below a try -/

/-- Among placed frames there is a try of a spot, with certain frames below it. -/
def Standing (spot : Spot) (below : List (Nat × Frame)) (fs : List (Nat × Frame)) : Prop :=
  ∃ above t, fs = above ++ (spot.1, .guarded t) :: below ∧ t.opener = spot.2

/-- **What is below a try stays** while there is a try of its spot which was not just entered. -/
theorem Standing.step {mid : List (List Frame)} {spot : Spot} {below : List (Nat × Frame)} {t : TryFrame}
    (h : Standing spot below (placed A)) (hcut : Cut suite A mid) (htouch : Touch mid B)
    (hbelow : ∀ x ∈ below, (x.1, x.2.opener) ≠ spot) (ht : (spot.1, .guarded t) ∈ placed B)
    (ho : t.opener = spot.2) (hfresh : ¬t.IsFresh) : Standing spot below (placed B) := by
  obtain ⟨above, t₀, hA, ho₀⟩ := h
  obtain ⟨left, hleft⟩ := hcut.placed
  have hmid : Standing spot below (placed mid) ∨ ∃ left', below = left' ++ placed mid := by
    rcases List.append_eq_append_iff.1 (hA.symm.trans hleft) with ⟨c, -, hc⟩ | ⟨c, -, hc⟩
    · cases c with
      | nil => exact .inl ⟨[], t₀, hc.symm, ho₀⟩
      | cons y c => exact .inr ⟨c, (List.cons.inj hc).2⟩
    · exact .inl ⟨c, t₀, hc, ho₀⟩
  rcases hmid with ⟨above, t₁, hmid, ho₁⟩ | ⟨left', hgone⟩
  · rcases htouch.placed with hsame | ⟨n, f, -, hB⟩ | ⟨n, f, f', r, hadv, hM, hB⟩
    · exact ⟨above, t₁, hsame.trans hmid, ho₁⟩
    · exact ⟨(n, f) :: above, t₁, by rw [hB, hmid, List.cons_append], ho₁⟩
    · cases above with
      | nil =>
        obtain ⟨hhead, rfl⟩ := List.cons.inj (hM.symm.trans hmid)
        obtain ⟨rfl, rfl⟩ := Prod.mk.inj hhead
        cases hadv with
        | guarded advances => exact ⟨[], _, hB, advances.opener.trans ho₁⟩
      | cons y above =>
        obtain ⟨-, rfl⟩ := List.cons.inj (hM.symm.trans hmid)
        exact ⟨(n, f') :: above, t₁, hB, ho₁⟩
  · -- the try was left, and no other one of its spot is there
    exfalso
    have hnot {x : Nat × Frame} (hx : x ∈ placed mid) : (x.1, x.2.opener) ≠ spot :=
      hbelow x (by rw [hgone]; exact List.mem_append_right _ hx)
    have hspot : (spot.1, Frame.opener (.guarded t)) = spot := Prod.ext rfl ho
    rcases htouch.placed with hsame | ⟨n, f, hnew, hB⟩ | ⟨n, f, f', r, hadv, hM, hB⟩
    · exact hnot (hsame ▸ ht) hspot
    · rw [hB] at ht
      rcases List.mem_cons.1 ht with heq | ht
      · exact hfresh (hnew t (Prod.mk.inj heq).2.symm)
      · exact hnot ht hspot
    · rw [hB] at ht
      rcases List.mem_cons.1 ht with heq | ht
      · obtain ⟨rfl, rfl⟩ := Prod.mk.inj heq
        refine hnot (x := (spot.1, f)) (by rw [hM]; exact List.mem_cons_self) ?_
        rw [← hspot, hadv.opener]
      · exact hnot (by rw [hM]; exact List.mem_cons_of_mem _ ht) hspot

end

/-! ## 3. Steps above a try -/

section

variable {g : Setting} {s s' : Session} {a : Address} {x : StepResult}

theorem mem_spotsOf_iff {kind : TryFrame → Bool} {ls : List Level} {y : Spot} : y ∈ spotsOf kind ls ↔
    ∃ t, (y.1, .guarded t) ∈ placed (ls.map Level.blocks) ∧ kind t = true ∧ t.opener = y.2 := by
  induction ls with
  | nil => simp [spotsOf, placed]
  | cons L ls ih =>
    rw [spotsOf, List.mem_append, ih, mem_spotsIn, List.map_cons, placed, List.length_map]
    simp only [List.mem_append, List.mem_map, Prod.mk.injEq]
    constructor
    · rintro (⟨hd, t, ht, hkind, ho⟩ | ⟨t, ht, hkind, ho⟩)
      · exact ⟨t, .inl ⟨_, ht, hd.symm, rfl⟩, hkind, ho⟩
      · exact ⟨t, .inr ht, hkind, ho⟩
    · rintro ⟨t, ⟨_, ht, hd, rfl⟩ | ht, hkind, ho⟩
      · exact .inl ⟨hd.symm, t, ht, hkind, ho⟩
      · exact .inr ⟨t, ht, hkind, ho⟩

/-- The spots of tries are those of the placed frames. -/
theorem Session.mem_spots_iff {kind : TryFrame → Bool} {y : Spot} : y ∈ s.spots kind ↔
    ∃ t, (y.1, .guarded t) ∈ placed s.blockStacks ∧ kind t = true ∧ t.opener = y.2 := by
  rw [s.spots_eq _ default, mem_spotsOf_iff, s.blockStacks_eq_levels default]

/-- Only the innermost call begins, or is marked as ended, and calls end from the innermost one. -/
theorem Step.sites (h : Step g a s x s') (hx : ∀ f, x ≠ .unhandled f) :
    (∃ k, s'.sites = s.sites.drop k) ∨ (∃ c, s'.sites = c :: s.sites) ∨
      s'.blocks = [] ∧ ∃ c c' cs, s.sites = c :: cs ∧ s'.sites = c' :: cs := by
  have hsuspends {u : Session} {origin : Address} {goal : Goal} (hu : u.sites = s.sites)
      (hsus : Suspends origin goal u s') : ∃ k, s'.sites = s.sites.drop k := by
    obtain ⟨clean, blocks, owes, hsection⟩ := hsus
    rename_i k n t rest p v
    refine ⟨k, ?_⟩
    rw [← hu, ← Session.sites_abortCalls]
    exact (Session.sites_setBlocks _ _).trans (Session.sites_drop _ n)
  cases h with
  | finish call returning => exact .inl ⟨1, s.sites_abortCalls 1⟩
  | move ready move =>
    cases move with
    | stay | skipHandler | skipFunction | replace | exit => exact .inl ⟨0, rfl⟩
    | jump | enter | enterTry | branch | reachFinally | closeTry | repeat_ | again | resume =>
      exact .inl ⟨0, s.sites_setBlocks _⟩
    | leave => exact .inl ⟨0, s.sites_drop 1⟩
    | @resuspend t rest d ds _ _ _ top closer active deferred resumeAt depth work suspends =>
      exact .inl (hsuspends (u := (s.leaveTry t rest).withDeferred ds) (s.sites_setBlocks _) suspends)
    | suspend transfers stays suspends => exact .inl (hsuspends rfl suspends)
    | breakLoop | continueLoop => exact .inl ⟨0, (Session.sites_setBlocks _ _).trans (s.sites_drop _)⟩
    | @returnFrom c calls v transfers stays clear call =>
      refine .inr (.inr ⟨Session.blocks_markReturning call, c.site, _, calls.map Call.site, ?_,
        Session.sites_markReturning call⟩)
      rw [Session.sites, call, List.map_cons]
    | enterCall => exact .inr (.inl ⟨_, rfl⟩)
  | handled ready move same offer =>
    have hsites := move.sites_of_error
    have hmain {t : Session} {k n : Nat} (ht : t.sites = s.sites)
        (h : s'.sites = ((t.abortCalls k).drop n).sites) : ∃ k, s'.sites = s.sites.drop k :=
      ⟨k, by rw [h, Session.sites_drop, Session.sites_abortCalls, ht]⟩
    cases offer with
    | caught | cleaned | passed => exact .inl (hmain hsites (Session.sites_setBlocks _ _))
  | unhandled => exact absurd rfl (hx _)

/-- The calls around a depth at which a construct is still running do not change. -/
theorem Step.drop_sites (h : Step g a s x s') (hx : ∀ f, x ≠ .unhandled f) {n : Nat} (hle : n ≤ s.depth)
    (hle' : n ≤ s'.depth) (hempty : s'.blocks = [] → n ≠ s'.depth) :
    s'.sites.drop (s'.depth - n) = s.sites.drop (s.depth - n) := by
  rw [Session.depth_eq_sites] at hle hle' hempty
  rw [Session.depth_eq_sites, Session.depth_eq_sites]
  rcases h.sites hx with ⟨k, hk⟩ | ⟨c, hc⟩ | ⟨hnil, c, c', cs, hc, hc'⟩
  · rw [hk, List.length_drop] at hle'
    rw [hk, List.drop_drop, List.length_drop]
    rcases Nat.le_total k s.sites.length with hk' | hk'
    · rw [show k + (s.sites.length - k + 1 - n) = s.sites.length + 1 - n by omega]
    · rw [List.drop_eq_nil_of_le (by omega), List.drop_eq_nil_of_le (by omega)]
  · rw [hc, List.length_cons, show s.sites.length + 1 + 1 - n = (s.sites.length + 1 - n) + 1 by omega,
      List.drop_succ_cons]
  · have hne := hempty hnil
    rw [hc', List.length_cons] at hle' hne
    rw [hc, hc', List.length_cons, List.length_cons,
      show cs.length + 1 + 1 - n = (cs.length + 1 - n) + 1 by omega, List.drop_succ_cons, List.drop_succ_cons]

/-- Work was deferred before, or it is work of a kind that waits for the innermost construct or takes the place
of other work of its try. -/
def Deferred.ComesFrom (s s' : Session) (new : Work → Prop) (e : Deferred) : Prop :=
  e ∈ s.deferred ∨ new e.work ∧ ((∃ e' ∈ s.deferred, e'.spot = e.spot) ∨
    ∃ t rest, s'.blocks = .guarded t :: rest ∧ e.spot = (s'.depth, t.opener))

theorem Deferred.ComesFrom.spot {new : Work → Prop} {e : Deferred} (h : e.ComesFrom s s' new) :
    (∃ e' ∈ s.deferred, e'.spot = e.spot) ∨
      ∃ t rest, s'.blocks = .guarded t :: rest ∧ e.spot = (s'.depth, t.opener) := by
  rcases h with hold | ⟨-, hspot⟩
  · exact .inl ⟨e, hold, rfl⟩
  · exact hspot

/-- The work of a transfer. -/
def Work.IsTransfer (w : Work) : Prop := ∃ origin goal, w = .transfer origin goal

/-- Transfers are deferred for the innermost construct, or take the place of other work of their try. -/
theorem Move.deferred {r : Except Fault Unit} (m : Move a s r s') :
    ∀ e ∈ s'.deferred, e.ComesFrom s s' Work.IsTransfer := by
  have hkept {u : Session} (h : u.deferred = s.deferred) : ∀ e ∈ u.deferred, e.ComesFrom s s' Work.IsTransfer :=
    fun e he => .inl (h ▸ he)
  have hsuspends {u : Session} {origin : Address} {goal : Goal} (hu : ∀ e ∈ u.deferred, e ∈ s.deferred)
      (hsus : Suspends origin goal u s') : ∀ e ∈ s'.deferred, e.ComesFrom s s' Work.IsTransfer := by
    obtain ⟨t, rest, hb, hdef⟩ := hsus.deferred
    rw [hdef]
    refine List.forall_mem_cons.2 ⟨.inr ⟨⟨_, _, rfl⟩, .inr ⟨t, rest, hb, rfl⟩⟩, fun e he => .inl ?_⟩
    exact hu e (List.mem_filter.1 he).1
  cases m with
  | stay | skipHandler | skipFunction | exit | enterCall => exact hkept rfl
  | jump | enter | enterTry | branch | reachFinally | closeTry | repeat_ | again =>
    exact hkept (s.deferred_setBlocks _)
  | leave => exact hkept (s.kept_drop 1).deferred
  | rethrow top closer active deferred =>
    exact fun e he => .inl (by rw [deferred]; exact List.mem_cons_of_mem _ he)
  | resume resumes => exact fun e he => .inl (by rw [resumes.deferred]; exact List.mem_cons_of_mem _ he)
  | @resuspend t rest d ds _ _ _ top closer active deferred resumeAt depth work suspends =>
    exact hsuspends (u := (s.leaveTry t rest).withDeferred ds)
      (fun e he => by rw [deferred]; exact List.mem_cons_of_mem _ he) suspends
  | @replace d ds goal v transfers deferred leaves =>
    have hd : d ∈ s.deferred := by rw [deferred]; exact List.mem_cons_self
    refine List.forall_mem_cons.2 ⟨.inr ⟨⟨_, _, rfl⟩, .inl ⟨d, hd, rfl⟩⟩, fun e he => .inl ?_⟩
    rw [deferred]
    exact List.mem_cons_of_mem _ he
  | suspend transfers stays suspends => exact hsuspends (fun _ he => he) suspends
  | breakLoop | continueLoop => exact hkept ((s.kept_drop _).trans (Session.kept_setBlocks _ _)).deferred
  | adrift => exact hkept (s.kept_drop _).deferred
  | returnFrom transfers stays clear call => exact hkept (Session.kept_markReturning call).deferred

/-- A command that fails defers nothing. -/
theorem Move.deferred_of_error {f : Fault} (m : Move a s (.error f) s') : ∀ e ∈ s'.deferred, e ∈ s.deferred := by
  cases m with
  | stay => exact fun e he => he
  | enter | branch | again => exact fun e he => (s.deferred_setBlocks _) ▸ he
  | rethrow top closer active deferred =>
    exact fun e he => by rw [deferred]; exact List.mem_cons_of_mem _ he
  | adrift => exact fun e he => (s.kept_drop _).deferred ▸ he

/-- A fault that waits has the reference of the command that failed with it. -/
def Work.IsAttributed (w : Work) : Prop := ∀ f, w = .fault f → ∀ ref, f.attach ref = f

theorem Step.deferred (h : Step g a s x s') (hx : ∀ f, x ≠ .unhandled f) :
    ∀ e ∈ s'.deferred, e.ComesFrom s s' Work.IsAttributed := by
  cases h with
  | finish => exact fun e he => .inl (s.kept_abortCall.deferred ▸ he)
  | move ready move =>
    refine fun e he => (move.deferred e he).imp_right fun ⟨⟨origin, goal, hwork⟩, hspot⟩ => ⟨?_, hspot⟩
    rw [hwork]
    rintro f ⟨⟩
  | @handled f f' t _ ready move same offer =>
    have hrelieve {k n : Nat} {u : TryFrame} {rest : List Frame} (hr : t.Reaches k n u rest) :
        ∀ e ∈ (((t.abortCalls k).drop n).relieve u.opener).deferred, e ∈ s.deferred := by
      intro e he
      have := ((Session.relieve_sublist _ _).trans (Session.pruneDeferred_sublist _)).subset he
      exact move.deferred_of_error e (hr.kept.deferred ▸ this)
    have hmain {k n : Nat} {u : TryFrame} {rest : List Frame} (hr : t.Reaches k n u rest) (u' : TryFrame)
        (ho : u'.opener = u.opener) {ds : List Deferred}
        (hds : ∀ e ∈ ds, e = ⟨.fault (f.attach (s.suite.commandRef a)), u.opener, ((t.abortCalls k).drop n).depth⟩ ∨
          e ∈ (((t.abortCalls k).drop n).relieve u.opener).deferred) :
        ∀ e ∈ ((((t.abortCalls k).drop n).withDeferred ds).setBlocks (.guarded u' :: rest)).deferred,
          e.ComesFrom s ((((t.abortCalls k).drop n).withDeferred ds).setBlocks (.guarded u' :: rest))
            Work.IsAttributed := by
      intro e he
      rw [Session.deferred_setBlocks] at he
      rcases hds e he with rfl | he
      · refine .inr ⟨?_, .inr ⟨u', rest, Session.blocks_setBlocks _ _, ?_⟩⟩
        · rintro _ ⟨⟩ ref
          exact Fault.attach_attach _ _ _
        · rw [Session.depth_setBlocks, ho]
          rfl
      · exact .inl (hrelieve hr e he)
    cases offer with
    | @caught k n u rest p v catchable reaches catches message =>
      exact hmain reaches u.enterHandler rfl fun _ he => .inr he
    | @cleaned k n u rest p v catchable reaches uncaught section_ uncleaned =>
      exact hmain reaches u.enterCleanup rfl (List.forall_mem_cons.2 ⟨.inl rfl, fun _ he => .inr he⟩)
    | @passed k n u rest e v catchable reaches uncaught done nesting closer =>
      exact hmain reaches u rfl (List.forall_mem_cons.2 ⟨.inl rfl, fun _ he => .inr he⟩)
  | unhandled => exact absurd rfl (hx _)

end

/-! ## 4. Runs of a section -/

/-- A run of commands through moments at which something holds. -/
inductive Along {σ : Type} (g : Setting) (host : Host σ) (P : Session → Prop) : Moment σ → Moment σ → Prop
  | start {m : Moment σ} (holds : P m.session) : Along g host P m m
  | step {m m' m'' : Moment σ} {x : StepResult} (along : Along g host P m m')
      (advance : m'.advance g host = some (x, m'')) (handled : ∀ f, x ≠ .unhandled f)
      (goesOn : m''.session.exitRequested = false) (holds : P m''.session) : Along g host P m m''

/-- The session is about to begin the cleanup section of its innermost try, for which work waits. -/
structure Session.Begins (s : Session) (t : TryFrame) (d : Deferred) : Prop where
  top : ∃ rest, s.blocks = .guarded t :: rest
  newest : ∃ ds, s.deferred = d :: ds
  spot : d.spot = (s.depth, t.opener)
  section_ : ∃ p, finallyOf? s.suite t.opener = some p ∧ s.pending = some p

/-- **A cleanup section runs to its closer**: its work waits all the time, and no end of the run but that
work is taken up on the way, so no fault and no transfer leaves it. -/
structure SectionRuns {σ : Type} (g : Setting) (host : Host σ) (d : Deferred) (m m' : Moment σ) : Prop where
  along : Along g host (fun s => d ∈ s.deferred) m m'
  stays : ∀ m₁ e es, Reachable g host m m₁ → Reachable g host m₁ m' → m₁.TakesUpExit e es → e = d
  depth : m'.session.depth = d.depth
  closer : ∃ e, m'.next? = some e ∧ m'.session.suite.Construct d.resumeAt e

/-- Frames of stacks have spots of their own if those of every stack have openers of their own. -/
theorem nodup_placed {A : List (List Frame)} (h : ∀ fs ∈ A, (fs.map Frame.opener).Nodup) :
    ((placed A).map fun x => (x.1, x.2.opener)).Nodup := by
  induction A with
  | nil => exact List.nodup_nil
  | cons fs A ih =>
    obtain ⟨hfs, hA⟩ := List.forall_mem_cons.1 h
    rw [placed, List.map_append, List.map_map]
    refine List.nodup_append.2 ⟨?_, ih hA, ?_⟩
    · have := List.Nodup.map (f := fun o : Address => (A.length + 1, o)) (fun _ _ h => (Prod.mk.inj h).2) hfs
      rwa [List.map_map] at this
    · intro y hy z hz heq
      obtain ⟨f, -, rfl⟩ := List.mem_map.1 hy
      obtain ⟨x, hx, rfl⟩ := List.mem_map.1 hz
      have := depth_le_of_mem_placed hx
      have hd : A.length + 1 = x.1 := (Prod.mk.inj heq).1
      omega

/-- The constructs of a call have openers of their own. -/
theorem Session.Distinct.nodup_placed {s : Session} (h : s.Distinct) :
    ((Flow.placed s.blockStacks).map fun x => (x.1, x.2.opener)).Nodup := by
  rw [s.blockStacks_eq_levels default]
  refine Flow.nodup_placed fun fs hfs => ?_
  obtain ⟨L, hL, rfl⟩ := List.mem_map.1 hfs
  exact h L hL

/-- The innermost construct, with what is below it. -/
theorem Session.placed_blockStacks {s : Session} {f : Frame} {rest : List Frame} (hb : s.blocks = f :: rest) :
    placed s.blockStacks = (s.depth, f) :: placed (rest :: s.outer.map Level.blocks) := by
  rw [s.blockStacks_eq, hb, placed, placed, List.length_map, s.depth_eq]
  rfl

/-- Nothing below the innermost construct is of its spot. -/
theorem Session.Distinct.not_below {s : Session} (h : s.Distinct) {f : Frame} {rest : List Frame}
    (hb : s.blocks = f :: rest) :
    ∀ x ∈ placed (rest :: s.outer.map Level.blocks), (x.1, x.2.opener) ≠ (s.depth, f.opener) := by
  intro x hx heq
  have hnodup := h.nodup_placed
  rw [Session.placed_blockStacks hb, List.map_cons, List.nodup_cons] at hnodup
  exact hnodup.1 (List.mem_map.2 ⟨x, hx, heq⟩)

/-- What is below a try is below the innermost construct. -/
theorem Standing.subset_below_top {s : Session} {spot : Spot} {below : List (Nat × Frame)} {f : Frame}
    {rest : List Frame} (h : Standing spot below (placed s.blockStacks)) (hb : s.blocks = f :: rest) :
    below ⊆ placed (rest :: s.outer.map Level.blocks) := by
  obtain ⟨above, t, heq, -⟩ := h
  rw [Session.placed_blockStacks hb] at heq
  cases above with
  | nil =>
    obtain ⟨-, rfl⟩ := List.cons.inj heq
    exact fun _ hy => hy
  | cons x above =>
    obtain ⟨-, heq⟩ := List.cons.inj heq
    rw [heq]
    exact fun _ hy => List.mem_append_right _ (List.mem_cons_of_mem _ hy)

/-- If the try is innermost, it is what is below the innermost construct. -/
theorem Standing.eq_below_top {s : Session} {spot : Spot} {below : List (Nat × Frame)} {t : TryFrame}
    {rest : List Frame} (h : Standing spot below (placed s.blockStacks)) (hd : s.Distinct)
    (hb : s.blocks = .guarded t :: rest) (hspot : spot = (s.depth, t.opener)) :
    placed (rest :: s.outer.map Level.blocks) = below := by
  obtain ⟨above, t₀, heq, ho⟩ := h
  rw [Session.placed_blockStacks hb] at heq
  cases above with
  | nil => exact (List.cons.inj heq).2
  | cons x above =>
    obtain ⟨-, hrest⟩ := List.cons.inj heq
    have hmem : (spot.1, Frame.guarded t₀) ∈ placed (rest :: s.outer.map Level.blocks) := by
      rw [hrest]
      exact List.mem_append_right _ List.mem_cons_self
    exact absurd ((Prod.ext rfl ho : (spot.1, t₀.opener) = spot).trans hspot) (hd.not_below hb _ hmem)

/-- At its closer a try is the innermost construct. -/
theorem Session.Upright.top_of_closer {s : Session} {e : Address} (h : s.Upright e) (hs : s.Sound e)
    {t : TryFrame} {above rest : List Frame} (hb : s.blocks = above ++ .guarded t :: rest)
    (he : s.suite.Construct t.opener e) : above = [] := by
  have hn := hs.nested
  have hfits := hs.toFitted.blocks
  have hholds : (enclosing s.suite).Holds s.callee? s.blocks e := by
    rcases (h.stands.holds hs).2 with ⟨hnil, -⟩ | htop | ⟨l, rest', hb', -, ho, -⟩
    · rw [hnil] at hb
      exact absurd (congrArg List.length hb) (by simp)
    · exact htop
    · obtain ⟨e', he'⟩ := hn.exists_construct_of_opens (hs.toFitted.top hb').1
      exact absurd ho ((hn.isPart_closer he).ne_opener he')
  cases above with
  | nil => rfl
  | cons f above =>
    have hpair := hholds.pairwise hn hfits
    rw [hb, List.cons_append, List.pairwise_cons] at hpair
    obtain ⟨p, q, hp, hq, -, hlt⟩ := hpair.1 (.guarded t) (by simp)
    cases hq.unique he
    obtain ⟨p', hp', -, hle⟩ := hholds.spans hn hfits f (by rw [hb]; simp)
    cases hp.unique hp'
    exact absurd hle (not_le.2 hlt)

/-- **At the closer of its try work is taken up.** -/
theorem Session.Upright.takes_up {s : Session} {e : Address} (h : s.Upright e) (hs : s.Sound e) {d : Deferred}
    (hd : d ∈ s.deferred) (hdepth : s.depth = d.depth) (he : s.suite.Construct d.resumeAt e) :
    ∃ t rest ds, s.TakesUp e t rest d ds := by
  obtain ⟨t, ht, ho, hkind⟩ := h.mirrors.exists_try hd hdepth.symm
  obtain ⟨above, rest, hb⟩ := List.append_of_mem ht
  rw [← ho] at he
  obtain rfl := h.top_of_closer hs hb he
  obtain ⟨ds, hds⟩ := h.mirrors.head (h.stands.distinct hs) hb hd (Prod.ext hdepth.symm ho.symm)
  exact ⟨t, rest, ds, hb, he, (TryFrame.isSettled_iff.1 hkind).1, hds, ho.symm, hdepth.symm⟩

section

variable {σ : Type} {g : Setting} {host : Host σ} {m₀ m m' m₁ m₂ : Moment σ} {d : Deferred} {t : TryFrame}

theorem Along.holds {P : Session → Prop} (h : Along g host P m m') : P m'.session := by
  cases h with
  | start holds => exact holds
  | step _ _ _ _ holds => exact holds

theorem Along.reachable {P : Session → Prop} (h : Along g host P m m') : Reachable g host m m' := by
  induction h with
  | start => exact .start
  | step along advance handled goesOn holds ih => exact .step ih advance handled goesOn

/-- A run through moments at which something holds is a run of a number of commands. -/
theorem Along.after? {P : Session → Prop} (h : Along g host P m m') :
    ∃ n, m.after? g host n = some m' ∧ ∀ i ≤ n, ∃ m₁, m.after? g host i = some m₁ ∧ P m₁.session := by
  induction h with
  | start holds =>
    refine ⟨0, rfl, fun i hi => ?_⟩
    rw [Nat.le_zero.1 hi]
    exact ⟨m, rfl, holds⟩
  | @step m' m'' x along advance handled goesOn holds ih =>
    obtain ⟨n, hn, hall⟩ := ih
    have hsucc := after?_succ hn advance handled goesOn
    refine ⟨n + 1, hsucc, fun i hi => ?_⟩
    rcases Nat.le_succ_iff.1 hi with hi | rfl
    · exact hall i hi
    · exact ⟨m'', hsucc, holds⟩

theorem Reachable.trans (h : Reachable g host m₀ m) (h' : Reachable g host m m') : Reachable g host m₀ m' := by
  induction h' with
  | start => exact h
  | step _ advance handled goesOn ih => exact .step ih advance handled goesOn

/-- At the moment at which the run is to end no work is deferred. -/
theorem Moment.Exits.deferred (h : m.Exits g host m₀) (hm₀ : m₀.Starts) : m.session.deferred = [] := by
  obtain ⟨m', d, hreach, htakes, hadv⟩ := h
  obtain ⟨m₁, hadv', hnil⟩ := htakes.advance hm₀ hreach
  obtain ⟨-, rfl⟩ := Prod.mk.inj (Option.some.inj (hadv.symm.trans hadv'))
  exact hnil

/-- Moments at which work is deferred are upright. -/
theorem Reachable.upright_of_mem (h : Reachable g host m₀ m) (hm₀ : m₀.Starts)
    (hkeep : KeepsExits g host m₀ m) (hd : d ∈ m.session.deferred) : m.session.Upright m.place := by
  rcases h.upright hm₀ hkeep with hu | hexits
  · exact hu
  · rw [hexits.deferred hm₀] at hd
    cases hd

/-- What stays the same while a section runs: what is below its try, the call that it runs in, and that
work which was not deferred before waits for nothing below the try. -/
structure Session.Above (s : Session) (spot : Spot) (below : List (Nat × Frame)) (sites : List Call)
    (before : List Deferred) : Prop where
  standing : Standing spot below (placed s.blockStacks)
  sites : s.sites.drop (s.depth - spot.1) = sites
  work : ∀ e ∈ s.deferred, (∃ e' ∈ before, e'.spot = e.spot) ∨ ∀ x ∈ below, (x.1, x.2.opener) ≠ e.spot

theorem Session.Above.poise {s : Session} {spot : Spot} {below : List (Nat × Frame)} {sites : List Call}
    {before : List Deferred} (h : s.Above spot below sites before) (a? : Option Address) :
    (s.poise a?).Above spot below sites before := ⟨h.standing, h.sites, h.work⟩

/-- **One command of a section** leaves what is below its try alone. -/
theorem Step.above {s s' : Session} {a : Address} {x : StepResult} {below : List (Nat × Frame)}
    {sites : List Call} {before : List Deferred} (h : Step g a s x s') (hx : ∀ f, x ≠ .unhandled f)
    (hs : s.Sound a) (howing : s.Stands (owing s.suite) .bottom a)
    (hkept : s.Above d.spot below sites before) (hmirrors : s'.Mirrors) (hdistinct : s'.Distinct)
    (hbelow : ∀ x ∈ below, (x.1, x.2.opener) ≠ d.spot) (hfin : (finallyOf? s.suite d.resumeAt).isSome)
    (hd : d ∈ s'.deferred) : s'.Above d.spot below sites before := by
  obtain ⟨mid, hcut, htouch, -⟩ := h.tended hs howing
  have hmem := hmirrors.subset (List.mem_map_of_mem (f := Deferred.spot) hd)
  obtain ⟨t, ht, hkind, ho⟩ := Session.mem_spots_iff.1 hmem
  have hstanding : Standing d.spot below (placed s'.blockStacks) := by
    refine hkept.standing.step hcut htouch hbelow ht ho fun hfresh => ?_
    obtain ⟨hact, howes⟩ := TryFrame.isSettled_iff.1 hkind
    obtain ⟨p, hp⟩ := Option.isSome_iff_exists.1 hfin
    rw [h.kept.1, TryFrame.owesCleanup_iff.2 ⟨hact, hfresh.cleaned, p, ?_⟩] at howes
    · cases howes
    · rw [ho]
      exact hp
  have hlen (u : Session) : u.blockStacks.length = u.depth := by
    rw [u.blockStacks_eq, List.length_cons, List.length_map, u.depth_eq]
  have hle' : d.spot.1 ≤ s'.depth := hlen s' ▸ depth_le_of_mem_placed ht
  have hle : d.spot.1 ≤ s.depth := by
    obtain ⟨above, t₀, heq, -⟩ := hkept.standing
    rw [← hlen s]
    exact depth_le_of_mem_placed (x := (d.spot.1, .guarded t₀)) (by rw [heq]; simp)
  -- the try is in the innermost call only if there are constructs in it
  have hempty (hnil : s'.blocks = []) : d.spot.1 ≠ s'.depth := by
    intro heq
    rw [s'.blockStacks_eq, heq, Session.depth_eq, ← List.length_map (f := Level.blocks), mem_placed_top,
      hnil] at ht
    cases ht
  refine ⟨hstanding, (h.drop_sites hx hle hle' hempty).trans hkept.sites, fun e he => ?_⟩
  rcases (h.deferred hx e he).spot with ⟨e', he', hspot⟩ | ⟨w, rest, hb, hspot⟩
  · rw [← hspot]
    exact hkept.work e' he'
  · refine .inr fun y hy => ?_
    rw [hspot]
    exact hdistinct.not_below hb y (hstanding.subset_below_top hb hy)

/-! ## 5. What a section leaves -/

/-- The session at the closer of a section: its try is the innermost construct, and nothing below the try
has changed. -/
structure Session.Ends (s s' : Session) (t : TryFrame) (rest : List Frame) (d : Deferred)
    (ds : List Deferred) : Prop where
  top : ∃ t', s'.blocks = .guarded t' :: rest ∧ t'.opener = t.opener ∧ t'.isActive = true
  outer : s'.outer.map Level.blocks = s.outer.map Level.blocks
  sites : s'.sites = s.sites
  deferred : ∃ ds', s'.deferred = d :: ds' ∧ ∀ e ∈ ds', ∃ e' ∈ ds, e'.spot = e.spot

/-- The try whose section begins is above everything that is below it. -/
theorem Session.Begins.above {s : Session} (h : s.Begins t d) {rest : List Frame} {ds : List Deferred}
    (hdistinct : s.Distinct) (hb : s.blocks = .guarded t :: rest) (hd : s.deferred = d :: ds) :
    s.Above d.spot (placed (rest :: s.outer.map Level.blocks)) s.sites ds where
  standing := ⟨[], t, by rw [Session.placed_blockStacks hb, h.spot]; rfl, by rw [h.spot]⟩
  sites := by rw [h.spot, Nat.sub_self, List.drop_zero]
  work e he := by
    rw [hd] at he
    rcases List.mem_cons.1 he with rfl | he
    · exact .inr fun x hx => h.spot ▸ hdistinct.not_below hb x hx
    · exact .inl ⟨e, he, rfl⟩

/-- Work that waits beside that of a section waits for nothing above its try. -/
theorem Session.TakesUp.spot_below {s : Session} {a : Address} {rest : List Frame} {ds : List Deferred}
    (h : s.TakesUp a t rest d ds) (hm : s.Mirrors) {e : Deferred} (he : e ∈ ds) :
    ∃ x ∈ placed (rest :: s.outer.map Level.blocks), (x.1, x.2.opener) = e.spot := by
  have hin := (hm.tail h.top h.deferred).subset (List.mem_map_of_mem (f := Deferred.spot) he)
  obtain ⟨u, hu, -, huo⟩ := Session.mem_spots_iff.1 hin
  have hstacks : ((s.leaveTry t rest).withDeferred ds).blockStacks = rest :: s.outer.map Level.blocks := by
    rw [Session.blockStacks_eq]
    exact congrArg₂ List.cons (Session.blocks_setBlocks _ _)
      (congrArg (List.map Level.blocks) (Session.outer_setBlocks _ _))
  exact ⟨(e.spot.1, .guarded u), hstacks ▸ hu, Prod.ext rfl huo⟩

/-- Work that is taken up is not deferred any more. -/
theorem Session.TakesUp.not_mem {s : Session} {a : Address} {rest : List Frame} {ds : List Deferred}
    (h : s.TakesUp a t rest d ds) (hm : s.Mirrors) (hd : s.Distinct) : d ∉ ds := by
  intro hin
  obtain ⟨x, hx, hspot⟩ := h.spot_below hm hin
  exact hd.not_below h.top x hx (hspot.trans (Prod.ext h.depth h.resumeAt))

/-- **A section stays upright**: only its closer may take up the end of the run. -/
theorem SectionRuns.upright (h : SectionRuns g host d m m') (hm₀ : m₀.Starts) (hreach : Reachable g host m₀ m)
    (hu : m.session.Upright m.place) (hto : Along g host (fun s => d ∈ s.deferred) m m₁)
    (hfrom : Reachable g host m₁ m') : m₁.session.Upright m₁.place := by
  induction hto with
  | start => exact hu
  | @step m₁ m₂ x along advance handled goesOn holds ih =>
    have hm₁ := hreach.trans along.reachable
    have hrest : Reachable g host m₁ m' := (Reachable.step .start advance handled goesOn).trans hfrom
    have hu₁ := ih hrest
    refine hm₁.upright_next hm₀ hu₁ advance handled fun e es htakes => ?_
    obtain rfl := h.stays m₁ e es along.reachable hrest htakes
    obtain ⟨m₃, hadv, hes⟩ := htakes.advance hm₀ hm₁
    obtain ⟨-, rfl⟩ := Prod.mk.inj (Option.some.inj (advance.symm.trans hadv))
    obtain ⟨a, t, rest, origin, -, hr⟩ := htakes
    exact hr.takesUp.not_mem hu₁.mirrors (hu₁.stands.distinct (hm₁.sound hm₀)) (hes ▸ holds)

/-- What is below a try stays the same while its section runs. -/
theorem SectionRuns.above (h : SectionRuns g host d m m') (hm₀ : m₀.Starts) (hreach : Reachable g host m₀ m)
    (hu : m.session.Upright m.place) {below : List (Nat × Frame)} (before : List Deferred) (sites : List Call)
    (hbelow : ∀ x ∈ below, (x.1, x.2.opener) ≠ d.spot)
    (hfin : (finallyOf? m.session.suite d.resumeAt).isSome) (habove : m.session.Above d.spot below sites before)
    (hto : Along g host (fun s => d ∈ s.deferred) m m₁) (hfrom : Reachable g host m₁ m') :
    m₁.session.Above d.spot below sites before := by
  induction hto with
  | start => exact habove
  | @step m₁ m₂ x along advance handled goesOn holds ih =>
    have hm₁ := hreach.trans along.reachable
    have habove₁ := ih ((Reachable.step .start advance handled goesOn).trans hfrom)
    obtain ⟨a, ha, hplace, -, hstep⟩ := Moment.step_of_advance (hm₁.sound hm₀) advance
    have hu₂ := h.upright hm₀ hreach hu (along.step advance handled goesOn holds) hfrom
    have howing : (m₁.session.poise (some a)).Stands (owing m₁.session.suite) .bottom a :=
      hplace ▸ hm₁.stands_owing hm₀
    have hsuite : m₁.session.suite = m.session.suite := (hm₁.suite hm₀).trans (hreach.suite hm₀).symm
    refine hstep.above handled (hm₁.sound_poise hm₀ ha) howing (habove₁.poise _) hu₂.mirrors
      (hu₂.stands.distinct ((hm₁.step advance handled goesOn).sound hm₀)) hbelow ?_ holds
    change (finallyOf? m₁.session.suite _).isSome
    rw [hsuite]
    exact hfin

/-- **A section that runs to its closer** leaves everything below its try as it was. -/
theorem SectionRuns.ends (h : SectionRuns g host d m₁ m₂) (hm₀ : m₀.Starts) (hreach : Reachable g host m₀ m₁)
    (hu₁ : m₁.session.Upright m₁.place) (hbegins : m₁.session.Begins t d) {rest : List Frame}
    {ds : List Deferred} (hb : m₁.session.blocks = .guarded t :: rest) (hd : m₁.session.deferred = d :: ds) :
    m₁.session.Ends m₂.session t rest d ds := by
  have hdist₁ := hu₁.stands.distinct (hreach.sound hm₀)
  obtain ⟨hdepth₁, hopener⟩ : d.depth = m₁.session.depth ∧ d.resumeAt = t.opener :=
    Prod.mk.inj hbegins.spot
  have hfin : (finallyOf? m₁.session.suite d.resumeAt).isSome := by
    obtain ⟨p, hp, -⟩ := hbegins.section_
    rw [hopener, hp]
    rfl
  have habove := h.above hm₀ hreach hu₁ ds m₁.session.sites
    (fun x hx => hbegins.spot ▸ hdist₁.not_below hb x hx) hfin (hbegins.above hdist₁ hb hd) h.along .start
  -- at the closer the work is taken up
  have hreach₂ := hreach.trans h.along.reachable
  have hu₂ := h.upright hm₀ hreach hu₁ h.along .start
  have hdist₂ := hu₂.stands.distinct (hreach₂.sound hm₀)
  obtain ⟨e, hnext, hcloser⟩ := h.closer
  obtain ⟨t', rest', ds', htakes⟩ : ∃ t' rest' ds', m₂.session.TakesUp e t' rest' d ds' := by
    have hplace := m₂.place_of_next? hnext
    exact (hplace ▸ hu₂).takes_up (hplace ▸ hreach₂.sound hm₀) h.along.holds h.depth hcloser
  have hbelow := habove.standing.eq_below_top hdist₂ htakes.top (Prod.ext htakes.depth htakes.resumeAt)
  have heq : rest' :: m₂.session.outer.map Level.blocks = rest :: m₁.session.outer.map Level.blocks := by
    refine placed_inj hbelow ?_
    have := (htakes.depth.symm.trans hdepth₁ : m₂.session.depth = m₁.session.depth)
    rwa [Session.depth_eq, Session.depth_eq, ← List.length_map (f := Level.blocks),
      ← List.length_map (f := Level.blocks)] at this
  obtain ⟨rfl, houter⟩ := List.cons.inj heq
  refine ⟨⟨t', htakes.top, htakes.resumeAt.symm.trans hopener, htakes.active⟩, houter, ?_, ds', htakes.deferred,
    fun e he => ?_⟩
  · have := habove.sites
    rwa [show d.spot.1 = m₂.session.depth from htakes.depth, Nat.sub_self, List.drop_zero] at this
  · -- what other work waits for stands below the try
    obtain ⟨x, hx, hspot⟩ := htakes.spot_below hu₂.mirrors he
    refine (habove.work e (htakes.deferred ▸ List.mem_cons_of_mem _ he)).resolve_right fun hno => ?_
    exact hno x (hbelow ▸ hx) hspot

/-- A section ends only once, where its work is taken up. -/
theorem SectionRuns.eq_of_after (hm₀ : m₀.Starts) (hreach : Reachable g host m₀ m)
    (hruns : SectionRuns g host d m m₁) {n : Nat} (hn : m.after? g host n = some m₁)
    (hearly : ∀ i < n, ∀ m', m.after? g host i = some m' → m'.next? ≠ m₁.next?)
    (hd : ∀ m', m.after? g host (n + 1) = some m' → d ∉ m'.session.deferred) {m' : Moment σ}
    (h : SectionRuns g host d m m') : m' = m₁ := by
  obtain ⟨k, hk, hall⟩ := h.along.after?
  obtain ⟨e, hnext, hcloser⟩ := hruns.closer
  obtain ⟨e', hnext', hcloser'⟩ := h.closer
  rcases Nat.lt_trichotomy k n with hlt | rfl | hgt
  · refine absurd ?_ (hearly k hlt m' hk)
    have hsuite : m'.session.suite = m₁.session.suite :=
      ((hreach.trans h.along.reachable).suite hm₀).trans ((hreach.trans hruns.along.reachable).suite hm₀).symm
    rw [hsuite] at hcloser'
    cases hcloser.unique hcloser'
    exact hnext'.trans hnext.symm
  · exact Option.some.inj (hk.symm.trans hn)
  · obtain ⟨m₂, hm₂, hmem⟩ := hall (n + 1) hgt
    exact absurd hmem (hd m₂ hm₂)

end

end BlockFlow.Flow
