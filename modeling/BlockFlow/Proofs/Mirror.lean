/-
# Deferred work mirrors the stacks

The spot of a try is the depth of its call with its opener, and deferred work has the spot of the try
whose closer takes it up.  `Session.Mirrors` says that the spots of the deferred work, newest first, are
found in this order among those of the settled tries: the tries that take part and owe no cleanup
section.  So the work for the innermost try, if there is any, is the newest, and no work outlives its try.

Moves (`Move.mirrors`) and offers that a try handles (`Offer.mirrors`) keep this as long as no two
constructs of one call share an opener.
-/
import Mathlib.Data.List.Basic
import BlockFlow.Proofs.Layers

namespace BlockFlow.Flow

/-! ## 1. Spots -/

/-- The depth of a call, with the opener of a try that runs in it. -/
abbrev Spot := Nat × Address

/-- The spot of a frame of a call at a depth, if it is a try of a kind. -/
def Frame.spot? (kind : TryFrame → Bool) (depth : Nat) : Frame → Option Spot
  | .guarded t => if kind t then some (depth, t.opener) else none
  | .conditional _ | .loop _ => none

/-- The spots of the tries of a kind among the frames of a call, innermost first. -/
def spotsIn (kind : TryFrame → Bool) (depth : Nat) (fs : List Frame) : List Spot :=
  fs.filterMap (Frame.spot? kind depth)

/-- The spots of the tries of a kind over levels, innermost first. -/
def spotsOf (kind : TryFrame → Bool) : List Level → List Spot
  | [] => []
  | L :: ls => spotsIn kind (ls.length + 1) L.blocks ++ spotsOf kind ls

/-- The spot of deferred work: that of the try whose closer takes it up. -/
def Deferred.spot (d : Deferred) : Spot := (d.depth, d.resumeAt)

section

variable {kind : TryFrame → Bool} {depth : Nat} {f : Frame} {fs gs : List Frame} {t : TryFrame}
  {ls pre : List Level} {x : Spot}

@[simp] theorem spotsIn_nil : spotsIn kind depth [] = [] := rfl

@[simp] theorem spotsIn_append : spotsIn kind depth (fs ++ gs) =
    spotsIn kind depth fs ++ spotsIn kind depth gs := List.filterMap_append

theorem spotsIn_guarded : spotsIn kind depth (.guarded t :: fs) =
    (if kind t then [(depth, t.opener)] else []) ++ spotsIn kind depth fs := by
  unfold spotsIn
  rw [List.filterMap_cons, Frame.spot?]
  by_cases h : kind t <;> simp [h]

/-- Only tries have spots. -/
theorem spotsIn_cons (hf : ∀ t, f ≠ .guarded t) : spotsIn kind depth (f :: fs) = spotsIn kind depth fs := by
  cases f with
  | guarded t => exact absurd rfl (hf t)
  | conditional _ | loop _ => rfl

theorem Frame.spot?_eq_some_iff : f.spot? kind depth = some x ↔
    ∃ t, f = .guarded t ∧ kind t = true ∧ (depth, t.opener) = x := by
  cases f with
  | conditional _ | loop _ => simp [Frame.spot?]
  | guarded t => simp [Frame.spot?]

theorem mem_spotsIn : x ∈ spotsIn kind depth fs ↔
    x.1 = depth ∧ ∃ t, .guarded t ∈ fs ∧ kind t = true ∧ t.opener = x.2 := by
  unfold spotsIn
  simp only [List.mem_filterMap, Frame.spot?_eq_some_iff]
  constructor
  · rintro ⟨_, hf, t, rfl, hkind, rfl⟩
    exact ⟨rfl, t, hf, hkind, rfl⟩
  · rintro ⟨rfl, t, ht, hkind, ho⟩
    exact ⟨_, ht, t, rfl, hkind, Prod.ext rfl ho⟩

theorem spotsIn_eq_nil (h : ∀ t, .guarded t ∈ fs → kind t = false) : spotsIn kind depth fs = [] := by
  refine List.eq_nil_iff_forall_not_mem.2 fun x hx => ?_
  obtain ⟨-, t, ht, hkind, -⟩ := mem_spotsIn.1 hx
  rw [h t ht] at hkind
  cases hkind

/-- No spot is deeper than the calls. -/
theorem depth_le_of_mem_spotsOf (h : x ∈ spotsOf kind ls) : x.1 ≤ ls.length := by
  induction ls with
  | nil => cases h
  | cons L ls ih =>
    rcases List.mem_append.1 h with h | h
    · exact (mem_spotsIn.1 h).1.le
    · exact (ih h).trans (Nat.le_succ _)

/-- The spots of inner levels are deeper than the levels around them. -/
theorem spotsOf_append (kind : TryFrame → Bool) (pre ls : List Level) : ∃ X,
    spotsOf kind (pre ++ ls) = X ++ spotsOf kind ls ∧
      ∀ x ∈ X, ls.length < x.1 ∧ ∃ M ∈ pre, ∃ t, .guarded t ∈ M.blocks ∧ kind t = true := by
  induction pre with
  | nil => exact ⟨[], rfl, by rintro _ ⟨⟩⟩
  | cons L pre ih =>
    obtain ⟨X, hX, hdeep⟩ := ih
    refine ⟨spotsIn kind ((pre ++ ls).length + 1) L.blocks ++ X, ?_, fun x hx => ?_⟩
    · rw [List.cons_append, spotsOf, hX, List.append_assoc]
    · rcases List.mem_append.1 hx with hx | hx
      · obtain ⟨hdepth, t, ht, hkind, -⟩ := mem_spotsIn.1 hx
        refine ⟨?_, L, List.mem_cons_self, t, ht, hkind⟩
        rw [hdepth, List.length_append]
        omega
      · obtain ⟨hlt, M, hM, t, ht⟩ := hdeep x hx
        exact ⟨hlt, M, List.mem_cons_of_mem _ hM, t, ht⟩

/-- The spots around a frame of a level: those of levels and frames inside it come first. -/
theorem spotsOf_split (kind : TryFrame → Bool) (pre post : List Level) {L : Level}
    (hL : L.blocks = fs ++ gs) : ∃ X, spotsOf kind (pre ++ L :: post) =
      X ++ (spotsIn kind (post.length + 1) gs ++ spotsOf kind post) ∧
      ∀ x ∈ X, post.length + 1 < x.1 ∧ (∃ M ∈ pre, ∃ t, .guarded t ∈ M.blocks ∧ kind t = true) ∨
        x ∈ spotsIn kind (post.length + 1) fs := by
  obtain ⟨X, hX, hdeep⟩ := spotsOf_append kind pre (L :: post)
  refine ⟨X ++ spotsIn kind (post.length + 1) fs, ?_, fun x hx => ?_⟩
  · rw [hX, spotsOf, hL, spotsIn_append]
    simp only [List.append_assoc]
  · rcases List.mem_append.1 hx with hx | hx
    · exact .inl (hdeep x hx)
    · exact .inr hx

end

/-! ## 2. Spots of a session -/

/-- A try takes part and owes no cleanup section. -/
def TryFrame.isSettled (suite : Suite) (t : TryFrame) : Bool := t.isActive && !t.owesCleanup suite

theorem TryFrame.isSettled_iff {suite : Suite} {t : TryFrame} :
    t.isSettled suite = true ↔ t.isActive = true ∧ t.owesCleanup suite = false := by
  rw [isSettled, Bool.and_eq_true, Bool.not_eq_true']

theorem TryFrame.isSettled_enterCleanup (suite : Suite) (t : TryFrame) :
    t.enterCleanup.isSettled suite = true := by
  rw [isSettled_iff, owesCleanup]
  exact ⟨rfl, by simp [enterCleanup]⟩

namespace Session

variable (s : Session) (kind : TryFrame → Bool)

/-- The spots of the tries of a kind that are running, innermost first. -/
def spots : List Spot := spotsIn kind s.depth s.blocks ++ spotsOf kind s.outer

theorem spots_eq (r : Address) : s.spots kind = spotsOf kind (s.levels r) := by
  rw [spots, levels, spotsOf, level, depth_eq]

variable {s kind}

/-- The spots of a session whose innermost constructs change. -/
theorem spots_of_blocks {s' : Session} {bs : List Frame} (hb : s'.blocks = bs) (ho : s'.outer = s.outer) :
    s'.spots kind = spotsIn kind s.depth bs ++ spotsOf kind s.outer := by
  rw [spots, hb, ho, depth_eq, depth_eq, ho]

/-- A stack holds a try opened at an address exactly if the try has a spot. -/
theorem any_isTryAt_iff {ls : List Level} {k : Nat} {o : Address} :
    ((ls.map Level.blocks).reverse[k]?.any fun fs => fs.any (Frame.isTryAt o)) = true ↔
      (k + 1, o) ∈ spotsOf (fun _ => true) ls := by
  induction ls with
  | nil => simp [spotsOf]
  | cons L ls ih =>
    rw [List.map_cons, List.reverse_cons, spotsOf, List.mem_append, mem_spotsIn, List.getElem?_append]
    simp only [List.length_reverse, List.length_map, true_and]
    split
    · rename_i hk
      rw [ih, or_iff_right fun h => by omega]
    · rename_i hk
      rw [or_iff_left fun h => hk (show k + 1 ≤ ls.length from depth_le_of_mem_spotsOf h)]
      rcases Nat.eq_or_lt_of_le (not_lt.1 hk) with heq | hlt
      · rw [← heq, Nat.sub_self]
        simp only [List.getElem?_cons_zero, Option.any_some, List.any_eq_true, true_and]
        constructor
        · rintro ⟨f, hf, ho⟩
          cases f with
          | conditional _ | loop _ => cases ho
          | guarded t => exact ⟨t, hf, by simpa [Frame.isTryAt] using ho⟩
        · rintro ⟨t, ht, ho⟩
          exact ⟨.guarded t, ht, by simpa [Frame.isTryAt] using ho⟩
      · rw [List.getElem?_eq_none (by simp; omega)]
        simp only [Option.any_none, Bool.false_eq_true, false_iff]
        rintro ⟨h, -⟩
        omega

/-- The work that is kept is that of the tries that are running. -/
theorem deferred_pruneDeferred (s : Session) : s.pruneDeferred.deferred =
    s.deferred.filter fun d => decide (d.spot ∈ s.spots fun _ => true) := by
  unfold pruneDeferred
  refine List.filter_congr fun d _ => ?_
  rw [Bool.eq_iff_iff, decide_eq_true_iff, s.spots_eq _ default, Deferred.spot]
  unfold stackAt?
  rw [show s.blockStacks = (s.levels default).map Level.blocks from s.blockStacks_eq]
  cases hd : d.depth with
  | zero =>
    simp only [if_true, Option.any_none, Bool.false_eq_true, false_iff]
    intro h
    have hpos {ls : List Level} {x : Spot} (h : x ∈ spotsOf (fun _ => true) ls) : x.1 ≠ 0 := by
      induction ls with
      | nil => cases h
      | cons L ls ih =>
        rcases List.mem_append.1 h with h | h
        · rw [(mem_spotsIn.1 h).1]
          exact Nat.succ_ne_zero _
        · exact ih h
    exact hpos h rfl
  | succ k =>
    rw [if_neg (Nat.succ_ne_zero k), Nat.add_sub_cancel]
    exact any_isTryAt_iff

theorem deferred_forgetDeferred (s : Session) (a : Address) : (s.forgetDeferred a).deferred =
    s.deferred.filter fun d => decide (d.spot ≠ (s.depth, a)) := by
  unfold forgetDeferred
  refine List.filter_congr fun d _ => ?_
  rw [Bool.eq_iff_iff]
  simp only [Bool.or_eq_true, bne_iff_ne, decide_eq_true_eq, Deferred.spot, ne_eq, Prod.mk.injEq, not_and_or]
  exact or_comm

/-! ## 3. The mirror -/

/-- **The deferred work mirrors the stacks**: its spots, newest first, are found in this order among
those of the settled tries. -/
def Mirrors (s : Session) : Prop :=
  (s.deferred.map Deferred.spot).Sublist (s.spots (TryFrame.isSettled s.suite))

/-- No two constructs of one call share an opener. -/
def Distinct (s : Session) : Prop := ∀ L ∈ s.levels default, (L.blocks.map Frame.opener).Nodup

end Session

section

variable {α β : Type} {x : α} {l A B : List α}

/-- A list found in two parts is found in the second if its head is not in the first. -/
theorem sublist_of_head_not_mem (h : (x :: l).Sublist (A ++ B)) (hx : x ∉ A) : (x :: l).Sublist B := by
  induction A with
  | nil => exact h
  | cons a A ih =>
    rw [List.mem_cons, not_or] at hx
    cases h with
    | cons _ h => exact ih h hx.2
    | cons_cons _ h => exact absurd rfl hx.1

/-- What is left of a list found in two parts, if nothing of the first part is. -/
theorem sublist_of_filter {ds : List β} {f : β → α} (h : (ds.map f).Sublist (A ++ B)) (p : α → Bool)
    (hA : ∀ a ∈ A, p a = false) : ((ds.filter fun d => p (f d)).map f).Sublist B := by
  have hmap : (ds.filter fun d => p (f d)).map f = (ds.map f).filter p := List.filter_map.symm
  have hnone : A.filter p = [] := List.filter_eq_nil_iff.2 fun a ha => by simp [hA a ha]
  rw [hmap]
  refine (h.filter p).trans ?_
  rw [List.filter_append, hnone, List.nil_append]
  exact List.filter_sublist

end

section

variable {s s' : Session} {a : Address}

/-- Constructs change without a settled try ceasing to be one. -/
theorem Session.Mirrors.of_spots (h : s.Mirrors) (hsuite : s'.suite = s.suite)
    (hd : s'.deferred.map Deferred.spot = s.deferred.map Deferred.spot)
    (hspots : (s.spots (TryFrame.isSettled s.suite)).Sublist (s'.spots (TryFrame.isSettled s.suite))) :
    s'.Mirrors := by
  unfold Session.Mirrors
  rw [hsuite, hd]
  exact List.Sublist.trans h hspots

/-- The innermost constructs change without a settled try ceasing to be one. -/
theorem Session.Mirrors.of_blocks (h : s.Mirrors) (hsuite : s'.suite = s.suite)
    (hd : s'.deferred = s.deferred) (ho : s'.outer = s.outer) {bs : List Frame} (hb : s'.blocks = bs)
    (hspots : (spotsIn (TryFrame.isSettled s.suite) s.depth s.blocks).Sublist
      (spotsIn (TryFrame.isSettled s.suite) s.depth bs)) : s'.Mirrors := by
  refine h.of_spots hsuite (by rw [hd]) ?_
  rw [Session.spots_of_blocks hb ho]
  exact hspots.append_right _

/-- Constructs are left for which the newest work does not wait. -/
theorem Session.Mirrors.of_left (h : s.Mirrors) (hsuite : s'.suite = s.suite)
    (hd : s'.deferred = s.deferred) (ho : s'.outer = s.outer) (left : List Frame) {bs bs' : List Frame}
    (hs : s.blocks = left ++ bs) (hb : s'.blocks = bs')
    (hbs : spotsIn (TryFrame.isSettled s.suite) s.depth bs' =
      spotsIn (TryFrame.isSettled s.suite) s.depth bs)
    (hleft : ∀ d ds, s.deferred = d :: ds →
      d.spot ∉ spotsIn (TryFrame.isSettled s.suite) s.depth left) : s'.Mirrors := by
  unfold Session.Mirrors at h ⊢
  rw [hsuite, hd, Session.spots_of_blocks hb ho, hbs]
  rw [Session.spots, hs, spotsIn_append, List.append_assoc] at h
  cases hds : s.deferred with
  | nil => exact List.nil_sublist _
  | cons d ds =>
    rw [hds, List.map_cons] at h
    rw [List.map_cons]
    exact sublist_of_head_not_mem h (hleft d ds hds)

/-- The innermost try is left, and the work for it was taken up if there was any. -/
theorem Session.Mirrors.tail (h : s.Mirrors) {t : TryFrame} {rest : List Frame} {d : Deferred}
    {ds : List Deferred} (hs : s.blocks = .guarded t :: rest) (hd : s.deferred = d :: ds) :
    ((s.leaveTry t rest).withDeferred ds).Mirrors := by
  have hsuite : ((s.leaveTry t rest).withDeferred ds).suite = s.suite := s.suite_setBlocks _
  have hb : ((s.leaveTry t rest).withDeferred ds).blocks = rest := s.blocks_setBlocks _
  have ho : ((s.leaveTry t rest).withDeferred ds).outer = s.outer := s.outer_setBlocks _
  unfold Session.Mirrors at h ⊢
  rw [hsuite, Session.spots_of_blocks hb ho, Session.deferred_withDeferred]
  rw [Session.spots, hs, hd, spotsIn_guarded, List.append_assoc, List.map_cons] at h
  split at h
  · exact List.Sublist.tail h
  · exact (List.sublist_cons_self _ _).trans h

/-- The way to a loop does not lead out of a try that stands inside the loop. -/
theorem not_isTryAt_of_leavesTry {o : Address} {fs : List Frame} (h : Session.leavesTry o fs = false) :
    ∀ f ∈ fs.takeWhile fun f => !f.isLoop, f.isTryAt o = false := by
  induction fs with
  | nil => rintro _ ⟨⟩
  | cons f fs ih =>
    have hstep (hf : f.isLoop = false) (h : (f.isTryAt o || Session.leavesTry o fs) = false) :
        ∀ g ∈ (f :: fs).takeWhile fun f => !f.isLoop, g.isTryAt o = false := by
      rw [Bool.or_eq_false_iff] at h
      intro g hg
      rw [List.takeWhile_cons_of_pos (by simp [hf])] at hg
      rcases List.mem_cons.1 hg with rfl | hg
      · exact h.1
      · exact ih h.2 g hg
    cases f with
    | loop l =>
      intro g hg
      rw [List.takeWhile_cons_of_neg (by simp [Frame.isLoop])] at hg
      cases hg
    | conditional c => exact hstep rfl h
    | guarded t => exact hstep rfl h

/-- A way to a loop does not lead out of a try that is not inside the loop. -/
theorem leavesTry_eq_false {o : Address} {fs : List Frame} (hloop : ∃ f ∈ fs, f.isLoop)
    (h : ∀ f ∈ fs.takeWhile fun f => !f.isLoop, f.isTryAt o = false) : Session.leavesTry o fs = false := by
  induction fs with
  | nil =>
    obtain ⟨f, hf, -⟩ := hloop
    cases hf
  | cons f fs ih =>
    have hstep (hf : f.isLoop = false) : (f.isTryAt o || Session.leavesTry o fs) = false := by
      rw [List.takeWhile_cons_of_pos (by simp [hf])] at h
      obtain ⟨hhead, htail⟩ := List.forall_mem_cons.1 h
      rw [hhead, Bool.false_or]
      refine ih ?_ htail
      obtain ⟨l, hl, hll⟩ := hloop
      rcases List.mem_cons.1 hl with rfl | hl
      · cases hf.symm.trans hll
      · exact ⟨l, hl, hll⟩
    cases f with
    | loop l => rfl
    | conditional _ => exact hstep rfl
    | guarded _ => exact hstep rfl

/-- The newest work does not wait for a construct inside the loop that a transfer goes to. -/
theorem Session.Stays.not_mem_inside (h : s.Stays .loop) {d : Deferred} {ds : List Deferred}
    (hd : s.deferred = d :: ds) (kind : TryFrame → Bool) :
    d.spot ∉ spotsIn kind s.depth (s.blocks.takeWhile fun f => !f.isLoop) := by
  intro hmem
  obtain ⟨hdepth, t, ht, -, ho⟩ := mem_spotsIn.1 hmem
  have hstay := h d ds hd
  rw [Session.leavesCleanup, if_neg (not_not.2 (show s.depth = d.depth from hdepth.symm)),
    if_pos rfl] at hstay
  have := not_isTryAt_of_leavesTry hstay _ ht
  rw [Frame.isTryAt, show t.opener = d.resumeAt from ho, beq_self_eq_true] at this
  cases this

/-- The spots of an innermost try and of what is around it. -/
theorem Session.spots_cons {t : TryFrame} {rest : List Frame} (hs : s.blocks = .guarded t :: rest)
    (kind : TryFrame → Bool) : s.spots kind = (if kind t then [(s.depth, t.opener)] else []) ++
      (spotsIn kind s.depth rest ++ spotsOf kind s.outer) := by
  rw [Session.spots, hs, spotsIn_guarded, List.append_assoc]

/-- Nothing around a try has the spot of the try. -/
theorem not_mem_spots_around {t : TryFrame} {rest : List Frame} (post : List Level)
    (hrest : t.opener ∉ rest.map Frame.opener) (kind : TryFrame → Bool) :
    (post.length + 1, t.opener) ∉ spotsIn kind (post.length + 1) rest ++ spotsOf kind post := by
  intro hmem
  rcases List.mem_append.1 hmem with hmem | hmem
  · obtain ⟨-, t', ht', -, ho⟩ := mem_spotsIn.1 hmem
    have := List.mem_map_of_mem (f := Frame.opener) ht'
    rw [show Frame.opener (.guarded t') = t.opener from ho] at this
    exact hrest this
  · exact absurd (depth_le_of_mem_spotsOf hmem) (by simp)

theorem Session.Distinct.tail (h : s.Distinct) {f : Frame} {rest : List Frame} (hs : s.blocks = f :: rest)
    (hb : s'.blocks = rest) (ho : s'.outer = s.outer) : s'.Distinct := by
  intro L hL
  rw [Session.levels, ho] at hL
  rcases List.mem_cons.1 hL with rfl | hL
  · have := h _ List.mem_cons_self
    change (s.blocks.map Frame.opener).Nodup at this
    rw [hs, List.map_cons, List.nodup_cons] at this
    change (s'.blocks.map Frame.opener).Nodup
    rw [hb]
    exact this.2
  · exact h L (List.mem_cons_of_mem _ hL)

/-- The work of the innermost call waits for tries that are running in it. -/
theorem Session.Mirrors.exists_try (h : s.Mirrors) {d : Deferred} (hd : d ∈ s.deferred)
    (hdepth : d.depth = s.depth) :
    ∃ t, .guarded t ∈ s.blocks ∧ t.opener = d.resumeAt ∧ t.isSettled s.suite = true := by
  have hmem : d.spot ∈ s.spots (TryFrame.isSettled s.suite) :=
    h.subset (List.mem_map_of_mem (f := Deferred.spot) hd)
  rcases List.mem_append.1 hmem with hmem | hmem
  · obtain ⟨-, t, ht, hkind, ho⟩ := mem_spotsIn.1 hmem
    exact ⟨t, ht, ho, hkind⟩
  · have := depth_le_of_mem_spotsOf hmem
    rw [show d.spot.1 = s.depth from hdepth, Session.depth_eq] at this
    omega

/-- Once the innermost try was left no try has its spot. -/
theorem Session.Distinct.spot_not_mem (h : s.Distinct) {t : TryFrame} {rest : List Frame}
    (hs : s.blocks = .guarded t :: rest) (ds : List Deferred) (kind : TryFrame → Bool) :
    (s.depth, t.opener) ∉ ((s.leaveTry t rest).withDeferred ds).spots kind := by
  have hnodup : (s.blocks.map Frame.opener).Nodup := h _ List.mem_cons_self
  rw [hs, List.map_cons, List.nodup_cons] at hnodup
  have hspots : ((s.leaveTry t rest).withDeferred ds).spots kind =
      spotsIn kind s.depth rest ++ spotsOf kind s.outer :=
    Session.spots_of_blocks (s.blocks_setBlocks rest) (s.outer_setBlocks rest)
  rw [hspots, s.depth_eq]
  exact not_mem_spots_around s.outer hnodup.1 kind

/-- **The work for the innermost try is the newest.** -/
theorem Session.Mirrors.head (h : s.Mirrors) (hd : s.Distinct) {t : TryFrame} {rest : List Frame}
    (hs : s.blocks = .guarded t :: rest) {d : Deferred} (hmem : d ∈ s.deferred)
    (hspot : d.spot = (s.depth, t.opener)) : ∃ ds, s.deferred = d :: ds := by
  cases hds : s.deferred with
  | nil =>
    rw [hds] at hmem
    cases hmem
  | cons e es =>
    rw [hds] at hmem
    rcases List.mem_cons.1 hmem with rfl | hmem
    · exact ⟨es, rfl⟩
    · have hin := (h.tail hs hds).subset (List.mem_map_of_mem (f := Deferred.spot) hmem)
      rw [hspot] at hin
      exact absurd hin (hd.spot_not_mem hs es _)

/-! ## 4. Moves keep the mirror -/

/-- The deferred work of a session that waits for a cleanup section. -/
theorem Suspends.deferred {origin : Address} {goal : Goal} (m : Suspends origin goal s s') :
    ∃ t rest, s'.blocks = .guarded t :: rest ∧
      s'.deferred = ⟨.transfer origin goal, t.opener, s'.depth⟩ ::
        s.deferred.filter fun d => decide (d.spot ∈ s'.spots fun _ => true) := by
  obtain ⟨clean, blocks, -, -⟩ := m
  rename_i k n t rest p v
  have hk : s.Kept (((s.abortCalls k).drop n).setBlocks (.guarded t.enterCleanup :: rest)) :=
    ((s.kept_abortCalls k).trans (Session.kept_drop _ n)).trans (Session.kept_setBlocks _ _)
  refine ⟨t.enterCleanup, rest, Session.blocks_setBlocks _ _, ?_⟩
  rw [← hk.deferred]
  exact congrArg _ (Session.deferred_pruneDeferred _)

/-- A transfer waits for a try that was running. -/
theorem Suspends.spot_mem {origin : Address} {goal : Goal} (m : Suspends origin goal s s') {t : TryFrame}
    {rest : List Frame} (hb : s'.blocks = .guarded t :: rest) :
    (s'.depth, t.opener) ∈ s.spots fun _ => true := by
  obtain ⟨pre, L, post, above, u, rest', -, hlev, hL, -, -, -, hlev', -⟩ := m.levels default
  obtain ⟨hl, ho⟩ := List.cons.inj (hlev' default)
  cases hb.symm.trans (congrArg Level.blocks hl)
  obtain ⟨X, hX, -⟩ := spotsOf_split (fun _ => true) pre post hL
  rw [s.spots_eq _ default, hlev, hX, spotsIn_guarded, s'.depth_eq, show s'.outer = post from ho]
  simp [TryFrame.enterCleanup]

/-- Work that is deferred to a try which owed its cleanup section is the newest, and what is inside the
try has no work left. -/
theorem Suspends.mirrors {origin : Address} {goal : Goal} (m : Suspends origin goal s s')
    (h : s.Mirrors) (hd : s.Distinct) : s'.Mirrors := by
  obtain ⟨pre, L, post, above, t, rest, -, hlev, hb, howes, -, -, hlev', -⟩ := m.levels default
  obtain ⟨t', rest', hs', hdef⟩ := m.deferred
  obtain ⟨hl, ho⟩ := List.cons.inj (hlev' default)
  have hblocks : s'.blocks = .guarded t.enterCleanup :: rest := congrArg Level.blocks hl
  cases hs'.symm.trans hblocks
  have hdepth : s'.depth = post.length + 1 := by
    rw [Session.depth_eq]
    exact congrArg (List.length · + 1) ho
  have hspots (kind : TryFrame → Bool) (hkind : kind t.enterCleanup = true) : s'.spots kind =
      (post.length + 1, t.opener) :: (spotsIn kind (post.length + 1) rest ++ spotsOf kind post) := by
    rw [Session.spots_cons hblocks, hkind, if_pos rfl, hdepth, show s'.outer = post from ho]
    rfl
  unfold Session.Mirrors at h ⊢
  rw [hdef, List.map_cons, m.kept.1, hspots _ (TryFrame.isSettled_enterCleanup _ _), Deferred.spot, hdepth]
  refine List.Sublist.cons_cons _ ?_
  rw [s.spots_eq _ default, hlev] at h
  obtain ⟨X, hX, hinside⟩ := spotsOf_split (TryFrame.isSettled s.suite) pre post hb
  rw [hX, spotsIn_guarded, if_neg (by simp [TryFrame.isSettled, howes]), List.nil_append] at h
  refine sublist_of_filter h (fun x => decide (x ∈ s'.spots fun _ => true)) fun x hx => ?_
  -- what is left of the level has neither the depth nor the openers of what was inside
  rw [decide_eq_false_iff_not, hspots _ rfl]
  intro hmem
  have hle : x.1 ≤ post.length + 1 := by
    rcases List.mem_cons.1 hmem with rfl | hmem
    · exact le_rfl
    · rcases List.mem_append.1 hmem with hmem | hmem
      · exact (mem_spotsIn.1 hmem).1.le
      · exact (depth_le_of_mem_spotsOf hmem).trans (Nat.le_succ _)
  rcases hinside x hx with ⟨hlt, -⟩ | habove
  · exact absurd hlt (not_lt.2 hle)
  · obtain ⟨hxd, u, hu, -, huo⟩ := mem_spotsIn.1 habove
    have hnodup : (L.blocks.map Frame.opener).Nodup := hd L (by rw [hlev]; simp)
    rw [hb, List.map_append, List.nodup_append] at hnodup
    have hne := hnodup.2.2 u.opener (List.mem_map_of_mem (f := Frame.opener) hu)
    refine hne x.2 ?_ huo
    rcases List.mem_cons.1 hmem with rfl | hmem
    · exact List.mem_cons_self
    · rcases List.mem_append.1 hmem with hmem | hmem
      · obtain ⟨-, t'', ht'', -, ho⟩ := mem_spotsIn.1 hmem
        exact List.mem_cons_of_mem _ (ho ▸ List.mem_map_of_mem (f := Frame.opener) ht'')
      · exact absurd (depth_le_of_mem_spotsOf hmem) (by omega)

/-- **Moves keep the mirror.** -/
theorem Move.mirrors {x : Except Fault Unit} (m : Move a s x s') (h : s.Mirrors) (hd : s.Distinct) :
    s'.Mirrors := by
  have hsame {bs : List Frame} (hbs : (spotsIn (TryFrame.isSettled s.suite) s.depth s.blocks).Sublist
      (spotsIn (TryFrame.isSettled s.suite) s.depth bs)) (p? : Option Address) (v : Namespace) :
      ((s.setBlocks bs).proceed p? v).Mirrors :=
    h.of_blocks (s.suite_setBlocks _) (s.deferred_setBlocks _) (s.outer_setBlocks _) (s.blocks_setBlocks _) hbs
  have hinside {l : LoopFrame} {rest : List Frame} (hst : s.Stays .loop)
      (htop : s.blocks.drop s.insideLoop = .loop l :: rest) (l' : LoopFrame) (p? : Option Address)
      (v : Namespace) : (((s.drop s.insideLoop).setBlocks (.loop l' :: rest)).proceed p? v).Mirrors := by
    have hk := (s.kept_drop s.insideLoop).trans (Session.kept_setBlocks _ (.loop l' :: rest))
    have hsplit : s.blocks = (s.blocks.takeWhile fun f => !f.isLoop) ++ .loop l :: rest := by
      rw [s.takeWhile_insideLoop]
      exact Session.take_insideLoop htop
    refine h.of_left hk.suite hk.deferred ((Session.outer_setBlocks _ _).trans (s.outer_drop _)) _ hsplit
      (Session.blocks_setBlocks _ _) ?_ fun d ds hds => hst.not_mem_inside hds _
    rw [spotsIn_cons (by rintro _ ⟨⟩), spotsIn_cons (by rintro _ ⟨⟩)]
  cases m with
  | stay | skipHandler | skipFunction | exit => exact h
  | @jump goal v unlinked keyword accepted =>
    obtain ⟨left, hfs, hcond⟩ := exists_keepSpanning s.suite goal s.blocks
    refine hsame ?_ _ _
    conv_lhs => rw [hfs]
    rw [spotsIn_append, spotsIn_eq_nil fun t ht => ?_]
    · exact List.Sublist.refl _
    · obtain ⟨c, hc⟩ := hcond _ ht
      cases hc
  | @enter f _ _ _ fits opener noTry => exact hsame ((spotsIn_cons noTry).symm ▸ List.Sublist.refl _) _ _
  | @enterTry t v fits opener phase caught cleaned =>
    refine h.of_blocks (s.suite_setBlocks _) (s.deferred_setBlocks _) (s.outer_setBlocks _)
      (s.blocks_setBlocks _) ?_
    rw [spotsIn_guarded]
    exact List.sublist_append_right _ _
  | branch top | repeat_ top | again top =>
    refine hsame ?_ _ _
    rw [top, spotsIn_cons (by rintro _ ⟨⟩), spotsIn_cons (by rintro _ ⟨⟩)]
  | @leave f rest v top noTry closer =>
    refine h.of_blocks (s.kept_drop 1).suite (s.kept_drop 1).deferred (s.outer_drop 1)
      (show (s.drop 1).blocks = rest by rw [Session.blocks_drop, top]; rfl) ?_
    rw [top, spotsIn_cons noTry]
  | @reachFinally t rest v top at_ active =>
    refine hsame ?_ _ _
    rw [top, spotsIn_guarded, spotsIn_guarded, TryFrame.isSettled_enterCleanup, if_pos rfl]
    refine List.Sublist.append_right ?_ _
    split
    · exact List.Sublist.refl _
    · exact List.nil_sublist _
  | @closeTry t rest v top closer quiet =>
    refine h.of_left (s.suite_setBlocks _) (s.deferred_setBlocks _) (s.outer_setBlocks _) [.guarded t] top
      (s.blocks_setBlocks _) rfl fun d ds hds hmem => ?_
    obtain ⟨hdepth, t', ht', hkind, ho⟩ := mem_spotsIn.1 hmem
    obtain rfl := Frame.guarded.inj (List.mem_singleton.1 ht')
    exact quiet (TryFrame.isSettled_iff.1 hkind).1 d ds hds ⟨ho.symm, hdepth⟩
  | rethrow top closer active deferred => exact h.tail top deferred
  | resume resumes => exact h.tail resumes.top resumes.deferred
  | @resuspend t rest d ds _ _ _ top closer active deferred resumeAt depth work suspends =>
    exact suspends.mirrors (h.tail top deferred) (hd.tail top (s.blocks_setBlocks _) (s.outer_setBlocks _))
  | @replace d ds goal v transfers deferred leaves =>
    refine h.of_spots rfl ?_ (List.Sublist.refl _)
    rw [deferred]
    rfl
  | suspend transfers stays suspends => exact suspends.mirrors h hd
  | breakLoop transfers stays clear top closer => exact hinside stays top _ _ _
  | continueLoop transfers stays clear top => exact hinside stays top _ _ _
  | @adrift v transfers stays clear noLoop =>
    refine h.of_left (s.kept_drop _).suite (s.kept_drop _).deferred (s.outer_drop _) s.blocks
      (List.append_nil _).symm
      (show (s.drop s.blocks.length).blocks = [] by rw [Session.blocks_drop, List.drop_length]) rfl
      fun d ds hds => ?_
    have hall : (s.blocks.takeWhile fun f => !f.isLoop) = s.blocks :=
      List.takeWhile_eq_self_iff.2 fun f hf => by simp [noLoop f hf]
    have := stays.not_mem_inside hds (TryFrame.isSettled s.suite)
    rwa [hall] at this
  | @returnFrom c calls v transfers stays clear call =>
    have hk := Session.kept_markReturning call
    refine h.of_left hk.suite hk.deferred (Session.outer_markReturning call) s.blocks
      (List.append_nil _).symm (Session.blocks_markReturning call) rfl fun d ds hds hmem => ?_
    exact stays.depth_ne hds (mem_spotsIn.1 hmem).1.symm
  | @enterCall callee args v keyword opens names =>
    refine h.of_spots rfl rfl ?_
    change (s.spots _).Sublist ([] ++ spotsOf _ ((s.withVars v).enterCall callee a args).outer)
    rw [Session.outer_enterCall, s.spots_eq _ a]
    exact List.Sublist.refl _

/-! ## 5. Offers and steps keep the mirror -/

/-- Work is forgotten for the try that meets with a fault, inside which nothing takes part. -/
theorem Session.Mirrors.relieve (h : s.Mirrors) {k n : Nat} {t : TryFrame} {rest : List Frame}
    (hr : s.Reaches k n t rest) : ∃ post, ((s.abortCalls k).drop n).depth = post.length + 1 ∧
      ((s.abortCalls k).drop n).outer = post ∧
      ((((s.abortCalls k).drop n).relieve t.opener).deferred.map Deferred.spot).Sublist
        (spotsIn (TryFrame.isSettled s.suite) (post.length + 1) rest ++
          spotsOf (TryFrame.isSettled s.suite) post) := by
  obtain ⟨pre, L, post, above, hlev, rfl, hb, rfl, habove, hpre⟩ := hr.levels default
  have hk := hr.kept
  have ho : ((s.abortCalls pre.length).drop above.length).outer = post :=
    (List.cons.inj (Session.levels_uncover hlev hb default)).2
  have hdepth : ((s.abortCalls pre.length).drop above.length).depth = post.length + 1 := by
    rw [Session.depth_eq, ho]
  refine ⟨post, hdepth, ho, ?_⟩
  have hsub : (((s.abortCalls pre.length).drop above.length).relieve t.opener).deferred.Sublist
      (s.deferred.filter fun d => decide (d.spot ≠ (post.length + 1, t.opener))) := by
    rw [Session.relieve, Session.deferred_forgetDeferred, ← hk.deferred]
    rw [show ((s.abortCalls pre.length).drop above.length).pruneDeferred.depth = post.length + 1 from hdepth]
    exact (Session.pruneDeferred_sublist _).filter _
  refine (hsub.map _).trans ?_
  unfold Session.Mirrors at h
  obtain ⟨X, hX, hinside⟩ := spotsOf_split (TryFrame.isSettled s.suite) pre post hb
  have hnil : X = [] := by
    refine List.eq_nil_iff_forall_not_mem.2 fun x hx => ?_
    have hidle {fs : List Frame} {u : TryFrame} (hfs : ∀ f ∈ fs, f.isActiveTry = false)
        (hu : .guarded u ∈ fs) (hkind : u.isSettled s.suite = true) : False := by
      have := hfs _ hu
      rw [show Frame.isActiveTry (.guarded u) = true from (TryFrame.isSettled_iff.1 hkind).1] at this
      cases this
    rcases hinside x hx with ⟨-, M, hM, u, hu, hkind⟩ | hx
    · exact hidle (hpre M hM) hu hkind
    · obtain ⟨-, u, hu, hkind, -⟩ := mem_spotsIn.1 hx
      exact hidle habove hu hkind
  rw [s.spots_eq _ default, hlev, hX, hnil, List.nil_append, spotsIn_guarded, List.append_assoc] at h
  refine sublist_of_filter h (fun x => decide (x ≠ (post.length + 1, t.opener))) fun x hx => ?_
  split at hx
  · rw [List.mem_singleton.1 hx]
    simp
  · cases hx

/-- **Faults that a try handles** keep the mirror. -/
theorem Offer.mirrors {g : Setting} {f : Fault} (o : Offer g f s .handled s') (h : s.Mirrors) :
    s'.Mirrors := by
  -- the innermost try is settled if the fault waits for it
  have hmain {k n : Nat} {t : TryFrame} {rest : List Frame} (hr : s.Reaches k n t rest) (t' : TryFrame)
      (hopener : t'.opener = t.opener) {ds : List Deferred}
      (hds : ds = (((s.abortCalls k).drop n).relieve t.opener).deferred ∨ t'.isSettled s.suite = true ∧
        ds = ⟨.fault f, t.opener, ((s.abortCalls k).drop n).depth⟩ ::
          (((s.abortCalls k).drop n).relieve t.opener).deferred) (p? : Option Address) (v : Namespace) :
      (((((s.abortCalls k).drop n).withDeferred ds).setBlocks (.guarded t' :: rest)).proceed p? v).Mirrors := by
    obtain ⟨post, hdepth, ho, hsub⟩ := h.relieve hr
    generalize hu : (s.abortCalls k).drop n = u at hdepth ho hsub hds
    have hsuite : u.suite = s.suite := hu ▸ hr.kept.suite
    unfold Session.Mirrors
    rw [show (((u.withDeferred ds).setBlocks (.guarded t' :: rest)).proceed p? v).suite = s.suite from
        (Session.suite_setBlocks _ _).trans hsuite,
      Session.spots_cons (s := ((u.withDeferred ds).setBlocks (.guarded t' :: rest)).proceed p? v)
        (Session.blocks_setBlocks _ _),
      show (((u.withDeferred ds).setBlocks (.guarded t' :: rest)).proceed p? v).depth = post.length + 1 from
        (Session.depth_setBlocks _ _).trans hdepth,
      show (((u.withDeferred ds).setBlocks (.guarded t' :: rest)).proceed p? v).outer = post from
        (Session.outer_setBlocks _ _).trans ho,
      show (((u.withDeferred ds).setBlocks (.guarded t' :: rest)).proceed p? v).deferred = ds from
        Session.deferred_setBlocks _ _]
    rcases hds with rfl | ⟨hkind, rfl⟩
    · exact hsub.trans (List.sublist_append_right _ _)
    · rw [if_pos hkind, hopener, List.map_cons, Deferred.spot, hdepth]
      exact hsub.cons_cons _
  cases o with
  | @caught k n t rest p v catchable reaches catches message =>
    exact hmain reaches t.enterHandler rfl (.inl rfl) _ _
  | @cleaned k n t rest p v catchable reaches uncaught section_ uncleaned =>
    exact hmain reaches t.enterCleanup rfl (.inr ⟨TryFrame.isSettled_enterCleanup _ _, rfl⟩) _ _
  | @passed k n t rest e v catchable reaches uncaught done nesting closer =>
    refine hmain reaches t rfl (.inr ⟨TryFrame.isSettled_iff.2 ⟨reaches.active, ?_⟩, rfl⟩) _ _
    refine Bool.eq_false_iff.2 fun ho => ?_
    obtain ⟨-, hcl, p, hp⟩ := TryFrame.owesCleanup_iff.1 ho
    rcases done with hnone | hdone
    · cases hp.symm.trans hnone
    · cases hdone.symm.trans hcl

/-- **Commands keep the mirror.** -/
theorem Step.mirrors {g : Setting} {x : StepResult} (h : Step g a s x s') (hx : ∀ f, x ≠ .unhandled f)
    (hs : s.Sound a) (hm : s.Mirrors) (hd : s.Distinct) : s'.Mirrors := by
  cases h with
  | @finish c calls v call returning =>
    obtain ⟨L, post, ho, rfl⟩ := s.place_of_returning hs call returning
    obtain ⟨hblocks, -⟩ := hs.returning c calls call returning
    refine hm.of_spots s.kept_abortCall.suite (by rw [Session.deferred_withVars, s.kept_abortCall.deferred]) ?_
    rw [Session.spots, hblocks, ho]
    have := (s.abortCall.withVars v).spots_eq (TryFrame.isSettled s.suite) L.place
    rw [this, show (s.abortCall.withVars v).levels L.place = L :: post from s.levels_abortCall ho L.place]
    exact List.Sublist.refl _
  | move ready move => exact move.mirrors hm hd
  | handled ready move same offer => exact offer.mirrors (move.mirrors hm hd)
  | unhandled => exact absurd rfl (hx _)

end

end BlockFlow.Flow
