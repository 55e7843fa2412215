/-
# Inside a cleanup section

The try whose cleanup section a run is in, whatever stands below the try and however the run came there.  An
`Anchor` is such a try as its section begins, with the fault that waits for it and with what is below it.
`Session.Anchored` says of a session inside the section that the constructs above the ground of the anchor
enclose the run, and that the work before the fault waits for cleanup sections that are running above the anchor.

Nothing is said of what is below the ground.  A construct there may have the spot of one above it, and work that
waits there need not mirror the stacks.
-/
import BlockFlow.Proofs.Recounts

namespace BlockFlow.Flow

/-! ## 1. Frames over a ground -/

/-- The fence along closers, without a zone for the function that was called. -/
def closing (suite : Suite) : Fence where
  bound := (enclosing suite).bound
  zone _ _ := True

section

variable {suite : Suite} {F : Fence} {G : Ground} {ls : List Level} {c : Option Address} {fs : List Frame}
  {r : Address} {upper : List (Nat × Frame)}

theorem closing_fair (hn : suite.Nested) : (closing suite).Fair suite where
  nested := hn
  part := (enclosing_fair hn).part
  inner _ _ _ _ := trivial
  after _ _ _ := trivial
  next _ _ := trivial
  jump _ _ _ := trivial
  entry _ := trivial

/-- Frames that hold an address along their closers do so outside of every function. -/
theorem Fence.Holds.of_closing (h : (closing suite).Holds c fs r) : (enclosing suite).Holds none fs r := by
  induction fs generalizing r with
  | nil => exact fun _ hk => nomatch hk
  | cons f fs ih => exact ⟨h.1, fun hf => ih (h.2.1 hf), ih h.2.2⟩

/-- The level that the ground is part of, with the levels over it. -/
theorem Laid.exists_floor (h : Laid F G ls) : ∃ up fs r c, ls = up ++ ⟨fs ++ G.rest, r, c⟩ :: G.outer ∧
    F.Holds c fs r ∧ ∀ L ∈ up, F.Holds L.callee L.blocks L.place := by
  induction h with
  | @floor fs r c holds => exact ⟨[], fs, r, c, rfl, holds, nofun⟩
  | @call L ls holds below ih =>
    obtain ⟨up, fs, r, c, rfl, hfs, hup⟩ := ih
    exact ⟨L :: up, fs, r, c, rfl, hfs, List.forall_mem_cons.2 ⟨holds, hup⟩⟩

/-- The frames below the anchor of a ground. -/
def Ground.below (G : Ground) : List (Nat × Frame) := placed (G.rest :: G.outer.map Level.blocks)

/-- The frames over a ground are those of the levels cut off at it. -/
theorem placed_append_below (up : List (List Frame)) (fs : List Frame) (G : Ground) :
    placed (up ++ (fs ++ G.rest) :: G.outer.map Level.blocks) =
      placed (up ++ fs :: G.outer.map fun _ => []) ++ G.below := by
  have hempty : placed (G.outer.map fun _ => []) = [] := by
    induction G.outer with
    | nil => rfl
    | cons L ls ih => exact ih
  induction up with
  | nil =>
    have hfs : placed (fs :: G.outer.map fun _ => []) = fs.map fun f => (G.outer.length + 1, f) := by
      rw [placed, hempty, List.append_nil, List.length_map]
    rw [List.nil_append, List.nil_append, placed_cons_append, hfs, List.length_map]
    rfl
  | cons gs up ih =>
    rw [List.cons_append, List.cons_append, placed, placed, ih, List.append_assoc]
    simp only [List.length_append, List.length_cons, List.length_map]

/-- **Frames over a ground have spots of their own.** -/
theorem Laid.nodup (h : Laid (closing suite) G ls) (hn : suite.Nested)
    (hfits : ∀ L ∈ ls, ∀ f ∈ L.blocks, f.Fits suite) (hls : placed (ls.map Level.blocks) = upper ++ G.below) :
    (upper.map fun x => (x.1, x.2.opener)).Nodup := by
  obtain ⟨up, fs, r, c, rfl, hholds, hup⟩ := h.exists_floor
  rw [List.map_append, List.map_cons, placed_append_below] at hls
  rw [← List.append_cancel_right hls]
  have hfloor := hfits _ (List.mem_append_right _ List.mem_cons_self)
  refine nodup_placed fun gs hgs => ?_
  rcases List.mem_append.1 hgs with hgs | hgs
  · obtain ⟨L, hL, rfl⟩ := List.mem_map.1 hgs
    exact (hup L hL).of_closing.nodup hn (hfits L (List.mem_append_left _ hL))
  · rcases List.mem_cons.1 hgs with rfl | hgs
    · exact hholds.of_closing.nodup hn fun f hf => hfloor f (List.mem_append_left _ hf)
    · obtain ⟨-, -, rfl⟩ := List.mem_map.1 hgs
      exact List.nodup_nil

end

/-! ## 2. Sections that are running -/

/-- The try is in its cleanup section. -/
def TryFrame.inSection (t : TryFrame) : Bool := t.isActive && t.cleaned

/-- The spots of the tries among frames that are in their cleanup sections. -/
def sectionSpots (xs : List (Nat × Frame)) : List Spot := xs.filterMap fun x => x.2.spot? TryFrame.inSection x.1

/-- **A command leaves no cleanup section that work waits for**: the section runs on, with the same constructs below
its try, unless the command is the closer of the try and nothing is running inside it. -/
def Session.KeepsSections (s : Session) (a : Address) (s' : Session) : Prop :=
  ∀ t rest post, s.Bears (.guarded t) rest post → t.inSection →
    (∃ d ∈ s.deferred, d.spot = (post.length + 1, t.opener)) → (∃ t', s'.Bears (.guarded t') rest post) ∨
      s.blockStacks = (.guarded t :: rest) :: post ∧ s.suite.Construct t.opener a

section

variable {xs ys : List (Nat × Frame)} {n : Nat} {t t' : TryFrame} {y : Spot} {s s' : Session} {a : Address}

@[simp] theorem sectionSpots_append : sectionSpots (xs ++ ys) = sectionSpots xs ++ sectionSpots ys :=
  List.filterMap_append

theorem sublist_sectionSpots_cons {x : Nat × Frame} : (sectionSpots xs).Sublist (sectionSpots (x :: xs)) := by
  unfold sectionSpots
  rw [List.filterMap_cons]
  split
  · exact List.Sublist.refl _
  · exact List.sublist_cons_self _ _

/-- The spots of sections but the first one, if it is that of the innermost frame. -/
theorem sublist_of_cons_sections {x : Nat × Frame} {ys : List Spot}
    (h : (y :: ys).Sublist (sectionSpots (x :: xs))) : ys.Sublist (sectionSpots xs) := by
  unfold sectionSpots at h
  rw [List.filterMap_cons] at h
  split at h
  · exact (List.sublist_cons_self _ _).trans h
  · exact h.tail

theorem mem_sectionSpots : y ∈ sectionSpots xs ↔
    ∃ t, (y.1, .guarded t) ∈ xs ∧ t.inSection = true ∧ t.opener = y.2 := by
  unfold sectionSpots
  simp only [List.mem_filterMap, Frame.spot?_eq_some_iff]
  constructor
  · rintro ⟨x, hx, t, ht, hin, rfl⟩
    exact ⟨t, ht ▸ hx, hin, rfl⟩
  · rintro ⟨t, ht, hin, ho⟩
    exact ⟨_, ht, t, rfl, hin, Prod.ext rfl ho⟩

theorem TryFrame.inSection_iff : t.inSection = true ↔ t.isActive = true ∧ t.cleaned = true :=
  Bool.and_eq_true_iff

theorem TryFrame.Advances.inSection (h : t.Advances t') (ht : t.inSection = true) : t'.inSection = true := by
  obtain ⟨hactive, hcleaned⟩ := inSection_iff.1 ht
  obtain ⟨p, hp⟩ := Option.isSome_iff_exists.1 hactive
  obtain ⟨p', hp', -⟩ := h.phase p hp
  exact inSection_iff.2 ⟨by rw [isActive, hp']; rfl, h.cleaned hcleaned⟩

end

/-! ## 3. Anchors -/

/-- **A try whose cleanup section begins** for a fault that is the only work of its spot. -/
structure Anchor where
  start : Session
  rest : List Frame
  work : Deferred
  others : List Deferred
  fault : Fault
  carries : work.work = .fault fault
  depth : work.depth = start.depth
  sole : ∀ e ∈ others, e.spot ≠ work.spot

namespace Anchor

variable (A : Anchor)

/-- The stacks around the call of the anchor. -/
def post : List (List Frame) := A.start.outer.map Level.blocks

def ground : Ground := ⟨A.rest, A.start.outer⟩

theorem depth_eq : A.work.depth = A.post.length + 1 := by
  rw [A.depth, Session.depth_eq, post, List.length_map]

end Anchor

/-- Work waits for cleanup sections, innermost first; the newest may have come to the closer of its try, which
is the command that is about to run. -/
inductive Session.Awaits (s : Session) (r : Address) : List (Nat × Frame) → List Deferred → Prop
  | sections {above : List (Nat × Frame)} {new : List Deferred}
      (spots : (new.map Deferred.spot).Sublist (sectionSpots above)) : s.Awaits r above new
  | closer {t : TryFrame} {rest : List Frame} {x : Nat × Frame} {above : List (Nat × Frame)} {e : Deferred}
      {new : List Deferred} (top : s.blocks = .guarded t :: rest) (closer : s.suite.Construct t.opener r)
      (active : t.isActive) (spot : e.spot = (s.depth, t.opener))
      (spots : (new.map Deferred.spot).Sublist (sectionSpots above)) : s.Awaits r (x :: above) (e :: new)

/-- **The session is inside the section of an anchor**, with certain frames above the anchor and certain work
before its own. -/
structure Session.Anchored (s : Session) (A : Anchor) (r : Address) (above : List (Nat × Frame)) (t : TryFrame)
    (new ds : List Deferred) : Prop where
  placed : placed s.blockStacks = above ++ (A.work.depth, .guarded t) :: A.ground.below
  opener : t.opener = A.work.resumeAt
  inSection : t.inSection = true
  deferred : s.deferred = new ++ A.work :: ds
  others : ds.Sublist A.others
  awaits : s.Awaits r above new
  rooted : ∀ e ∈ new, e.Rooted s.suite
  sites : s.sites.drop (s.depth - A.work.depth) = A.start.sites
  stands : s.Stands (closing s.suite) A.ground r

section

variable {s s' : Session} {A : Anchor} {r a : Address} {above : List (Nat × Frame)} {t : TryFrame}
  {new ds : List Deferred} {f : Frame} {g : Setting} {x : StepResult}

/-- **Frames over the ground** of a session have spots of their own. -/
theorem Session.Stands.nodup_over {G : Ground} {upper : List (Nat × Frame)} (h : s.Stands (closing s.suite) G r)
    (hs : s.Sound r) (hplaced : placed s.blockStacks = upper ++ G.below) :
    (upper.map fun x => (x.1, x.2.opener)).Nodup := by
  have hlevels {q : Address} (hl : Laid (closing s.suite) G (s.levels q)) :
      (upper.map fun x => (x.1, x.2.opener)).Nodup :=
    hl.nodup hs.nested (fun L hL f hf => hs.fits f ((s.mem_frames_iff q).2 ⟨L, hL, hf⟩))
      (by rw [← s.blockStacks_eq_levels q]; exact hplaced)
  rcases h with hl | ⟨l, rest, -, -, -, hl⟩
  · by_cases hrun : s.Running
    · exact hlevels (hrun.standing r ▸ hl)
    · obtain ⟨hnil, hstanding⟩ := hs.standing_of_not_running hrun r
      rw [hstanding] at hl
      refine hl.nodup hs.nested (fun L hL => hs.fits_outer hL) ?_
      rw [← hplaced, s.blockStacks_eq, hnil]
      rfl
  · exact hlevels hl

theorem Session.Stands.ne_spot_of_placed {G : Ground} {n : Nat} {y : Nat × Frame} (h : s.Stands (closing s.suite) G r)
    (hs : s.Sound r) (hplaced : placed s.blockStacks = above ++ (n, f) :: G.below) (hy : y ∈ above) :
    (y.1, y.2.opener) ≠ (n, f.opener) := by
  have hupper : placed s.blockStacks = (above ++ [(n, f)]) ++ G.below := by
    rw [hplaced, List.append_assoc]
    rfl
  have hnodup := h.nodup_over hs hupper
  rw [List.map_append, List.nodup_append] at hnodup
  exact hnodup.2.2 _ (List.mem_map_of_mem hy) _ (List.mem_singleton.2 rfl)

/-- Where the try of an anchor is running, in the call that it began in, its ground is below. -/
theorem Session.Bears.carries (h : s.Bears (.guarded t) A.rest A.post) (hs : s.Sound r)
    (hsites : s.sites.drop (s.depth - A.work.depth) = A.start.sites) (q : Address) :
    A.ground.Carries (s.standing q) := by
  obtain ⟨pre, above, hA⟩ := bears_iff.1 h
  rw [s.blockStacks_eq_levels q] at hA
  obtain ⟨up, low, hlev, rfl, hlow⟩ := List.map_eq_append_iff.1 hA
  obtain ⟨L, post, rfl, hL, hpost⟩ := List.map_eq_cons_iff.1 hlow
  -- the levels around the try are those that were around it
  obtain ⟨-, houter⟩ := List.cons.inj (Session.levels_abortCalls hlev q)
  have hlen : up.length = s.depth - A.work.depth := by
    have h₁ := congrArg List.length hlev
    have h₂ := congrArg List.length hpost
    rw [Session.levels, List.length_cons, List.length_append, List.length_cons, ← s.depth_eq] at h₁
    rw [List.length_map] at h₂
    have := A.depth_eq
    omega
  have hpost : post = A.start.outer := by
    rw [← houter]
    refine Session.outer_ext ?_ (houter.symm ▸ hpost)
    rw [Session.sites_abortCalls, hlen, hsites]
  subst hpost
  have hcarries (up : List Level) : A.ground.Carries (up ++ L :: A.start.outer) := by
    refine ⟨up, above ++ [.guarded t], L.place, L.callee, ?_, fun h => by simp at h⟩
    rw [List.append_assoc]
    exact congrArg (fun bs => up ++ Level.mk bs L.place L.callee :: A.start.outer) hL
  by_cases hrun : s.Running
  · rw [hrun.standing, hlev]
    exact hcarries up
  · obtain ⟨hnil, hstanding⟩ := hs.standing_of_not_running hrun q
    rw [hstanding]
    cases up with
    | nil =>
      rw [← (List.cons.inj hlev).1, show (s.level q).blocks = [] from hnil] at hL
      exact absurd hL (by simp)
    | cons M up =>
      rw [(List.cons.inj hlev).2]
      exact hcarries up

namespace Session.Anchored

theorem bears (h : s.Anchored A r above t new ds) : s.Bears (.guarded t) A.rest A.post :=
  ⟨above, A.depth_eq ▸ h.placed⟩

/-- The work of the anchor waits for it. -/
theorem exists_waits (h : s.Anchored A r above t new ds) :
    ∃ d ∈ s.deferred, d.spot = (A.post.length + 1, t.opener) := by
  refine ⟨A.work, h.deferred ▸ List.mem_append_right _ List.mem_cons_self, ?_⟩
  exact Prod.ext A.depth_eq h.opener.symm

theorem placed_append (h : s.Anchored A r above t new ds) :
    Flow.placed s.blockStacks = (above ++ [(A.work.depth, .guarded t)]) ++ A.ground.below := by
  rw [h.placed, List.append_assoc]
  rfl

theorem poise (h : s.Anchored A r above t new ds) (a? : Option Address) :
    (s.poise a?).Anchored A r above t new ds where
  placed := h.placed
  opener := h.opener
  inSection := h.inSection
  deferred := h.deferred
  others := h.others
  awaits := by
    cases h.awaits with
    | sections spots => exact .sections spots
    | closer top closer active spot spots => exact .closer top closer active spot spots
  rooted := h.rooted
  sites := h.sites
  stands := h.stands

/-- Nothing above the anchor is of its spot. -/
theorem ne_spot (h : s.Anchored A r above t new ds) (hs : s.Sound r) {y : Nat × Frame} (hy : y ∈ above) :
    (y.1, y.2.opener) ≠ A.work.spot :=
  (h.stands.ne_spot_of_placed hs h.placed hy).trans_eq (Prod.ext rfl h.opener)

/-- The innermost construct is the anchor, or it is above it. -/
theorem top_cases (h : s.Anchored A r above t new ds) {rest : List Frame} (hb : s.blocks = f :: rest) :
    above = [] ∧ f = .guarded t ∧ s.depth = A.work.depth ∧ rest = A.rest ∧ s.outer.map Level.blocks = A.post ∨
      ∃ above', above = (s.depth, f) :: above' := by
  have heq := (Session.placed_blockStacks hb).symm.trans h.placed
  cases above with
  | nil =>
    obtain ⟨hhead, hbelow⟩ := List.cons.inj heq
    obtain ⟨hdepth, rfl⟩ := Prod.mk.inj hhead
    have hlen : s.outer.length + 1 = A.post.length + 1 := by rw [← s.depth_eq, hdepth, A.depth_eq]
    obtain ⟨rfl, hpost⟩ := List.cons.inj (placed_inj hbelow (by
      rw [List.length_cons, List.length_map, hlen]
      rfl))
    exact .inl ⟨rfl, rfl, hdepth, rfl, hpost⟩
  | cons x above =>
    obtain ⟨rfl, -⟩ := List.cons.inj heq
    exact .inr ⟨above, rfl⟩

/-- **The constructs of the innermost call** down to the anchor hold the command that runs next. -/
theorem holds (h : s.Anchored A a above t new ds) (hl : Laid (closing s.suite) A.ground (s.levels a)) :
    ∃ fs R, s.blocks = fs ++ R ∧ (enclosing s.suite).Holds none fs a ∧
      ∀ f, (s.depth, f) ∈ above ++ [(A.work.depth, .guarded t)] → f ∈ fs := by
  have hplaced := h.placed_append
  rw [s.blockStacks_eq_levels a] at hplaced
  generalize hls : s.levels a = ls at hl
  cases hl with
  | @floor fs q c holds =>
    obtain ⟨hlevel, houter⟩ := List.cons.inj hls
    obtain ⟨hblocks, rfl, -⟩ := Level.mk.inj hlevel
    refine ⟨fs, A.rest, hblocks, holds.of_closing, fun f hf => ?_⟩
    rw [hls, List.map_cons, placed_cons_append] at hplaced
    rw [← List.append_cancel_right hplaced] at hf
    obtain ⟨f', hf', heq⟩ := List.mem_map.1 hf
    exact (Prod.mk.inj heq).2 ▸ hf'
  | call holds below =>
    obtain ⟨rfl, -⟩ := List.cons.inj hls
    refine ⟨s.blocks, [], (List.append_nil _).symm, holds.of_closing, fun f hf => ?_⟩
    have hmem : (s.depth, f) ∈ Flow.placed s.blockStacks := by
      rw [h.placed_append]
      exact List.mem_append_left _ hf
    rw [s.blockStacks_eq, s.depth_eq, ← List.length_map (f := Level.blocks)] at hmem
    exact mem_placed_top.1 hmem

/-- No work waits above an anchor with nothing above it. -/
theorem new_eq_nil (h : s.Anchored A r [] t new ds) : new = [] := by
  cases h.awaits with
  | sections spots => exact List.map_eq_nil_iff.1 (List.sublist_nil.1 spots)

/-- The spot of the innermost frame is not that of another one. -/
theorem head_notMem {y : Nat × Frame} (h : s.Anchored A r (y :: above) t new ds) (hs : s.Sound r) :
    (y.1, y.2.opener) ∉ sectionSpots above := by
  intro hy
  obtain ⟨u, hu, -, ho⟩ := mem_sectionSpots.1 hy
  have hnodup := h.stands.nodup_over hs h.placed_append
  rw [List.cons_append, List.map_cons, List.nodup_cons] at hnodup
  exact hnodup.1 (List.mem_map.2 ⟨_, List.mem_append_left _ hu, Prod.ext rfl ho⟩)

/-- At the closer of the anchor its work is taken up, if nothing is above it. -/
theorem takesUp (h : s.Anchored A a [] t new ds) (hb : s.blocks = .guarded t :: A.rest)
    (hclose : s.suite.Construct t.opener a) (hdepth : s.depth = A.work.depth) : s.TakesUp a t A.rest A.work ds :=
  ⟨hb, hclose, (TryFrame.inSection_iff.1 h.inSection).1, by rw [h.deferred, h.new_eq_nil]; rfl, h.opener.symm,
    hdepth.symm⟩

/-- Frames above the anchor of one spot are the same. -/
theorem eq_of_spot (h : s.Anchored A r above t new ds) (hs : s.Sound r) {y z : Nat × Frame} (hy : y ∈ above)
    (hz : z ∈ above) (heq : (y.1, y.2.opener) = (z.1, z.2.opener)) : y = z := by
  have hnodup := h.stands.nodup_over hs h.placed_append
  rw [List.map_append] at hnodup
  exact List.inj_on_of_nodup_map (List.nodup_append.1 hnodup).1 hy hz heq

/-- The constructs of the innermost call above the anchor are around the command of a transfer that is made or
taken up. -/
theorem spans_of_brings (h : s.Anchored A a above t new ds) (hs : s.Sound a) {origin : Address} {goal : Goal}
    (hbrings : s.Brings a origin goal) (hne : goal ≠ .exit) (hf : (s.depth, f) ∈ above) :
    s.suite.Spans f.opener origin := by
  have hn := hs.nested
  have hfits {fs R : List Frame} (hb : s.blocks = fs ++ R) : ∀ f ∈ fs, f.Fits s.suite := fun f hf =>
    hs.toFitted.blocks f (hb ▸ List.mem_append_left _ hf)
  rcases hbrings with ⟨rfl, ht⟩ | ⟨u, rest, e, es, hu, hw⟩
  · obtain ⟨fs, R, hb, hholds, hmem⟩ := h.holds (h.stands.laid_of_transfers (ht.running hs) hs.toFitted ht)
    exact hholds.spans hn (hfits hb) f (hmem f (List.mem_append_left _ hf))
  · obtain ⟨fs, R, hb, hholds, hmem⟩ :=
      h.holds (h.stands.laid_at_closer (hs.running_of_blocks hu.top) hn hu.top hu.closer)
    have hnew : e ∈ new := by
      have heq := hu.deferred.symm.trans h.deferred
      cases new with
      | nil =>
        obtain ⟨rfl, -⟩ := List.cons.inj heq
        cases hw.symm.trans A.carries
      | cons e' new =>
        obtain ⟨rfl, -⟩ := List.cons.inj heq
        exact List.mem_cons_self
    have hroot := h.rooted e hnew origin goal hw hne
    rw [hu.resumeAt] at hroot
    have hfs := hmem f (List.mem_append_left _ hf)
    cases fs with
    | nil => cases hfs
    | cons f₀ fs =>
      obtain ⟨rfl, -⟩ := List.cons.inj (hu.top.symm.trans hb)
      rcases List.mem_cons.1 hfs with rfl | hfs
      · exact hroot
      · have := Fence.Holds.spans hn (fun f hf => hfits hb f (List.mem_cons_of_mem _ hf)) hholds.2.2 f hfs
        exact hn.spans_trans this hroot

/-- **At the closer of the anchor**, in the call that it began in, nothing is above it. -/
theorem takesUp_of_closer (h : s.Anchored A a above t new ds) (hs : s.Sound a) (hdepth : s.depth = A.work.depth)
    (hclose : s.suite.Construct t.opener a) :
    s.TakesUp a t A.rest A.work ds ∧ s.outer.map Level.blocks = A.post := by
  have hn := hs.nested
  have hfits := hs.toFitted.blocks
  have htop : .guarded t ∈ s.blocks := by
    have hin : (s.depth, Frame.guarded t) ∈ Flow.placed s.blockStacks := by
      rw [h.placed, hdepth]
      simp
    rwa [s.blockStacks_eq, s.depth_eq, ← List.length_map (f := Level.blocks), mem_placed_top] at hin
  obtain ⟨f, rest, hb⟩ := List.exists_cons_of_ne_nil (List.ne_nil_of_mem htop)
  rcases h.top_cases hb with ⟨rfl, hf, -, rfl, hpost⟩ | ⟨above', rfl⟩
  · cases hf
    exact ⟨h.takesUp hb hclose hdepth, hpost⟩
  · -- the closer of the innermost construct would come first
    exfalso
    have hlaid : Laid (closing s.suite) A.ground (s.levels a) := by
      refine h.stands.laid (hs.running_of_blocks hb) fun l rest' hb' ho => ?_
      obtain ⟨e, he⟩ := hn.exists_construct_of_opens (hs.toFitted.top hb').1
      exact (hn.isPart_closer hclose).ne_opener he ho
    obtain ⟨fs, R, hfs, hholds, hmem⟩ := h.holds hlaid
    have hfits : ∀ f ∈ fs, f.Fits s.suite := fun f hf => hfits f (hfs ▸ List.mem_append_left _ hf)
    have ht : .guarded t ∈ fs := hmem _ (by rw [hdepth]; simp)
    cases fs with
    | nil => cases ht
    | cons f₀ fs =>
      obtain ⟨rfl, -⟩ := List.cons.inj (hb.symm.trans hfs)
      rcases List.mem_cons.1 ht with heq | ht
      · exact h.ne_spot hs List.mem_cons_self (Prod.ext hdepth (by rw [← heq]; exact h.opener))
      · obtain ⟨p, q, hp, hq, -, hlt⟩ := List.rel_of_pairwise_cons (hholds.pairwise hn hfits) ht
        cases hq.unique hclose
        obtain ⟨p', hp', -, hle⟩ := hholds.spans hn hfits f List.mem_cons_self
        cases hp.unique hp'
        exact absurd hle (not_le.2 hlt)

/-- What a section leaves where its work is taken up. -/
theorem ends (h : s.Anchored A a above t new ds) (hu : s.TakesUp a t A.rest A.work ds)
    (hpost : s.outer.map Level.blocks = A.post) {t₁ : TryFrame} (ho : t₁.opener = A.work.resumeAt) :
    A.start.Ends s t₁ A.rest A.work A.others where
  top := ⟨t, hu.top, h.opener.trans ho.symm, hu.active⟩
  outer := hpost
  sites := by
    have := h.sites
    rwa [hu.depth, Nat.sub_self, List.drop_zero] at this
  deferred := ⟨ds, hu.deferred, fun e he => ⟨e, h.others.subset he, rfl⟩⟩

end Session.Anchored

end

end BlockFlow.Flow
