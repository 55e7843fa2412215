/-
# Sections that keep what is inside them

A cleanup section that runs for a fault runs to the closer at which the fault is taken up, with everything below
its try as it was, if no cleanup section that work waits for is left on the way: `SectionKeeps.exists_ends`.
Nothing is asked of the run before the section.

One command goes on inside the section or takes up its fault, `Session.Anchored.step`: the frames above the anchor
change in the ways of `Shift`, and the work before the fault in those of `Session.Recounts`.
-/
import BlockFlow.Proofs.Anchors

namespace BlockFlow.Flow

/-! ## 1. Sublists -/

section

variable {α : Type} {l l₁ l₂ : List α} {x : α}

/-- A sublist of two lists that has nothing of the first. -/
theorem sublist_of_append (h : l.Sublist (l₁ ++ l₂)) (hno : ∀ y ∈ l, y ∉ l₁) : l.Sublist l₂ := by
  obtain ⟨k₁, k₂, rfl, h₁, h₂⟩ := List.sublist_append_iff.1 h
  cases k₁ with
  | nil => exact h₂
  | cons y k₁ => exact absurd (h₁.subset List.mem_cons_self) (hno y List.mem_cons_self)

/-- A sublist that has the one element of a kind is split there as the list is. -/
theorem exists_split_of_sublist (h : l.Sublist (l₁ ++ x :: l₂)) (hx : x ∈ l) (h₁ : x ∉ l₁) (h₂ : x ∉ l₂) :
    ∃ k₁ k₂, l = k₁ ++ x :: k₂ ∧ k₁.Sublist l₁ ∧ k₂.Sublist l₂ := by
  obtain ⟨k₁, k, rfl, hk₁, hk⟩ := List.sublist_append_iff.1 h
  have hmem : x ∈ k := (List.mem_append.1 hx).resolve_left fun hin => h₁ (hk₁.subset hin)
  rcases List.sublist_cons_iff.1 hk with hk | ⟨k₂, rfl, hk₂⟩
  · exact absurd (hk.subset hmem) h₂
  · exact ⟨k₁, k₂, rfl, hk₁, hk₂⟩

end

/-! ## 2. The frames above an anchor -/

section

variable {suite : Suite} {p? : Option Address} {B : List (List Frame)} {A : Anchor} {s s' : Session} {r a : Address}
  {above above' : List (Nat × Frame)} {t t' : TryFrame} {new ds : List Deferred} {f f' : Frame} {g : Setting}
  {x : StepResult}

/-- A try that is in its section is in it still when it goes on. -/
theorem Frame.Becomes.spot? (h : f.Becomes suite a p? f') {n : Nat} {y : Spot}
    (hf : f.spot? TryFrame.inSection n = some y) : f'.spot? TryFrame.inSection n = some y := by
  obtain ⟨t, rfl, hin, rfl⟩ := Frame.spot?_eq_some_iff.1 hf
  cases h with
  | guarded advances =>
    exact Frame.spot?_eq_some_iff.2 ⟨_, rfl, advances.inSection hin, by rw [advances.opener]⟩

/-- **What becomes of the frames above a try** that runs on: some are left, and the innermost one of the others
changes, or one is entered. -/
structure Outlives (above above' : List (Nat × Frame)) (t t' : TryFrame) (left mid : List (Nat × Frame)) : Prop where
  before : above = left ++ mid
  opener : t'.opener = t.opener
  inSection : t.inSection = true → t'.inSection = true
  sections : (sectionSpots mid).Sublist (sectionSpots above')
  length : left = [] ∨ above'.length ≤ mid.length

theorem Shift.outlives {below : List (Nat × Frame)} {C : List (List Frame)} {n n' : Nat}
    (h : Shift suite a p? C B) (hC : placed C = above ++ (n, .guarded t) :: below)
    (hB : placed B = above' ++ (n', .guarded t') :: below) : ∃ left mid, Outlives above above' t t' left mid := by
  cases h with
  | leave left hplaced =>
    rw [hB, hC, ← List.append_assoc] at hplaced
    obtain ⟨rfl, htop⟩ := List.append_inj' hplaced rfl
    obtain ⟨hhead, -⟩ := List.cons.inj htop
    obtain ⟨-, heq⟩ := Prod.mk.inj hhead
    cases heq
    exact ⟨left, above', rfl, rfl, id, List.Sublist.refl _, .inr le_rfl⟩
  | @enter f fs fss =>
    rw [placed_cons_cons, hC, ← List.cons_append] at hB
    obtain ⟨rfl, htop⟩ := List.append_inj' hB rfl
    obtain ⟨hhead, -⟩ := List.cons.inj htop
    obtain ⟨-, heq⟩ := Prod.mk.inj hhead
    cases heq
    exact ⟨[], above, rfl, rfl, id, sublist_sectionSpots_cons, .inl rfl⟩
  | @turn _ f f' fs fss left hplaced _ becomes =>
    rw [hC, placed_cons_cons] at hplaced
    rw [placed_cons_cons] at hB
    cases above' with
    | nil =>
      obtain ⟨hhead, hbelow⟩ := List.cons.inj hB
      obtain ⟨-, rfl⟩ := Prod.mk.inj hhead
      rw [hbelow] at hplaced
      obtain ⟨rfl, htop⟩ := List.append_inj' hplaced rfl
      obtain ⟨hhead, -⟩ := List.cons.inj htop
      obtain ⟨-, rfl⟩ := Prod.mk.inj hhead
      cases becomes with
      | guarded advances =>
        exact ⟨above, [], (List.append_nil _).symm, advances.opener, advances.inSection, List.nil_sublist _,
          .inr le_rfl⟩
    | cons y above' =>
      obtain ⟨rfl, hbelow⟩ := List.cons.inj hB
      have hplaced : above ++ (n, .guarded t) :: below =
          (left ++ (fss.length + 1, f) :: above') ++ (n', .guarded t') :: below := by
        rw [hplaced, hbelow, List.append_assoc]
        rfl
      obtain ⟨rfl, htop⟩ := List.append_inj' hplaced rfl
      obtain ⟨hhead, -⟩ := List.cons.inj htop
      obtain ⟨-, heq⟩ := Prod.mk.inj hhead
      cases heq
      refine ⟨left, _ :: above', rfl, rfl, id, ?_, .inr le_rfl⟩
      cases hf : f.spot? TryFrame.inSection (fss.length + 1) with
      | none =>
        rw [sectionSpots, List.filterMap_cons, hf]
        exact sublist_sectionSpots_cons
      | some z =>
        rw [sectionSpots, sectionSpots, List.filterMap_cons, List.filterMap_cons, hf, becomes.spot? hf]

/-- The work above an anchor that a command leaves, before it defers other work. -/
structure Session.Remains (s : Session) (a : Address) (s' : Session) (A : Anchor) (above : List (Nat × Frame))
    (new left ds : List Deferred) : Prop where
  kept : left.Sublist new
  spots : (left.map Deferred.spot).Sublist (sectionSpots above)
  closed : ∀ u rest, s.blocks = .guarded u :: rest → s.suite.Construct u.opener a →
    (s.depth, u.opener) ∉ left.map Deferred.spot
  recounts : s.Recounts a s' (left ++ A.work :: ds)

namespace Session.Anchored

/-- **A command keeps the constructs over the ground** around the run, if the anchor runs on. -/
theorem stands_next (h : s.Anchored A a above t new ds) (hs : s.Sound a) (hp : s.pending = none)
    (hstep : Step g a s x s') (hx : ∀ f, x ≠ .unhandled f) (hs' : s'.Sound r) {t' : TryFrame}
    (hbears : s'.Bears (.guarded t') A.rest A.post)
    (hsites : s'.sites.drop (s'.depth - A.work.depth) = A.start.sites)
    (hexit : ∀ t rest d ds origin, ¬s.Resumes a t rest d ds origin .exit) :
    s'.Stands (closing s.suite) A.ground (s'.pending.getD a.next) := by
  have hF := closing_fair hs.nested
  refine hstep.laid hx hs hp hF h.stands (hbears.carries hs' hsites) ?_ fun _ _ _ _ _ _ _ => trivial
  intro u rest e es origin goal hr fs R hrest hholds
  have hne : goal ≠ .exit := by
    rintro rfl
    exact hexit _ _ _ _ _ hr
  have hfits : ∀ f ∈ fs, f.Fits s.suite := fun f hf => hs.toFitted.blocks f (by
    rw [hr.top, hrest]
    exact List.mem_cons_of_mem _ (List.mem_append_left _ hf))
  rcases h.top_cases hr.top with ⟨rfl, -⟩ | ⟨above', rfl⟩
  · -- the work of the anchor is a fault
    obtain ⟨rfl, -⟩ := List.cons.inj (hr.deferred.symm.trans (h.deferred.trans (by rw [h.new_eq_nil]; rfl)))
    cases hr.work.symm.trans A.carries
  · obtain ⟨e', he', hlt, hle⟩ := h.spans_of_brings hs (.inr ⟨u, rest, e, es, hr.takesUp, hr.work⟩) hne
      List.mem_cons_self
    exact hholds.inner hF hfits he' hlt hle

/-! ## 3. The work above an anchor -/

/-- The work that a closer above the anchor takes up is the newest there. -/
theorem newest_of_takesUp {x : Nat × Frame} (h : s.Anchored A a (x :: above) t new ds) (hs : s.Sound a)
    {u : TryFrame} {rest : List Frame} {e : Deferred} {es : List Deferred} (hu : s.TakesUp a u rest e es)
    (hx : x = (s.depth, .guarded u)) : ∃ left, new = e :: left ∧ es = left ++ A.work :: ds ∧
      (left.map Deferred.spot).Sublist (sectionSpots above) := by
  subst hx
  have hspot : e.spot = (s.depth, u.opener) := Prod.ext hu.depth hu.resumeAt
  have heq := hu.deferred.symm.trans h.deferred
  cases h.awaits with
  | @sections _ _ spots =>
    cases new with
    | nil =>
      obtain ⟨rfl, -⟩ := List.cons.inj heq
      exact absurd hspot.symm (h.ne_spot hs List.mem_cons_self)
    | cons e' left =>
      obtain ⟨rfl, rfl⟩ := List.cons.inj heq
      exact ⟨left, rfl, rfl, sublist_of_cons_sections spots⟩
  | closer top closer active spot spots =>
    obtain ⟨rfl, rfl⟩ := List.cons.inj heq
    exact ⟨_, rfl, rfl, spots⟩

/-- A closer that takes no work up is not the closer of a section that work waits for. -/
theorem spot_notMem_of_closer (h : s.Anchored A a above t new ds) (hs : s.Sound a)
    (hspots : (new.map Deferred.spot).Sublist (sectionSpots above)) {u : TryFrame} {rest : List Frame}
    (hno : ∀ e es, ¬s.TakesUp a u rest e es) (hb : s.blocks = .guarded u :: rest)
    (hclose : s.suite.Construct u.opener a) : (s.depth, u.opener) ∉ new.map Deferred.spot := by
  intro hmem
  rcases h.top_cases hb with ⟨rfl, -⟩ | ⟨above, rfl⟩
  · cases hspots.subset hmem
  have hhead : (s.depth, u.opener) ∉ sectionSpots above := h.head_notMem hs
  cases new with
  | nil => cases hmem
  | cons e left =>
    -- the newest work waits for the innermost frame, which is in its section
    have hspot := (List.mem_cons.1 hmem).resolve_right fun hin =>
      hhead ((sublist_of_cons_sections hspots).subset hin)
    obtain ⟨hdepth, hopener⟩ := Prod.mk.inj hspot.symm
    obtain ⟨v, hv, hin, ho⟩ := mem_sectionSpots.1 (hspots.subset hmem)
    rcases List.mem_cons.1 hv with heq | hv
    · cases heq
      exact hno _ _ ⟨hb, hclose, (TryFrame.inSection_iff.1 hin).1, h.deferred, hopener, hdepth⟩
    · exact hhead (mem_sectionSpots.2 ⟨v, hv, hin, ho⟩)

/-- **What a command leaves waiting**: it takes up the work of the anchor, or other work, which is the newest,
or none. -/
theorem remains (h : s.Anchored A a above t new ds) (hs : s.Sound a)
    (hrest : ∀ u rest e es, s.TakesUp a u rest e es → s.Recounts a s' es)
    (hno : (∀ u rest e es, ¬s.TakesUp a u rest e es) → s.Recounts a s' s.deferred) :
    s.TakesUp a t A.rest A.work ds ∧ s.outer.map Level.blocks = A.post ∨
      ∃ left, s.Remains a s' A above new left ds := by
  by_cases hu : ∃ u rest e es, s.TakesUp a u rest e es
  · obtain ⟨u, rest, e, es, hu⟩ := hu
    rcases h.top_cases hu.top with ⟨rfl, hf, hdepth, rfl, hpost⟩ | ⟨above, rfl⟩
    · cases hf
      exact .inl ⟨h.takesUp hu.top hu.closer hdepth, hpost⟩
    · obtain ⟨left, rfl, rfl, hleft⟩ := h.newest_of_takesUp hs hu rfl
      refine .inr ⟨left, List.sublist_cons_self _ _, hleft.trans sublist_sectionSpots_cons, ?_, hrest _ _ _ _ hu⟩
      intro u' rest' hb _ hmem
      cases hu.top.symm.trans hb
      exact h.head_notMem hs (hleft.subset hmem)
  · have hu : ∀ u rest e es, ¬s.TakesUp a u rest e es := fun u rest e es h => hu ⟨u, rest, e, es, h⟩
    cases h.awaits with
    | closer top closer active spot spots =>
      obtain ⟨hdepth, hopener⟩ := Prod.mk.inj spot
      exact absurd ⟨top, closer, active, h.deferred, hopener, hdepth⟩ (hu _ _ _ _)
    | sections spots =>
      exact .inr ⟨new, List.Sublist.refl _, spots, fun u rest => h.spot_notMem_of_closer hs spots (hu u rest),
        h.deferred ▸ hno hu⟩

/-- **The work that is left waits for sections that run on**, since no such section is left. -/
theorem outlives (h : s.Anchored A a above t new ds) {left : List Deferred} (hrem : s.Remains a s' A above new left ds)
    (hshift : Shift s.suite a s'.pending s.blockStacks s'.blockStacks) (hkeeps : s.KeepsSections a s')
    (hplaced' : Flow.placed s'.blockStacks = above' ++ (A.work.depth, .guarded t') :: A.ground.below) :
    t'.opener = t.opener ∧ t'.inSection = true ∧ (left.map Deferred.spot).Sublist (sectionSpots above') := by
  obtain ⟨gone, mid, hout⟩ := hshift.outlives h.placed hplaced'
  refine ⟨hout.opener, hout.inSection h.inSection, ?_⟩
  have hspots := hrem.spots
  rw [hout.before, sectionSpots_append] at hspots
  refine (sublist_of_append hspots fun y hy hgone => ?_).trans hout.sections
  obtain ⟨u, hu, hin, ho⟩ := mem_sectionSpots.1 hgone
  obtain ⟨l₁, l₂, rfl⟩ := List.append_of_mem hu
  have hplaced : Flow.placed s.blockStacks =
      l₁ ++ (y.1, .guarded u) :: (l₂ ++ mid ++ (A.work.depth, .guarded t) :: A.ground.below) := by
    rw [h.placed, hout.before]
    simp only [List.append_assoc, List.cons_append]
  obtain ⟨rest, post, hbears, hdepth, hbelow⟩ := exists_bears hplaced
  have hy' : (post.length + 1, u.opener) = y := Prod.ext hdepth.symm ho
  obtain ⟨e, he, hspot⟩ := List.mem_map.1 hy
  have hwaits : e ∈ s.deferred := h.deferred ▸ List.mem_append_left _ (hrem.kept.subset he)
  rcases hkeeps u rest post hbears hin ⟨e, hwaits, hspot.trans hy'.symm⟩ with ⟨u', inner, hinner⟩ | ⟨htop, hclose⟩
  · -- what is below the section is more than what is left
    have hlen := congrArg List.length (hinner.symm.trans hplaced')
    have hlen' := congrArg List.length hbelow
    simp only [List.length_append, List.length_cons] at hlen hlen'
    rcases hout.length with hnil | hle
    · exact absurd hnil (by simp)
    · omega
  · obtain ⟨hb, hpost⟩ := List.cons.inj (s.blockStacks_eq.symm.trans htop)
    refine hrem.closed u rest hb hclose ?_
    rwa [s.depth_eq, ← List.length_map (f := Level.blocks), hpost, hy']

/-- The work of the anchor is not among that above it, nor among the other work. -/
theorem work_notMem (h : s.Anchored A a above t new ds) (hs : s.Sound a) {left : List Deferred}
    (hrem : s.Remains a s' A above new left ds) : A.work ∉ left ∧ A.work ∉ ds := by
  refine ⟨fun hin => ?_, fun hin => A.sole _ (h.others.subset hin) rfl⟩
  obtain ⟨u, hu, -, ho⟩ := mem_sectionSpots.1 (hrem.spots.subset (List.mem_map_of_mem hin))
  exact h.ne_spot hs hu (Prod.ext rfl ho)

/-- A transfer that takes the place of other work above the anchor is inside the try of that work. -/
theorem rooted_of_replace (h : s.Anchored A a above t new ds) (hs : s.Sound a) {goal : Goal} {e : Deferred}
    (ht : s.Transfers a goal) (hspot : e.spot ∈ sectionSpots above) (hdepth : goal ≠ .exit → e.depth = s.depth) :
    ({ e with work := .transfer a goal } : Deferred).Rooted s.suite := by
  rintro _ _ ⟨⟩ hne
  obtain ⟨u, hu, -, ho⟩ := mem_sectionSpots.1 hspot
  have hu : (s.depth, Frame.guarded u) ∈ above := hdepth hne ▸ hu
  exact (show u.opener = e.resumeAt from ho) ▸ h.spans_of_brings hs (.inl ⟨rfl, ht⟩) hne hu

/-- **Work that is put first** waits for the anchor only if it is the fault that waits for it already: a section
that ends with its own fault. -/
theorem defers_nil (h : s.Anchored A a above t new ds) {left : List Deferred}
    (hrem : s.Remains a s' A above new left ds) {u : TryFrame} {rest : List Frame} {post : List (List Frame)}
    {d : Deferred} {es : List Deferred} (hd : s.Defers a s' (left ++ A.work :: ds) u rest post d es)
    (hplaced' : Flow.placed s'.blockStacks = (A.work.depth, .guarded t') :: A.ground.below)
    (hopener : t'.opener = t.opener) (hspots : (left.map Deferred.spot).Sublist [])
    (hmem : A.work ∈ s'.deferred) : s'.deferred = A.work :: es ∧ es.Sublist ds := by
  obtain rfl : left = [] := List.map_eq_nil_iff.1 (List.sublist_nil.1 hspots)
  rw [hd.top, placed_cons_cons] at hplaced'
  obtain ⟨hhead, hbelow⟩ := List.cons.inj hplaced'
  obtain ⟨hdepth, heq⟩ := Prod.mk.inj hhead
  cases heq
  have hspot : d.spot = A.work.spot := by
    rw [hd.spot, hdepth, hopener, h.opener]
    rfl
  have hsole : ∀ e ∈ es, e.spot ≠ d.spot := by
    refine hd.sole.resolve_right ?_
    rintro ⟨v, hv, -, hcleaned⟩
    have heq : rest :: post = A.rest :: A.post := placed_inj hbelow (by
      have := A.depth_eq
      simp only [List.length_cons]
      omega)
    obtain ⟨rfl, rfl⟩ := List.cons.inj heq
    cases h.bears.unique hv
    rw [(TryFrame.inSection_iff.1 h.inSection).2] at hcleaned
    cases hcleaned
  have hno : A.work ∉ es := fun hin => hsole _ hin hspot.symm
  rw [hd.deferred] at hmem ⊢
  rcases List.mem_cons.1 hmem with rfl | hin
  · refine ⟨rfl, ?_⟩
    rcases List.sublist_cons_iff.1 hd.kept with hkept | ⟨es', rfl, -⟩
    · exact hkept
    · exact absurd List.mem_cons_self hno
  · exact absurd hin hno

/-- What is running over the frames above the anchor, as they are after a command, was above it. -/
theorem mem_of_bears (h : s.Anchored A a above t new ds) {rest : List Frame} {post : List (List Frame)}
    (hf : s.Bears f rest post)
    (hbelow : Flow.placed (rest :: post) = above' ++ (A.work.depth, .guarded t') :: A.ground.below) :
    (post.length + 1, f) ∈ above := by
  obtain ⟨inner, hinner⟩ := hf
  have heq : above ++ (A.work.depth, .guarded t) :: A.ground.below =
      (inner ++ (post.length + 1, f) :: above') ++ (A.work.depth, .guarded t') :: A.ground.below := by
    rw [← h.placed, hinner, hbelow, List.append_assoc]
    rfl
  rw [(List.append_inj' heq rfl).1]
  simp

/-- No other work waits for the frame that work above the anchor is put first for. -/
theorem sole_of_defers (h : s.Anchored A a above t new ds) (hs : s.Sound a) {left before es : List Deferred}
    (hspots : (left.map Deferred.spot).Sublist (sectionSpots above)) {u : TryFrame} {rest : List Frame}
    {post : List (List Frame)} {d : Deferred} (hd : s.Defers a s' before u rest post d (left ++ es))
    (hbelow : Flow.placed (rest :: post) = above' ++ (A.work.depth, .guarded t') :: A.ground.below) :
    ∀ e ∈ left, e.spot ≠ d.spot := by
  rcases hd.sole with hsole | ⟨v, hv, ho, hcleaned⟩
  · exact fun e he => hsole e (List.mem_append_left _ he)
  intro e he heq
  obtain ⟨w, hw, hin, how⟩ := mem_sectionSpots.1 (hspots.subset (List.mem_map_of_mem he))
  have hspot : (post.length + 1, v.opener) = (e.spot.1, w.opener) := by
    rw [how, ho]
    exact (heq.trans hd.spot).symm
  obtain ⟨-, hvw⟩ := Prod.mk.inj (h.eq_of_spot hs (h.mem_of_bears hv hbelow) hw hspot)
  cases hvw
  rw [(TryFrame.inSection_iff.1 hin).2] at hcleaned
  cases hcleaned

/-- A transfer that is put first above the anchor is inside the try that it waits for. -/
theorem rooted_of_defers (h : s.Anchored A a above t new ds) (hs : s.Sound a) {before es : List Deferred}
    {u : TryFrame} {rest : List Frame} {post : List (List Frame)} {d : Deferred}
    (hd : s.Defers a s' before u rest post d es)
    (hbelow : Flow.placed (rest :: post) = above' ++ (A.work.depth, .guarded t') :: A.ground.below) :
    d.Rooted s.suite := by
  intro origin goal hw hgoal
  obtain ⟨inner, v, hb, ho, hpost⟩ := hd.around origin goal hw hgoal
  have hv : s.Bears (.guarded v) rest post := by
    refine ⟨inner.map fun f => (post.length + 1, f), ?_⟩
    rw [s.blockStacks_eq, hb, placed_cons_append, hpost]
    rfl
  have hmem := h.mem_of_bears hv hbelow
  rw [hpost, List.length_map, ← s.depth_eq] at hmem
  have := h.spans_of_brings hs (hd.brings origin goal hw) hgoal hmem
  rwa [show d.resumeAt = u.opener from (Prod.mk.inj hd.spot).2, ← ho]

/-- **Work that is put first** above the anchor waits for the innermost frame, as the first of all. -/
theorem defers_cons (h : s.Anchored A a above t new ds) (hs : s.Sound a) {left : List Deferred}
    (hrem : s.Remains a s' A above new left ds) (hsuite : s'.suite = s.suite) {u : TryFrame} {rest : List Frame}
    {post : List (List Frame)} {d : Deferred} {es : List Deferred} {y : Nat × Frame}
    (hd : s.Defers a s' (left ++ A.work :: ds) u rest post d es)
    (hplaced' : Flow.placed s'.blockStacks = y :: above' ++ (A.work.depth, .guarded t') :: A.ground.below)
    (hne : (y.1, y.2.opener) ≠ A.work.spot) (hspots : (left.map Deferred.spot).Sublist (sectionSpots (y :: above')))
    (hmem : A.work ∈ s'.deferred) : ∃ left' ds', es = left' ++ A.work :: ds' ∧ left'.Sublist left ∧ ds'.Sublist ds ∧
      s'.Awaits (s'.pending.getD a.next) (y :: above') (d :: left') ∧ d.Rooted s.suite := by
  obtain ⟨hleft, hds⟩ := h.work_notMem hs hrem
  rw [hd.top, placed_cons_cons] at hplaced'
  obtain ⟨rfl, hbelow⟩ := List.cons.inj hplaced'
  have hne : A.work ≠ d := by
    rintro heq
    exact hne (hd.spot.symm.trans (by rw [heq]))
  have hin : A.work ∈ es := (List.mem_cons.1 (hd.deferred ▸ hmem)).resolve_left hne
  obtain ⟨left', ds', rfl, hleft', hds'⟩ := exists_split_of_sublist hd.kept hin hleft hds
  have hsole := h.sole_of_defers hs ((hleft'.map Deferred.spot).trans hrem.spots) hd hbelow
  have hspots' : (left'.map Deferred.spot).Sublist (sectionSpots above') := by
    have hsub : (left'.map Deferred.spot).Sublist
        (sectionSpots [(post.length + 1, .guarded u)] ++ sectionSpots above') := by
      rw [← sectionSpots_append]
      exact (hleft'.map Deferred.spot).trans hspots
    refine sublist_of_append hsub fun z hz hin => ?_
    obtain ⟨e, he, rfl⟩ := List.mem_map.1 hz
    obtain ⟨w, hw, -, how⟩ := mem_sectionSpots.1 hin
    obtain ⟨hdepth, hw⟩ := Prod.mk.inj (List.mem_singleton.1 hw)
    cases hw
    exact hsole e he ((Prod.ext hdepth how.symm : e.spot = (post.length + 1, u.opener)).trans hd.spot.symm)
  refine ⟨left', ds', rfl, hleft', hds', ?_, h.rooted_of_defers hs hd hbelow⟩
  obtain ⟨hblocks, hpost⟩ := List.cons.inj (s'.blockStacks_eq.symm.trans hd.top)
  rcases hd.waits with hcleaned | ⟨p, hp, hclose⟩
  · have hin : u.inSection = true := TryFrame.inSection_iff.2 ⟨hd.active, hcleaned⟩
    refine .sections ?_
    rw [sectionSpots, List.filterMap_cons, Frame.spot?, hin, if_pos rfl, List.map_cons, hd.spot]
    exact hspots'.cons_cons _
  · refine .closer hblocks ?_ hd.active ?_ hspots'
    · rw [hsuite, hp]
      exact hclose
    · rw [hd.spot, s'.depth_eq, ← List.length_map (f := Level.blocks), hpost]

/-! ## 4. One command -/

/-- The call of the anchor goes on, if the anchor runs on. -/
theorem sites_next (h : s.Anchored A a above t new ds) (hstep : Step g a s x s') (hx : ∀ f, x ≠ .unhandled f)
    (hbears : s'.Bears (.guarded t') A.rest A.post) :
    s'.sites.drop (s'.depth - A.work.depth) = A.start.sites := by
  have hempty (hnil : s'.blocks = []) : A.work.depth ≠ s'.depth := by
    intro heq
    obtain ⟨inner, hinner⟩ := hbears
    have hin : (s'.depth, Frame.guarded t') ∈ Flow.placed s'.blockStacks := by
      rw [hinner, ← heq, A.depth_eq]
      simp
    rw [s'.blockStacks_eq, s'.depth_eq, ← List.length_map (f := Level.blocks), mem_placed_top, hnil] at hin
    cases hin
  have hbefore := A.depth_eq ▸ h.bears.depth_le
  exact (hstep.drop_sites hx hbefore (A.depth_eq ▸ hbears.depth_le) hempty).trans h.sites

/-- **What waits after a command** above the anchor, which runs on. -/
theorem waiting_next (h : s.Anchored A a above t new ds) (hs : s.Sound a) {left : List Deferred}
    (hrem : s.Remains a s' A above new left ds) (hsuite : s'.suite = s.suite)
    (hplaced' : Flow.placed s'.blockStacks = above' ++ (A.work.depth, .guarded t') :: A.ground.below)
    (hopener : t'.opener = t.opener) (hne : ∀ y ∈ above', (y.1, y.2.opener) ≠ A.work.spot)
    (hspots : (left.map Deferred.spot).Sublist (sectionSpots above')) (hmem : A.work ∈ s'.deferred) :
    ∃ new' ds', s'.deferred = new' ++ A.work :: ds' ∧ ds'.Sublist ds ∧
      s'.Awaits (s'.pending.getD a.next) above' new' ∧ ∀ e ∈ new', e.Rooted s.suite := by
  have hrooted : ∀ e ∈ left, e.Rooted s.suite := fun e he => h.rooted e (hrem.kept.subset he)
  obtain ⟨hleft, hds⟩ := h.work_notMem hs hrem
  cases hrem.recounts with
  | forget kept =>
    obtain ⟨left', ds', hdeferred, hleft', hds'⟩ := exists_split_of_sublist kept hmem hleft hds
    exact ⟨left', ds', hdeferred, hds', .sections ((hleft'.map Deferred.spot).trans hspots),
      fun e he => hrooted e (hleft'.subset he)⟩
  | defer hd =>
    cases above' with
    | nil =>
      obtain ⟨hdeferred, hds'⟩ := h.defers_nil hrem hd hplaced' hopener hspots hmem
      exact ⟨[], _, hdeferred, hds', .sections (List.nil_sublist _), nofun⟩
    | cons y above' =>
      obtain ⟨left', ds', rfl, hleft', hds', hawaits, hroot⟩ :=
        h.defers_cons hs hrem hsuite hd hplaced' (hne y List.mem_cons_self) hspots hmem
      exact ⟨_ :: left', ds', hd.deferred, hds', hawaits,
        List.forall_mem_cons.2 ⟨hroot, fun e he => hrooted e (hleft'.subset he)⟩⟩
  | @replace d es goal transfers newest deferred depth unmoved =>
    cases left with
    | nil =>
      -- the fault of the anchor stays deferred
      obtain ⟨rfl, rfl⟩ := List.cons.inj newest
      rw [deferred] at hmem
      rcases List.mem_cons.1 hmem with heq | hin
      · have := congrArg Deferred.work heq
        cases A.carries.symm.trans this
      · exact absurd hin hds
    | cons e left =>
      obtain ⟨rfl, rfl⟩ := List.cons.inj newest
      refine ⟨_ :: left, _, deferred, List.Sublist.refl _, .sections hspots, ?_⟩
      refine List.forall_mem_cons.2 ⟨?_, fun e he => hrooted e (List.mem_cons_of_mem _ he)⟩
      exact h.rooted_of_replace hs transfers (hrem.spots.subset List.mem_cons_self) depth

/-- **One command of a section** takes up the work of the anchor, or goes on inside the section. -/
theorem step (h : s.Anchored A a above t new ds) (hs : s.Sound a) (hp : s.pending = none)
    (hstep : Step g a s x s') (hx : ∀ f, x ≠ .unhandled f) (hs' : s'.Sound (s'.pending.getD a.next))
    (hrest : ∀ u rest e es, s.TakesUp a u rest e es → s.Recounts a s' es) (hkeeps : s.KeepsSections a s')
    (hexit : ∀ t rest d ds origin, ¬s.Resumes a t rest d ds origin .exit) (hmem : A.work ∈ s'.deferred) :
    s.TakesUp a t A.rest A.work ds ∧ s.outer.map Level.blocks = A.post ∨
      ∃ above' t' new' ds', s'.Anchored A (s'.pending.getD a.next) above' t' new' ds' := by
  rcases h.remains hs hrest (hstep.recounts hx) with hend | ⟨left, hrem⟩
  · exact .inl hend
  rcases hkeeps t A.rest A.post h.bears h.inSection h.exists_waits with ⟨t', hbears⟩ | ⟨htop, hclose⟩
  · have hsuite := hstep.kept.1
    have hsites := h.sites_next hstep hx hbears
    have hstands := h.stands_next hs hp hstep hx hs' hbears hsites hexit
    rw [← hsuite] at hstands
    obtain ⟨above', hplaced'⟩ := hbears
    have hplaced' : Flow.placed s'.blockStacks = above' ++ (A.work.depth, .guarded t') :: A.ground.below :=
      A.depth_eq ▸ hplaced'
    obtain ⟨hopener, hin, hspots⟩ := h.outlives hrem (hstep.shift hx) hkeeps hplaced'
    have hne : ∀ y ∈ above', (y.1, y.2.opener) ≠ A.work.spot := fun y hy =>
      (hstands.ne_spot_of_placed hs' hplaced' hy).trans_eq (Prod.ext rfl (hopener.trans h.opener))
    obtain ⟨new', ds', hdeferred, hds', hawaits, hrooted⟩ :=
      h.waiting_next hs hrem hsuite hplaced' hopener hne hspots hmem
    exact .inr ⟨above', t', new', ds', hplaced', hopener.trans h.opener, hin, hdeferred, hds'.trans h.others,
      hawaits, hsuite ▸ hrooted, hsites, hstands⟩
  · -- the closer of the anchor
    obtain ⟨-, hpost⟩ := List.cons.inj (s.blockStacks_eq.symm.trans htop)
    have hdepth : s.depth = A.work.depth := by
      rw [s.depth_eq, A.depth_eq, ← hpost, List.length_map]
    exact .inl (h.takesUp_of_closer hs hdepth hclose)

end Session.Anchored

end

/-! ## 5. Sections that keep what is inside them -/

section

variable {σ : Type} {g : Setting} {host : Host σ} {m₀ m m' m₁ m₂ : Moment σ} {A : Anchor} {a : Address}
  {above : List (Nat × Frame)} {t t₁ : TryFrame} {new ds : List Deferred} {d : Deferred} {f : Fault} {x : StepResult}

/-- A run of commands through moments at which some work is deferred, none of which leaves a cleanup section that
work waits for. -/
inductive Keeping (g : Setting) (host : Host σ) (d : Deferred) : Moment σ → Moment σ → Prop
  | start {m : Moment σ} (holds : d ∈ m.session.deferred) : Keeping g host d m m
  | step {m m' m'' : Moment σ} {x : StepResult} {a : Address} (before : Keeping g host d m m')
      (next : m'.next? = some a) (advance : m'.advance g host = some (x, m'')) (handled : ∀ f, x ≠ .unhandled f)
      (goesOn : m''.session.exitRequested = false) (keeps : m'.session.KeepsSections a m''.session)
      (holds : d ∈ m''.session.deferred) : Keeping g host d m m''

/-- **A cleanup section runs to its closer, and leaves none on the way that work waits for.** -/
structure SectionKeeps (g : Setting) (host : Host σ) (d : Deferred) (m m' : Moment σ) : Prop
    extends SectionRuns g host d m m' where
  keeping : Keeping g host d m m'

theorem Keeping.along (h : Keeping g host d m m') : Along g host (fun s => d ∈ s.deferred) m m' := by
  induction h with
  | start holds => exact .start holds
  | step before next advance handled goesOn keeps holds ih => exact ih.step advance handled goesOn holds

namespace Session.Anchored

/-- The session as the next command finds it. -/
theorem next (h : m.session.Anchored A m.place above t new ds) (ha : m.next? = some a) :
    (m.session.poise (some a)).Anchored A a above t new ds := by
  rw [m.place_of_next? ha] at h
  exact h.poise _

/-- **One command of a run** takes up the work of the anchor, or goes on inside the section. -/
theorem advance (h : m.session.Anchored A m.place above t new ds) (hm₀ : m₀.Starts) (hreach : Reachable g host m₀ m)
    (ha : m.next? = some a) (hadv : m.advance g host = some (x, m')) (hx : ∀ f, x ≠ .unhandled f)
    (hgo : m'.session.exitRequested = false) (hkeeps : m.session.KeepsSections a m'.session)
    (hexit : ∀ e es, m.TakesUpExit e es → e = A.work) (hmem : A.work ∈ m'.session.deferred) :
    (m.session.poise (some a)).TakesUp a t A.rest A.work ds ∧ m.session.outer.map Level.blocks = A.post ∨
      ∃ above' t' new' ds', m'.session.Anchored A m'.place above' t' new' ds' := by
  obtain ⟨a', ha', -, hfollow, hstep⟩ := Moment.step_of_advance (hreach.sound hm₀) hadv
  cases ha.symm.trans ha'
  have hpoised : m.poised.session = m.session.poise (some a) := by rw [← ha]; rfl
  have hplace : m'.place = m'.session.pending.getD a.next := by rw [Moment.place, hfollow]
  have hsound := (hreach.step hadv hx hgo).sound hm₀
  rw [hplace] at hsound ⊢
  -- the work of the anchor is a fault, so no end of the run is taken up
  have hresumes (u : TryFrame) (rest : List Frame) (e : Deferred) (es : List Deferred) (origin : Address) :
      ¬(m.session.poise (some a)).Resumes a u rest e es origin .exit := by
    intro hr
    have := hexit e es ⟨a, u, rest, origin, ha, hpoised ▸ hr⟩
    cases A.carries.symm.trans (this ▸ hr.work)
  exact (h.next ha).step (hreach.sound_poise hm₀ ha) rfl hstep hx hsound
    (fun u rest e es hu => hpoised ▸ hreach.recounts_rest hm₀ hadv hx ha (hpoised ▸ hu)) hkeeps hresumes hmem

end Session.Anchored

end

end BlockFlow.Flow
