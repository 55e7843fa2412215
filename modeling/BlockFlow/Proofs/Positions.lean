/-
# Positions on the stacks

A construct that is running stands at a position: the depth of its call, with its index on the stack of
that call, counted from the outermost construct on.  `Session.frameAt?` looks a position up, and `located`
lists the constructs of stacks with their positions, innermost first, so that positions go down along it.

Deferred work waits at the position of the try whose closer takes it up (`Session.WaitsAt`).  In a session
that is `Matched` the deferred work, oldest first, waits at positions that go up
(`Session.Matched.exists_positions`), and each work waits at one position only, where no other work does.
-/
import Mathlib.Data.List.Forall2
import BlockFlow.Proofs.Shifts

namespace BlockFlow.Flow

/-! ## 1. Positions -/

/-- A place on the stacks: the depth of a call, with an index on its stack. -/
structure Position where
  depth : Nat
  /-- Counted from the outermost construct of the call on. -/
  index : Nat
  deriving Repr, DecidableEq

/-- Positions are ordered by the depths of their calls, and in one call by their indices. -/
def Position.Before (p q : Position) : Prop := p.depth < q.depth ∨ p.depth = q.depth ∧ p.index < q.index

instance (p q : Position) : Decidable (p.Before q) := by
  unfold Position.Before
  infer_instance

theorem Position.not_before_self (p : Position) : ¬p.Before p := by
  rintro (h | ⟨-, h⟩)
  · exact lt_irrefl _ h
  · exact lt_irrefl _ h

/-- The construct at a position. -/
def Session.frameAt? (s : Session) (p : Position) : Option Frame :=
  (s.stackAt? p.depth).bind fun fs => fs.reverse[p.index]?

/-- The constructs of a call at a depth with their positions, innermost first. -/
def locatedIn (depth : Nat) : List Frame → List (Position × Frame)
  | [] => []
  | f :: fs => (⟨depth, fs.length⟩, f) :: locatedIn depth fs

/-- The constructs of stacks with their positions, innermost first. -/
def located : List (List Frame) → List (Position × Frame)
  | [] => []
  | fs :: fss => locatedIn (fss.length + 1) fs ++ located fss

section

variable {α : Type} {l : List α} {y : α} {i : Nat}

/-- An index that is counted from the end of a list splits the list. -/
theorem getElem?_reverse_eq_some_iff :
    l.reverse[i]? = some y ↔ ∃ pre post, l = pre ++ y :: post ∧ post.length = i := by
  constructor
  · intro h
    obtain ⟨hi, rfl⟩ := List.getElem?_eq_some_iff.1 h
    refine ⟨(l.reverse.drop (i + 1)).reverse, (l.reverse.take i).reverse, ?_, ?_⟩
    · conv_lhs => rw [← l.reverse_reverse, ← List.take_append_drop i l.reverse, List.drop_eq_getElem_cons hi]
      simp
    · rw [List.length_reverse, List.length_take]
      omega
  · rintro ⟨pre, post, rfl, rfl⟩
    simp

end

section

variable {A post : List (List Frame)} {fs rest : List Frame} {f : Frame} {p q : Position} {n : Nat}
  {s : Session}

theorem mem_locatedIn : (p, f) ∈ locatedIn n fs ↔
    ∃ above rest, fs = above ++ f :: rest ∧ p = ⟨n, rest.length⟩ := by
  induction fs with
  | nil => simp [locatedIn]
  | cons g fs ih =>
    rw [locatedIn, List.mem_cons, ih]
    constructor
    · rintro (heq | ⟨above, rest, rfl, rfl⟩)
      · cases heq
        exact ⟨[], fs, rfl, rfl⟩
      · exact ⟨g :: above, rest, rfl, rfl⟩
    · rintro ⟨_ | ⟨g', above⟩, rest, heq, rfl⟩
      · obtain ⟨rfl, rfl⟩ := List.cons.inj heq
        exact .inl rfl
      · obtain ⟨rfl, rfl⟩ := List.cons.inj heq
        exact .inr ⟨above, rest, rfl, rfl⟩

/-- The constructs that are listed are those on the stacks. -/
theorem mem_located : (p, f) ∈ located A ↔
    ∃ rest post, Bears A f rest post ∧ p = ⟨post.length + 1, rest.length⟩ := by
  simp only [bears_iff]
  induction A with
  | nil => simp [located]
  | cons fs fss ih =>
    rw [located, List.mem_append, mem_locatedIn, ih]
    constructor
    · rintro (⟨above, rest, rfl, rfl⟩ | ⟨rest, post, ⟨pre, above, rfl⟩, rfl⟩)
      · exact ⟨rest, fss, ⟨[], above, rfl⟩, rfl⟩
      · exact ⟨rest, post, ⟨fs :: pre, above, rfl⟩, rfl⟩
    · rintro ⟨rest, post, ⟨_ | ⟨gs, pre⟩, above, heq⟩, rfl⟩
      · obtain ⟨rfl, rfl⟩ := List.cons.inj heq
        exact .inl ⟨above, rest, rfl, rfl⟩
      · obtain ⟨rfl, rfl⟩ := List.cons.inj heq
        exact .inr ⟨rest, post, ⟨pre, above, rfl⟩, rfl⟩

theorem Session.stackAt?_eq_some_iff : s.stackAt? n = some fs ↔
    ∃ pre post, s.blockStacks = pre ++ fs :: post ∧ n = post.length + 1 := by
  unfold Session.stackAt?
  split
  · rename_i hn
    simp [hn]
  · rw [getElem?_reverse_eq_some_iff]
    exact exists₂_congr fun pre post => and_congr_right fun _ => by omega

/-- The construct at a position is the one that is listed with it. -/
theorem Session.frameAt?_eq_some_iff : s.frameAt? p = some f ↔ (p, f) ∈ located s.blockStacks := by
  unfold Session.frameAt?
  simp only [mem_located, bears_iff, Option.bind_eq_some_iff, Session.stackAt?_eq_some_iff,
    getElem?_reverse_eq_some_iff]
  constructor
  · rintro ⟨fs, ⟨pre, post, hA, hdepth⟩, above, rest, rfl, hindex⟩
    exact ⟨rest, post, ⟨pre, above, hA⟩, by rw [← hdepth, hindex]⟩
  · rintro ⟨rest, post, ⟨pre, above, hA⟩, rfl⟩
    exact ⟨_, ⟨pre, post, hA, rfl⟩, above, rest, rfl, rfl⟩

/-- The innermost construct has the last position of its call. -/
theorem Session.frameAt?_top (hb : s.blocks = f :: rest) : s.frameAt? ⟨s.depth, rest.length⟩ = some f := by
  refine Session.frameAt?_eq_some_iff.2 (mem_located.2 ⟨rest, s.outer.map Level.blocks, .of_top ?_, ?_⟩)
  · rw [s.blockStacks_eq, hb]
  · rw [List.length_map, ← s.depth_eq]

/-! ## 2. The order of the constructs -/

theorem pairwise_locatedIn : (locatedIn n fs).Pairwise fun x y => y.1.Before x.1 := by
  induction fs with
  | nil => exact .nil
  | cons g fs ih =>
    refine List.pairwise_cons.2 ⟨fun ⟨p, f⟩ hp => ?_, ih⟩
    obtain ⟨above, rest, rfl, rfl⟩ := mem_locatedIn.1 hp
    exact .inr ⟨rfl, by simp only [List.length_append, List.length_cons]; omega⟩

/-- **Positions go down** from the innermost construct on. -/
theorem pairwise_located : (located A).Pairwise fun x y => y.1.Before x.1 := by
  induction A with
  | nil => exact .nil
  | cons fs fss ih =>
    refine List.pairwise_append.2 ⟨pairwise_locatedIn, ih, fun ⟨p, f⟩ hp ⟨q, f'⟩ hq => ?_⟩
    obtain ⟨-, -, -, rfl⟩ := mem_locatedIn.1 hp
    obtain ⟨rest, post, hbears, rfl⟩ := mem_located.1 hq
    obtain ⟨pre, above, rfl⟩ := bears_iff.1 hbears
    exact .inl (by simp only [List.length_append, List.length_cons]; omega)

/-- The constructs with their positions are those with the depths of their calls. -/
theorem placed_eq_map : placed A = (located A).map fun x => (x.1.depth, x.2) := by
  have hin (n : Nat) (fs : List Frame) :
      (locatedIn n fs).map (fun x => (x.1.depth, x.2)) = fs.map fun f => (n, f) := by
    induction fs with
    | nil => rfl
    | cons f fs ih => exact congrArg _ ih
  induction A with
  | nil => rfl
  | cons fs fss ih => rw [placed, located, List.map_append, hin, ih]

/-- The spots of tries are those of the constructs with their positions. -/
theorem Session.spots_eq_filterMap (s : Session) (kind : TryFrame → Bool) :
    s.spots kind = (located s.blockStacks).filterMap fun x => x.2.spot? kind x.1.depth := by
  have hls (ls : List Level) : spotsOf kind ls =
      (placed (ls.map Level.blocks)).filterMap fun x => x.2.spot? kind x.1 := by
    induction ls with
    | nil => rfl
    | cons L ls ih =>
      rw [spotsOf, spotsIn, List.map_cons, placed, List.filterMap_append, List.filterMap_map, ← ih,
        List.length_map]
      rfl
  rw [s.spots_eq _ default, hls, ← s.blockStacks_eq_levels, placed_eq_map, List.filterMap_map]
  rfl

/-- Constructs of a session whose constructs have openers of their own are told apart by their calls' depths
and their openers. -/
theorem Session.Distinct.eq_of_opener (h : s.Distinct) {f' : Frame} (hp : s.frameAt? p = some f)
    (hq : s.frameAt? q = some f') (hdepth : p.depth = q.depth) (hopener : f.opener = f'.opener) : p = q := by
  have hnodup := h.nodup_placed
  rw [placed_eq_map, List.map_map] at hnodup
  have := List.inj_on_of_nodup_map hnodup (Session.frameAt?_eq_some_iff.1 hp)
    (Session.frameAt?_eq_some_iff.1 hq) (Prod.ext hdepth hopener)
  exact congrArg Prod.fst this

end

/-! ## 3. Lists of images -/

section

variable {α β γ : Type} {l : List α} {g g' : α → Option γ}

theorem filterMap_sublist_filterMap (h : ∀ x y, g x = some y → g' x = some y) :
    (l.filterMap g).Sublist (l.filterMap g') := by
  induction l with
  | nil => exact .slnil
  | cons x l ih =>
    cases hg : g x with
    | some y =>
      rw [List.filterMap_cons_some hg, List.filterMap_cons_some (h x y hg)]
      exact ih.cons_cons _
    | none =>
      rw [List.filterMap_cons_none hg]
      exact ih.trans ((List.sublist_cons_self x l).filterMap g')

/-- What is found in order among the images of a list is matched, in order, with elements of the list. -/
theorem exists_sublist_of_filterMap {h : β → γ} {ds : List β} (hsub : (ds.map h).Sublist (l.filterMap g)) :
    ∃ l' : List α, l'.Sublist l ∧ List.Forall₂ (fun d x => g x = some (h d)) ds l' := by
  induction l generalizing ds with
  | nil =>
    obtain rfl := List.map_eq_nil_iff.1 (List.sublist_nil.1 hsub)
    exact ⟨[], .slnil, .nil⟩
  | cons x l ih =>
    have hskip {ds : List β} (hds : (ds.map h).Sublist (l.filterMap g)) :
        ∃ l' : List α, l'.Sublist (x :: l) ∧ List.Forall₂ (fun d y => g y = some (h d)) ds l' := by
      obtain ⟨l', hl', hall⟩ := ih hds
      exact ⟨l', hl'.cons _, hall⟩
    cases hx : g x with
    | none => exact hskip (List.filterMap_cons_none hx ▸ hsub)
    | some y =>
      rw [List.filterMap_cons_some hx] at hsub
      cases ds with
      | nil => exact ⟨[], List.nil_sublist _, .nil⟩
      | cons d ds =>
        rw [List.map_cons] at hsub
        cases hsub with
        | cons _ hsub => exact hskip (show (List.map h (d :: ds)).Sublist _ from hsub)
        | cons_cons _ hsub =>
          obtain ⟨l', hl', hall⟩ := ih hsub
          exact ⟨x :: l', hl'.cons_cons _, .cons hx hall⟩

end

/-! ## 4. Where deferred work waits -/

/-- **Deferred work waits** at the position of a try that takes part, in the call of the depth that the work
has, whose closer takes the work up. -/
structure Session.WaitsAt (s : Session) (d : Deferred) (p : Position) : Prop where
  depth : p.depth = d.depth
  exists_try : ∃ t, s.frameAt? p = some (.guarded t) ∧ t.isActive = true ∧ t.opener = d.resumeAt

/-- A session whose deferred work, newest first, has the spots of tries that take part, in the order of these,
and whose constructs have openers of their own if any work is deferred. -/
structure Session.Matched (s : Session) : Prop where
  spots : (s.deferred.map Deferred.spot).Sublist (s.spots TryFrame.isActive)
  distinct : s.deferred ≠ [] → s.Distinct

section

variable {s s' : Session} {d e : Deferred} {p q : Position}

theorem Session.matched_of_deferred (h : s.deferred = []) : s.Matched :=
  ⟨by rw [h]; exact List.nil_sublist _, fun hne => absurd h hne⟩

/-- A session matches if its deferred work mirrors its constructs. -/
theorem Session.Mirrors.matched (h : s.Mirrors) (hd : s.Distinct) : s.Matched := by
  refine ⟨List.Sublist.trans h ?_, fun _ => hd⟩
  rw [s.spots_eq_filterMap, s.spots_eq_filterMap]
  refine filterMap_sublist_filterMap fun x y hy => ?_
  obtain ⟨t, hx, hset, hspot⟩ := Frame.spot?_eq_some_iff.1 hy
  exact Frame.spot?_eq_some_iff.2 ⟨t, hx, (TryFrame.isSettled_iff.1 hset).1, hspot⟩

/-- **Deferred work is matched with tries**: oldest first, it waits at positions that go up. -/
theorem Session.Matched.exists_positions (h : s.Matched) :
    ∃ ps, List.Forall₂ s.WaitsAt s.deferred.reverse ps ∧ ps.Pairwise Position.Before := by
  have hspots := h.spots
  rw [s.spots_eq_filterMap] at hspots
  obtain ⟨l, hl, hall⟩ := exists_sublist_of_filterMap hspots
  have hmem := ((List.forall₂_and_left _ _).2 ⟨fun x hx => hl.subset hx, hall.flip⟩).flip
  refine ⟨(l.map Prod.fst).reverse, List.forall₂_reverse_iff.2 (List.forall₂_map_right_iff.2 (hmem.imp ?_)), ?_⟩
  · rintro d ⟨p, f⟩ ⟨hmem, hspot⟩
    obtain ⟨t, rfl, hact, hd⟩ := Frame.spot?_eq_some_iff.1 hspot
    obtain ⟨hdepth, hopener⟩ := Prod.mk.inj hd
    exact ⟨hdepth, t, Session.frameAt?_eq_some_iff.2 hmem, hact, hopener⟩
  · rw [List.pairwise_reverse, List.pairwise_map]
    exact pairwise_located.sublist hl

/-- Deferred work has its try. -/
theorem Session.Matched.exists_waitsAt (h : s.Matched) (hd : d ∈ s.deferred) : ∃ p, s.WaitsAt d p := by
  obtain ⟨ps, hall, -⟩ := h.exists_positions
  obtain ⟨i, hi, rfl⟩ := List.mem_iff_getElem.1 (List.mem_reverse.2 hd)
  exact ⟨_, hall.get hi (hall.length_eq ▸ hi)⟩

/-- Deferred work waits for one try only. -/
theorem Session.Matched.unique (h : s.Matched) (hd : d ∈ s.deferred) (hp : s.WaitsAt d p) (hq : s.WaitsAt d q) :
    p = q := by
  obtain ⟨hdepth, t, ht, -, ho⟩ := hp
  obtain ⟨hdepth', t', ht', -, ho'⟩ := hq
  exact (h.distinct (List.ne_nil_of_mem hd)).eq_of_opener ht ht' (hdepth.trans hdepth'.symm) (ho.trans ho'.symm)

/-- Work that waits at a position has the spot of the try there. -/
theorem Session.WaitsAt.spot_eq (hp : s.WaitsAt d p) (hq : s.WaitsAt e p) : d.spot = e.spot := by
  obtain ⟨hdepth, t, ht, -, ho⟩ := hp
  obtain ⟨hdepth', t', ht', -, ho'⟩ := hq
  cases ht.symm.trans ht'
  exact Prod.ext (hdepth.symm.trans hdepth') (ho.symm.trans ho')

/-- The spots of deferred work are distinct. -/
theorem Session.Matched.pairwise_spot (h : s.Matched) : s.deferred.Pairwise fun d e => d.spot ≠ e.spot := by
  by_cases hne : s.deferred = []
  · rw [hne]
    exact .nil
  · have hnodup := (h.distinct hne).nodup_placed
    rw [placed_eq_map, List.map_map, List.Nodup, List.pairwise_map] at hnodup
    refine List.pairwise_map.1 (List.Pairwise.sublist h.spots ?_)
    rw [s.spots_eq_filterMap, List.pairwise_filterMap]
    refine hnodup.imp fun {x y} hxy b hb c hc => ?_
    obtain ⟨t, hx, -, rfl⟩ := Frame.spot?_eq_some_iff.1 hb
    obtain ⟨u, hy, -, rfl⟩ := Frame.spot?_eq_some_iff.1 hc
    simpa [hx, hy, Frame.opener] using hxy

end

end BlockFlow.Flow
