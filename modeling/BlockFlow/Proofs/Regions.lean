/-
# Where jumps lead

A jump that `Suite.checkJump` accepts stays inside every loop, function and try around its start, and
in the same section of each of those tries: `Suite.Nested.spans_of_checkJump` and
`Suite.Nested.le_section_iff_of_checkJump`.

The reason is that a region determines the construct it is part of: the innermost construct around
the start is then the innermost one around the goal, and everything inside it lies on one side of the
parts of the constructs further out.
-/
import BlockFlow.Proofs.Nesting
import BlockFlow.Suite.Region

namespace BlockFlow.Suite

variable {s : Suite}

/-! ## 1. The innermost construct around an address -/

/-- A loop, a function or a try around an address. -/
def Borders (s : Suite) (o locus : Address) : Prop :=
  s.Spans o locus ∧ ∃ n, n ≠ .conditional ∧ s.Opens n o

theorem spans_iff {b : Block} {locus : Address} (h : s.Nested) (hb : s.blockAt? b.address = some b)
    (hn : b.nature?.isSome) : b.spans locus = true ↔ s.Spans b.address locus := by
  unfold Block.spans
  simp only [Bool.and_eq_true, beq_iff_eq, decide_eq_true_eq, Option.any_eq_true]
  constructor
  · rintro ⟨⟨hu, hlt⟩, e, he, hle⟩
    exact ⟨e, ⟨b, hb, hn, he⟩, .inr ⟨hu, hlt⟩, hle⟩
  · intro hs
    have hu := h.unit_of_spans hs
    obtain ⟨e, ⟨b', hb', -, he⟩, hlt, hle⟩ := hs
    cases hb.symm.trans hb'
    refine ⟨⟨hu.symm, ?_⟩, e, he, hle⟩
    rw [Address.lt_iff] at hlt
    omega

theorem mem_around (h : s.Nested) {b : Block} {locus : Address} :
    b ∈ s.around locus ↔ s.blockAt? b.address = some b ∧ s.Borders b.address locus := by
  unfold around
  simp only [List.mem_filter, List.mem_map, Bool.and_eq_true, Option.any_eq_true, bne_iff_ne]
  constructor
  · rintro ⟨⟨⟨a, b⟩, hmem, rfl⟩, hs, n, hn, hne⟩
    have hb : s.blockAt? a = some b := Dict.get?_eq_some_iff.2 hmem
    have ha : s.blockAt? b.address = some b := by rw [h.address hb]; exact hb
    have hns : b.nature?.isSome := by rw [hn]; rfl
    exact ⟨ha, (spans_iff h ha hns).1 hs, n, hne, b, ha, hn⟩
  · rintro ⟨hb, hs, n, hne, b', hb', hn⟩
    cases hb.symm.trans hb'
    have hns : b.nature?.isSome := by rw [hn]; rfl
    exact ⟨⟨(b.address, b), Dict.get?_eq_some_iff.1 hb, rfl⟩, (spans_iff h hb hns).2 hs, n, hn, hne⟩

/-- The last of the constructs around an address starts last. -/
theorem le_of_getLast?_around (h : s.Nested) {b c : Block} {locus : Address}
    (hb : (s.around locus).getLast? = some b) (hc : c ∈ s.around locus) : c.address ≤ b.address := by
  have hsorted : (s.around locus).Pairwise fun b c => b.address < c.address := by
    refine List.Pairwise.filter _ (List.pairwise_map.2 ?_)
    refine List.Pairwise.imp_of_mem ?_ s.tables.blocks.sorted
    rintro ⟨a, b⟩ ⟨a', b'⟩ hm hm' hlt
    have hb : s.blockAt? a = some b := Dict.get?_eq_some_iff.2 hm
    have hb' : s.blockAt? a' = some b' := Dict.get?_eq_some_iff.2 hm'
    rw [h.address hb, h.address hb']
    exact Address.compare_eq_lt.1 hlt
  obtain ⟨init, hinit⟩ := List.getLast?_eq_some_iff.1 hb
  rw [hinit] at hsorted hc
  rcases List.mem_append.1 hc with hc | hc
  · exact ((List.pairwise_append.1 hsorted).2.2 c hc b (by simp)).le
  · rw [List.mem_singleton.1 hc]

theorem exists_getLast?_around (h : s.Nested) {o locus : Address} (ho : s.Borders o locus) :
    ∃ b, (s.around locus).getLast? = some b := by
  obtain ⟨-, n, -, b, hb, -⟩ := id ho
  have hmem : b ∈ s.around locus := by
    rw [mem_around h, h.address hb]
    exact ⟨hb, ho⟩
  exact Option.ne_none_iff_exists'.1 fun hn => List.ne_nil_of_mem hmem (List.getLast?_eq_none_iff.1 hn)

/-! ## 2. The region of a construct -/

/-- The section of a try around an address begins at the last border that is not after it. -/
theorem sectionAt?_eq_some {b : Block} {locus : Address} {r : Region}
    (hlt : ∀ p q, b.catchAt = some p → b.finallyAt = some q → p < q)
    (hr : b.sectionAt? locus = some r) :
    (r.top = b.address ∨ b.catchAt = some r.top ∨ b.finallyAt = some r.top) ∧ r.top ≤ locus ∧
      ∀ p, b.catchAt = some p ∨ b.finallyAt = some p → p ≤ locus → p ≤ r.top := by
  unfold Block.sectionAt? Block.sections at hr
  cases hq : b.finallyAt <;> cases hp : b.catchAt <;> cases he : b.closer <;>
    simp only [hq, hp, he, List.findSome?] at hr hlt ⊢ <;> grind

/-- A try has a section around every address inside it but the closer. -/
theorem exists_sectionAt? {b : Block} {locus e : Address} (he : b.closer = some e)
    (hle : b.address ≤ locus) (hlt : locus < e) : ∃ r, b.sectionAt? locus = some r := by
  refine Option.isSome_iff_exists.1 (List.findSome?_isSome_iff.2
    ⟨(some b.address, b.closer, .body), by simp [Block.sections], ?_⟩)
  simp [he, hle, hlt]

/-- The `catch` and the `finally` of a try are parts of it. -/
theorem Nested.isPart_border (h : s.Nested) {o p : Address} {b : Block} (hb : s.blockAt? o = some b)
    (hn : b.nature?.isSome) (hp : b.catchAt = some p ∨ b.finallyAt = some p) : s.IsPart o p := by
  have hmem : p ∈ b.partsOf .catchError ∨ p ∈ b.partsOf .finallyDo := by
    simpa [Block.partsOf] using hp
  exact hmem.elim (h.isPart_of_mem hb hn) (h.isPart_of_mem hb hn)

/-- **A region starts at its construct's opener or at a section**, and the sections that begin up to
an address of the region are those that begin up to its start. -/
theorem regionOf?_eq_some (h : s.Nested) {b : Block} {locus : Address} {r : Region}
    (hb : b ∈ s.around locus) (hr : regionOf? locus b = some r) :
    (r.top = b.address ∨ s.IsPart b.address r.top) ∧
      ∀ p, b.catchAt = some p ∨ b.finallyAt = some p → (p ≤ locus ↔ p ≤ r.top) := by
  obtain ⟨hat, ⟨e, -, hlt, -⟩, n, -, b', hb', hn⟩ := (mem_around h).1 hb
  cases hat.symm.trans hb'
  have hns : b.nature?.isSome := by rw [hn]; rfl
  have hsection {p} (hp : b.catchAt = some p ∨ b.finallyAt = some p) : s.IsPart b.address p ∧
      b.nature? = some .guarded := by
    refine ⟨h.isPart_border hat hns hp, ?_⟩
    have hmem : p ∈ b.partsOf .catchError ∨ p ∈ b.partsOf .finallyDo := by
      simpa [Block.partsOf] using hp
    have htry {k : Keyword} (hk : k = .catchError ∨ k = .finallyDo) (hp : p ∈ b.partsOf k) :
        b.nature? = some .guarded := by
      obtain ⟨c, hc, rfl, ho⟩ := h.part hat hns hp
      obtain ⟨b', hb', -, -, -, ⟨hpart, -⟩ | ⟨hpart, -⟩⟩ := h.owner hc ho
      · cases hat.symm.trans hb'
        rw [Block.nature?]
        rcases hk with hk | hk <;> rw [hk] at hpart <;> rw [← Option.some.inj hpart] <;> rfl
      · rcases hk with hk | hk <;> rw [hk] at hpart <;> cases hpart
    exact hmem.elim (htry (.inl rfl)) (htry (.inr rfl))
  unfold regionOf? at hr
  split at hr
  · cases hr
    refine ⟨.inl rfl, fun p hp => ?_⟩
    rename_i hloop _
    cases hloop.symm.trans (hsection hp).2
  · cases hr
    refine ⟨.inl rfl, fun p hp => ?_⟩
    rename_i hfunction _
    cases hfunction.symm.trans (hsection hp).2
  · obtain ⟨htop, hle, hborder⟩ := sectionAt?_eq_some (fun p q => h.sections hat hns) hr
    refine ⟨htop.imp_right fun ht => (hsection ht).1, fun p hp => ⟨hborder p hp, fun hpt => ?_⟩⟩
    exact hpt.trans hle
  · cases hr

/-- The closer of a try is at an address. -/
def ClosesTry (s : Suite) (locus : Address) : Prop := ∃ o, s.Opens .guarded o ∧ s.Construct o locus

/-- An address that is no part of a construct is no closer. -/
theorem Nested.not_closesTry (h : s.Nested) {locus : Address} (hlocus : s.blockAt? locus = none) :
    ¬s.ClosesTry locus := by
  rintro ⟨o, -, ho⟩
  obtain ⟨c, hc, -⟩ := h.isPart_closer ho
  cases hlocus.symm.trans hc

/-- The innermost construct around an address has a region there, unless the address closes a try. -/
theorem exists_regionOf? (h : s.Nested) {b : Block} {locus : Address} (hb : b ∈ s.around locus)
    (hlocus : ¬s.ClosesTry locus) : ∃ r, regionOf? locus b = some r := by
  obtain ⟨hat, ⟨e, he, hlt, hle⟩, n, hne, b', hb', hn⟩ := (mem_around h).1 hb
  cases hat.symm.trans hb'
  obtain ⟨b', hb', -, hbe⟩ := id he
  cases hat.symm.trans hb'
  unfold regionOf?
  cases n with
  | conditional => exact absurd rfl hne
  | guarded =>
    have hne : locus ≠ e := by
      rintro rfl
      exact hlocus ⟨_, ⟨b, hat, hn⟩, he⟩
    simpa only [hn] using exists_sectionAt? hbe hlt.le (lt_of_le_of_ne hle hne)
  | loop => simp [hn, hbe]
  | function => simp [hn, hbe]

/-! ## 3. Accepted jumps -/

/-- **A jump is accepted** within a unit, between two addresses without a region or with one region. -/
theorem checkJump_eq_ok_iff_regions {start goal : Address} : s.checkJump start goal = .ok () ↔
    start.unit = goal.unit ∧ (s.region? start = none ∧ s.region? goal = none ∨
      ∃ r t, s.region? start = some r ∧ s.region? goal = some t ∧ r.sameSpan t) := by
  unfold checkJump
  split
  · simp [*]
  · rename_i hu
    rw [not_not] at hu
    cases s.region? start <;> cases s.region? goal <;> simp [hu]

theorem region?_eq_some_iff {locus : Address} {r : Region} : s.region? locus = some r ↔
    ∃ b, (s.around locus).getLast? = some b ∧ regionOf? locus b = some r :=
  Option.bind_eq_some_iff

/-- **A region determines its construct**, and the sections around it. -/
theorem innermost_of_sameSpan (h : s.Nested) {start goal : Address} {r t : Region}
    (hr : s.region? start = some r) (ht : s.region? goal = some t) (hspan : r.sameSpan t) :
    ∃ b, (s.around start).getLast? = some b ∧ (s.around goal).getLast? = some b ∧
      ∀ p, b.catchAt = some p ∨ b.finallyAt = some p → (p ≤ start ↔ p ≤ goal) := by
  obtain ⟨b, hb, hbr⟩ := region?_eq_some_iff.1 hr
  obtain ⟨c, hc, hct⟩ := region?_eq_some_iff.1 ht
  have hmem := List.mem_of_getLast? hb
  have hmem' := List.mem_of_getLast? hc
  obtain ⟨htop, hsec⟩ := regionOf?_eq_some h hmem hbr
  obtain ⟨htop', hsec'⟩ := regionOf?_eq_some h hmem' hct
  have hsame : r.top = t.top := by
    simp only [Region.sameSpan, Bool.and_eq_true, beq_iff_eq] at hspan
    exact hspan.1
  obtain ⟨hbat, ⟨e, he, -⟩, -⟩ := (mem_around h).1 hmem
  obtain ⟨hcat, ⟨f, hf, -⟩, -⟩ := (mem_around h).1 hmem'
  have haddr : b.address = c.address := by
    rcases htop with htop | htop <;> rcases htop' with htop' | htop'
    · rw [← htop, ← htop', hsame]
    · rw [← hsame, htop] at htop'
      exact absurd rfl (htop'.ne_opener he)
    · rw [hsame, htop'] at htop
      exact absurd rfl (htop.ne_opener hf)
    · exact (hsame ▸ htop).unique htop'
  cases hbat.symm.trans (haddr ▸ hcat)
  exact ⟨b, hb, hc, fun p hp => by rw [hsec p hp, hsec' p hp, hsame]⟩

/-- The innermost construct around the start of an accepted jump is that around its goal. -/
theorem innermost_of_checkJump (h : s.Nested) {start goal o : Address}
    (hj : s.checkJump start goal = .ok ()) (hstart : ¬s.ClosesTry start) (ho : s.Borders o start) :
    ∃ b, (s.around start).getLast? = some b ∧ (s.around goal).getLast? = some b ∧
      ∀ p, b.catchAt = some p ∨ b.finallyAt = some p → (p ≤ start ↔ p ≤ goal) := by
  obtain ⟨b, hb⟩ := exists_getLast?_around h ho
  obtain ⟨r, hr⟩ := exists_regionOf? h (List.mem_of_getLast? hb) hstart
  have hregion : s.region? start = some r := region?_eq_some_iff.2 ⟨b, hb, hr⟩
  obtain ⟨-, ⟨hnone, -⟩ | ⟨r', t, hr', ht, hspan⟩⟩ := checkJump_eq_ok_iff_regions.1 hj
  · cases hregion.symm.trans hnone
  · exact innermost_of_sameSpan h hr' ht hspan

/-- A construct around an address is the innermost one, or around it. -/
theorem spans_innermost (h : s.Nested) {b : Block} {locus o : Address}
    (hb : (s.around locus).getLast? = some b) (ho : s.Borders o locus) :
    o = b.address ∨ s.Spans o b.address := by
  obtain ⟨⟨e, he, hlt, hle⟩, n, -, c, hc, -⟩ := id ho
  have hmem : c ∈ s.around locus := by
    rw [mem_around h, h.address hc]
    exact ⟨hc, ho⟩
  have hob : o ≤ b.address := h.address hc ▸ le_of_getLast?_around h hb hmem
  obtain ⟨-, ⟨f, hf, hlt', hle'⟩, -⟩ := (mem_around h).1 (List.mem_of_getLast? hb)
  rcases hob.eq_or_lt with heq | hlt''
  · exact .inl heq
  · refine .inr ⟨e, he, hlt'', ?_⟩
    exact hlt'.le.trans hle

/-- **An accepted jump stays inside** the loops, functions and tries around its start. -/
theorem Nested.spans_of_checkJump (h : s.Nested) {start goal o : Address}
    (hj : s.checkJump start goal = .ok ()) (hstart : ¬s.ClosesTry start)
    (ho : s.Borders o start) : s.Spans o goal := by
  obtain ⟨b, hb, hc, -⟩ := innermost_of_checkJump h hj hstart ho
  obtain ⟨-, hgoal, -⟩ := (mem_around h).1 (List.mem_of_getLast? hc)
  rcases spans_innermost h hb ho with rfl | hs
  · exact hgoal
  · exact h.spans_trans hs hgoal

/-- **An accepted jump stays in the same section** of the tries around its start. -/
theorem Nested.le_section_iff_of_checkJump (h : s.Nested) {start goal o p : Address} {c : Block}
    (hj : s.checkJump start goal = .ok ()) (hstart : ¬s.ClosesTry start)
    (ho : s.Borders o start) (hc : s.blockAt? o = some c) (hpart : s.IsPart o p)
    (hp : c.catchAt = some p ∨ c.finallyAt = some p) : p ≤ start ↔ p ≤ goal := by
  obtain ⟨b, hb, hgoal, hsec⟩ := innermost_of_checkJump h hj hstart ho
  obtain ⟨hat, hs, -⟩ := (mem_around h).1 (List.mem_of_getLast? hb)
  obtain ⟨-, hs', -⟩ := (mem_around h).1 (List.mem_of_getLast? hgoal)
  rcases spans_innermost h hb ho with rfl | hob
  · cases hat.symm.trans hc
    exact hsec p hp
  · rw [← not_lt, ← not_lt, h.lt_part_iff hpart hob hs hs']

end BlockFlow.Suite
