/-
# Innermost regions

`Suite.region?` takes the last of the loops, functions and tries around an address, and for a try the
first of six ways to cut out a section.  `Suite.InnermostRegion` says what that should find, without a
search: the region of the loop, function or try around the address that opens last, which for a try is
the section with the address in it.

`Suite.innermost_regions` says that this is what is found at every address that holds no `endTry`, and
that a jump between two such addresses of a unit is accepted exactly when they have one region.  To be
accepted is then an equivalence on them, and the regions are its classes.
-/
import BlockFlow.Proofs.Boundaries

namespace BlockFlow

/-! ## 1. What an innermost region is -/

namespace Block

/-- A section of a try goes from the command it begins with up to, and not including, the command that
ends it. -/
def sectionSpan? (b : Block) (e : Address) : Section → Option (Address × Address)
  | .body => some (b.address, min (b.catchAt.getD e) (b.finallyAt.getD e))
  | .handler => b.catchAt.map fun p => (p, b.finallyAt.getD e)
  | .cleanup => b.finallyAt.map fun p => (p, e)

/-- The region at an address of the construct from a block to a closer: a loop or a function as a whole,
and the section of a try that the address is in. -/
inductive RegionAt (b : Block) (e locus : Address) : Region → Prop
  | loop : b.nature? = some .loop → b.RegionAt e locus ⟨b.address, e, .loop b.keyword⟩
  | function : b.nature? = some .function →
      b.RegionAt e locus ⟨b.address, e, .function (b.name.getD "")⟩
  | part {part top bottom} : b.nature? = some .guarded → b.sectionSpan? e part = some (top, bottom) →
      top ≤ locus → locus < bottom → b.RegionAt e locus ⟨top, bottom, .tryPart part b.name⟩

end Block

namespace Suite

/-- Of the loops, functions and tries around an address, the one with an opener opens last. -/
def OpensLast (s : Suite) (locus o : Address) : Prop :=
  s.Borders o locus ∧ ∀ o', s.Borders o' locus → o' ≤ o

/-- **The innermost region around an address**: that of the loop, function or try around it that opens
last, and none outside all of them. -/
inductive InnermostRegion (s : Suite) (locus : Address) : Option Region → Prop
  | outside : (∀ o, ¬s.Borders o locus) → s.InnermostRegion locus none
  | inside {o e b r} : s.OpensLast locus o → s.blockAt? o = some b → b.closer = some e →
      b.RegionAt e locus r → s.InnermostRegion locus (some r)

end Suite

/-! ## 2. The section of a try -/

namespace Block

variable {b : Block} {e locus : Address} {r : Region}

/-- The borders of a try, as far as it has them, stand in order. -/
structure Ordered (b : Block) (e : Address) : Prop where
  caught : ∀ p, b.catchAt = some p → b.address < p ∧ p < e
  cleaned : ∀ p, b.finallyAt = some p → b.address < p ∧ p < e
  sections : ∀ p q, b.catchAt = some p → b.finallyAt = some q → p < q

/-- The first way to cut out a section that fits an address gives a section with the address in it. -/
theorem Ordered.sectionSpan?_of_sectionAt? (h : b.Ordered e) (he : b.closer = some e)
    (hr : b.sectionAt? locus = some r) : ∃ part, b.sectionSpan? e part = some (r.top, r.bottom) ∧
      r.top ≤ locus ∧ locus < r.bottom ∧ r.kind = .tryPart part b.name := by
  obtain ⟨hcaught, hcleaned, hsections⟩ := h
  unfold Block.sectionAt? Block.sections at hr
  unfold sectionSpan?
  cases hcatch : b.catchAt <;> cases hfinally : b.finallyAt <;>
    simp only [he, hcatch, hfinally, List.findSome?] at hr hcaught hcleaned hsections <;> grind

/-- No address is in two sections of a try. -/
theorem Ordered.sectionSpan?_unique {part part' : Section} {top top' bottom bottom' : Address}
    (h : b.Ordered e)
    (hs : b.sectionSpan? e part = some (top, bottom)) (hin : top ≤ locus ∧ locus < bottom)
    (hs' : b.sectionSpan? e part' = some (top', bottom')) (hin' : top' ≤ locus ∧ locus < bottom') :
    part = part' ∧ top = top' ∧ bottom = bottom' := by
  obtain ⟨hcaught, hcleaned, hsections⟩ := h
  cases hcatch : b.catchAt <;> cases hfinally : b.finallyAt <;> cases part <;> cases part' <;>
    simp only [sectionSpan?, hcatch, hfinally] at hs hs' hcaught hcleaned hsections <;> grind

/-- A construct has one region at an address at most. -/
theorem RegionAt.unique {t : Region} (hr : b.RegionAt e locus r) (ht : b.RegionAt e locus t)
    (h : b.Ordered e) : r = t := by
  cases hr with
  | loop hn =>
    cases ht with
    | loop => rfl
    | function hn' => cases hn.symm.trans hn'
    | part hn' => cases hn.symm.trans hn'
  | function hn =>
    cases ht with
    | loop hn' => cases hn.symm.trans hn'
    | function => rfl
    | part hn' => cases hn.symm.trans hn'
  | part hn hs hle hlt =>
    cases ht with
    | loop hn' => cases hn.symm.trans hn'
    | function hn' => cases hn.symm.trans hn'
    | part _ hs' hle' hlt' =>
      obtain ⟨rfl, rfl, rfl⟩ := h.sectionSpan?_unique hs ⟨hle, hlt⟩ hs' ⟨hle', hlt'⟩
      rfl

end Block

namespace Suite

variable {s : Suite} {start goal locus o e : Address} {b : Block} {r : Region}

/-! ## 3. The region that is found -/

/-- The borders of a try are between its opener and its closer. -/
theorem Nested.ordered (h : s.Nested) (hb : s.blockAt? o = some b) (hn : b.nature?.isSome)
    (he : b.closer = some e) : b.Ordered e := by
  have hborder {k : Keyword} {p : Address} (hp : p ∈ b.partsOf k) (hk : k.closes? = none) :
      b.address < p ∧ p < e := by
    obtain ⟨c, hc, rfl, -⟩ := h.part hb hn hp
    obtain ⟨e', he', hlt, hle⟩ := h.spans_of_isPart (h.isPart_of_mem hb hn hp)
    have hconstruct : s.Construct o e := ⟨b, hb, hn, he⟩
    cases hconstruct.unique he'
    refine ⟨h.address hb ▸ hlt, lt_of_le_of_ne hle ?_⟩
    rintro rfl
    exact h.not_construct (h.keyword hc) hk hconstruct
  constructor
  case caught => exact fun p hp => hborder (k := .catchError) (by simp [Block.partsOf, hp]) rfl
  case cleaned => exact fun p hp => hborder (k := .finallyDo) (by simp [Block.partsOf, hp]) rfl
  case sections => exact fun p q => h.sections hb hn

theorem Borders.opens (ho : s.Borders o locus) (hb : s.blockAt? o = some b) : b.nature?.isSome := by
  obtain ⟨-, n, -, c, hc, hn⟩ := ho
  cases hb.symm.trans hc
  rw [hn]
  rfl

/-- What a construct gives as its region at an address is its region there. -/
theorem Nested.regionAt_of_regionOf? (h : s.Nested) (hb : s.blockAt? o = some b) (hn : b.nature?.isSome)
    (he : b.closer = some e) (hr : regionOf? locus b = some r) : b.RegionAt e locus r := by
  unfold regionOf? at hr
  split at hr
  · rename_i hloop hclosed
    cases hclosed.symm.trans he
    cases hr
    exact .loop hloop
  · rename_i hfunction hclosed
    cases hclosed.symm.trans he
    cases hr
    exact .function hfunction
  · rename_i hguarded
    obtain ⟨part, hs, hle, hlt, hkind⟩ := (h.ordered hb hn he).sectionSpan?_of_sectionAt? he hr
    obtain ⟨top, bottom, kind⟩ := r
    cases hkind
    exact .part hguarded hs hle hlt
  · cases hr

/-- The last of the constructs around an address is the one that opens last. -/
theorem Nested.opensLast_of_getLast? (h : s.Nested) (hb : (s.around locus).getLast? = some b) :
    s.OpensLast locus b.address := by
  refine ⟨((mem_around h).1 (List.mem_of_getLast? hb)).2, fun o ho => ?_⟩
  obtain ⟨n, -, c, hc, -⟩ := ho.2
  have hmem : c ∈ s.around locus := by
    rw [mem_around h, h.address hc]
    exact ⟨hc, ho⟩
  exact h.address hc ▸ le_of_getLast?_around h hb hmem

theorem OpensLast.unique {o' : Address} (ho : s.OpensLast locus o) (ho' : s.OpensLast locus o') : o = o' :=
  le_antisymm (ho'.2 o ho.1) (ho.2 o' ho'.1)

/-- An address has one innermost region at most. -/
theorem InnermostRegion.unique {r t : Option Region} (hr : s.InnermostRegion locus r)
    (ht : s.InnermostRegion locus t) (h : s.Nested) : r = t := by
  cases hr with
  | outside hout =>
    cases ht with
    | outside => rfl
    | inside ho => exact absurd ho.1 (hout _)
  | inside ho hb he hr =>
    cases ht with
    | outside hout => exact absurd ho.1 (hout _)
    | inside ho' hb' he' ht =>
      cases ho.unique ho'
      cases hb.symm.trans hb'
      cases he.symm.trans he'
      rw [hr.unique ht (h.ordered hb (ho.1.opens hb) he)]

/-- **The region that is found** is the innermost one. -/
theorem Nested.innermostRegion (h : s.Nested) (hlocus : ¬s.ClosesTry locus) :
    s.InnermostRegion locus (s.region? locus) := by
  cases hr : s.region? locus with
  | none => exact .outside ((h.region?_eq_none_iff.1 hr).resolve_left hlocus)
  | some r =>
    obtain ⟨b, hb, hbr⟩ := region?_eq_some_iff.1 hr
    obtain ⟨hat, ho⟩ := (mem_around h).1 (List.mem_of_getLast? hb)
    obtain ⟨e, he⟩ := h.closed hat (ho.opens hat)
    exact .inside (h.opensLast_of_getLast? hb) hat he (h.regionAt_of_regionOf? hat (ho.opens hat) he hbr)

theorem Nested.region?_eq_iff {t : Option Region} (h : s.Nested) (hlocus : ¬s.ClosesTry locus) :
    s.region? locus = t ↔ s.InnermostRegion locus t :=
  ⟨fun ht => ht ▸ h.innermostRegion hlocus, fun ht => (h.innermostRegion hlocus).unique ht h⟩

/-! ## 4. The classes of addresses that jumps may join -/

/-- A jump between two addresses that close no try is accepted exactly when they have one region. -/
theorem Nested.checkJump_eq_ok_iff_region? (h : s.Nested) (hunit : start.unit = goal.unit)
    (hstart : ¬s.ClosesTry start) (hgoal : ¬s.ClosesTry goal) :
    s.checkJump start goal = .ok () ↔ s.region? start = s.region? goal := by
  constructor
  · exact fun hj => (h.sameSide_of_checkJump hj hstart hgoal).region?_eq h hstart hgoal
  · intro heq
    refine checkJump_eq_ok_iff_regions.2 ⟨hunit, ?_⟩
    cases hr : s.region? start with
    | none => exact .inl ⟨rfl, heq ▸ hr⟩
    | some r => exact .inr ⟨r, r, rfl, heq ▸ hr, by simp [Region.sameSpan]⟩

/-- The closer of a try is an `endTry`. -/
theorem Nested.not_closesTry_of_keyword (h : s.Nested) (hlocus : s.keywordAt? locus ≠ some .endTry) :
    ¬s.ClosesTry locus := by
  rintro ⟨o, ⟨b, hb, hn⟩, he⟩
  obtain ⟨b', k, hb', hk, hc⟩ := h.keyword_of_construct he
  cases hb.symm.trans hb'
  refine hlocus (hk.trans ?_)
  rw [Block.nature?] at hn
  cases hbk : b.keyword <;> rw [hbk] at hn hc <;> cases hn
  cases k <;> first | rfl | cases hc

/-- An address of a unit that holds no `endTry`. -/
def Plain (s : Suite) (u : Nat) : Type := {a : Address // a.unit = u ∧ s.keywordAt? a ≠ some .endTry}

/-- **The innermost region is found**, and the addresses of a unit that a jump may join are those with
one region. -/
theorem innermost_regions {units : List ScriptUnit} (h : Suite.compile units = .ok s) :
    (∀ locus, s.keywordAt? locus ≠ some .endTry →
      ∀ t, s.region? locus = t ↔ s.InnermostRegion locus t) ∧
    (∀ u (a c : s.Plain u), s.checkJump a.1 c.1 = .ok () ↔ s.region? a.1 = s.region? c.1) ∧
    ∀ u, Equivalence fun a c : s.Plain u => s.checkJump a.1 c.1 = .ok () := by
  have hnested := nested_of_compile h
  have hopen {locus : Address} (hlocus : s.keywordAt? locus ≠ some .endTry) :=
    hnested.not_closesTry_of_keyword hlocus
  have hjump (u : Nat) (a c : s.Plain u) :
      s.checkJump a.1 c.1 = .ok () ↔ s.region? a.1 = s.region? c.1 :=
    hnested.checkJump_eq_ok_iff_region? (a.2.1.trans c.2.1.symm) (hopen a.2.2) (hopen c.2.2)
  refine ⟨fun locus hlocus t => hnested.region?_eq_iff (hopen hlocus), hjump, fun u => ?_⟩
  constructor
  case refl => exact fun a => (hjump u a a).2 rfl
  case symm => exact fun hac => (hjump u _ _).2 ((hjump u _ _).1 hac).symm
  case trans => exact fun hac hcd => (hjump u _ _).2 (((hjump u _ _).1 hac).trans ((hjump u _ _).1 hcd))

/-- Between a `catch` and a `finally`, with a conditional around. -/
theorem innermost_region_of_catch : ∃ s, Suite.compile [.named "main" [{ name := "while", target := "true" },
      { name := "try", target := "t" }, { name := "catch", target := "Error" },
      { name := "if", target := "true" }, { name := "echo" }, { name := "endIf" }, { name := "finally" },
      { name := "endTry" }, { name := "endWhile" }]] = .ok s ∧
    s.InnermostRegion ⟨0, 4⟩ (some ⟨⟨0, 2⟩, ⟨0, 6⟩, .tryPart .handler (some "t")⟩) := by
  obtain ⟨s, hs, hk, hr⟩ : ∃ (s : Suite), Suite.compile [.named "main"
        [{ name := "while", target := "true" }, { name := "try", target := "t" },
          { name := "catch", target := "Error" }, { name := "if", target := "true" }, { name := "echo" },
          { name := "endIf" }, { name := "finally" }, { name := "endTry" }, { name := "endWhile" }]] = .ok s ∧
      s.keywordAt? ⟨0, 4⟩ ≠ some .endTry ∧
      s.region? ⟨0, 4⟩ = some ⟨⟨0, 2⟩, ⟨0, 6⟩, .tryPart .handler (some "t")⟩ :=
    ⟨_, rfl, by decide, rfl⟩
  exact ⟨s, hs, ((innermost_regions hs).1 _ hk _).1 hr⟩

end Suite

end BlockFlow
