/-
# Which jumps are accepted

The borders that a jump may not cross are those of the loops, the functions and the sections of tries.
`Suite.Nested.checkJump_eq_ok_iff` says exactly which jumps `Suite.checkJump` accepts: those that stay
within a unit and on the same side of every border, and those between two addresses without a region.

An address without a region is outside everything or it closes a try, and it has none in the latter case
wherever the try is.  The closer of a try inside a loop, a function or another try is therefore treated as
if it were outside: `Suite.accepted_jump_crosses_no_border` says that this is the only way in which an
accepted jump crosses a border.
-/
import BlockFlow.Proofs.Regions

namespace BlockFlow

/-! ## 1. Sides of a border -/

/-- An address is on the side of the borders of a try on which one of its sections is. -/
def Block.InSection (b : Block) (locus : Address) : Section → Prop
  | .body => ∀ p, b.catchAt = some p ∨ b.finallyAt = some p → locus < p
  | .handler => (∃ p, b.catchAt = some p ∧ p ≤ locus) ∧ ∀ p, b.finallyAt = some p → locus < p
  | .cleanup => ∃ p, b.finallyAt = some p ∧ p ≤ locus

namespace Suite

/-- An address is after the opener of a construct and before its closer. -/
def Within (s : Suite) (o locus : Address) : Prop := ∃ e, s.Construct o e ∧ o < locus ∧ locus < e

/-- **Two addresses with no border between them.** -/
structure SameSide (s : Suite) (start goal : Address) : Prop where
  spans {o n} : s.Opens n o → n = .loop ∨ n = .function → (s.Spans o start ↔ s.Spans o goal)
  tries {o} : s.Opens .guarded o → (s.Within o start ↔ s.Within o goal)
  sections {o b} : s.blockAt? o = some b → b.nature? = some .guarded → s.Within o start →
    ∃ part, b.InSection start part ∧ b.InSection goal part

/-- The closer of a try, or an address outside all loops, functions and tries. -/
def Exempt (s : Suite) (locus : Address) : Prop := s.ClosesTry locus ∨ ∀ o, ¬s.Borders o locus

/-- The closer of a try that is inside another try, a loop or a function. -/
def Hidden (s : Suite) (locus : Address) : Prop :=
  ∃ t o, s.Opens .guarded t ∧ s.Construct t locus ∧ s.Borders o locus ∧ o ≠ t

variable {s : Suite} {start goal locus o e : Address} {b : Block}

theorem Within.spans (h : s.Within o locus) : s.Spans o locus := by
  obtain ⟨e, he, hlt, hle⟩ := h
  exact ⟨e, he, hlt, hle.le⟩

theorem Within.not_construct (h : s.Within o locus) : ¬s.Construct o locus := by
  obtain ⟨e, he, -, hlt⟩ := h
  intro he'
  cases he.unique he'
  exact lt_irrefl _ hlt

/-- A construct around an address that closes no try is a loop or a function, or a try that the address
is inside. -/
theorem borders_iff (h : ¬s.ClosesTry locus) : s.Borders o locus ↔
    (∃ n, (n = .loop ∨ n = .function) ∧ s.Opens n o ∧ s.Spans o locus) ∨
      s.Opens .guarded o ∧ s.Within o locus := by
  constructor
  · rintro ⟨hs, n, hne, hn⟩
    cases n with
    | conditional => exact absurd rfl hne
    | loop => exact .inl ⟨_, .inl rfl, hn, hs⟩
    | function => exact .inl ⟨_, .inr rfl, hn, hs⟩
    | guarded =>
      obtain ⟨e, he, hlt, hle⟩ := hs
      have hne : locus ≠ e := by
        rintro rfl
        exact h ⟨o, hn, he⟩
      exact .inr ⟨hn, e, he, hlt, lt_of_le_of_ne hle hne⟩
  · rintro (⟨n, rfl | rfl, hn, hs⟩ | ⟨hn, hi⟩)
    · exact ⟨hs, _, by decide, hn⟩
    · exact ⟨hs, _, by decide, hn⟩
    · exact ⟨hi.spans, _, by decide, hn⟩

/-! ## 2. Addresses without a region -/

theorem sectionAt?_closer (he : b.closer = some e)
    (hp : ∀ p, b.catchAt = some p ∨ b.finallyAt = some p → p ≤ e) : b.sectionAt? e = none := by
  unfold Block.sectionAt? Block.sections
  cases hcatch : b.catchAt <;> cases hfinally : b.finallyAt <;>
    simp only [he, hcatch, hfinally, List.findSome?] at hp ⊢ <;> grind

/-- The innermost construct around the closer of a try is that try. -/
theorem Nested.address_of_closer (h : s.Nested) (ho : s.Opens .guarded o) (he : s.Construct o e)
    (hb : (s.around e).getLast? = some b) : b.address = o := by
  obtain ⟨c, hc, hn⟩ := id ho
  have hlt := h.opener_lt_closer he
  have hmem : c ∈ s.around e := by
    rw [mem_around h, h.address hc]
    exact ⟨hc, ⟨e, he, hlt, le_rfl⟩, .guarded, by decide, ho⟩
  have hle : o ≤ b.address := h.address hc ▸ le_of_getLast?_around h hb hmem
  obtain ⟨-, ⟨f, hf, hbe, hef⟩, -⟩ := (mem_around h).1 (List.mem_of_getLast? hb)
  -- A construct opened after the try closes before the try does, so it is not around the closer.
  refine hle.eq_or_lt.elim Eq.symm fun hob => absurd hef (not_le.2 ?_)
  exact h.closer_lt_part (h.isPart_closer he) hf hob hbe

/-- **The addresses without a region** are those outside everything and the closers of tries. -/
theorem Nested.region?_eq_none_iff (h : s.Nested) : s.region? locus = none ↔ s.Exempt locus := by
  constructor
  · intro hnone
    by_cases hclose : s.ClosesTry locus
    · exact .inl hclose
    · refine .inr fun o ho => ?_
      obtain ⟨b, hb⟩ := exists_getLast?_around h ho
      obtain ⟨r, hr⟩ := exists_regionOf? h (List.mem_of_getLast? hb) hclose
      cases hnone.symm.trans (region?_eq_some_iff.2 ⟨b, hb, hr⟩)
  · intro hexempt
    refine Option.eq_none_iff_forall_ne_some.2 fun r hr => ?_
    obtain ⟨b, hb, hbr⟩ := region?_eq_some_iff.1 hr
    obtain ⟨hat, hborders⟩ := (mem_around h).1 (List.mem_of_getLast? hb)
    rcases hexempt with ⟨o, ho, he⟩ | hout
    · have haddr := h.address_of_closer ho he hb
      rw [haddr] at hat
      obtain ⟨c, hc, hn⟩ := ho
      cases hat.symm.trans hc
      obtain ⟨c, hc, hns, hclosed⟩ := id he
      cases hat.symm.trans hc
      have hnone : b.sectionAt? locus = none := by
        refine sectionAt?_closer hclosed fun p hp => ?_
        obtain ⟨e', he', -, hle⟩ := h.spans_of_isPart (h.isPart_border hat hns hp)
        cases he.unique he'
        exact hle
      unfold regionOf? at hbr
      simp only [hn, hnone] at hbr
      cases hbr
    · exact hout _ hborders

/-! ## 3. The region of two addresses on the same side -/

theorem sectionAt?_congr (hstart : b.address ≤ start) (hgoal : b.address ≤ goal)
    (hclosed : ∀ e, b.closer = some e → start < e ∧ goal < e)
    (hp : ∀ p, b.catchAt = some p ∨ b.finallyAt = some p → (p ≤ start ↔ p ≤ goal)) :
    b.sectionAt? start = b.sectionAt? goal := by
  unfold Block.sectionAt? Block.sections
  cases hcatch : b.catchAt <;> cases hfinally : b.finallyAt <;> cases he : b.closer <;>
    simp only [he, hcatch, hfinally, List.findSome?] at hp hclosed ⊢ <;> grind

/-- Two addresses in one section are on the same side of the borders of the try. -/
theorem le_border_iff {part : Section} {p : Address}
    (hlt : ∀ p q, b.catchAt = some p → b.finallyAt = some q → p < q)
    (hstart : b.InSection start part) (hgoal : b.InSection goal part)
    (hp : b.catchAt = some p ∨ b.finallyAt = some p) : p ≤ start ↔ p ≤ goal := by
  cases part <;> simp only [Block.InSection] at hstart hgoal <;> grind

/-- Two addresses on the same side of the borders of a try are in one section. -/
theorem exists_inSection
    (hp : ∀ p, b.catchAt = some p ∨ b.finallyAt = some p → (p ≤ start ↔ p ≤ goal)) :
    ∃ part, b.InSection start part ∧ b.InSection goal part := by
  by_cases hfinally : ∃ p, b.finallyAt = some p ∧ p ≤ start
  · obtain ⟨p, hbp, hle⟩ := hfinally
    exact ⟨.cleanup, ⟨p, hbp, hle⟩, p, hbp, (hp p (.inr hbp)).1 hle⟩
  have hbefore : ∀ p, b.finallyAt = some p → start < p ∧ goal < p := by
    intro p hbp
    have hlt : start < p := not_le.1 fun hle => hfinally ⟨p, hbp, hle⟩
    exact ⟨hlt, not_le.1 fun hle => not_le.2 hlt ((hp p (.inr hbp)).2 hle)⟩
  by_cases hcatch : ∃ p, b.catchAt = some p ∧ p ≤ start
  · obtain ⟨p, hbp, hle⟩ := hcatch
    exact ⟨.handler, ⟨⟨p, hbp, hle⟩, fun q hq => (hbefore q hq).1⟩,
      ⟨p, hbp, (hp p (.inl hbp)).1 hle⟩, fun q hq => (hbefore q hq).2⟩
  · refine ⟨.body, ?_, ?_⟩
    · rintro p (hbp | hbp)
      · exact not_le.1 fun hle => hcatch ⟨p, hbp, hle⟩
      · exact (hbefore p hbp).1
    · rintro p (hbp | hbp)
      · exact not_le.1 fun hle => hcatch ⟨p, hbp, (hp p (.inl hbp)).2 hle⟩
      · exact (hbefore p hbp).2

theorem around_congr (h : s.Nested) (hb : ∀ o, s.Borders o start ↔ s.Borders o goal) :
    s.around start = s.around goal := by
  refine List.filter_congr fun b hmem => Bool.eq_iff_iff.2 ?_
  have haround : b ∈ s.around start ↔ b ∈ s.around goal := by
    rw [mem_around h, mem_around h, hb]
  unfold around at haround
  rw [List.mem_filter, List.mem_filter] at haround
  exact (and_congr_right_iff.1 haround) hmem

/-- Two addresses on the same side of every border, neither of which closes a try, have one region. -/
theorem SameSide.region?_eq (hside : s.SameSide start goal) (h : s.Nested)
    (hstart : ¬s.ClosesTry start) (hgoal : ¬s.ClosesTry goal) : s.region? start = s.region? goal := by
  have hborders (o : Address) : s.Borders o start ↔ s.Borders o goal := by
    rw [borders_iff hstart, borders_iff hgoal]
    refine or_congr (exists_congr fun n => and_congr_right fun hn => and_congr_right fun ho => ?_)
      (and_congr_right fun ho => hside.tries ho)
    exact hside.spans ho hn
  have haround := around_congr h hborders
  unfold region?
  rw [← haround]
  cases hb : (s.around start).getLast? with
  | none => rfl
  | some b =>
    have hmem := List.mem_of_getLast? hb
    obtain ⟨hat, hbs⟩ := (mem_around h).1 hmem
    have hbg := (hborders _).1 hbs
    rw [Option.bind_some, Option.bind_some]
    unfold regionOf?
    split
    · rfl
    · rfl
    · rename_i hn
      have hopens : s.Opens .guarded b.address := ⟨b, hat, hn⟩
      have hinside {locus : Address} (hl : ¬s.ClosesTry locus) (hbl : s.Borders b.address locus) :
          s.Within b.address locus := by
        rcases (borders_iff hl).1 hbl with ⟨n, hloop, hn', -⟩ | ⟨-, hi⟩
        · cases hopens.unique hn'
          simp at hloop
        · exact hi
      have his := hinside hstart hbs
      have hig := hinside hgoal hbg
      obtain ⟨part, hps, hpg⟩ := hside.sections hat hn his
      obtain ⟨e, he, hlts, hse⟩ := his
      obtain ⟨e', he', hltg, hge⟩ := hig
      cases he.unique he'
      obtain ⟨c, hc, hns, hclosed⟩ := he
      cases hat.symm.trans hc
      refine sectionAt?_congr hlts.le hltg.le ?_ fun p hp => ?_
      · intro f hf
        cases hclosed.symm.trans hf
        exact ⟨hse, hge⟩
      · exact le_border_iff (fun p q => h.sections hat hns) hps hpg hp
    · rfl

/-! ## 4. Accepted jumps -/

theorem checkJump_symm (hj : s.checkJump start goal = .ok ()) : s.checkJump goal start = .ok () := by
  obtain ⟨hu, hregions⟩ := checkJump_eq_ok_iff_regions.1 hj
  refine checkJump_eq_ok_iff_regions.2 ⟨hu.symm, ?_⟩
  rcases hregions with ⟨hstart, hgoal⟩ | ⟨r, t, hr, ht, hspan⟩
  · exact .inl ⟨hgoal, hstart⟩
  · refine .inr ⟨t, r, ht, hr, ?_⟩
    simp only [Region.sameSpan, Bool.and_eq_true, beq_iff_eq] at hspan ⊢
    exact ⟨hspan.1.symm, hspan.2.symm⟩

/-- An accepted jump between two addresses that close no try crosses no border. -/
theorem Nested.sameSide_of_checkJump (h : s.Nested) (hj : s.checkJump start goal = .ok ())
    (hstart : ¬s.ClosesTry start) (hgoal : ¬s.ClosesTry goal) : s.SameSide start goal := by
  have hj' := checkJump_symm hj
  have hinside {a c o : Address} (hj : s.checkJump a c = .ok ()) (ha : ¬s.ClosesTry a)
      (hc : ¬s.ClosesTry c) (ho : s.Opens .guarded o) (hi : s.Within o a) : s.Within o c := by
    have hborders := (borders_iff ha).2 (.inr ⟨ho, hi⟩)
    obtain ⟨e, he, hlt, hle⟩ := h.spans_of_checkJump hj ha hborders
    refine ⟨e, he, hlt, lt_of_le_of_ne hle ?_⟩
    rintro rfl
    exact hc ⟨o, ho, he⟩
  constructor
  case spans =>
    intro o n ho hn
    constructor
    · intro hs
      exact h.spans_of_checkJump hj hstart ((borders_iff hstart).2 (.inl ⟨n, hn, ho, hs⟩))
    · intro hs
      exact h.spans_of_checkJump hj' hgoal ((borders_iff hgoal).2 (.inl ⟨n, hn, ho, hs⟩))
  case tries => exact fun ho => ⟨hinside hj hstart hgoal ho, hinside hj' hgoal hstart ho⟩
  case sections =>
    intro o b hb hn hi
    have hborders := (borders_iff hstart).2 (.inr ⟨⟨b, hb, hn⟩, hi⟩)
    refine exists_inSection fun p hp => ?_
    have hns : b.nature?.isSome := by
      rw [hn]
      rfl
    exact h.le_section_iff_of_checkJump hj hstart hborders hb (h.isPart_border hb hns hp) hp

/-- **Which jumps are accepted.** -/
theorem Nested.checkJump_eq_ok_iff (h : s.Nested) : s.checkJump start goal = .ok () ↔
    start.unit = goal.unit ∧ (s.Exempt start ∧ s.Exempt goal ∨
      ¬s.ClosesTry start ∧ ¬s.ClosesTry goal ∧ s.SameSide start goal) := by
  constructor
  · intro hj
    obtain ⟨hu, hregions⟩ := checkJump_eq_ok_iff_regions.1 hj
    refine ⟨hu, ?_⟩
    rcases hregions with ⟨hstart, hgoal⟩ | ⟨r, t, hr, ht, -⟩
    · exact .inl ⟨h.region?_eq_none_iff.1 hstart, h.region?_eq_none_iff.1 hgoal⟩
    · have hopen {a : Address} {r : Region} (hr : s.region? a = some r) : ¬s.ClosesTry a := by
        intro hclose
        cases hr.symm.trans (h.region?_eq_none_iff.2 (.inl hclose))
      exact .inr ⟨hopen hr, hopen ht, h.sameSide_of_checkJump hj (hopen hr) (hopen ht)⟩
  · rintro ⟨hu, ⟨hstart, hgoal⟩ | ⟨hstart, hgoal, hside⟩⟩
    · exact checkJump_eq_ok_iff_regions.2
        ⟨hu, .inl ⟨h.region?_eq_none_iff.2 hstart, h.region?_eq_none_iff.2 hgoal⟩⟩
    · have hregion := hside.region?_eq h hstart hgoal
      refine checkJump_eq_ok_iff_regions.2 ⟨hu, ?_⟩
      cases hr : s.region? start with
      | none => exact .inl ⟨rfl, hregion ▸ hr⟩
      | some r => exact .inr ⟨r, r, rfl, hregion ▸ hr, by simp [Region.sameSpan]⟩

/-- An address without a region that closes no inner try is in no loop, function or try. -/
theorem Exempt.outside (h : s.Exempt locus) (hidden : ¬s.Hidden locus) :
    (∀ o n, s.Opens n o → n = .loop ∨ n = .function → ¬s.Spans o locus) ∧
      ∀ o, s.Opens .guarded o → ¬s.Within o locus := by
  rcases h with ⟨t, ht, he⟩ | hout
  · constructor
    · intro o n ho hn hs
      have hne : o ≠ t := by
        rintro rfl
        cases ht.unique ho
        simp at hn
      refine hidden ⟨t, o, ht, he, ⟨hs, n, ?_, ho⟩, hne⟩
      rintro rfl
      simp at hn
    · intro o ho hi
      have hne : o ≠ t := by
        rintro rfl
        exact hi.not_construct he
      exact hidden ⟨t, o, ht, he, ⟨hi.spans, _, by decide, ho⟩, hne⟩
  · constructor
    · rintro o n ho hn hs
      refine hout o ⟨hs, n, ?_, ho⟩
      rintro rfl
      simp at hn
    · exact fun o ho hi => hout o ⟨hi.spans, _, by decide, ho⟩

theorem Exempt.sameSide (hstart : s.Exempt start) (hgoal : s.Exempt goal)
    (hstart' : ¬s.Hidden start) (hgoal' : ¬s.Hidden goal) : s.SameSide start goal where
  spans ho hn := iff_of_false ((hstart.outside hstart').1 _ _ ho hn) ((hgoal.outside hgoal').1 _ _ ho hn)
  tries ho := iff_of_false ((hstart.outside hstart').2 _ ho) ((hgoal.outside hgoal').2 _ ho)
  sections hb hn hi := absurd hi ((hstart.outside hstart').2 _ ⟨_, hb, hn⟩)

/-- **An accepted jump stays in its unit and crosses no border**, unless the closer of a try that is inside
something else is one of its ends, and the other one is such a closer or outside everything. -/
theorem accepted_jump_crosses_no_border {units : List ScriptUnit} (h : Suite.compile units = .ok s)
    (hj : s.checkJump start goal = .ok ()) : start.unit = goal.unit ∧ (s.SameSide start goal ∨
      (s.Hidden start ∨ s.Hidden goal) ∧ s.Exempt start ∧ s.Exempt goal) := by
  obtain ⟨hu, ⟨hstart, hgoal⟩ | ⟨-, -, hside⟩⟩ := (nested_of_compile h).checkJump_eq_ok_iff.1 hj
  · refine ⟨hu, ?_⟩
    by_cases hidden : s.Hidden start ∨ s.Hidden goal
    · exact .inr ⟨hidden, hstart, hgoal⟩
    · rw [not_or] at hidden
      exact .inl (hstart.sameSide hgoal hidden.1 hidden.2)
  · exact ⟨hu, .inl hside⟩

/-- A jump in the body of a try that is in a loop. -/
theorem jump_within_body : ∃ s, Suite.compile [.named "main" [{ name := "while", target := "true" },
      { name := "try" }, { name := "skipNext" }, { name := "echo" }, { name := "echo" },
      { name := "finally" }, { name := "endTry" }, { name := "endWhile" }]] = .ok s ∧
    s.checkJump ⟨0, 2⟩ ⟨0, 4⟩ = .ok () ∧ s.SameSide ⟨0, 2⟩ ⟨0, 4⟩ := by
  obtain ⟨s, hs, hj, r, hr⟩ : ∃ (s : Suite), Suite.compile [.named "main"
      [{ name := "while", target := "true" }, { name := "try" }, { name := "skipNext" },
        { name := "echo" }, { name := "echo" }, { name := "finally" }, { name := "endTry" },
        { name := "endWhile" }]] = .ok s ∧
      s.checkJump ⟨0, 2⟩ ⟨0, 4⟩ = .ok () ∧ ∃ r, s.region? ⟨0, 2⟩ = some r := ⟨_, rfl, rfl, _, rfl⟩
  obtain ⟨-, hside | ⟨-, hexempt, -⟩⟩ := accepted_jump_crosses_no_border hs hj
  · exact ⟨s, hs, hj, hside⟩
  · cases hr.symm.trans ((nested_of_compile hs).region?_eq_none_iff.2 hexempt)

/-- A jump into a loop is accepted if it goes to the closer of a try. -/
example : ∃ s, Suite.compile [.named "main" [{ name := "skipNext", target := "2" },
      { name := "while", target := "true" }, { name := "try" }, { name := "endTry" },
      { name := "endWhile" }]] = .ok s ∧
    s.checkJump ⟨0, 0⟩ ⟨0, 3⟩ = .ok () ∧ s.Spans ⟨0, 1⟩ ⟨0, 3⟩ :=
  ⟨_, rfl, rfl, ⟨0, 4⟩, ⟨_, rfl, rfl, rfl⟩, by decide, by decide⟩

end Suite

end BlockFlow
