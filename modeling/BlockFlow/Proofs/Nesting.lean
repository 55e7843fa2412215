/-
# Nesting

The constructs of a suite that compiles lie apart or inside one another.  `Suite.Nested` says what its
block map holds, and `Suite.nested_of_compile` that compiling gives it.

A part of a construct is one of its branches or sections, or its closer: `Suite.IsPart`.  An address
is inside a construct, `Suite.Spans`, from just after the opener up to the closer.  Two constructs lie
apart or one inside the other (`Nested.apart_or_inside`), and what is inside a construct lies on one
side of each part of the constructs around it (`Nested.lt_part`).
-/
import BlockFlow.Proofs.Compiling

namespace BlockFlow

/-- Past a condition there is another one, the `else` or the closer. -/
theorem Block.exists_other {b : Block} {e : Address} (untried : List Address) (he : b.closer = some e) :
    ∃ q, (untried.head? <|> b.elseAt <|> b.closer) = some q := by
  rw [he]
  cases untried.head? <;> cases b.elseAt <;> exact ⟨_, rfl⟩

namespace Suite

/-- The keyword of the flow command at an address. -/
def keywordAt? (s : Suite) (a : Address) : Option Keyword := BlockFlow.keywordAt? s.units a

/-! ## 1. Nested suites -/

/-- **A suite of well nested constructs.** -/
structure Nested (s : Suite) : Prop where
  address {a b} : s.blockAt? a = some b → b.address = a
  keyword {a b} : s.blockAt? a = some b → s.keywordAt? a = some b.keyword
  recorded {a k} : s.keywordAt? a = some k → k.isLinked → ∃ b, s.blockAt? a = some b
  closed {a b} : s.blockAt? a = some b → b.nature?.isSome → ∃ e, b.closer = some e
  part {a b p k} : s.blockAt? a = some b → b.nature?.isSome → p ∈ b.partsOf k →
    ∃ c, s.blockAt? p = some c ∧ c.keyword = k ∧ c.opener = some a
  owner {p c a} : s.blockAt? p = some c → c.opener = some a →
    ∃ b, s.blockAt? a = some b ∧ b.nature?.isSome ∧ a < p ∧ p.unit = a.unit ∧
      (c.keyword.partOf? = some b.keyword ∧ p ∈ b.partsOf c.keyword ∨
        c.keyword.partOf? = none ∧ c.keyword.leaves? = b.nature? ∧ b.closer ≠ some p)
  owned {a b} : s.blockAt? a = some b → b.nature? = none → b.keyword ≠ .call → b.opener.isSome
  last {p c a b e} : s.blockAt? p = some c → c.opener = some a → s.blockAt? a = some b →
    b.closer = some e → p ≤ e
  sections {a b p q} : s.blockAt? a = some b → b.nature?.isSome → b.catchAt = some p →
    b.finallyAt = some q → p < q
  inner {p c a o b} : s.blockAt? p = some c → c.opener = some a → c.keyword.partOf?.isSome →
    s.blockAt? o = some b → b.nature?.isSome → a < o → o < p → ∃ e, b.closer = some e ∧ e < p
  follows {p c a b} : s.blockAt? p = some c → c.opener = some a → s.blockAt? a = some b →
    c.follow b = c
  function {name a} : s.tables.functions.get? name = some a →
    ∃ b, s.blockAt? a = some b ∧ b.nature? = some .function

/-- The empty draft before the first unit. -/
theorem sound_nil (units : List ScriptUnit) : Draft.Sound units {} ⟨0, 0⟩ where
  placed := nofun
  genuine := nofun
  recorded ha := by simp [Address.lt_iff] at ha
  pending := nofun
  decreasing := .nil
  unclosed := nofun
  part := nofun
  owner := nofun
  owned := nofun
  last := nofun
  sections := nofun
  inner := nofun
  follows := nofun
  function := nofun

/-- **Units that compile are well nested.** -/
theorem nested_of_compile {units : List ScriptUnit} {s : Suite} (h : Suite.compile units = .ok s) :
    s.Nested := by
  obtain ⟨rfl, hs⟩ := (Draft.invariant_sound units).compile h (sound_nil units)
  exact
    { address := fun hb => (hs.placed hb).1
      keyword := hs.genuine
      recorded := fun {a k} hk hl => by
        refine hs.recorded ?_ hk hl
        unfold keywordAt? BlockFlow.keywordAt? BlockFlow.commandAt? at hk
        cases hu : s.units[a.unit]? with
        | none =>
          rw [hu] at hk
          cases hk
        | some u => exact .inl (List.getElem?_eq_some_iff.1 hu).1
      closed := fun {a b} hb hn => by
        refine Option.ne_none_iff_exists'.1 fun hc => ?_
        cases hs.unclosed hb hn hc
      part := hs.part
      owner := hs.owner
      owned := hs.owned
      last := hs.last
      sections := hs.sections
      inner := hs.inner
      follows := hs.follows
      function := hs.function }

/-! ## 2. Parts and spans -/

/-- An address is a branch or a section of the construct opened at another one, or its closer. -/
def IsPart (s : Suite) (o p : Address) : Prop :=
  ∃ c, s.blockAt? p = some c ∧ c.opener = some o ∧ c.keyword.partOf?.isSome

/-- A construct goes from an opener to a closer. -/
def Construct (s : Suite) (o e : Address) : Prop :=
  ∃ b, s.blockAt? o = some b ∧ b.nature?.isSome ∧ b.closer = some e

/-- An address is inside the construct opened at another one. -/
def Spans (s : Suite) (o p : Address) : Prop := ∃ e, s.Construct o e ∧ o < p ∧ p ≤ e

/-- A construct of a nature is opened at an address. -/
def Opens (s : Suite) (n : Nature) (o : Address) : Prop :=
  ∃ b, s.blockAt? o = some b ∧ b.nature? = some n

theorem Construct.unique {s : Suite} {o e e' : Address} (h : s.Construct o e)
    (h' : s.Construct o e') : e = e' := by
  obtain ⟨b, hb, -, he⟩ := h
  obtain ⟨b', hb', -, he'⟩ := h'
  cases hb.symm.trans hb'
  exact Option.some.inj (he.symm.trans he')

theorem Opens.unique {s : Suite} {o : Address} {n n' : Nature} (h : s.Opens n o) (h' : s.Opens n' o) :
    n = n' := by
  obtain ⟨b, hb, hn⟩ := h
  obtain ⟨b', hb', hn'⟩ := h'
  cases hb.symm.trans hb'
  exact Option.some.inj (hn.symm.trans hn')

/-- No two constructs share a part. -/
theorem IsPart.unique {s : Suite} {o o' p : Address} (h : s.IsPart o p) (h' : s.IsPart o' p) :
    o = o' := by
  obtain ⟨c, hc, ho, -⟩ := h
  obtain ⟨c', hc', ho', -⟩ := h'
  cases hc.symm.trans hc'
  exact Option.some.inj (ho.symm.trans ho')

/-- An opener is no part of a construct. -/
theorem IsPart.ne_opener {s : Suite} {o a e p : Address} (h : s.IsPart a p)
    (ho : s.Construct o e) : o ≠ p := by
  rintro rfl
  obtain ⟨b, hb, hn, -⟩ := ho
  obtain ⟨c, hc, -, hk⟩ := h
  cases hb.symm.trans hc
  obtain ⟨q, hq⟩ := Option.isSome_iff_exists.1 hk
  rw [Block.nature?, Keyword.not_opens?_of_partOf? hq] at hn
  cases hn

namespace Nested

variable {s : Suite} (h : s.Nested)

include h

theorem isPart_of_mem {o p : Address} {b : Block} {k : Keyword} (hb : s.blockAt? o = some b)
    (hn : b.nature?.isSome) (hp : p ∈ b.partsOf k) : s.IsPart o p := by
  obtain ⟨c, hc, rfl, ho⟩ := h.part hb hn hp
  obtain ⟨b', hb', -, -, -, ⟨hpart, -⟩ | ⟨hpart, -, hcl⟩⟩ := h.owner hc ho
  · exact ⟨c, hc, ho, by rw [hpart]; rfl⟩
  · cases hb.symm.trans hb'
    cases hk : c.keyword <;> rw [hk] at hpart hp <;>
      first | (cases hpart; done) | simp [Block.partsOf, Keyword.closes?] at hp

theorem isPart_closer {o e : Address} (he : s.Construct o e) : s.IsPart o e := by
  obtain ⟨b, hb, hn, hbe⟩ := he
  obtain ⟨k, hk⟩ := Keyword.exists_closes? hn
  exact h.isPart_of_mem hb hn ((Block.mem_partsOf_of_closes? hk).2 hbe)

/-- What comes after a condition that does not hold is a part of the conditional. -/
theorem isPart_other {o p : Address} {b : Block} {untried : List Address} (hb : s.blockAt? o = some b)
    (hn : b.nature?.isSome) (huntried : ∀ q ∈ untried, s.IsPart o q)
    (hother : (untried.head? <|> b.elseAt <|> b.closer) = some p) : s.IsPart o p := by
  cases hhead : untried.head? with
  | some q =>
    rw [hhead] at hother
    cases hother
    exact huntried p (List.mem_of_head? hhead)
  | none =>
    rw [hhead] at hother
    cases helse : b.elseAt with
    | some q =>
      rw [helse] at hother
      cases hother
      exact h.isPart_of_mem (k := .otherwise) hb hn (by simp [Block.partsOf, helse])
    | none =>
      rw [helse] at hother
      exact h.isPart_closer ⟨b, hb, hn, hother⟩

/-- Every opener has its closer. -/
theorem exists_construct {o : Address} {b : Block} (hb : s.blockAt? o = some b)
    (hn : b.nature?.isSome) : ∃ e, s.Construct o e := by
  obtain ⟨e, he⟩ := h.closed hb hn
  exact ⟨e, b, hb, hn, he⟩

theorem exists_construct_of_opens {n : Nature} {o : Address} (ho : s.Opens n o) : ∃ e, s.Construct o e := by
  obtain ⟨b, hb, hn⟩ := ho
  exact h.exists_construct hb (by rw [hn]; rfl)

/-- The opener that a block names is around it. -/
theorem spans_opener {o p : Address} {c : Block} (hc : s.blockAt? p = some c)
    (ho : c.opener = some o) : s.Spans o p := by
  obtain ⟨b, hb, hn, hlt, -⟩ := h.owner hc ho
  obtain ⟨e, he⟩ := h.closed hb hn
  exact ⟨e, ⟨b, hb, hn, he⟩, hlt, h.last hc ho hb he⟩

/-- A part is inside its construct. -/
theorem spans_of_isPart {o p : Address} (hp : s.IsPart o p) : s.Spans o p := by
  obtain ⟨c, hc, ho, -⟩ := hp
  exact h.spans_opener hc ho

theorem opener_lt_closer {o e : Address} (he : s.Construct o e) : o < e := by
  obtain ⟨-, -, hlt, -⟩ := h.spans_of_isPart (h.isPart_closer he)
  exact hlt

theorem unit_of_isPart {o p : Address} (hp : s.IsPart o p) : p.unit = o.unit := by
  obtain ⟨c, hc, ho, -⟩ := hp
  obtain ⟨b, -, -, -, hu, -⟩ := h.owner hc ho
  exact hu

theorem unit_of_spans {o p : Address} (hs : s.Spans o p) : p.unit = o.unit := by
  obtain ⟨e, he, hlt, hle⟩ := hs
  exact Address.unit_eq_of_between hlt hle (h.unit_of_isPart (h.isPart_closer he)).symm

/-- **A construct opened before a part of another one**, inside it, is closed before that part. -/
theorem closer_lt_part {a p o e : Address} (hp : s.IsPart a p) (he : s.Construct o e) (hao : a < o)
    (hop : o < p) : e < p := by
  obtain ⟨c, hc, hca, hck⟩ := hp
  obtain ⟨b, hb, hn, hbe⟩ := he
  obtain ⟨e', he', hlt⟩ := h.inner hc hca hck hb hn hao hop
  cases hbe.symm.trans he'
  exact hlt

/-- **Two constructs** lie apart or one inside the other. -/
theorem apart_or_inside {a e o f : Address} (ha : s.Construct a e) (ho : s.Construct o f)
    (hao : a < o) : e < o ∨ f < e := by
  have hne : o ≠ e := (h.isPart_closer ha).ne_opener ho
  rcases lt_or_gt_of_ne hne with hlt | hgt
  · exact .inr (h.closer_lt_part (h.isPart_closer ha) ho hao hlt)
  · exact .inl hgt

/-- **A construct inside another one** has everything that is inside it inside the other. -/
theorem closer_lt_of_spans {a e o f : Address} (hs : s.Spans a o) (ha : s.Construct a e)
    (ho : s.Construct o f) : f < e := by
  obtain ⟨e', ha', hlt, hle⟩ := hs
  cases ha.unique ha'
  rcases h.apart_or_inside ha ho hlt with hlt' | hlt'
  · exact absurd hlt' (not_lt.2 hle)
  · exact hlt'

theorem spans_trans {a o p : Address} (hs : s.Spans a o) (hp : s.Spans o p) : s.Spans a p := by
  obtain ⟨e, ha, hlt, -⟩ := id hs
  obtain ⟨f, ho, hlt', hle'⟩ := hp
  exact ⟨e, ha, hlt.trans hlt', hle'.trans (h.closer_lt_of_spans hs ha ho).le⟩

/-- **Inside a construct** everything lies on the same side of a part of a construct around it. -/
theorem lt_part_iff {a o p q r : Address} (hpart : s.IsPart a p) (hs : s.Spans a o)
    (hq : s.Spans o q) (hr : s.Spans o r) : q < p ↔ r < p := by
  obtain ⟨f, ho, hoq, hqf⟩ := hq
  obtain ⟨f', ho', hor, hrf⟩ := hr
  cases ho.unique ho'
  obtain ⟨-, -, hao, -⟩ := hs
  rcases lt_or_gt_of_ne (hpart.ne_opener ho) with hlt | hgt
  · have := h.closer_lt_part hpart ho hao hlt
    exact ⟨fun _ => hrf.trans_lt this, fun _ => hqf.trans_lt this⟩
  · exact ⟨fun hqp => absurd (hgt.trans (hoq.trans hqp)) (lt_irrefl p),
      fun hrp => absurd (hgt.trans (hor.trans hrp)) (lt_irrefl p)⟩

/-- The command after an opener is inside the construct. -/
theorem spans_opener_next {o e : Address} (he : s.Construct o e) : s.Spans o o.next := by
  have hunit := h.unit_of_isPart (h.isPart_closer he)
  exact ⟨e, he, o.lt_next, (Address.next_le_iff hunit.symm).2 (h.opener_lt_closer he)⟩

/-- Going on at the next command stays inside, except from the closer. -/
theorem spans_next {o e p : Address} (hs : s.Spans o p) (he : s.Construct o e) (hne : p ≠ e) :
    s.Spans o p.next := by
  obtain ⟨e', he', hlt, hle⟩ := id hs
  cases he.unique he'
  refine ⟨e, he, hlt.trans p.lt_next, (Address.next_le_iff ?_).2 (lt_of_le_of_ne hle hne)⟩
  rw [h.unit_of_spans hs, h.unit_of_isPart (h.isPart_closer he)]

/-- The run that goes on from an opener, at a part or at the next command, is inside the construct. -/
theorem spans_from_opener {n : Nature} {o : Address} (ho : s.Opens n o) {p? : Option Address}
    (part : ∀ p, p? = some p → s.IsPart o p) : s.Spans o (p?.getD o.next) := by
  cases p? with
  | some p => exact h.spans_of_isPart (part p rfl)
  | none =>
    obtain ⟨e, he⟩ := h.exists_construct_of_opens ho
    exact h.spans_opener_next he

/-- The run that goes on from a branch or a section is inside the construct. -/
theorem spans_from_part {o p : Address} (hp : s.IsPart o p) (hopen : ¬s.Construct o p) {p? : Option Address}
    (part : ∀ p, p? = some p → s.IsPart o p) : s.Spans o (p?.getD p.next) := by
  cases p? with
  | some p => exact h.spans_of_isPart (part p rfl)
  | none =>
    obtain ⟨e, he, hlt, hle⟩ := h.spans_of_isPart hp
    exact h.spans_next ⟨e, he, hlt, hle⟩ he fun heq => hopen (heq ▸ he)

/-! ## 3. Keywords of parts -/

/-- The construct that a branch, a section or a closer belongs to. -/
theorem exists_owner {p : Address} {c : Block} {q : Keyword} (hc : s.blockAt? p = some c)
    (hk : c.keyword.partOf? = some q) : ∃ o b, c.opener = some o ∧ s.blockAt? o = some b ∧
      b.keyword = q ∧ p ∈ b.partsOf c.keyword ∧ s.IsPart o p := by
  have hn : c.nature? = none := Keyword.not_opens?_of_partOf? hk
  have hcall : c.keyword ≠ .call := by
    intro hcall
    rw [hcall] at hk
    cases hk
  obtain ⟨o, ho⟩ := Option.isSome_iff_exists.1 (h.owned hc hn hcall)
  obtain ⟨b, hb, -, -, -, ⟨hpart, hmem⟩ | ⟨hpart, -⟩⟩ := h.owner hc ho
  · exact ⟨o, b, ho, hb, Option.some.inj (hpart.symm.trans hk), hmem, c, hc, ho, by rw [hpart]; rfl⟩
  · cases hpart.symm.trans hk

/-- The command at an address is the one its block is about. -/
theorem exists_block {a : Address} {k : Keyword} (hk : s.keywordAt? a = some k) (hl : k.isLinked) :
    ∃ b, s.blockAt? a = some b ∧ b.keyword = k := by
  obtain ⟨b, hb⟩ := h.recorded hk hl
  exact ⟨b, hb, Option.some.inj ((h.keyword hb).symm.trans hk)⟩

theorem blockAt?_eq_none {a : Address} (hk : ∀ k, s.keywordAt? a = some k → k.isLinked = false) :
    s.blockAt? a = none := by
  cases hb : s.blockAt? a with
  | none => rfl
  | some b =>
    have hl := hk _ (h.keyword hb)
    have hunlinked : b.keyword.partOf? = none ∧ b.keyword.opens? = none ∧ b.keyword ≠ .call ∧
        b.keyword.leaves? = none := by
      cases hbk : b.keyword <;> rw [hbk] at hl <;> first | exact ⟨rfl, rfl, by decide, rfl⟩ | cases hl
    obtain ⟨hpart, hopens, hcall, hleaves⟩ := hunlinked
    obtain ⟨o, ho⟩ := Option.isSome_iff_exists.1 (h.owned hb hopens hcall)
    obtain ⟨c, -, hc, -, -, ⟨hp, -⟩ | ⟨-, hp, -⟩⟩ := h.owner hb ho
    · cases hpart.symm.trans hp
    · rw [← hp, hleaves] at hc
      cases hc

/-- The closer of a construct closes it by its keyword. -/
theorem keyword_of_construct {o e : Address} (he : s.Construct o e) : ∃ b k,
    s.blockAt? o = some b ∧ s.keywordAt? e = some k ∧ k.closes? = some b.keyword := by
  obtain ⟨b, hb, hn, hbe⟩ := he
  obtain ⟨k, hk⟩ := Keyword.exists_closes? hn
  obtain ⟨c, hc, rfl, -⟩ := h.part hb hn ((Block.mem_partsOf_of_closes? hk).2 hbe)
  exact ⟨b, _, hb, h.keyword hc, hk⟩

theorem not_construct {o e : Address} {k : Keyword} (hk : s.keywordAt? e = some k)
    (hc : k.closes? = none) : ¬s.Construct o e := by
  intro he
  obtain ⟨b, l, -, hl, hlc⟩ := h.keyword_of_construct he
  cases hk.symm.trans hl
  cases hc.symm.trans hlc

/-- A closing command closes the construct it belongs to. -/
theorem construct_of_closes? {p : Address} {c : Block} {q : Keyword} (hc : s.blockAt? p = some c)
    (hk : c.keyword.closes? = some q) : ∃ o b, c.opener = some o ∧ s.blockAt? o = some b ∧
      b.keyword = q ∧ s.Construct o p := by
  obtain ⟨o, b, ho, hb, rfl, hmem, hpart⟩ := h.exists_owner hc (Keyword.partOf?_of_closes? hk)
  exact ⟨o, b, ho, hb, rfl, b, hb, Keyword.opens?_of_closes? hk,
    (Block.mem_partsOf_of_closes? hk).1 hmem⟩

end Nested

end Suite

end BlockFlow
