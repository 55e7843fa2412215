/-
# Drafts

`Draft.Sound` says what holds of a draft that has come to an address:

- the block map holds exactly the commands that take part in a construct;
- an opener comes before its branches or sections, these before its closer, all in one unit, and
  each of them knows the opener;
- a construct that is opened inside another one is closed before the next part of the other.

A command is passed over (`Sound.pass`), recorded by itself (`Records`) or recorded as a part of the
innermost construct that is open (`Attaches`), and the draft stays sound.
-/
import BlockFlow.Proofs.Parts

namespace BlockFlow

/-! ## 1. Sound drafts -/

/-- The block recorded at an address, if there is one. -/
def Draft.blockAt? (d : Draft) (a : Address) : Option Block := d.tables.blocks.get? a

/-- **A draft that has come to an address.**  A block's `opener` is the construct it belongs to: as a
branch, a section or a closer, or as a jump command inside. -/
structure Draft.Sound (units : List ScriptUnit) (d : Draft) (here : Address) : Prop where
  placed {a b} : d.blockAt? a = some b → b.address = a ∧ a < here
  genuine {a b} : d.blockAt? a = some b → keywordAt? units a = some b.keyword
  recorded {a k} : a < here → keywordAt? units a = some k → k.isLinked → ∃ b, d.blockAt? a = some b
  pending {a} : a ∈ d.pending → a.unit = here.unit ∧
    ∃ b, d.blockAt? a = some b ∧ b.nature?.isSome ∧ b.closer = none
  decreasing : d.pending.Pairwise (· > ·)
  unclosed {a b} : d.blockAt? a = some b → b.nature?.isSome → b.closer = none → a ∈ d.pending
  part {a b p k} : d.blockAt? a = some b → b.nature?.isSome → p ∈ b.partsOf k →
    ∃ c, d.blockAt? p = some c ∧ c.keyword = k ∧ c.opener = some a
  owner {p c a} : d.blockAt? p = some c → c.opener = some a →
    ∃ b, d.blockAt? a = some b ∧ b.nature?.isSome ∧ a < p ∧ p.unit = a.unit ∧
      (c.keyword.partOf? = some b.keyword ∧ p ∈ b.partsOf c.keyword ∨
        c.keyword.partOf? = none ∧ c.keyword.leaves? = b.nature? ∧ b.closer ≠ some p)
  owned {a b} : d.blockAt? a = some b → b.nature? = none → b.keyword ≠ .call → b.opener.isSome
  last {p c a b e} : d.blockAt? p = some c → c.opener = some a → d.blockAt? a = some b →
    b.closer = some e → p ≤ e
  sections {a b p q} : d.blockAt? a = some b → b.nature?.isSome → b.catchAt = some p →
    b.finallyAt = some q → p < q
  /-- A construct inside another one is closed before the next part of the other. -/
  inner {p c a o b} : d.blockAt? p = some c → c.opener = some a → c.keyword.partOf?.isSome →
    d.blockAt? o = some b → b.nature?.isSome → a < o → o < p → ∃ e, b.closer = some e ∧ e < p
  /-- A section knows what its opener knows of the parts after it. -/
  follows {p c a b} : d.blockAt? p = some c → c.opener = some a → d.blockAt? a = some b →
    c.follow b = c
  function {name a} : d.tables.functions.get? name = some a →
    ∃ b, d.blockAt? a = some b ∧ b.nature? = some .function

namespace Draft

variable {units : List ScriptUnit} {d d' : Draft} {here : Address}

/-- A part lies before the address the draft has come to. -/
theorem Sound.opener_ne_here (h : d.Sound units here) {p : Address} {c : Block} {a : Address}
    (hc : d.blockAt? p = some c) (ha : c.opener = some a) : a ≠ here := by
  obtain ⟨b, hb, -⟩ := h.owner hc ha
  exact ((h.placed hb).2).ne

/-- A command that is not recorded. -/
theorem Sound.pass (h : d.Sound units here)
    (hk : ∀ k, keywordAt? units here = some k → k.isLinked = false)
    (hget : ∀ a, d'.blockAt? a = d.blockAt? a) (hpending : d'.pending = d.pending)
    (hfunction : d'.tables.functions = d.tables.functions) : d'.Sound units here.next where
  placed hb := by
    rw [hget] at hb
    exact ⟨(h.placed hb).1, (h.placed hb).2.trans here.lt_next⟩
  genuine hb := h.genuine (by rwa [hget] at hb)
  recorded {a k} ha hl hlinked := by
    rcases (Address.lt_next_iff.1 ha).eq_or_lt with rfl | ha
    · rw [hk k hl] at hlinked
      cases hlinked
    · simpa only [hget] using h.recorded ha hl hlinked
  pending ha := by simpa only [hget, Address.unit_next] using h.pending (hpending ▸ ha)
  decreasing := hpending ▸ h.decreasing
  unclosed hb hn hc := hpending ▸ h.unclosed (by rwa [hget] at hb) hn hc
  part hb hn hp := by simpa only [hget] using h.part (by rwa [hget] at hb) hn hp
  owner hc ha := by simpa only [hget] using h.owner (by rwa [hget] at hc) ha
  owned hb := h.owned (by rwa [hget] at hb)
  last hc ha hb := h.last (by rwa [hget] at hc) ha (by rwa [hget] at hb)
  sections hb := h.sections (by rwa [hget] at hb)
  inner hc ha hp hb := h.inner (by rwa [hget] at hc) ha hp (by rwa [hget] at hb)
  follows hc ha hb := h.follows (by rwa [hget] at hc) ha (by rwa [hget] at hb)
  function ha := by simpa only [hget] using h.function (hfunction ▸ ha)

/-- Openers belong to no construct. -/
theorem Sound.opener_eq_none (h : d.Sound units here) {a : Address} {b : Block}
    (hb : d.blockAt? a = some b) (hn : b.nature?.isSome) : b.opener = none := by
  cases ho : b.opener with
  | none => rfl
  | some o =>
    obtain ⟨c, -, hc, -, -, hpart | ⟨-, hleaves, -⟩⟩ := h.owner hb ho
    · rw [Block.nature?, Keyword.not_opens?_of_partOf? hpart.1] at hn
      cases hn
    · rw [← hleaves] at hc
      rw [Block.nature?] at hn
      cases hk : b.keyword <;> rw [hk] at hc hn <;> first | (cases hc; done) | cases hn

/-- A closer lies before the address the draft has come to. -/
theorem Sound.closer_lt (h : d.Sound units here) {a e : Address} {b : Block}
    (hb : d.blockAt? a = some b) (hn : b.nature?.isSome) (he : b.closer = some e) : e < here := by
  obtain ⟨l, hl⟩ := Keyword.exists_closes? hn
  obtain ⟨c, hc, -⟩ := h.part hb hn ((Block.mem_partsOf_of_closes? hl).2 he)
  exact (h.placed hc).2

/-! ## 2. Recording a block -/

/-- **Recording a block** that is no part of a construct: an opener, a jump command or a call. -/
structure Records (d : Draft) (here : Address) (k : Keyword) (name : Option String) (opener : Option Address)
    (d' : Draft) : Prop where
  linked : k.isLinked
  part : k.partOf? = none
  inside : ∀ a, opener = some a → a ∈ d.pending ∧ ∃ b, d.blockAt? a = some b ∧ k.leaves? = b.nature?
  owned : k.opens? = none → k ≠ .call → opener.isSome
  blocks : ∀ a, d'.blockAt? a =
    if a = here then some { address := here, keyword := k, name, opener } else d.blockAt? a
  pending : d'.pending = if k.opens?.isSome then here :: d.pending else d.pending
  functions : ∀ n a, d'.tables.functions.get? n = some a →
    d.tables.functions.get? n = some a ∨ a = here ∧ k.opens? = some .function

namespace Records

variable {k : Keyword} {name : Option String} {opener : Option Address} (t : d.Records here k name opener d')

include t

theorem blockAt?_here : d'.blockAt? here = some { address := here, keyword := k, name, opener } :=
  (t.blocks here).trans (if_pos rfl)

/-- The blocks are the new one and those that were there. -/
theorem block_or {a : Address} {b : Block} (hb : d'.blockAt? a = some b) :
    a = here ∧ b = { address := here, keyword := k, name, opener } ∨ d.blockAt? a = some b := by
  rw [t.blocks] at hb
  split at hb
  · exact .inl ⟨‹_›, (Option.some.inj hb).symm⟩
  · exact .inr hb

/-- The pending constructs are the new one, if the command opens one, and those that were there. -/
theorem mem_pending {a : Address} : a ∈ d'.pending ↔ a = here ∧ k.opens?.isSome ∨ a ∈ d.pending := by
  rw [t.pending]
  split <;> simp [*]

variable (h : d.Sound units here)

include h

theorem blockAt?_old {a : Address} {b : Block} (hb : d.blockAt? a = some b) : d'.blockAt? a = some b := by
  rw [t.blocks, if_neg (h.placed hb).2.ne, hb]

/-- The construct that the new block belongs to is open. -/
theorem isOpen {a : Address} (ha : opener = some a) : a.unit = here.unit ∧
    ∃ b, d.blockAt? a = some b ∧ b.nature?.isSome ∧ b.closer = none ∧ k.leaves? = b.nature? := by
  obtain ⟨hmem, b, hb, hl⟩ := t.inside a ha
  obtain ⟨hu, b', hb', hn, hc⟩ := h.pending hmem
  cases hb.symm.trans hb'
  exact ⟨hu, b, hb, hn, hc, hl⟩

theorem next_pending {a : Address} (ha : a ∈ d'.pending) : a.unit = here.unit ∧
    ∃ b, d'.blockAt? a = some b ∧ b.nature?.isSome ∧ b.closer = none := by
  rcases t.mem_pending.1 ha with ⟨rfl, ho⟩ | ha
  · exact ⟨rfl, _, t.blockAt?_here, ho, rfl⟩
  · obtain ⟨hu, b, hb, hn⟩ := h.pending ha
    exact ⟨hu, b, t.blockAt?_old h hb, hn⟩

theorem next_decreasing : d'.pending.Pairwise (· > ·) := by
  rw [t.pending]
  split
  · refine List.pairwise_cons.2 ⟨fun a ha => ?_, h.decreasing⟩
    obtain ⟨-, b, hb, -⟩ := h.pending ha
    exact (h.placed hb).2
  · exact h.decreasing

theorem next_part {a p : Address} {b : Block} {l : Keyword} (hb : d'.blockAt? a = some b) (hn : b.nature?.isSome)
    (hp : p ∈ b.partsOf l) : ∃ c, d'.blockAt? p = some c ∧ c.keyword = l ∧ c.opener = some a := by
  rcases t.block_or hb with ⟨rfl, rfl⟩ | hb
  · cases l <;> simp [Block.partsOf] at hp
  · obtain ⟨c, hc, hl⟩ := h.part hb hn hp
    exact ⟨c, t.blockAt?_old h hc, hl⟩

theorem next_owner {p a : Address} {c : Block} (hc : d'.blockAt? p = some c) (ha : c.opener = some a) :
    ∃ b, d'.blockAt? a = some b ∧ b.nature?.isSome ∧ a < p ∧ p.unit = a.unit ∧
      (c.keyword.partOf? = some b.keyword ∧ p ∈ b.partsOf c.keyword ∨
        c.keyword.partOf? = none ∧ c.keyword.leaves? = b.nature? ∧ b.closer ≠ some p) := by
  rcases t.block_or hc with ⟨rfl, rfl⟩ | hc
  · obtain ⟨hu, b, hb, hn, hopen, hl⟩ := t.isOpen h ha
    exact ⟨b, t.blockAt?_old h hb, hn, (h.placed hb).2, hu.symm, .inr ⟨t.part, hl, by simp [hopen]⟩⟩
  · obtain ⟨b, hb, hb'⟩ := h.owner hc ha
    exact ⟨b, t.blockAt?_old h hb, hb'⟩

theorem next_last {p a e : Address} {c b : Block} (hc : d'.blockAt? p = some c) (ha : c.opener = some a)
    (hb : d'.blockAt? a = some b) (he : b.closer = some e) : p ≤ e := by
  rcases t.block_or hb with ⟨rfl, rfl⟩ | hb
  · cases he
  rcases t.block_or hc with ⟨rfl, rfl⟩ | hc
  · obtain ⟨-, b', hb', -, hopen, -⟩ := t.isOpen h ha
    cases hb.symm.trans hb'
    cases hopen.symm.trans he
  · exact h.last hc ha hb he

theorem next_inner {p a i : Address} {c b : Block} (hc : d'.blockAt? p = some c) (ha : c.opener = some a)
    (hpc : c.keyword.partOf?.isSome) (hb : d'.blockAt? i = some b) (hn : b.nature?.isSome) (hai : a < i)
    (hip : i < p) : ∃ e, b.closer = some e ∧ e < p := by
  rcases t.block_or hc with ⟨rfl, rfl⟩ | hc
  · rw [t.part] at hpc
    cases hpc
  rcases t.block_or hb with ⟨rfl, rfl⟩ | hb
  · exact absurd (hip.trans (h.placed hc).2) (lt_irrefl i)
  · exact h.inner hc ha hpc hb hn hai hip

theorem next_follows {p a : Address} {c b : Block} (hc : d'.blockAt? p = some c) (ha : c.opener = some a)
    (hb : d'.blockAt? a = some b) : c.follow b = c := by
  have hpart := t.part
  rcases t.block_or hc with ⟨rfl, rfl⟩ | hc
  · cases k <;> first | rfl | cases hpart
  rcases t.block_or hb with ⟨rfl, rfl⟩ | hb
  · exact absurd rfl (h.opener_ne_here hc ha)
  · exact h.follows hc ha hb

/-- **A block that is recorded** by itself leaves the draft sound. -/
theorem sound (hk : keywordAt? units here = some k) : d'.Sound units here.next where
  placed {a b} hb := by
    rcases t.block_or hb with ⟨rfl, rfl⟩ | hb
    · exact ⟨rfl, a.lt_next⟩
    · exact ⟨(h.placed hb).1, (h.placed hb).2.trans here.lt_next⟩
  genuine hb := by
    rcases t.block_or hb with ⟨rfl, rfl⟩ | hb
    · exact hk
    · exact h.genuine hb
  recorded {a l} ha hl hlinked := by
    rcases (Address.lt_next_iff.1 ha).eq_or_lt with rfl | ha
    · exact ⟨_, t.blockAt?_here⟩
    · obtain ⟨b, hb⟩ := h.recorded ha hl hlinked
      exact ⟨b, t.blockAt?_old h hb⟩
  pending := t.next_pending h
  decreasing := t.next_decreasing h
  unclosed {a b} hb hn hc := by
    rcases t.block_or hb with ⟨rfl, rfl⟩ | hb
    · exact t.mem_pending.2 (.inl ⟨rfl, hn⟩)
    · exact t.mem_pending.2 (.inr (h.unclosed hb hn hc))
  part := t.next_part h
  owner := t.next_owner h
  owned {a b} hb hn hcall := by
    rcases t.block_or hb with ⟨rfl, rfl⟩ | hb
    · exact t.owned hn hcall
    · exact h.owned hb hn hcall
  last := t.next_last h
  sections {a b p q} hb hn hp hq := by
    rcases t.block_or hb with ⟨rfl, rfl⟩ | hb
    · cases hp
    · exact h.sections hb hn hp hq
  inner := t.next_inner h
  follows := t.next_follows h
  function {n a} ha := by
    rcases t.functions n a ha with ha | ⟨rfl, ha⟩
    · obtain ⟨b, hb, hn⟩ := h.function ha
      exact ⟨b, t.blockAt?_old h hb, hn⟩
    · exact ⟨_, t.blockAt?_here, ha⟩

end Records

/-! ## 3. Recording a part -/

/-- The block at an address once a part of a construct is recorded: the part itself, the construct's
opener, which gets it, and the other parts, which learn of it from the opener. -/
def attached? (d : Draft) (here : Address) (k : Keyword) (top : Address) (o : Block) (a : Address) :
    Option Block :=
  if a = here then some { address := here, keyword := k, opener := some top }
  else if a = top then some (o.attach k here)
  else (d.blockAt? a).map fun c => if c.opener = some top then c.follow (o.attach k here) else c

/-- The blocks once a part is recorded: the part, its opener, and those that were there. -/
theorem attached_cases {k : Keyword} {top : Address} {o : Block}
    (hget : ∀ a, d'.blockAt? a = d.attached? here k top o a) {a : Address} {b : Block}
    (hb : d'.blockAt? a = some b) :
    a = here ∧ b = { address := here, keyword := k, opener := some top } ∨
    a = top ∧ b = o.attach k here ∨
    a ≠ top ∧ ∃ c, d.blockAt? a = some c ∧ b.keyword = c.keyword ∧ b.opener = c.opener ∧
      b = if c.opener = some top then c.follow (o.attach k here) else c := by
  rw [hget, attached?] at hb
  split at hb
  · exact .inl ⟨‹_›, (Option.some.inj hb).symm⟩
  split at hb
  · exact .inr (.inl ⟨‹_›, (Option.some.inj hb).symm⟩)
  obtain ⟨c, hc, rfl⟩ := Option.map_eq_some_iff.1 hb
  refine .inr (.inr ⟨‹_›, c, hc, ?_, ?_, rfl⟩) <;> split <;> simp

/-- The openers once a part is recorded: only the part's own is another. -/
theorem Sound.attached_opener (h : d.Sound units here) {k : Keyword} {top : Address} {o : Block}
    (hpart : k.partOf? = some o.keyword)
    (hget : ∀ a, d'.blockAt? a = d.attached? here k top o a) {a : Address} {b : Block}
    (hb : d'.blockAt? a = some b) (hn : b.nature?.isSome) :
    a = top ∧ b = o.attach k here ∨ a ≠ top ∧ d.blockAt? a = some b := by
  rcases attached_cases hget hb with ⟨rfl, rfl⟩ | hb | ⟨ha, c, hc, hck, -, rfl⟩
  · rw [Block.nature?, Keyword.not_opens?_of_partOf? hpart] at hn
    cases hn
  · exact .inl hb
  · rw [Block.nature?, hck] at hn
    rw [h.opener_eq_none hc hn, if_neg (by simp)]
    exact .inr ⟨ha, hc⟩

/-- **Recording a part**: the innermost pending construct gets a branch, a section or its closer. -/
structure Attaches (d : Draft) (here : Address) (k : Keyword) (top : Address) (rest : List Address) (o : Block)
    (d' : Draft) : Prop where
  part : k.partOf? = some o.keyword
  innermost : d.pending = top :: rest
  block : d.blockAt? top = some o
  admitted : o.Admits k
  blocks : ∀ a, d'.blockAt? a = d.attached? here k top o a
  pending : d'.pending = if k.closes?.isSome then rest else d.pending
  functions : d'.tables.functions = d.tables.functions

namespace Attaches

variable {k : Keyword} {top : Address} {rest : List Address} {o : Block}
  (t : d.Attaches here k top rest o d') (h : d.Sound units here)

include t h

/-- The construct is open. -/
theorem opener : top.unit = here.unit ∧ o.nature?.isSome ∧ o.closer = none := by
  obtain ⟨hu, b, hb, hn, hc⟩ := h.pending (t.innermost ▸ List.mem_cons_self)
  cases t.block.symm.trans hb
  exact ⟨hu, hn, hc⟩

theorem top_lt : top < here := (h.placed t.block).2

theorem lt_top {a : Address} (ha : a ∈ rest) : a < top :=
  (List.pairwise_cons.1 (t.innermost ▸ h.decreasing)).1 a ha

/-- Only an `elseIf` may be there already. -/
theorem partsOf_eq_nil (hk : k ≠ .elseIf) : o.partsOf k = [] := by
  obtain ⟨-, -, hc⟩ := t.opener h
  have hpart := t.part
  have hadmitted := t.admitted
  cases k <;> first | cases hpart | exact absurd rfl hk | skip
  all_goals simp_all [Block.partsOf, Block.Admits]

theorem mem_partsOf {l : Keyword} {p : Address} :
    p ∈ (o.attach k here).partsOf l ↔ p ∈ o.partsOf l ∨ p = here ∧ l = k :=
  Block.mem_partsOf_attach t.part (t.partsOf_eq_nil h)

theorem closer : (o.attach k here).closer = if k.closes?.isSome then some here else none := by
  obtain ⟨-, -, hc⟩ := t.opener h
  rw [Block.closer_attach _ _ _ (by rw [t.part]; rfl), hc]

omit h in
theorem blockAt?_here : d'.blockAt? here = some { address := here, keyword := k, opener := some top } :=
  (t.blocks here).trans (if_pos rfl)

theorem blockAt?_top : d'.blockAt? top = some (o.attach k here) := by
  rw [t.blocks, attached?, if_neg (t.top_lt h).ne, if_pos rfl]

/-- Every block stays, with its keyword and its construct. -/
theorem exists_block {a : Address} {c : Block} (hc : d.blockAt? a = some c) :
    ∃ b, d'.blockAt? a = some b ∧ b.keyword = c.keyword ∧ b.opener = c.opener := by
  by_cases ha : a = top
  · subst ha
    cases hc.symm.trans t.block
    exact ⟨_, t.blockAt?_top h, by simp, by simp⟩
  · refine ⟨_, by rw [t.blocks, attached?, if_neg (h.placed hc).2.ne, if_neg ha, hc]; rfl, ?_⟩
    dsimp only
    split <;> simp

/-- Every other opener stays as it was. -/
theorem blockAt?_opener {a : Address} {c : Block} (ha : a ≠ top) (hc : d.blockAt? a = some c)
    (hn : c.nature?.isSome) : d'.blockAt? a = some c := by
  rw [t.blocks, attached?, if_neg (h.placed hc).2.ne, if_neg ha, hc, Option.map_some, h.opener_eq_none hc hn]
  rfl

/-- A block that belongs to a construct is the part, or was there and belonged to it. -/
theorem belongs {p a : Address} {c : Block} (hc : d'.blockAt? p = some c) (ha : c.opener = some a) :
    p = here ∧ a = top ∧ c = { address := here, keyword := k, opener := some top } ∨
      ∃ c₀, d.blockAt? p = some c₀ ∧ c.keyword = c₀.keyword ∧ c₀.opener = some a ∧
        c = if a = top then c₀.follow (o.attach k here) else c₀ := by
  rcases attached_cases t.blocks hc with ⟨rfl, rfl⟩ | ⟨rfl, rfl⟩ | ⟨-, c₀, hc₀, hck, hco, heq⟩
  · cases ha
    exact .inl ⟨rfl, rfl, rfl⟩
  · rw [Block.opener_attach, h.opener_eq_none t.block (t.opener h).2.1] at ha
    cases ha
  · rw [hco] at ha
    refine .inr ⟨c₀, hc₀, hck, ha, heq.trans ?_⟩
    simp only [ha, Option.some.injEq]

theorem next_pending {a : Address} (ha : a ∈ d'.pending) : a.unit = here.unit ∧
    ∃ b, d'.blockAt? a = some b ∧ b.nature?.isSome ∧ b.closer = none := by
  have hmem : a ∈ d.pending := by
    rw [t.pending] at ha
    split at ha
    · exact t.innermost ▸ List.mem_cons_of_mem _ ha
    · exact ha
  obtain ⟨hu, b, hb, hn, hc⟩ := h.pending hmem
  refine ⟨hu, ?_⟩
  by_cases hat : a = top
  · subst hat
    rw [t.pending] at ha
    split at ha
    · exact absurd (t.lt_top h ha) (lt_irrefl a)
    · rename_i hcl
      exact ⟨_, t.blockAt?_top h, by simpa using (t.opener h).2.1, by rw [t.closer h, if_neg hcl]⟩
  · exact ⟨b, t.blockAt?_opener h hat hb hn, hn, hc⟩

theorem next_unclosed {a : Address} {b : Block} (hb : d'.blockAt? a = some b) (hn : b.nature?.isSome)
    (hc : b.closer = none) : a ∈ d'.pending := by
  rw [t.pending]
  rcases h.attached_opener t.part t.blocks hb hn with ⟨rfl, rfl⟩ | ⟨hat, hb⟩
  · rw [t.closer h] at hc
    split at hc
    · cases hc
    · rw [if_neg ‹_›, t.innermost]
      exact List.mem_cons_self
  · have hmem := h.unclosed hb hn hc
    rw [t.innermost] at hmem ⊢
    have := (List.mem_cons.1 hmem).resolve_left hat
    split
    · exact this
    · exact hmem

theorem next_part {a p : Address} {b : Block} {l : Keyword} (hb : d'.blockAt? a = some b) (hn : b.nature?.isSome)
    (hp : p ∈ b.partsOf l) : ∃ c, d'.blockAt? p = some c ∧ c.keyword = l ∧ c.opener = some a := by
  have hold {p a c} (hc : d.blockAt? p = some c) (hck : c.keyword = l) (hco : c.opener = some a) :
      ∃ c, d'.blockAt? p = some c ∧ c.keyword = l ∧ c.opener = some a := by
    obtain ⟨b, hb, hbk, hbo⟩ := t.exists_block h hc
    exact ⟨b, hb, hbk.trans hck, hbo.trans hco⟩
  rcases h.attached_opener t.part t.blocks hb hn with ⟨rfl, rfl⟩ | ⟨-, hb⟩
  · rcases (t.mem_partsOf h).1 hp with hp | ⟨rfl, rfl⟩
    · obtain ⟨c, hc, hck, hco⟩ := h.part t.block (t.opener h).2.1 hp
      exact hold hc hck hco
    · exact ⟨_, t.blockAt?_here, rfl, rfl⟩
  · obtain ⟨c, hc, hck, hco⟩ := h.part hb hn hp
    exact hold hc hck hco

theorem next_owner {p a : Address} {c : Block} (hc : d'.blockAt? p = some c) (ha : c.opener = some a) :
    ∃ b, d'.blockAt? a = some b ∧ b.nature?.isSome ∧ a < p ∧ p.unit = a.unit ∧
      (c.keyword.partOf? = some b.keyword ∧ p ∈ b.partsOf c.keyword ∨
        c.keyword.partOf? = none ∧ c.keyword.leaves? = b.nature? ∧ b.closer ≠ some p) := by
  obtain ⟨htu, hon, -⟩ := t.opener h
  rcases t.belongs h hc ha with ⟨rfl, rfl, rfl⟩ | ⟨c₀, hc₀, hck, ha, -⟩
  · refine ⟨_, t.blockAt?_top h, by simpa using hon, t.top_lt h, htu.symm, .inl ⟨by simpa using t.part, ?_⟩⟩
    exact (t.mem_partsOf h).2 (.inr ⟨rfl, rfl⟩)
  · rw [hck]
    obtain ⟨b, hb, hn, hlt, hu, hrole⟩ := h.owner hc₀ ha
    by_cases hat : a = top
    · subst hat
      cases hb.symm.trans t.block
      refine ⟨_, t.blockAt?_top h, by simpa using hn, hlt, hu, ?_⟩
      rcases hrole with ⟨hp, hm⟩ | ⟨hp, hl, -⟩
      · exact .inl ⟨by simpa using hp, (t.mem_partsOf h).2 (.inl hm)⟩
      · refine .inr ⟨hp, by simpa using hl, ?_⟩
        rw [t.closer h]
        split
        · simpa using (h.placed hc₀).2.ne'
        · simp
    · exact ⟨b, t.blockAt?_opener h hat hb hn, hn, hlt, hu, hrole⟩

theorem next_last {p a e : Address} {c b : Block} (hc : d'.blockAt? p = some c) (ha : c.opener = some a)
    (hb : d'.blockAt? a = some b) (he : b.closer = some e) : p ≤ e := by
  obtain ⟨b', hb', hn, -⟩ := t.next_owner h hc ha
  cases hb.symm.trans hb'
  rcases h.attached_opener t.part t.blocks hb hn with ⟨rfl, rfl⟩ | ⟨hat, hb⟩
  · rw [t.closer h] at he
    split at he
    · cases he
      rcases t.belongs h hc ha with ⟨rfl, -, -⟩ | ⟨c₀, hc₀, -⟩
      · exact le_rfl
      · exact (h.placed hc₀).2.le
    · cases he
  · rcases t.belongs h hc ha with ⟨-, rfl, -⟩ | ⟨c₀, hc₀, -, ha, -⟩
    · exact absurd rfl hat
    · exact h.last hc₀ ha hb he

theorem next_sections {a p q : Address} {b : Block} (hb : d'.blockAt? a = some b) (hn : b.nature?.isSome)
    (hp : b.catchAt = some p) (hq : b.finallyAt = some q) : p < q := by
  rcases h.attached_opener t.part t.blocks hb hn with ⟨rfl, rfl⟩ | ⟨-, hb⟩
  · obtain ⟨-, hon, -⟩ := t.opener h
    rw [Block.catchAt_attach] at hp
    rw [Block.finallyAt_attach] at hq
    by_cases hcatch : k = .catchError
    · subst hcatch
      rw [if_neg (by decide), t.admitted.2] at hq
      cases hq
    · rw [if_neg hcatch] at hp
      have hmem : p ∈ o.partsOf .catchError := by simp [Block.partsOf, hp]
      split at hq
      · cases hq
        obtain ⟨c, hc, -⟩ := h.part t.block hon hmem
        exact (h.placed hc).2
      · exact h.sections t.block hon hp hq
  · exact h.sections hb hn hp hq

/-- What was opened in the construct is closed already. -/
theorem next_inner {p a i : Address} {c b : Block} (hc : d'.blockAt? p = some c) (ha : c.opener = some a)
    (hpc : c.keyword.partOf?.isSome) (hb : d'.blockAt? i = some b) (hn : b.nature?.isSome) (hai : a < i)
    (hip : i < p) : ∃ e, b.closer = some e ∧ e < p := by
  rcases h.attached_opener t.part t.blocks hb hn with ⟨rfl, rfl⟩ | ⟨hat, hb⟩
  · rcases t.belongs h hc ha with ⟨-, rfl, -⟩ | ⟨c₀, hc₀, hck, ha, -⟩
    · exact absurd hai (lt_irrefl _)
    · obtain ⟨-, hon, hopen⟩ := t.opener h
      obtain ⟨e, he, -⟩ := h.inner hc₀ ha (hck ▸ hpc) t.block hon hai hip
      cases hopen.symm.trans he
  · rcases t.belongs h hc ha with ⟨rfl, rfl, -⟩ | ⟨c₀, hc₀, hck, ha, -⟩
    -- A construct that is open and was opened later would be the innermost one.
    · have hclosed : b.closer ≠ none := fun hopen => by
        have := t.innermost ▸ h.unclosed hb hn hopen
        rcases List.mem_cons.1 this with rfl | this
        · exact lt_irrefl _ hai
        · exact lt_asymm hai (t.lt_top h this)
      obtain ⟨e, he⟩ := Option.ne_none_iff_exists'.1 hclosed
      exact ⟨e, he, h.closer_lt hb hn he⟩
    · exact h.inner hc₀ ha (hck ▸ hpc) hb hn hai hip

theorem next_follows {p a : Address} {c b : Block} (hc : d'.blockAt? p = some c) (ha : c.opener = some a)
    (hb : d'.blockAt? a = some b) : c.follow b = c := by
  obtain ⟨b', hb', hn, -⟩ := t.next_owner h hc ha
  cases hb.symm.trans hb'
  rcases t.belongs h hc ha with ⟨rfl, rfl, rfl⟩ | ⟨c₀, hc₀, -, ha₀, rfl⟩
  · cases (t.blockAt?_top h).symm.trans hb
    obtain ⟨-, -, hopen⟩ := t.opener h
    have hpart := t.part
    have hadmitted := t.admitted
    cases k <;> first | cases hpart | skip
    all_goals simp [Block.follow, Block.attach, hopen]
    exact hadmitted.2
  · rcases h.attached_opener t.part t.blocks hb hn with ⟨rfl, rfl⟩ | ⟨hat, hb⟩
    · rw [if_pos rfl, Block.follow_follow]
    · rw [if_neg hat]
      exact h.follows hc₀ ha₀ hb

/-- **A part that is recorded** leaves the draft sound. -/
theorem sound (hk : keywordAt? units here = some k) : d'.Sound units here.next where
  placed {a b} hb := by
    rcases attached_cases t.blocks hb with ⟨rfl, rfl⟩ | ⟨rfl, rfl⟩ | ⟨-, c, hc, -, -, rfl⟩
    · exact ⟨rfl, a.lt_next⟩
    · exact ⟨by simpa using (h.placed t.block).1, (t.top_lt h).trans here.lt_next⟩
    · refine ⟨?_, (h.placed hc).2.trans here.lt_next⟩
      split <;> simpa using (h.placed hc).1
  genuine hb := by
    rcases attached_cases t.blocks hb with ⟨rfl, rfl⟩ | ⟨rfl, rfl⟩ | ⟨-, c, hc, hck, -, -⟩
    · exact hk
    · simpa using h.genuine t.block
    · rw [hck]
      exact h.genuine hc
  recorded {a l} ha hl hlinked := by
    rcases (Address.lt_next_iff.1 ha).eq_or_lt with rfl | ha
    · exact ⟨_, t.blockAt?_here⟩
    · obtain ⟨c, hc⟩ := h.recorded ha hl hlinked
      obtain ⟨b, hb, -⟩ := t.exists_block h hc
      exact ⟨b, hb⟩
  pending := t.next_pending h
  decreasing := by
    rw [t.pending]
    split
    · exact (List.pairwise_cons.1 (t.innermost ▸ h.decreasing)).2
    · exact h.decreasing
  unclosed := t.next_unclosed h
  part := t.next_part h
  owner := t.next_owner h
  owned {a b} hb hn hcall := by
    rcases attached_cases t.blocks hb with ⟨rfl, rfl⟩ | ⟨rfl, rfl⟩ | ⟨-, c, hc, hck, hco, -⟩
    · rfl
    · have hon := (t.opener h).2.1
      rw [Block.nature?_attach] at hn
      rw [hn] at hon
      cases hon
    · rw [hco]
      exact h.owned hc (by rwa [Block.nature?, ← hck]) (hck ▸ hcall)
  last := t.next_last h
  sections := t.next_sections h
  inner := t.next_inner h
  follows := t.next_follows h
  function ha := by
    obtain ⟨b, hb, hn⟩ := h.function (t.functions ▸ ha)
    obtain ⟨b', hb', hbk, -⟩ := t.exists_block h hb
    exact ⟨b', hb', by rw [Block.nature?, hbk]; exact hn⟩

end Attaches

end Draft

end BlockFlow
