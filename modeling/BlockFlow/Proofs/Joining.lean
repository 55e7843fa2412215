/-
# Suites of joined units

Units are compiled one after the other, and what two lists of units compile to together is what each of them
compiles to by itself, once the addresses of the second are shifted by the number of units before it.

Two drafts are compared that read the same commands, one of them after other units: `Draft.Over` says that it has
the tables of those and, shifted, what the other one has.  `Over.takes` carries this over a flow command, whose
effects `Takes` lists.  No error is compared on the way: whether units compile is `Draft.addUnits_ok_iff`, and
only the functions that are known already make a difference to it.

`compile_append` is the main result.
-/
import BlockFlow.Proofs.Acceptance

namespace BlockFlow

/-! ## 1. Shifted blocks -/

namespace Address

/-- The address behind a number of further units. -/
def shift (n : Nat) (a : Address) : Address := ⟨a.unit + n, a.position⟩

@[simp] theorem unit_shift (n : Nat) (a : Address) : (a.shift n).unit = a.unit + n := rfl

@[simp] theorem shift_inj {n : Nat} {a b : Address} : a.shift n = b.shift n ↔ a = b := by
  obtain ⟨u, p⟩ := a
  obtain ⟨v, q⟩ := b
  simp [shift]

theorem ne_shift {n : Nat} {a b : Address} (h : a.unit < n) : a ≠ b.shift n := by
  rintro rfl
  exact Nat.not_lt_of_le (Nat.le_add_left n b.unit) h

theorem exists_shift {n : Nat} {a : Address} (h : n ≤ a.unit) : ∃ b : Address, a = b.shift n :=
  ⟨⟨a.unit - n, a.position⟩, by rw [shift, Nat.sub_add_cancel h]⟩

end Address

namespace LabelKey

/-- The key behind a number of further units. -/
def shift (n : Nat) (key : LabelKey) : LabelKey := ⟨key.unit + n, key.label⟩

@[simp] theorem unit_shift (n : Nat) (key : LabelKey) : (key.shift n).unit = key.unit + n := rfl

@[simp] theorem shift_inj {n : Nat} {key key' : LabelKey} : key.shift n = key'.shift n ↔ key = key' := by
  obtain ⟨u, p⟩ := key
  obtain ⟨v, q⟩ := key'
  simp [shift]

theorem exists_shift {n : Nat} {key : LabelKey} (h : n ≤ key.unit) : ∃ key' : LabelKey, key = key'.shift n :=
  ⟨⟨key.unit - n, key.label⟩, by rw [shift, Nat.sub_add_cancel h]⟩

end LabelKey

namespace Block

/-- The block behind a number of further units: its address and all that it is linked to. -/
def shift (n : Nat) (b : Block) : Block where
  address := b.address.shift n
  keyword := b.keyword
  name := b.name
  opener := b.opener.map (Address.shift n)
  elseIfs := b.elseIfs.map (Address.shift n)
  elseAt := b.elseAt.map (Address.shift n)
  catchAt := b.catchAt.map (Address.shift n)
  finallyAt := b.finallyAt.map (Address.shift n)
  closer := b.closer.map (Address.shift n)

@[simp] theorem keyword_shift (n : Nat) (b : Block) : (b.shift n).keyword = b.keyword := rfl

@[simp] theorem nature?_shift (n : Nat) (b : Block) : (b.shift n).nature? = b.nature? := rfl

theorem shift_attach (n : Nat) (b : Block) (k : Keyword) (a : Address) :
    (b.attach k a).shift n = (b.shift n).attach k (a.shift n) := by
  unfold attach
  split <;> simp [shift]

theorem shift_follow (n : Nat) (c o : Block) : (c.follow o).shift n = (c.shift n).follow (o.shift n) := by
  unfold follow
  rw [keyword_shift]
  split <;> rfl

/-- The commands that a block is linked to. -/
def links (b : Block) : List Address :=
  b.opener.toList ++ b.elseIfs ++ b.elseAt.toList ++ b.catchAt.toList ++ b.finallyAt.toList ++ b.closer.toList

theorem mem_links_attach {b : Block} {k : Keyword} {a l : Address} (h : l ∈ (b.attach k a).links) :
    l = a ∨ l ∈ b.links := by
  unfold attach at h
  split at h <;> simp only [links, List.mem_append, List.mem_singleton, Option.mem_toList] at h ⊢ <;>
    grind

theorem mem_links_follow {c o : Block} {l : Address} (h : l ∈ (c.follow o).links) : l ∈ c.links ∨ l ∈ o.links := by
  unfold follow at h
  split at h <;> simp only [links, List.mem_append] at h ⊢ <;> grind

end Block

variable {units : List ScriptUnit} {A : Tables} {n : Nat} {d d' D D' : Draft} {here : Address} {k : Keyword}
  {target : String}

namespace Draft

/-! ## 2. Links stay in their units -/

/-- **No block is linked to another unit**, and labels are those of the units so far. -/
structure Local (d : Draft) (here : Address) : Prop where
  links {a b l} : d.blockAt? a = some b → l ∈ b.links → l.unit = a.unit
  labels {key a} : d.tables.labels.get? key = some a → a.unit = key.unit ∧ a < here

theorem Takes.local (t : d.Takes here k target d') (h : d.Sound units here) (hl : d.Local here) :
    d'.Local here.next where
  links {a b l} hb hlink := by
    cases t with
    | label => exact hl.links hb hlink
    | pass => exact hl.links hb hlink
    | record linked part leaves found named blocks =>
      rw [blocks] at hb
      split at hb
      · rename_i ha
        subst ha
        cases hb
        replace hlink : l ∈ (k.leaves?.bind d.enclosing?).toList := by
          rw [← leaves]
          simpa [Block.links] using hlink
        obtain ⟨m, -, henc⟩ := Option.bind_eq_some_iff.1 (Option.mem_toList.1 hlink)
        exact (h.pending (enclosing?_eq_some henc).1).1
      · exact hl.links hb hlink
    | @attach _ _ top rest o _ part innermost block _ _ blocks =>
      have htop : top.unit = here.unit := (h.pending (innermost ▸ List.mem_cons_self)).1
      have hpart {l : Address} (hlink : l ∈ (o.attach k here).links) : l.unit = top.unit := by
        rcases Block.mem_links_attach hlink with rfl | hlink
        · exact htop.symm
        · exact hl.links block hlink
      rcases attached_cases blocks hb with ⟨rfl, rfl⟩ | ⟨rfl, rfl⟩ | ⟨-, c, hc, -, -, rfl⟩
      · have : l = top := by simpa [Block.links] using hlink
        rw [this, htop]
      · exact hpart hlink
      · split at hlink
        · rename_i howner
          obtain ⟨-, -, -, -, hunit, -⟩ := h.owner hc howner
          rcases Block.mem_links_follow hlink with hlink | hlink
          · exact hl.links hc hlink
          · rw [hpart hlink, hunit]
        · exact hl.links hc hlink
  labels {key a} ha := by
    have hold {a : Address} (ha : d.tables.labels.get? key = some a) : a.unit = key.unit ∧ a < here.next :=
      ⟨(hl.labels ha).1, (hl.labels ha).2.trans here.lt_next⟩
    rw [t.labels_eq] at ha
    split at ha
    · rw [Dict.get?_insert] at ha
      split at ha
      · rename_i hkey
        cases ha
        exact ⟨by rw [hkey]; rfl, here.lt_next⟩
      · exact hold ha
    · exact hold ha

theorem Sound.local_command (h : d.Sound units here) (hl : d.Local here) {c : Command}
    (hd' : d.command here c = .ok d') : d'.Local here.next := by
  rcases command_ok hd' with ⟨-, rfl⟩ | ⟨k, -, hf⟩
  · exact ⟨hl.links, fun ha => ⟨(hl.labels ha).1, (hl.labels ha).2.trans here.lt_next⟩⟩
  · exact (h.takes hf).local h hl

theorem invariant_local (units : List ScriptUnit) :
    Invariant units fun d here => d.Sound units here ∧ d.Local here where
  command hc h hd' := ⟨h.1.command hc hd', h.1.local_command h.2 hd'⟩
  nextUnit h hp hu := ⟨h.1.nextUnit hp hu, h.2.links, fun ha =>
    ⟨(h.2.labels ha).1, (h.2.labels ha).2.trans (.inl (Nat.lt_succ_self _))⟩⟩

end Draft

/-- **Tables of a number of units**: no block is linked to another unit than its own, which is one of them. -/
structure Tables.Below (t : Tables) (n : Nat) : Prop where
  blocks {a b} : t.blocks.get? a = some b → a.unit < n ∧ b.address = a ∧ ∀ l ∈ b.links, l.unit = a.unit
  labels {key a} : t.labels.get? key = some a → a.unit = key.unit ∧ key.unit < n

theorem Suite.below_of_compile {s : Suite} {units : List ScriptUnit} (h : Suite.compile units = .ok s) :
    s.tables.Below units.length := by
  obtain ⟨-, hs, hl⟩ := (Draft.invariant_local units).compile h ⟨Suite.sound_nil units, nofun, nofun⟩
  have hbelow {a : Address} (ha : a < ⟨units.length, 0⟩) : a.unit < units.length := by
    simpa [Address.lt_iff] using ha
  refine ⟨fun {a b} hb => ⟨hbelow (hs.placed hb).2, (hs.placed hb).1, fun l => hl.links hb⟩, fun {key a} ha => ?_⟩
  obtain ⟨hunit, hlt⟩ := hl.labels ha
  exact ⟨hunit, hunit ▸ hbelow hlt⟩

namespace Draft

/-! ## 3. A draft over other units -/

/-- **The blocks of a draft over other units** are theirs and, behind their number, those of another draft. -/
structure OverBlocks (A : Tables) (n : Nat) (d D : Draft) : Prop where
  pending : D.pending = d.pending.map (Address.shift n)
  blocks {a} : a.unit < n → D.blockAt? a = A.blocks.get? a
  shifted {a} : D.blockAt? (a.shift n) = (d.blockAt? a).map (Block.shift n)

/-- **A draft over other units** has their tables and, behind their number, what another draft has. -/
structure Over (A : Tables) (n : Nat) (d D : Draft) : Prop extends OverBlocks A n d D where
  functions {name} : D.tables.functions.get? name =
    (A.functions.get? name).or ((d.tables.functions.get? name).map (Address.shift n))
  labels {key} : key.unit < n → D.tables.labels.get? key = A.labels.get? key
  shiftedLabels {key} : D.tables.labels.get? (key.shift n) = (d.tables.labels.get? key).map (Address.shift n)

namespace OverBlocks

theorem block (h : OverBlocks A n d D) (a : Address) : D.block (a.shift n) = (d.block a).shift n := by
  unfold Draft.block
  rw [show D.tables.blocks.get? (a.shift n) = _ from h.shifted]
  exact Option.getD_map (Block.shift n) { address := a, keyword := .label } _

theorem enclosing? (h : OverBlocks A n d D) (m : Nature) :
    D.enclosing? m = (d.enclosing? m).map (Address.shift n) := by
  unfold Draft.enclosing?
  rw [h.pending, List.find?_map]
  congr 2
  funext a
  rw [Function.comp_apply, h.block, Block.nature?_shift]

/-- **Recording a block** that is no part of a construct. -/
theorem record (h : OverBlocks A n d D) {opener : Option Address} {name : Option String}
    (blocks : ∀ a, d'.blockAt? a =
      if a = here then some { address := here, keyword := k, name, opener } else d.blockAt? a)
    (blocks' : ∀ a, D'.blockAt? a = if a = here.shift n then
      some { address := here.shift n, keyword := k, name, opener := opener.map (Address.shift n) } else D.blockAt? a)
    (pending : d'.pending = if k.opens?.isSome then here :: d.pending else d.pending)
    (pending' : D'.pending = if k.opens?.isSome then here.shift n :: D.pending else D.pending) :
    OverBlocks A n d' D' where
  pending := by
    rw [pending', pending, h.pending]
    split <;> rfl
  blocks {a} ha := by
    rw [blocks', if_neg (Address.ne_shift ha), h.blocks ha]
  shifted {a} := by
    rw [blocks', blocks]
    simp only [Address.shift_inj]
    split
    · rfl
    · exact h.shifted

/-- **Recording a part** of a construct. -/
theorem attach (h : OverBlocks A n d D) (hA : A.Below n) {top : Address} {rest : List Address} {o : Block}
    (blocks : ∀ a, d'.blockAt? a = d.attached? here k top o a)
    (blocks' : ∀ a, D'.blockAt? a = D.attached? (here.shift n) k (top.shift n) (o.shift n) a)
    (pending : d'.pending = if k.closes?.isSome then rest else d.pending)
    (pending' : D'.pending = if k.closes?.isSome then rest.map (Address.shift n) else D.pending) :
    OverBlocks A n d' D' where
  pending := by
    rw [pending', pending, h.pending]
    split <;> rfl
  blocks {a} ha := by
    rw [blocks', attached?, if_neg (Address.ne_shift ha), if_neg (Address.ne_shift ha), h.blocks ha]
    cases hb : A.blocks.get? a with
    | none => rfl
    | some b =>
      -- A block of the other units belongs to one of their constructs, if to any.
      obtain ⟨-, -, hlinks⟩ := hA.blocks hb
      rw [Option.map_some, if_neg]
      intro hopener
      have htop : (top.shift n).unit = a.unit := hlinks _ (by simp [Block.links, hopener])
      exact Address.ne_shift (htop ▸ ha) rfl
  shifted {a} := by
    rw [blocks', blocks]
    simp only [attached?, Address.shift_inj]
    split
    · rfl
    split
    · rw [Option.map_some, Block.shift_attach]
    · rw [h.shifted, Option.map_map, Option.map_map]
      congr 1
      funext c
      have hopener : (c.shift n).opener = some (top.shift n) ↔ c.opener = some top := by
        cases hc : c.opener <;> simp [Block.shift, hc]
      simp only [Function.comp_apply, hopener]
      split
      · rw [Block.shift_follow, Block.shift_attach]
      · rfl

/-- **A flow command** does to the blocks of a draft over other units what it does by itself. -/
theorem takes (h : OverBlocks A n d D) (hA : A.Below n) (t : d.Takes here k target d')
    (t' : D.Takes (here.shift n) k target D') : OverBlocks A n d' D' := by
  cases t with
  | label =>
    cases t' with
    | label => exact ⟨h.pending, h.blocks, h.shifted⟩
    | pass unlinked other => exact absurd rfl other
    | record linked => cases linked
    | attach part => cases part
  | pass unlinked other =>
    cases t' with
    | label => exact absurd rfl other
    | pass => exact h
    | record linked => cases unlinked.symm.trans linked
    | attach part => cases unlinked.symm.trans (Keyword.isLinked_of_partOf? part)
  | record linked part leaves found named blocks pending =>
    cases t' with
    | label => cases linked
    | pass unlinked => cases unlinked.symm.trans linked
    | attach part' => cases part.symm.trans part'
    | record _ _ leaves' _ _ blocks' pending' =>
      have hopener : k.leaves?.bind D.enclosing? = (k.leaves?.bind d.enclosing?).map (Address.shift n) := by
        cases k.leaves? with
        | none => rfl
        | some m => exact h.enclosing? m
      rw [leaves', hopener, ← leaves] at blocks'
      exact h.record blocks blocks' pending pending'
  | attach part innermost block admitted asked blocks pending =>
    cases t' with
    | label => cases part
    | pass unlinked => cases unlinked.symm.trans (Keyword.isLinked_of_partOf? part)
    | record _ part' => cases part'.symm.trans part
    | attach part' innermost' block' _ _ blocks' pending' =>
      rw [h.pending, innermost] at innermost'
      obtain ⟨rfl, rfl⟩ := List.cons.inj innermost'
      rw [h.shifted, block] at block'
      cases block'
      exact h.attach hA blocks blocks' pending pending'

end OverBlocks

/-- **A flow command** does to a draft over other units what it does to the draft by itself. -/
theorem Over.takes (h : Over A n d D) (hA : A.Below n) (t : d.Takes here k target d')
    (t' : D.Takes (here.shift n) k target D') : Over A n d' D' where
  toOverBlocks := h.toOverBlocks.takes hA t t'
  functions {name} := by
    rw [t'.functions_eq, t.functions_eq]
    split
    · rename_i hk
      have hfresh := (t'.names_new.2 hk).2
      rw [h.functions, Option.or_eq_none_iff] at hfresh
      rw [Dict.get?_insert, Dict.get?_insert]
      split
      · rename_i hname
        rw [hname, hfresh.1]
        rfl
      · exact h.functions
    · exact h.functions
  labels {key} hkey := by
    rw [t'.labels_eq]
    split
    · rw [Dict.get?_insert, if_neg, h.labels hkey]
      rintro rfl
      exact Nat.not_lt_of_le (Nat.le_add_left n here.unit) hkey
    · exact h.labels hkey
  shiftedLabels {key} := by
    have hkey : LabelKey.ofText target (here.shift n).unit = (LabelKey.ofText target here.unit).shift n := rfl
    rw [t'.labels_eq, t.labels_eq, hkey]
    split
    · rw [Dict.get?_insert, Dict.get?_insert]
      simp only [LabelKey.shift_inj]
      split
      · rfl
      · exact h.shiftedLabels
    · exact h.shiftedLabels

/-! ## 4. Units after other units -/

variable {units' : List ScriptUnit} {t t' T T' : Tables} {index : Nat} {u : ScriptUnit}

theorem Over.command (h : Over A n d D) (hA : A.Below n) (hs : d.Sound units here)
    (hs' : D.Sound units' (here.shift n)) {c : Command} (hd : d.command here c = .ok d')
    (hD : D.command (here.shift n) c = .ok D') : Over A n d' D' := by
  rcases command_ok hd with ⟨hk, rfl⟩ | ⟨k, hk, hf⟩ <;> rcases command_ok hD with ⟨hk', rfl⟩ | ⟨k', hk', hf'⟩ <;>
    cases hk.symm.trans hk'
  · exact h
  · exact h.takes hA (hs.takes hf) (hs'.takes hf')

/-- **The commands of a unit** do to a draft over other units what they do to the draft by itself. -/
theorem Over.commands : ∀ {cs : List Command} {d D : Draft} {here : Address}, Over A n d D → A.Below n →
    d.Sound units here → D.Sound units' (here.shift n) → Listed units here cs → Listed units' (here.shift n) cs →
    Draft.commands d here cs = (d', none) → Draft.commands D (here.shift n) cs = (D', none) → Over A n d' D'
  | [], d, D, here, h, _, _, _, _, _, hd, hD => by
    cases hd
    cases hD
    exact h
  | c :: cs, d, D, here, h, hA, hs, hs', hcs, hcs', hd, hD => by
    unfold Draft.commands at hd hD
    split at hd
    · rename_i d₁ hc
      split at hD
      · rename_i D₁ hc'
        exact Over.commands (h.command hA hs hs' hc hc') hA (hs.command hcs.head hc) (hs'.command hcs'.head hc')
          hcs.tail hcs'.tail hd hD
      · cases hD
    · cases hd

/-- What compiling a unit leaves is what its commands leave, and nothing is pending. -/
theorem commands_of_addUnit (ht : t.addUnit index u = (t', none)) : ∃ d', d'.pending = [] ∧ d'.tables = t' ∧
    Draft.commands { tables := t } ⟨index, 0⟩ u.commands = (d', none) := by
  unfold Tables.addUnit at ht
  split at ht
  · cases ht
  · rename_i d' hd
    split at ht
    · cases ht
      exact ⟨d', List.isEmpty_iff.1 ‹_›, rfl, hd⟩
    · cases ht

theorem Over.addUnit (h : Over A n { tables := t } { tables := T }) (hA : A.Below n)
    (hs : Sound units { tables := t } ⟨index, 0⟩) (hs' : Sound units' { tables := T } ⟨index + n, 0⟩)
    (hu : units[index]? = some u) (hu' : units'[index + n]? = some u) (ht : t.addUnit index u = (t', none))
    (hT : T.addUnit (index + n) u = (T', none)) : Over A n { tables := t' } { tables := T' } := by
  obtain ⟨d', hp, rfl, hd⟩ := commands_of_addUnit ht
  obtain ⟨D', hp', rfl, hD⟩ := commands_of_addUnit hT
  have := h.commands hA hs hs' (listed_commands hu) (listed_commands hu') hd hD
  exact { this with pending := rfl }

/-- **Units after other units** leave what they leave by themselves, over the tables of those. -/
theorem Over.addUnits : ∀ {us : List ScriptUnit} {t T : Tables} {index : Nat},
    Over A n { tables := t } { tables := T } → A.Below n →
    Sound units { tables := t } ⟨index, 0⟩ → Sound units' { tables := T } ⟨index + n, 0⟩ →
    (∀ i u, us[i]? = some u → units[index + i]? = some u ∧ units'[index + n + i]? = some u) →
    t.addUnits index us = (t', none) → T.addUnits (index + n) us = (T', none) →
    Over A n { tables := t' } { tables := T' }
  | [], t, T, index, h, _, _, _, _, ht, hT => by
    cases ht
    cases hT
    exact h
  | u :: us, t, T, index, h, hA, hs, hs', hus, ht, hT => by
    obtain ⟨hu, hu'⟩ := hus 0 u rfl
    unfold Tables.addUnits at ht hT
    split at ht
    · rename_i t₁ ht₁
      split at hT
      · rename_i T₁ hT₁
        rw [Nat.add_right_comm] at hT
        refine Over.addUnits (h.addUnit hA hs hs' hu hu' ht₁ hT₁) hA ((invariant_sound units).addUnit hs hu ht₁)
          (Nat.add_right_comm index n 1 ▸ (invariant_sound units').addUnit hs' hu' hT₁) (fun i v hi => ?_) ht hT
        have := hus (i + 1) v hi
        rw [show index + 1 + i = index + (i + 1) by omega, show index + 1 + n + i = index + n + (i + 1) by omega]
        exact this
      · cases hT
    · cases ht

/-- The units before leave tables that a draft without tables is over. -/
theorem over_nil (hA : A.Below n) : Over A n {} { tables := A } where
  pending := rfl
  blocks _ := rfl
  shifted {a} := by
    refine Option.eq_none_iff_forall_ne_some.2 fun b hb => ?_
    have := (hA.blocks hb).1
    rw [Address.unit_shift] at this
    omega
  functions := by simp
  labels _ := rfl
  shiftedLabels {key} := by
    refine Option.eq_none_iff_forall_ne_some.2 fun a ha => ?_
    have := (hA.labels ha).2
    rw [LabelKey.unit_shift] at this
    omega

/-- The functions of units are those that their rows declare. -/
theorem Sound.functions_of_addUnits : ∀ {us : List ScriptUnit} {t : Tables} {index : Nat},
    Sound units { tables := t } ⟨index, 0⟩ → (∀ i u, us[i]? = some u → units[index + i]? = some u) →
    t.addUnits index us = (t', none) → ∀ name, HasFunction { tables := t' } name ↔
      name ∈ us.flatMap (fun u => functionsOf u.rows) ∨ HasFunction { tables := t } name
  | [], t, index, _, _, ht, name => by
    cases ht
    simp
  | u :: us, t, index, hs, hus, ht, name => by
    unfold Tables.addUnits at ht
    split at ht
    · rename_i t₁ ht₁
      obtain ⟨-, hreads⟩ := hs.addUnit_reads (hus 0 u rfl) ht₁
      rw [Sound.functions_of_addUnits ((invariant_sound units).addUnit hs (hus 0 u rfl) ht₁) (fun i v hi => ?_) ht,
        hreads.functions, List.flatMap_cons, List.mem_append]
      · exact or_left_comm.trans or_assoc.symm
      · rw [Nat.add_assoc, Nat.add_comm 1]
        exact hus (i + 1) v hi
    · cases ht

end Draft

/-! ## 5. Joined units -/

/-- **Tables are joined**: they bind what the first ones bind and, shifted, what the second ones bind. -/
structure Tables.Joins (A B : Tables) (n : Nat) (C : Tables) : Prop where
  blocks {a b} : C.blocks.get? a = some b ↔ A.blocks.get? a = some b ∨
    ∃ a' b', B.blocks.get? a' = some b' ∧ a = a'.shift n ∧ b = b'.shift n
  functions {name a} : C.functions.get? name = some a ↔ A.functions.get? name = some a ∨
    ∃ a', B.functions.get? name = some a' ∧ a = a'.shift n
  labels {key a} : C.labels.get? key = some a ↔ A.labels.get? key = some a ∨
    ∃ key' a', B.labels.get? key' = some a' ∧ key = key'.shift n ∧ a = a'.shift n

/-- No function is in both of two tables. -/
def Tables.FunctionsDiffer (A B : Tables) : Prop :=
  ∀ name, ¬((A.functions.get? name).isSome ∧ (B.functions.get? name).isSome)

/-- What is bound by keys of one kind as in one map, and by the others as in another one, shifted. -/
theorem joined_iff {κ α : Type} {p : κ → Prop} {f : κ → κ} {g : α → α} {a b c : κ → Option α}
    (hinj : ∀ {k l}, f k = f l ↔ k = l) (hlast : ∀ k, ¬p (f k)) (hcover : ∀ k, ¬p k → ∃ l, k = f l)
    (ha : ∀ k x, a k = some x → p k) (hfirst : ∀ k, p k → c k = a k) (hshifted : ∀ k, c (f k) = (b k).map g)
    {k : κ} {x : α} : c k = some x ↔ a k = some x ∨ ∃ l y, b l = some y ∧ k = f l ∧ x = g y := by
  by_cases hk : p k
  · rw [hfirst k hk]
    refine ⟨.inl, fun h => h.resolve_right ?_⟩
    rintro ⟨l, y, -, rfl, -⟩
    exact hlast l hk
  · obtain ⟨l, rfl⟩ := hcover k hk
    rw [hshifted, Option.map_eq_some_iff]
    constructor
    · rintro ⟨y, hy, rfl⟩
      exact .inr ⟨l, y, hy, rfl, rfl⟩
    · rintro (h | ⟨m, y, hy, hm, rfl⟩)
      · exact absurd (ha _ _ h) hk
      · exact ⟨y, hinj.1 hm ▸ hy, rfl⟩

theorem Draft.Over.joins {A B C : Tables} {n : Nat} (h : Over A n { tables := B } { tables := C }) (hA : A.Below n)
    (hdiffer : A.FunctionsDiffer B) : A.Joins B n C where
  blocks :=
    joined_iff (p := fun a => a.unit < n) (a := A.blocks.get?) Address.shift_inj
      (fun a => not_lt.2 (Nat.le_add_left n a.unit))
      (fun a ha => Address.exists_shift (not_lt.1 ha)) (fun a b hb => (hA.blocks hb).1) (fun a => h.blocks)
      (fun a => h.shifted)
  labels :=
    joined_iff (p := fun key => key.unit < n) (a := A.labels.get?) LabelKey.shift_inj
      (fun key => not_lt.2 (Nat.le_add_left n key.unit))
      (fun key hkey => LabelKey.exists_shift (not_lt.1 hkey)) (fun key a ha => (hA.labels ha).2) (fun key => h.labels)
      (fun key => h.shiftedLabels)
  functions {name a} := by
    rw [h.functions, Option.or_eq_some_iff, Option.map_eq_some_iff]
    constructor
    · rintro (ha | ⟨-, a', ha, rfl⟩)
      · exact .inl ha
      · exact .inr ⟨a', ha, rfl⟩
    · rintro (ha | ⟨a', ha, rfl⟩)
      · exact .inl ha
      · refine .inr ⟨?_, a', ha, rfl⟩
        by_contra hsome
        exact hdiffer name ⟨Option.isSome_iff_ne_none.2 hsome, by rw [show B.functions.get? name = _ from ha]; rfl⟩

theorem Tables.addUnits_append : ∀ {us vs : List ScriptUnit} {t t' : Tables} {index : Nat},
    t.addUnits index us = (t', none) → t.addUnits index (us ++ vs) = t'.addUnits (index + us.length) vs
  | [], vs, t, t', index, ht => by
    cases ht
    rfl
  | u :: us, vs, t, t', index, ht => by
    unfold Tables.addUnits at ht
    rw [List.cons_append, Tables.addUnits]
    split at ht
    · rw [List.length_cons, Nat.add_comm us.length, ← Nat.add_assoc]
      exact Tables.addUnits_append ht
    · cases ht

theorem Suite.compile_eq_ok_iff {units : List ScriptUnit} {s : Suite} :
    Suite.compile units = .ok s ↔ s.units = units ∧ Tables.addUnits {} 0 units = (s.tables, none) := by
  unfold Suite.compile Tables.ofUnits
  rcases Tables.addUnits {} 0 units with ⟨t, _ | e⟩
  · obtain ⟨us, ts⟩ := s
    simp only [Except.ok.injEq, Suite.mk.injEq, Prod.mk.injEq, and_true]
    exact and_congr eq_comm Iff.rfl
  · simp

/-- Units compile if no error stops the pass. -/
theorem Suite.exists_compile_iff {units : List ScriptUnit} :
    (∃ s, Suite.compile units = .ok s) ↔ ∃ t, Tables.addUnits {} 0 units = (t, none) := by
  constructor
  · rintro ⟨s, hs⟩
    exact ⟨s.tables, (Suite.compile_eq_ok_iff.1 hs).2⟩
  · rintro ⟨t, ht⟩
    exact ⟨⟨units, t⟩, Suite.compile_eq_ok_iff.2 ⟨rfl, ht⟩⟩

section

variable {us vs : List ScriptUnit} {A B C : Suite}

theorem getElem?_units (us : List ScriptUnit) (i : Nat) (u : ScriptUnit) (hi : us[i]? = some u) :
    us[0 + i]? = some u := by rwa [Nat.zero_add]

theorem getElem?_append_units {i : Nat} {u : ScriptUnit} (hi : vs[i]? = some u) :
    (us ++ vs)[us.length + i]? = some u := by
  rw [List.getElem?_append_right (Nat.le_add_right _ _), Nat.add_sub_cancel_left, hi]

/-- The second units are compiled where the first ones end. -/
theorem sound_append (hA : Suite.compile us = .ok A) (vs : List ScriptUnit) :
    Draft.Sound (us ++ vs) { tables := A.tables } ⟨us.length, 0⟩ := by
  have hs := (Draft.invariant_sound (us ++ vs)).addUnits (Suite.sound_nil _) (fun i u hi => ?_)
    (Suite.compile_eq_ok_iff.1 hA).2
  · rwa [Nat.zero_add] at hs
  · rw [Nat.zero_add, List.getElem?_append_left (List.getElem?_eq_some_iff.1 hi).1, hi]

/-- **Joined units compile** if the second ones compile by themselves and have none of the first ones' functions. -/
theorem exists_compile_append_iff (hA : Suite.compile us = .ok A) : (∃ C, Suite.compile (us ++ vs) = .ok C) ↔
    ∃ B, Suite.compile vs = .ok B ∧ A.tables.FunctionsDiffer B.tables := by
  have hrest : Tables.addUnits {} 0 (us ++ vs) = A.tables.addUnits us.length vs := by
    rw [Tables.addUnits_append (Suite.compile_eq_ok_iff.1 hA).2, Nat.zero_add]
  have hjoined : (∃ C, Suite.compile (us ++ vs) = .ok C) ↔ (∀ u ∈ vs, Draft.Readable u) ∧
      Fresh (vs.flatMap fun u => functionsOf u.rows) (Draft.HasFunction { tables := A.tables }) := by
    rw [Suite.exists_compile_iff, hrest]
    refine Draft.addUnits_ok_iff (sound_append hA vs) (fun i u hi => getElem?_append_units hi) fun v name hlabel => ?_
    obtain ⟨a, ha⟩ := Option.isSome_iff_exists.1 hlabel
    exact ((Suite.below_of_compile hA).labels ha).2
  have halone : (∃ B, Suite.compile vs = .ok B) ↔ (∀ u ∈ vs, Draft.Readable u) ∧
      Fresh (vs.flatMap fun u => functionsOf u.rows) (Draft.HasFunction {}) := by
    rw [Suite.exists_compile_iff]
    exact Draft.addUnits_ok_iff (Suite.sound_nil vs) (getElem?_units vs) fun v name hlabel => by cases hlabel
  have hfunctions {B : Suite} (hB : Suite.compile vs = .ok B) (name : String) :
      Draft.HasFunction { tables := B.tables } name ↔ name ∈ vs.flatMap fun u => functionsOf u.rows := by
    rw [(Suite.sound_nil vs).functions_of_addUnits (getElem?_units vs) (Suite.compile_eq_ok_iff.1 hB).2]
    exact or_iff_left (by simp [Draft.HasFunction])
  rw [hjoined]
  constructor
  · rintro ⟨hread, hfresh⟩
    obtain ⟨B, hB⟩ := halone.2 ⟨hread, hfresh.congr fun name hname => by cases hname⟩
    exact ⟨B, hB, fun name hboth => hfresh.unbound name ((hfunctions hB name).1 hboth.2) hboth.1⟩
  · rintro ⟨B, hB, hdiffer⟩
    obtain ⟨hread, hfresh⟩ := halone.1 ⟨B, hB⟩
    exact ⟨hread, hfresh.nodup, hfresh.named, fun name hname hfirst =>
      hdiffer name ⟨hfirst, (hfunctions hB name).2 hname⟩⟩

/-- **What joined units compile to.** -/
theorem joins_of_compile_append (hA : Suite.compile us = .ok A) (hB : Suite.compile vs = .ok B)
    (hC : Suite.compile (us ++ vs) = .ok C) (hdiffer : A.tables.FunctionsDiffer B.tables) :
    A.tables.Joins B.tables us.length C.tables := by
  have hbelow := Suite.below_of_compile hA
  have hrest := (Suite.compile_eq_ok_iff.1 hC).2
  rw [Tables.addUnits_append (Suite.compile_eq_ok_iff.1 hA).2] at hrest
  have hs' : Draft.Sound (us ++ vs) { tables := A.tables } ⟨0 + us.length, 0⟩ := by
    rw [Nat.zero_add]
    exact sound_append hA vs
  refine ((Draft.over_nil hbelow).addUnits hbelow (Suite.sound_nil vs) hs' (fun i u hi => ?_)
    (Suite.compile_eq_ok_iff.1 hB).2 hrest).joins hbelow hdiffer
  rw [Nat.zero_add, Nat.zero_add]
  exact ⟨hi, getElem?_append_units hi⟩

/-- **Units are compiled one by one.**  If units compile then with others behind them they do if and only if these
do by themselves and no function is in both; what they compile to is then joined from both, with the addresses of
the second ones behind those of the first.  And no block is linked to a command of another unit. -/
theorem compile_append (hA : Suite.compile us = .ok A) :
    ((∃ C, Suite.compile (us ++ vs) = .ok C) ↔
      ∃ B, Suite.compile vs = .ok B ∧ A.tables.FunctionsDiffer B.tables) ∧
    (∀ C, Suite.compile (us ++ vs) = .ok C → ∃ B, Suite.compile vs = .ok B ∧ C.units = A.units ++ B.units ∧
      A.tables.Joins B.tables us.length C.tables) ∧
    ∀ units s, Suite.compile units = .ok s → ∀ a b, s.blockAt? a = some b →
      b.address = a ∧ ∀ l ∈ b.links, l.unit = a.unit := by
  refine ⟨exists_compile_append_iff hA, fun C hC => ?_, fun units s hs a b hb => ?_⟩
  · obtain ⟨B, hB, hdiffer⟩ := (exists_compile_append_iff hA).1 ⟨C, hC⟩
    refine ⟨B, hB, ?_, joins_of_compile_append hA hB hC hdiffer⟩
    rw [Suite.units_of_compile hA, Suite.units_of_compile hB, Suite.units_of_compile hC]
  · exact ((Suite.below_of_compile hs).blocks hb).2

/-- A function in one unit and a condition in the next; the function cannot be there twice. -/
theorem function_before_condition :
    ∃ (function condition : ScriptUnit) (A C : Suite) (b : Block), Suite.compile [function] = .ok A ∧
      Suite.compile ([function] ++ [condition]) = .ok C ∧ C.tables.functions.get? "f" = some ⟨0, 0⟩ ∧
      C.blockAt? ⟨1, 0⟩ = some b ∧ b.closer = some ⟨1, 1⟩ ∧ (∀ l ∈ b.links, l.unit = 1) ∧
      ¬∃ D, Suite.compile ([function] ++ [function]) = .ok D := by
  obtain ⟨A, C, b, hA, hC, hf, hb, hcloser⟩ : ∃ (A C : Suite) (b : Block),
      Suite.compile [.named "a" [{ name := "function", target := "f" }, { name := "endFunction" }]] = .ok A ∧
      Suite.compile ([.named "a" [{ name := "function", target := "f" }, { name := "endFunction" }]] ++
        [.named "b" [{ name := "if", target := "true" }, { name := "endIf" }]]) = .ok C ∧
      C.tables.functions.get? "f" = some ⟨0, 0⟩ ∧ C.blockAt? ⟨1, 0⟩ = some b ∧ b.closer = some ⟨1, 1⟩ :=
    ⟨_, _, _, rfl, rfl, rfl, rfl, rfl⟩
  have hf' : A.tables.functions.get? "f" = some ⟨0, 0⟩ := by
    cases hA
    rfl
  refine ⟨_, _, A, C, b, hA, hC, hf, hb, hcloser, ((@compile_append _ [] A hA).2.2 _ C hC _ b hb).2, fun hD => ?_⟩
  obtain ⟨B, hB, hdiffer⟩ := (compile_append hA).1.1 hD
  cases hA.symm.trans hB
  exact hdiffer "f" (by simp [hf'])

end

end BlockFlow
