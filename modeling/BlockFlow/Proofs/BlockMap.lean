/-
# The block map

The block map of units that compile is a correct picture of their constructs: `Suite.Pictured` says what
it holds and which way its links lead, and `block_map_pictures_nesting` that compiling gives it.

Most of it is known from `Suite.Nested`.  What is added here is known of drafts as well, and kept by what
a flow command does to them: `Draft.Ordered` says that branches are listed in order, that a jump command
leaves the innermost construct of its nature, and that the tables of functions and labels list what the
units declare.
-/
import BlockFlow.Proofs.Nesting

namespace BlockFlow

/-! ## 1. Tables of addresses -/

/-- A flow command at an address, with its trimmed target. -/
def FlowAt (units : List ScriptUnit) (a : Address) (k : Keyword) (target : String) : Prop :=
  ∃ c, commandAt? units a = some c ∧ Keyword.ofName? c.name = some (k, false) ∧
    Text.trim c.target = target

section

variable {units : List ScriptUnit} {a : Address} {k l : Keyword} {target : String}

theorem FlowAt.eq {target' : String} (h : FlowAt units a k target) (h' : FlowAt units a l target') :
    k = l ∧ target = target' := by
  obtain ⟨c, hc, hk, rfl⟩ := h
  obtain ⟨c', hc', hl, rfl⟩ := h'
  cases hc.symm.trans hc'
  cases hk.symm.trans hl
  exact ⟨rfl, rfl⟩

end

namespace Dict

variable {κ : Type} [Ord κ] [Std.TransOrd κ] [Std.LawfulEqOrd κ] [DecidableEq κ]
  {d : Dict κ Address} {P : κ → Address → Prop} {here : Address}

omit [Std.TransOrd κ] [Std.LawfulEqOrd κ] [DecidableEq κ] in
/-- A table lists the addresses before another one that something holds of. -/
def Lists (d : Dict κ Address) (P : κ → Address → Prop) (here : Address) : Prop :=
  ∀ key a, d.get? key = some a ↔ a < here ∧ P key a

theorem Lists.insert {new : κ} (h : d.Lists P here) (fresh : d.get? new = none)
    (hP : ∀ key, P key here ↔ key = new) : (d.insert new here).Lists P here.next := by
  intro key a
  rw [get?_insert, Address.lt_next_iff, le_iff_eq_or_lt]
  by_cases hkey : key = new
  · subst hkey
    rw [if_pos rfl, Option.some.injEq]
    constructor
    · rintro rfl
      exact ⟨.inl rfl, (hP key).2 rfl⟩
    · rintro ⟨rfl | ha, hPa⟩
      · rfl
      · cases fresh.symm.trans ((h key a).2 ⟨ha, hPa⟩)
  · rw [if_neg hkey, h key a]
    refine and_congr_left fun hPa => ⟨.inr, fun ha => ha.resolve_left ?_⟩
    rintro rfl
    exact hkey ((hP key).1 hPa)

omit [Std.TransOrd κ] [Std.LawfulEqOrd κ] [DecidableEq κ] in
/-- A table stays as it is where nothing is to be listed. -/
theorem Lists.skip {there : Address} (h : d.Lists P here) (hle : here ≤ there)
    (hP : ∀ key a, here ≤ a → a < there → ¬P key a) : d.Lists P there := by
  intro key a
  rw [h key a]
  refine and_congr_left fun hPa => ⟨fun ha => ha.trans_le hle, fun ha => ?_⟩
  exact lt_of_not_ge fun hge => hP key a hge ha hPa

end Dict

/-! ## 2. Ordered drafts -/

/-- An address declares a function of a name. -/
def Declares (units : List ScriptUnit) (name : String) (a : Address) : Prop :=
  ∃ k, k.opens? = some .function ∧ FlowAt units a k name

/-- An address has a label with a key. -/
def Labels (units : List ScriptUnit) (key : LabelKey) (a : Address) : Prop :=
  ∃ label, FlowAt units a .label label ∧ key = .ofText label a.unit

/-- **What else holds of a draft** that has come to an address. -/
structure Draft.Ordered (units : List ScriptUnit) (d : Draft) (here : Address) : Prop where
  branches {a b} : d.blockAt? a = some b → (b.elseIfs ++ b.elseAt.toList).Pairwise (· < ·)
  /-- A construct between a jump command and the construct that it leaves is closed before the command, if
  it is of the same nature. -/
  leaves {p c a o b} : d.blockAt? p = some c → c.opener = some a → c.keyword.leaves?.isSome →
    d.blockAt? o = some b → b.nature? = c.keyword.leaves? → a < o → o < p →
    ∃ e, b.closer = some e ∧ e < p
  named {a k target} : a < here → FlowAt units a k target → k = .label ∨ k.opens? = some .function →
    target ≠ ""
  functions : d.tables.functions.Lists (Declares units) here
  labels : d.tables.labels.Lists (Labels units) here

namespace Draft

variable {units : List ScriptUnit} {d d' : Draft} {here : Address} {k : Keyword} {target : String}

/-- Where nothing is recorded, and nothing is to be listed or named, nothing changes. -/
theorem Ordered.skip {there : Address} (ho : d.Ordered units here) (hle : here ≤ there)
    (hget : ∀ a, d'.blockAt? a = d.blockAt? a)
    (hfunctions : d'.tables.functions = d.tables.functions)
    (hlabels : d'.tables.labels = d.tables.labels)
    (hskip : ∀ a k target, here ≤ a → a < there → FlowAt units a k target →
      k ≠ .label ∧ k.opens? ≠ some .function) : d'.Ordered units there where
  branches hb := ho.branches (by rwa [hget] at hb)
  leaves hc ha hl hb := ho.leaves (by rwa [hget] at hc) ha hl (by rwa [hget] at hb)
  named {a k target} ha hk hname := by
    refine ho.named (lt_of_not_ge fun hge => ?_) hk hname
    obtain ⟨hlabel, hf⟩ := hskip a k target hge ha hk
    exact hname.elim hlabel hf
  functions := hfunctions ▸ ho.functions.skip hle fun key a hge ha ⟨k, hf, hk⟩ =>
    (hskip a k key hge ha hk).2 hf
  labels := hlabels ▸ ho.labels.skip hle fun key a hge ha ⟨label, hk, _⟩ =>
    (hskip a .label label hge ha hk).1 rfl

theorem Ordered.named_next (ho : d.Ordered units here) (hk : FlowAt units here k target)
    (hnew : k = .label ∨ k.opens? = some .function → target ≠ "") {a : Address} {l : Keyword}
    {t : String} (ha : a < here.next) (hl : FlowAt units a l t)
    (hname : l = .label ∨ l.opens? = some .function) : t ≠ "" := by
  rcases (Address.lt_next_iff.1 ha).eq_or_lt with rfl | ha
  · obtain ⟨rfl, rfl⟩ := hk.eq hl
    exact hnew hname
  · exact ho.named ha hl hname

theorem declares_here (hk : FlowAt units here k target) (hf : k.opens? = some .function)
    (name : String) : Declares units name here ↔ name = target := by
  constructor
  · rintro ⟨l, -, hl⟩
    exact (hk.eq hl).2.symm
  · rintro rfl
    exact ⟨k, hf, hk⟩

theorem labels_here (hk : FlowAt units here .label target) (key : LabelKey) :
    Labels units key here ↔ key = .ofText target here.unit := by
  constructor
  · rintro ⟨label, hl, rfl⟩
    rw [(hk.eq hl).2]
  · rintro rfl
    exact ⟨target, hk, rfl⟩

/-- A command that declares no function keeps the table of functions. -/
theorem Ordered.functions_next (ho : d.Ordered units here) (hk : FlowAt units here k target)
    (hf : k.opens? ≠ some .function) :
    d.tables.functions.Lists (Declares units) here.next := by
  refine ho.functions.skip here.lt_next.le fun name a hge ha ⟨l, hl, hflow⟩ => ?_
  cases le_antisymm hge (Address.lt_next_iff.1 ha)
  exact hf ((hk.eq hflow).1 ▸ hl)

/-- A command that is no label keeps the table of labels. -/
theorem Ordered.labels_next (ho : d.Ordered units here) (hk : FlowAt units here k target)
    (hlabel : k ≠ .label) : d.tables.labels.Lists (Labels units) here.next := by
  refine ho.labels.skip here.lt_next.le fun key a hge ha ⟨label, hl, _⟩ => ?_
  cases le_antisymm hge (Address.lt_next_iff.1 ha)
  exact hlabel (hk.eq hl).1

/-- A jump command that is recorded leaves the innermost pending construct of its nature. -/
theorem Sound.closed_of_enclosing (h : d.Sound units here) {n : Nature} {a o : Address} {b : Block}
    (ha : d.enclosing? n = some a) (hb : d.blockAt? o = some b) (hn : b.nature? = some n) (hao : a < o) :
    ∃ e, b.closer = some e ∧ e < here := by
  have hns : b.nature?.isSome := by rw [hn]; rfl
  have hclosed : b.closer ≠ none := fun hnone => by
    have hmem := h.unclosed hb hns hnone
    obtain ⟨-, before, after, hpending, hbefore⟩ := List.find?_eq_some_iff_append.1 ha
    rw [hpending, List.mem_append, List.mem_cons] at hmem
    rcases hmem with hmem | rfl | hmem
    · have := hbefore o hmem
      simp [block_of_blockAt? hb, hn] at this
    · exact lt_irrefl _ hao
    · have := (List.pairwise_append.1 (hpending ▸ h.decreasing)).2.1
      exact lt_asymm hao (List.rel_of_pairwise_cons this hmem)
  obtain ⟨e, he⟩ := Option.ne_none_iff_exists'.1 hclosed
  exact ⟨e, he, h.closer_lt hb hns he⟩

/-- A branch comes after those that are there. -/
theorem branches_attach (h : d.Sound units here) {a : Address} {b : Block}
    (hb : d.blockAt? a = some b) (hn : b.nature?.isSome) (hk : b.Admits k)
    (hs : (b.elseIfs ++ b.elseAt.toList).Pairwise (· < ·)) :
    ((b.attach k here).elseIfs ++ (b.attach k here).elseAt.toList).Pairwise (· < ·) := by
  have hlt {l : Keyword} {p : Address} (hp : p ∈ b.partsOf l) : p < here := by
    obtain ⟨c, hc, -⟩ := h.part hb hn hp
    exact (h.placed hc).2
  have helse (hnone : b.elseAt = none) : (b.elseIfs ++ [here]).Pairwise (· < ·) := by
    rw [hnone, Option.toList_none, List.append_nil] at hs
    refine List.pairwise_append.2 ⟨hs, List.pairwise_singleton _ _, fun p hp q hq => ?_⟩
    rw [List.mem_singleton.1 hq]
    exact hlt (l := .elseIf) hp
  cases k
  case elseIf =>
    change (b.elseIfs ++ [here] ++ b.elseAt.toList).Pairwise (· < ·)
    rw [show b.elseAt = none from hk, Option.toList_none, List.append_nil]
    exact helse hk
  case otherwise => exact helse hk
  all_goals exact hs

/-- **What a flow command does** keeps the draft ordered. -/
theorem Takes.ordered (t : d.Takes here k target d') (h : d.Sound units here)
    (ho : d.Ordered units here) (hk : FlowAt units here k target) : d'.Ordered units here.next := by
  cases t with
  | label named fresh =>
    exact
      { branches := ho.branches
        leaves := ho.leaves
        named := ho.named_next hk fun _ => named
        functions := ho.functions_next hk (by decide)
        labels := ho.labels.insert fresh (labels_here hk) }
  | pass unlinked other =>
    have hopens : k.opens? ≠ some .function := by cases k <;> first | decide | cases unlinked
    refine ho.skip here.lt_next.le (fun _ => rfl) rfl rfl fun a l t hge ha hl => ?_
    cases le_antisymm hge (Address.lt_next_iff.1 ha)
    rw [← (hk.eq hl).1]
    exact ⟨other, hopens⟩
  | @record _ _ opener _ linked part leaves found named blocks pending functions labels =>
    have hlabel : k ≠ .label := by rintro rfl; cases linked
    have hcase {a b} (hb : d'.blockAt? a = some b) : a = here ∧
        b = { address := here, keyword := k, name := givenName? k target, opener } ∨
        d.blockAt? a = some b := by
      rw [blocks] at hb
      split at hb
      · exact .inl ⟨‹_›, (Option.some.inj hb).symm⟩
      · exact .inr hb
    refine
      { branches := fun hb => ?_
        leaves := fun {p c a o b} hc ha hl hb hn hao hop => ?_
        named := ho.named_next hk fun hname => (named (hname.resolve_left hlabel)).1
        functions := ?_
        labels := labels ▸ ho.labels_next hk hlabel }
    · rcases hcase hb with ⟨-, rfl⟩ | hb
      · exact .nil
      · exact ho.branches hb
    · rcases hcase hb with ⟨rfl, -⟩ | hb
      · rcases hcase hc with ⟨rfl, -⟩ | hc
        · exact absurd hop (lt_irrefl _)
        · exact absurd (hop.trans (h.placed hc).2) (lt_irrefl _)
      rcases hcase hc with ⟨rfl, rfl⟩ | hc
      · obtain ⟨n, hkn, henc⟩ := Option.bind_eq_some_iff.1 (leaves.symm.trans ha)
        exact h.closed_of_enclosing henc hb (hn.trans hkn) hao
      · exact ho.leaves hc ha hl hb hn hao hop
    · rw [functions]
      split
      · exact ho.functions.insert (named ‹_›).2 (declares_here hk ‹_›)
      · exact ho.functions_next hk ‹_›
  | @attach _ _ top rest o _ part innermost block admitted asked blocks pending functions labels =>
    have hlabel : k ≠ .label := by rintro rfl; cases part
    have hopens : k.opens? ≠ some .function := by
      rw [Keyword.not_opens?_of_partOf? part]
      exact (Option.some_ne_none _).symm
    have t : d.Attaches here k top rest o d' := ⟨part, innermost, block, admitted, blocks, pending, functions⟩
    obtain ⟨-, hon, hoc⟩ := t.opener h
    refine
      { branches := fun hb => ?_
        leaves := fun {p c a i b} hc ha hl hb hn hai hip => ?_
        named := ho.named_next hk fun hname => absurd hname (not_or.2 ⟨hlabel, hopens⟩)
        functions := functions ▸ ho.functions_next hk hopens
        labels := labels ▸ ho.labels_next hk hlabel }
    · rcases attached_cases blocks hb with ⟨-, rfl⟩ | ⟨-, rfl⟩ | ⟨-, c, hc, -, -, rfl⟩
      · exact .nil
      · exact branches_attach h block hon admitted (ho.branches block)
      · split <;> simpa using ho.branches hc
    · have hbn : b.nature?.isSome := hn ▸ hl
      rcases t.belongs h hc ha with ⟨rfl, rfl, rfl⟩ | ⟨c₀, hc₀, hck, ha₀, -⟩
      · rw [Keyword.not_leaves?_of_partOf? part] at hl
        cases hl
      rcases h.attached_opener part blocks hb hbn with ⟨rfl, rfl⟩ | ⟨-, hb⟩
      · obtain ⟨e, he, -⟩ := ho.leaves hc₀ ha₀ (hck ▸ hl) block (by simpa [hck] using hn) hai hip
        cases hoc.symm.trans he
      · exact ho.leaves hc₀ ha₀ (hck ▸ hl) hb (hck ▸ hn) hai hip

theorem invariant_ordered (units : List ScriptUnit) :
    Invariant units fun d here => d.Sound units here ∧ d.Ordered units here where
  command {d d' here c} hc h hd' := by
    refine ⟨h.1.command hc hd', ?_⟩
    rcases command_ok hd' with ⟨hk, rfl⟩ | ⟨k, hk, hf⟩
    · refine h.2.skip here.lt_next.le (fun _ => rfl) rfl rfl fun a k target hge ha hflow => ?_
      cases le_antisymm hge (Address.lt_next_iff.1 ha)
      obtain ⟨c', hc', hk', -⟩ := hflow
      cases hc.symm.trans hc'
      cases hk.symm.trans hk'
    · exact (h.1.takes hf).ordered h.1 h.2 ⟨c, hc, hk, rfl⟩
  nextUnit {d here} h hp hu := by
    refine ⟨h.1.nextUnit hp hu, ?_⟩
    refine h.2.skip (.inl (Nat.lt_succ_self _)) (fun _ => rfl) rfl rfl fun a k target hge ha hflow => ?_
    obtain ⟨c, hc, -⟩ := hflow
    rw [hu a hge] at hc
    · cases hc
    · simp only [Address.lt_iff, Address.le_iff] at ha hge
      omega

end Draft

/-! ## 3. Innermost constructs -/

namespace Suite

/-- The construct opened at an address is the innermost one around another address, among those of some
natures. -/
def Innermost (s : Suite) (among : Nature → Prop) (o p : Address) : Prop :=
  (∃ n, among n ∧ s.Opens n o) ∧ s.Spans o p ∧
    ∀ o' n, among n → s.Opens n o' → s.Spans o' p → o' = o ∨ s.Spans o' o

/-- An address is inside a construct, and inside no other one in it. -/
def Directly (s : Suite) (o p : Address) : Prop := s.Innermost (fun _ => True) o p

variable {s : Suite}

theorem Spans.of_lt {o o' p : Address} (hs : s.Spans o' p) (hlt : o' < o) (hp : o < p) :
    s.Spans o' o := by
  obtain ⟨e, he, -, hle⟩ := hs
  exact ⟨e, he, hlt, hp.le.trans hle⟩

namespace Nested

variable (h : s.Nested)

include h

/-- The parts of a construct are directly inside it. -/
theorem directly_of_mem {o p : Address} {b : Block} {k : Keyword} (hb : s.blockAt? o = some b)
    (hn : b.nature?.isSome) (hp : p ∈ b.partsOf k) : s.Directly o p := by
  have hpart := h.isPart_of_mem hb hn hp
  have hspans := h.spans_of_isPart hpart
  obtain ⟨n, hn⟩ := Option.isSome_iff_exists.1 hn
  refine ⟨⟨n, trivial, b, hb, hn⟩, hspans, fun o' n' _ _ hs => ?_⟩
  obtain ⟨-, -, hop, -⟩ := hspans
  obtain ⟨e', he', ho'p, hpe'⟩ := id hs
  rcases lt_trichotomy o' o with hlt | rfl | hgt
  · exact .inr (hs.of_lt hlt hop)
  · exact .inl rfl
  · exact absurd (h.closer_lt_part hpart he' hgt ho'p) (not_lt.2 hpe')

/-- **The parts of a construct** are the commands directly inside it that can be parts of it. -/
theorem mem_partsOf_iff {o p : Address} {b : Block} {k : Keyword} (hb : s.blockAt? o = some b)
    (hk : k.partOf? = some b.keyword) :
    p ∈ b.partsOf k ↔ s.keywordAt? p = some k ∧ s.Directly o p := by
  have hn : b.nature?.isSome := Keyword.opens?_of_partOf? hk
  constructor
  · intro hp
    obtain ⟨c, hc, rfl, -⟩ := h.part hb hn hp
    exact ⟨h.keyword hc, h.directly_of_mem hb hn hp⟩
  · rintro ⟨hkp, -, ⟨e, he, hop, hpe⟩, hleast⟩
    obtain ⟨c, hc, rfl⟩ := h.exists_block hkp (Keyword.isLinked_of_partOf? hk)
    obtain ⟨o', b', -, hb', hb'k, hmem, hpart⟩ := h.exists_owner hc hk
    obtain ⟨⟨n, -, hopens⟩, hspans, -⟩ := h.directly_of_mem hb' (by rwa [Block.nature?, hb'k]) hmem
    rcases hleast o' n trivial hopens hspans with rfl | ⟨-, -, hlt, -⟩
    · cases hb.symm.trans hb'
      exact hmem
    · exact absurd (h.closer_lt_part hpart he hlt hop) (not_lt.2 hpe)

theorem part_lt_closer {o p e : Address} {b : Block} {k : Keyword} (hb : s.blockAt? o = some b)
    (hn : b.nature?.isSome) (hp : p ∈ b.partsOf k) (hk : k.closes? = none) (he : b.closer = some e) :
    p < e := by
  obtain ⟨c, hc, rfl, ho⟩ := h.part hb hn hp
  refine lt_of_le_of_ne (h.last hc ho hb he) ?_
  rintro rfl
  exact h.not_construct (h.keyword hc) hk ⟨b, hb, hn, he⟩

/-- A branch or a section knows its opener and what its opener knows of the parts after it. -/
theorem links_of_mem {o p : Address} {b : Block} {k : Keyword} (hb : s.blockAt? o = some b)
    (hn : b.nature?.isSome) (hp : p ∈ b.partsOf k) (hk : k.closes? = none) :
    ∃ c, s.blockAt? p = some c ∧ c.keyword = k ∧ c.opener = some o ∧ c.closer = b.closer ∧
      (k = .catchError → c.finallyAt = b.finallyAt) := by
  obtain ⟨c, hc, rfl, ho⟩ := h.part hb hn hp
  obtain ⟨c', hc', -, hpart⟩ := h.isPart_of_mem hb hn hp
  cases hc.symm.trans hc'
  have hfollows := h.follows hc ho hb
  refine ⟨c, hc, rfl, ho, Block.closer_of_follow hpart hk hfollows, fun hcatch => ?_⟩
  rw [← hfollows]
  simp [Block.follow, hcatch]

end Nested

/-! ## 4. The picture -/

/-- **A correct picture of the nesting**: what the block map holds, and which way its links lead. -/
structure Pictured (s : Suite) : Prop where
  entries {a} : (∃ b, s.blockAt? a = some b) ↔ ∃ k, s.keywordAt? a = some k ∧ k.isLinked
  own {a b} : s.blockAt? a = some b → b.address = a ∧ s.keywordAt? a = some b.keyword
  closers {o b} : s.blockAt? o = some b → b.nature?.isSome →
    ∃ e c, b.closer = some e ∧ o < e ∧ e.unit = o.unit ∧ s.blockAt? e = some c ∧
      c.keyword.closes? = some b.keyword ∧ c.opener = some o
  openers {e c k} : s.blockAt? e = some c → c.keyword.closes? = some k →
    ∃ o b, c.opener = some o ∧ s.blockAt? o = some b ∧ b.keyword = k ∧ b.closer = some e
  /-- Two constructs are the same, one is over before the other begins, or one is strictly inside the
  other. -/
  spans {o e o' e'} : s.Construct o e → s.Construct o' e' →
    o = o' ∧ e = e' ∨ e < o' ∨ e' < o ∨ o < o' ∧ e' < e ∨ o' < o ∧ e < e'
  conditional {o b} : s.blockAt? o = some b → b.keyword = .ifThen →
    (o :: b.elseIfs ++ b.elseAt.toList ++ b.closer.toList).Pairwise (· < ·) ∧
    (∀ p, p ∈ b.elseIfs ↔ s.keywordAt? p = some .elseIf ∧ s.Directly o p) ∧
    (∀ p, b.elseAt = some p ↔ s.keywordAt? p = some .otherwise ∧ s.Directly o p) ∧
    ∀ p ∈ b.elseIfs ++ b.elseAt.toList,
      ∃ c, s.blockAt? p = some c ∧ c.opener = some o ∧ c.closer = b.closer
  guarded {o b} : s.blockAt? o = some b → b.keyword = .tryBlock →
    (o :: b.catchAt.toList ++ b.finallyAt.toList ++ b.closer.toList).Pairwise (· < ·) ∧
    (∀ p, b.catchAt = some p ↔ s.keywordAt? p = some .catchError ∧ s.Directly o p) ∧
    (∀ p, b.finallyAt = some p ↔ s.keywordAt? p = some .finallyDo ∧ s.Directly o p) ∧
    (∀ p ∈ b.catchAt.toList ++ b.finallyAt.toList,
      ∃ c, s.blockAt? p = some c ∧ c.opener = some o ∧ c.closer = b.closer) ∧
    ∀ p, b.catchAt = some p → ∃ c, s.blockAt? p = some c ∧ c.finallyAt = b.finallyAt
  jumps {p c n} : s.blockAt? p = some c → c.keyword.leaves? = some n →
    ∃ o, c.opener = some o ∧ s.Innermost (· = n) o p
  functions {name a} : s.tables.functions.get? name = some a ↔ Declares s.units name a
  labels {key a} : s.tables.labels.get? key = some a ↔ Labels s.units key a

section

variable (h : s.Nested)

include h

/-- The branches or the sections of a construct come after the opener and before the closer. -/
theorem Nested.pairwise_parts {o : Address} {b : Block} {l : List Address} (hb : s.blockAt? o = some b)
    (hn : b.nature?.isSome) (hl : l.Pairwise (· < ·))
    (hpart : ∀ p ∈ l, ∃ k : Keyword, k.closes? = none ∧ p ∈ b.partsOf k) :
    (o :: l ++ b.closer.toList).Pairwise (· < ·) := by
  obtain ⟨e, he⟩ := h.closed hb hn
  have hoe := h.opener_lt_closer ⟨b, hb, hn, he⟩
  rw [he, Option.toList_some]
  refine List.pairwise_append.2 ⟨List.pairwise_cons.2 ⟨fun p hp => ?_, hl⟩,
    List.pairwise_singleton _ _, fun p hp q hq => ?_⟩
  · obtain ⟨k, -, hk⟩ := hpart p hp
    obtain ⟨-, -, hop, -⟩ := (h.directly_of_mem hb hn hk).2.1
    exact hop
  · rw [List.mem_singleton.1 hq]
    rcases List.mem_cons.1 hp with rfl | hp
    · exact hoe
    · obtain ⟨k, hkc, hk⟩ := hpart p hp
      exact h.part_lt_closer hb hn hk hkc he

theorem Nested.conditional {o : Address} {b : Block} (hb : s.blockAt? o = some b)
    (hk : b.keyword = .ifThen) (hs : (b.elseIfs ++ b.elseAt.toList).Pairwise (· < ·)) :
    (o :: b.elseIfs ++ b.elseAt.toList ++ b.closer.toList).Pairwise (· < ·) ∧
    (∀ p, p ∈ b.elseIfs ↔ s.keywordAt? p = some .elseIf ∧ s.Directly o p) ∧
    (∀ p, b.elseAt = some p ↔ s.keywordAt? p = some .otherwise ∧ s.Directly o p) ∧
    ∀ p ∈ b.elseIfs ++ b.elseAt.toList,
      ∃ c, s.blockAt? p = some c ∧ c.opener = some o ∧ c.closer = b.closer := by
  have hn : b.nature?.isSome := by rw [Block.nature?, hk]; rfl
  have hbranch (p) (hp : p ∈ b.elseIfs ++ b.elseAt.toList) :
      ∃ k : Keyword, k.closes? = none ∧ p ∈ b.partsOf k := by
    rcases List.mem_append.1 hp with hp | hp
    · exact ⟨.elseIf, rfl, hp⟩
    · exact ⟨.otherwise, rfl, hp⟩
  refine ⟨h.pairwise_parts hb hn hs hbranch, fun p => ?_, fun p => ?_, fun p hp => ?_⟩
  · exact h.mem_partsOf_iff (k := .elseIf) hb (by rw [hk]; rfl)
  · rw [← h.mem_partsOf_iff (k := .otherwise) hb (by rw [hk]; rfl)]
    exact Option.mem_toList.symm
  · obtain ⟨k, hkc, hp⟩ := hbranch p hp
    obtain ⟨c, hc, -, ho, hcl, -⟩ := h.links_of_mem hb hn hp hkc
    exact ⟨c, hc, ho, hcl⟩

theorem Nested.guarded {o : Address} {b : Block} (hb : s.blockAt? o = some b)
    (hk : b.keyword = .tryBlock) :
    (o :: b.catchAt.toList ++ b.finallyAt.toList ++ b.closer.toList).Pairwise (· < ·) ∧
    (∀ p, b.catchAt = some p ↔ s.keywordAt? p = some .catchError ∧ s.Directly o p) ∧
    (∀ p, b.finallyAt = some p ↔ s.keywordAt? p = some .finallyDo ∧ s.Directly o p) ∧
    (∀ p ∈ b.catchAt.toList ++ b.finallyAt.toList,
      ∃ c, s.blockAt? p = some c ∧ c.opener = some o ∧ c.closer = b.closer) ∧
    ∀ p, b.catchAt = some p → ∃ c, s.blockAt? p = some c ∧ c.finallyAt = b.finallyAt := by
  have hn : b.nature?.isSome := by rw [Block.nature?, hk]; rfl
  have hsection (p) (hp : p ∈ b.catchAt.toList ++ b.finallyAt.toList) :
      ∃ k : Keyword, k.closes? = none ∧ p ∈ b.partsOf k := by
    rcases List.mem_append.1 hp with hp | hp
    · exact ⟨.catchError, rfl, hp⟩
    · exact ⟨.finallyDo, rfl, hp⟩
  have hordered : (b.catchAt.toList ++ b.finallyAt.toList).Pairwise (· < ·) := by
    have hsections {p q} := h.sections (p := p) (q := q) hb hn
    cases hc : b.catchAt <;> cases hf : b.finallyAt <;> simp
    exact hsections hc hf
  refine ⟨h.pairwise_parts hb hn hordered hsection, fun p => ?_, fun p => ?_, fun p hp => ?_,
    fun p hp => ?_⟩
  · rw [← h.mem_partsOf_iff (k := .catchError) hb (by rw [hk]; rfl)]
    exact Option.mem_toList.symm
  · rw [← h.mem_partsOf_iff (k := .finallyDo) hb (by rw [hk]; rfl)]
    exact Option.mem_toList.symm
  · obtain ⟨k, hkc, hp⟩ := hsection p hp
    obtain ⟨c, hc, -, ho, hcl, -⟩ := h.links_of_mem hb hn hp hkc
    exact ⟨c, hc, ho, hcl⟩
  · obtain ⟨c, hc, -, -, -, hfinally⟩ :=
      h.links_of_mem (k := .catchError) hb hn (Option.mem_toList.2 hp) rfl
    exact ⟨c, hc, hfinally rfl⟩

/-- Any two constructs. -/
theorem Nested.spans_cases {o e o' e' : Address} (he : s.Construct o e) (he' : s.Construct o' e') :
    o = o' ∧ e = e' ∨ e < o' ∨ e' < o ∨ o < o' ∧ e' < e ∨ o' < o ∧ e < e' := by
  rcases lt_trichotomy o o' with hlt | rfl | hgt
  · rcases h.apart_or_inside he he' hlt with hlt' | hlt'
    · exact .inr (.inl hlt')
    · exact .inr (.inr (.inr (.inl ⟨hlt, hlt'⟩)))
  · exact .inl ⟨rfl, he.unique he'⟩
  · rcases h.apart_or_inside he' he hgt with hlt' | hlt'
    · exact .inr (.inr (.inl hlt'))
    · exact .inr (.inr (.inr (.inr ⟨hgt, hlt'⟩)))

/-- A construct that jump commands leave, and that is closed before those of its nature that are opened
in it, is the innermost one of its nature around them. -/
theorem Nested.innermost_of_opener {p o : Address} {c : Block} {n : Nature} (hc : s.blockAt? p = some c)
    (ho : c.opener = some o) (hn : c.keyword.leaves? = some n)
    (hleaves : ∀ {i b}, s.blockAt? i = some b → b.nature? = some n → o < i → i < p →
      ∃ e, b.closer = some e ∧ e < p) : s.Innermost (· = n) o p := by
  obtain ⟨b, hb, -, hop, -, ⟨hpart, -⟩ | ⟨-, hbn, -⟩⟩ := h.owner hc ho
  · rw [Keyword.not_leaves?_of_partOf? hpart] at hn
    cases hn
  refine ⟨⟨n, rfl, b, hb, hbn.symm.trans hn⟩, h.spans_opener hc ho, ?_⟩
  rintro i n' rfl ⟨b', hb', hb'n⟩ hs
  obtain ⟨e, ⟨b'', hb'', -, he⟩, hip, hpe⟩ := id hs
  cases hb'.symm.trans hb''
  rcases lt_trichotomy i o with hlt | rfl | hgt
  · exact .inr (hs.of_lt hlt hop)
  · exact .inl rfl
  -- Another construct of the nature that was opened after this one was closed before the command.
  · obtain ⟨e', he', hlt⟩ := hleaves hb' hb'n hgt hip
    cases he.symm.trans he'
    exact absurd hlt (not_lt.2 hpe)

end

theorem ordered_nil (units : List ScriptUnit) : Draft.Ordered units {} ⟨0, 0⟩ where
  branches := nofun
  leaves := nofun
  named ha := by simp [Address.lt_iff] at ha
  functions := fun key a => by simp [Address.lt_iff]
  labels := fun key a => by simp [Address.lt_iff]

theorem lt_of_flowAt {units : List ScriptUnit} {a : Address} {k : Keyword} {target : String}
    (h : FlowAt units a k target) : a < ⟨units.length, 0⟩ := by
  obtain ⟨c, hc, -⟩ := h
  unfold BlockFlow.commandAt? at hc
  cases hu : units[a.unit]? with
  | none =>
    rw [hu] at hc
    cases hc
  | some u => exact .inl (List.getElem?_eq_some_iff.1 hu).1

/-- The table of functions lists what the units declare. -/
theorem functions_declared {s : Suite} (h : Suite.compile s.units = .ok s) {name : String} {a : Address} :
    s.tables.functions.get? name = some a ↔ Declares s.units name a := by
  obtain ⟨-, -, hordered⟩ :=
    (Draft.invariant_ordered s.units).compile h ⟨sound_nil s.units, ordered_nil s.units⟩
  rw [hordered.functions name a]
  refine and_iff_right_of_imp ?_
  rintro ⟨k, -, hk⟩
  exact lt_of_flowAt hk

/-- The branches of a conditional are listed in order. -/
theorem branches_ordered {s : Suite} (h : Suite.compile s.units = .ok s) {a : Address} {b : Block}
    (hb : s.blockAt? a = some b) : (b.elseIfs ++ b.elseAt.toList).Pairwise (· < ·) := by
  obtain ⟨-, -, hordered⟩ :=
    (Draft.invariant_ordered s.units).compile h ⟨sound_nil s.units, ordered_nil s.units⟩
  exact hordered.branches hb

/-- **The block map of units that compile** is a correct picture of the nesting. -/
theorem block_map_pictures_nesting {units : List ScriptUnit} {s : Suite}
    (h : Suite.compile units = .ok s) : s.units = units ∧ s.Pictured := by
  have hnested := nested_of_compile h
  obtain ⟨rfl, -, hordered⟩ :=
    (Draft.invariant_ordered units).compile h ⟨sound_nil units, ordered_nil units⟩
  refine ⟨rfl, ?_⟩
  constructor
  case entries =>
    intro a
    constructor
    · rintro ⟨b, hb⟩
      refine ⟨_, hnested.keyword hb, not_not.1 fun hl => ?_⟩
      have := hnested.blockAt?_eq_none (a := a) fun k hk => by
        cases (hnested.keyword hb).symm.trans hk
        simpa using hl
      cases hb.symm.trans this
    · rintro ⟨k, hk, hl⟩
      exact hnested.recorded hk hl
  case own => exact fun hb => ⟨hnested.address hb, hnested.keyword hb⟩
  case closers =>
    intro o b hb hn
    obtain ⟨e, he⟩ := hnested.closed hb hn
    have hconstruct : s.Construct o e := ⟨b, hb, hn, he⟩
    obtain ⟨c, hc, ho, -⟩ := hnested.isPart_closer hconstruct
    obtain ⟨b', k, hb', hk, hkc⟩ := hnested.keyword_of_construct hconstruct
    cases hb.symm.trans hb'
    cases (hnested.keyword hc).symm.trans hk
    exact ⟨e, c, he, hnested.opener_lt_closer hconstruct,
      hnested.unit_of_isPart (hnested.isPart_closer hconstruct), hc, hkc, ho⟩
  case openers =>
    intro e c k hc hk
    obtain ⟨o, b, ho, hb, hbk, b', hb', -, he⟩ := hnested.construct_of_closes? hc hk
    cases hb.symm.trans hb'
    exact ⟨o, b, ho, hb, hbk, he⟩
  case spans => exact fun he he' => hnested.spans_cases he he'
  case conditional => exact fun hb hk => hnested.conditional hb hk (hordered.branches hb)
  case guarded => exact fun hb hk => hnested.guarded hb hk
  case jumps =>
    intro p c n hc hn
    have hopens : c.nature? = none := by
      rw [Block.nature?]
      cases hk : c.keyword <;> rw [hk] at hn <;> first | rfl | cases hn
    have hcall : c.keyword ≠ .call := by
      intro hcall
      rw [hcall] at hn
      cases hn
    obtain ⟨o, ho⟩ := Option.isSome_iff_exists.1 (hnested.owned hc hopens hcall)
    refine ⟨o, ho, hnested.innermost_of_opener hc ho hn fun {i b} hb hbn hoi hip => ?_⟩
    exact hordered.leaves hc ho (hn ▸ rfl) hb (hbn.trans hn.symm) hoi hip
  case functions => exact functions_declared h
  case labels =>
    intro key a
    rw [hordered.labels key a]
    refine and_iff_right_of_imp ?_
    rintro ⟨label, hk, -⟩
    exact lt_of_flowAt hk

/-- A function with a loop, which a conditional in a try leaves. -/
theorem break_leaves_loop_of_function : ∃ s, Suite.compile [.named "main" [{ name := "function", target := "f" },
      { name := "while", target := "true" }, { name := "try" }, { name := "if", target := "true" },
      { name := "break" }, { name := "endIf" }, { name := "finally" }, { name := "endTry" },
      { name := "endWhile" }, { name := "endFunction" }]] = .ok s ∧ s.Pictured ∧
    s.Innermost (· = .loop) ⟨0, 1⟩ ⟨0, 4⟩ := by
  obtain ⟨s, c, hs, hc, ho, hn⟩ : ∃ (s : Suite) (c : Block), Suite.compile [.named "main"
      [{ name := "function", target := "f" }, { name := "while", target := "true" }, { name := "try" },
        { name := "if", target := "true" }, { name := "break" }, { name := "endIf" },
        { name := "finally" }, { name := "endTry" }, { name := "endWhile" },
        { name := "endFunction" }]] = .ok s ∧
      s.blockAt? ⟨0, 4⟩ = some c ∧ c.opener = some ⟨0, 1⟩ ∧ c.keyword.leaves? = some .loop :=
    ⟨_, _, rfl, rfl, rfl, rfl⟩
  obtain ⟨-, hpictured⟩ := block_map_pictures_nesting hs
  obtain ⟨o, ho', hinner⟩ := hpictured.jumps hc hn
  cases ho.symm.trans ho'
  exact ⟨s, hs, hpictured, hinner⟩

end Suite

end BlockFlow
