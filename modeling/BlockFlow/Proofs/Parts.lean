/-
# Addresses and the parts of constructs

The order of addresses, and what keywords say of constructs: which of them open, divide and close one, and
which block of the block map gets the address of a part.
-/
import Mathlib.Order.Defs.LinearOrder
import Mathlib.Tactic.Order
import BlockFlow.Suite.Compile

namespace BlockFlow

/-! ## 1. The order of addresses -/

namespace Address

theorem compare_eq_lt {a b : Address} : compare a b = .lt ↔ a < b := by
  rw [compare_def, Ordering.then_eq_lt, Nat.compare_eq_lt, Nat.compare_eq_eq, Nat.compare_eq_lt,
    lt_iff]

instance : LinearOrder Address where
  lt_iff_le_not_ge a b := by simp only [lt_iff, le_iff]; omega
  le_refl a := .inr ⟨rfl, Nat.le_refl _⟩
  le_trans a b c h h' := by simp only [le_iff] at *; omega
  le_antisymm a b h h' := by
    obtain ⟨u, p⟩ := a
    obtain ⟨v, q⟩ := b
    simp only [le_iff, Address.mk.injEq] at *
    omega
  le_total a b := by simp only [le_iff]; omega
  toDecidableLE := inferInstance
  toDecidableLT := inferInstance
  toDecidableEq := inferInstance
  compare_eq_compareOfLessAndEq a b := by
    unfold compareOfLessAndEq
    split
    · exact compare_eq_lt.2 ‹_›
    · split
      · rename_i h
        exact Std.compare_eq_iff_eq.2 h
      · rename_i h h'
        cases hc : compare a b with
        | lt => exact absurd (compare_eq_lt.1 hc) h
        | eq => exact absurd (Std.compare_eq_iff_eq.1 hc) h'
        | gt => rfl

theorem lt_next (a : Address) : a < a.next := .inr ⟨rfl, Nat.lt_succ_self _⟩

@[simp] theorem unit_next (a : Address) : a.next.unit = a.unit := rfl

/-- No address lies between another one and the next. -/
theorem lt_next_iff {a b : Address} : a < b.next ↔ a ≤ b := by
  simp only [lt_iff, le_iff, next]
  omega

theorem next_le_iff {a b : Address} (h : a.unit = b.unit) : a.next ≤ b ↔ a < b := by
  simp only [lt_iff, le_iff, next]
  omega

/-- Between two addresses of a unit there are only addresses of the unit. -/
theorem unit_eq_of_between {a b c : Address} (hab : a < b) (hbc : b ≤ c) (h : a.unit = c.unit) :
    b.unit = a.unit := by
  simp only [lt_iff, le_iff] at hab hbc
  omega

end Address

/-! ## 2. Keywords and parts -/

/-- The keyword of the flow command at an address. -/
def keywordAt? (units : List ScriptUnit) (a : Address) : Option Keyword :=
  (commandAt? units a).bind fun c =>
    match Keyword.ofName? c.name with
    | some (k, false) => some k
    | _ => none

namespace Keyword

/-- Whether the block map holds the commands with the keyword. -/
def isLinked : Keyword → Bool
  | .label | .goto | .gotoIf | .skipNext | .throwError | .exitTest | .loadJsonVars | .loadXmlVars =>
    false
  | _ => true

/-- The opener that a branch, a section or a closer is a part of. -/
def partOf? : Keyword → Option Keyword
  | .elseIf | .otherwise => some .ifThen
  | .catchError | .finallyDo => some .tryBlock
  | k => k.closes?

/-- The nature of the construct that a jump command leaves. -/
def leaves? : Keyword → Option Nature
  | .breakLoop | .continueLoop => some .loop
  | .returnValue => some .function
  | _ => none

theorem isLinked_of_opens? {k : Keyword} {n : Nature} (h : k.opens? = some n) : k.isLinked := by
  cases k <;> first | rfl | cases h

theorem isLinked_of_partOf? {k o : Keyword} (h : k.partOf? = some o) : k.isLinked := by
  cases k <;> first | rfl | cases h

theorem opens?_of_partOf? {k o : Keyword} (h : k.partOf? = some o) : o.opens?.isSome := by
  cases k <;> first | (cases h; rfl) | cases h

theorem not_opens?_of_partOf? {k o : Keyword} (h : k.partOf? = some o) : k.opens? = none := by
  cases k <;> first | rfl | cases h

theorem not_leaves?_of_partOf? {k o : Keyword} (h : k.partOf? = some o) : k.leaves? = none := by
  cases k <;> first | rfl | cases h

/-- Every opener has a closer. -/
theorem exists_closes? {k : Keyword} (h : k.opens?.isSome) : ∃ l : Keyword, l.closes? = some k := by
  cases k <;> try cases h
  exacts [⟨.endIf, rfl⟩, ⟨.endTry, rfl⟩, ⟨.endWhile, rfl⟩, ⟨.endFor, rfl⟩, ⟨.endForeach, rfl⟩,
    ⟨.endForJson, rfl⟩, ⟨.endForXml, rfl⟩, ⟨.endFunction, rfl⟩, ⟨.endScript, rfl⟩]

theorem partOf?_of_closes? {k o : Keyword} (h : k.closes? = some o) : k.partOf? = some o := by
  cases k <;> first | exact h | cases h

theorem opens?_of_closes? {k o : Keyword} (h : k.closes? = some o) : o.opens?.isSome :=
  opens?_of_partOf? (partOf?_of_closes? h)

theorem not_opens?_of_closes? {k o : Keyword} (h : k.closes? = some o) : k.opens? = none :=
  not_opens?_of_partOf? (partOf?_of_closes? h)

/-- Only conditionals and tries have parts besides the closer. -/
theorem closes?_of_partOf? {k o : Keyword} (h : k.partOf? = some o) (hif : o ≠ .ifThen)
    (htry : o ≠ .tryBlock) : k.closes?.isSome := by
  cases k <;> first | rfl | (cases h; contradiction) | cases h

/-- The block map holds the parts of constructs, their openers, the calls and the jumps out of constructs. -/
theorem leaves?_isSome {k : Keyword} (h : k.isLinked) (hpart : k.partOf? = none) (hopens : k.opens? = none)
    (hcall : k ≠ .call) : k.leaves?.isSome := by
  cases k <;> simp_all [isLinked, partOf?, closes?, opens?, leaves?]

end Keyword

namespace Block

/-- The parts of a construct that have a keyword, as its opener knows them. -/
def partsOf (b : Block) (k : Keyword) : List Address :=
  match k with
  | .elseIf => b.elseIfs
  | .otherwise => b.elseAt.toList
  | .catchError => b.catchAt.toList
  | .finallyDo => b.finallyAt.toList
  | k => if k.closes? = some b.keyword then b.closer.toList else []

/-- An opener with one more part. -/
def attach (b : Block) (k : Keyword) (a : Address) : Block :=
  match k with
  | .elseIf => { b with elseIfs := b.elseIfs ++ [a] }
  | .otherwise => { b with elseAt := some a }
  | .catchError => { b with catchAt := some a }
  | .finallyDo => { b with finallyAt := some a }
  | _ => { b with closer := some a }

/-- A part that knows what its opener knows of the parts after it. -/
def follow (c o : Block) : Block :=
  match c.keyword with
  | .elseIf | .otherwise | .finallyDo => { c with closer := o.closer }
  | .catchError => { c with finallyAt := o.finallyAt, closer := o.closer }
  | _ => c

/-- Whether a construct can have one more part with a keyword, as far as its branches and sections go. -/
def Admits (b : Block) : Keyword → Prop
  | .elseIf | .otherwise => b.elseAt = none
  | .catchError => b.catchAt = none ∧ b.finallyAt = none
  | .finallyDo => b.finallyAt = none
  | _ => True

theorem admits_of_closes? {b : Block} {k o : Keyword} (h : k.closes? = some o) : b.Admits k := by
  cases k <;> trivial

@[simp] theorem address_attach (b : Block) (k : Keyword) (a : Address) :
    (b.attach k a).address = b.address := by
  unfold attach; split <;> rfl

@[simp] theorem keyword_attach (b : Block) (k : Keyword) (a : Address) :
    (b.attach k a).keyword = b.keyword := by
  unfold attach; split <;> rfl

@[simp] theorem opener_attach (b : Block) (k : Keyword) (a : Address) :
    (b.attach k a).opener = b.opener := by
  unfold attach; split <;> rfl

@[simp] theorem nature?_attach (b : Block) (k : Keyword) (a : Address) :
    (b.attach k a).nature? = b.nature? := by
  rw [nature?, keyword_attach, nature?]

@[simp] theorem address_follow (c o : Block) : (c.follow o).address = c.address := by
  unfold follow; split <;> rfl

@[simp] theorem keyword_follow (c o : Block) : (c.follow o).keyword = c.keyword := by
  unfold follow; split <;> rfl

@[simp] theorem opener_follow (c o : Block) : (c.follow o).opener = c.opener := by
  unfold follow; split <;> rfl

@[simp] theorem elseIfs_follow (c o : Block) : (c.follow o).elseIfs = c.elseIfs := by
  unfold follow; split <;> rfl

@[simp] theorem elseAt_follow (c o : Block) : (c.follow o).elseAt = c.elseAt := by
  unfold follow; split <;> rfl

/-- The closer is the part that the closing keyword has. -/
theorem mem_partsOf_of_closes? {b : Block} {k : Keyword} (h : k.closes? = some b.keyword)
    {a : Address} : a ∈ b.partsOf k ↔ b.closer = some a := by
  cases k <;> first | (simp [partsOf, h]; done) | cases h

theorem closer_attach (b : Block) (k : Keyword) (a : Address) (h : k.partOf?.isSome) :
    (b.attach k a).closer = if k.closes?.isSome then some a else b.closer := by
  cases k <;> first | rfl | cases h

theorem catchAt_attach (b : Block) (k : Keyword) (a : Address) :
    (b.attach k a).catchAt = if k = .catchError then some a else b.catchAt := by
  cases k <;> rfl

theorem finallyAt_attach (b : Block) (k : Keyword) (a : Address) :
    (b.attach k a).finallyAt = if k = .finallyDo then some a else b.finallyAt := by
  cases k <;> rfl

/-- An opener with one more part has this part and those it had. -/
theorem mem_partsOf_attach {b : Block} {k l : Keyword} {a p : Address}
    (h : k.partOf? = some b.keyword) (hempty : k ≠ .elseIf → b.partsOf k = []) :
    p ∈ (b.attach k a).partsOf l ↔ p ∈ b.partsOf l ∨ p = a ∧ l = k := by
  obtain ⟨address, o, name, opener, elseIfs, elseAt, catchAt, finallyAt, closer⟩ := b
  replace h : k.partOf? = some o := h
  cases k <;> cases h <;> cases l <;> simp_all [attach, partsOf, Keyword.closes?]

theorem follow_congr {c o o' : Block} (hcloser : o.closer = o'.closer)
    (hfinally : c.keyword = .catchError → o.finallyAt = o'.finallyAt) :
    c.follow o = c.follow o' := by
  unfold follow
  cases hk : c.keyword <;> simp_all

/-- Only branches and sections know more than their opener. -/
theorem follow_of_closes? {c o : Block} (h : c.keyword.partOf? = none ∨ c.keyword.closes?.isSome) :
    c.follow o = c := by
  unfold follow
  cases hk : c.keyword <;> rw [hk] at h <;> first | rfl | (rcases h with h | h <;> cases h)

/-- Only the closer is new to a branch or a section when the construct is closed. -/
theorem follow_closer {c o : Block} {e : Option Address} (h : c.keyword.partOf?.isSome)
    (hc : c.keyword.closes? = none) (hf : c.follow o = c) :
    c.follow { o with closer := e } = { c with closer := e } := by
  obtain ⟨a, k, n, ow, ei, el, ca, fi, cl⟩ := c
  cases k <;> first | rfl | (cases h; done) | (cases hc; done) | skip
  simp only [follow, mk.injEq] at hf ⊢
  simp [hf]

/-- A branch or a section that knows what its opener knows, knows the closer. -/
theorem closer_of_follow {c o : Block} (h : c.keyword.partOf?.isSome) (hc : c.keyword.closes? = none)
    (hf : c.follow o = c) : c.closer = o.closer := by
  rw [← hf]
  unfold follow
  cases hk : c.keyword <;> rw [hk] at h hc <;> first | rfl | (cases h; done) | cases hc

@[simp] theorem follow_follow (c o o' : Block) : (c.follow o).follow o' = c.follow o' := by
  unfold follow
  cases hk : c.keyword <;> simp [hk]

end Block

end BlockFlow
