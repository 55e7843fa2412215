/-
# What compiles

Units compile if and only if they are written after the grammar of constructs: `compile_ok_iff`, with
`Accepted` for what is asked of the units.

A draft reads the flow commands of a unit as the recogniser does: the openings of its pending openers
(`Draft.openings`) change as `Shift` says, and the tables of functions and labels get the names that are
declared.  `Draft.Takes.reads` says so of what a flow command does, and `Draft.Sound.flow_ok` that whatever the
recogniser reads is accepted, if the names are new.
-/
import BlockFlow.Proofs.Grammar
import BlockFlow.Proofs.Nesting

namespace BlockFlow

/-! ## 1. Command names -/

namespace Keyword

/-- A command name that is the name of a flow command with the suffix after it, and maybe more. -/
def Waits (name : String) : Prop := ∃ (k : Keyword) (rest : String), name = k.name ++ waitSuffix ++ rest

theorem named?_name (k : Keyword) : named? k.name = some k := by
  cases k <;> rfl

theorem named?_eq_some_iff {name : String} {k : Keyword} : named? name = some k ↔ name = k.name := by
  refine ⟨fun h => ?_, fun h => h ▸ named?_name k⟩
  have := List.find?_some h
  exact (eq_of_beq this).symm

theorem eq_append_of_before? {word stem : List Char} : ∀ {cs : List Char}, before? word cs = some stem →
    ∃ rest, cs = stem ++ (word ++ rest)
  | [], h => by
    unfold before? at h
    split at h
    · cases h
      exact ⟨[], by simp_all⟩
    · cases h
  | c :: cs, h => by
    unfold before? at h
    split at h
    · cases h
      obtain ⟨rest, hrest⟩ := List.isPrefixOf_iff_prefix.1 ‹_›
      exact ⟨rest, hrest.symm⟩
    · obtain ⟨stem', hstem, rfl⟩ := Option.map_eq_some_iff.1 h
      obtain ⟨rest, rfl⟩ := eq_append_of_before? hstem
      exact ⟨rest, rfl⟩

theorem before?_name (k : Keyword) (rest : List Char) :
    before? waitSuffix.toList (k.name.toList ++ (waitSuffix.toList ++ rest)) = some k.name.toList := by
  cases k <;> rfl

theorem not_before?_name (k : Keyword) : before? waitSuffix.toList k.name.toList = none := by
  cases k <;> rfl

/-- **How a command name is recognised**: as that of a flow command with the suffix, or as no such name, and
then only if it is exactly the name of a flow command. -/
theorem ofName?_cases (name : String) :
    (Waits name ∧ ∃ k, ofName? name = some (k, true)) ∨
      (¬Waits name ∧ ofName? name = (named? name).map (·, false)) := by
  have hwaits (h : Waits name) : ∃ k : Keyword, before? waitSuffix.toList name.toList = some k.name.toList := by
    obtain ⟨k, rest, rfl⟩ := h
    exact ⟨k, by simpa using before?_name k rest.toList⟩
  unfold ofName?
  cases hb : before? waitSuffix.toList name.toList with
  | none =>
    refine .inr ⟨fun h => ?_, rfl⟩
    obtain ⟨k, hk⟩ := hwaits h
    cases hb.symm.trans hk
  | some stem =>
    cases hn : named? (String.ofList stem) with
    | some k =>
      refine .inl ⟨?_, k, by simp [hn]⟩
      obtain ⟨rest, hrest⟩ := eq_append_of_before? hb
      refine ⟨k, String.ofList rest, ?_⟩
      rw [← String.toList_inj, hrest, ← named?_eq_some_iff.1 hn]
      simp
    | none =>
      refine .inr ⟨fun h => ?_, ?_⟩
      · obtain ⟨k, hk⟩ := hwaits h
        cases hb.symm.trans hk
        rw [String.ofList_toList, named?_name] at hn
        cases hn
      · cases hname : named? name with
        | none => simp [hn]
        | some k =>
          rw [named?_eq_some_iff.1 hname, not_before?_name] at hb
          cases hb

end Keyword

/-! ## 2. Names that are declared -/

/-- The names that rows declare by keywords of a kind. -/
def declared (p : Keyword → Prop) [DecidablePred p] (rs : List Row) : List String :=
  (rs.filter fun r => p r.keyword).map Row.target

/-- The labels of rows. -/
def labelsOf (rs : List Row) : List String := declared (· = .label) rs

/-- The functions and scripts of rows. -/
def functionsOf (rs : List Row) : List String := declared (·.opens? = some .function) rs

/-- Names that are not empty, all different, and none of which is bound. -/
structure Fresh (names : List String) (bound : String → Prop) : Prop where
  nodup : names.Nodup
  named : "" ∉ names
  unbound : ∀ n ∈ names, ¬bound n

theorem declared_singleton (p : Keyword → Prop) [DecidablePred p] (r : Row) :
    declared p [r] = if p r.keyword then [r.target] else [] := by
  unfold declared
  by_cases h : p r.keyword <;> simp [h]

theorem declared_append (p : Keyword → Prop) [DecidablePred p] (rs rs' : List Row) :
    declared p (rs ++ rs') = declared p rs ++ declared p rs' := by
  simp [declared]

theorem labelsOf_append (rs rs' : List Row) : labelsOf (rs ++ rs') = labelsOf rs ++ labelsOf rs' :=
  declared_append _ rs rs'

theorem functionsOf_append (rs rs' : List Row) :
    functionsOf (rs ++ rs') = functionsOf rs ++ functionsOf rs' :=
  declared_append _ rs rs'

theorem fresh_nil (bound : String → Prop) : Fresh [] bound := ⟨.nil, nofun, nofun⟩

theorem fresh_append_iff {ns ms : List String} {bound : String → Prop} :
    Fresh (ns ++ ms) bound ↔ Fresh ns bound ∧ Fresh ms fun n => n ∈ ns ∨ bound n := by
  constructor
  · rintro ⟨hnodup, hnamed, hunbound⟩
    rw [List.nodup_append] at hnodup
    rw [List.mem_append, not_or] at hnamed
    rw [List.forall_mem_append] at hunbound
    exact ⟨⟨hnodup.1, hnamed.1, hunbound.1⟩, hnodup.2.1, hnamed.2, fun n hn hbound =>
      hbound.elim (fun hmem => hnodup.2.2 n hmem n hn rfl) (hunbound.2 n hn)⟩
  · rintro ⟨h, h'⟩
    refine ⟨List.nodup_append.2 ⟨h.nodup, h'.nodup, ?_⟩, ?_, ?_⟩
    · rintro n hn m hm rfl
      exact h'.unbound n hm (.inl hn)
    · rw [List.mem_append, not_or]
      exact ⟨h.named, h'.named⟩
    · rw [List.forall_mem_append]
      exact ⟨h.unbound, fun n hn hbound => h'.unbound n hn (.inr hbound)⟩

theorem fresh_singleton_iff {n : String} {bound : String → Prop} :
    Fresh [n] bound ↔ n ≠ "" ∧ ¬bound n := by
  constructor
  · rintro ⟨-, hnamed, hunbound⟩
    exact ⟨fun h => hnamed (h ▸ List.mem_singleton_self n), hunbound n (List.mem_singleton_self n)⟩
  · rintro ⟨hnamed, hunbound⟩
    exact ⟨List.pairwise_singleton _ _, by simpa using hnamed.symm, by simpa using hunbound⟩

theorem Fresh.congr {ns : List String} {bound bound' : String → Prop} (h : Fresh ns bound)
    (hb : ∀ n, bound' n → bound n) : Fresh ns bound' :=
  ⟨h.nodup, h.named, fun n hn hbound => h.unbound n hn (hb n hbound)⟩

/-! ## 3. The openings of a draft -/

namespace Block

/-- The branches or the sections that an opener knows. -/
def dividers (b : Block) : List Keyword :=
  match b.keyword with
  | .ifThen => b.elseIfs.map (fun _ => .elseIf) ++ b.elseAt.toList.map fun _ => .otherwise
  | .tryBlock => b.catchAt.toList.map (fun _ => .catchError) ++ b.finallyAt.toList.map fun _ => .finallyDo
  | _ => []

/-- The opening of an opener's block. -/
def opening (b : Block) : Opening := ⟨b.keyword, b.name, b.dividers⟩

/-- What a construct can have according to the grammar, its opener's block has room for. -/
theorem admits_iff {b : Block} {k : Keyword} (hk : k.isDivider) (hpart : k.partOf? = some b.keyword) :
    b.keyword.Admits (b.dividers ++ [k]) ↔ b.Admits k := by
  obtain ⟨address, o, name, opener, elseIfs, elseAt, catchAt, finallyAt, closer⟩ := b
  replace hpart : k.partOf? = some o := hpart
  have hdrop (ks : List Keyword) : (elseIfs.map (fun _ => Keyword.elseIf) ++ ks).dropWhile (· == .elseIf) =
      ks.dropWhile (· == .elseIf) := by
    induction elseIfs with
    | nil => rfl
    | cons a as ih => exact ih
  cases k <;> cases hk <;> cases hpart <;>
    simp only [Keyword.Admits, dividers, Admits, List.append_assoc, hdrop] <;>
    cases elseAt <;> cases catchAt <;> cases finallyAt <;>
    simp only [Option.toList_none, Option.toList_some, List.map_nil, List.map_cons, reduceCtorEq] <;>
    decide

theorem opening_attach {b : Block} {k : Keyword} {a : Address} (hk : k.isDivider)
    (hpart : k.partOf? = some b.keyword) (h : b.Admits k) :
    (b.attach k a).opening = b.opening.divide [k] := by
  obtain ⟨address, o, name, opener, elseIfs, elseAt, catchAt, finallyAt, closer⟩ := b
  replace hpart : k.partOf? = some o := hpart
  cases k <;> cases hk <;> cases hpart <;>
    simp_all [Admits, attach, opening, dividers, Opening.divide]

end Block

/-- The openings of the pending openers. -/
def Draft.openings (d : Draft) : List Opening := d.pending.map fun a => (d.block a).opening

namespace Draft

variable {units : List ScriptUnit} {d d' : Draft} {here : Address} {k : Keyword} {target : String}

/-- A construct of a nature is pending if an opener of that nature is. -/
theorem isSome_enclosing?_iff {n : Nature} : (d.enclosing? n).isSome ↔ n ∈ natures d.openings := by
  unfold enclosing? openings natures
  rw [List.find?_isSome, List.flatMap_map, List.mem_flatMap]
  refine exists_congr fun a => and_congr_right fun _ => ?_
  rw [beq_iff_eq, Option.mem_toList]
  exact Iff.rfl

theorem openings_congr {as : List Address} (h : ∀ a ∈ as, d'.block a = d.block a) :
    as.map (fun a => (d'.block a).opening) = as.map fun a => (d.block a).opening :=
  List.map_congr_left fun a ha => by rw [h a ha]

theorem block_congr {a : Address} (h : d'.blockAt? a = d.blockAt? a) : d'.block a = d.block a := by
  unfold block
  rw [show d'.tables.blocks.get? a = d.tables.blocks.get? a from h]

/-- **What a flow command does to the openings** is what the recogniser does. -/
theorem Takes.shift (t : d.Takes here k target d') (h : d.Sound units here) :
    Shift d.openings ⟨k, target⟩ d'.openings := by
  have hne {a} (ha : a ∈ d.pending) : a ≠ here := by
    obtain ⟨-, b, hb, -⟩ := h.pending ha
    exact (h.placed hb).2.ne
  cases t with
  | label => exact .stays rfl rfl nofun
  | pass unlinked other =>
    have hrole : k.opens? = none ∧ k.partOf? = none ∧ k.leaves? = none := by
      cases k <;> first | exact ⟨rfl, rfl, rfl⟩ | cases unlinked
    refine .stays hrole.1 hrole.2.1 fun n hn => ?_
    cases hrole.2.2.symm.trans hn
  | record linked part leaves found named blocks pending =>
    have hsame : d.pending.map (fun a => (d'.block a).opening) = d.openings :=
      openings_congr fun a ha => block_congr (by rw [blocks, if_neg (hne ha)])
    unfold openings at hsame ⊢
    rw [pending]
    split
    · rename_i hopens
      have hnew : (d'.block here).opening = (Row.mk k target).opening := by
        rw [block_of_blockAt? (by rw [blocks, if_pos rfl])]
        cases k <;> rfl
      rw [List.map_cons, hsame, hnew]
      exact .opens hopens
    · rename_i hopens
      rw [hsame]
      refine .stays (by simpa using hopens) part fun n hn => ?_
      replace hn : k.leaves? = some n := hn
      rw [hn, Option.bind_some] at leaves
      exact isSome_enclosing?_iff.1 (leaves ▸ found (by rw [hn]; rfl))
  | @attach _ _ top rest o _ part innermost block admitted asked blocks pending functions =>
    have t : d.Attaches here k top rest o d' := ⟨part, innermost, block, admitted, blocks, pending, functions⟩
    have hrest : ∀ a ∈ rest, d'.block a = d.block a := by
      intro a ha
      obtain ⟨-, b, hb, hn, -⟩ := h.pending (innermost ▸ List.mem_cons_of_mem _ ha)
      exact block_congr ((t.blockAt?_opener h (t.lt_top h ha).ne hb hn).trans hb.symm)
    have hopenings : d.openings = o.opening :: rest.map fun a => (d.block a).opening := by
      rw [openings, innermost, List.map_cons, block_of_blockAt? block]
    rw [hopenings, openings, pending]
    cases hcl : k.closes? with
    | some l =>
      have hlo : l = o.keyword := Option.some.inj ((Keyword.partOf?_of_closes? hcl).symm.trans part)
      rw [Option.isSome_some, if_pos rfl, openings_congr hrest]
      refine .closes ?_ asked
      rw [hcl, hlo]
      rfl
    | none =>
      have hd : k.isDivider := by
        rcases k.role_cases with h | h | h | h <;> simp_all
      have htop : (d'.block top).opening = o.opening.divide [k] := by
        rw [block_of_blockAt? (t.blockAt?_top h), Block.opening_attach hd part admitted]
      rw [Option.isSome_none, if_neg (by simp), innermost, List.map_cons, openings_congr hrest, htop]
      exact .divides hd ((Block.admits_iff hd part).2 admitted)

/-! ## 4. What the recogniser reads is accepted -/

theorem closeBlock_of_openings {o : Opening} {st : List Opening} {expected : Keyword}
    {name : Option String} (hs : d.openings = o :: st) (hk : o.keyword = expected)
    (hname : name.isSome → o.name = name) :
    ∃ top rest, d.closeBlock expected name = .ok (top, { d with pending := rest }) := by
  obtain ⟨top, rest, hp, rfl, -⟩ := List.map_eq_cons_iff.1 hs
  refine ⟨top, rest, ?_⟩
  unfold closeBlock
  rw [hp]
  dsimp only
  rw [if_neg (not_not.2 (show (d.block top).keyword = expected from hk)),
    if_neg (fun h => h.2 (hname h.1))]

theorem innermost_of_openings {o : Opening} {st : List Opening} {expected : Keyword} (missing : Misuse)
    (hs : d.openings = o :: st) (hk : o.keyword = expected) :
    ∃ top, d.innermost expected missing = .ok top ∧ (d.block top).opening = o := by
  obtain ⟨top, rest, hp, rfl, -⟩ := List.map_eq_cons_iff.1 hs
  refine ⟨top, ?_, rfl⟩
  unfold innermost
  rw [hp]
  dsimp only
  rw [if_pos (show (d.block top).keyword = expected from hk)]

/-- **What the recogniser reads** is accepted, if a name that it declares is new. -/
theorem flow_ok {st : List Opening} (hs : Shift d.openings ⟨k, target⟩ st)
    (hlabel : k = .label → target ≠ "" ∧ d.tables.labels.get? (.ofText target here.unit) = none)
    (hfunction : k.opens? = some .function → target ≠ "" ∧ d.tables.functions.get? target = none) :
    ∃ d', d.flow here k target = .ok d' := by
  have hclosing {expected : Keyword} (hk : k.closes? = some expected) :
      ∃ top rest, d.closeBlock expected (askedName? k target) = .ok (top, { d with pending := rest }) := by
    obtain ⟨o, ho, hcl, hname⟩ := hs.of_closes (by rw [hk]; rfl)
    exact closeBlock_of_openings ho (Option.some.inj (hcl.symm.trans hk)) hname
  have hdividing {expected : Keyword} (missing : Misuse) (hk : k.isDivider) (hp : k.partOf? = some expected) :
      ∃ top, d.innermost expected missing = .ok top ∧ (d.block top).Admits k := by
    obtain ⟨o, st₀, ho, hadmits⟩ := hs.of_divides hk
    have hpart : k.partOf? = some o.keyword := hadmits.partOf? hk
    obtain ⟨top, htop, rfl⟩ := innermost_of_openings missing ho (Option.some.inj (hpart.symm.trans hp))
    exact ⟨top, htop, (Block.admits_iff hk hpart).1 hadmits⟩
  have hleaving {n : Nature} (hk : k.leaves? = some n) : ∃ top, d.enclosing? n = some top :=
    Option.isSome_iff_exists.1 (isSome_enclosing?_iff.2 (hs.of_leaves hk))
  cases k
  case label =>
    obtain ⟨hnamed, hnew⟩ := hlabel rfl
    exact ⟨_, by simp [flow, Dict.contains, hnamed, hnew]; rfl⟩
  case function | script =>
    obtain ⟨hnamed, hnew⟩ := hfunction rfl
    exact ⟨_, by simp [flow, hnamed, hnew]; rfl⟩
  case elseIf =>
    obtain ⟨top, htop, hnone⟩ := hdividing .noConditional rfl rfl
    replace hnone : (d.block top).elseAt = none := hnone
    exact ⟨_, by simp only [flow, htop, bind, Except.bind, hnone]; rfl⟩
  case otherwise =>
    obtain ⟨top, htop, hnone⟩ := hdividing .noConditional rfl rfl
    replace hnone : (d.block top).elseAt = none := hnone
    exact ⟨_, by simp only [flow, htop, bind, Except.bind, hnone]; rfl⟩
  case catchError =>
    obtain ⟨top, htop, hcatch, hfinally⟩ := hdividing .noTryForCatch rfl rfl
    exact ⟨_, by simp only [flow, htop, bind, Except.bind, hcatch, hfinally]; rfl⟩
  case finallyDo =>
    obtain ⟨top, htop, hnone⟩ := hdividing .noTryForFinally rfl rfl
    replace hnone : (d.block top).finallyAt = none := hnone
    exact ⟨_, by simp only [flow, htop, bind, Except.bind, hnone]; rfl⟩
  case breakLoop | continueLoop | returnValue =>
    obtain ⟨top, htop⟩ := hleaving rfl
    exact ⟨_, by simp only [flow, htop]; rfl⟩
  case endIf | endTry =>
    obtain ⟨top, rest, hclose⟩ := hclosing rfl
    simp only [askedName?] at hclose
    exact ⟨_, by simp only [flow, hclose, bind, Except.bind]; rfl⟩
  case endWhile | endFor | endForeach | endForJson | endForXml | endFunction | endScript =>
    obtain ⟨top, rest, hclose⟩ := hclosing rfl
    simp only [askedName?] at hclose
    exact ⟨_, by simp only [flow, closeWith, hclose, bind, Except.bind]; rfl⟩
  all_goals exact ⟨_, rfl⟩

/-! ## 5. What is read -/

/-- A function of a name is known. -/
def HasFunction (d : Draft) (name : String) : Prop := (d.tables.functions.get? name).isSome

/-- A label of a unit is known. -/
def HasLabel (d : Draft) (unit : Nat) (label : String) : Prop :=
  (d.tables.labels.get? ⟨unit, label⟩).isSome

/-- **Rows are read** from one draft to another: the openings are as the recogniser has them, and the names
that are declared are new at first and known at last. -/
structure Reads (d : Draft) (unit : Nat) (rs : List Row) (d' : Draft) : Prop where
  shifts : Shifts d.openings rs d'.openings
  newFunctions : Fresh (functionsOf rs) d.HasFunction
  newLabels : Fresh (labelsOf rs) (d.HasLabel unit)
  functions {n} : d'.HasFunction n ↔ n ∈ functionsOf rs ∨ d.HasFunction n
  labels {u n} : d'.HasLabel u n ↔ u = unit ∧ n ∈ labelsOf rs ∨ d.HasLabel u n

theorem Reads.nil (d : Draft) (unit : Nat) : d.Reads unit [] d where
  shifts := .nil
  newFunctions := fresh_nil _
  newLabels := fresh_nil _
  functions := by simp [functionsOf, declared]
  labels := by simp [labelsOf, declared]

theorem Reads.append {d₁ : Draft} {unit : Nat} {rs rs' : List Row} (h : d.Reads unit rs d₁)
    (h' : d₁.Reads unit rs' d') : d.Reads unit (rs ++ rs') d' where
  shifts := shifts_append_iff.2 ⟨_, h.shifts, h'.shifts⟩
  newFunctions := by
    rw [functionsOf_append]
    exact fresh_append_iff.2 ⟨h.newFunctions, h'.newFunctions.congr fun n hn => h.functions.2 hn⟩
  newLabels := by
    rw [labelsOf_append]
    exact fresh_append_iff.2 ⟨h.newLabels, h'.newLabels.congr fun n hn =>
      h.labels.2 (hn.imp_left fun hn => ⟨rfl, hn⟩)⟩
  functions {n} := by
    rw [h'.functions, h.functions, functionsOf_append, List.mem_append]
    exact or_left_comm.trans or_assoc.symm
  labels {u n} := by
    rw [h'.labels, h.labels, labelsOf_append, List.mem_append, and_or_left]
    exact or_left_comm.trans or_assoc.symm

theorem Takes.functions_eq (t : d.Takes here k target d') : d'.tables.functions =
    if k.opens? = some .function then d.tables.functions.insert target here else d.tables.functions := by
  cases t with
  | label => rfl
  | pass unlinked => rw [if_neg (by cases k <;> first | decide | cases unlinked)]
  | record linked part leaves found named blocks pending functions => exact functions
  | attach part innermost block admitted asked blocks pending functions =>
    rw [functions, if_neg (by rw [Keyword.not_opens?_of_partOf? part]; nofun)]

theorem Takes.labels_eq (t : d.Takes here k target d') : d'.tables.labels =
    if k = .label then d.tables.labels.insert (.ofText target here.unit) here else d.tables.labels := by
  cases t with
  | label => rfl
  | pass unlinked other => rw [if_neg other]
  | record linked part leaves found named blocks pending functions labels =>
    rw [labels, if_neg (by rintro rfl; cases linked)]
  | attach part innermost block admitted asked blocks pending functions labels =>
    rw [labels, if_neg (by rintro rfl; cases part)]

/-- A name that a flow command declares is new. -/
theorem Takes.names_new (t : d.Takes here k target d') :
    (k = .label → target ≠ "" ∧ d.tables.labels.get? (.ofText target here.unit) = none) ∧
    (k.opens? = some .function → target ≠ "" ∧ d.tables.functions.get? target = none) := by
  cases t with
  | label named fresh => exact ⟨fun _ => ⟨named, fresh⟩, nofun⟩
  | pass unlinked other =>
    refine ⟨fun h => absurd h other, fun h => ?_⟩
    cases k <;> first | (cases h; done) | cases unlinked
  | record linked part leaves found named => exact ⟨(by rintro rfl; cases linked), named⟩
  | attach part =>
    refine ⟨(by rintro rfl; cases part), fun h => ?_⟩
    rw [Keyword.not_opens?_of_partOf? part] at h
    cases h

/-- **What a flow command does** is to read its row. -/
theorem Takes.reads (t : d.Takes here k target d') (h : d.Sound units here)
    (ht : Text.trim target = target) : d.Reads here.unit [⟨k, target⟩] d' where
  shifts := .cons (t.shift h) .nil
  newFunctions := by
    rw [functionsOf, declared_singleton]
    split
    · exact fresh_singleton_iff.2 (by simpa [HasFunction] using t.names_new.2 ‹_›)
    · exact fresh_nil _
  newLabels := by
    rw [labelsOf, declared_singleton]
    split
    · exact fresh_singleton_iff.2 (by simpa [HasLabel, LabelKey.ofText, ht] using t.names_new.1 ‹_›)
    · exact fresh_nil _
  functions {n} := by
    rw [HasFunction, t.functions_eq, functionsOf, declared_singleton]
    dsimp only
    split
    · rw [Dict.get?_insert, List.mem_singleton]
      split <;> simp_all [HasFunction]
    · simp [HasFunction]
  labels {u n} := by
    rw [HasLabel, t.labels_eq, labelsOf, declared_singleton]
    dsimp only
    split
    · simp only [Dict.get?_insert, List.mem_singleton, LabelKey.ofText, ht, LabelKey.mk.injEq]
      split <;> simp_all [HasLabel]
    · simp [HasLabel]

/-! ## 6. Commands -/

/-- **A command that a draft accepts** has no suffix, and its row, if it has one, is read. -/
theorem Sound.command_reads (h : d.Sound units here) {c : Command} (hd' : d.command here c = .ok d') :
    ¬Keyword.Waits c.name ∧ d.Reads here.unit c.row?.toList d' := by
  obtain ⟨-, k, hk⟩ | ⟨hw, hk⟩ := Keyword.ofName?_cases c.name
  · rcases command_ok hd' with ⟨hn, -⟩ | ⟨l, hl, -⟩
    · cases hk.symm.trans hn
    · cases hk.symm.trans hl
  · refine ⟨hw, ?_⟩
    rw [Command.row?]
    cases hnamed : Keyword.named? c.name with
    | none =>
      rw [hnamed] at hk
      rcases command_ok hd' with ⟨-, rfl⟩ | ⟨l, hl, -⟩
      · exact .nil d' here.unit
      · cases hk.symm.trans hl
    | some k =>
      rw [hnamed] at hk
      rcases command_ok hd' with ⟨hn, -⟩ | ⟨l, hl, hf⟩
      · cases hk.symm.trans hn
      · cases hk.symm.trans hl
        exact (h.takes hf).reads h (Text.trim_trim c.target)

/-- **A command whose row can be read** is accepted, if it has no suffix. -/
theorem command_accepts {c : Command} {st : List Opening} (hw : ¬Keyword.Waits c.name)
    (hs : Shifts d.openings c.row?.toList st) (hl : Fresh (labelsOf c.row?.toList) (d.HasLabel here.unit))
    (hf : Fresh (functionsOf c.row?.toList) d.HasFunction) : ∃ d', d.command here c = .ok d' := by
  obtain ⟨h, -⟩ | ⟨-, hk⟩ := Keyword.ofName?_cases c.name
  · exact absurd h hw
  unfold Draft.command
  rw [hk]
  rw [Command.row?] at hs hl hf
  cases hnamed : Keyword.named? c.name with
  | none => exact ⟨d, rfl⟩
  | some k =>
    rw [hnamed, Option.map_some, Option.toList_some] at hs hl hf
    obtain ⟨d', hd'⟩ : ∃ d', d.flow here k (Text.trim c.target) = .ok d' := by
      cases hs with
      | cons hs =>
        refine flow_ok hs (fun hk => ?_) fun hk => ?_
        · rw [labelsOf, declared_singleton, if_pos hk] at hl
          simpa [HasLabel, LabelKey.ofText] using fresh_singleton_iff.1 hl
        · rw [functionsOf, declared_singleton, if_pos hk] at hf
          simpa [HasFunction] using fresh_singleton_iff.1 hf
    exact ⟨d', by simp [hd', Except.mapError]⟩

theorem filterMap_row?_cons (c : Command) (cs : List Command) :
    (c :: cs).filterMap Command.row? = c.row?.toList ++ cs.filterMap Command.row? := by
  rw [List.filterMap_cons]
  cases c.row? <;> rfl

/-- **Commands that a draft accepts** have no suffix, and their rows are read. -/
theorem Sound.commands_reads : ∀ {cs : List Command} {d d' : Draft} {here : Address},
    d.Sound units here → Listed units here cs → Draft.commands d here cs = (d', none) →
    (∀ c ∈ cs, ¬Keyword.Waits c.name) ∧ d.Reads here.unit (cs.filterMap Command.row?) d'
  | [], d, _, here, _, _, hd' => by
    cases hd'
    exact ⟨nofun, .nil d here.unit⟩
  | c :: cs, d, d', here, h, hcs, hd' => by
    unfold Draft.commands at hd'
    split at hd'
    · obtain ⟨hw, hreads⟩ := h.command_reads ‹_›
      obtain ⟨hws, hreads'⟩ := commands_reads (h.command hcs.head ‹_›) hcs.tail hd'
      rw [filterMap_row?_cons]
      exact ⟨List.forall_mem_cons.2 ⟨hw, hws⟩, hreads.append hreads'⟩
    · cases hd'

/-- **Commands whose rows can be read** are accepted, if they have no suffix and the names are new. -/
theorem Sound.commands_accept : ∀ {cs : List Command} {d : Draft} {here : Address} {st : List Opening},
    d.Sound units here → Listed units here cs → (∀ c ∈ cs, ¬Keyword.Waits c.name) →
    Shifts d.openings (cs.filterMap Command.row?) st →
    Fresh (labelsOf (cs.filterMap Command.row?)) (d.HasLabel here.unit) →
    Fresh (functionsOf (cs.filterMap Command.row?)) d.HasFunction →
    ∃ d', Draft.commands d here cs = (d', none)
  | [], d, _, _, _, _, _, _, _, _ => ⟨d, rfl⟩
  | c :: cs, d, here, st, h, hcs, hw, hs, hl, hf => by
    obtain ⟨hwc, hws⟩ := List.forall_mem_cons.1 hw
    rw [filterMap_row?_cons] at hs hl hf
    rw [labelsOf_append, fresh_append_iff] at hl
    rw [functionsOf_append, fresh_append_iff] at hf
    obtain ⟨st', hsc, hss⟩ := shifts_append_iff.1 hs
    obtain ⟨d₁, hd₁⟩ := command_accepts hwc hsc hl.1 hf.1
    obtain ⟨-, hreads⟩ := h.command_reads hd₁
    -- The draft's own openings are those that the recogniser comes to.
    cases hsc.unique hreads.shifts
    obtain ⟨d', hd'⟩ := commands_accept (h.command hcs.head hd₁) hcs.tail hws hss
      (hl.2.congr fun n hn => (hreads.labels.1 hn).imp_left And.right)
      (hf.2.congr fun n hn => hreads.functions.1 hn)
    exact ⟨d', by rw [Draft.commands, hd₁]; exact hd'⟩

/-! ## 7. Units -/

/-- What is asked of a unit by itself. -/
structure Readable (u : ScriptUnit) : Prop where
  unsuffixed : ∀ c ∈ u.commands, ¬Keyword.Waits c.name
  shifts : Shifts [] u.rows []
  labels : Fresh (labelsOf u.rows) fun _ => False

variable {t t' : Tables} {index : Nat} {u : ScriptUnit}

/-- **A unit that compiles** is read. -/
theorem Sound.addUnit_reads (h : Sound units { tables := t } ⟨index, 0⟩) (hu : units[index]? = some u)
    (ht : t.addUnit index u = (t', none)) : (∀ c ∈ u.commands, ¬Keyword.Waits c.name) ∧
      Reads { tables := t } index u.rows { tables := t' } := by
  unfold Tables.addUnit at ht
  split at ht
  · cases ht
  rename_i d hd
  split at ht
  · rename_i hp
    cases ht
    have := h.commands_reads (listed_commands hu) hd
    obtain ⟨tables, pending⟩ := d
    cases List.isEmpty_iff.1 hp
    exact this
  · cases ht

/-- **A unit compiles** if it is as is asked, and its functions are new. -/
theorem Sound.addUnit_accepts (h : Sound units { tables := t } ⟨index, 0⟩) (hu : units[index]? = some u)
    (hlabel : ∀ n, ¬HasLabel { tables := t } index n) (hunit : Readable u)
    (hf : Fresh (functionsOf u.rows) (HasFunction { tables := t })) :
    ∃ t', t.addUnit index u = (t', none) := by
  obtain ⟨d', hd'⟩ := h.commands_accept (listed_commands hu) hunit.unsuffixed hunit.shifts
    (hunit.labels.congr hlabel) hf
  obtain ⟨-, hreads⟩ := h.commands_reads (listed_commands hu) hd'
  have hopenings : d'.openings = [] := hreads.shifts.unique hunit.shifts
  have hp : d'.pending = [] := List.map_eq_nil_iff.1 hopenings
  exact ⟨d'.tables, by simp [Tables.addUnit, hd', hp]⟩

/-- **Units compile** if and only if each is as is asked, and all functions are new. -/
theorem addUnits_ok_iff : ∀ {us : List ScriptUnit} {t : Tables} {index : Nat},
    Sound units { tables := t } ⟨index, 0⟩ → (∀ i u, us[i]? = some u → units[index + i]? = some u) →
    (∀ v n, HasLabel { tables := t } v n → v < index) →
    ((∃ t', t.addUnits index us = (t', none)) ↔ (∀ u ∈ us, Readable u) ∧
      Fresh (us.flatMap fun u => functionsOf u.rows) (HasFunction { tables := t }))
  | [], t, _, _, _, _ => ⟨fun _ => ⟨nofun, fresh_nil _⟩, fun _ => ⟨t, rfl⟩⟩
  | u :: us, t, index, h, hus, hlabels => by
    have hu : units[index]? = some u := hus 0 u rfl
    -- Labels are kept with their unit, so a new unit finds none; functions are shared by all units.
    have hold (n : String) : ¬HasLabel { tables := t } index n := fun hn => lt_irrefl _ (hlabels index n hn)
    have hrest {t₁ : Tables} (ht₁ : t.addUnit index u = (t₁, none)) :
        (∃ t', t₁.addUnits (index + 1) us = (t', none)) ↔ (∀ u ∈ us, Readable u) ∧
          Fresh (us.flatMap fun u => functionsOf u.rows)
            fun n => n ∈ functionsOf u.rows ∨ HasFunction { tables := t } n := by
      obtain ⟨-, hreads⟩ := h.addUnit_reads hu ht₁
      have hfunctions : HasFunction { tables := t₁ } =
          fun n => n ∈ functionsOf u.rows ∨ HasFunction { tables := t } n :=
        funext fun n => propext hreads.functions
      rw [← hfunctions]
      refine addUnits_ok_iff ((invariant_sound units).addUnit h hu ht₁) (fun i v hi => ?_) fun v n hn => ?_
      · have := hus (i + 1) v hi
        rwa [Nat.add_comm i, ← Nat.add_assoc] at this
      · rcases hreads.labels.1 hn with ⟨rfl, -⟩ | hn
        · exact Nat.lt_succ_self v
        · exact (hlabels v n hn).trans (Nat.lt_succ_self index)
    rw [List.forall_mem_cons, List.flatMap_cons, fresh_append_iff]
    constructor
    · rintro ⟨t', ht'⟩
      unfold Tables.addUnits at ht'
      split at ht'
      · rename_i t₁ ht₁
        obtain ⟨hw, hreads⟩ := h.addUnit_reads hu ht₁
        obtain ⟨hus', hf⟩ := (hrest ht₁).1 ⟨t', ht'⟩
        exact ⟨⟨⟨hw, hreads.shifts, hreads.newLabels.congr fun _ => False.elim⟩, hus'⟩,
          hreads.newFunctions, hf⟩
      · cases ht'
    · rintro ⟨⟨hunit, hus'⟩, hf, hfs⟩
      obtain ⟨t₁, ht₁⟩ := h.addUnit_accepts hu hold hunit hf
      obtain ⟨t', ht'⟩ := (hrest ht₁).2 ⟨hus', hfs⟩
      exact ⟨t', by rw [Tables.addUnits, ht₁]; exact ht'⟩

end Draft

/-! ## 8. Suites -/

/-- **What is asked of units**: no flow command has the suffix; every unit is made of constructs as the
grammar has them, whose closers are named as their openers and whose jump commands have something to leave;
labels are named, and differ within a unit; functions and scripts are named, and differ in all units. -/
structure Accepted (units : List ScriptUnit) : Prop where
  unsuffixed : ∀ u ∈ units, ∀ c ∈ u.commands, ¬Keyword.Waits c.name
  outlined : ∀ u ∈ units, ∃ t : Outline, t.rows = u.rows ∧ t.Grammatical ∧ t.dividers = [] ∧
    t.NamesFit ∧ t.LeavesInside []
  labels : ∀ u ∈ units, (labelsOf u.rows).Nodup ∧ "" ∉ labelsOf u.rows
  functions : (units.flatMap fun u => functionsOf u.rows).Nodup ∧
    "" ∉ units.flatMap fun u => functionsOf u.rows

/-- **Units compile** if and only if they are written after the grammar. -/
theorem compile_ok_iff (units : List ScriptUnit) :
    (∃ s, Suite.compile units = .ok s) ↔ Accepted units := by
  have hok : (∃ s, Suite.compile units = .ok s) ↔ ∃ t, Tables.addUnits {} 0 units = (t, none) := by
    unfold Suite.compile Tables.ofUnits
    split <;> simp_all
  have hunbound : ∀ n, ¬Draft.HasFunction { tables := {} } n := fun n => by simp [Draft.HasFunction]
  rw [hok, Draft.addUnits_ok_iff (Suite.sound_nil units) (fun i u hi => by simpa using hi)
    fun v n hn => by simp [Draft.HasLabel] at hn]
  constructor
  · rintro ⟨hunits, hf⟩
    refine ⟨fun u hu => (hunits u hu).unsuffixed, fun u hu => ?_, fun u hu => ?_, hf.nodup, hf.named⟩
    · obtain ⟨t, ht, hfits⟩ := shifts_iff_outlined.1 (hunits u hu).shifts
      exact ⟨t, ht, hfits.grammatical, hfits.room, hfits.named, hfits.inside⟩
    · exact ⟨(hunits u hu).labels.nodup, (hunits u hu).labels.named⟩
  · intro h
    refine ⟨fun u hu => ⟨h.unsuffixed u hu, ?_, ?_⟩, h.functions.1, h.functions.2, fun n _ => hunbound n⟩
    · obtain ⟨t, ht, hg, hd, hn, hi⟩ := h.outlined u hu
      exact shifts_iff_outlined.2 ⟨t, ht, hg, hn, hi, hd⟩
    · exact ⟨(h.labels u hu).1, (h.labels u hu).2, fun _ _ => id⟩

end BlockFlow
