/-
# Compiling

What compiling units makes of their constructs.  `Draft.Takes` lists what a flow command does to a draft,
and `Draft.Sound.command` says that every command that compiles keeps the draft sound; so does every unit
(`Draft.Invariant`).
-/
import BlockFlow.Proofs.Drafts

namespace BlockFlow

namespace Draft

variable {units : List ScriptUnit} {d d' : Draft} {here : Address}

/-! ## 1. Blocks of a draft -/

@[simp] theorem blockAt?_define (d : Draft) (b : Block) (a : Address) :
    (d.define b).blockAt? a = if a = b.address then some b else d.blockAt? a := by
  simp [blockAt?, define]

@[simp] theorem blockAt?_link (d : Draft) (l : Address) (f : Block → Block) (a : Address) :
    (d.link l f).blockAt? a = if a = l then (d.blockAt? l).map f else d.blockAt? a := by
  simp [blockAt?, link, Dict.get?_modify]

@[simp] theorem pending_linkAll (d : Draft) (as : List Address) (f : Block → Block) :
    (d.linkAll as f).pending = d.pending := by
  induction as generalizing d with
  | nil => rfl
  | cons a as ih => exact ih (d.link a f)

@[simp] theorem functions_linkAll (d : Draft) (as : List Address) (f : Block → Block) :
    (d.linkAll as f).tables.functions = d.tables.functions := by
  induction as generalizing d with
  | nil => rfl
  | cons a as ih => exact ih (d.link a f)

@[simp] theorem labels_linkAll (d : Draft) (as : List Address) (f : Block → Block) :
    (d.linkAll as f).tables.labels = d.tables.labels := by
  induction as generalizing d with
  | nil => rfl
  | cons a as ih => exact ih (d.link a f)

theorem blockAt?_linkAll {f : Block → Block} (hf : ∀ b, f (f b) = f b) (d : Draft)
    (as : List Address) (a : Address) :
    (d.linkAll as f).blockAt? a = if a ∈ as then (d.blockAt? a).map f else d.blockAt? a := by
  induction as generalizing d with
  | nil => rfl
  | cons l as ih =>
    rw [show d.linkAll (l :: as) f = (d.link l f).linkAll as f from rfl, ih, blockAt?_link]
    by_cases hl : a = l
    · subst hl
      simp [Function.comp_def, hf]
    · simp [hl]

/-- A block is recorded, and an older one learns of it with others. -/
theorem blockAt?_define_linked {b o : Block} {top : Address} {l : List Address} (ho : d.blockAt? top = some o)
    (hne : top ≠ b.address) (hold : ∀ p ∈ l, p ≠ b.address) (f : Block → Block) (a : Address) :
    (if a ∈ top :: l then ((d.define b).blockAt? a).map f else (d.define b).blockAt? a) =
      if a = b.address then some b else if a = top then some (f o)
      else if a ∈ l then (d.blockAt? a).map f else d.blockAt? a := by
  rw [blockAt?_define]
  by_cases ha : a = b.address
  · have hm : a ∉ top :: l := by
      rintro (_ | ⟨_, hp⟩)
      · exact hne ha
      · exact hold a hp ha
    simp [ha, ha ▸ hm]
  · by_cases hat : a = top
    · subst hat
      simp [ha, ho]
    · simp [ha, hat]

theorem block_of_blockAt? {d : Draft} {a : Address} {b : Block} (h : d.blockAt? a = some b) :
    d.block a = b := by
  unfold block
  rw [show d.tables.blocks.get? a = some b from h]
  rfl

theorem innermost_ok {expected : Keyword} {missing : Misuse} {top : Address}
    (h : d.innermost expected missing = .ok top) :
    ∃ rest, d.pending = top :: rest ∧ (d.block top).keyword = expected := by
  unfold innermost at h
  split at h
  · cases h
  · split at h
    · cases h
      exact ⟨_, ‹_›, ‹_›⟩
    · cases h

theorem closeBlock_ok {expected : Keyword} {name : Option String} {top : Address}
    (h : d.closeBlock expected name = .ok (top, d')) :
    ∃ rest, d.pending = top :: rest ∧ (d.block top).keyword = expected ∧
      (name.isSome → (d.block top).name = name) ∧ d' = { d with pending := rest } := by
  unfold closeBlock at h
  split at h
  · cases h
  · split at h
    · cases h
    · split at h
      · cases h
      · rename_i hname
        cases h
        exact ⟨_, ‹_›, not_not.1 ‹_›, fun hn => not_not.1 fun hne => hname ⟨hn, hne⟩, rfl⟩

theorem enclosing?_eq_some {n : Nature} {top : Address} (h : d.enclosing? n = some top) :
    top ∈ d.pending ∧ (d.block top).nature? = some n :=
  ⟨List.mem_of_find?_eq_some h, by simpa using List.find?_some h⟩

/-! ## 2. What a flow command does to a draft -/

/-- The name that an opener gives its construct. -/
def givenName? (k : Keyword) (target : String) : Option String :=
  match k with
  | .tryBlock => nonEmpty? target
  | .function | .script => some target
  | _ => none

/-- The name that a closer asks its opener for. -/
def askedName? (k : Keyword) (target : String) : Option String :=
  match k with
  | .endTry | .endFunction | .endScript => nonEmpty? target
  | _ => none

/-- **What a flow command does to a draft** that has come to it: a label is noted, a jump or a load is
passed over, and a command of the block map is recorded, by itself or as a part of the innermost pending
construct. -/
inductive Takes (d : Draft) (here : Address) : Keyword → String → Draft → Prop
  | label {target : String} (named : target ≠ "")
      (fresh : d.tables.labels.get? (.ofText target here.unit) = none) :
      Takes d here .label target
        { d with tables.labels := d.tables.labels.insert (.ofText target here.unit) here }
  | pass {k : Keyword} {target : String} (unlinked : k.isLinked = false) (other : k ≠ .label) :
      Takes d here k target d
  | record {k : Keyword} {target : String} {o : Option Address} {d' : Draft} (linked : k.isLinked)
      (part : k.partOf? = none) (leaves : o = k.leaves?.bind d.enclosing?)
      (found : k.leaves?.isSome → o.isSome)
      (named : k.opens? = some .function → target ≠ "" ∧ d.tables.functions.get? target = none)
      (blocks : ∀ a, d'.blockAt? a = if a = here then
        some { address := here, keyword := k, name := givenName? k target, opener := o } else d.blockAt? a)
      (pending : d'.pending = if k.opens?.isSome then here :: d.pending else d.pending)
      (functions : d'.tables.functions = if k.opens? = some .function then
        d.tables.functions.insert target here else d.tables.functions)
      (labels : d'.tables.labels = d.tables.labels) : Takes d here k target d'
  | attach {k : Keyword} {target : String} {top : Address} {rest : List Address} {o : Block} {d' : Draft}
      (part : k.partOf? = some o.keyword) (innermost : d.pending = top :: rest)
      (block : d.blockAt? top = some o)
      (admitted : o.Admits k) (asked : (askedName? k target).isSome → o.name = askedName? k target)
      (blocks : ∀ a, d'.blockAt? a = d.attached? here k top o a)
      (pending : d'.pending = if k.closes?.isSome then rest else d.pending)
      (functions : d'.tables.functions = d.tables.functions)
      (labels : d'.tables.labels = d.tables.labels) : Takes d here k target d'

/-- **What a flow command does** keeps the draft sound. -/
theorem Takes.sound {k : Keyword} {target : String} (t : d.Takes here k target d')
    (h : d.Sound units here) (hk : keywordAt? units here = some k) : d'.Sound units here.next := by
  have hskip (hn : k.isLinked = false) : ∀ l, keywordAt? units here = some l → l.isLinked = false := by
    intro l hl
    cases hk.symm.trans hl
    exact hn
  cases t with
  | label => exact h.pass (hskip rfl) (fun _ => rfl) rfl rfl
  | pass unlinked => exact h.pass (hskip unlinked) (fun _ => rfl) rfl rfl
  | record linked part leaves found named blocks pending functions labels =>
    refine Records.sound ⟨linked, part, fun a ha => ?_, fun hn hcall => found ?_, blocks, pending,
      fun n a ha => ?_⟩ h hk
    · rw [leaves] at ha
      obtain ⟨n, hn, henc⟩ := Option.bind_eq_some_iff.1 ha
      obtain ⟨hmem, hnat⟩ := enclosing?_eq_some henc
      obtain ⟨-, b, hb, -⟩ := h.pending hmem
      rw [block_of_blockAt? hb] at hnat
      exact ⟨hmem, b, hb, hn.trans hnat.symm⟩
    · exact Keyword.leaves?_isSome linked part hn hcall
    · rw [functions] at ha
      split at ha
      · rw [Dict.get?_insert] at ha
        split at ha
        · exact .inr ⟨(Option.some.inj ha).symm, ‹_›⟩
        · exact .inl ha
      · exact .inl ha
  | attach part innermost block admitted asked blocks pending functions labels =>
    exact Attaches.sound ⟨part, innermost, block, admitted, blocks, pending, functions⟩ h hk

/-! ## 3. Every command is taken -/

/-- Recording a part, with the blocks that are linked to it. -/
theorem Takes.attachAll {k : Keyword} {target : String} {top : Address} {rest : List Address}
    {o : Block} {l : List Address} {f : Block → Block} (hpart : k.partOf? = some o.keyword)
    (htop : d.pending = top :: rest) (ho : d.blockAt? top = some o) (hadmitted : o.Admits k)
    (hasked : (askedName? k target).isSome → o.name = askedName? k target)
    (hfo : f o = o.attach k here)
    (hfollow : ∀ {p c}, d.blockAt? p = some c →
      (if p ∈ l then f c else c) = if c.opener = some top then c.follow (o.attach k here) else c)
    (hget : ∀ a, d'.blockAt? a =
      if a = here then some { address := here, keyword := k, opener := some top }
      else if a = top then some (f o)
      else if a ∈ l then (d.blockAt? a).map f else d.blockAt? a)
    (hpending : d'.pending = if k.closes?.isSome then rest else d.pending)
    (hfunctions : d'.tables.functions = d.tables.functions)
    (hlabels : d'.tables.labels = d.tables.labels) : d.Takes here k target d' := by
  refine .attach hpart htop ho hadmitted hasked (fun a => ?_) hpending hfunctions hlabels
  rw [hget, hfo, attached?]
  cases hc : d.blockAt? a with
  | none => simp
  | some c => simp only [Option.map_some, ← hfollow hc, apply_ite some]

/-- A part of an opener, and its block. -/
theorem Sound.keyword_of_mem (h : d.Sound units here) {a p : Address} {b c : Block} {k : Keyword}
    (hb : d.blockAt? a = some b) (hn : b.nature?.isSome) (hp : p ∈ b.partsOf k)
    (hc : d.blockAt? p = some c) : c.keyword = k ∧ c.opener = some a := by
  obtain ⟨c', hc', hk, ho⟩ := h.part hb hn hp
  cases hc.symm.trans hc'
  exact ⟨hk, ho⟩

/-- The parts of an opener lie before the address the draft has come to. -/
theorem Sound.part_ne_here (h : d.Sound units here) {a p : Address} {b : Block} {k : Keyword}
    (hb : d.blockAt? a = some b) (hn : b.nature?.isSome) (hp : p ∈ b.partsOf k) : p ≠ here := by
  obtain ⟨c, hc, -⟩ := h.part hb hn hp
  exact (h.placed hc).2.ne

/-- Who belongs to a construct as a part is among its parts. -/
theorem Sound.mem_partsOf (h : d.Sound units here) {a p : Address} {b c : Block}
    (hb : d.blockAt? a = some b) (hc : d.blockAt? p = some c) (ha : c.opener = some a)
    (hpart : c.keyword.partOf?.isSome) :
    c.keyword.partOf? = some b.keyword ∧ p ∈ b.partsOf c.keyword := by
  obtain ⟨b', hb', -, -, -, hrole | ⟨hnone, -⟩⟩ := h.owner hc ha
  · cases hb.symm.trans hb'
    exact hrole
  · rw [hnone] at hpart
    cases hpart

/-- A branch or a section that only its opener learns of. -/
theorem Sound.branch (h : d.Sound units here) {k : Keyword} {target : String} {top : Address}
    {rest : List Address} {o : Block} (hpart : k.partOf? = some o.keyword)
    (hbranch : k = .elseIf ∨ k = .otherwise ∨ k = .catchError)
    (htop : d.pending = top :: rest) (ho : d.blockAt? top = some o) (hadmitted : o.Admits k) :
    d.Takes here k target ((d.define { address := here, keyword := k, opener := some top }).link top
      fun b => b.attach k here) := by
  have hclosed : k.closes? = none := by rcases hbranch with rfl | rfl | rfl <;> rfl
  have hne : top ≠ here := (h.placed ho).2.ne
  refine .attachAll (l := []) (f := fun b => b.attach k here) hpart htop ho hadmitted ?_ rfl ?_
    (fun a => ?_) ?_ rfl rfl
  · rcases hbranch with rfl | rfl | rfl <;> nofun
  · intro p c hc
    rw [if_neg (List.not_mem_nil)]
    split
    · rename_i hco
      rw [← Block.follow_congr (o := o)]
      · exact (h.follows hc hco ho).symm
      · rw [Block.closer_attach _ _ _ (by rw [hpart]; rfl), hclosed]
        rfl
      · rw [Block.finallyAt_attach, if_neg (by rcases hbranch with rfl | rfl | rfl <;> decide)]
        exact fun _ => rfl
    · rfl
  · by_cases ha : a = top
    · subst ha
      simp [hne, ho]
    · simp [ha]
  · rw [hclosed]
    rfl

/-- The cleanup section of a try, of which the handler learns too. -/
theorem Sound.cleanup (h : d.Sound units here) {target : String} {top : Address} {rest : List Address}
    {o : Block} (htry : o.keyword = .tryBlock) (htop : d.pending = top :: rest)
    (ho : d.blockAt? top = some o) (hempty : o.finallyAt = none) :
    d.Takes here .finallyDo target
      ((d.define { address := here, keyword := .finallyDo, opener := some top }).linkAll
        (top :: o.catchAt.toList) fun b => { b with finallyAt := some here }) := by
  have hne : top ≠ here := (h.placed ho).2.ne
  have hn : o.nature?.isSome := by rw [Block.nature?, htry]; rfl
  have hcatch {p} (hp : p ∈ o.catchAt.toList) : p ∈ o.partsOf .catchError := hp
  refine .attachAll (l := o.catchAt.toList) (f := fun b => { b with finallyAt := some here })
    (by rw [htry]; rfl) htop ho hempty (fun hasked => by cases hasked) rfl ?_ (fun a => ?_)
    (by simp [Keyword.closes?, define]) (by simp [define]) (by simp [define])
  · intro p c hc
    split
    · obtain ⟨hck, hco⟩ := h.keyword_of_mem ho hn (hcatch ‹_›) hc
      have := h.follows hc hco ho
      rw [if_pos hco]
      simp only [Block.follow, hck] at this ⊢
      rw [← this]
      rfl
    · rename_i hmem
      split
      · rename_i hco
        refine (h.follows hc hco ho).symm.trans (Block.follow_congr rfl fun hck => ?_)
        refine absurd ?_ hmem
        have := (h.mem_partsOf ho hc hco (by rw [hck]; rfl)).2
        rwa [hck] at this
      · rfl
  · rw [blockAt?_linkAll (f := fun b => { b with finallyAt := some here }) fun _ => rfl]
    exact blockAt?_define_linked ho hne (fun _ hp => h.part_ne_here ho hn (hcatch hp)) _ a

/-- The closer of a construct, of which its branches or sections learn too. -/
theorem Sound.close (h : d.Sound units here) {k : Keyword} {target : String} {top : Address}
    {rest l : List Address} {o : Block} (hcloses : k.closes? = some o.keyword)
    (htop : d.pending = top :: rest) (ho : d.blockAt? top = some o)
    (hasked : (askedName? k target).isSome → o.name = askedName? k target)
    (hsub : ∀ p ∈ l, ∃ j : Keyword, j.partOf?.isSome ∧ j.closes? = none ∧ p ∈ o.partsOf j)
    (hall : ∀ j p, j.partOf? = some o.keyword → j.closes? = none → p ∈ o.partsOf j → p ∈ l)
    (hget : ∀ a, d'.blockAt? a =
      let b? := (d.define { address := here, keyword := k, opener := some top }).blockAt? a
      if a ∈ top :: l then b?.map fun b => { b with closer := some here } else b?)
    (hpending : d'.pending = rest) (hfunctions : d'.tables.functions = d.tables.functions)
    (hlabels : d'.tables.labels = d.tables.labels) : d.Takes here k target d' := by
  obtain ⟨-, o', ho', hn, -⟩ := h.pending (htop ▸ List.mem_cons_self)
  cases ho.symm.trans ho'
  have hpart : k.partOf? = some o.keyword := Keyword.partOf?_of_closes? hcloses
  have hattach : ({ o with closer := some here } : Block) = o.attach k here := by
    cases k <;> first | rfl | cases hcloses
  have hne : top ≠ here := (h.placed ho).2.ne
  have hold {p} (hp : p ∈ l) : p ≠ here := by
    obtain ⟨j, -, -, hj⟩ := hsub p hp
    exact h.part_ne_here ho hn hj
  refine .attachAll (l := l) (f := fun b => { b with closer := some here }) hpart htop ho
    (Block.admits_of_closes? hcloses) hasked hattach ?_ (fun a => ?_) (by rw [hpending, hcloses]; rfl)
    hfunctions hlabels
  · intro p c hc
    rw [← hattach]
    split
    · obtain ⟨j, hjp, hj, hp⟩ := hsub p ‹_›
      obtain ⟨rfl, hco⟩ := h.keyword_of_mem ho hn hp hc
      rw [if_pos hco, Block.follow_closer hjp hj (h.follows hc hco ho)]
    · rename_i hmem
      split
      · rename_i hco
        refine (Block.follow_of_closes? ?_).symm
        cases hpc : c.keyword.partOf? with
        | none => exact .inl rfl
        | some q =>
          obtain ⟨hpo, hp⟩ := h.mem_partsOf ho hc hco (by rw [hpc]; rfl)
          refine .inr (Option.isSome_iff_ne_none.2 fun hl => ?_)
          exact hmem (hall _ p hpo hl hp)
      · rfl
  · rw [hget]
    exact blockAt?_define_linked ho hne (fun _ => hold) _ a

/-- What goes on after a check goes on because the check holds. -/
theorem ok_of_unless {α : Type} {c : Prop} [Decidable c] {m : Misuse} {f : Unit → Except Misuse α} {r : α}
    (h : (if c then (throw m : Except Misuse Unit) >>= f else f ()) = .ok r) : ¬c ∧ f () = .ok r := by
  split at h
  · cases h
  · exact ⟨‹_›, h⟩

/-- What goes on with the innermost pending construct goes on with the one whose block is there. -/
theorem Sound.innermost (h : d.Sound units here) {expected : Keyword} {missing : Misuse}
    {f : Address → Except Misuse Draft} (hd' : d.innermost expected missing >>= f = .ok d') :
    ∃ top rest, d.pending = top :: rest ∧ d.blockAt? top = some (d.block top) ∧ (d.block top).keyword = expected ∧
      f top = .ok d' := by
  cases ht : d.innermost expected missing with
  | error e =>
    rw [ht] at hd'
    cases hd'
  | ok top =>
    rw [ht] at hd'
    obtain ⟨rest, hp, hk⟩ := innermost_ok ht
    obtain ⟨-, o, ho, -⟩ := h.pending (hp ▸ List.mem_cons_self)
    exact ⟨top, rest, hp, by rw [block_of_blockAt? ho, ho], hk, hd'⟩

theorem takes_openBlock {k : Keyword} {target : String} (ho : k.opens?.isSome)
    (hn : k.opens? ≠ some .function) :
    d.Takes here k target (d.openBlock here k (givenName? k target)) := by
  have hlinked : k.isLinked := by cases k <;> first | rfl | cases ho
  have hpart : k.partOf? = none := by cases k <;> first | rfl | cases ho
  have hleaves : k.leaves? = none := by cases k <;> first | rfl | cases ho
  refine .record (o := none) hlinked hpart (by rw [hleaves]; rfl) (by rw [hleaves]; nofun)
    (fun h => absurd h hn) (fun a => ?_) (by rw [if_pos ho]; rfl) (by rw [if_neg hn]; rfl) rfl
  rw [Draft.openBlock]
  exact blockAt?_define d _ a

theorem Sound.closeWith (h : d.Sound units here) {k expected : Keyword} {target : String}
    (hcloses : k.closes? = some expected) (hif : expected ≠ .ifThen) (htry : expected ≠ .tryBlock)
    (hd' : d.closeWith here k expected (askedName? k target) = .ok d') : d.Takes here k target d' := by
  unfold Draft.closeWith at hd'
  cases hcl : d.closeBlock expected (askedName? k target) with
  | error e =>
    rw [hcl] at hd'
    cases hd'
  | ok r =>
    obtain ⟨top, d₁⟩ := r
    rw [hcl] at hd'
    cases hd'
    obtain ⟨rest, htop, hkey, hname, rfl⟩ := closeBlock_ok hcl
    obtain ⟨-, o, ho, -⟩ := h.pending (htop ▸ List.mem_cons_self)
    rw [block_of_blockAt? ho] at hkey hname
    have hne : top ≠ here := (h.placed ho).2.ne
    refine h.close (l := []) (hkey ▸ hcloses) htop ho hname (by simp) ?_ (fun a => ?_) rfl rfl rfl
    · intro j p hj hn
      have := Keyword.closes?_of_partOf? (hkey ▸ hj) hif htry
      rw [hn] at this
      cases this
    · by_cases hat : a = top
      · subst hat
        simp [blockAt?, define, link, Dict.get?_modify, hne]
      · simp [blockAt?, define, link, Dict.get?_modify, hat]

/-- Closing a construct whose branches or sections have one of two keywords. -/
theorem Sound.closeParts (h : d.Sound units here) {k expected i j : Keyword} {target : String}
    (hcloses : k.closes? = some expected)
    (hparts : ∀ l : Keyword, l.partOf? = some expected ∧ l.closes? = none ↔ l = i ∨ l = j)
    (hd' : (do
      let (top, d) ← d.closeBlock expected (askedName? k target)
      let d := d.define { address := here, keyword := k, opener := some top }
      let parts := (d.block top).partsOf i ++ (d.block top).partsOf j
      return d.linkAll (top :: parts) fun b => { b with closer := some here } : Except Misuse Draft) = .ok d') :
    d.Takes here k target d' := by
  cases hcl : d.closeBlock expected (askedName? k target) with
  | error e =>
    rw [hcl] at hd'
    cases hd'
  | ok r =>
    obtain ⟨top, d₁⟩ := r
    obtain ⟨rest, htop, hkey, hname, rfl⟩ := closeBlock_ok hcl
    obtain ⟨-, o, ho, -⟩ := h.pending (htop ▸ List.mem_cons_self)
    rw [block_of_blockAt? ho] at hkey hname
    have ho' : (({ d with pending := rest } : Draft).define
        { address := here, keyword := k, opener := some top }).blockAt? top = some o := by
      rw [blockAt?_define, if_neg (h.placed ho).2.ne]
      exact ho
    simp only [hcl, bind, Except.bind, pure, Except.pure, block_of_blockAt? ho'] at hd'
    cases hd'
    refine h.close (l := o.partsOf i ++ o.partsOf j) (hkey ▸ hcloses) htop ho hname ?_ ?_ (fun a => ?_)
      (by simp [define]) (by simp [define]) (by simp [define])
    · intro p hp
      rcases List.mem_append.1 hp with hp | hp
      · obtain ⟨hpart, hnone⟩ := (hparts i).2 (.inl rfl)
        exact ⟨i, by rw [hpart]; rfl, hnone, hp⟩
      · obtain ⟨hpart, hnone⟩ := (hparts j).2 (.inr rfl)
        exact ⟨j, by rw [hpart]; rfl, hnone, hp⟩
    · intro l p hl hlc hp
      rcases (hparts l).1 ⟨hkey ▸ hl, hlc⟩ with rfl | rfl
      · exact List.mem_append_left _ hp
      · exact List.mem_append_right _ hp
    · exact blockAt?_linkAll (f := fun b => { b with closer := some here }) (fun _ => rfl) _ _ a

/-- **Every flow command** that a sound draft accepts is taken. -/
theorem Sound.takes (h : d.Sound units here) {k : Keyword} {target : String}
    (hd' : d.flow here k target = .ok d') : d.Takes here k target d' := by
  cases k
  case label =>
    dsimp only [Draft.flow] at hd'
    obtain ⟨hnamed, hd'⟩ := ok_of_unless hd'
    obtain ⟨hfresh, hd'⟩ := ok_of_unless hd'
    cases hd'
    exact .label (by simpa using hnamed) (by simpa [Dict.contains] using hfresh)
  case goto | gotoIf | skipNext | «throwError» | exitTest | loadJsonVars | loadXmlVars =>
    cases hd'
    exact .pass rfl (by decide)
  case ifThen | tryBlock | whileLoop | forLoop | foreach | forJson | forXml =>
    cases hd'
    exact takes_openBlock rfl (by decide)
  case function | script =>
    dsimp only [Draft.flow] at hd'
    obtain ⟨hnamed, hd'⟩ := ok_of_unless hd'
    split at hd'
    · cases hd'
    rename_i hfresh
    cases hd'
    exact .record (o := none) rfl rfl rfl (fun h => by cases h)
      (fun _ => ⟨by simpa using hnamed, Option.eq_none_iff_forall_ne_some.2 hfresh⟩)
      (fun a => blockAt?_define d _ a) rfl rfl rfl
  case call =>
    cases hd'
    exact .record (o := none) rfl rfl rfl (fun h => by cases h) (fun h => by cases h)
      (fun a => blockAt?_define d _ a) rfl rfl rfl
  case breakLoop | continueLoop | returnValue =>
    dsimp only [Draft.flow] at hd'
    split at hd'
    · rename_i top htop
      cases hd'
      exact .record (o := some top) rfl rfl htop.symm (fun _ => rfl) (fun h => by cases h)
        (fun a => blockAt?_define d _ a) rfl rfl rfl
    · cases hd'
  case endWhile | endFor | endForeach | endForJson | endForXml | endFunction | endScript =>
    exact h.closeWith rfl (by decide) (by decide) hd'
  case elseIf =>
    obtain ⟨top, rest, hp, ho, hkey, hd'⟩ := h.innermost hd'
    dsimp only at hd'
    split at hd'
    · cases hd'
    rename_i helse
    cases hd'
    exact h.branch (by rw [hkey]; rfl) (.inl rfl) hp ho (Option.eq_none_iff_forall_ne_some.2 helse)
  case otherwise =>
    obtain ⟨top, rest, hp, ho, hkey, hd'⟩ := h.innermost hd'
    obtain ⟨helse, hd'⟩ := ok_of_unless hd'
    cases hd'
    exact h.branch (by rw [hkey]; rfl) (.inr (.inl rfl)) hp ho (by simpa [Block.Admits] using helse)
  case catchError =>
    obtain ⟨top, rest, hp, ho, hkey, hd'⟩ := h.innermost hd'
    obtain ⟨hcatch, hd'⟩ := ok_of_unless hd'
    dsimp only at hd'
    split at hd'
    · cases hd'
    rename_i hfinally
    cases hd'
    exact h.branch (by rw [hkey]; rfl) (.inr (.inr rfl)) hp ho
      ⟨by simpa using hcatch, Option.eq_none_iff_forall_ne_some.2 hfinally⟩
  case finallyDo =>
    obtain ⟨top, rest, hp, ho, hkey, hd'⟩ := h.innermost hd'
    obtain ⟨hfinally, hd'⟩ := ok_of_unless hd'
    cases hd'
    have hblock : (d.define { address := here, keyword := .finallyDo, opener := some top }).block top
        = d.block top := block_of_blockAt? (by rw [blockAt?_define, if_neg (h.placed ho).2.ne, ho])
    rw [hblock]
    exact h.cleanup hkey hp ho (by simpa using hfinally)
  case endIf =>
    exact h.closeParts (i := .elseIf) (j := .otherwise) rfl (fun l => by cases l <;> decide) hd'
  case endTry =>
    exact h.closeParts (i := .catchError) (j := .finallyDo) rfl (fun l => by cases l <;> decide) hd'

/-- A command that a draft accepts is no flow command, or one that the draft accepts. -/
theorem command_ok {c : Command} (hd' : d.command here c = .ok d') :
    Keyword.ofName? c.name = none ∧ d' = d ∨
      ∃ k, Keyword.ofName? c.name = some (k, false) ∧ d.flow here k (Text.trim c.target) = .ok d' := by
  unfold Draft.command at hd'
  split at hd'
  · cases hd'
    exact .inl ⟨‹_›, rfl⟩
  · cases hd'
  · rename_i k hk
    cases hf : d.flow here k (Text.trim c.target) with
    | error e =>
      rw [hf] at hd'
      cases hd'
    | ok d₁ =>
      rw [hf] at hd'
      cases hd'
      exact .inr ⟨k, hk, hf⟩

/-- **Any command** keeps the draft sound. -/
theorem Sound.command (h : d.Sound units here) {c : Command} (hc : commandAt? units here = some c)
    (hd' : d.command here c = .ok d') : d'.Sound units here.next := by
  rcases command_ok hd' with ⟨hk, rfl⟩ | ⟨k, hk, hf⟩
  · refine h.pass (fun l hl => ?_) (fun _ => rfl) rfl rfl
    rw [keywordAt?, hc, Option.bind_some, hk] at hl
    cases hl
  · refine (h.takes hf).sound h ?_
    rw [keywordAt?, hc, Option.bind_some, hk]

/-- Between two units nothing is pending. -/
theorem Sound.nextUnit (h : d.Sound units here) (hp : d.pending = [])
    (hu : ∀ a, here ≤ a → a.unit = here.unit → commandAt? units a = none) :
    Sound units { tables := d.tables } ⟨here.unit + 1, 0⟩ where
  placed hb := ⟨(h.placed hb).1, (h.placed hb).2.trans (.inl (Nat.lt_succ_self _))⟩
  genuine := h.genuine
  recorded {a k} ha hk hl := by
    refine h.recorded (lt_of_not_ge fun hle => ?_) hk hl
    have hunit : a.unit = here.unit := by
      simp only [Address.lt_iff, Address.le_iff] at ha hle
      omega
    rw [keywordAt?, hu a hle hunit] at hk
    cases hk
  pending := nofun
  decreasing := .nil
  unclosed hb hn hc := absurd (h.unclosed hb hn hc) (by simp [hp])
  part := h.part
  owner := h.owner
  owned := h.owned
  last := h.last
  sections := h.sections
  inner := h.inner
  follows := h.follows
  function := h.function

/-! ## 4. Whole units -/

/-- The commands from an address on are those of a list, as far as the list goes. -/
def Listed (units : List ScriptUnit) (here : Address) (cs : List Command) : Prop :=
  ∀ i c, cs[i]? = some c → commandAt? units ⟨here.unit, here.position + i⟩ = some c

theorem Listed.head {c : Command} {cs : List Command} (h : Listed units here (c :: cs)) :
    commandAt? units here = some c := h 0 c rfl

theorem Listed.tail {c : Command} {cs : List Command} (h : Listed units here (c :: cs)) :
    Listed units here.next cs := by
  intro i c' hi
  have := h (i + 1) c' hi
  rwa [Nat.add_comm i, ← Nat.add_assoc] at this

theorem listed_commands {index : Nat} {u : ScriptUnit} (hu : units[index]? = some u) :
    Listed units ⟨index, 0⟩ u.commands := by
  intro i c hi
  simpa [commandAt?, hu] using hi

/-- **What compiling keeps**: every command keeps it, and so does going on to the next unit. -/
structure Invariant (units : List ScriptUnit) (P : Draft → Address → Prop) : Prop where
  command {d d' : Draft} {here : Address} {c : Command} : commandAt? units here = some c → P d here →
    d.command here c = .ok d' → P d' here.next
  nextUnit {d : Draft} {here : Address} : P d here → d.pending = [] →
    (∀ a, here ≤ a → a.unit = here.unit → commandAt? units a = none) →
    P { tables := d.tables } ⟨here.unit + 1, 0⟩

theorem invariant_sound (units : List ScriptUnit) : Invariant units (Sound units) :=
  ⟨fun hc h => h.command hc, Sound.nextUnit⟩

namespace Invariant

variable {P : Draft → Address → Prop} (hP : Invariant units P)

include hP

/-- A unit's commands from a position on. -/
theorem commands : ∀ {cs : List Command} {d d' : Draft} {here : Address}, P d here →
    Listed units here cs → Draft.commands d here cs = (d', none) →
    P d' ⟨here.unit, here.position + cs.length⟩
  | [], d, d', here, h, _, hd' => by
    cases hd'
    exact h
  | c :: cs, d, d', here, h, hcs, hd' => by
    unfold Draft.commands at hd'
    split at hd'
    · rename_i d₁ hc
      have := commands (hP.command hcs.head h hc) hcs.tail hd'
      rw [List.length_cons, Nat.add_comm cs.length, ← Nat.add_assoc]
      exact this
    · cases hd'

/-- A unit that compiles. -/
theorem addUnit {t t' : Tables} {index : Nat} {u : ScriptUnit} (h : P { tables := t } ⟨index, 0⟩)
    (hu : units[index]? = some u) (ht : t.addUnit index u = (t', none)) :
    P { tables := t' } ⟨index + 1, 0⟩ := by
  unfold Tables.addUnit at ht
  split at ht
  · cases ht
  rename_i d hd
  have hcs (i : Nat) : commandAt? units ⟨index, i⟩ = u.commands[i]? := by
    simp [commandAt?, hu]
  split at ht
  · rename_i hp
    cases ht
    have := hP.commands h (listed_commands hu) hd
    refine hP.nextUnit this (List.isEmpty_iff.1 hp) fun a ha hua => ?_
    obtain ⟨unit, position⟩ := a
    cases hua
    rw [hcs, List.getElem?_eq_none]
    simpa [Address.le_iff] using ha
  · cases ht

/-- The units from an index on. -/
theorem addUnits : ∀ {us : List ScriptUnit} {t t' : Tables} {index : Nat}, P { tables := t } ⟨index, 0⟩ →
    (∀ i u, us[i]? = some u → units[index + i]? = some u) → t.addUnits index us = (t', none) →
    P { tables := t' } ⟨index + us.length, 0⟩
  | [], t, t', index, h, _, ht => by
    cases ht
    exact h
  | u :: us, t, t', index, h, hus, ht => by
    unfold Tables.addUnits at ht
    split at ht
    · rename_i t₁ hu
      have := addUnits (hP.addUnit h (hus 0 u rfl) hu) (fun i u hi => ?_) ht
      · rwa [List.length_cons, Nat.add_comm us.length, ← Nat.add_assoc]
      · have := hus (i + 1) u hi
        rwa [Nat.add_comm i, ← Nat.add_assoc] at this
    · cases ht

/-- **Units that compile** leave the tables as every command and every unit keeps them. -/
theorem compile {s : Suite} (h : Suite.compile units = .ok s) (hnil : P {} ⟨0, 0⟩) :
    s.units = units ∧ P { tables := s.tables } ⟨units.length, 0⟩ := by
  unfold Suite.compile at h
  split at h
  · rename_i t ht
    cases h
    have := hP.addUnits hnil (fun i u hi => by simpa using hi) ht
    exact ⟨rfl, by simpa using this⟩
  · cases h

end Invariant

end Draft

end BlockFlow
