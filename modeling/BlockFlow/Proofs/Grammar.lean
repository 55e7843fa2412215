/-
# The grammar of constructs

Which sequences of flow commands are made of whole constructs: `Outline` is the tree of a sequence, and
`Outline.rows` gives the sequence back.  A tree is of the grammar (`Grammatical`) if every construct has a
closer of its kind, and branches or sections that it can have; `NamesFit` and `LeavesInside` are what else
a tree has to keep.

Beside the trees there is the recogniser, which reads a sequence from left to right: `Shift` is what one
flow command does to the openings that are not closed yet.  It comes from nothing to nothing on the
sequences of the grammar, and on no others: `shifts_iff_outlined`.
-/
import BlockFlow.Proofs.Compiling

namespace BlockFlow

/-! ## 1. Rows -/

/-- A flow command, as far as the grammar goes. -/
structure Row where
  keyword : Keyword
  /-- The target, trimmed. -/
  target : String
  deriving Repr, DecidableEq

/-- The row of a command that is a flow command. -/
def Command.row? (c : Command) : Option Row :=
  (Keyword.named? c.name).map fun k => ⟨k, Text.trim c.target⟩

/-- The flow commands of a unit. -/
def ScriptUnit.rows (u : ScriptUnit) : List Row := u.commands.filterMap Command.row?

/-- The branches or the sections that a construct can have, in order. -/
def Keyword.Admits (opener : Keyword) (dividers : List Keyword) : Prop :=
  match opener with
  | .ifThen => (dividers.dropWhile (· == .elseIf)).Sublist [.otherwise]
  | .tryBlock => dividers.Sublist [.catchError, .finallyDo]
  | _ => dividers = []

/-- Whether a keyword divides a construct into branches or sections. -/
def Keyword.isDivider : Keyword → Bool
  | .elseIf | .otherwise | .catchError | .finallyDo => true
  | _ => false

/-- A closer's name, if it has one, is that of the opener. -/
def Row.FitsName (closer opener : Row) : Prop :=
  closer.keyword ∈ [Keyword.endTry, .endFunction, .endScript] → closer.target ≠ "" →
    closer.target = opener.target

/-! ## 2. Outlines -/

/-- How a sequence of flow commands is made of constructs and single commands. -/
inductive Outline
  | nil
  | row (r : Row) (rest : Outline)
  | construct (opener : Row) (inside : Outline) (closer : Row) (rest : Outline)

namespace Outline

/-- The flow commands in order. -/
def rows : Outline → List Row
  | nil => []
  | row r rest => r :: rest.rows
  | construct opener inside closer rest => opener :: (inside.rows ++ closer :: rest.rows)

/-- The branches or the sections that belong to the construct around the tree. -/
def dividers : Outline → List Keyword
  | nil => []
  | row r rest => if r.keyword.isDivider then r.keyword :: rest.dividers else rest.dividers
  | construct _ _ _ rest => rest.dividers

/-- **The grammar**: a construct goes from an opener to a closer of its kind, and has the branches or the
sections that it can have.  Bodies hold constructs and other commands in any number. -/
def Grammatical : Outline → Prop
  | nil => True
  | row r rest => r.keyword.opens? = none ∧ r.keyword.closes? = none ∧ rest.Grammatical
  | construct opener inside closer rest => closer.keyword.closes? = some opener.keyword ∧
    opener.keyword.Admits inside.dividers ∧ inside.Grammatical ∧ rest.Grammatical

/-- Closers are named as their openers. -/
def NamesFit : Outline → Prop
  | nil => True
  | row _ rest => rest.NamesFit
  | construct opener inside closer rest => closer.FitsName opener ∧ inside.NamesFit ∧ rest.NamesFit

/-- Jump commands are inside a construct that they can leave, if there are constructs of some natures
around the tree. -/
def LeavesInside (around : List Nature) : Outline → Prop
  | nil => True
  | row r rest => (∀ n, r.keyword.leaves? = some n → n ∈ around) ∧ rest.LeavesInside around
  | construct opener inside _ rest =>
    inside.LeavesInside (opener.keyword.opens?.toList ++ around) ∧ rest.LeavesInside around

end Outline

/-! ## 3. Keywords -/

namespace Keyword

/-- **What a keyword does** to constructs: it opens one, closes one, divides one, or does none of these. -/
theorem role_cases (k : Keyword) :
    (k.opens?.isSome ∧ k.partOf? = none ∧ k.closes? = none ∧ k.isDivider = false ∧ k.leaves? = none) ∨
    (k.opens? = none ∧ k.partOf? = k.closes? ∧ k.closes?.isSome ∧ k.isDivider = false ∧ k.leaves? = none) ∨
    (k.opens? = none ∧ k.partOf?.isSome ∧ k.closes? = none ∧ k.isDivider ∧ k.leaves? = none) ∨
    (k.opens? = none ∧ k.partOf? = none ∧ k.closes? = none ∧ k.isDivider = false) := by
  cases k <;> decide

theorem admits_nil (k : Keyword) : k.Admits [] := by
  cases k <;> simp [Admits]

/-- What a construct can have, it can have as far as it goes. -/
theorem Admits.prefix {k : Keyword} {ds es : List Keyword} (h : k.Admits (ds ++ es)) : k.Admits ds := by
  unfold Admits at *
  split <;> simp only at h
  · rw [List.dropWhile_append] at h
    split at h
    · rename_i hd
      rw [List.isEmpty_iff.1 hd]
      exact List.nil_sublist _
    · exact (List.sublist_append_left _ _).trans h
  · exact (List.sublist_append_left _ _).trans h
  · exact (List.append_eq_nil_iff.1 h).1

/-- Only what divides a construct is among its branches or sections. -/
theorem Admits.partOf? {o k : Keyword} {ds : List Keyword} (h : o.Admits (ds ++ [k]))
    (hk : k.isDivider) : k.partOf? = some o := by
  have := h
  unfold Admits at this
  split at this
  · have hmem : k = .elseIf ∨ k ∈ (ds ++ [k]).dropWhile (· == .elseIf) := by
      rw [List.dropWhile_append]
      split
      · cases hk : k == .elseIf
        · exact .inr (by simp [List.dropWhile, hk])
        · exact .inl (by simpa using hk)
      · exact .inr (List.mem_append_right _ (List.mem_singleton_self k))
    rcases hmem with rfl | hmem
    · rfl
    · cases List.mem_singleton.1 (this.subset hmem)
      rfl
  · have hmem := this.subset (List.mem_append_right ds (List.mem_singleton_self k))
    simp only [List.mem_cons, List.not_mem_nil, or_false] at hmem
    rcases hmem with rfl | rfl <;> rfl
  · simp at this

end Keyword

/-! ## 4. The recogniser -/

/-- An opener that is not closed yet, with its name, and the branches or the sections read so far. -/
structure Opening where
  keyword : Keyword
  name : Option String
  dividers : List Keyword := []
  deriving Repr, DecidableEq

/-- The opening of an opener. -/
def Row.opening (r : Row) : Opening where
  keyword := r.keyword
  name := Draft.givenName? r.keyword r.target

/-- More branches or sections. -/
def Opening.divide (o : Opening) (ks : List Keyword) : Opening :=
  { o with dividers := o.dividers ++ ks }

/-- The natures of the constructs that are not closed yet. -/
def natures (st : List Opening) : List Nature := st.flatMap fun o => o.keyword.opens?.toList

/-- **What a flow command does** to the openings that are not closed yet, innermost first. -/
inductive Shift : List Opening → Row → List Opening → Prop
  | opens {st r} (opens : r.keyword.opens?.isSome) : Shift st r (r.opening :: st)
  | closes {o st r} (closes : r.keyword.closes? = some o.keyword)
      (named : (Draft.askedName? r.keyword r.target).isSome →
        o.name = Draft.askedName? r.keyword r.target) : Shift (o :: st) r st
  | divides {o st r} (divides : r.keyword.isDivider)
      (admitted : o.keyword.Admits (o.dividers ++ [r.keyword])) :
      Shift (o :: st) r (o.divide [r.keyword] :: st)
  | stays {st r} (opens : r.keyword.opens? = none) (part : r.keyword.partOf? = none)
      (leaves : ∀ n, r.keyword.leaves? = some n → n ∈ natures st) : Shift st r st

/-- What flow commands do in turn. -/
inductive Shifts : List Opening → List Row → List Opening → Prop
  | nil {st} : Shifts st [] st
  | cons {st st' st'' r rs} : Shift st r st' → Shifts st' rs st'' → Shifts st (r :: rs) st''

/-- A flow command does one thing. -/
theorem Shift.unique {st st₁ st₂ : List Opening} {r : Row} (h₁ : Shift st r st₁) (h₂ : Shift st r st₂) :
    st₁ = st₂ := by
  rcases r.keyword.role_cases with h | h | h | h <;> cases h₁ <;> cases h₂ <;> first | rfl | simp_all

/-- What a closer closes. -/
theorem Shift.of_closes {st st' : List Opening} {r : Row} (h : Shift st r st')
    (hk : r.keyword.closes?.isSome) : ∃ o, st = o :: st' ∧ r.keyword.closes? = some o.keyword ∧
      ((Draft.askedName? r.keyword r.target).isSome → o.name = Draft.askedName? r.keyword r.target) := by
  cases h with
  | closes closes named => exact ⟨_, rfl, closes, named⟩
  | _ => rcases r.keyword.role_cases with h | h | h | h <;> simp_all

/-- What a branch or a section divides. -/
theorem Shift.of_divides {st st' : List Opening} {r : Row} (h : Shift st r st')
    (hk : r.keyword.isDivider) : ∃ o st₀, st = o :: st₀ ∧
      o.keyword.Admits (o.dividers ++ [r.keyword]) := by
  cases h with
  | divides _ admitted => exact ⟨_, _, rfl, admitted⟩
  | _ => rcases r.keyword.role_cases with h | h | h | h <;> simp_all

/-- What a jump command leaves. -/
theorem Shift.of_leaves {st st' : List Opening} {r : Row} {n : Nature} (h : Shift st r st')
    (hk : r.keyword.leaves? = some n) : n ∈ natures st := by
  cases h with
  | stays _ _ leaves => exact leaves n hk
  | _ => rcases r.keyword.role_cases with h | h | h | h <;> simp_all

theorem shifts_append_iff {st st'' : List Opening} {rs rs' : List Row} :
    Shifts st (rs ++ rs') st'' ↔ ∃ st', Shifts st rs st' ∧ Shifts st' rs' st'' := by
  constructor
  · intro h
    induction rs generalizing st with
    | nil => exact ⟨st, .nil, h⟩
    | cons r rs ih =>
      cases h with
      | cons hr h =>
        obtain ⟨st', h', h''⟩ := ih h
        exact ⟨st', .cons hr h', h''⟩
  · rintro ⟨st', h, h'⟩
    induction h with
    | nil => exact h'
    | cons hr _ ih => exact .cons hr (ih h')

theorem Shifts.unique {st st₁ st₂ : List Opening} {rs : List Row} (h₁ : Shifts st rs st₁)
    (h₂ : Shifts st rs st₂) : st₁ = st₂ := by
  induction h₁ with
  | nil => cases h₂; rfl
  | cons hr _ ih =>
    cases h₂ with
    | cons hr' h₂ => exact ih (hr.unique hr' ▸ h₂)

theorem nonEmpty?_eq_some_iff {t u : String} : Draft.nonEmpty? t = some u ↔ t = u ∧ u ≠ "" := by
  unfold Draft.nonEmpty?
  split
  · rename_i ht
    rw [String.isEmpty_iff] at ht
    subst ht
    exact ⟨nofun, fun ⟨h, hu⟩ => absurd h.symm hu⟩
  · rename_i ht
    rw [String.isEmpty_iff] at ht
    rw [Option.some.injEq]
    exact ⟨fun h => ⟨h, h ▸ ht⟩, fun h => h.1⟩

/-- A closer that is named as its opener asks for the name that the opener has. -/
theorem fitsName_iff {closer opener : Row} (h : closer.keyword.closes? = some opener.keyword) :
    closer.FitsName opener ↔ ((Draft.askedName? closer.keyword closer.target).isSome →
      opener.opening.name = Draft.askedName? closer.keyword closer.target) := by
  obtain ⟨k, t⟩ := opener
  obtain ⟨l, u⟩ := closer
  replace h : l.closes? = some k := h
  by_cases hu : u = ""
  · subst hu
    have hnone : Draft.askedName? l "" = none := by cases l <;> rfl
    exact ⟨fun _ => by simp [hnone], fun _ _ hne => absurd rfl hne⟩
  · have hsome : Draft.nonEmpty? u = some u := nonEmpty?_eq_some_iff.2 ⟨rfl, hu⟩
    cases l <;> cases h <;>
      simp [Row.FitsName, Row.opening, Draft.askedName?, Draft.givenName?, hsome, hu,
        nonEmpty?_eq_some_iff, @eq_comm _ u t]

/-! ## 5. Trees that are read -/

/-- The innermost opening with more branches or sections. -/
def divideTop : List Opening → List Keyword → List Opening
  | [], _ => []
  | o :: st, ks => o.divide ks :: st

@[simp] theorem divideTop_nil (st : List Opening) : divideTop st [] = st := by
  cases st <;> simp [divideTop, Opening.divide]

theorem divide_cons (o : Opening) (k : Keyword) (ks : List Keyword) :
    (o.divide [k]).divide ks = o.divide (k :: ks) := by
  simp [Opening.divide]

/-- The innermost opening can have more branches or sections; where there is none they have no place. -/
def Room : List Opening → List Keyword → Prop
  | [], ks => ks = []
  | o :: _, ks => o.keyword.Admits (o.dividers ++ ks)

/-- **A tree fits** the openings that are not closed yet: it is of the grammar and keeps what else a tree
has to keep, and its branches or sections are such as the innermost opening can still have. -/
structure Outline.Fits (t : Outline) (st : List Opening) : Prop where
  grammatical : t.Grammatical
  named : t.NamesFit
  inside : t.LeavesInside (natures st)
  room : Room st t.dividers

/-- **A tree that fits** is read. -/
theorem Outline.Fits.shifts {t : Outline} : ∀ {st : List Opening}, t.Fits st →
    Shifts st t.rows (divideTop st t.dividers) := by
  induction t with
  | nil =>
    intro st _
    rw [Outline.dividers, divideTop_nil]
    exact .nil
  | row r rest ih =>
    intro st ⟨⟨hopens, hcloses, hg⟩, hn, ⟨hleaves, hi⟩, hroom⟩
    by_cases hd : r.keyword.isDivider
    · rw [Outline.dividers, if_pos hd] at hroom ⊢
      cases st with
      | nil => cases hroom
      | cons o st =>
        replace hroom : o.keyword.Admits ((o.divide [r.keyword]).dividers ++ rest.dividers) := by
          simpa [Room, Opening.divide] using hroom
        rw [divideTop, ← divide_cons]
        exact .cons (.divides hd hroom.prefix) (ih ⟨hg, hn, hi, hroom⟩)
    · rw [Outline.dividers, if_neg hd] at hroom ⊢
      have hpart : r.keyword.partOf? = none := by
        rcases r.keyword.role_cases with h | h | h | h <;> simp_all
      exact .cons (.stays hopens hpart hleaves) (ih ⟨hg, hn, hi, hroom⟩)
  | construct opener inside closer rest ihInside ihRest =>
    intro st ⟨⟨hcloses, hadmits, hgInside, hgRest⟩, ⟨hname, hnInside, hnRest⟩, ⟨hiInside, hiRest⟩, hroom⟩
    have hopens : opener.keyword.opens?.isSome :=
      Keyword.opens?_of_closes? hcloses
    have hinside : inside.Fits (opener.opening :: st) := ⟨hgInside, hnInside, hiInside, hadmits⟩
    have hclose : Shift (opener.opening.divide inside.dividers :: st) closer st :=
      .closes hcloses ((fitsName_iff hcloses).1 hname)
    exact .cons (.opens hopens) (shifts_append_iff.2
      ⟨_, ihInside hinside, .cons hclose (ihRest ⟨hgRest, hnRest, hiRest, hroom⟩)⟩)

/-- **What is left to read** is, for each opening, a tree that fits and a closer, and a tree in the end. -/
def Residual : List Opening → List Row → Prop
  | [], rs => ∃ t : Outline, t.rows = rs ∧ t.Fits []
  | o :: st, rs => ∃ (t : Outline) (c : Row) (rs' : List Row), t.rows ++ c :: rs' = rs ∧ t.Fits (o :: st) ∧
      c.keyword.closes? = some o.keyword ∧ ((Draft.askedName? c.keyword c.target).isSome →
        o.name = Draft.askedName? c.keyword c.target) ∧ Residual st rs'

/-- A piece in front of what is left to read. -/
theorem Residual.front {st : List Opening} {rs : List Row} (front : List Row) (h : Residual st rs)
    (f : Outline → Outline)
    (hf : ∀ t : Outline, t.Fits st → (f t).Fits st ∧ (f t).rows = front ++ t.rows) :
    Residual st (front ++ rs) := by
  cases st with
  | nil =>
    obtain ⟨t, rfl, ht⟩ := h
    exact ⟨f t, (hf t ht).2, (hf t ht).1⟩
  | cons o st =>
    obtain ⟨t, c, rs', rfl, ht, h⟩ := h
    exact ⟨f t, c, rs', by rw [(hf t ht).2, List.append_assoc], (hf t ht).1, h⟩

/-- **What is read to the end** is made of trees that fit. -/
theorem Shifts.residual {st st' : List Opening} {rs : List Row} (h : Shifts st rs st') (hend : st' = [])
    (hst : ∀ o ∈ st, o.keyword.Admits o.dividers) : Residual st rs := by
  -- A row is put in front of the tree that the innermost opening still asks for, so the induction goes over what
  -- is read and keeps that the parts read so far are in order.
  induction h with
  | nil =>
    subst hend
    exact ⟨.nil, rfl, trivial, trivial, trivial, rfl⟩
  | @cons st _ _ r rs hr _ ih =>
    cases hr with
    | opens hopens =>
      obtain ⟨t, c, rs', rfl, ht, hcloses, hname, hrest⟩ := ih hend (List.forall_mem_cons.2
        ⟨Keyword.admits_nil _, hst⟩)
      have := hrest.front (r :: (t.rows ++ [c])) (.construct r t c) fun rest hfits =>
        ⟨⟨⟨hcloses, ht.room, ht.grammatical, hfits.grammatical⟩,
          ⟨(fitsName_iff hcloses).2 hname, ht.named, hfits.named⟩, ⟨ht.inside, hfits.inside⟩,
          hfits.room⟩, by simp [Outline.rows]⟩
      simpa using this
    | @closes o _ _ hcloses hname =>
      have hroom := (List.forall_mem_cons.1 hst).1
      refine ⟨.nil, r, rs, rfl, ⟨trivial, trivial, trivial, ?_⟩, hcloses, hname, ih hend fun o ho =>
        hst o (List.mem_cons_of_mem _ ho)⟩
      simpa [Room, Outline.dividers] using hroom
    | @divides o _ _ hd hadmitted =>
      obtain ⟨t, c, rs', rfl, ht, h⟩ := ih hend (List.forall_mem_cons.2
        ⟨hadmitted, fun o ho => hst o (List.mem_cons_of_mem _ ho)⟩)
      have hrow : r.keyword.opens? = none ∧ r.keyword.closes? = none ∧ r.keyword.leaves? = none := by
        rcases r.keyword.role_cases with h | h | h | h <;> simp_all
      refine ⟨.row r t, c, rs', rfl, ⟨⟨hrow.1, hrow.2.1, ht.grammatical⟩, ht.named, ⟨?_, ht.inside⟩, ?_⟩, h⟩
      · rw [hrow.2.2]
        nofun
      · rw [Outline.dividers, if_pos hd]
        simpa [Room, Opening.divide] using ht.room
    | stays hopens hpart hleaves =>
      have hrow : r.keyword.closes? = none ∧ r.keyword.isDivider = false := by
        rcases r.keyword.role_cases with h | h | h | h <;> simp_all
      refine (ih hend hst).front [r] (.row r) fun t ht =>
        ⟨⟨⟨hopens, hrow.1, ht.grammatical⟩, ht.named, ⟨hleaves, ht.inside⟩, ?_⟩, rfl⟩
      rw [Outline.dividers, if_neg (by simp [hrow.2])]
      exact ht.room

/-- **The recogniser reads the grammar**, and nothing else. -/
theorem shifts_iff_outlined {rs : List Row} :
    Shifts [] rs [] ↔ ∃ t : Outline, t.rows = rs ∧ t.Fits [] := by
  constructor
  · exact fun h => h.residual rfl nofun
  · rintro ⟨t, rfl, ht⟩
    exact ht.shifts

end BlockFlow
