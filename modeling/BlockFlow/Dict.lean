/-
# Finite maps in increasing key order

`Dict κ α` binds keys to values and keeps its entries sorted by key.  The order is part of the type:
two maps with the same bindings are equal (`Dict.ext`), so a namespace, a block map or a symbol
table can be compared with `=`.

Every operation has one lemma that says what it does to `get?`: `get?_insert`, `get?_erase`,
`get?_empty`, and for overriding by another map `get?_insertAll_toList`.
-/

namespace BlockFlow

/-! ## 1. Entry lists -/

namespace Entries

variable {κ α : Type} [Ord κ]

/-- Keys strictly increase along the list. -/
def Sorted (es : List (κ × α)) : Prop := es.Pairwise fun a b => compare a.1 b.1 = .lt

/-- Binds a key, replacing the entry that had it. -/
def put (k : κ) (x : α) : List (κ × α) → List (κ × α)
  | [] => [(k, x)]
  | e :: es =>
    match compare k e.1 with
    | .lt => (k, x) :: e :: es
    | .eq => (k, x) :: es
    | .gt => e :: put k x es

/-- The value bound to a key. -/
def find? (k : κ) : List (κ × α) → Option α
  | [] => none
  | e :: es => if compare k e.1 == .eq then some e.2 else find? k es

/-- Drops the entry of a key. -/
def drop (k : κ) (es : List (κ × α)) : List (κ × α) := es.filter fun e => compare k e.1 != .eq

theorem mem_put {k : κ} {x : α} : ∀ {es : List (κ × α)} {e : κ × α},
    e ∈ put k x es → e = (k, x) ∨ e ∈ es
  | [], e, h => by simp [put] at h; exact .inl h
  | d :: es, e, h => by
    unfold put at h
    split at h
    · simpa using h
    · rcases List.mem_cons.1 h with h | h
      · exact .inl h
      · exact .inr (List.mem_cons_of_mem _ h)
    · rcases List.mem_cons.1 h with h | h
      · exact .inr (h ▸ List.mem_cons_self)
      · exact (mem_put h).imp id (List.mem_cons_of_mem _)

theorem sorted_drop (k : κ) {es : List (κ × α)} (h : Sorted es) : Sorted (drop k es) :=
  List.Pairwise.filter _ h

variable [Std.TransOrd κ]

theorem sorted_put (k : κ) (x : α) : ∀ {es : List (κ × α)}, Sorted es → Sorted (put k x es)
  | [], _ => by simp [put, Sorted]
  | e :: es, h => by
    have he := List.pairwise_cons.1 h
    unfold put
    split
    · rename_i hk
      refine List.pairwise_cons.2 ⟨fun d hd => ?_, h⟩
      rcases List.mem_cons.1 hd with rfl | hd
      · exact hk
      · exact Std.TransCmp.lt_trans hk (he.1 d hd)
    · rename_i hk
      exact List.pairwise_cons.2 ⟨fun d hd => Std.TransCmp.lt_of_eq_of_lt hk (he.1 d hd), he.2⟩
    · rename_i hk
      refine List.pairwise_cons.2 ⟨fun d hd => ?_, sorted_put k x he.2⟩
      rcases mem_put hd with rfl | hd
      · exact Std.OrientedCmp.lt_of_gt hk
      · exact he.1 d hd

variable [Std.LawfulEqOrd κ]

omit [Std.TransOrd κ] in
theorem find?_put [DecidableEq κ] (k l : κ) (x : α) : ∀ es : List (κ × α),
    find? l (put k x es) = if l = k then some x else find? l es
  | [] => by simp [put, find?]
  | e :: es => by
    unfold put
    split
    · by_cases h : l = k <;> simp [find?, h]
    · rename_i hk
      have := Std.LawfulEqCmp.eq_of_compare hk
      subst this
      by_cases h : l = e.1 <;> simp [find?, h]
    · rename_i hk
      have ih := find?_put k l x es
      by_cases h : l = e.1
      · have : ¬ e.1 = k := by rintro rfl; simp at hk
        subst h
        simp [find?, this]
      · simp [find?, h, ih]

omit [Std.TransOrd κ] in
theorem find?_drop [DecidableEq κ] (k l : κ) : ∀ es : List (κ × α),
    find? l (drop k es) = if l = k then none else find? l es
  | [] => by simp [drop, find?]
  | e :: es => by
    have ih : find? l (es.filter fun e => compare k e.1 != .eq) = _ := find?_drop k l es
    by_cases hk : k = e.1
    · subst hk
      by_cases h : l = e.1
      · simp_all [drop]
      · simp_all [drop, find?]
    · by_cases h : l = e.1
      · subst h
        simp [drop, find?, hk, Ne.symm hk]
      · simp [drop, find?, h, hk, ih]

omit [Std.TransOrd κ] in
theorem find?_eq_some_of_mem : ∀ {es : List (κ × α)}, Sorted es → ∀ {e : κ × α}, e ∈ es →
    find? e.1 es = some e.2
  | [], _, _, he => by simp at he
  | d :: es, h, e, he => by
    have hd := List.pairwise_cons.1 h
    rcases List.mem_cons.1 he with rfl | he
    · simp [find?]
    · have : e.1 ≠ d.1 := by intro hh; have := hd.1 e he; simp [hh] at this
      simp [find?, this, find?_eq_some_of_mem hd.2 he]

omit [Std.TransOrd κ] in
theorem mem_of_find?_eq_some {k : κ} {x : α} : ∀ {es : List (κ × α)},
    find? k es = some x → (k, x) ∈ es
  | [], h => by simp [find?] at h
  | e :: es, h => by
    unfold find? at h
    split at h
    · rename_i hk
      have hk' : k = e.1 := by simpa using hk
      obtain ⟨l, y⟩ := e
      simp_all
    · exact List.mem_cons_of_mem _ (mem_of_find?_eq_some h)

omit [Std.TransOrd κ] in
/-- A key below every key of the list is unbound. -/
theorem find?_eq_none_of_lt {k : κ} {es : List (κ × α)} (h : ∀ e ∈ es, compare k e.1 = .lt) :
    find? k es = none := by
  cases hf : find? k es with
  | none => rfl
  | some y =>
    have := h _ (mem_of_find?_eq_some hf)
    simp at this

/-- Sorted entry lists with the same bindings are equal. -/
theorem eq_of_find?_eq : ∀ {es fs : List (κ × α)}, Sorted es → Sorted fs →
    (∀ k, find? k es = find? k fs) → es = fs
  | [], [], _, _, _ => rfl
  | [], f :: fs, _, _, h => by have := h f.1; simp [find?] at this
  | e :: es, [], _, _, h => by have := h e.1; simp [find?] at this
  | e :: es, f :: fs, he, hf, h => by
    have he' := List.pairwise_cons.1 he
    have hf' := List.pairwise_cons.1 hf
    have head : e = f := by
      have h1 : (e.1, e.2) ∈ f :: fs := mem_of_find?_eq_some ((h e.1).symm.trans (by simp [find?]))
      have h2 : (f.1, f.2) ∈ e :: es := mem_of_find?_eq_some ((h f.1).trans (by simp [find?]))
      rcases List.mem_cons.1 h1 with h1 | h1
      · exact h1
      · rcases List.mem_cons.1 h2 with h2 | h2
        · exact h2.symm
        · have a := hf'.1 _ h1
          have b := he'.1 _ h2
          have := Std.TransCmp.lt_trans a b
          simp at this
    subst head
    have tail : es = fs := by
      refine eq_of_find?_eq he'.2 hf'.2 fun k => ?_
      by_cases hk : k = e.1
      · rw [hk, find?_eq_none_of_lt he'.1, find?_eq_none_of_lt hf'.1]
      · simpa [find?, hk] using h k
    rw [tail]

end Entries

/-! ## 2. The map type -/

/-- A finite map whose entries are sorted by key. -/
structure Dict (κ α : Type) [Ord κ] where
  /-- The bindings, in increasing key order. -/
  toList : List (κ × α)
  sorted : Entries.Sorted toList

namespace Dict

variable {κ α : Type} [Ord κ]

/-- The map without bindings. -/
def empty : Dict κ α := ⟨[], List.Pairwise.nil⟩

instance : EmptyCollection (Dict κ α) := ⟨empty⟩

instance : Inhabited (Dict κ α) := ⟨empty⟩

instance [BEq κ] [BEq α] : BEq (Dict κ α) := ⟨fun a b => a.toList == b.toList⟩

/-- The value bound to a key. -/
def get? (d : Dict κ α) (k : κ) : Option α := Entries.find? k d.toList

/-- Whether a key is bound. -/
def contains (d : Dict κ α) (k : κ) : Bool := (d.get? k).isSome

/-- The bound keys, increasing. -/
def keys (d : Dict κ α) : List κ := d.toList.map Prod.fst

/-- The number of bindings. -/
def size (d : Dict κ α) : Nat := d.toList.length

/-- Removes a key. -/
def erase (d : Dict κ α) (k : κ) : Dict κ α := ⟨Entries.drop k d.toList, Entries.sorted_drop k d.sorted⟩

variable [Std.TransOrd κ]

/-- Binds a key, replacing what it was bound to. -/
def insert (d : Dict κ α) (k : κ) (x : α) : Dict κ α :=
  ⟨Entries.put k x d.toList, Entries.sorted_put k x d.sorted⟩

/-- Binds the pairs of a list in turn; of two with one key the later wins. -/
def insertAll (d : Dict κ α) (es : List (κ × α)) : Dict κ α :=
  es.foldl (fun d e => d.insert e.1 e.2) d

/-- The map of a list of pairs; of two with one key the later wins. -/
def ofList (es : List (κ × α)) : Dict κ α := (empty : Dict κ α).insertAll es

/-- Changes the value of a key if it is bound. -/
def modify (d : Dict κ α) (k : κ) (f : α → α) : Dict κ α :=
  match d.get? k with
  | some x => d.insert k (f x)
  | none => d

omit [Std.TransOrd κ] in
@[simp] theorem get?_empty (k : κ) : (∅ : Dict κ α).get? k = none := rfl

@[simp] theorem insertAll_nil (d : Dict κ α) : d.insertAll [] = d := rfl

@[simp] theorem insertAll_cons (d : Dict κ α) (e : κ × α) (es : List (κ × α)) :
    d.insertAll (e :: es) = (d.insert e.1 e.2).insertAll es := rfl

variable [Std.LawfulEqOrd κ]

@[simp] theorem get?_insert [DecidableEq κ] (d : Dict κ α) (k l : κ) (x : α) :
    (d.insert k x).get? l = if l = k then some x else d.get? l :=
  Entries.find?_put k l x d.toList

/-- A key that is in none of the pairs keeps its binding. -/
theorem get?_insertAll_of_not_mem [DecidableEq κ] {k : κ} : ∀ {es : List (κ × α)} {d : Dict κ α},
    (∀ e ∈ es, e.1 ≠ k) → (d.insertAll es).get? k = d.get? k
  | [], _, _ => rfl
  | e :: es, d, h => by
    rw [insertAll_cons, get?_insertAll_of_not_mem fun f hf => h f (List.mem_cons_of_mem e hf),
      get?_insert, if_neg (Ne.symm (h e List.mem_cons_self))]

/-- Binding the pairs of a map overrides: its own bindings win, and the others stay. -/
theorem get?_insertAll_toList [DecidableEq κ] (d e : Dict κ α) (k : κ) :
    (d.insertAll e.toList).get? k = (e.get? k).or (d.get? k) := by
  obtain ⟨es, h⟩ := e
  rw [show get? ⟨es, h⟩ k = Entries.find? k es from rfl]
  induction es generalizing d with
  | nil => rfl
  | cons e es ih =>
    have he := List.pairwise_cons.1 h
    rw [insertAll_cons, ih _ he.2, get?_insert]
    by_cases hk : k = e.1
    · rw [hk, Entries.find?_eq_none_of_lt he.1]
      simp [Entries.find?]
    · simp [Entries.find?, hk]

omit [Std.TransOrd κ] in
@[simp] theorem get?_erase [DecidableEq κ] (d : Dict κ α) (k l : κ) :
    (d.erase k).get? l = if l = k then none else d.get? l :=
  Entries.find?_drop k l d.toList

/-- Maps with the same bindings are equal. -/
theorem ext {a b : Dict κ α} (h : ∀ k, a.get? k = b.get? k) : a = b := by
  obtain ⟨as, ha⟩ := a
  obtain ⟨bs, hb⟩ := b
  have : as = bs := Entries.eq_of_find?_eq ha hb h
  subst this
  rfl

omit [Std.TransOrd κ] in
theorem get?_eq_some_iff {d : Dict κ α} {k : κ} {x : α} : d.get? k = some x ↔ (k, x) ∈ d.toList :=
  ⟨Entries.mem_of_find?_eq_some, Entries.find?_eq_some_of_mem d.sorted⟩

omit [Std.TransOrd κ] in
theorem mem_keys {d : Dict κ α} {k : κ} : k ∈ d.keys ↔ ∃ x, d.get? k = some x := by
  simp [keys, get?_eq_some_iff]

omit [Std.TransOrd κ] in
theorem nodup_keys (d : Dict κ α) : d.keys.Nodup :=
  List.pairwise_map.2 (d.sorted.imp fun hlt heq => by simp [heq] at hlt)

theorem get?_modify [DecidableEq κ] (d : Dict κ α) (k l : κ) (f : α → α) :
    (d.modify k f).get? l = if l = k then (d.get? k).map f else d.get? l := by
  unfold modify
  by_cases h : l = k
  · subst h
    cases hd : d.get? l <;> simp [hd]
  · cases hd : d.get? k <;> simp [h]

end Dict

end BlockFlow
