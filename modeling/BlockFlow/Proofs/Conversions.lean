/-
# Values and data

A stored value becomes a datum when an expression runs, and a datum becomes a stored value afterwards.

A value comes back as it was (`toValue_ofValue`).  A datum has a value exactly if all of its parts have a
kind that variables can hold (`toValue_eq_ok_iff`), and comes back with its integers floating and its
characters as texts (`ofValue_of_toValue`).
-/
import BlockFlow.Script.Datum

namespace BlockFlow.Script.Datum

/-! ## 1. Values -/

mutual

/-- **A value survives** as a datum, however deep it is. -/
theorem toValue_ofValue : ∀ v : Value, (ofValue v).toValue = .ok v
  | .null | .bool _ | .number _ | .text _ => rfl
  | .list items => by rw [ofValue, toValue, toValues_ofValues items]; rfl
  | .map fields => by rw [ofValue, toValue, toFields_ofFields fields]; rfl

theorem toValues_ofValues : ∀ vs : List Value, toValues (ofValues vs) = .ok vs
  | [] => rfl
  | v :: vs => by rw [ofValues, toValues, toValue_ofValue v, toValues_ofValues vs]; rfl

theorem toFields_ofFields : ∀ fs : List (String × Value), toFields (ofFields fs) = .ok fs
  | [] => rfl
  | (k, v) :: fs => by rw [ofFields, toFields, toValue_ofValue v, toFields_ofFields fs]; rfl

end

/-! ## 2. Data -/

/-- A datum, and the parts of its lists and maps at every depth. -/
inductive IsPart (p : Datum) : Datum → Prop
  | self : IsPart p p
  | item {items d} : d ∈ items → IsPart p d → IsPart p (.list items)
  | field {fields k d} : (k, d) ∈ fields → IsPart p d → IsPart p (.map fields)

/-- Whether a datum is of a kind that variables can hold, whatever its parts are. -/
def hasStoredKind : Datum → Bool
  | .unit | .bool _ | .int _ | .float _ | .text _ | .char _ | .list _ | .map _ => true
  | .foreign _ => false

/-- Every part of a datum is of a kind that variables can hold. -/
def Storable (d : Datum) : Prop := ∀ p : Datum, p.IsPart d → p.hasStoredKind = true

mutual

/-- A datum with every integer in it floating, and every character a text. -/
def settled : Datum → Datum
  | .int n => .float (floatOfInt n)
  | .char c => .text (String.singleton c)
  | .list items => .list (settledItems items)
  | .map fields => .map (settledFields fields)
  | d => d

def settledItems : List Datum → List Datum
  | [] => []
  | d :: ds => settled d :: settledItems ds

def settledFields : List (String × Datum) → List (String × Datum)
  | [] => []
  | (k, d) :: fs => (k, settled d) :: settledFields fs

end

/-- **What becomes of a datum**: the value of all of it, or the name of a part that no variable can hold. -/
inductive Becomes (d : Datum) : Except String Value → Prop
  | value {v} : ofValue v = d.settled → d.Storable → Becomes d (.ok v)
  | refused {name} : (foreign name).IsPart d → Becomes d (.error name)

/-- What becomes of the items of a list. -/
inductive BecomeItems (ds : List Datum) : Except String (List Value) → Prop
  | values {vs} : ofValues vs = settledItems ds → (∀ d ∈ ds, d.Storable) → BecomeItems ds (.ok vs)
  | refused {name d} : d ∈ ds → (foreign name).IsPart d → BecomeItems ds (.error name)

/-- What becomes of the fields of a map. -/
inductive BecomeFields (fs : List (String × Datum)) : Except String (List (String × Value)) → Prop
  | values {vs} : ofFields vs = settledFields fs → (∀ f ∈ fs, f.2.Storable) → BecomeFields fs (.ok vs)
  | refused {name f} : f ∈ fs → (foreign name).IsPart f.2 → BecomeFields fs (.error name)

/-- A datum without parts of its own is a part of itself alone. -/
theorem Becomes.single {d : Datum} {v : Value} (hv : ofValue v = d.settled) (hpart : ∀ p : Datum, p.IsPart d → p = d)
    (hd : d.hasStoredKind = true) : d.Becomes (.ok v) :=
  .value hv fun p hp => hpart p hp ▸ hd

mutual

theorem becomes : ∀ d : Datum, d.Becomes d.toValue
  | .unit | .bool _ | .int _ | .float _ | .text _ | .char _ => .single rfl (by rintro _ ⟨⟩; rfl) rfl
  | .foreign _ => .refused .self
  | .list items => by
    have hitems := becomeItems items
    rw [toValue]
    generalize toValues items = r at hitems
    cases hitems with
    | values hvs hparts =>
      refine .value (by rw [ofValue, hvs, settled]) fun p hp => ?_
      cases hp with
      | self => rfl
      | item hd hp => exact hparts _ hd p hp
    | refused hd hname => exact .refused (.item hd hname)
  | .map fields => by
    have hfields := becomeFields fields
    rw [toValue]
    generalize toFields fields = r at hfields
    cases hfields with
    | values hvs hparts =>
      refine .value (by rw [ofValue, hvs, settled]) fun p hp => ?_
      cases hp with
      | self => rfl
      | field hd hp => exact hparts _ hd p hp
    | refused hf hname => exact .refused (.field hf hname)

theorem becomeItems : ∀ ds : List Datum, BecomeItems ds (toValues ds)
  | [] => .values rfl nofun
  | d :: ds => by
    have hd := becomes d
    have hds := becomeItems ds
    rw [toValues]
    generalize d.toValue = r at hd
    generalize toValues ds = rs at hds
    cases hd with
    | refused hname => exact .refused List.mem_cons_self hname
    | value hv hparts =>
      cases hds with
      | refused hd hname => exact .refused (List.mem_cons_of_mem _ hd) hname
      | values hvs hall =>
        exact .values (by rw [ofValues, hv, hvs, settledItems]) (List.forall_mem_cons.2 ⟨hparts, hall⟩)

theorem becomeFields : ∀ fs : List (String × Datum), BecomeFields fs (toFields fs)
  | [] => .values rfl nofun
  | (k, d) :: fs => by
    have hd := becomes d
    have hfs := becomeFields fs
    rw [toFields]
    generalize d.toValue = r at hd
    generalize toFields fs = rs at hfs
    cases hd with
    | refused hname => exact .refused List.mem_cons_self hname
    | value hv hparts =>
      cases hfs with
      | refused hf hname => exact .refused (List.mem_cons_of_mem _ hf) hname
      | values hvs hall =>
        exact .values (by rw [ofFields, hv, hvs, settledFields]) (List.forall_mem_cons.2 ⟨hparts, hall⟩)

end

/-- **A datum can be stored exactly if every part of it can be**, at every depth. -/
theorem toValue_eq_ok_iff (d : Datum) : (∃ v, d.toValue = .ok v) ↔ d.Storable := by
  constructor
  · rintro ⟨v, hv⟩
    have hd := d.becomes
    rw [hv] at hd
    cases hd with
    | value _ hparts => exact hparts
  · intro hparts
    cases hd : d.toValue with
    | ok v => exact ⟨v, rfl⟩
    | error name =>
      have hbecomes := d.becomes
      rw [hd] at hbecomes
      cases hbecomes with
      | refused hname => cases hparts _ hname

/-- **A stored datum comes back** with its integers floating and its characters as texts. -/
theorem ofValue_of_toValue {d : Datum} {v : Value} (h : d.toValue = .ok v) : ofValue v = d.settled := by
  have hd := d.becomes
  rw [h] at hd
  cases hd with
  | value hv _ => exact hv

end BlockFlow.Script.Datum
