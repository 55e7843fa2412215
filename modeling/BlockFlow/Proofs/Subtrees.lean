/-
# Elements below an element

The elements **below** an element are its child elements and those below them.  `Element.descendants` lists them in
document order, each before those below it, and `mem_descendants_iff` says that it lists all of them;
`descendantsNamed_eq_filter` that the search for a name goes through this list.  An element without the texts in it
(`Element.bare`) has the same elements below it (`descendants_bare`).

Every statement about a tree is proved by one induction, over child elements (`Element.induction_on_children`).
-/
import BlockFlow.Markup.Tree
import Mathlib.Data.List.Basic

namespace BlockFlow.Markup.Element

/-! ## 1. Child elements -/

/-- The element that a node is, if it is one. -/
def ofNode? : Node → Option Element
  | .element e => some e
  | .text _ => none

theorem childElements_eq (e : Element) : e.childElements = e.children.filterMap ofNode? := by
  rw [childElements]
  refine List.filterMap_congr fun n _ => ?_
  cases n <;> rfl

theorem mem_childElements {e c : Element} : c ∈ e.childElements ↔ Node.element c ∈ e.children := by
  rw [childElements_eq, List.mem_filterMap]
  constructor
  · rintro ⟨n, hn, hc⟩
    cases n with
    | text s => cases hc
    | element d =>
      cases hc
      exact hn
  · intro h
    exact ⟨.element c, h, rfl⟩

/-- Texts may be left out. -/
theorem filterMap_ofNode?_filter {p : Node → Bool} (hp : ∀ e, p (.element e) = true) (ns : List Node) :
    (ns.filter p).filterMap ofNode? = ns.filterMap ofNode? := by
  rw [List.filterMap_filter]
  refine List.filterMap_congr fun n _ => ?_
  cases n with
  | text s => exact ite_self _
  | element e => exact if_pos (hp e)

/-- **Induction over trees**: what holds of an element if it holds of its child elements holds of every element. -/
theorem induction_on_children {P : Element → Prop} (h : ∀ e, (∀ c ∈ e.childElements, P c) → P e) (e : Element) :
    P e := by
  refine h e fun c hc => ?_
  have hlt : sizeOf c < sizeOf e := by
    have hmem := List.sizeOf_lt_of_mem (mem_childElements.1 hc)
    obtain ⟨name, attributes, children, span⟩ := e
    simp only [Node.element.sizeOf_spec, Element.children] at hmem
    rw [mk.sizeOf_spec]
    omega
  exact induction_on_children h c
termination_by sizeOf e

/-! ## 2. Descendants -/

mutual

/-- The elements below an element, in document order. -/
def descendants : Element → List Element
  | .mk _ _ children _ => elementsOf children

/-- The elements that nodes consist of, in document order. -/
def elementsOf : List Node → List Element
  | [] => []
  | .text _ :: ns => elementsOf ns
  | .element e :: ns => e :: descendants e ++ elementsOf ns

end

@[simp] theorem elementsOf_nil : elementsOf [] = [] := by
  rw [elementsOf]

@[simp] theorem elementsOf_text (s : String) (ns : List Node) : elementsOf (.text s :: ns) = elementsOf ns := by
  rw [elementsOf]

@[simp] theorem elementsOf_element (e : Element) (ns : List Node) :
    elementsOf (.element e :: ns) = e :: descendants e ++ elementsOf ns := by
  rw [elementsOf]

theorem descendants_eq (e : Element) : e.descendants = elementsOf e.children := by
  obtain ⟨name, attributes, children, span⟩ := e
  rw [descendants, Element.children]

theorem elementsOf_eq_flatMap (ns : List Node) :
    elementsOf ns = (ns.filterMap ofNode?).flatMap fun c => c :: c.descendants := by
  induction ns with
  | nil => simp
  | cons n ns ih => cases n <;> simp [List.filterMap_cons, ofNode?, ih]

theorem elementsOf_append (ms ns : List Node) : elementsOf (ms ++ ns) = elementsOf ms ++ elementsOf ns := by
  simp only [elementsOf_eq_flatMap, List.filterMap_append, List.flatMap_append]

theorem elementsOf_filter {p : Node → Bool} (hp : ∀ e, p (.element e) = true) (ns : List Node) :
    elementsOf (ns.filter p) = elementsOf ns := by
  rw [elementsOf_eq_flatMap, elementsOf_eq_flatMap, filterMap_ofNode?_filter hp]

/-- The descendants are the child elements, each with its own descendants behind it. -/
theorem descendants_eq_flatMap (e : Element) :
    e.descendants = e.childElements.flatMap fun c => c :: c.descendants := by
  rw [descendants_eq, elementsOf_eq_flatMap, childElements_eq]

theorem descendantsNamed_eq_flatMap (name : String) (e : Element) :
    e.descendantsNamed name = e.childElements.flatMap fun c =>
      (if sameName c.name name then [c] else []) ++ c.descendantsNamed name := by
  obtain ⟨tag, attributes, children, span⟩ := e
  rw [descendantsNamed, childElements, Element.children]
  induction children with
  | nil => rfl
  | cons n ns ih =>
    cases n with
    | text s => simp [namedInNodes, namedInNode, ih]
    | element c => cases hc : sameName c.name name <;> simp [namedInNodes, namedInNode, hc, ih]

/-- **The elements of a name are the descendants that have it**, in document order. -/
theorem descendantsNamed_eq_filter (name : String) (e : Element) :
    e.descendantsNamed name = e.descendants.filter fun d => sameName d.name name := by
  induction e using induction_on_children with
  | h e ih =>
    rw [descendantsNamed_eq_flatMap, descendants_eq_flatMap, List.filter_flatMap]
    refine List.flatMap_congr fun c hc => ?_
    rw [List.filter_cons, ih c hc]
    split <;> rfl

/-! ## 3. Being below -/

/-- **An element is below another one**: it is a child element of it, or below one. -/
inductive Below : Element → Element → Prop
  | child {e c : Element} : c ∈ e.childElements → Below e c
  | deeper {e c d : Element} : c ∈ e.childElements → Below c d → Below e d

/-- The descendants are the elements below. -/
theorem mem_descendants_iff {e d : Element} : d ∈ e.descendants ↔ Below e d := by
  induction e using induction_on_children with
  | h e ih =>
    rw [descendants_eq_flatMap]
    simp only [List.mem_flatMap, List.mem_cons]
    constructor
    · rintro ⟨c, hc, rfl | hd⟩
      · exact .child hc
      · exact .deeper hc ((ih c hc).1 hd)
    · intro h
      cases h with
      | child hd => exact ⟨d, hd, .inl rfl⟩
      | @deeper _ c _ hc hd => exact ⟨c, hc, .inr ((ih c hc).2 hd)⟩

/-! ## 4. Elements without texts -/

mutual

/-- An element without the texts in it. -/
def bare : Element → Element
  | .mk name attributes children span => .mk name attributes (bareNodes children) span

/-- The elements among nodes, without the texts in them. -/
def bareNodes : List Node → List Node
  | [] => []
  | .text _ :: ns => bareNodes ns
  | .element e :: ns => .element (bare e) :: bareNodes ns

end

@[simp] theorem name_bare (e : Element) : e.bare.name = e.name := by
  cases e
  rw [bare, name, name]

@[simp] theorem attributes_bare (e : Element) : e.bare.attributes = e.attributes := by
  cases e
  rw [bare, attributes, attributes]

@[simp] theorem span_bare (e : Element) : e.bare.span = e.span := by
  cases e
  rw [bare, span, span]

@[simp] theorem bareNodes_nil : bareNodes [] = [] := by
  rw [bareNodes]

@[simp] theorem bareNodes_text (s : String) (ns : List Node) : bareNodes (.text s :: ns) = bareNodes ns := by
  rw [bareNodes]

@[simp] theorem bareNodes_element (e : Element) (ns : List Node) :
    bareNodes (.element e :: ns) = .element e.bare :: bareNodes ns := by
  rw [bareNodes]

theorem bareNodes_eq_map (ns : List Node) :
    bareNodes ns = (ns.filterMap ofNode?).map fun e => .element e.bare := by
  induction ns with
  | nil => simp
  | cons n ns ih => cases n <;> simp [List.filterMap_cons, ofNode?, ih]

theorem bareNodes_reverse (ns : List Node) : bareNodes ns.reverse = (bareNodes ns).reverse := by
  rw [bareNodes_eq_map, bareNodes_eq_map, List.filterMap_reverse, List.map_reverse]

theorem bareNodes_filter {p : Node → Bool} (hp : ∀ e, p (.element e) = true) (ns : List Node) :
    bareNodes (ns.filter p) = bareNodes ns := by
  rw [bareNodes_eq_map, bareNodes_eq_map, filterMap_ofNode?_filter hp]

theorem filter_bareNodes {p : Node → Bool} (hp : ∀ e, p (.element e) = true) (ns : List Node) :
    (bareNodes ns).filter p = bareNodes ns := by
  rw [bareNodes_eq_map, List.filter_eq_self, List.forall_mem_map]
  exact fun e _ => hp e.bare

theorem filterMap_bareNodes (ns : List Node) :
    (bareNodes ns).filterMap ofNode? = (ns.filterMap ofNode?).map bare := by
  rw [bareNodes_eq_map, List.filterMap_map]
  exact congrFun List.filterMap_eq_map' _

theorem childElements_bare (e : Element) : e.bare.childElements = e.childElements.map bare := by
  obtain ⟨name, attributes, children, span⟩ := e
  rw [bare, childElements_eq, childElements_eq]
  exact filterMap_bareNodes children

/-- **An element without its texts has the same elements below it**, without theirs. -/
theorem descendants_bare (e : Element) : e.bare.descendants = e.descendants.map bare := by
  induction e using induction_on_children with
  | h e ih =>
    rw [descendants_eq_flatMap, descendants_eq_flatMap, childElements_bare, List.flatMap_map, List.map_flatMap]
    refine List.flatMap_congr fun c hc => ?_
    rw [ih c hc, List.map_cons]

theorem elementsOf_bareNodes (ns : List Node) : elementsOf (bareNodes ns) = (elementsOf ns).map bare := by
  rw [elementsOf_eq_flatMap, elementsOf_eq_flatMap, filterMap_bareNodes, List.flatMap_map, List.map_flatMap]
  refine List.flatMap_congr fun c _ => ?_
  rw [descendants_bare, List.map_cons]

end BlockFlow.Markup.Element
