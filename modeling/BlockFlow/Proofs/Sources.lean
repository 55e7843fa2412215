/-
# What a source says

A source that is a document is read **without loss**.  Every child element of a `<unit>` has to write a command, and
the commands are those of the child elements in order (`Command.ofElement_eq_ok_iff`, `mapM_eq_ok_iff`); texts and
comments make no difference (`ScriptUnit.ofElement_bare`).  The commands of an `<html>` page are those of its rows of
three cells, wherever below the root they stand, in the order of the source (`Command.ofRow?_eq_some_iff`).
-/
import BlockFlow.Proofs.Starts
import BlockFlow.Source
import Mathlib.Data.List.Forall2
import Mathlib.Data.List.TakeWhile

namespace BlockFlow

open Markup

/-! ## 1. Blank texts -/

/-- A text is blank if trimming leaves nothing of it. -/
theorem Text.isEmpty_trim (s : String) : (Text.trim s).isEmpty = Text.allBlank s := by
  rw [Bool.eq_iff_iff, String.isEmpty_iff, Text.allBlank, List.all_eq_true]
  constructor
  · intro h
    have hchars : Text.trimChars s.toList = [] := by rw [← Text.toList_trim, h, String.toList_empty]
    rw [Text.trimChars, List.reverse_eq_nil_iff, List.dropWhile_eq_nil_iff] at hchars
    have hdrop : s.toList.dropWhile Text.isBlank = [] := by
      by_contra hne
      have hhead := List.head_dropWhile_not Text.isBlank hne
      rw [hchars _ (List.mem_reverse.2 (List.head_mem hne))] at hhead
      cases hhead
    exact List.dropWhile_eq_nil_iff.1 hdrop
  · intro h
    rw [← String.toList_eq_nil_iff, Text.toList_trim, Text.trimChars, List.dropWhile_eq_nil_iff.2 h]
    rfl

/-! ## 2. Commands of elements -/

/-- The elements of a unit that write a command: those called `command` with a name that is not blank. -/
def Markup.Element.IsCommand (e : Element) : Prop :=
  e.name = "command" ∧ ∃ name, e.attribute? "name" = some name ∧ Text.allBlank name = false

namespace Command

/-- **What an element writes**: its name without the white space around it, its target and value as they stand. -/
structure WrittenBy (e : Element) (c : Command) : Prop where
  element : e.name = "command"
  name : ∃ name, e.attribute? "name" = some name ∧ Text.allBlank name = false ∧ c.name = Text.trim name
  target : c.target = (e.attribute? "target").getD ""
  value : c.value = (e.attribute? "value").getD ""
  span : c.span = some e.span

theorem ofElement_eq_ok_iff {path : String} {e : Element} {c : Command} :
    ofElement path e = .ok c ↔ WrittenBy e c := by
  constructor
  · intro h
    rw [ofElement] at h
    split at h
    · cases h
    · rename_i helement
      split at h
      · rename_i name hname
        split at h
        · cases h
        · rename_i hblank
          cases h
          exact ⟨not_not.1 helement, ⟨name, hname, Bool.eq_false_iff.2 hblank, rfl⟩, rfl, rfl, rfl⟩
      · cases h
  · rintro ⟨helement, ⟨name, hname, hblank, hc⟩, htarget, hvalue, hspan⟩
    rw [ofElement, if_neg (not_not.2 helement), hname]
    simp only [hblank, Bool.false_eq_true, if_false, ← hc, ← htarget, ← hvalue, ← hspan]

theorem exists_writtenBy_iff {e : Element} : (∃ c, WrittenBy e c) ↔ e.IsCommand := by
  constructor
  · rintro ⟨c, h⟩
    obtain ⟨name, hname, hblank, -⟩ := h.name
    exact ⟨h.element, name, hname, hblank⟩
  · rintro ⟨helement, name, hname, hblank⟩
    exact ⟨⟨Text.trim name, _, _, some e.span⟩, helement, ⟨name, hname, hblank, rfl⟩, rfl, rfl, rfl⟩

/-- Texts in an element make no difference to its command. -/
theorem ofElement_bare (path : String) (e : Element) : ofElement path e.bare = ofElement path e := by
  have hattribute (name : String) : e.bare.attribute? name = e.attribute? name := by
    rw [Element.attribute?, Element.attribute?, Element.attributes_bare]
  simp only [ofElement, hattribute, Element.name_bare, Element.span_bare]

end Command

/-! ## 3. Commands of rows -/

/-- The cells of a row. -/
def Markup.Element.cells (row : Element) : List Element :=
  row.childElements.filter fun c => Element.sameName c.name "td"

/-- **The rows of a page that write a command**: elements called `tr` in any case, anywhere below the root, of three
cells, the first of them not blank. -/
structure Markup.Element.IsRow (page row : Element) : Prop where
  below : Element.Below page row
  name : Element.sameName row.name "tr"
  cells : ∃ first second third, row.cells = [first, second, third] ∧ Text.allBlank first.textContent = false

namespace Command

/-- **What a row writes**: the text of its first cell without the white space around it, and the texts of the other
two. -/
def WrittenByRow (row : Element) (c : Command) : Prop :=
  ∃ first second third, row.cells = [first, second, third] ∧ Text.allBlank first.textContent = false ∧
    c = ⟨Text.trim first.textContent, second.textContent, third.textContent, some row.span⟩

theorem ofRow?_eq_some_iff {row : Element} {c : Command} : ofRow? row = some c ↔ WrittenByRow row c := by
  rw [ofRow?, WrittenByRow, ← Element.cells]
  constructor
  · intro h
    split at h
    · rename_i first second third hcells
      simp only [Text.isEmpty_trim] at h
      split at h
      · cases h
      · rename_i hblank
        cases h
        exact ⟨first, second, third, hcells, Bool.eq_false_iff.2 hblank, rfl⟩
    · cases h
  · rintro ⟨first, second, third, hcells, hblank, rfl⟩
    simp [hcells, Text.isEmpty_trim, hblank]

end Command

/-! ## 4. Lists of commands -/

theorem bind_eq_ok_iff {α β ε : Type} {x : Except ε α} {f : α → Except ε β} {b : β} :
    x >>= f = .ok b ↔ ∃ a, x = .ok a ∧ f a = .ok b := by
  cases x <;> simp [bind, Except.bind]

theorem mapError_eq_ok_iff {α ε ε' : Type} {f : ε → ε'} {x : Except ε α} {a : α} :
    x.mapError f = .ok a ↔ x = .ok a := by
  cases x <;> simp [Except.mapError]

/-- A list is read if its elements are, one by one. -/
theorem mapM_eq_ok_iff {α β ε : Type} {f : α → Except ε β} {xs : List α} {ys : List β} :
    xs.mapM f = .ok ys ↔ List.Forall₂ (fun x y => f x = .ok y) xs ys := by
  induction xs generalizing ys with
  | nil =>
    rw [List.mapM_nil, List.forall₂_nil_left_iff]
    exact ⟨fun h => by cases h; rfl, fun h => h ▸ rfl⟩
  | cons x xs ih =>
    simp only [List.mapM_cons, bind_eq_ok_iff, List.forall₂_cons_left_iff]
    constructor
    · rintro ⟨y, hy, ys', hys, hpure⟩
      cases hpure
      exact ⟨y, ys', hy, ih.1 hys, rfl⟩
    · rintro ⟨y, ys', hy, hys, rfl⟩
      exact ⟨y, hy, ys', ih.2 hys, rfl⟩

/-- If every element of a list gives something, so does the list. -/
theorem exists_forall₂_iff {α β : Type} {R : α → β → Prop} {xs : List α} :
    (∃ ys, List.Forall₂ R xs ys) ↔ ∀ x ∈ xs, ∃ y, R x y := by
  induction xs with
  | nil => simp [List.forall₂_nil_left_iff]
  | cons x xs ih =>
    rw [List.forall_mem_cons, ← ih]
    constructor
    · rintro ⟨_, _ | ⟨hy, hys⟩⟩
      exact ⟨⟨_, hy⟩, _, hys⟩
    · rintro ⟨⟨y, hy⟩, ys, hys⟩
      exact ⟨y :: ys, .cons hy hys⟩

theorem forall₂_filterMap {α β : Type} (f : α → Option β) (xs : List α) :
    List.Forall₂ (fun x y => f x = some y) (xs.filter fun x => (f x).isSome) (xs.filterMap f) := by
  induction xs with
  | nil => exact .nil
  | cons x xs ih => cases hx : f x <;> simp [hx, ih]

/-! ## 5. Units -/

namespace ScriptUnit

variable {path source : String} {root : Element}

theorem read_of_read? (path : String) (h : Element.read? source = some root) :
    read path source = (ofElement path root).mapError SourceError.fault := by
  rw [read, Element.parse, h]
  rfl

theorem read_unit_eq_ok_iff (h : Element.read? source = some root) (hroot : root.name = "unit") {u : ScriptUnit} :
    read path source = .ok u ↔ List.Forall₂ Command.WrittenBy root.childElements u.commands ∧
      u.name = (root.attribute? "name").getD (unitNameOfPath path) ∧ u.path = path := by
  rw [read_of_read? path h, mapError_eq_ok_iff, ofElement, if_pos hroot, bind_eq_ok_iff]
  simp only [mapM_eq_ok_iff, Command.ofElement_eq_ok_iff]
  constructor
  · rintro ⟨commands, hcommands, hu⟩
    cases hu
    exact ⟨hcommands, rfl, rfl⟩
  · rintro ⟨hcommands, hname, hpath⟩
    exact ⟨u.commands, hcommands, by rw [← hname, ← hpath]; rfl⟩

/-- Texts and comments make no difference to a unit. -/
theorem ofElement_bare (h : root.name = "unit") : ofElement path root.bare = ofElement path root := by
  have hname := root.name_bare.trans h
  rw [ofElement, ofElement, if_pos h, if_pos hname, Element.childElements_bare, List.mapM_map,
    Element.attribute?, Element.attribute?, Element.attributes_bare]
  have hcommands : Command.ofElement path ∘ Element.bare = Command.ofElement path :=
    funext (Command.ofElement_bare path)
  rw [hcommands]

theorem read_html (h : Element.read? source = some root) (hroot : root.name = "html") :
    read path source = .ok ⟨(titleOf? root).getD (unitNameOfPath path), path,
      (root.descendantsNamed "tr").filterMap Command.ofRow?⟩ := by
  have hunit : root.name ≠ "unit" := by
    rw [hroot]
    decide
  rw [read_of_read? path h, ofElement, if_neg hunit, if_pos hroot]
  rfl

/-- The rows of a page that write a command, in document order. -/
def rowsOf (page : Element) : List Element :=
  (page.descendantsNamed "tr").filter fun row => (Command.ofRow? row).isSome

theorem mem_rowsOf {page row : Element} : row ∈ rowsOf page ↔ page.IsRow row := by
  rw [rowsOf, List.mem_filter, Element.descendantsNamed_eq_filter, List.mem_filter, Element.mem_descendants_iff,
    Option.isSome_iff_exists]
  simp only [Command.ofRow?_eq_some_iff]
  constructor
  · rintro ⟨⟨hbelow, hname⟩, c, first, second, third, hcells, hblank, -⟩
    exact ⟨hbelow, hname, first, second, third, hcells, hblank⟩
  · rintro ⟨hbelow, hname, first, second, third, hcells, hblank⟩
    exact ⟨⟨hbelow, hname⟩, _, first, second, third, hcells, hblank, rfl⟩

theorem pairwise_rowsOf (h : Element.read? source = some root) :
    (rowsOf root).Pairwise fun row row' => row.span.first < row'.span.first := by
  have hstarts := Element.pairwise_starts h
  rw [Element.starts, List.pairwise_map, List.pairwise_cons] at hstarts
  rw [rowsOf, Element.descendantsNamed_eq_filter]
  exact (hstarts.2.filter _).filter _

/-- **Sources are read without loss.**  A `<unit>` is read if and only if all its child elements write commands, and
then its commands are theirs, one by one; the tags of the source alone, without texts and comments, give the same
result.  An `<html>` page is always read, and its commands are those of its rows, one by one and in the order in which
the rows start.  No other document is read. -/
theorem sources_are_read_without_loss (path source : String) (root : Element) (h : Element.read? source = some root) :
    (root.name = "unit" →
      ((∃ u, read path source = .ok u) ↔ ∀ e ∈ root.childElements, e.IsCommand) ∧
      (∀ u, read path source = .ok u → List.Forall₂ Command.WrittenBy root.childElements u.commands) ∧
      ∃ tokens bare, Token.all? source.toList = some tokens ∧
        Element.ofTokens? source.toList (tokens.filter (·.token.isTag)) = some bare ∧
        (ofElement path bare).mapError SourceError.fault = read path source) ∧
    (root.name = "html" → ∃ u rows, read path source = .ok u ∧
      rows.Pairwise (fun row row' => row.span.first < row'.span.first) ∧
      (∀ row, row ∈ rows ↔ root.IsRow row) ∧
      List.Forall₂ Command.WrittenByRow rows u.commands) ∧
    (root.name ≠ "unit" → root.name ≠ "html" → ∃ f, read path source = .error f) := by
  refine ⟨fun hroot => ⟨?_, fun u hu => ((read_unit_eq_ok_iff h hroot).1 hu).1, ?_⟩, fun hroot => ?_,
    fun hunit hhtml => ?_⟩
  · simp only [read_unit_eq_ok_iff h hroot]
    constructor
    · rintro ⟨u, hcommands, -⟩ e he
      exact Command.exists_writtenBy_iff.1 (exists_forall₂_iff.1 ⟨u.commands, hcommands⟩ e he)
    · intro hall
      obtain ⟨commands, hcommands⟩ := exists_forall₂_iff.2 fun e he => Command.exists_writtenBy_iff.2 (hall e he)
      exact ⟨⟨_, _, commands⟩, hcommands, rfl, rfl⟩
  · obtain ⟨tokens, htokens, hread⟩ := Option.bind_eq_some_iff.1 (read?_eq source ▸ h)
    refine ⟨tokens, root.bare, htokens, Element.ofTokens?_tags hread, ?_⟩
    rw [ofElement_bare hroot, read_of_read? path h]
  · refine ⟨_, rowsOf root, read_html h hroot, pairwise_rowsOf h, fun row => mem_rowsOf, ?_⟩
    exact (forall₂_filterMap Command.ofRow? _).imp fun _ _ => Command.ofRow?_eq_some_iff.1
  · rw [read_of_read? path h, ofElement, if_neg hunit, if_neg hhtml]
    exact ⟨_, rfl⟩

/-- A page with a row in capitals, one whose first cell is blank and one in a cell of another. -/
def nestedRows : String :=
  "<html><TR><td> a </td><td/><td/></TR><tr><td> </td><td/><td/></tr>" ++
    "<tr><td>b<tr><td>c</td><td/><td/></tr></td><td/><td/></tr></html>"

/-- A unit with a text and a comment between its commands. -/
def commentedUnit : String :=
  "<unit><command name=' echo ' target='a'/> then <!-- <command name='b'/> --><command name='c'/></unit>"

theorem page_and_unit_are_read :
    (∃ root u rows, Element.read? nestedRows = some root ∧ root.name = "html" ∧
      read "page.html" nestedRows = .ok u ∧ u.commands.map Command.name = ["a", "bc", "c"] ∧
      (∀ row, row ∈ rows ↔ root.IsRow row) ∧ List.Forall₂ Command.WrittenByRow rows u.commands) ∧
    ∃ root u, Element.read? commentedUnit = some root ∧ root.name = "unit" ∧
      (∀ e ∈ root.childElements, e.IsCommand) ∧ read "main.xml" commentedUnit = .ok u ∧
      u.commands.map Command.name = ["echo", "c"] ∧
      List.Forall₂ Command.WrittenBy root.childElements u.commands ∧
      ∃ tokens bare, Token.all? commentedUnit.toList = some tokens ∧
        (tokens.filter (·.token.isTag)).length < tokens.length ∧
        Element.ofTokens? commentedUnit.toList (tokens.filter (·.token.isTag)) = some bare ∧
        (ofElement "main.xml" bare).mapError SourceError.fault = .ok u := by
  constructor
  · have hsome : (Element.read? nestedRows).map Element.name = some "html" := by decide +kernel
    have hnames : (read "page.html" nestedRows).toOption.map (fun u => u.commands.map Command.name) =
        some ["a", "bc", "c"] := by decide +kernel
    obtain ⟨root, hroot, hname⟩ := Option.map_eq_some_iff.1 hsome
    obtain ⟨u, rows, hu, -, hrows, hcommands⟩ :=
      (sources_are_read_without_loss "page.html" nestedRows root hroot).2.1 hname
    rw [hu] at hnames
    exact ⟨root, u, rows, hroot, hname, hu, Option.some_inj.1 hnames, hrows, hcommands⟩
  · have hsome : (Element.read? commentedUnit).map Element.name = some "unit" := by decide +kernel
    have hnames : (read "main.xml" commentedUnit).toOption.map (fun u => u.commands.map Command.name) =
        some ["echo", "c"] := by decide +kernel
    have hfewer : (Token.all? commentedUnit.toList).all
        (fun tokens => decide ((tokens.filter (·.token.isTag)).length < tokens.length)) = true := by decide +kernel
    obtain ⟨root, hroot, hname⟩ := Option.map_eq_some_iff.1 hsome
    obtain ⟨hiff, hwritten, tokens, bare, htokens, hbare, hsame⟩ :=
      (sources_are_read_without_loss "main.xml" commentedUnit root hroot).1 hname
    cases hu : read "main.xml" commentedUnit with
    | error f =>
      rw [hu] at hnames
      cases hnames
    | ok u =>
      rw [hu] at hnames hsame
      rw [htokens] at hfewer
      exact ⟨root, u, hroot, hname, hiff.1 ⟨u, hu⟩, rfl, Option.some_inj.1 hnames, hwritten u hu, tokens, bare,
        htokens, of_decide_eq_true hfewer, hbare, hsame⟩

end ScriptUnit

end BlockFlow
