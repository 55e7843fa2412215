/-
# Placeholders are expanded in one pass

A text is **plain** if no placeholder occurs in it, whatever dollar signs and braces it has.  Every text is made of
plain chunks with placeholders between them.  `expand_is_one_pass` says that expanding such a text keeps the chunks and
puts in the place of each placeholder the text of its variable, or the placeholder itself if the variable is not
stored.  The texts of variables are arbitrary, so what was put in is not expanded again, also where it completes a
placeholder with its neighbours.

Two facts carry this: a placeholder can start at a dollar sign only (`placeholder?_eq_some_iff`), and there is none
behind its first character (`dollar_not_mem_name`), so that the reader finds each of them where it was written.
-/
import BlockFlow.Host

namespace BlockFlow

namespace Text

/-! ## 1. Where a placeholder stands -/

/-- The placeholder of a name. -/
def placeholder (name : String) : String := "$\x7b" ++ name ++ "\x7d"

/-- **No placeholder occurs in the text.** -/
def IsPlain (text : String) : Prop := ∀ name, isName name = true → ¬ (placeholder name).toList <:+: text.toList

theorem toList_placeholder (name : String) :
    (placeholder name).toList = '$' :: '\x7b' :: (name.toList ++ ['\x7d']) := by
  simp [placeholder]

theorem isName_ofList_cons (c : Char) (cs : List Char) :
    isName (String.ofList (c :: cs)) = (isNameStart c && cs.all isWord) := by
  simp [isName]

/-- A character that is none of those a name is made of does not stand in one. -/
theorem not_mem_name {name : String} {c : Char} (h : isName name = true) (hstart : isNameStart c = false)
    (hword : isWord c = false) : c ∉ name.toList := by
  intro hmem
  unfold isName at h
  split at h
  · rename_i hname
    rw [hname] at hmem
    cases hmem
  · rename_i d ds hname
    rw [hname] at hmem
    simp only [Bool.and_eq_true, List.all_eq_true] at h
    rcases List.mem_cons.1 hmem with rfl | hmem
    · rw [hstart] at h
      exact absurd h.1 Bool.false_ne_true
    · rw [h.2 c hmem] at hword
      cases hword

/-- There is no dollar sign behind the first character of a placeholder. -/
theorem dollar_not_mem_name {name : String} (h : isName name = true) :
    '$' ∉ '\x7b' :: (name.toList ++ ['\x7d']) := by
  have hname : '$' ∉ name.toList := not_mem_name h (by decide) (by decide)
  simp [hname]

/-- **A placeholder is found exactly where one is written.** -/
theorem placeholder?_eq_some_iff {cs name : List Char} : placeholder? cs = some name ↔
    isName (String.ofList name) = true ∧ (placeholder (String.ofList name)).toList <+: cs := by
  rw [toList_placeholder, String.toList_ofList]
  constructor
  · intro h
    unfold placeholder? at h
    split at h
    · rename_i c cs
      split at h
      · rename_i hcond
        cases h
        obtain ⟨hstart, hclose⟩ : isNameStart c = true ∧ (cs.dropWhile isWord).head? = some '\x7d' := by
          simpa using hcond
        obtain ⟨rest, hrest⟩ : ∃ rest, cs.dropWhile isWord = '\x7d' :: rest := by
          cases hdrop : cs.dropWhile isWord with
          | nil => simp [hdrop] at hclose
          | cons d rest =>
            obtain rfl : d = '\x7d' := by simpa [hdrop] using hclose
            exact ⟨rest, rfl⟩
        refine ⟨?_, rest, ?_⟩
        · rw [isName_ofList_cons, hstart, List.all_takeWhile]
          rfl
        · have hsplit : cs.takeWhile isWord ++ cs.dropWhile isWord = cs := List.takeWhile_append_dropWhile
          rw [hrest] at hsplit
          simp [hsplit]
      · cases h
    · cases h
  · rintro ⟨hname, rest, rfl⟩
    cases name with
    | nil => cases hname
    | cons c name =>
      rw [isName_ofList_cons, Bool.and_eq_true, List.all_eq_true] at hname
      have hclose : isWord '\x7d' = false := by decide
      have htake : (name ++ '\x7d' :: rest).takeWhile isWord = name := by
        rw [List.takeWhile_append_of_pos hname.2, List.takeWhile_cons_of_neg (by simp [hclose]), List.append_nil]
      have hdrop : (name ++ '\x7d' :: rest).dropWhile isWord = '\x7d' :: rest := by
        rw [List.dropWhile_append_of_pos hname.2, List.dropWhile_cons_of_neg (by simp [hclose])]
      simp [placeholder?, htake, hdrop, hname.1]

/-- A text without dollar signs is plain. -/
theorem isPlain_of_no_dollar {text : String} (h : '$' ∉ text.toList) : IsPlain text := by
  intro name _ hin
  refine h (hin.subset ?_)
  rw [toList_placeholder]
  exact List.mem_cons_self

/-! ## 2. Expanding piece by piece -/

/-- A placeholder together with the chunk of text behind it. -/
structure Segment where
  name : String
  chunk : String

/-- The segment as it is written. -/
def Segment.written (s : Segment) : String := placeholder s.name ++ s.chunk

/-- What is put in the place of a placeholder. -/
def substitute (lookup : Lookup) (name : String) : String := (lookup name).getD (placeholder name)

/-- The segment with the placeholder expanded. -/
def Segment.expanded (lookup : Lookup) (s : Segment) : String := substitute lookup s.name ++ s.chunk

section

variable (lookup : Lookup)

theorem expandFrom_skip (cs rest : List Char) :
    expandFrom lookup cs.length (cs ++ rest) = expandFrom lookup 0 rest := by
  induction cs with
  | nil => rfl
  | cons c cs ih => exact ih

/-- Characters at which no placeholder starts stay. -/
theorem expandFrom_append {chunk rest : List Char}
    (h : ∀ c cs, c :: cs <:+ chunk → placeholder? (c :: (cs ++ rest)) = none) :
    expandFrom lookup 0 (chunk ++ rest) = chunk ++ expandFrom lookup 0 rest := by
  induction chunk with
  | nil => rfl
  | cons c cs ih =>
    have hhere := h c cs (List.suffix_refl _)
    have hlater := ih fun d ds hds => h d ds (hds.trans (List.suffix_cons c cs))
    simp [expandFrom, hhere, hlater]

/-- Without dollar signs no placeholder starts, whatever comes behind. -/
theorem expandFrom_of_not_mem {chunk : List Char} (h : '$' ∉ chunk) (rest : List Char) :
    expandFrom lookup 0 (chunk ++ rest) = chunk ++ expandFrom lookup 0 rest := by
  refine expandFrom_append lookup fun c cs hsuffix => ?_
  cases hfound : placeholder? (c :: (cs ++ rest)) with
  | none => rfl
  | some name =>
    have hstarts := (placeholder?_eq_some_iff.1 hfound).2
    rw [toList_placeholder, List.cons_prefix_cons] at hstarts
    exact absurd (hsuffix.subset (hstarts.1 ▸ List.mem_cons_self)) h

/-- **In a plain chunk no placeholder starts**, not even one that the text behind the chunk would complete, if that text
is empty or starts with a dollar sign. -/
theorem expandFrom_of_isPlain {chunk : String} (h : IsPlain chunk) {rest : List Char}
    (hrest : ∀ c ∈ rest.head?, c = '$') :
    expandFrom lookup 0 (chunk.toList ++ rest) = chunk.toList ++ expandFrom lookup 0 rest := by
  refine expandFrom_append lookup fun c cs hsuffix => ?_
  cases hfound : placeholder? (c :: (cs ++ rest)) with
  | none => rfl
  | some name =>
    obtain ⟨hname, hstarts⟩ := placeholder?_eq_some_iff.1 hfound
    rw [← List.cons_append] at hstarts
    rcases List.prefix_or_prefix_of_prefix hstarts (List.prefix_append (c :: cs) rest) with hin | ⟨more, hmore⟩
    · exact absurd (hin.isInfix.trans hsuffix.isInfix) (h _ hname)
    · -- the placeholder would go on behind the chunk, and there with a dollar sign
      cases more with
      | nil =>
        rw [List.append_nil] at hmore
        exact absurd (hmore ▸ hsuffix.isInfix) (h _ hname)
      | cons d more =>
        obtain ⟨last, hlast⟩ := hstarts
        rw [← hmore, List.append_assoc, List.append_right_inj] at hlast
        obtain rfl : d = '$' := hrest d (by rw [← hlast]; rfl)
        rw [toList_placeholder, List.cons_append] at hmore
        have htail := (List.cons.inj hmore).2
        exact absurd (htail ▸ List.mem_append_right cs List.mem_cons_self) (dollar_not_mem_name hname)

/-- **A placeholder is replaced**, and what was put in is passed over. -/
theorem expandFrom_placeholder {name : String} (h : isName name = true) (rest : List Char) :
    expandFrom lookup 0 ((placeholder name).toList ++ rest) =
      (substitute lookup name).toList ++ expandFrom lookup 0 rest := by
  have hfound : placeholder? ((placeholder name).toList ++ rest) = some name.toList := by
    rw [placeholder?_eq_some_iff, String.ofList_toList]
    exact ⟨h, List.prefix_append _ rest⟩
  rw [substitute]
  rw [toList_placeholder, List.cons_append] at hfound ⊢
  rw [expandFrom, hfound]
  simp only [String.ofList_toList]
  cases lookup name with
  | none =>
    rw [Option.getD_none, toList_placeholder, List.cons_append]
    exact congrArg (List.cons '$') (expandFrom_of_not_mem lookup (dollar_not_mem_name h) rest)
  | some text =>
    have hlength : name.toList.length + 2 = ('\x7b' :: (name.toList ++ ['\x7d'])).length := by simp
    rw [Option.getD_some]
    dsimp only
    rw [hlength, expandFrom_skip]

/-- Segments start with a dollar sign. -/
theorem head?_written (segments : List Segment) :
    ∀ c ∈ (String.join (segments.map Segment.written)).toList.head?, c = '$' := by
  intro c hc
  cases segments with
  | nil => cases hc
  | cons s segments =>
    rw [List.map_cons, String.join_cons, Segment.written, String.toList_append, String.toList_append,
      toList_placeholder] at hc
    exact (Option.some.inj hc).symm

/-- Segments are expanded one after the other. -/
theorem expandFrom_segments {segments : List Segment}
    (h : ∀ s ∈ segments, isName s.name = true ∧ IsPlain s.chunk) :
    expandFrom lookup 0 (String.join (segments.map Segment.written)).toList =
      (String.join (segments.map (Segment.expanded lookup))).toList := by
  induction segments with
  | nil => rfl
  | cons s segments ih =>
    obtain ⟨⟨hname, hchunk⟩, hrest⟩ := List.forall_mem_cons.1 h
    rw [List.map_cons, List.map_cons, String.join_cons, String.join_cons, Segment.written, Segment.expanded]
    simp only [String.toList_append, List.append_assoc]
    rw [expandFrom_placeholder lookup hname, expandFrom_of_isPlain lookup hchunk (head?_written segments), ih hrest]

/-- A plain chunk with segments behind it is expanded segment by segment. -/
theorem expand_segments {first : String} {segments : List Segment} (hfirst : IsPlain first)
    (h : ∀ s ∈ segments, isName s.name = true ∧ IsPlain s.chunk) :
    expand lookup (first ++ String.join (segments.map Segment.written)) =
      first ++ String.join (segments.map (Segment.expanded lookup)) := by
  rw [expand, String.toList_append, expandFrom_of_isPlain lookup hfirst (head?_written segments),
    expandFrom_segments lookup h, ← String.toList_append, String.ofList_toList]

end

end Text

open Text

/-- **Placeholders are expanded in one pass.**  In a text made of plain chunks with placeholders between them, each
placeholder is replaced by the text of its variable, whatever that text looks like, or stays if the variable is not
stored, and the chunks stay.  A chunk without dollar signs is plain, and a plain text is left alone. -/
theorem Namespace.expand_is_one_pass (vars : Namespace) :
    (∀ (first : String) (segments : List Segment), IsPlain first →
      (∀ s ∈ segments, isName s.name = true ∧ IsPlain s.chunk) →
      vars.expand (first ++ String.join (segments.map fun s => placeholder s.name ++ s.chunk)) =
        first ++ String.join (segments.map fun s =>
          ((vars.get? s.name).map Value.display).getD (placeholder s.name) ++ s.chunk)) ∧
    (∀ text : String, '$' ∉ text.toList → IsPlain text) ∧
    ∀ text : String, IsPlain text → vars.expand text = text := by
  have hlaw := @expand_segments fun name => (vars.get? name).map Value.display
  refine ⟨?_, ?_, ?_⟩
  · intro first segments hfirst hsegments
    exact hlaw hfirst hsegments
  · intro text h
    exact isPlain_of_no_dollar h
  · intro text h
    have hwhole := hlaw h (List.forall_mem_nil _)
    rwa [List.map_nil, List.map_nil, String.join_nil, String.append_empty] at hwhole

/-- A value that looks like a placeholder, or makes one with the text around it, is not expanded. -/
theorem Namespace.values_are_not_expanded :
    (IsPlain "$\x7b" ∧ ∀ s ∈ [⟨"a", "\x7d"⟩, ⟨"b", ""⟩, ⟨"c", ""⟩], isName (Segment.name s) = true ∧ IsPlain s.chunk) ∧
    Namespace.expand (Dict.ofList [("a", .text "b"), ("b", .text "$\x7ba\x7d")])
      "$\x7b$\x7ba\x7d\x7d$\x7bb\x7d$\x7bc\x7d" = "$\x7bb\x7d$\x7ba\x7d$\x7bc\x7d" := by
  have hfirst : IsPlain "$\x7b" := by
    intro name _ hin
    have hle := hin.length_le
    simp [toList_placeholder] at hle
  have hsegments : ∀ s ∈ [⟨"a", "\x7d"⟩, ⟨"b", ""⟩, ⟨"c", ""⟩], isName (Segment.name s) = true ∧ IsPlain s.chunk := by
    simp only [List.forall_mem_cons, List.not_mem_nil, false_implies, implies_true, and_true]
    exact ⟨⟨by decide, isPlain_of_no_dollar (by decide)⟩, ⟨by decide, isPlain_of_no_dollar (by decide)⟩,
      ⟨by decide, isPlain_of_no_dollar (by decide)⟩⟩
  have hwritten : "$\x7b$\x7ba\x7d\x7d$\x7bb\x7d$\x7bc\x7d" = "$\x7b" ++ String.join
      ([⟨"a", "\x7d"⟩, ⟨"b", ""⟩, ⟨"c", ""⟩].map fun s : Segment => placeholder s.name ++ s.chunk) := by decide
  refine ⟨⟨hfirst, hsegments⟩, ?_⟩
  rw [hwritten, (expand_is_one_pass _).1 _ _ hfirst hsegments]
  have ha : (Dict.ofList [("a", Value.text "b"), ("b", .text "$\x7ba\x7d")]).get? "a" = some (.text "b") := rfl
  have hb : (Dict.ofList [("a", Value.text "b"), ("b", .text "$\x7ba\x7d")]).get? "b" = some (.text "$\x7ba\x7d") := rfl
  have hc : (Dict.ofList [("a", Value.text "b"), ("b", .text "$\x7ba\x7d")]).get? "c" = none := rfl
  simp [ha, hb, hc, placeholder, Value.display]

end BlockFlow
