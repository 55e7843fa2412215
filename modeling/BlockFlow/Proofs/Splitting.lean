/-
# Splitting expressions apart

Expressions that stand in one text with separators between them are split apart again.  `Expression`
says what a text of an expression is made of: complete literals, balanced brackets around such texts,
and characters that are neither marks nor, outside of brackets, the separator.

`splitTopLevel_intercalate` says that splitting gives back the expressions that were joined, with any
white space around them, unless a literal has an escaped mark in it: the mark is taken for the literal's
end, whatever stands before it, as the example below shows.
-/
import BlockFlow.Text.Split
import Mathlib.Data.List.Basic

namespace BlockFlow.Text

/-! ## 1. Texts of expressions -/

/-- Whether a character opens or closes a literal or a group. -/
def isMark (c : Char) : Bool := isQuote c || isOpening c || isClosing c

/-- The brackets that open and close a group. -/
def brackets : List (Char × Char) := [('(', ')'), ('[', ']'), ('\x7b', '\x7d')]

/-- **What stands between the marks of a literal**: characters other than the mark, and a backslash with any
character behind it.  Between backquotes a backslash is a character like the others. -/
inductive Literal (mark : Char) : List Char → Prop
  | nil : Literal mark []
  | char {c cs} : c ≠ mark → (c = '\\' → mark.toNat = 0x60) → Literal mark cs → Literal mark (c :: cs)
  | escape {c cs} : mark.toNat ≠ 0x60 → Literal mark cs → Literal mark ('\\' :: c :: cs)

/-- A literal that has no escaped mark in it. -/
def Literal.Plain (mark : Char) (body : List Char) : Prop := Literal mark body ∧ mark ∉ body

/-- **The text of an expression**: literals of a kind, brackets around such texts, and other characters,
which are none of those that are barred outside of brackets. -/
inductive Expression (literal : Char → List Char → Prop) : List Char → List Char → Prop
  | nil {barred} : Expression literal barred []
  | char {barred c cs} : isMark c = false → c ∉ barred → Expression literal barred cs →
      Expression literal barred (c :: cs)
  | literal {barred mark body cs} : isQuote mark = true → literal mark body → Expression literal barred cs →
      Expression literal barred (mark :: (body ++ mark :: cs))
  | group {barred opening closing inside cs} : (opening, closing) ∈ brackets → Expression literal [] inside →
      Expression literal barred cs → Expression literal barred (opening :: (inside ++ closing :: cs))

/-- A text with white space around it. -/
structure Padded where
  before : String := ""
  text : String
  after : String := ""

/-- The text together with the white space. -/
def Padded.whole (p : Padded) : String := p.before ++ p.text ++ p.after

/-- The text of an expression, neither empty nor with white space at its ends, has white space around it. -/
structure Padded.Holds (p : Padded) (literal : Char → List Char → Prop) (separator : Char) : Prop where
  before : allBlank p.before = true
  after : allBlank p.after = true
  nonempty : p.text ≠ ""
  trimmed : trim p.text = p.text
  expression : Expression literal [separator] p.text.toList

namespace Expression

variable {literal : Char → List Char → Prop} {barred cs ds : List Char}

theorem append (h : Expression literal barred cs) (h' : Expression literal barred ds) :
    Expression literal barred (cs ++ ds) := by
  induction h with
  | nil => exact h'
  | char hmark hbarred _ ih => exact .char hmark hbarred (ih h')
  | literal hquote hbody _ ih => simpa using .literal hquote hbody (ih h')
  | group hpair hinside _ _ ih => simpa using .group hpair hinside (ih h')

theorem of_chars (h : (cs.all fun c => !isMark c && !barred.contains c) = true) : Expression literal barred cs := by
  induction cs with
  | nil => exact .nil
  | cons c cs ih =>
    simp only [List.all_cons, Bool.and_eq_true, Bool.not_eq_true', List.contains_eq_mem,
      decide_eq_false_iff_not] at h
    exact .char h.1.1 h.1.2 (ih (by simpa using h.2))

/-- A mark is not blank. -/
theorem isBlank_of_isMark {c : Char} (h : isMark c = true) : isBlank c = false := by
  have hn : c.toNat ∈ [0x22, 0x27, 0x28, 0x29, 0x5B, 0x5D, 0x60, 0x7B, 0x7D] := by
    simp only [isMark, isQuote, isOpening, isClosing, Bool.or_eq_true, beq_iff_eq] at h
    rcases h with (((rfl | rfl) | h) | ((rfl | rfl) | h)) | ((rfl | rfl) | h) <;> simp_all
  simp only [List.mem_cons, List.not_mem_nil, or_false] at hn
  rcases hn with hn | hn | hn | hn | hn | hn | hn | hn | hn <;> rw [isBlank, hn] <;> rfl

end Expression

/-! ## 2. What the splitter makes of them -/

section

variable {separator : Char} {depth : Nat} {barred cs rest : List Char}

theorem prepend_modifyHead {c : Char} {f : List Char → List Char} {ps : List (List Char)} (h : ps ≠ []) :
    prepend c (ps.modifyHead f) = ps.modifyHead fun p => c :: f p := by
  cases ps with
  | nil => exact absurd rfl h
  | cons p ps => rfl

/-- A literal without its mark in it is read up to its end. -/
theorem pieces_literal {mark : Char} (h : mark ∉ cs) : pieces separator depth (some mark) (cs ++ mark :: rest) =
    (pieces separator depth none rest).modifyHead fun p => cs ++ mark :: p := by
  have hrest := pieces_ne_nil separator depth none rest
  induction cs with
  | nil =>
    rw [List.nil_append, pieces, beq_self_eq_true, if_pos rfl]
    have hmark := prepend_modifyHead (c := mark) (f := id) hrest
    rwa [List.modifyHead_id] at hmark
  | cons c cs ih =>
    obtain ⟨hc, hcs⟩ := List.ne_and_not_mem_of_not_mem_cons h
    rw [List.cons_append, pieces, beq_false_of_ne (Ne.symm hc), if_neg Bool.false_ne_true, ih hcs,
      prepend_modifyHead hrest]
    rfl

/-- What the splitter sees in a pair of brackets. -/
theorem seen_of_mem_brackets : ∀ p ∈ brackets, isQuote p.1 = false ∧ isOpening p.1 = true ∧
    isQuote p.2 = false ∧ isOpening p.2 = false ∧ isClosing p.2 = true := by decide

/-- **The text of an expression is read in one piece**, and leaves the number of open brackets as it was. -/
theorem pieces_expression (h : Expression Literal.Plain barred cs) (hbarred : depth = 0 → separator ∈ barred) :
    pieces separator depth none (cs ++ rest) = (pieces separator depth none rest).modifyHead (cs ++ ·) := by
  induction h generalizing depth rest with
  | nil => exact congrFun List.modifyHead_id.symm _
  | @char barred c cs hmark hc _ ih =>
    simp only [isMark, Bool.or_eq_false_iff] at hmark
    have hcut : (c == separator && depth == 0) = false := by
      refine Bool.eq_false_iff.2 fun hcut => ?_
      simp only [Bool.and_eq_true, beq_iff_eq] at hcut
      exact hc (hcut.1 ▸ hbarred hcut.2)
    rw [List.cons_append, pieces]
    simp only [hmark, hcut, Bool.false_and, Bool.false_eq_true, if_false]
    rw [ih hbarred, prepend_modifyHead (pieces_ne_nil _ _ _ _)]
    rfl
  | @literal barred mark body cs hquote hbody _ ih =>
    rw [List.cons_append, List.append_assoc, List.cons_append, pieces, if_pos hquote, pieces_literal hbody.2,
      prepend_modifyHead (pieces_ne_nil _ _ _ _), ih hbarred, List.modifyHead_modifyHead]
    congr 1
    funext p
    simp
  | @group barred opening closing inside cs hpair _ _ ihinside ih =>
    obtain ⟨hquote, hopening, hquote', hopening', hclosing⟩ := seen_of_mem_brackets _ hpair
    -- inside of the brackets the separator is a character like the others
    have hinside : pieces separator (depth + 1) none (inside ++ closing :: (cs ++ rest)) =
        (pieces separator (depth + 1) none (closing :: (cs ++ rest))).modifyHead (inside ++ ·) := ihinside (by omega)
    have hclose : pieces separator (depth + 1) none (closing :: (cs ++ rest)) =
        prepend closing (pieces separator depth none (cs ++ rest)) := by
      rw [pieces]
      simp [hquote', hopening', hclosing]
    rw [List.cons_append, List.append_assoc, List.cons_append, pieces, if_neg (by simp [hquote]), if_pos hopening,
      hinside, hclose, ih hbarred, prepend_modifyHead (pieces_ne_nil _ _ _ _), List.modifyHead_modifyHead,
      prepend_modifyHead (pieces_ne_nil _ _ _ _)]
    congr 1
    funext p
    simp

/-- Texts of expressions with separators between them are the pieces. -/
theorem pieces_intercalate {ps : List (List Char)} (hseparator : isMark separator = false) (hps : ps ≠ [])
    (h : ∀ p ∈ ps, Expression Literal.Plain [separator] p) :
    pieces separator 0 none ([separator].intercalate ps) = ps := by
  induction ps with
  | nil => exact absurd rfl hps
  | cons p ps ih =>
    obtain ⟨hp, hrest⟩ := List.forall_mem_cons.1 h
    have hread (rest : List Char) : pieces separator 0 none (p ++ rest) =
        (pieces separator 0 none rest).modifyHead (p ++ ·) :=
      pieces_expression hp fun _ => List.mem_singleton_self separator
    cases ps with
    | nil => simpa [pieces] using hread []
    | cons q ps =>
      have hcut (rest : List Char) :
          pieces separator 0 none (separator :: rest) = [] :: pieces separator 0 none rest := by
        simp only [isMark, Bool.or_eq_false_iff] at hseparator
        rw [pieces]
        simp [hseparator]
      rw [List.intercalate_cons_cons, List.append_assoc, List.singleton_append, hread, hcut,
        ih (List.cons_ne_nil _ _) hrest, List.modifyHead_cons, List.append_nil]

end

/-! ## 3. Splitting undoes joining -/

/-- A trimmed text starts with no white space. -/
theorem dropWhile_of_trimmed {cs : List Char} (h : trimChars cs = cs) : cs.dropWhile isBlank = cs := by
  have hlength := congrArg List.length h
  have hle : ((cs.dropWhile isBlank).reverse.dropWhile isBlank).length ≤ (cs.dropWhile isBlank).reverse.length :=
    (List.dropWhile_sublist isBlank).length_le
  rw [trimChars, List.length_reverse] at hlength
  rw [List.length_reverse] at hle
  exact (List.dropWhile_suffix isBlank).eq_of_length_le (by omega)

/-- Trimming takes off the white space around a trimmed text. -/
theorem trimChars_padded {before cs after : List Char} (hbefore : before.all isBlank = true)
    (hafter : after.all isBlank = true) (hcs : cs ≠ []) (h : trimChars cs = cs) :
    trimChars (before ++ cs ++ after) = cs := by
  have hhead := dropWhile_of_trimmed h
  have hfront : (before ++ cs ++ after).dropWhile isBlank = cs ++ after := by
    rw [List.append_assoc, List.dropWhile_append_of_pos (List.all_eq_true.1 hbefore), List.dropWhile_append, hhead,
      if_neg (by simpa using hcs)]
  rw [trimChars, hfront, List.reverse_append, List.dropWhile_append_of_pos]
  · rwa [trimChars, hhead] at h
  · simpa using hafter

namespace Padded

variable {p : Padded} {separator : Char} {literal : Char → List Char → Prop}

theorem toList_whole (p : Padded) : p.whole.toList = p.before.toList ++ p.text.toList ++ p.after.toList := by
  simp [whole]

/-- White space around an expression makes no difference to what the text is made of. -/
theorem Holds.whole (h : p.Holds Literal.Plain separator) (hseparator : isBlank separator = false) :
    Expression Literal.Plain [separator] p.whole.toList := by
  have hblank {cs : List Char} (hcs : cs.all isBlank = true) : Expression Literal.Plain [separator] cs := by
    refine .of_chars (List.all_eq_true.2 fun c hc => ?_)
    have hc := List.all_eq_true.1 hcs c hc
    suffices h : isMark c = false ∧ c ∉ [separator] by simpa using h
    refine ⟨Bool.eq_false_iff.2 fun hmark => ?_, fun hmem => ?_⟩
    · rw [Expression.isBlank_of_isMark hmark] at hc
      cases hc
    · rw [List.mem_singleton.1 hmem, hseparator] at hc
      cases hc
  rw [toList_whole]
  exact ((hblank h.before).append h.expression).append (hblank h.after)

theorem Holds.trimChars_text (h : p.Holds literal separator) : trimChars p.text.toList = p.text.toList := by
  rw [← toList_trim, h.trimmed]

theorem Holds.trim_whole (h : p.Holds literal separator) : String.ofList (trimChars p.whole.toList) = p.text := by
  rw [toList_whole, trimChars_padded h.before h.after (by simpa using h.nonempty) h.trimChars_text,
    String.ofList_toList]

theorem Holds.not_blank (h : p.Holds literal separator) : p.whole.toList.all isBlank = false := by
  refine Bool.eq_false_iff.2 fun hall => h.nonempty ?_
  rw [toList_whole, List.all_append, List.all_append, Bool.and_eq_true, Bool.and_eq_true] at hall
  have hnil : (p.text.toList ++ []).dropWhile isBlank = [].dropWhile isBlank :=
    List.dropWhile_append_of_pos (List.all_eq_true.1 hall.1.2)
  rwa [List.append_nil, dropWhile_of_trimmed h.trimChars_text, List.dropWhile_nil, String.toList_eq_nil_iff] at hnil

end Padded

/-- Pieces that are not blank are the parts, when they are trimmed. -/
theorem splitTopLevel_of_pieces {separator : Char} {s : String} {ps : List (List Char)}
    (hpieces : pieces separator 0 none s.toList = ps) (h : ∀ p ∈ ps, p.all isBlank = false) :
    splitTopLevel separator s = ps.map fun p => String.ofList (trimChars p) := by
  rw [splitTopLevel, hpieces]
  split
  · rename_i p
    rw [if_neg (Bool.eq_false_iff.1 (h p (List.mem_singleton_self p)))]
    rfl
  · rfl

/-- **Splitting undoes joining**: expressions with separators between them and white space around them are
what the text is split into, unless a literal has an escaped mark in it. -/
theorem splitTopLevel_intercalate {separator : Char} {ps : List Padded} (hseparator : separator ∈ [',', ';'])
    (hps : ps ≠ []) (h : ∀ p ∈ ps, p.Holds Literal.Plain separator) :
    splitTopLevel separator ((String.singleton separator).intercalate (ps.map Padded.whole)) =
      ps.map Padded.text := by
  have hseparators : ([',', ';'].all fun c => !isMark c && !isBlank c) = true := by decide
  obtain ⟨hmark, hblank⟩ : isMark separator = false ∧ isBlank separator = false := by
    simpa using List.all_eq_true.1 hseparators separator hseparator
  have hpieces : pieces separator 0 none ((String.singleton separator).intercalate (ps.map Padded.whole)).toList =
      ps.map fun p => p.whole.toList := by
    rw [String.toList_intercalate, String.toList_singleton, List.map_map]
    refine pieces_intercalate hmark (by simpa using hps) fun cs hcs => ?_
    obtain ⟨p, hp, rfl⟩ := List.mem_map.1 hcs
    exact (h p hp).whole hblank
  rw [splitTopLevel_of_pieces hpieces, List.map_map]
  · exact List.map_congr_left fun p hp => (h p hp).trim_whole
  · intro cs hcs
    obtain ⟨p, hp, rfl⟩ := List.mem_map.1 hcs
    exact (h p hp).not_blank

/-- Separators, brackets and other marks in literals and groups split nothing. -/
theorem three_arguments_are_split : ∃ ps : List Padded,
    (',' ∈ [',', ';'] ∧ ps ≠ [] ∧ ∀ p ∈ ps, p.Holds Literal.Plain ',') ∧
    splitTopLevel ',' "a = f(1, [x, ')']) , b = \"it's, \\\\\",c = 2" = ps.map Padded.text ∧
    ps.map Padded.text = ["a = f(1, [x, ')'])", "b = \"it's, \\\\\"", "c = 2"] := by
  have hfirst : Expression Literal.Plain [','] "a = f(1, [x, ')'])".toList := by
    have hname : Expression Literal.Plain [','] "a = f".toList := .of_chars (by decide)
    have hone : Expression Literal.Plain [] "1, ".toList := .of_chars (by decide)
    have hx : Expression Literal.Plain [] "x, ".toList := .of_chars (by decide)
    have hchar : Literal.Plain '\'' [')'] := ⟨.char (by decide) (by decide) .nil, by decide⟩
    exact hname.append (.group (by decide) (hone.append
      (.group (by decide) (hx.append (.literal (by decide) hchar .nil)) .nil)) .nil)
  have hsecond : Expression Literal.Plain [','] "b = \"it's, \\\\\"".toList := by
    have hname : Expression Literal.Plain [','] "b = ".toList := .of_chars (by decide)
    have hbody : Literal '"' "it's, \\\\".toList :=
      .char (by decide) (by decide) <| .char (by decide) (by decide) <| .char (by decide) (by decide) <|
        .char (by decide) (by decide) <| .char (by decide) (by decide) <| .char (by decide) (by decide) <|
          .escape (by decide) .nil
    have htext : Literal.Plain '"' "it's, \\\\".toList := ⟨hbody, by decide⟩
    exact hname.append (.literal (by decide) htext .nil)
  have hthird : Expression Literal.Plain [','] "c = 2".toList := .of_chars (by decide)
  have hps : ∀ p ∈ [⟨"", "a = f(1, [x, ')'])", " "⟩, ⟨" ", "b = \"it's, \\\\\"", ""⟩, ⟨"", "c = 2", ""⟩],
      Padded.Holds p Literal.Plain ',' := by
    simp only [List.forall_mem_cons, List.not_mem_nil, false_implies, implies_true, and_true]
    exact ⟨⟨by decide, by decide, by decide, by decide, hfirst⟩,
      ⟨by decide, by decide, by decide, by decide, hsecond⟩,
      ⟨by decide, by decide, by decide, by decide, hthird⟩⟩
  exact ⟨_, ⟨by decide, by decide, hps⟩, splitTopLevel_intercalate (by decide) (by decide) hps, rfl⟩

/-- The mark that a backslash escapes is taken for the end of its literal. -/
example : splitTopLevel ',' "a = \"x\\\",y\"" = ["a = \"x\\\"", "y\""] := by decide

end BlockFlow.Text
