/-
# Where the elements of a document start

The elements of a document, each before those below it, are its opening tags in the order of the text
(`Element.starts_of_ofTokens?`): reading loses no tag, adds no element and moves none.  As every token takes at least
one character (`length_next?`), tokens start at places that increase strictly, and so do the elements
(`Element.pairwise_starts`).

Between tags there may be texts and comments.  Without them a reader goes through the same states but for the texts that
it has read (`Builder.step_bare`, `Builder.bare_of_not_isTag`), so that the tags alone give the same elements
(`Element.ofTokens?_tags`).
-/
import BlockFlow.Markup.Document
import BlockFlow.Proofs.Subtrees

namespace BlockFlow

/-! ## 1. The order of places -/

namespace Location

/-- On an earlier line, or further to the left on the same line. -/
instance : LT Location := ⟨fun a b => a.line < b.line ∨ a.line = b.line ∧ a.column < b.column⟩

theorem lt_iff_line_or_column {a b : Location} :
    a < b ↔ a.line < b.line ∨ a.line = b.line ∧ a.column < b.column := Iff.rfl

theorem lt_of_lt_of_lt {a b c : Location} (hab : a < b) (hbc : b < c) : a < c := by
  rw [lt_iff_line_or_column] at *
  omega

/-- A character further on is a place further on. -/
theorem ofOffset_lt_succ {n : Nat} {cs : List Char} (h : n < cs.length) : ofOffset n cs < ofOffset (n + 1) cs := by
  have htake : cs.take (n + 1) = cs.take n ++ [cs[n]] := List.take_succ_eq_append_getElem h
  rw [ofOffset, ofOffset, htake, List.foldl_append, lt_iff_line_or_column]
  simp only [List.foldl_cons, List.foldl_nil]
  split
  · exact .inl (Nat.lt_succ_self _)
  · exact .inr ⟨rfl, Nat.lt_succ_self _⟩

/-- **Places of a text increase with the characters before them.** -/
theorem ofOffset_lt {m n : Nat} {cs : List Char} (hmn : m < n) (hn : n ≤ cs.length) :
    ofOffset m cs < ofOffset n cs := by
  induction n with
  | zero => omega
  | succ n ih =>
    have hlast : ofOffset n cs < ofOffset (n + 1) cs := ofOffset_lt_succ hn
    rcases Nat.lt_succ_iff_lt_or_eq.1 hmn with h | rfl
    · exact lt_of_lt_of_lt (ih h (by omega)) hlast
    · exact hlast

end Location

namespace Markup

/-! ## 2. Tokens take characters -/

section

variable {cs rest : List Char}

theorem length_splitAtWord {word before : List Char} (h : splitAtWord word cs = some (before, rest)) :
    rest.length ≤ cs.length := by
  induction cs generalizing before with
  | nil =>
    rw [splitAtWord] at h
    split at h <;> cases h
    exact Nat.le_refl _
  | cons c cs ih =>
    rw [splitAtWord] at h
    split at h
    · cases h
      exact List.length_drop ▸ Nat.sub_le _ _
    · obtain ⟨⟨before', rest'⟩, hsplit, hp⟩ := Option.map_eq_some_iff.1 h
      cases hp
      exact Nat.le_succ_of_le (ih hsplit)

theorem length_skipSpace (cs : List Char) : (skipSpace cs).length ≤ cs.length :=
  (List.dropWhile_suffix isSpace).length_le

theorem length_takeQuoted? {body : List Char} (h : takeQuoted? cs = some (body, rest)) : rest.length ≤ cs.length := by
  cases cs with
  | nil => cases h
  | cons q cs =>
    rw [takeQuoted?] at h
    split at h
    · split at h
      · rename_i c rest' hdrop
        have hrest : (c :: rest').length ≤ cs.length := hdrop ▸ (List.dropWhile_suffix _).length_le
        dsimp only at h
        split at h <;> cases h
        exact Nat.le_of_succ_le (Nat.le_succ_of_le hrest)
      · cases h
    · cases h

theorem length_takeName? {name : List Char} (h : takeName? cs = some (name, rest)) : rest.length ≤ cs.length := by
  cases cs with
  | nil => cases h
  | cons c cs =>
    rw [takeName?] at h
    split at h <;> cases h
    exact Nat.le_succ_of_le (List.dropWhile_suffix isNameChar).length_le

theorem length_takeQName? {name : QName} (h : takeQName? cs = some (name, rest)) : rest.length ≤ cs.length := by
  simp only [takeQName?, Option.bind_eq_bind, Option.bind_eq_some_iff] at h
  obtain ⟨q, -, hq⟩ := h
  cases hq
  exact (List.dropWhile_suffix isNameChar).length_le

theorem length_takeAttribute? {a : Attribute} (h : takeAttribute? cs = some (a, rest)) : rest.length ≤ cs.length := by
  rw [takeAttribute?, Option.bind_eq_bind, Option.bind_eq_some_iff] at h
  obtain ⟨⟨name, afterName⟩, hname, h⟩ := h
  dsimp only at h
  have hn := length_takeQName? hname
  have hs := length_skipSpace afterName
  split at h
  · rename_i afterEquals hequals
    obtain ⟨⟨body, afterValue⟩, hbody, h⟩ := Option.bind_eq_some_iff.1 h
    obtain ⟨value, -, hp⟩ := Option.bind_eq_some_iff.1 h
    cases hp
    dsimp only
    have hb := length_takeQuoted? hbody
    have ht := length_skipSpace afterEquals
    simp only [hequals, List.length_cons] at hs
    omega
  · cases h

theorem length_takeAttributes? {fuel : Nat} {as : List Attribute} {selfClosing : Bool}
    (h : takeAttributes? fuel cs = some (as, selfClosing, rest)) : rest.length ≤ cs.length := by
  induction fuel generalizing cs as with
  | zero => cases h
  | succ fuel ih =>
    have hs := length_skipSpace cs
    rw [takeAttributes?] at h
    split at h
    · rename_i after hspace
      cases h
      simp only [hspace, List.length_cons] at hs
      omega
    · rename_i after hspace
      cases h
      simp only [hspace, List.length_cons] at hs
      omega
    · split at h
      · obtain ⟨⟨a, afterFirst⟩, hfirst, h⟩ := Option.bind_eq_some_iff.1 h
        obtain ⟨⟨as', selfClosing', rest'⟩, hmore, hp⟩ := Option.bind_eq_some_iff.1 h
        cases hp
        have hf := length_takeAttribute? hfirst
        have hm := ih hmore
        omega
      · cases h

theorem length_takeComment? {t : Token} (h : takeComment? cs = some (t, rest)) : rest.length ≤ cs.length := by
  obtain ⟨⟨body, after⟩, hsplit, h⟩ := Option.bind_eq_some_iff.1 h
  dsimp only at h
  split at h <;> cases h
  exact length_splitAtWord hsplit

theorem length_takeVerbatim? {t : Token} (h : takeVerbatim? cs = some (t, rest)) : rest.length ≤ cs.length := by
  obtain ⟨⟨body, after⟩, hsplit, h⟩ := Option.bind_eq_some_iff.1 h
  dsimp only at h
  split at h <;> cases h
  exact length_splitAtWord hsplit

theorem length_takeInstruction? {t : Token} (h : takeInstruction? cs = some (t, rest)) :
    rest.length ≤ cs.length := by
  rw [takeInstruction?] at h
  split at h
  · cases h
  · obtain ⟨⟨name, afterName⟩, hname, h⟩ := Option.bind_eq_some_iff.1 h
    obtain ⟨⟨body, after⟩, hsplit, h⟩ := Option.bind_eq_some_iff.1 h
    dsimp only at h
    split at h <;> cases h
    have hn := length_takeName? hname
    have hb := length_splitAtWord hsplit
    have hs := length_skipSpace afterName
    omega

/-- **Every token takes at least one character.** -/
theorem length_next? {t : Token} (h : Token.next? cs = some (t, rest)) : rest.length < cs.length := by
  rw [Token.next?.eq_def] at h
  split at h
  · cases h
  · have hrest := length_takeComment? h
    simp only [List.length_cons]
    omega
  · have hrest := length_takeVerbatim? h
    simp only [List.length_cons]
    omega
  · have hrest := length_takeInstruction? h
    simp only [List.length_cons]
    omega
  · obtain ⟨⟨name, afterName⟩, hname, h⟩ := Option.bind_eq_some_iff.1 h
    have hn := length_takeQName? hname
    have hs := length_skipSpace afterName
    dsimp only at h
    split at h
    · rename_i after hafter
      cases h
      simp only [hafter, List.length_cons] at hs ⊢
      omega
    · cases h
  · obtain ⟨⟨name, afterName⟩, hname, h⟩ := Option.bind_eq_some_iff.1 h
    obtain ⟨⟨as, selfClosing, after⟩, has, hp⟩ := Option.bind_eq_some_iff.1 h
    cases hp
    have hn := length_takeQName? hname
    have ha := length_takeAttributes? has
    simp only [List.length_cons]
    omega
  · -- character data: the text is not empty and does not start with an angle bracket
    rename_i hempty _ _ _ _ hopen
    have hrest : rest = cs.dropWhile (· != '<') := by
      dsimp only at h
      split at h <;> cases h
      rfl
    cases cs with
    | nil => exact absurd rfl hempty
    | cons c cs =>
      have hc : c != '<' := bne_iff_ne.2 fun hc => hopen cs (hc ▸ rfl)
      rw [hrest, List.dropWhile_cons, if_pos hc]
      exact Nat.lt_succ_of_le (List.dropWhile_suffix _).length_le

theorem length_skipDeclared? {word : String} (h : skipDeclared? word cs = some rest) : rest.length ≤ cs.length := by
  rw [skipDeclared?] at h
  split at h
  · obtain ⟨⟨a, after⟩, ha, h⟩ := Option.bind_eq_some_iff.1 h
    have hl := length_takeAttribute? ha
    have hs := length_skipSpace after
    dsimp only at h
    split at h <;> cases h
    omega
  · cases h
    exact Nat.le_refl _

/-- The end of the declaration. -/
theorem length_of_end (h : (match skipSpace cs with
    | '?' :: '>' :: after => some after
    | _ => none) = some rest) : rest.length ≤ cs.length := by
  have hs := length_skipSpace cs
  split at h
  · rename_i after hafter
    cases h
    simp only [hafter, List.length_cons] at hs
    omega
  · cases h

theorem length_skipDeclaration? (h : skipDeclaration? cs = some rest) : rest.length ≤ cs.length := by
  rw [skipDeclaration?] at h
  split at h
  · obtain ⟨afterVersion, hversion, h⟩ := Option.bind_eq_some_iff.1 h
    obtain ⟨afterEncoding, hencoding, h⟩ := Option.bind_eq_some_iff.1 h
    have hv := length_skipDeclared? hversion
    have he := length_skipDeclared? hencoding
    have hs := length_skipSpace (cs.drop 5)
    have hd := List.length_drop (i := 5) (l := cs)
    dsimp only at h
    split at h
    · obtain ⟨afterStandalone, hstandalone, h⟩ := Option.bind_eq_some_iff.1 h
      obtain ⟨⟨a, after⟩, hattribute, hp⟩ := Option.map_eq_some_iff.1 hstandalone
      cases hp
      have ha := length_takeAttribute? hattribute
      have hend := length_of_end h
      dsimp only at hend
      omega
    · have hend := length_of_end h
      omega
  · cases h
    exact Nat.le_refl _

end

/-! ## 3. Where tokens start -/

/-- Where a token starts. -/
def Placed.start (source : List Char) (t : Placed) : Location := .ofOffset (source.length - t.before) source

/-- The tokens of a text are placed within it, each further on than those before it. -/
theorem before_of_scan {fuel : Nat} {cs : List Char} {ts : List Placed} (h : Token.scan fuel cs = some ts) :
    (∀ t ∈ ts, t.before ≤ cs.length) ∧ ts.Pairwise fun t t' => t'.before < t.before := by
  induction fuel generalizing cs ts with
  | zero =>
    cases cs <;> cases h
    simp
  | succ fuel ih =>
    cases cs with
    | nil =>
      cases h
      simp
    | cons c cs =>
      obtain ⟨⟨t, rest⟩, hnext, h⟩ := Option.bind_eq_some_iff.1 h
      obtain ⟨more, hscan, hts⟩ := Option.bind_eq_some_iff.1 h
      cases hts
      obtain ⟨hle, hpairs⟩ := ih hscan
      have hlt := length_next? hnext
      constructor
      · rintro t' (_ | ⟨_, ht'⟩)
        · exact Nat.le_refl _
        · exact Nat.le_of_lt (Nat.lt_of_le_of_lt (hle t' ht') hlt)
      · exact List.pairwise_cons.2 ⟨fun t' ht' => Nat.lt_of_le_of_lt (hle t' ht') hlt, hpairs⟩

theorem before_of_all? {cs : List Char} {ts : List Placed} (h : Token.all? cs = some ts) :
    (∀ t ∈ ts, t.before ≤ cs.length) ∧ ts.Pairwise fun t t' => t'.before < t.before := by
  obtain ⟨rest, hrest, h⟩ := Option.bind_eq_some_iff.1 h
  obtain ⟨hle, hpairs⟩ := before_of_scan h
  have hr : rest.length ≤ cs.length := by
    have hr := length_skipDeclaration? hrest
    split at hr
    · exact Nat.le_succ_of_le hr
    · exact hr
  exact ⟨fun t ht => Nat.le_trans (hle t ht) hr, hpairs⟩

/-- **Tokens start at places that increase strictly.** -/
theorem pairwise_tokens {cs : List Char} {ts : List Placed} (h : Token.all? cs = some ts) :
    ts.Pairwise fun t t' => t.start cs < t'.start cs := by
  obtain ⟨hle, hpairs⟩ := before_of_all? h
  refine hpairs.imp_of_mem fun {t t'} ht _ hlt => ?_
  have hbefore := hle t ht
  exact Location.ofOffset_lt (by omega) (Nat.sub_le _ _)

/-! ## 4. What tags alone decide -/

/-- Whether a token is a tag. -/
def Token.isTag : Token → Bool
  | .opening .. | .closing _ => true
  | _ => false

/-- Whether a token is the tag that an element starts with. -/
def Token.isOpening : Token → Bool
  | .opening .. => true
  | _ => false

/-- The root element that tokens of a text build. -/
def Element.ofTokens? (source : List Char) (ts : List Placed) : Option Element := do
  let b ← ts.foldlM (Builder.step source) {}
  if b.pending.isEmpty then b.root else none

theorem read?_eq (s : String) :
    Element.read? s = (Token.all? s.toList).bind (Element.ofTokens? s.toList) := rfl

/-- A reader without the texts that it has read. -/
def Builder.bare (b : Builder) : Builder where
  pending := b.pending.map fun p => { p with children := Element.bareNodes p.children }
  root := b.root.map Element.bare

namespace Builder

variable {source : List Char} {b b' : Builder} {t : Placed}

/-- The name spaces in scope. -/
def spaces (b : Builder) : Spaces := b.pending.head?.elim [] Pending.spaces

/-- Whether an element may start here, with the name spaces that it declares and the attributes that remain. -/
structure Opens (b : Builder) (tag : QName) (as : List Attribute) (own : Spaces)
    (attributes : Dict String String) : Prop where
  space : tag.space ≠ "xmlns"
  single : b.pending = [] → b.root = none
  declared : declared? as = some own
  known : ((own ++ b.spaces).resolve? tag.space).isSome
  attributes : attributes? (own ++ b.spaces) as = some attributes

/-- What an opening tag does. -/
theorem step_opening_iff {tag : QName} {as : List Attribute} {selfClosing : Bool}
    (ht : t.token = .opening tag as selfClosing) :
    step source b t = some b' ↔ ∃ own attributes, b.Opens tag as own attributes ∧
      if selfClosing then
        b.deliver (.mk tag.name attributes [] (spanOf source t.before t.after)) = some b'
      else b' = { b with pending := ⟨tag, attributes, own ++ b.spaces, t.before, []⟩ :: b.pending,
                         afterText := false } := by
  constructor
  · intro h
    rw [step] at h
    simp only [ht] at h
    split at h
    · cases h
    · rename_i hspace
      split at h
      · cases h
      · rename_i hsingle
        obtain ⟨own, hown, h⟩ := Option.bind_eq_some_iff.1 h
        obtain ⟨space, hresolve, h⟩ := Option.bind_eq_some_iff.1 h
        obtain ⟨attributes, hattributes, h⟩ := Option.bind_eq_some_iff.1 h
        refine ⟨own, attributes, ⟨by simpa using hspace, by simpa using hsingle, hown, ?_, hattributes⟩, ?_⟩
        · exact Option.isSome_of_eq_some hresolve
        · split at h
          · rwa [if_pos ‹_›]
          · cases h
            rw [if_neg ‹_›]
            rfl
  · rintro ⟨own, attributes, hopens, h⟩
    obtain ⟨space, hspace⟩ := Option.isSome_iff_exists.1 hopens.known
    have hnamed := beq_eq_false_iff_ne.2 hopens.space
    have hfree : (b.pending.isEmpty && b.root.isSome) = false := by
      simpa using hopens.single
    have hattributes := hopens.attributes
    rw [spaces] at hspace hattributes
    rw [step]
    simp only [ht, hnamed, hfree, hopens.declared, hspace, hattributes, Option.bind_eq_bind, Option.bind_some,
      Bool.false_eq_true, if_false]
    cases selfClosing with
    | true => exact h
    | false => exact congrArg some (Eq.symm h)

/-- What a closing tag does. -/
theorem step_closing_iff {tag : QName} (ht : t.token = .closing tag) :
    step source b t = some b' ↔ ∃ p ps, b.pending = p :: ps ∧ p.tag = tag ∧
      deliver (.mk tag.name p.attributes (finished p) (spanOf source p.before t.after)) { b with pending := ps }
        = some b' := by
  rw [step]
  simp only [ht]
  constructor
  · intro h
    split at h
    · cases h
    · rename_i p ps hpending
      split at h
      · rename_i htag
        exact ⟨p, ps, hpending, htag, h⟩
      · cases h
  · rintro ⟨p, ps, hpending, htag, h⟩
    simpa only [hpending, htag, if_true] using h

theorem finished_bare (p : Pending) :
    finished { p with children := Element.bareNodes p.children } = Element.bareNodes (finished p) := by
  rw [finished, finished, ← Element.bareNodes_reverse, Element.filter_bareNodes (fun e => rfl),
    Element.bareNodes_filter (fun e => rfl)]

theorem bare_of_addText {s : String} (h : b.addText s = some b') : b'.bare = b.bare := by
  obtain ⟨pending, root, afterText⟩ := b
  cases pending with
  | nil => cases h
  | cons p ps =>
    rw [addText] at h
    cases h
    simp only [bare, List.map_cons]
    split <;> simp_all

theorem deliver_bare {e : Element} (h : b.deliver e = some b') : b.bare.deliver e.bare = some b'.bare := by
  obtain ⟨pending, root, afterText⟩ := b
  cases pending with
  | nil =>
    cases root with
    | none =>
      cases h
      rfl
    | some r => cases h
  | cons p ps =>
    cases h
    simp [deliver, bare]

/-- **A token that is no tag** changes nothing but texts. -/
theorem bare_of_not_isTag (ht : t.token.isTag = false) (h : step source b t = some b') : b'.bare = b.bare := by
  rw [step] at h
  split at h
  · cases h
    rfl
  · split at h
    · split at h <;> cases h
      rfl
    · obtain ⟨s, -, hs⟩ := Option.bind_eq_some_iff.1 h
      exact bare_of_addText hs
  · exact bare_of_addText h
  · rename_i htoken
    simp [htoken, Token.isTag] at ht
  · rename_i htoken
    simp [htoken, Token.isTag] at ht

@[simp] theorem spaces_bare (b : Builder) : b.bare.spaces = b.spaces := by
  rw [spaces, spaces, bare]
  cases b.pending <;> rfl

theorem opens_bare {tag : QName} {as : List Attribute} {own : Spaces} {attributes : Dict String String}
    (h : b.Opens tag as own attributes) : b.bare.Opens tag as own attributes := by
  constructor
  · exact h.space
  · intro hpending
    have hroot := h.single (List.map_eq_nil_iff.1 hpending)
    rw [bare, hroot, Option.map_none]
  · exact h.declared
  · exact b.spaces_bare ▸ h.known
  · exact b.spaces_bare ▸ h.attributes

/-- **A tag does the same** whether there are texts or not. -/
theorem step_bare (ht : t.token.isTag = true) (h : step source b t = some b') :
    step source b.bare t = some b'.bare := by
  cases htoken : t.token with
  | opening tag as selfClosing =>
    obtain ⟨own, attributes, hopens, hnext⟩ := (step_opening_iff htoken).1 h
    refine (step_opening_iff htoken).2 ⟨own, attributes, opens_bare hopens, ?_⟩
    cases selfClosing with
    | true =>
      have hbare := deliver_bare hnext
      rw [Element.bare, Element.bareNodes_nil] at hbare
      exact hbare
    | false =>
      cases hnext
      rw [spaces_bare]
      rfl
  | closing tag =>
    obtain ⟨p, ps, hpending, htag, hnext⟩ := (step_closing_iff htoken).1 h
    refine (step_closing_iff htoken).2 ⟨_, _, congrArg (List.map _) hpending, htag, ?_⟩
    have hbare := deliver_bare hnext
    rw [Element.bare, ← finished_bare] at hbare
    exact hbare
  | text _ | verbatim _ | silent => simp [htoken, Token.isTag] at ht

/-- **Tags alone build the same elements**, without the texts. -/
theorem foldlM_bare {ts : List Placed} (h : ts.foldlM (step source) b = some b') :
    (ts.filter (·.token.isTag)).foldlM (step source) b.bare = some b'.bare := by
  induction ts generalizing b with
  | nil =>
    cases h
    rfl
  | cons t ts ih =>
    rw [List.foldlM_cons] at h
    obtain ⟨b₁, hstep, hrest⟩ := Option.bind_eq_some_iff.1 h
    cases ht : t.token.isTag with
    | false =>
      rw [List.filter_cons, ht, if_neg Bool.false_ne_true, ← bare_of_not_isTag ht hstep]
      exact ih hrest
    | true =>
      rw [List.filter_cons, if_pos ht, List.foldlM_cons, step_bare ht hstep]
      exact ih hrest

end Builder

theorem Element.ofTokens?_eq_some_iff {source : List Char} {ts : List Placed} {root : Element} :
    Element.ofTokens? source ts = some root ↔
      ∃ b : Builder, ts.foldlM (Builder.step source) {} = some b ∧ b.pending = [] ∧ b.root = some root := by
  rw [Element.ofTokens?, Option.bind_eq_bind, Option.bind_eq_some_iff]
  constructor
  · rintro ⟨b, hb, h⟩
    split at h
    · exact ⟨b, hb, List.isEmpty_iff.1 ‹_›, h⟩
    · cases h
  · rintro ⟨b, hb, hpending, hroot⟩
    refine ⟨b, hb, ?_⟩
    rw [hpending]
    exact hroot

/-- **The tags of a document are enough to find its elements.** -/
theorem Element.ofTokens?_tags {source : List Char} {ts : List Placed} {root : Element}
    (h : Element.ofTokens? source ts = some root) :
    Element.ofTokens? source (ts.filter (·.token.isTag)) = some root.bare := by
  obtain ⟨b, hb, hpending, hroot⟩ := Element.ofTokens?_eq_some_iff.1 h
  refine Element.ofTokens?_eq_some_iff.2 ⟨b.bare, Builder.foldlM_bare hb, ?_, ?_⟩
  · rw [Builder.bare, hpending, List.map_nil]
  · rw [Builder.bare, hroot, Option.map_some]

/-! ## 5. Where elements start -/

/-- Where an element and those below it start, in document order. -/
def Element.starts (e : Element) : List Location := (e :: e.descendants).map (·.span.first)

@[simp] theorem Element.starts_bare (e : Element) : e.bare.starts = e.starts := by
  simp [starts, descendants_bare]

theorem Element.starts_mk (name : String) (attributes : Dict String String) (children : List Node) (span : Span) :
    Element.starts (.mk name attributes children span) =
      span.first :: (Element.elementsOf children).map (·.span.first) := by
  rw [starts, List.map_cons, Element.descendants_eq, Element.children, Element.span]

namespace Builder

variable {source : List Char} {b b' : Builder} {t : Placed}

/-- Where an element not yet closed and those read below it start. -/
def startsOfPending (source : List Char) (p : Pending) : List Location :=
  .ofOffset (source.length - p.before) source ::
    (Element.elementsOf p.children.reverse).map (·.span.first)

/-- Where the elements read so far start.  Those not yet closed are held innermost first. -/
def starts (source : List Char) (b : Builder) : List Location :=
  b.root.toList.flatMap Element.starts ++ b.pending.reverse.flatMap (startsOfPending source)

theorem startsOfPending_bare (source : List Char) (p : Pending) :
    startsOfPending source { p with children := Element.bareNodes p.children } = startsOfPending source p := by
  simp [startsOfPending, ← Element.bareNodes_reverse, Element.elementsOf_bareNodes]

theorem starts_bare (source : List Char) (b : Builder) : b.bare.starts source = b.starts source := by
  obtain ⟨pending, root, afterText⟩ := b
  simp only [starts, bare, ← List.map_reverse, List.flatMap_map, startsOfPending_bare]
  cases root <;> simp

theorem starts_of_deliver {e : Element} (h : b.deliver e = some b') :
    b'.starts source = b.starts source ++ e.starts := by
  obtain ⟨pending, root, afterText⟩ := b
  cases pending with
  | nil =>
    cases root with
    | none =>
      cases h
      simp [starts]
    | some r => cases h
  | cons p ps =>
    cases h
    simp [starts, startsOfPending, Element.elementsOf_append, Element.starts]

theorem elementsOf_finished (p : Pending) :
    Element.elementsOf (finished p) = Element.elementsOf p.children.reverse := by
  rw [finished, Element.elementsOf_filter fun _ => rfl]

theorem starts_of_not_isTag (ht : t.token.isTag = false) (h : step source b t = some b') :
    b'.starts source = b.starts source := by
  rw [← starts_bare, bare_of_not_isTag ht h, starts_bare]

/-- **A token adds the place where it starts**, if an element starts with it. -/
theorem starts_of_step (h : step source b t = some b') :
    b'.starts source = b.starts source ++ if t.token.isOpening then [t.start source] else [] := by
  cases htoken : t.token with
  | opening tag as selfClosing =>
    obtain ⟨own, attributes, hopens, hnext⟩ := (step_opening_iff htoken).1 h
    rw [Token.isOpening, if_pos rfl]
    cases selfClosing with
    | true =>
      rw [starts_of_deliver hnext, Element.starts_mk, Element.elementsOf_nil, List.map_nil, spanOf, Placed.start]
    | false =>
      cases hnext
      simp [starts, startsOfPending, Placed.start]
  | closing tag =>
    obtain ⟨p, ps, hpending, htag, hnext⟩ := (step_closing_iff htoken).1 h
    have hp : (Element.mk tag.name p.attributes (finished p) (spanOf source p.before t.after)).starts =
        startsOfPending source p := by
      rw [Element.starts_mk, elementsOf_finished, spanOf, startsOfPending]
    rw [starts_of_deliver hnext, hp]
    simp [Token.isOpening, starts, hpending]
  | text _ | verbatim _ | silent =>
    have hsame := starts_of_not_isTag (by rw [htoken]; rfl) h
    simpa [Token.isOpening] using hsame

/-- **The elements that tokens add start where their opening tags do.** -/
theorem starts_of_foldlM {ts : List Placed} (h : ts.foldlM (step source) b = some b') :
    b'.starts source = b.starts source ++ (ts.filter (·.token.isOpening)).map (·.start source) := by
  induction ts generalizing b with
  | nil =>
    cases h
    simp
  | cons t ts ih =>
    rw [List.foldlM_cons] at h
    obtain ⟨b₁, hstep, hrest⟩ := Option.bind_eq_some_iff.1 h
    rw [ih hrest, starts_of_step hstep, List.append_assoc]
    cases ht : t.token.isOpening <;> simp [ht]

end Builder

/-- **The elements of a document are its opening tags**, in the order of the text. -/
theorem Element.starts_of_ofTokens? {source : List Char} {ts : List Placed} {root : Element}
    (h : Element.ofTokens? source ts = some root) :
    root.starts = (ts.filter (·.token.isOpening)).map (·.start source) := by
  obtain ⟨b, hb, hpending, hroot⟩ := Element.ofTokens?_eq_some_iff.1 h
  have hstarts := Builder.starts_of_foldlM hb
  simpa [Builder.starts, hpending, hroot] using hstarts

/-- **Elements start at places that increase strictly.** -/
theorem Element.pairwise_starts {s : String} {root : Element} (h : Element.read? s = some root) :
    root.starts.Pairwise (· < ·) := by
  obtain ⟨ts, hts, hroot⟩ := Option.bind_eq_some_iff.1 (read?_eq s ▸ h)
  rw [Element.starts_of_ofTokens? hroot, List.pairwise_map]
  exact (pairwise_tokens hts).filter _

end Markup

end BlockFlow
