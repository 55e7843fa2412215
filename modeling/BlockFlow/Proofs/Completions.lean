/-
# Errors at the earliest command

Units do not compile, and the report says why.  It comes neither too early nor too late: whatever precedes the
command that is named can still be completed to a unit that compiles, and nothing behind that command can repair
it (`FirstHopeless`).

What a draft has accepted is completed by the terminators of its pending openers, innermost first
(`Draft.Sound.completes`).  So a unit that only lacks closers is hopeless nowhere, and the report lists the openers
that have none: `Unclosed` says which these are in terms of the grammar.  `errors_are_earliest` is the main result.
-/
import BlockFlow.Proofs.Joining

namespace BlockFlow

/-! ## 1. Terminators -/

/-- The closer that an opener asks for, without a target. -/
def Keyword.terminator (k : Keyword) : Command := { name := k.terminatorName }

/-- The terminator of an opener is a closer of its kind. -/
theorem Keyword.ofName?_terminatorName {k : Keyword} (h : k.opens?.isSome) :
    ∃ l : Keyword, ofName? k.terminatorName = some (l, false) ∧ named? k.terminatorName = some l ∧
      l.closes? = some k := by
  cases k <;> cases h
  exacts [⟨.endIf, rfl, rfl, rfl⟩, ⟨.endTry, rfl, rfl, rfl⟩, ⟨.endWhile, rfl, rfl, rfl⟩, ⟨.endFor, rfl, rfl, rfl⟩,
    ⟨.endForeach, rfl, rfl, rfl⟩, ⟨.endForJson, rfl, rfl, rfl⟩, ⟨.endForXml, rfl, rfl, rfl⟩,
    ⟨.endFunction, rfl, rfl, rfl⟩, ⟨.endScript, rfl, rfl, rfl⟩]

theorem Keyword.not_waits_terminatorName {k : Keyword} (h : k.opens?.isSome) : ¬Waits k.terminatorName := by
  obtain ⟨l, hl, -⟩ := ofName?_terminatorName h
  rcases ofName?_cases k.terminatorName with ⟨-, l', hl'⟩ | ⟨hw, -⟩
  · cases hl.symm.trans hl'
  · exact hw

theorem Keyword.row?_terminator {k : Keyword} (h : k.opens?.isSome) :
    ∃ l : Keyword, k.terminator.row? = some ⟨l, ""⟩ ∧ l.closes? = some k := by
  obtain ⟨l, -, hl, hcloses⟩ := ofName?_terminatorName h
  exact ⟨l, by rw [Command.row?, terminator, hl]; rfl, hcloses⟩

/-- The terminators of openings, innermost first. -/
def terminators (st : List Opening) : List Command := st.map fun o => o.keyword.terminator

/-- A closer declares nothing. -/
theorem Keyword.declares_nothing {l : Keyword} (h : l.closes?.isSome) : l ≠ .label ∧ l.opens? ≠ some .function := by
  cases l <;> first | (cases h; done) | decide

/-- **Terminators close what is open**, and declare nothing. -/
theorem terminators_close {st : List Opening} (h : ∀ o ∈ st, o.keyword.opens?.isSome) :
    Shifts st ((terminators st).filterMap Command.row?) [] ∧
      labelsOf ((terminators st).filterMap Command.row?) = [] ∧
      functionsOf ((terminators st).filterMap Command.row?) = [] := by
  induction st with
  | nil => exact ⟨.nil, rfl, rfl⟩
  | cons o st ih =>
    obtain ⟨ho, hst⟩ := List.forall_mem_cons.1 h
    obtain ⟨l, hrow, hcloses⟩ := Keyword.row?_terminator ho
    obtain ⟨hshifts, hlabels, hfunctions⟩ := ih hst
    have hasked : Draft.askedName? l "" = none := by cases l <;> rfl
    have hnothing := Keyword.declares_nothing (l := l) (by rw [hcloses]; rfl)
    rw [terminators, List.map_cons, Draft.filterMap_row?_cons, hrow, Option.toList_some, labelsOf_append,
      functionsOf_append]
    refine ⟨.cons (.closes hcloses fun hname => ?_) hshifts, ?_, ?_⟩
    · rw [hasked] at hname
      cases hname
    · rw [labelsOf, declared_singleton, if_neg hnothing.1]
      exact hlabels
    · rw [functionsOf, declared_singleton, if_neg hnothing.2]
      exact hfunctions

/-! ## 2. Prefixes of what a draft accepts -/

namespace Draft

variable {units : List ScriptUnit} {d d' : Draft} {here : Address} {cs : List Command} {e : CompileError}

/-- Commands that are accepted, with others behind them. -/
theorem commands_append : ∀ {cs : List Command} {d : Draft} {here : Address}, Draft.commands d here cs = (d', none) →
    ∀ cs', Draft.commands d here (cs ++ cs') = Draft.commands d' ⟨here.unit, here.position + cs.length⟩ cs'
  | [], d, here, h, cs' => by
    cases h
    rfl
  | c :: cs, d, here, h, cs' => by
    unfold Draft.commands at h
    rw [List.cons_append, Draft.commands]
    split at h
    · rw [List.length_cons, Nat.add_comm cs.length, ← Nat.add_assoc]
      exact commands_append h cs'
    · cases h

/-- The first error stays, whatever is behind it. -/
theorem commands_append_of_error : ∀ {cs : List Command} {d : Draft} {here : Address},
    Draft.commands d here cs = (d', some e) → ∀ cs', Draft.commands d here (cs ++ cs') = (d', some e)
  | [], d, here, h, cs' => by cases h
  | c :: cs, d, here, h, cs' => by
    unfold Draft.commands at h
    rw [List.cons_append, Draft.commands]
    split at h
    · exact commands_append_of_error h cs'
    · exact h

/-- What is accepted is accepted up to any position. -/
theorem commands_take (h : Draft.commands d here cs = (d', none)) (n : Nat) :
    ∃ d₁, Draft.commands d here (cs.take n) = (d₁, none) := by
  rcases hd : Draft.commands d here (cs.take n) with ⟨d₁, _ | e⟩
  · exact ⟨d₁, rfl⟩
  · have herr := commands_append_of_error hd (cs.drop n)
    rw [List.take_append_drop, h] at herr
    cases herr

/-- A command is refused for a misuse at its address. -/
theorem command_error {c : Command} (h : d.command here c = .error e) : ∃ why, e = .misuse here why := by
  unfold Draft.command at h
  split at h
  · cases h
  · cases h
    exact ⟨_, rfl⟩
  · rename_i k _
    cases hf : d.flow here k (Text.trim c.target) with
    | ok d₁ =>
      rw [hf] at h
      cases h
    | error why =>
      rw [hf] at h
      cases h
      exact ⟨why, rfl⟩

/-- **The first error** is a misuse at one of the commands, before which all are accepted. -/
theorem commands_error : ∀ {cs : List Command} {d : Draft} {here : Address}, Draft.commands d here cs = (d', some e) →
    ∃ p why, p < cs.length ∧ e = .misuse ⟨here.unit, here.position + p⟩ why ∧
      (∃ d₁, Draft.commands d here (cs.take p) = (d₁, none)) ∧
      Draft.commands d here (cs.take (p + 1)) = (d', some e)
  | [], d, here, h => by cases h
  | c :: cs, d, here, h => by
    cases hc : d.command here c with
    | error e' =>
      obtain ⟨why, hwhy⟩ := command_error hc
      have hfail : ∀ cs', Draft.commands d here (c :: cs') = (d, some e') := fun cs' => by rw [Draft.commands, hc]
      obtain ⟨rfl, rfl⟩ : d = d' ∧ e' = e := by simpa using (hfail cs).symm.trans h
      exact ⟨0, why, Nat.succ_pos _, hwhy, ⟨d, rfl⟩, hfail _⟩
    | ok d₁ =>
      have hgo : ∀ cs', Draft.commands d here (c :: cs') = Draft.commands d₁ here.next cs' := fun cs' => by
        rw [Draft.commands, hc]
      obtain ⟨p, why, hp, he, ⟨d₂, hd₂⟩, herr⟩ := commands_error ((hgo cs).symm.trans h)
      refine ⟨p + 1, why, Nat.succ_lt_succ hp, ?_, ⟨d₂, ?_⟩, ?_⟩
      · rw [he, Nat.add_comm p, ← Nat.add_assoc]
        rfl
      · rw [List.take_succ_cons, hgo, hd₂]
      · rw [List.take_succ_cons, hgo, herr]

/-- The openings of a draft are those of openers. -/
theorem Sound.opens_of_mem (h : d.Sound units here) : ∀ o ∈ d.openings, o.keyword.opens?.isSome := by
  intro o ho
  obtain ⟨a, ha, rfl⟩ := List.mem_map.1 ho
  obtain ⟨-, b, hb, hn, -⟩ := h.pending ha
  rw [block_of_blockAt? hb]
  exact hn

/-- **What is pending can be closed**, by the terminators of the openers. -/
theorem Sound.completes (h : d.Sound units here) (hcs : Listed units here (terminators d.openings)) :
    ∃ d', Draft.commands d here (terminators d.openings) = (d', none) ∧ d'.pending = [] := by
  obtain ⟨hshifts, hlabels, hfunctions⟩ := terminators_close h.opens_of_mem
  have hwaits : ∀ c ∈ terminators d.openings, ¬Keyword.Waits c.name := by
    intro c hc
    obtain ⟨o, ho, rfl⟩ := List.mem_map.1 hc
    exact Keyword.not_waits_terminatorName (h.opens_of_mem o ho)
  obtain ⟨d', hd'⟩ := h.commands_accept hcs hwaits hshifts (hlabels ▸ fresh_nil _) (hfunctions ▸ fresh_nil _)
  obtain ⟨-, hreads⟩ := h.commands_reads hcs hd'
  exact ⟨d', hd', List.map_eq_nil_iff.1 (hreads.shifts.unique hshifts)⟩

end Draft

/-! ## 3. Continuations -/

/-- Commands can be continued to a unit that compiles after others. -/
def Continues (before : List ScriptUnit) (u : ScriptUnit) (cs : List Command) : Prop :=
  ∃ cs' s, Suite.compile (before ++ [{ u with commands := cs ++ cs' }]) = .ok s

/-- **The first hopeless command** of a unit after others that compile: nothing behind it makes a suite that
compiles, and whatever precedes it can be continued to one. -/
structure FirstHopeless (before : List ScriptUnit) (u : ScriptUnit) (p : Nat) : Prop where
  inside : p < u.commands.length
  hopeless (cs : List Command) (after : List ScriptUnit) (s : Suite) :
    Suite.compile (before ++ { u with commands := u.commands.take (p + 1) ++ cs } :: after) ≠ .ok s
  hopeful : ∀ n ≤ p, Continues before u (u.commands.take n)

section

variable {before : List ScriptUnit} {A : Suite} {u : ScriptUnit} {cs : List Command} {d : Draft} {e : CompileError}

/-- **What is accepted can be completed**: the terminators of what is pending are behind it. -/
theorem compile_completed (hA : Suite.compile before = .ok A)
    (hd : Draft.commands { tables := A.tables } ⟨before.length, 0⟩ cs = (d, none)) :
    ∃ s, Suite.compile (before ++ [{ u with commands := cs ++ terminators d.openings }]) = .ok s := by
  have hunit : (before ++ [{ u with commands := cs ++ terminators d.openings }])[before.length]? =
      some { u with commands := cs ++ terminators d.openings } := List.getElem?_concat_length
  have hlisted := Draft.listed_commands hunit
  obtain ⟨d', hd', hpending⟩ := ((Draft.invariant_sound _).commands (sound_append hA _)
    (fun i c hi => hlisted i c ((List.getElem?_append_left (List.getElem?_eq_some_iff.1 hi).1).trans hi))
    hd).completes fun i c hi => by
      have := hlisted (cs.length + i) c
        ((List.getElem?_append_right (Nat.le_add_right _ _)).trans (by rwa [Nat.add_sub_cancel_left]))
      rwa [← Nat.add_assoc] at this
  rw [Suite.exists_compile_iff, Tables.addUnits_append (Suite.compile_eq_ok_iff.1 hA).2, Nat.zero_add]
  have hall := (Draft.commands_append hd (terminators d.openings)).trans hd'
  exact ⟨d'.tables, by simp [Tables.addUnits, Tables.addUnit, hall, hpending]⟩

theorem continues_of_accepted (hA : Suite.compile before = .ok A)
    (hd : Draft.commands { tables := A.tables } ⟨before.length, 0⟩ cs = (d, none)) : Continues before u cs :=
  ⟨_, compile_completed hA hd⟩

/-- What is refused cannot be continued. -/
theorem not_compile_of_refused (hA : Suite.compile before = .ok A)
    (hd : Draft.commands { tables := A.tables } ⟨before.length, 0⟩ cs = (d, some e)) (cs' : List Command)
    (after : List ScriptUnit) (s : Suite) :
    Suite.compile (before ++ { u with commands := cs ++ cs' } :: after) ≠ .ok s := by
  intro hs
  have ht := (Suite.compile_eq_ok_iff.1 hs).2
  rw [Tables.addUnits_append (Suite.compile_eq_ok_iff.1 hA).2, Nat.zero_add, Tables.addUnits, Tables.addUnit,
    Draft.commands_append_of_error hd cs'] at ht
  have herr : some e = none := congrArg Prod.snd ht
  cases herr

end

/-- **Where compiling stops**: after units that compile, at one that does not. -/
theorem Tables.addUnits_error : ∀ {us : List ScriptUnit} {t t' : Tables} {index : Nat} {e : CompileError},
    t.addUnits index us = (t', some e) → ∃ before u after t₁, us = before ++ u :: after ∧
      t.addUnits index before = (t₁, none) ∧ t₁.addUnit (index + before.length) u = (t', some e)
  | [], t, t', index, e, h => by cases h
  | u :: us, t, t', index, e, h => by
    unfold Tables.addUnits at h
    split at h
    · rename_i t₁ ht₁
      obtain ⟨before, v, after, t₂, rfl, ht₂, herr⟩ := Tables.addUnits_error h
      refine ⟨u :: before, v, after, t₂, rfl, by rw [Tables.addUnits, ht₁]; exact ht₂, ?_⟩
      rwa [List.length_cons, Nat.add_comm before.length, ← Nat.add_assoc]
    · rename_i t₁ e₁ ht₁
      cases h
      exact ⟨[], u, us, t, rfl, rfl, ht₁⟩

/-! ## 4. Openers without a closer -/

/-- **Commands that are paired**: each opener has a closer of its kind, with paired commands between them. -/
inductive Paired : List Command → Prop
  | nil : Paired []
  | other {c : Command} {cs : List Command}
      (neither : ∀ r, c.row? = some r → r.keyword.opens? = none ∧ r.keyword.closes? = none) (rest : Paired cs) :
      Paired (c :: cs)
  | construct {o c : Command} {cs ds : List Command} {r s : Row} (opener : o.row? = some r)
      (closer : c.row? = some s) (closes : s.keyword.closes? = some r.keyword) (inside : Paired cs)
      (rest : Paired ds) : Paired (o :: (cs ++ c :: ds))

/-- Commands close a construct of a keyword that was open before them. -/
def Closed (k : Keyword) (cs : List Command) : Prop :=
  ∃ (inside rest : List Command) (c : Command) (r : Row), cs = inside ++ c :: rest ∧ Paired inside ∧
    c.row? = some r ∧ r.keyword.closes? = some k

/-- A construct in front of what closes another one. -/
theorem Closed.construct {k : Keyword} {c : Command} {cs : List Command} {r : Row} (hc : c.row? = some r)
    (hcs : Closed r.keyword cs)
    (hrest : ∀ inside rest c' s, cs = inside ++ c' :: rest → Paired inside → c'.row? = some s →
      s.keyword.closes? = some r.keyword → Closed k rest) : Closed k (c :: cs) := by
  obtain ⟨inside, rest, c', s, rfl, hinside, hc', hcl⟩ := hcs
  obtain ⟨inside', rest', c'', s', rfl, hinside', hc'', hcl'⟩ := hrest inside rest c' s rfl hinside hc' hcl
  exact ⟨c :: (inside ++ c' :: inside'), rest', c'', s', by simp, .construct hc hc' hcl hinside hinside', hc'', hcl'⟩

/-- The command at a position opens a construct that no command closes. -/
def ScriptUnit.Unclosed (u : ScriptUnit) (i : Nat) (k : Keyword) : Prop :=
  ∃ c r, u.commands[i]? = some c ∧ c.row? = some r ∧ r.keyword = k ∧ k.opens?.isSome ∧
    ¬Closed k (u.commands.drop (i + 1))

theorem Command.row?_of_ofName? {c : Command} {k : Keyword} (h : Keyword.ofName? c.name = some (k, false)) :
    c.row? = some ⟨k, Text.trim c.target⟩ := by
  rcases Keyword.ofName?_cases c.name with ⟨-, l, hl⟩ | ⟨-, hn⟩
  · cases h.symm.trans hl
  · obtain ⟨l, hl, hlk⟩ := Option.map_eq_some_iff.1 (hn.symm.trans h)
    cases hlk
    rw [Command.row?, hl]
    rfl

namespace Draft

variable {units : List ScriptUnit} {d d' : Draft} {here : Address} {cs : List Command} {c : Command}

/-- The row of a command that is accepted has the keyword by which the command is recognised. -/
theorem Sound.ofName?_of_row? (h : d.Sound units here) (hd' : d.command here c = .ok d') {r : Row}
    (hr : c.row? = some r) : Keyword.ofName? c.name = some (r.keyword, false) := by
  obtain ⟨hw, -⟩ := h.command_reads hd'
  obtain ⟨k, hk, rfl⟩ := Option.map_eq_some_iff.1 hr
  rcases Keyword.ofName?_cases c.name with ⟨hwaits, -⟩ | ⟨-, heq⟩
  · exact absurd hwaits hw
  · rw [heq, hk]
    rfl

/-- **What a command does to the pending openers**: an opener is put on, a closer takes the innermost one off, and
any other command leaves them alone. -/
theorem Sound.command_pending (h : d.Sound units here) (hd' : d.command here c = .ok d') :
    (∃ r, c.row? = some r ∧ r.keyword.opens?.isSome ∧ d'.pending = here :: d.pending) ∨
    (∃ r top k, c.row? = some r ∧ d.pending = top :: d'.pending ∧ keywordAt? units top = some k ∧
      r.keyword.closes? = some k) ∨
    ((∀ r, c.row? = some r → r.keyword.opens? = none ∧ r.keyword.closes? = none) ∧ d'.pending = d.pending) := by
  rcases command_ok hd' with ⟨hn, rfl⟩ | ⟨k, hk, hf⟩
  · refine .inr (.inr ⟨fun r hr => ?_, rfl⟩)
    cases hn.symm.trans (h.ofName?_of_row? hd' hr)
  · have hrow := c.row?_of_ofName? hk
    have hother (hopens : k.opens? = none) (hcloses : k.closes? = none) :
        ∀ r, c.row? = some r → r.keyword.opens? = none ∧ r.keyword.closes? = none := by
      intro r hr
      cases hrow.symm.trans hr
      exact ⟨hopens, hcloses⟩
    cases h.takes hf with
    | label => exact .inr (.inr ⟨hother rfl rfl, rfl⟩)
    | pass unlinked other =>
      refine .inr (.inr ⟨hother ?_ ?_, rfl⟩) <;> cases k <;> first | rfl | cases unlinked
    | record linked part leaves found named blocks pending =>
      by_cases hopens : k.opens?.isSome
      · rw [if_pos hopens] at pending
        exact .inl ⟨_, hrow, hopens, pending⟩
      · rw [if_neg hopens] at pending
        refine .inr (.inr ⟨hother (by simpa using hopens) ?_, pending⟩)
        cases hcloses : k.closes? with
        | none => rfl
        | some l => cases part.symm.trans (Keyword.partOf?_of_closes? hcloses)
    | @attach _ _ top rest o _ part innermost block admitted asked blocks pending =>
      by_cases hcloses : k.closes?.isSome
      · rw [if_pos hcloses] at pending
        refine .inr (.inl ⟨_, top, o.keyword, hrow, by rw [innermost, pending], h.genuine block, ?_⟩)
        obtain ⟨l, hl⟩ := Option.isSome_iff_exists.1 hcloses
        exact hl.trans ((Keyword.partOf?_of_closes? hl).symm.trans part)
      · rw [if_neg hcloses] at pending
        exact .inr (.inr ⟨hother (Keyword.not_opens?_of_partOf? part) (by simpa using hcloses), pending⟩)

/-- **Commands take a draft** that has come to their address to another one. -/
structure Passes (units : List ScriptUnit) (d : Draft) (here : Address) (cs : List Command) (d' : Draft) : Prop where
  sound : d.Sound units here
  listed : Listed units here cs
  commands : Draft.commands d here cs = (d', none)

theorem Passes.cons (h : Passes units d here (c :: cs) d') :
    ∃ d₁, d.command here c = .ok d₁ ∧ Passes units d₁ here.next cs d' := by
  obtain ⟨hs, hcs, hd⟩ := h
  unfold Draft.commands at hd
  split at hd
  · rename_i d₁ hc
    exact ⟨d₁, hc, hs.command hcs.head hc, hcs.tail, hd⟩
  · cases hd

theorem Passes.append {cs' : List Command} (h : Passes units d here (cs ++ cs') d') :
    ∃ d₁, Passes units d here cs d₁ ∧ Passes units d₁ ⟨here.unit, here.position + cs.length⟩ cs' d' := by
  obtain ⟨hs, hcs, hd⟩ := h
  have hfirst : Listed units here cs := fun i c hi =>
    hcs i c ((List.getElem?_append_left (List.getElem?_eq_some_iff.1 hi).1).trans hi)
  obtain ⟨d₁, hd₁⟩ := commands_take hd cs.length
  rw [List.take_left] at hd₁
  refine ⟨d₁, ⟨hs, hfirst, hd₁⟩, (invariant_sound units).commands hs hfirst hd₁, fun i c hi => ?_, ?_⟩
  · rw [Nat.add_assoc]
    exact hcs _ c ((List.getElem?_append_right (Nat.le_add_right _ _)).trans (by rwa [Nat.add_sub_cancel_left]))
  · rw [← commands_append hd₁]
    exact hd

/-- **Pending openers are a stack**: of those that were there the innermost ones are gone, and the others are new. -/
theorem Passes.pending : ∀ {cs : List Command} {d : Draft} {here : Address}, Passes units d here cs d' →
    ∃ new n, d'.pending = new ++ d.pending.drop n ∧ ∀ a ∈ new, here ≤ a
  | [], d, here, h => by
    cases h.commands
    exact ⟨[], 0, rfl, nofun⟩
  | c :: cs, d, here, h => by
    obtain ⟨d₁, hc, h₁⟩ := h.cons
    obtain ⟨new, n, hnew, hle⟩ := h₁.pending
    have hle' : ∀ a ∈ new, here ≤ a := fun a ha => here.lt_next.le.trans (hle a ha)
    rcases h.sound.command_pending hc with ⟨-, -, -, hp⟩ | ⟨-, top, -, -, hp, -⟩ | ⟨-, hp⟩
    · rw [hp] at hnew
      cases n with
      | zero =>
        refine ⟨new ++ [here], 0, by rw [hnew]; simp, fun a ha => ?_⟩
        rcases List.mem_append.1 ha with ha | ha
        · exact hle' a ha
        · exact (List.mem_singleton.1 ha).ge
      | succ n => exact ⟨new, n, hnew, hle'⟩
    · exact ⟨new, n + 1, by rw [hnew, hp]; rfl, hle'⟩
    · exact ⟨new, n, by rw [hnew, hp], hle'⟩

theorem Passes.keyword_of_row (h : Passes units d here (c :: cs) d') {r : Row} (hr : c.row? = some r) :
    keywordAt? units here = some r.keyword := by
  obtain ⟨d₁, hc, -⟩ := h.cons
  rw [keywordAt?, h.listed.head, Option.bind_some, h.sound.ofName?_of_row? hc hr]

/-- An opener is put on. -/
theorem Passes.of_opener (h : Passes units d here (c :: cs) d') {r : Row} (hrow : c.row? = some r)
    (ho : r.keyword.opens?.isSome) : ∃ d₁, Passes units d₁ here.next cs d' ∧ d₁.pending = here :: d.pending := by
  obtain ⟨d₁, hc, h₁⟩ := h.cons
  rcases h.sound.command_pending hc with ⟨-, -, -, hp⟩ | ⟨r', -, k, hr, -, -, hcl⟩ | ⟨hno, -⟩
  · exact ⟨d₁, h₁, hp⟩
  · cases hrow.symm.trans hr
    simp [Keyword.not_opens?_of_closes? hcl] at ho
  · simp [(hno r hrow).1] at ho

/-- A closer takes the innermost opener off. -/
theorem Passes.of_closer (h : Passes units d here (c :: cs) d') {r : Row} (hrow : c.row? = some r)
    (hcl : r.keyword.closes?.isSome) : ∃ d₁ top, Passes units d₁ here.next cs d' ∧ d.pending = top :: d₁.pending ∧
      keywordAt? units top = r.keyword.closes? := by
  obtain ⟨d₁, hc, h₁⟩ := h.cons
  rcases h.sound.command_pending hc with ⟨r', hr, ho, -⟩ | ⟨r', top, k, hr, hp, hk, hcl'⟩ | ⟨hno, -⟩
  · cases hrow.symm.trans hr
    obtain ⟨l, hl⟩ := Option.isSome_iff_exists.1 hcl
    simp [Keyword.not_opens?_of_closes? hl] at ho
  · cases hrow.symm.trans hr
    exact ⟨d₁, top, h₁, hp, hk.trans hcl'.symm⟩
  · simp [(hno r hrow).2] at hcl

/-- Any other command leaves the pending openers alone. -/
theorem Passes.of_other (h : Passes units d here (c :: cs) d')
    (hrow : ∀ r, c.row? = some r → r.keyword.opens? = none ∧ r.keyword.closes? = none) :
    ∃ d₁, Passes units d₁ here.next cs d' ∧ d₁.pending = d.pending := by
  obtain ⟨d₁, hc, h₁⟩ := h.cons
  rcases h.sound.command_pending hc with ⟨r, hr, ho, -⟩ | ⟨r, -, k, hr, -, -, hcl⟩ | ⟨-, hp⟩
  · simp [(hrow r hr).1] at ho
  · simp [(hrow r hr).2] at hcl
  · exact ⟨d₁, h₁, hp⟩

/-- **Paired commands** leave the pending openers alone. -/
theorem Passes.pending_of_paired (hcs : Paired cs) : ∀ {d d' : Draft} {here : Address},
    Passes units d here cs d' → d'.pending = d.pending := by
  induction hcs with
  | nil =>
    intro d d' here h
    cases h.commands
    rfl
  | other neither rest ih =>
    intro d d' here h
    obtain ⟨d₁, h₁, hp₁⟩ := h.of_other neither
    rw [ih h₁, hp₁]
  | construct opener closer closes inside rest ihInside ihRest =>
    intro d d' here h
    obtain ⟨d₁, h₁, hp₁⟩ := h.of_opener opener (Keyword.opens?_of_closes? closes)
    obtain ⟨d₂, h₂, h₂'⟩ := h₁.append
    obtain ⟨d₃, top, h₃, hp₃, -⟩ := h₂'.of_closer closer (by rw [closes]; rfl)
    -- What the closer takes off is what the opener has put on.
    rw [ihInside h₂, hp₁] at hp₃
    rw [ihRest h₃, (List.cons.inj hp₃).2]

/-- A pending opener is before the commands that follow. -/
theorem Passes.pending_lt (h : Passes units d here cs d') {a : Address} (ha : a ∈ d.pending) : a < here := by
  obtain ⟨-, b, hb, -⟩ := h.sound.pending ha
  exact (h.sound.placed hb).2

/-- **What closes the innermost opener** leaves the openers that were pending outside of it. -/
theorem Passes.after_closer (h : Passes units d here cs d') {inside rest : List Command} {c : Command} {r : Row}
    (hcs : cs = inside ++ c :: rest) (hinside : Paired inside) (hc : c.row? = some r) (hcl : r.keyword.closes?.isSome)
    {top : Address} {outer : List Address} (hp : d.pending = top :: outer) :
    ∃ d₁ there, Passes units d₁ there rest d' ∧ d₁.pending = outer ∧ here ≤ there := by
  subst hcs
  obtain ⟨d₁, h₁, h₁'⟩ := h.append
  obtain ⟨d₂, top', h₂, hp₂, -⟩ := h₁'.of_closer hc hcl
  rw [h₁.pending_of_paired hinside, hp] at hp₂
  refine ⟨d₂, _, h₂, (List.cons.inj hp₂).2.symm, .inr ⟨rfl, ?_⟩⟩
  change here.position ≤ here.position + inside.length + 1
  omega

/-- **An opener that is closed** is not pending any more. -/
theorem Passes.not_pending_of_closed (h : Passes units d here cs d') {top : Address} {outer : List Address}
    (hp : d.pending = top :: outer) {k : Keyword} (hclosed : Closed k cs) : top ∉ d'.pending := by
  obtain ⟨inside, rest, c, r, hcs, hinside, hc, hcl⟩ := hclosed
  have hlt : top < here := h.pending_lt (hp ▸ List.mem_cons_self)
  have hdecreasing : (top :: outer).Pairwise (· > ·) := hp ▸ h.sound.decreasing
  obtain ⟨d₁, there, h₁, rfl, hthere⟩ := h.after_closer hcs hinside hc (by rw [hcl]; rfl) hp
  obtain ⟨new, n, hnew, hle⟩ := h₁.pending
  rw [hnew, List.mem_append, not_or]
  constructor
  · exact fun hmem => lt_irrefl top (hlt.trans_le (hthere.trans (hle top hmem)))
  · exact fun hmem => lt_irrefl top ((List.pairwise_cons.1 hdecreasing).1 top (List.mem_of_mem_drop hmem))

/-- While an opener is pending, so are those that were pending before it. -/
theorem Passes.pending_below (h : Passes units d here cs d') {a top : Address} {outer : List Address}
    (hp : d.pending = a :: top :: outer) (ha : a ∈ d'.pending) : top ∈ d'.pending := by
  obtain ⟨new, n, hnew, hle⟩ := h.pending
  have hdecreasing : (a :: top :: outer).Pairwise (· > ·) := hp ▸ h.sound.decreasing
  have hlt : a < here := h.pending_lt (hp ▸ List.mem_cons_self)
  rw [hnew, hp] at ha ⊢
  refine List.mem_append_right _ ?_
  rcases List.mem_append.1 ha with ha | ha
  · exact absurd (hlt.trans_le (hle a ha)) (lt_irrefl a)
  · cases n with
    | zero => exact List.mem_cons_of_mem _ List.mem_cons_self
    | succ n => exact absurd ((List.pairwise_cons.1 hdecreasing).1 a (List.mem_of_mem_drop ha)) (lt_irrefl a)

/-- **An opener that is not pending any more** is closed. -/
theorem Passes.closed_of_not_pending {cs : List Command} {d : Draft} {here : Address}
    (h : Passes units d here cs d') {top : Address} {outer : List Address} {k : Keyword}
    (hp : d.pending = top :: outer) (hk : keywordAt? units top = some k) (hnot : top ∉ d'.pending) : Closed k cs := by
  match cs with
  | [] =>
    cases h.commands
    exact absurd (hp ▸ List.mem_cons_self) hnot
  | c :: cs =>
    obtain ⟨d₁, hc, h₁⟩ := h.cons
    rcases h.sound.command_pending hc with ⟨r, hr, ho, hp₁⟩ | ⟨r, top', l, hr, hp₁, hl, hcl⟩ | ⟨hno, hp₁⟩
    -- A construct that is opened is closed first, and what is behind it closes the other one.
    · rw [hp] at hp₁
      have hnew : here ∉ d'.pending := fun hmem => hnot (h₁.pending_below hp₁ hmem)
      have hclosed := h₁.closed_of_not_pending hp₁ (h.keyword_of_row hr) hnew
      refine .construct hr hclosed fun inside rest c' s hcs hinside hc' hcl => ?_
      obtain ⟨d₂, there, h₂, hp₂, -⟩ := h₁.after_closer hcs hinside hc' (by rw [hcl]; rfl) hp₁
      exact h₂.closed_of_not_pending hp₂ hk hnot
    · rw [hp] at hp₁
      obtain ⟨rfl, -⟩ := List.cons.inj hp₁
      cases hk.symm.trans hl
      exact ⟨[], cs, c, r, rfl, .nil, hr, hcl⟩
    · obtain ⟨inside, rest, c', s, rfl, hinside, hc', hcl⟩ := h₁.closed_of_not_pending (hp₁.trans hp) hk hnot
      exact ⟨c :: inside, rest, c', s, rfl, .other hno hinside, hc', hcl⟩
termination_by cs.length
decreasing_by
  · exact Nat.lt_succ_self _
  · rw [hcs, List.length_cons, List.length_append, List.length_cons]
    omega
  · exact Nat.lt_succ_self _

/-- The commands from a position on. -/
theorem Passes.from_position {n i : Nat} (h : Passes units d ⟨n, 0⟩ cs d') (hc : cs[i]? = some c) :
    ∃ d₁, Passes units d₁ ⟨n, i⟩ (c :: cs.drop (i + 1)) d' := by
  obtain ⟨hi, rfl⟩ := List.getElem?_eq_some_iff.1 hc
  have hsplit : cs = cs.take i ++ cs[i] :: cs.drop (i + 1) := by
    rw [← List.drop_eq_getElem_cons hi, List.take_append_drop]
  rw [hsplit] at h
  obtain ⟨d₁, -, h₁⟩ := h.append
  rw [List.length_take, Nat.min_eq_left hi.le, Nat.zero_add] at h₁
  exact ⟨d₁, h₁⟩

/-- **The openers of a unit that are still pending at its end** are those that no command closes. -/
theorem Passes.mem_pending_iff {u : ScriptUnit} {n i : Nat} {k : Keyword}
    (h : Passes units d ⟨n, 0⟩ u.commands d') :
    (∃ a ∈ d'.pending, a.position = i ∧ (d'.block a).keyword = k) ↔ u.Unclosed i k := by
  have hs' := (invariant_sound units).commands h.sound h.listed h.commands
  have hblock {a : Address} (ha : a ∈ d'.pending) : a.unit = n ∧ (d'.block a).keyword.opens?.isSome ∧
      a < ⟨n, 0 + u.commands.length⟩ ∧ keywordAt? units a = some (d'.block a).keyword := by
    obtain ⟨hunit, b, hb, hn, -⟩ := hs'.pending ha
    rw [block_of_blockAt? hb]
    exact ⟨hunit, hn, (hs'.placed hb).2, hs'.genuine hb⟩
  constructor
  · rintro ⟨⟨unit, i⟩, ha, rfl, rfl⟩
    obtain ⟨rfl, hopens, hlt, hkey⟩ := hblock ha
    have hi : i < u.commands.length := by
      simp only [Address.lt_iff] at hlt
      omega
    have hc : u.commands[i]? = some u.commands[i] := List.getElem?_eq_getElem hi
    obtain ⟨d₁, h₁⟩ := h.from_position hc
    have hrow : u.commands[i].row? =
        some ⟨(d'.block ⟨unit, i⟩).keyword, Text.trim u.commands[i].target⟩ := by
      refine Command.row?_of_ofName? ?_
      rw [keywordAt?, h₁.listed.head, Option.bind_some] at hkey
      split at hkey
      · cases hkey
        assumption
      · cases hkey
    obtain ⟨d₂, h₂, hp₂⟩ := h₁.of_opener hrow hopens
    exact ⟨_, _, hc, hrow, rfl, hopens, fun hclosed => h₂.not_pending_of_closed hp₂ hclosed ha⟩
  · rintro ⟨c, r, hc, hr, rfl, hopens, hnot⟩
    obtain ⟨d₁, h₁⟩ := h.from_position hc
    obtain ⟨d₂, h₂, hp₂⟩ := h₁.of_opener hr hopens
    have ha : (⟨n, i⟩ : Address) ∈ d'.pending := by
      by_contra hno
      exact hnot (h₂.closed_of_not_pending hp₂ (h₁.keyword_of_row hr) hno)
    refine ⟨⟨n, i⟩, ha, rfl, ?_⟩
    obtain ⟨-, -, -, hkey⟩ := hblock ha
    exact Option.some.inj (hkey.symm.trans (h₁.keyword_of_row hr))

end Draft

/-! ## 5. Reports -/

/-- A report names a command by its reference, or by a message that opens with it if the command has a suffix. -/
def Fault.Names (f : Fault) (ref : String) : Prop :=
  if f.code = Misuse.waits.code then ∃ rest, f.message = ref ++ rest else f.ref = some ref

theorem CompileError.code_of_misuse (units : List ScriptUnit) (here : Address) (why : Misuse) :
    ((misuse here why).fault units).code = why.code := by
  cases why <;> rfl

theorem Misuse.code_ne (why : Misuse) : why.code ≠ "COMPILE_UNTERMINATED_BLOCK" := by
  cases why <;> simp [code]

/-- The report of a misuse names the command. -/
theorem CompileError.names_of_misuse (units : List ScriptUnit) (here : Address) (why : Misuse) :
    ((misuse here why).fault units).Names (commandRef units here) := by
  unfold Fault.Names
  rw [code_of_misuse]
  by_cases hwaits : why = .waits
  · subst hwaits
    exact ⟨_, rfl⟩
  · rw [if_neg (by cases why <;> simp_all [Misuse.code])]
    cases why <;> first | rfl | exact absurd rfl hwaits

/-- The report of openers without a closer, as positions of a unit. -/
def unterminatedMessage (units : List ScriptUnit) (unit : Nat) (openers : List (Nat × Keyword)) : String :=
  "; ".intercalate (openers.map fun o =>
    commandRef units ⟨unit, o.1⟩ ++ " without a terminating '" ++ o.2.terminatorName ++ "'")

/-- **A unit that lacks closers**: all of it can be continued, and a report lists the openers that have none, each
with the name of its terminator, in increasing order; with these terminators in reverse order behind it the unit
compiles. -/
structure LacksClosers (units before : List ScriptUnit) (u : ScriptUnit) (f : Fault) : Prop where
  hopeful : ∀ n, Continues before u (u.commands.take n)
  listed : ∃ openers : List (Nat × Keyword), f.message = unterminatedMessage units before.length openers ∧
    (∀ i k, (i, k) ∈ openers ↔ u.Unclosed i k) ∧ openers.Pairwise (fun o o' => o.1 < o'.1) ∧
    ∃ s, Suite.compile (before ++
      [{ u with commands := u.commands ++ openers.reverse.map fun o => o.2.terminator }]) = .ok s

section

variable {units before : List ScriptUnit} {A : Suite} {u : ScriptUnit}

theorem firstHopeless_of_refused (hA : Suite.compile before = .ok A) {d : Draft} {e : CompileError}
    (hd : Draft.commands { tables := A.tables } ⟨before.length, 0⟩ u.commands = (d, some e)) :
    ∃ p why, e = .misuse ⟨before.length, p⟩ why ∧ FirstHopeless before u p := by
  obtain ⟨p, why, hp, rfl, ⟨d₁, hd₁⟩, hfail⟩ := Draft.commands_error hd
  refine ⟨p, why, by simp, hp, not_compile_of_refused hA hfail, fun n hn => ?_⟩
  obtain ⟨d₂, hd₂⟩ := Draft.commands_take hd₁ n
  rw [List.take_take, Nat.min_eq_left hn] at hd₂
  exact continues_of_accepted hA hd₂

theorem lacksClosers_of_pending (hA : Suite.compile before = .ok A) {d : Draft} {after : List ScriptUnit}
    (hunits : units = before ++ u :: after)
    (hd : Draft.commands { tables := A.tables } ⟨before.length, 0⟩ u.commands = (d, none)) :
    LacksClosers units before u
      ((CompileError.unterminated (d.pending.reverse.map fun a => (a, (d.block a).keyword))).fault units) := by
  have hunit : units[before.length]? = some u := by simp [hunits]
  have hpasses : Draft.Passes units { tables := A.tables } ⟨before.length, 0⟩ u.commands d :=
    ⟨hunits ▸ sound_append hA (u :: after), Draft.listed_commands hunit, hd⟩
  have hs := (Draft.invariant_sound units).commands hpasses.sound hpasses.listed hpasses.commands
  have hhome {a : Address} (ha : a ∈ d.pending) : (⟨before.length, a.position⟩ : Address) = a := by
    have hunit : a.unit = before.length := (hs.pending ha).1
    rw [← hunit]
  refine ⟨fun n => ?_, d.pending.reverse.map fun a => (a.position, (d.block a).keyword), ?_, fun i k => ?_, ?_, ?_⟩
  · obtain ⟨d₁, hd₁⟩ := Draft.commands_take hd n
    exact continues_of_accepted hA hd₁
  · change "; ".intercalate _ = _
    rw [unterminatedMessage, List.map_map, List.map_map]
    refine congrArg _ (List.map_congr_left fun a ha => ?_)
    simp [hhome (List.mem_reverse.1 ha)]
  · rw [← hpasses.mem_pending_iff]
    simp
  · rw [List.pairwise_map, List.pairwise_reverse]
    refine hs.decreasing.imp_of_mem fun {a b} ha hb hlt => ?_
    rw [← hhome ha, ← hhome hb] at hlt
    simpa [Address.lt_iff] using hlt
  · obtain ⟨s, hcompiled⟩ := compile_completed (u := u) hA hd
    refine ⟨s, ?_⟩
    rw [← hcompiled, ← List.map_reverse, List.reverse_reverse, List.map_map, terminators, Draft.openings,
      List.map_map]
    rfl

end

/-- **Compile errors come at the earliest command.**  Units that do not compile are some that do, one that is to blame,
and others.  If the report is not that of openers without closers then it names the first hopeless command of the unit
that is to blame: nothing behind it makes a unit that compiles after those before, and whatever precedes it can be
continued to one.  Otherwise all of the unit can be continued, and the report lists the openers that lack a closer. -/
theorem errors_are_earliest {units : List ScriptUnit} {e : CompileError} (h : Suite.compile units = .error e) :
    ∃ before u after, units = before ++ u :: after ∧ (∃ s, Suite.compile before = .ok s) ∧
      ((e.fault units).code ≠ "COMPILE_UNTERMINATED_BLOCK" →
        ∃ p, FirstHopeless before u p ∧ (e.fault units).Names (commandRef units ⟨before.length, p⟩)) ∧
      ((e.fault units).code = "COMPILE_UNTERMINATED_BLOCK" → LacksClosers units before u (e.fault units)) := by
  obtain ⟨t, ht⟩ : ∃ t, Tables.addUnits {} 0 units = (t, some e) := by
    unfold Suite.compile Tables.ofUnits at h
    split at h
    · cases h
    · cases h
      exact ⟨_, ‹_›⟩
  obtain ⟨before, u, after, t₁, hunits, hbefore, hu⟩ := Tables.addUnits_error ht
  have hA : Suite.compile before = .ok ⟨before, t₁⟩ := Suite.compile_eq_ok_iff.2 ⟨rfl, hbefore⟩
  refine ⟨before, u, after, hunits, ⟨_, hA⟩, ?_⟩
  rw [Nat.zero_add] at hu
  unfold Tables.addUnit at hu
  split at hu
  · rename_i d e' hd
    cases hu
    obtain ⟨p, why, rfl, hfirst⟩ := firstHopeless_of_refused hA hd
    refine ⟨fun _ => ⟨p, hfirst, CompileError.names_of_misuse units _ why⟩, fun hcode => ?_⟩
    rw [CompileError.code_of_misuse] at hcode
    exact absurd hcode why.code_ne
  · rename_i d hd
    split at hu
    · cases hu
    · cases hu
      exact ⟨fun hne => absurd rfl hne, fun _ => lacksClosers_of_pending hA hunits hd⟩

/-- A conditional that is closed as a loop: the closer is hopeless, and the opener by itself is not. -/
theorem wrong_closer_is_hopeless : ∃ (u : ScriptUnit) (e : CompileError), u = .named "main"
      [{ name := "if", target := "x" }, { name := "endWhile" }, { name := "endIf" }] ∧
    Suite.compile [u] = .error e ∧ (e.fault [u]).ref = some "@main: 2: [endWhile||]" ∧ FirstHopeless [] u 1 := by
  obtain ⟨u, e, hu, he, href, hcode⟩ : ∃ (u : ScriptUnit) (e : CompileError), u = .named "main"
        [{ name := "if", target := "x" }, { name := "endWhile" }, { name := "endIf" }] ∧
      Suite.compile [u] = .error e ∧ (e.fault [u]).ref = some "@main: 2: [endWhile||]" ∧
      (e.fault [u]).code = "COMPILE_BLOCK_MISMATCH" := ⟨_, _, rfl, rfl, rfl, rfl⟩
  refine ⟨u, e, hu, he, href, ?_⟩
  obtain ⟨before, v, after, hunits, -, hmisuse, -⟩ := errors_are_earliest he
  obtain ⟨rfl, rfl, rfl⟩ : before = [] ∧ v = u ∧ after = [] := by
    cases before with
    | nil =>
      obtain ⟨rfl, rfl⟩ := List.cons.inj hunits
      exact ⟨rfl, rfl, rfl⟩
    | cons w before => simp at hunits
  obtain ⟨p, hfirst, hnames⟩ := hmisuse (by rw [hcode]; decide)
  rw [Fault.Names, hcode, if_neg (by decide), href] at hnames
  subst hu
  have hp : p < 3 := hfirst.inside
  match p, hp with
  | 0, _ => exact absurd hnames (by decide)
  | 1, _ => exact hfirst
  | 2, _ => exact absurd hnames (by decide)

end BlockFlow
