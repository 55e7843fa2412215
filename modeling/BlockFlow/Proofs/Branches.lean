/-
# Branches of a conditional

The conditions of an `if` and of its `elseIf`s are evaluated in order, up to the first one that holds:
`Refuses` says that conditions do not hold, and what evaluating them does to the variables.  The run then
does the branch of that condition, or the `else`, or nothing: `Moment.RunsOneBranch`.

A branch ends when the run reaches the next branch command or the closer with the conditional innermost
(`FallsThrough`).  Whatever is run in the branch, the conditional's frame is by then what it was, and the
branch command goes on at the closer.
-/
import BlockFlow.Proofs.BlockMap
import BlockFlow.Proofs.Passes

namespace BlockFlow.Suite

variable {s : Suite} {a q : Address} {b : Block}

/-! ## 1. Parts of conditionals -/

/-- The condition of the command at an address. -/
def conditionAt (s : Suite) (p : Address) : String := (s.commandAt? p).elim "" fun c => Text.trim c.target

/-- A part of a conditional is a branch command or the closer. -/
theorem Nested.part_of_conditional (h : s.Nested) (hb : s.blockAt? a = some b) (hk : b.keyword = .ifThen)
    (hp : s.IsPart a q) : (∃ k, (k = .elseIf ∨ k = .otherwise) ∧ s.keywordAt? q = some k) ∨ b.closer = some q := by
  obtain ⟨d, hd, ho, hpart⟩ := hp
  obtain ⟨k, hpart⟩ := Option.isSome_iff_exists.1 hpart
  obtain ⟨o, b', ho', hb', rfl, hmem, -⟩ := h.exists_owner hd hpart
  cases ho.symm.trans ho'
  cases hb.symm.trans hb'
  have hkey := h.keyword hd
  rw [hk] at hpart
  rcases hdk : d.keyword <;> rw [hdk] at hpart hkey hmem <;> try (cases hpart; done)
  case elseIf => exact .inl ⟨_, .inl rfl, hkey⟩
  case otherwise => exact .inl ⟨_, .inr rfl, hkey⟩
  case endIf => exact .inr ((Block.mem_partsOf_of_closes? (by rw [hk]; rfl)).1 hmem)

end BlockFlow.Suite

namespace BlockFlow.Flow

open BlockFlow.Flow.Action

/-! ## 2. Commands of conditionals -/

section

variable {g : Setting} {s : Session} {c : IfFrame} {rest : List Frame} {a e p q : Address} {b : Block} {cond : String}
  {Q : Except Fault Unit → Session → Prop}

/-- The session after a condition of its innermost construct was evaluated, and what came of it. -/
def Session.tried (s : Session) (c : IfFrame) (rest : List Frame) (other : Address) :
    Except EvalError Bool × Namespace → Except Fault Unit × Session
  | (.ok true, w) => (.ok (), (s.setBlocks (.conditional { c with matched := true } :: rest)).withVars w)
  | (.ok false, w) =>
    (.ok (), (s.setBlocks (.conditional { c with untried := c.untried.tail } :: rest)).proceed (some other) w)
  | (.error e, w) => (.error e.fault, s.withVars w)

theorem tryBranch_ends (hs : s.blocks = .conditional c :: rest)
    (hother : (c.untried.head? <|> b.elseAt <|> b.closer) = some q)
    (hQ : Q (s.tried c rest q (g.condition cond s.vars)).1 (s.tried c rest q (g.condition cond s.vars)).2) :
    (tryBranch g b cond).Ends s Q := by
  unfold tryBranch
  rw [ends_bind, ends_condition]
  generalize g.condition cond s.vars = r at hQ ⊢
  rcases r with ⟨f | holds, w⟩
  · exact hQ
  · cases holds with
    | true =>
      dsimp only [Except.mapError]
      rw [if_pos rfl, ends_change, Session.updateIf, Session.updateTop, Session.blocks_withVars, hs]
      dsimp only
      rw [Session.setBlocks_withVars]
      exact hQ
    | false =>
      dsimp only [Except.mapError]
      rw [if_neg (by decide), ends_bind]
      unfold takeUntried
      simp only [ends_bind, ends_ask, Session.blocks_withVars, hs, ends_change, Session.updateIf, Session.updateTop,
        ends_pure]
      refine Ends.goToPart hother ?_
      rw [Session.setBlocks_withVars]
      exact hQ

/-- The command of an `if` enters it, and evaluates its condition. -/
theorem enterIf_ends (hb : s.suite.blockAt? a = some b)
    (hother : (b.elseIfs.head? <|> b.elseAt <|> b.closer) = some q)
    (hQ : Q ((s.push (.conditional { opener := a, untried := b.elseIfs })).tried
        { opener := a, untried := b.elseIfs } s.blocks q (g.condition cond s.vars)).1
      ((s.push (.conditional { opener := a, untried := b.elseIfs })).tried
        { opener := a, untried := b.elseIfs } s.blocks q (g.condition cond s.vars)).2) :
    (enterIf g a cond).Ends s Q := by
  unfold enterIf
  rw [ends_bind]
  refine Ends.block hb ?_
  dsimp only
  rw [ends_bind, ends_change]
  refine tryBranch_ends (c := { opener := a, untried := b.elseIfs }) (s.blocks_setBlocks _) hother ?_
  rw [Session.push, Session.vars_setBlocks]
  exact hQ

/-- A part of the innermost conditional belongs to it. -/
theorem owningIf_of_top {Q : Except Fault Block → Session → Prop} (hs : s.blocks = .conditional c :: rest)
    (hp : s.suite.IsPart c.opener p) (hb : s.suite.blockAt? c.opener = some b) (hQ : Q (.ok b) s) :
    (owningIf p).Ends s Q := by
  refine Ends.own_part (f := .conditional c) hs hp fun d ho => ?_
  rw [ho]
  exact Ends.block hb hQ

/-- An `elseIf` of a conditional of which no branch was run evaluates its condition. -/
theorem reachElseIf_ends (hs : s.blocks = .conditional c :: rest) (hp : s.suite.IsPart c.opener p)
    (hb : s.suite.blockAt? c.opener = some b) (hc : c.matched = false)
    (hother : (c.untried.head? <|> b.elseAt <|> b.closer) = some q)
    (hQ : Q (s.tried c rest q (g.condition cond s.vars)).1 (s.tried c rest q (g.condition cond s.vars)).2) :
    (reachElseIf g p cond).Ends s Q := by
  unfold reachElseIf
  rw [ends_bind]
  refine owningIf_of_top hs hp hb ?_
  dsimp only
  rw [ends_bind, ends_ask, hasMatched, hs]
  dsimp only
  rw [hc, if_neg (by decide)]
  exact tryBranch_ends hs hother hQ

/-- An `else` of a conditional of which no branch was run lets the run go on. -/
theorem reachElse_ends (hs : s.blocks = .conditional c :: rest) (hp : s.suite.IsPart c.opener p)
    (hb : s.suite.blockAt? c.opener = some b) (hc : c.matched = false) (hQ : Q (.ok ()) s) :
    (reachElse p).Ends s Q := by
  unfold reachElse
  rw [ends_bind]
  refine owningIf_of_top hs hp hb ?_
  dsimp only
  rw [ends_bind, ends_ask, hasMatched, hs]
  dsimp only
  rw [hc, if_neg (by decide)]
  exact hQ

/-- A branch command of a conditional of which a branch was run goes on at the closer. -/
theorem perform_branch_of_matched {k : Keyword} {target value : String} (hs : s.blocks = .conditional c :: rest)
    (hp : s.suite.IsPart c.opener p) (hb : s.suite.blockAt? c.opener = some b) (hc : c.matched = true)
    (he : b.closer = some e) (hk : k = .elseIf ∨ k = .otherwise) (hQ : Q (.ok ()) (s.branch e)) :
    (perform g p k target value).Ends s Q := by
  have hgoes {m : Block → Action Unit} : (owningIf p >>= fun b => ask hasMatched >>= fun matched =>
      if matched then goToPart b.closer "endIf" else m b).Ends s Q := by
    rw [ends_bind]
    refine owningIf_of_top hs hp hb ?_
    dsimp only
    rw [ends_bind, ends_ask, hasMatched, hs]
    dsimp only
    rw [hc, if_pos rfl]
    exact Ends.goToPart he hQ
  rcases hk with rfl | rfl
  · exact hgoes (m := fun b => tryBranch g b target)
  · exact hgoes (m := fun _ => pure ())

/-- The closer of a conditional leaves it. -/
theorem leaveIf_ends (hs : s.blocks = .conditional c :: rest) (hp : s.suite.IsPart c.opener e)
    (hb : s.suite.blockAt? c.opener = some b) (hQ : Q (.ok ()) (s.setBlocks rest)) : (leaveIf e).Ends s Q := by
  unfold leaveIf
  rw [ends_bind, ends_discard]
  refine owningIf_of_top hs hp hb ?_
  have hdrop : s.drop 1 = s.setBlocks rest := by
    unfold Session.drop
    rw [hs]
    rfl
  change Q (.ok ()) (s.drop 1)
  rw [hdrop]
  exact hQ

end

/-! ## 3. Faults -/

section

variable {g : Setting} {s s' : Session} {a : Address} {f : Fault}

/-- A try that takes part in a fault goes on at one of its parts. -/
theorem Offer.part (o : Offer g f s .handled s') (h : s.Fitted) : ∃ t rest p, s'.blocks = .guarded t :: rest ∧
    s'.pending = some p ∧ s.suite.IsPart t.opener p := by
  have hfits {k n : Nat} {t : TryFrame} {rest : List Frame} (hr : s.Reaches k n t rest) :
      Frame.Fits s.suite (.guarded t) := h.fits _ hr.mem_frames
  cases o with
  | @caught k n t rest p v catchable reaches catches =>
    have hcatch := catches.1
    rw [show (Session.pruneDeferred _).suite = s.suite from reaches.kept.suite] at hcatch
    exact ⟨t.enterHandler, rest, p, Session.blocks_setBlocks _ _, rfl,
      (isPart_of_catchOf? h.nested (hfits reaches) hcatch).1⟩
  | @cleaned k n t rest p v catchable reaches uncaught section_ =>
    exact ⟨t.enterCleanup, rest, p, Session.blocks_setBlocks _ _, rfl,
      isPart_of_finallyOf? h.nested (hfits reaches) section_⟩
  | @passed k n t rest e v catchable reaches uncaught done nesting closer =>
    exact ⟨t, rest, e, Session.blocks_setBlocks _ _, rfl, h.nested.isPart_closer closer⟩

/-- A fault that is handled goes on at a part of the try that is innermost then. -/
theorem Step.handled_part (h : Step g a s (.handled f) s') (hs : s.Sound a) : ∃ t rest p,
    s'.blocks = .guarded t :: rest ∧ s'.pending = some p ∧ s.suite.IsPart t.opener p := by
  cases h with
  | handled ready move same offer =>
    obtain ⟨t, rest, p, hb, hp, hpart⟩ := offer.part (move.sound ready hs).toFitted
    rw [move.kept.1] at hpart
    exact ⟨t, rest, p, hb, hp, hpart⟩

end

/-! ## 4. Conditions in turn -/

/-- The conditions of commands do not hold when they are evaluated in turn, which makes variables others. -/
def Refuses (g : Setting) (suite : Suite) : List Address → Namespace → Namespace → Prop
  | [], v, w => w = v
  | p :: ps, v, w => ∃ u, g.condition (suite.conditionAt p) v = (.ok false, u) ∧ Refuses g suite ps u w

/-- The commands that a run does next, each of which does what it is to do. -/
inductive Executes {σ : Type} (g : Setting) (host : Host σ) : List Address → Moment σ → Moment σ → Prop
  | none {m : Moment σ} : Executes g host [] m m
  | command {m m' m'' : Moment σ} {p : Address} {ps : List Address} (next : m.next? = some p)
      (done : m.advance g host = some (.done, m')) (goesOn : m'.session.exitRequested = false)
      (further : Executes g host ps m' m'') : Executes g host (p :: ps) m m''

/-- **The run is about to evaluate a condition** of the conditional opened at an address, of which certain
`elseIf`s come after that. -/
structure Moment.Asks {σ : Type} (m : Moment σ) (a : Address) (b : Block) (rest : List Frame)
    (post : List (List Frame)) (p : Address) (untried : List Address) : Prop where
  next : m.next? = some p
  place : p = a ∧ untried = b.elseIfs ∧ m.session.blockStacks = rest :: post ∨
    p ∈ b.elseIfs ∧ m.session.blockStacks = (.conditional { opener := a, untried } :: rest) :: post

section

variable {σ : Type} {g : Setting} {host : Host σ} {m₀ m m' z : Moment σ} {a e p q : Address} {b : Block}
  {rest : List Frame} {post : List (List Frame)} {untried : List Address} {w : Namespace} {x : StepResult}

theorem Executes.reachable {ps : List Address} (h : Executes g host ps m m') : Reachable g host m m' := by
  induction h with
  | none => exact .start
  | command next done goesOn further ih => exact (Reachable.start.step done nofun goesOn).trans ih

theorem Executes.append {ps qs : List Address} (h : Executes g host ps m m') (h' : Executes g host qs m' z) :
    Executes g host (ps ++ qs) m z := by
  induction h with
  | none => exact h'
  | command next done goesOn further ih => exact .command next done goesOn (ih h')

/-- What the command does that is to evaluate a condition. -/
theorem Moment.Asks.ends (h : m.Asks a b rest post p untried) (hm₀ : m₀.Starts) (hreach : Reachable g host m₀ m)
    (hb : m.session.suite.blockAt? a = some b) (hk : b.keyword = .ifThen)
    (hother : (untried.head? <|> b.elseAt <|> b.closer) = some q) :
    ∃ (cmd : Command) (k : Keyword) (t : Session), m.session.suite.commandAt? p = some cmd ∧
      Keyword.ofName? cmd.name = some (k, false) ∧ t.blocks = .conditional { opener := a, untried } :: rest ∧
      t.outer.map Level.blocks = post ∧
      t.vars = m.session.vars ∧ t.pending = none ∧ t.exitRequested = false ∧
      ∀ Q : Except Fault Unit → Session → Prop,
        Q (t.tried { opener := a, untried } rest q
            (g.condition (m.session.suite.conditionAt p) m.session.vars)).1
          (t.tried { opener := a, untried } rest q
            (g.condition (m.session.suite.conditionAt p) m.session.vars)).2 →
        (perform g p k (Text.trim cmd.target) (Text.trim cmd.value)).Ends (m.session.poise (some p)) Q := by
  have hexit := hreach.exitRequested hm₀
  have hnested : m.session.suite.Nested := (hreach.sound hm₀).nested
  obtain ⟨hp, rfl, hstacks⟩ | ⟨hp, hstacks⟩ := h.place
  · subst hp
    obtain ⟨cmd, hcmd, hof⟩ := commandAt?_of_keywordAt? (hk ▸ hnested.keyword hb)
    rw [m.session.blockStacks_eq] at hstacks
    obtain ⟨hblocks, hpost⟩ := List.cons.inj hstacks
    let t := (m.session.poise (some p)).push (.conditional { opener := p, untried := b.elseIfs })
    have hkept := (m.session.poise (some p)).kept_setBlocks
      (.conditional { opener := p, untried := b.elseIfs } :: (m.session.poise (some p)).blocks)
    refine ⟨cmd, .ifThen, t, hcmd, hof, ?_, ?_, Session.vars_setBlocks _ _, hkept.pending,
      hkept.exitRequested.trans hexit, fun Q hQ => ?_⟩
    · rw [← hblocks]
      exact Session.blocks_setBlocks _ _
    · rw [← hpost]
      exact congrArg _ (Session.outer_setBlocks _ _)
    · refine enterIf_ends (s := m.session.poise (some p)) hb hother ?_
      rw [Suite.conditionAt, hcmd] at hQ
      have hblocks' : (m.session.poise (some p)).blocks = rest := hblocks
      rw [hblocks']
      exact hQ
  · obtain ⟨d, hd, hdk, -⟩ := hnested.part (k := .elseIf) hb (by rw [Block.nature?, hk]; rfl) hp
    obtain ⟨cmd, hcmd, hof⟩ := commandAt?_of_keywordAt? (hdk ▸ hnested.keyword hd)
    have hpart := hnested.isPart_of_mem (k := .elseIf) hb (by rw [Block.nature?, hk]; rfl) hp
    rw [m.session.blockStacks_eq] at hstacks
    obtain ⟨hblocks, hpost⟩ := List.cons.inj hstacks
    refine ⟨cmd, .elseIf, m.session.poise (some p), hcmd, hof, hblocks, hpost, rfl, rfl, hexit, fun Q hQ => ?_⟩
    refine reachElseIf_ends (s := m.session.poise (some p)) (c := { opener := a, untried }) hblocks hpart hb rfl
      hother ?_
    rw [Suite.conditionAt, hcmd] at hQ
    exact hQ

/-- **A condition that holds** begins its branch. -/
theorem Moment.Asks.holds (h : m.Asks a b rest post p untried) (hm₀ : m₀.Starts) (hreach : Reachable g host m₀ m)
    (hb : m.session.suite.blockAt? a = some b) (hk : b.keyword = .ifThen) (he : b.closer = some e)
    (hholds : g.condition (m.session.suite.conditionAt p) m.session.vars = (.ok true, w)) :
    ∃ z, Executes g host [p] m z ∧
      z.session.blockStacks = (.conditional { opener := a, untried, matched := true } :: rest) :: post ∧
      z.session.vars = w ∧ z.session.pending = none ∧ z.following = p.next := by
  obtain ⟨q, hother⟩ := Block.exists_other untried he
  obtain ⟨cmd, k, t, hcmd, hof, -, hpost, hvars, hpending, hexit, hends⟩ := h.ends hm₀ hreach hb hk hother
  rw [hholds] at hends
  let t' := (t.setBlocks (.conditional { opener := a, untried, matched := true } :: rest)).withVars w
  obtain ⟨z, hadv, hz, hfollowing⟩ := Moment.exists_done host (P := (· = t')) h.next hcmd hof
    (hends _ ⟨rfl, rfl⟩)
  have hkept := t.kept_setBlocks (.conditional { opener := a, untried, matched := true } :: rest)
  refine ⟨z, .command h.next hadv (by rw [hz]; exact hkept.exitRequested.trans hexit) .none, ?_, by rw [hz]; rfl,
    by rw [hz]; exact hkept.pending.trans hpending, hfollowing⟩
  rw [hz, ← hpost]
  exact Session.blockStacks_of_outer (Session.blocks_setBlocks _ _) (Session.outer_setBlocks _ _)

/-- **A condition that does not hold** sends the run to the next one, or past the conditions. -/
theorem Moment.Asks.refused (h : m.Asks a b rest post p untried) (hm₀ : m₀.Starts) (hreach : Reachable g host m₀ m)
    (hb : m.session.suite.blockAt? a = some b) (hk : b.keyword = .ifThen)
    (hother : (untried.head? <|> b.elseAt <|> b.closer) = some q)
    (hrefuses : g.condition (m.session.suite.conditionAt p) m.session.vars = (.ok false, w)) :
    ∃ z, Executes g host [p] m z ∧
      z.session.blockStacks = (.conditional { opener := a, untried := untried.tail } :: rest) :: post ∧
      z.session.vars = w ∧ z.session.pending = some q := by
  obtain ⟨cmd, k, t, hcmd, hof, -, hpost, hvars, hpending, hexit, hends⟩ := h.ends hm₀ hreach hb hk hother
  rw [hrefuses] at hends
  let t' := (t.setBlocks (.conditional { opener := a, untried := untried.tail } :: rest)).proceed (some q) w
  obtain ⟨z, hadv, hz, -⟩ := Moment.exists_done host (P := (· = t')) h.next hcmd hof
    (hends _ ⟨rfl, rfl⟩)
  have hkept := t.kept_setBlocks (.conditional { opener := a, untried := untried.tail } :: rest)
  refine ⟨z, .command h.next hadv (by rw [hz]; exact hkept.exitRequested.trans hexit) .none, ?_, by rw [hz]; rfl,
    by rw [hz]; rfl⟩
  rw [hz, ← hpost]
  exact Session.blockStacks_of_outer (Session.blocks_setBlocks _ _) (Session.outer_setBlocks _ _)

/-- **A condition that fails** leaves the conditional, for a part of a try if the fault is handled. -/
theorem Moment.Asks.failed {f : EvalError} (h : m.Asks a b rest post p untried) (hm₀ : m₀.Starts)
    (hreach : Reachable g host m₀ m) (hb : m.session.suite.blockAt? a = some b) (hk : b.keyword = .ifThen)
    (he : b.closer = some e)
    (hfails : g.condition (m.session.suite.conditionAt p) m.session.vars = (.error f, w))
    (hadv : m.advance g host = some (x, z)) :
    x ≠ .done ∧ ((∀ f, x ≠ .unhandled f) → (∀ c, ¬z.session.Bears (.conditional c) rest post) ∧
      ∃ t fs p, z.session.blocks = .guarded t :: fs ∧ z.next? = some p ∧ m.session.suite.IsPart t.opener p) := by
  obtain ⟨q, hother⟩ := Block.exists_other untried he
  obtain ⟨cmd, k, t, hcmd, hof, -, -, -, -, -, hends⟩ := h.ends hm₀ hreach hb hk hother
  rw [hfails] at hends
  have hnot : x ≠ .done := by
    rintro rfl
    exact (Moment.not_done host h.next hcmd hof (hends (fun r _ => r = .error f.fault) rfl)).1 z hadv
  refine ⟨hnot, fun hx => ?_⟩
  obtain ⟨p', hp', -, -, hstep⟩ := Moment.step_of_advance (hreach.sound hm₀) hadv
  cases x with
  | done => exact absurd rfl hnot
  | unhandled f => exact absurd rfl (hx f)
  | handled f =>
    obtain ⟨t, fs, p, hblocks, hpending, hpart⟩ := hstep.handled_part (hreach.sound_poise hm₀ hp')
    refine ⟨fun c hbears => ?_, t, fs, p, hblocks, by rw [Moment.next?, hpending]; rfl, hpart⟩
    obtain ⟨-, -, hstacks⟩ | ⟨-, hstacks⟩ := h.place
    · exact (hstep.handled_enters_none (f := .conditional c) (by rintro _ ⟨⟩) hbears).ne hstacks
    · refine hstep.handled_leaves hstacks ?_ ?_ hbears <;> rintro _ ⟨⟩

theorem refuses_append {suite : Suite} {ps qs : List Address} {v w : Namespace} :
    Refuses g suite (ps ++ qs) v w ↔ ∃ u, Refuses g suite ps v u ∧ Refuses g suite qs u w := by
  induction ps generalizing v with
  | nil => exact ⟨fun h => ⟨v, rfl, h⟩, by rintro ⟨_, rfl, h⟩; exact h⟩
  | cons p ps ih =>
    constructor
    · rintro ⟨u, hp, hps⟩
      obtain ⟨u', hps, hqs⟩ := ih.1 hps
      exact ⟨u', ⟨u, hp, hps⟩, hqs⟩
    · rintro ⟨u', ⟨u, hp, hps⟩, hqs⟩
      exact ⟨u, hp, ih.2 ⟨u', hps, hqs⟩⟩

/-- **Conditions that do not hold** are evaluated one after the other, and nothing else is run. -/
theorem Moment.Asks.refuses {before after : List Address} {p' : Address} (h : m.Asks a b rest post p untried)
    (hm₀ : m₀.Starts) (hreach : Reachable g host m₀ m) (hb : m.session.suite.blockAt? a = some b)
    (hk : b.keyword = .ifThen) (hof : ∀ q ∈ untried, q ∈ b.elseIfs) (hsplit : p :: untried = before ++ p' :: after)
    (hrefuses : Refuses g m.session.suite before m.session.vars w) :
    ∃ z, Executes g host before m z ∧ z.Asks a b rest post p' after ∧ z.session.vars = w := by
  induction before generalizing m p untried with
  | nil =>
    cases hsplit
    cases hrefuses
    exact ⟨m, .none, h, rfl⟩
  | cons p₀ before ih =>
    obtain ⟨rfl, huntried⟩ := List.cons.inj hsplit
    obtain ⟨u, hp, hps⟩ := hrefuses
    obtain ⟨r, ps, rfl⟩ : ∃ r ps, untried = r :: ps :=
      List.exists_cons_of_ne_nil (huntried ▸ List.append_ne_nil_of_right_ne_nil _ (List.cons_ne_nil _ _))
    obtain ⟨z, hexec, hstacks, hvars, hpending⟩ := h.refused hm₀ hreach hb hk (q := r) rfl hp
    have hreachz := hreach.trans hexec.reachable
    have hsuite : z.session.suite = m.session.suite := (hreachz.suite hm₀).trans (hreach.suite hm₀).symm
    have hasks : z.Asks a b rest post r ps :=
      ⟨by rw [Moment.next?, hpending]; rfl, .inr ⟨hof r List.mem_cons_self, hstacks⟩⟩
    obtain ⟨z', hexec', hasks', hvars'⟩ := ih hasks hreachz (hsuite ▸ hb)
      (fun q hq => hof q (List.mem_cons_of_mem _ hq)) huntried (by rw [hsuite, hvars]; exact hps)
    exact ⟨z', hexec.append hexec', hasks', hvars'⟩

/-- Past the last condition the run goes on at the `else` or at the closer. -/
theorem Moment.Asks.refuses_all (h : m.Asks a b rest post p untried) (hm₀ : m₀.Starts)
    (hreach : Reachable g host m₀ m) (hb : m.session.suite.blockAt? a = some b) (hk : b.keyword = .ifThen)
    (hof : ∀ q ∈ untried, q ∈ b.elseIfs) (hother : (b.elseAt <|> b.closer) = some q)
    (hrefuses : Refuses g m.session.suite (p :: untried) m.session.vars w) :
    ∃ z, Executes g host (p :: untried) m z ∧
      z.session.blockStacks = (.conditional { opener := a } :: rest) :: post ∧ z.session.vars = w ∧
      z.session.pending = some q := by
  obtain ⟨before, p', hsplit⟩ : ∃ before p', p :: untried = before ++ [p'] :=
    ⟨(p :: untried).dropLast, (p :: untried).getLast (List.cons_ne_nil _ _), (List.dropLast_append_getLast _).symm⟩
  rw [hsplit, refuses_append] at hrefuses
  obtain ⟨u, hbefore, v, hlast, rfl⟩ := hrefuses
  obtain ⟨z, hexec, hasks, hvars⟩ := h.refuses hm₀ hreach hb hk hof hsplit hbefore
  have hreachz := hreach.trans hexec.reachable
  have hsuite : z.session.suite = m.session.suite := (hreachz.suite hm₀).trans (hreach.suite hm₀).symm
  obtain ⟨z', hexec', hstacks, hvars', hpending⟩ := hasks.refused hm₀ hreachz (hsuite ▸ hb) hk (q := q) hother
    (by rw [hsuite, hvars]; exact hlast)
  exact ⟨z', hsplit ▸ hexec.append hexec', hstacks, hvars', hpending⟩

end

/-! ## 5. Bodies of branches -/

/-- The run is about to run a part of the conditional opened at an address, which is innermost. -/
def Moment.AtPart {σ : Type} (m : Moment σ) (a : Address) (rest : List Frame) (post : List (List Frame))
    (q : Address) : Prop :=
  ∃ c, m.session.blockStacks = (.conditional c :: rest) :: post ∧ c.opener = a ∧ m.next? = some q ∧
    m.session.suite.IsPart a q

/-- The conditional opened at an address is running, and the run is not at a part of it. -/
def Moment.InBranch {σ : Type} (m : Moment σ) (a : Address) (rest : List Frame) (post : List (List Frame)) : Prop :=
  (∃ c, m.session.Bears (.conditional c) rest post ∧ c.opener = a) ∧ ∀ q, ¬m.AtPart a rest post q

/-- **A branch falls through**: whatever is run in it, the run comes to a part of the conditional. -/
structure FallsThrough {σ : Type} (g : Setting) (host : Host σ) (a : Address) (rest : List Frame)
    (post : List (List Frame)) (m m' : Moment σ) (q : Address) : Prop where
  meanwhile : Meanwhile g host (fun m => m.InBranch a rest post) m m'
  atPart : m'.AtPart a rest post q

section

variable {σ : Type} {g : Setting} {host : Host σ} {m₀ m m' : Moment σ} {a e q : Address} {b : Block} {c c' : IfFrame}
  {rest : List Frame} {post : List (List Frame)}

/-- **The frame of a conditional stays as it is** in a branch. -/
theorem Meanwhile.keeps_conditional (h : Meanwhile g host (fun m => m.InBranch a rest post) m m') (hm₀ : m₀.Starts)
    (hreach : Reachable g host m₀ m) (top : m.session.blockStacks = (.conditional c :: rest) :: post)
    (h' : m'.session.Bears (.conditional c') rest post) : c' = c := by
  induction h generalizing c' with
  | start => exact (Frame.conditional.inj (Bears.unique (.of_top top) h')).symm
  | @step m₁ m₂ x before holds advance handled goesOn ih =>
    obtain ⟨⟨c₁, hc₁, ho⟩, hnot⟩ := holds
    obtain rfl := ih hc₁
    obtain ⟨q, hq, -, -, hstep⟩ := Moment.step_of_advance ((hreach.trans before.reachable).sound hm₀) advance
    rcases (show Session.Bears (m₁.session.poise (some q)) (.conditional c₁) rest post from hc₁).step hstep handled h'
      with heq | ⟨hbecomes, -, hinner⟩
    · exact Frame.conditional.inj heq
    · cases hbecomes with
      | branch at_ => exact absurd ⟨c₁, hinner ⟨c₁, rfl⟩, ho, hq, ho ▸ at_⟩ (hnot q)

/-- **The closer of a conditional** leaves it, and the run goes on behind. -/
theorem Reachable.closes_conditional (hreach : Reachable g host m₀ m) (hm₀ : m₀.Starts)
    (top : m.session.blockStacks = (.conditional c :: rest) :: post) (hb : m.session.suite.blockAt? c.opener = some b)
    (hk : b.keyword = .ifThen) (he : b.closer = some e) (ha : m.next? = some e) :
    ∃ z, Executes g host [e] m z ∧ z.session.blockStacks = rest :: post ∧ z.session.vars = m.session.vars ∧
      z.session.pending = none ∧ z.following = e.next := by
  have hnested : m.session.suite.Nested := (hreach.sound hm₀).nested
  have hconstruct : m.session.suite.Construct c.opener e := ⟨b, hb, by rw [Block.nature?, hk]; rfl, he⟩
  obtain ⟨b', k, hb', hkey, hcloses⟩ := hnested.keyword_of_construct hconstruct
  cases hb.symm.trans hb'
  obtain rfl : k = .endIf := by
    rw [hk] at hcloses
    cases k <;> first | rfl | cases hcloses
  obtain ⟨cmd, hcmd, hof⟩ := commandAt?_of_keywordAt? hkey
  rw [m.session.blockStacks_eq] at top
  obtain ⟨hblocks, hpost⟩ := List.cons.inj top
  obtain ⟨z, hadv, hz, hfollowing⟩ := Moment.exists_done host (P := (· = (m.session.poise (some e)).setBlocks rest))
    ha hcmd hof (leaveIf_ends (s := m.session.poise (some e)) hblocks (hnested.isPart_closer hconstruct) hb ⟨rfl, rfl⟩)
  have hkept := (m.session.poise (some e)).kept_setBlocks rest
  refine ⟨z, .command ha hadv (by rw [hz]; exact hkept.exitRequested.trans (hreach.exitRequested hm₀)) .none, ?_, ?_,
    by rw [hz]; exact hkept.pending, hfollowing⟩
  · rw [hz, ← hpost]
    exact Session.blockStacks_of_outer (Session.blocks_setBlocks _ _) (Session.outer_setBlocks _ _)
  · rw [hz]
    exact Session.vars_setBlocks _ _

/-- **A branch command that a branch falls through to** goes on at the closer. -/
theorem Reachable.skips_branches (hreach : Reachable g host m₀ m) (hm₀ : m₀.Starts)
    (top : m.session.blockStacks = (.conditional c :: rest) :: post) (hc : c.matched = true)
    (hb : m.session.suite.blockAt? c.opener = some b) (he : b.closer = some e) (ha : m.next? = some q)
    (hp : m.session.suite.IsPart c.opener q) {k : Keyword} (hk : k = .elseIf ∨ k = .otherwise)
    (hkey : m.session.suite.keywordAt? q = some k) :
    ∃ z, Executes g host [q] m z ∧ z.session.blockStacks = (.conditional c :: rest) :: post ∧
      z.session.vars = m.session.vars ∧ z.next? = some e := by
  obtain ⟨cmd, hcmd, hof⟩ := commandAt?_of_keywordAt? hkey
  rw [m.session.blockStacks_eq] at top
  obtain ⟨hblocks, hpost⟩ := List.cons.inj top
  obtain ⟨z, hadv, hz, -⟩ := Moment.exists_done host (P := (· = (m.session.poise (some q)).branch e)) ha hcmd hof
    (perform_branch_of_matched (s := m.session.poise (some q)) hblocks hp hb hc he hk ⟨rfl, rfl⟩)
  refine ⟨z, .command ha hadv (by rw [hz]; exact hreach.exitRequested hm₀) .none, ?_, by rw [hz]; rfl,
    by rw [Moment.next?, hz]; rfl⟩
  rw [hz, ← hpost]
  exact Session.blockStacks_of_outer hblocks rfl

/-- **An `else`** begins its branch if none was run. -/
theorem Reachable.begins_else (hreach : Reachable g host m₀ m) (hm₀ : m₀.Starts)
    (top : m.session.blockStacks = (.conditional c :: rest) :: post) (hc : c.matched = false)
    (hb : m.session.suite.blockAt? c.opener = some b) (hk : b.keyword = .ifThen) (hq : b.elseAt = some q)
    (ha : m.next? = some q) :
    ∃ z, Executes g host [q] m z ∧ z.session.blockStacks = (.conditional c :: rest) :: post ∧
      z.session.vars = m.session.vars ∧ z.session.pending = none ∧ z.following = q.next := by
  have hnested : m.session.suite.Nested := (hreach.sound hm₀).nested
  have hn : b.nature?.isSome := by rw [Block.nature?, hk]; rfl
  have hmem : q ∈ b.partsOf .otherwise := Option.mem_toList.2 hq
  obtain ⟨d, hd, hdk, -⟩ := hnested.part hb hn hmem
  obtain ⟨cmd, hcmd, hof⟩ := commandAt?_of_keywordAt? (hdk ▸ hnested.keyword hd)
  rw [m.session.blockStacks_eq] at top
  obtain ⟨hblocks, hpost⟩ := List.cons.inj top
  obtain ⟨z, hadv, hz, hfollowing⟩ := Moment.exists_done host (P := (· = m.session.poise (some q))) ha hcmd hof
    (reachElse_ends (s := m.session.poise (some q)) hblocks (hnested.isPart_of_mem hb hn hmem) hb hc ⟨rfl, rfl⟩)
  refine ⟨z, .command ha hadv (by rw [hz]; exact hreach.exitRequested hm₀) .none, ?_, by rw [hz]; rfl,
    by rw [hz]; rfl, hfollowing⟩
  rw [hz, ← hpost]
  exact Session.blockStacks_of_outer hblocks rfl

/-- **A branch that was taken** and falls through is the only one: the run goes on at the closer, and behind. -/
theorem FallsThrough.closes (h : FallsThrough g host a rest post m m' q) (hm₀ : m₀.Starts)
    (hreach : Reachable g host m₀ m) (top : m.session.blockStacks = (.conditional c :: rest) :: post)
    (hb : m.session.suite.blockAt? a = some b) (hk : b.keyword = .ifThen) (he : b.closer = some e)
    (hc : c.matched = true ∨ q = e) :
    ∃ z, Executes g host (if q = e then [e] else [q, e]) m' z ∧ z.session.blockStacks = rest :: post ∧
      z.session.vars = m'.session.vars ∧ z.session.pending = none ∧ z.following = e.next := by
  obtain ⟨c', top', rfl, hnext, hpart⟩ := h.atPart
  have hreach' := hreach.trans h.meanwhile.reachable
  have hsuite {y : Moment σ} (hy : Reachable g host m₀ y) : y.session.suite = m.session.suite :=
    (hy.suite hm₀).trans (hreach.suite hm₀).symm
  obtain rfl := h.meanwhile.keeps_conditional hm₀ hreach top (.of_top top')
  have hb' : m'.session.suite.blockAt? c'.opener = some b := by rw [hsuite hreach']; exact hb
  by_cases hq : q = e
  · subst hq
    rw [if_pos rfl]
    exact hreach'.closes_conditional hm₀ top' hb' hk he hnext
  · rw [if_neg hq]
    obtain ⟨k, hkeyword, hkey⟩ := ((hreach'.sound hm₀).nested.part_of_conditional hb' hk hpart).resolve_right
      fun hcloser => hq (Option.some.inj (hcloser.symm.trans he))
    obtain ⟨y, hexec, hstacks, hvars, hnexty⟩ :=
      hreach'.skips_branches hm₀ top' (hc.resolve_right hq) hb' he hnext hpart hkeyword hkey
    have hreachy := hreach'.trans hexec.reachable
    obtain ⟨z, hexec', hz, hvars', hrest⟩ := hreachy.closes_conditional hm₀ hstacks
      (by rw [hsuite hreachy]; exact hb) hk he hnexty
    exact ⟨z, hexec.append hexec', hz, hvars'.trans hvars, hrest⟩

end

/-! ## 6. Runs of conditionals -/

/-- The run is past the closer of a construct that it came to at a moment, and that is all it is past. -/
structure Moment.IsPast {σ : Type} (m z : Moment σ) (e : Address) : Prop where
  blockStacks : z.session.blockStacks = m.session.blockStacks
  pending : z.session.pending = none
  following : z.following = e.next

/-- The run begins a branch of the conditional that it came to at a moment. -/
structure Moment.BeginsBranch {σ : Type} (m z : Moment σ) (a p : Address) : Prop where
  running : ∃ c, z.session.blockStacks = (.conditional c :: m.session.blocks) :: m.session.outer.map Level.blocks ∧
    c.opener = a
  pending : z.session.pending = none
  following : z.following = p.next

/-- **The run of a conditional that is entered**: its conditions are evaluated in the order of the source up
to the first one that holds, and the branch of that condition is run, or the `else`, or nothing. -/
structure Moment.RunsOneBranch {σ : Type} (g : Setting) (host : Host σ) (m : Moment σ) (a : Address) (b : Block)
    (e : Address) : Prop where
  ordered : (a :: b.elseIfs ++ b.elseAt.toList ++ [e]).Pairwise (· < ·)
  elseIfs : ∀ p, p ∈ b.elseIfs ↔ m.session.suite.keywordAt? p = some .elseIf ∧ m.session.suite.Directly a p
  elseAt : ∀ p, b.elseAt = some p ↔ m.session.suite.keywordAt? p = some .otherwise ∧ m.session.suite.Directly a p
  /-- None of the conditions holds, or there is a first one that does or that fails. -/
  verdict : (∃ w, Refuses g m.session.suite (a :: b.elseIfs) m.session.vars w) ∨
    ∃ before p after u r w, a :: b.elseIfs = before ++ p :: after ∧ Refuses g m.session.suite before m.session.vars u ∧
      g.condition (m.session.suite.conditionAt p) u = (r, w) ∧ r ≠ .ok false
  /-- The branch of the first condition that holds is run, and then the run is past the closer. -/
  taken : ∀ {before p after u w}, a :: b.elseIfs = before ++ p :: after →
    Refuses g m.session.suite before m.session.vars u →
    g.condition (m.session.suite.conditionAt p) u = (.ok true, w) →
    ∃ z, Executes g host (before ++ [p]) m z ∧ z.session.vars = w ∧ m.BeginsBranch z a p ∧
      ∀ y q, FallsThrough g host a m.session.blocks (m.session.outer.map Level.blocks) z y q →
        ∃ y', Executes g host (if q = e then [e] else [q, e]) y y' ∧ y'.session.vars = y.session.vars ∧ m.IsPast y' e
  /-- If no condition holds then the `else` is run. -/
  otherwise : ∀ {q w}, Refuses g m.session.suite (a :: b.elseIfs) m.session.vars w → b.elseAt = some q →
    ∃ z, Executes g host (a :: b.elseIfs ++ [q]) m z ∧ z.session.vars = w ∧ m.BeginsBranch z a q ∧
      ∀ y, FallsThrough g host a m.session.blocks (m.session.outer.map Level.blocks) z y e →
        ∃ y', Executes g host [e] y y' ∧ y'.session.vars = y.session.vars ∧ m.IsPast y' e
  /-- If no condition holds and there is no `else` then nothing is run. -/
  nothing : ∀ {w}, Refuses g m.session.suite (a :: b.elseIfs) m.session.vars w → b.elseAt = none →
    ∃ z, Executes g host (a :: b.elseIfs ++ [e]) m z ∧ z.session.vars = w ∧ m.IsPast z e
  /-- A condition that fails ends the run, or sends it to a part of a try with the conditional left. -/
  failed : ∀ {before p after u f w}, a :: b.elseIfs = before ++ p :: after →
    Refuses g m.session.suite before m.session.vars u →
    g.condition (m.session.suite.conditionAt p) u = (.error f, w) →
    ∃ z, Executes g host before m z ∧ z.next? = some p ∧ ∀ x y, z.advance g host = some (x, y) → x ≠ .done ∧
      ((∀ f, x ≠ .unhandled f) →
        (∀ c, ¬y.session.Bears (.conditional c) m.session.blocks (m.session.outer.map Level.blocks)) ∧
        ∃ t fs q, y.session.blocks = .guarded t :: fs ∧ y.next? = some q ∧ m.session.suite.IsPart t.opener q)

section

variable {σ : Type} {g : Setting} {host : Host σ} {m₀ m : Moment σ} {a : Address}

/-- Conditions do not hold up to one that holds or fails. -/
theorem refuses_or (g : Setting) (suite : Suite) (ps : List Address) (v : Namespace) : (∃ w, Refuses g suite ps v w) ∨
    ∃ before p after u r w, ps = before ++ p :: after ∧ Refuses g suite before v u ∧
      g.condition (suite.conditionAt p) u = (r, w) ∧ r ≠ .ok false := by
  induction ps generalizing v with
  | nil => exact .inl ⟨v, rfl⟩
  | cons p ps ih =>
    obtain ⟨r, w, hp⟩ : ∃ r w, g.condition (suite.conditionAt p) v = (r, w) := ⟨_, _, rfl⟩
    by_cases hr : r = .ok false
    · subst hr
      rcases ih w with ⟨w', hps⟩ | ⟨before, p', after, u, r, w', rfl, hbefore, hp', hr⟩
      · exact .inl ⟨w', w, hp, hps⟩
      · exact .inr ⟨p :: before, p', after, u, r, w', rfl, ⟨w, hp, hbefore⟩, hp', hr⟩
    · exact .inr ⟨[], p, ps, v, r, w, rfl, rfl, hp, hr⟩

/-- **A conditional runs exactly one branch**, that of its first condition that holds, or the `else`, or
nothing; a condition that fails lets no other one be evaluated, and no branch be run. -/
theorem conditional_runs_one_branch (hm₀ : m₀.Starts) (hreach : Reachable g host m₀ m) (ha : m.next? = some a)
    (hk : m.session.suite.keywordAt? a = some .ifThen) :
    ∃ b e, m.session.suite.blockAt? a = some b ∧ b.closer = some e ∧ m.RunsOneBranch g host a b e := by
  have hnested : m.session.suite.Nested := (hreach.sound hm₀).nested
  obtain ⟨b, hb, hbk⟩ := hnested.exists_block hk rfl
  obtain ⟨e, he⟩ := hnested.closed hb (by rw [Block.nature?, hbk]; rfl)
  obtain ⟨hordered, helseIfs, helseAt, -⟩ :=
    hnested.conditional hb hbk (Suite.branches_ordered (hreach.compiled hm₀) hb)
  rw [he, Option.toList_some] at hordered
  have hasks : m.Asks a b m.session.blocks (m.session.outer.map Level.blocks) a b.elseIfs :=
    ⟨ha, .inl ⟨rfl, rfl, m.session.blockStacks_eq⟩⟩
  have hsuite {y : Moment σ} (hy : Reachable g host m₀ y) : y.session.suite = m.session.suite :=
    (hy.suite hm₀).trans (hreach.suite hm₀).symm
  refine ⟨b, e, hb, he, hordered, helseIfs, helseAt, refuses_or g _ _ _, ?_, ?_, ?_, ?_⟩
  · intro before p after u w hsplit hrefuses hholds
    obtain ⟨z, hexec, hz, hvars⟩ := hasks.refuses hm₀ hreach hb hbk (fun _ h => h) hsplit hrefuses
    have hreachz := hreach.trans hexec.reachable
    obtain ⟨z', hexec', top, hvars', hpending, hfollowing⟩ := hz.holds hm₀ hreachz
      (by rw [hsuite hreachz]; exact hb) hbk he (by rw [hsuite hreachz, hvars]; exact hholds)
    have hreachz' := hreachz.trans hexec'.reachable
    refine ⟨z', hexec.append hexec', hvars', ⟨⟨_, top, rfl⟩, hpending, hfollowing⟩, fun y q hfalls => ?_⟩
    obtain ⟨y', hexec, hstacks, hvars, hpending, hfollowing⟩ := hfalls.closes hm₀ hreachz' top
      (by rw [hsuite hreachz']; exact hb) hbk he (.inl rfl)
    exact ⟨y', hexec, hvars, hstacks.trans m.session.blockStacks_eq.symm, hpending, hfollowing⟩
  · intro q w hrefuses helse
    obtain ⟨z, hexec, top, hvars, hpending⟩ := hasks.refuses_all hm₀ hreach hb hbk (fun _ h => h)
      (by rw [helse]; rfl) hrefuses
    have hreachz := hreach.trans hexec.reachable
    obtain ⟨z', hexec', top', hvars', hpending', hfollowing⟩ := hreachz.begins_else hm₀ top rfl
      (by rw [hsuite hreachz]; exact hb) hbk helse (by rw [Moment.next?, hpending]; rfl)
    have hreachz' := hreachz.trans hexec'.reachable
    refine ⟨z', hexec.append hexec', hvars'.trans hvars, ⟨⟨_, top', rfl⟩, hpending', hfollowing⟩, fun y hfalls => ?_⟩
    obtain ⟨y', hexec, hstacks, hvars, hpending, hfollowing⟩ := hfalls.closes hm₀ hreachz' top'
      (by rw [hsuite hreachz']; exact hb) hbk he (.inr rfl)
    rw [if_pos rfl] at hexec
    exact ⟨y', hexec, hvars, hstacks.trans m.session.blockStacks_eq.symm, hpending, hfollowing⟩
  · intro w hrefuses helse
    obtain ⟨z, hexec, top, hvars, hpending⟩ := hasks.refuses_all hm₀ hreach hb hbk (fun _ h => h)
      (q := e) (by rw [helse, he]; rfl) hrefuses
    have hreachz := hreach.trans hexec.reachable
    obtain ⟨z', hexec', hstacks, hvars', hpending', hfollowing⟩ := hreachz.closes_conditional hm₀ top
      (by rw [hsuite hreachz]; exact hb) hbk he (by rw [Moment.next?, hpending]; rfl)
    exact ⟨z', hexec.append hexec', hvars'.trans hvars, hstacks.trans m.session.blockStacks_eq.symm, hpending',
      hfollowing⟩
  · intro before p after u f w hsplit hrefuses hfails
    obtain ⟨z, hexec, hz, hvars⟩ := hasks.refuses hm₀ hreach hb hbk (fun _ h => h) hsplit hrefuses
    have hreachz := hreach.trans hexec.reachable
    refine ⟨z, hexec, hz.next, fun x y hadv => ?_⟩
    have hfailed := hz.failed hm₀ hreachz (by rw [hsuite hreachz]; exact hb) hbk he
      (by rw [hsuite hreachz, hvars]; exact hfails) hadv
    rwa [hsuite hreachz] at hfailed

/-- A setting in which one text holds. -/
def Setting.deciding : Setting := ⟨fun expr vars => (.ok (.bool (expr == "yes")), vars), {}, none⟩

/-- The branch of a second condition, the first one that holds, is run. -/
theorem second_branch_runs : ∃ m₀ z y : Moment Unit,
    Moment.ofUnits [.named "main" [{ name := "if", target := "no" }, { name := "elseIf", target := "yes" },
      { name := "else" }, { name := "endIf" }]] = .ok m₀ ∧
    Executes .deciding silent [⟨0, 0⟩, ⟨0, 1⟩] m₀ z ∧ z.following = ⟨0, 2⟩ ∧
    Executes .deciding silent [⟨0, 2⟩, ⟨0, 3⟩] z y ∧ m₀.IsPast y ⟨0, 3⟩ := by
  obtain ⟨m₀, b, hm₀, hnext, hkey, hb, helseIfs, hcloser, hfirst, hsecond, hpresent, hpart⟩ :
      ∃ (m₀ : Moment Unit) (b : Block), Moment.ofUnits [.named "main" [{ name := "if", target := "no" },
        { name := "elseIf", target := "yes" }, { name := "else" }, { name := "endIf" }]] = .ok m₀ ∧
      m₀.next? = some ⟨0, 0⟩ ∧ m₀.session.suite.keywordAt? ⟨0, 0⟩ = some .ifThen ∧ m₀.session.suite.blockAt? ⟨0, 0⟩ = some b ∧
      b.elseIfs = [⟨0, 1⟩] ∧ b.closer = some ⟨0, 3⟩ ∧
      Setting.deciding.condition (m₀.session.suite.conditionAt ⟨0, 0⟩) m₀.session.vars = (.ok false, m₀.session.vars) ∧
      Setting.deciding.condition (m₀.session.suite.conditionAt ⟨0, 1⟩) m₀.session.vars = (.ok true, m₀.session.vars) ∧
      m₀.session.suite.present? ⟨0, 2⟩ = some ⟨0, 2⟩ ∧ m₀.session.suite.IsPart ⟨0, 0⟩ ⟨0, 2⟩ :=
    ⟨_, _, rfl, rfl, rfl, rfl, rfl, rfl, rfl, rfl, rfl, ⟨_, rfl, rfl, rfl⟩⟩
  obtain ⟨b', e, hb', he, hruns⟩ : ∃ b e, m₀.session.suite.blockAt? ⟨0, 0⟩ = some b ∧ b.closer = some e ∧
      m₀.RunsOneBranch .deciding silent ⟨0, 0⟩ b e := conditional_runs_one_branch (starts_ofUnits hm₀) .start hnext hkey
  cases hb.symm.trans hb'
  cases hcloser.symm.trans he
  obtain ⟨z, hexec, -, hbegins, hcloses⟩ := hruns.taken
    (show ⟨0, 0⟩ :: b.elseIfs = [⟨0, 0⟩] ++ ⟨0, 1⟩ :: [] by rw [helseIfs]; rfl) ⟨_, hfirst, rfl⟩ hsecond
  -- the branch is empty, and falls through to the `else`
  have hsuite : z.session.suite = m₀.session.suite := hexec.reachable.suite (starts_ofUnits hm₀)
  obtain ⟨c, top, ho⟩ := hbegins.running
  obtain ⟨y, hexec', -, hpast⟩ := hcloses z ⟨0, 2⟩ ⟨.start, c, top, ho,
    by rw [Moment.next?, hbegins.pending, hbegins.following, hsuite]; exact hpresent, by rw [hsuite]; exact hpart⟩
  exact ⟨m₀, z, y, hm₀, hexec, hbegins.following, hexec', hpast⟩

end

end BlockFlow.Flow
