/-
# Passes of a loop

The opener of a loop runs before every pass and once more after the last one.  What it does to the
variables and to the loop's source is a function of these (`LoopSource.opened`), and
`reachLoop_enters` and `reachLoop_again` say that it does nothing else; at the closer the loop is left,
or the run goes back to the opener.

A pass is the part of a run from the first command of the body up to the moment at which the run was
sent back to the opener: `Pass`.  Meanwhile the loop's frame stays as it is (`Pass.loop`), whatever is
run in the body.  `Rounds` are passes one after the other.
-/
import BlockFlow.Proofs.Handover
import BlockFlow.Proofs.Shifts

namespace BlockFlow

/-! ## 1. Expressions over the variables -/

namespace Flow

/-- Evaluates expressions in turn, up to one that fails. -/
def Setting.evaluateAll (g : Setting) : List String → Namespace → Except EvalError Unit × Namespace
  | [], v => (.ok (), v)
  | expr :: exprs, v =>
    match g.evaluate expr v with
    | (.ok _, w) => g.evaluateAll exprs w
    | (.error e, w) => (.error e, w)

/-- Evaluates a condition. -/
def Setting.condition (g : Setting) (cond : String) (v : Namespace) : Except EvalError Bool × Namespace :=
  ((g.evaluate cond v).1.map Value.isTruthy, (g.evaluate cond v).2)

namespace LoopSource

/-- The variables after the variable of a loop over values was bound to the value at an index. -/
def itemBound (var : String) (items : List Value) (index : Nat) (v : Namespace) : Namespace :=
  match items[index]? with
  | some item => v.insert var item
  | none => v

/-- What comes before the first pass does this to the variables. -/
def begun (g : Setting) : LoopSource → Namespace → Except Fault Unit × Namespace
  | .holding _, v | .records _, v => (.ok (), v)
  | .counted init _ _, v => ((g.evaluateAll init v).1.mapError EvalError.fault, (g.evaluateAll init v).2)
  | .values var items _, v => (.ok (), itemBound var items 0 v)

/-- What comes between two passes does this to the source and to the variables. -/
def advanced (g : Setting) : LoopSource → Namespace → Except Fault Unit × LoopSource × Namespace
  | .holding cond, v => (.ok (), .holding cond, v)
  | .records cursor, v => (.ok (), .records cursor, v)
  | .counted init cond iterate, v =>
    ((g.evaluateAll iterate v).1.mapError EvalError.fault, .counted init cond iterate,
      (g.evaluateAll iterate v).2)
  | .values var items index, v =>
    (.ok (), .values var items (index + 1), itemBound var items (index + 1) v)

/-- Whether there is another pass, for which the source and the variables are then made ready. -/
def tested (g : Setting) : LoopSource → Namespace → Except Fault Bool × LoopSource × Namespace
  | .holding cond, v => ((g.condition cond v).1.mapError EvalError.fault, .holding cond, (g.condition cond v).2)
  | .counted init cond iterate, v =>
    ((g.condition cond v).1.mapError EvalError.fault, .counted init cond iterate, (g.condition cond v).2)
  | .values var items index, v =>
    (.ok (index < items.length), .values var items index, v.insert Namespace.indexName (.number index.toFloat))
  | .records cursor, v =>
    if cursor.atEnd then (.ok false, .records cursor, v)
    else match cursor.next v with
      | .error e => (.error e.fault, .records cursor, v)
      | .ok (cursor, v) => (.ok true, .records cursor, v)

/-- **What the opener of a loop does** to the source and to the variables, when it is reached from outside
or sent back to: what comes before the pass, and then whether there is one. -/
def opened (g : Setting) (again : Bool) (source : LoopSource) (v : Namespace) :
    Except Fault Bool × LoopSource × Namespace :=
  let (r, source, v) := if again then source.advanced g v else ((source.begun g v).1, source, (source.begun g v).2)
  match r with
  | .ok () => source.tested g v
  | .error f => (.error f, source, v)

end LoopSource

/-! ## 2. Openers and closers of loops -/

open BlockFlow.Flow.Action

section

variable {g : Setting} {s : Session} {l : LoopFrame} {rest : List Frame} {a e : Address} {k : Keyword}

theorem ends_evaluateAll {exprs : List String} {Q : Except Fault Unit → Session → Prop} :
    (Action.evaluateAll g exprs).Ends s Q ↔
      Q ((g.evaluateAll exprs s.vars).1.mapError EvalError.fault)
        (s.withVars (g.evaluateAll exprs s.vars).2) := by
  induction exprs generalizing s with
  | nil => exact Iff.rfl
  | cons expr exprs ih =>
    unfold Action.evaluateAll Setting.evaluateAll
    rw [ends_bind, ends_discard, ends_evaluate]
    rcases g.evaluate expr s.vars with ⟨f | v, w⟩
    · exact Iff.rfl
    · exact ih (s := s.withVars w)

theorem ends_condition {cond : String} {Q : Except Fault Bool → Session → Prop} :
    (Action.condition g cond).Ends s Q ↔
      Q ((g.condition cond s.vars).1.mapError EvalError.fault) (s.withVars (g.condition cond s.vars).2) := by
  unfold Action.condition Setting.condition
  rw [ends_bind, ends_evaluate]
  rcases g.evaluate cond s.vars with ⟨f | v, w⟩ <;> exact Iff.rfl

theorem ends_bindItem {var : String} {items : List Value} {index : Nat} {Q : Except Fault Unit → Session → Prop} :
    (bindItem var items index).Ends s Q ↔
      Q (.ok ()) (s.withVars (LoopSource.itemBound var items index s.vars)) := by
  unfold bindItem LoopSource.itemBound
  cases items[index]? <;> exact Iff.rfl

theorem ends_begin {source : LoopSource} {Q : Except Fault Unit → Session → Prop} :
    (source.begin g).Ends s Q ↔ Q (source.begun g s.vars).1 (s.withVars (source.begun g s.vars).2) := by
  cases source with
  | holding | records => exact Iff.rfl
  | counted init cond iterate => exact ends_evaluateAll
  | values var items index => exact ends_bindItem

theorem ends_setSource (hs : s.blocks = .loop l :: rest) (source : LoopSource)
    {Q : Except Fault Unit → Session → Prop} :
    (setSource source).Ends s Q ↔ Q (.ok ()) (s.setBlocks (.loop { l with source } :: rest)) := by
  rw [setSource, ends_change, Session.updateLoop, Session.updateTop, hs]

theorem ends_advance (hs : s.blocks = .loop l :: rest) {Q : Except Fault Unit → Session → Prop} :
    (l.source.advance g).Ends s Q ↔ Q (l.source.advanced g s.vars).1
      ((s.setBlocks (.loop { l with source := (l.source.advanced g s.vars).2.1 } :: rest)).withVars
        (l.source.advanced g s.vars).2.2) := by
  have hsame : s.setBlocks (.loop l :: rest) = s := by rw [← hs, Session.setBlocks_blocks]
  obtain ⟨o, source, saved, complete, reentering⟩ := l
  cases source with
  | holding | records =>
    dsimp only [LoopSource.advanced]
    rw [hsame]
    exact Iff.rfl
  | counted init cond iterate =>
    dsimp only [LoopSource.advanced]
    rw [hsame]
    exact ends_evaluateAll
  | values var items index =>
    unfold LoopSource.advance
    rw [ends_bind, ends_setSource hs]
    dsimp only
    rw [ends_bindItem, Session.vars_setBlocks]
    exact Iff.rfl

theorem ends_hasPass (hs : s.blocks = .loop l :: rest) {Q : Except Fault Bool → Session → Prop} :
    (l.source.hasPass g).Ends s Q ↔ Q (l.source.tested g s.vars).1
      ((s.setBlocks (.loop { l with source := (l.source.tested g s.vars).2.1 } :: rest)).withVars
        (l.source.tested g s.vars).2.2) := by
  have hsame : s.setBlocks (.loop l :: rest) = s := by rw [← hs, Session.setBlocks_blocks]
  obtain ⟨o, source, saved, complete, reentering⟩ := l
  cases source with
  | holding | counted =>
    dsimp only [LoopSource.tested]
    rw [hsame]
    exact ends_condition
  | values var items index =>
    dsimp only [LoopSource.tested]
    rw [hsame]
    exact Iff.rfl
  | records cursor =>
    simp only [LoopSource.hasPass, LoopSource.tested]
    by_cases hend : cursor.atEnd
    · rw [if_pos hend, if_pos hend]
      dsimp only
      rw [hsame]
      exact Iff.rfl
    · rw [if_neg hend, if_neg hend, ends_bind, ends_ask]
      dsimp only
      cases hnext : cursor.next s.vars with
      | error e =>
        dsimp only
        rw [hsame]
        exact Iff.rfl
      | ok p =>
        obtain ⟨cursor', v⟩ := p
        dsimp only
        rw [ends_bind, ends_change]
        dsimp only
        rw [ends_bind]
        refine (ends_setSource (s := s.withVars v) hs _).trans ?_
        rw [Session.setBlocks_withVars]
        exact Iff.rfl

/-- The session whose innermost construct, a loop, had its opener run: another pass has begun, or the run
goes on at the closer. -/
def Session.opens (s : Session) (l : LoopFrame) (rest : List Frame) (e : Address) :
    Except Fault Bool × LoopSource × Namespace → Session
  | (.ok more, source, v) =>
    (s.setBlocks (.loop { l with source, complete := !more } :: rest)).proceed (if more then none else some e) v
  | (.error _, source, v) => (s.setBlocks (.loop { l with source } :: rest)).withVars v

theorem ends_beginPass (hs : s.blocks = .loop l :: rest) (hp : s.pending = none)
    (he : s.suite.Construct a e) {Q : Except Fault Unit → Session → Prop} :
    (beginPass g a k).Ends s Q ↔ Q ((l.source.tested g s.vars).1.map fun _ => ())
      (s.opens l rest e (l.source.tested g s.vars)) := by
  obtain ⟨b, hb, -, hclose⟩ := he
  unfold beginPass topLoop
  simp only [ends_bind, ends_ask, hs, ends_pure]
  rw [ends_hasPass hs]
  rcases l.source.tested g s.vars with ⟨f | more, source, v⟩
  · exact Iff.rfl
  · have hupdate : ((s.setBlocks (.loop { l with source } :: rest)).withVars v).updateLoop
        (fun l => { l with complete := !more }) =
        (s.setBlocks (.loop { l with source, complete := !more } :: rest)).withVars v := by
      rw [Session.updateLoop, Session.updateTop, Session.blocks_withVars, Session.blocks_setBlocks]
      dsimp only
      rw [Session.setBlocks_withVars, Session.setBlocks_setBlocks]
    dsimp only
    rw [ends_change, hupdate]
    dsimp only
    cases more with
    | true =>
      rw [Session.withVars_eq_proceed ((s.kept_setBlocks _).pending.trans hp)]
      exact Iff.rfl
    | false =>
      unfold Action.block
      simp only [Bool.not_false, if_true, ends_bind, ends_ask, Session.suite_withVars, Session.suite_setBlocks, hb,
        ends_pure, hclose]
      exact Iff.rfl

theorem Session.opens_setBlocks (bs : List Frame) (v : Namespace) (r : Except Fault Bool × LoopSource × Namespace) :
    ((s.setBlocks bs).withVars v).opens l rest e r = s.opens l rest e r := by
  rcases r with ⟨f | more, source, w⟩ <;> unfold Session.opens <;> dsimp only <;>
    rw [Session.setBlocks_withVars, Session.setBlocks_setBlocks] <;> rfl

/-- The frame of a loop that was just entered: its names keep their bindings. -/
def LoopHeader.frame (h : LoopHeader) (a : Address) (v : Namespace) : LoopFrame where
  opener := a
  source := h.source
  saved := bindings h.names v

/-- The variables in a loop that was just entered: those of its names that were unbound are bound to
nothing. -/
def LoopHeader.bound (h : LoopHeader) (v : Namespace) : Namespace :=
  v.insertAll ((h.names.filter fun name => !v.contains name).map (·, Value.null))

/-- **The opener of a loop that is reached from outside** enters the loop. -/
theorem reachLoop_enters {header : Action LoopHeader} {h : LoopHeader} {v : Namespace}
    (hp : s.pending = none) (hfresh : isReentering a s = false) (he : s.suite.Construct a e)
    (hheader : header.Ends s fun r t => r = .ok h ∧ t = s.withVars v) {Q : Except Fault Unit → Session → Prop} :
    (reachLoop g a k header).Ends s Q ↔ Q ((h.source.opened g false (h.bound v)).1.map fun _ => ())
      (s.opens (h.frame a v) s.blocks e (h.source.opened g false (h.bound v))) := by
  unfold reachLoop
  simp only [ends_bind, ends_ask, hfresh, Bool.false_eq_true, if_false]
  have hrun : header s = (.ok h, s.withVars v) := Prod.ext hheader.1 hheader.2
  have hunfold (R : Except Fault LoopHeader → Session → Prop) :
      header.Ends s R ↔ R (.ok h) (s.withVars v) := by rw [Action.Ends, hrun]
  rw [hunfold]
  dsimp only
  unfold pushLoop
  rw [ends_change]
  dsimp only
  have hpush : { (s.withVars v).push (.loop (h.frame a v)) with vars := h.bound v } =
      (s.push (.loop (h.frame a v))).withVars (h.bound v) := by
    rw [Session.push_withVars]
    rfl
  change Ends _ { (s.withVars v).push (.loop (h.frame a v)) with vars := h.bound v } _ ↔ _
  rw [hpush, ends_begin]
  unfold LoopSource.opened
  rw [if_neg (by decide)]
  rw [Session.vars_withVars]
  rcases h.source.begun g (h.bound v) with ⟨f | ⟨⟩, w⟩
  · exact Iff.rfl
  · have hb : ((s.setBlocks (.loop (h.frame a v) :: s.blocks)).withVars w).blocks =
        .loop (h.frame a v) :: s.blocks := s.blocks_setBlocks _
    have he' : ((s.setBlocks (.loop (h.frame a v) :: s.blocks)).withVars w).suite.Construct a e := by
      rw [Session.suite_withVars, Session.suite_setBlocks]
      exact he
    dsimp only
    rw [Session.withVars_withVars, Session.push,
      ends_beginPass hb ((s.kept_setBlocks _).pending.trans hp) he', Session.opens_setBlocks]
    exact Iff.rfl

/-- **The opener of a loop that the run was sent back to** begins another pass, or ends the loop. -/
theorem reachLoop_again {header : Action LoopHeader} (hs : s.blocks = .loop l :: rest) (hp : s.pending = none)
    (hat : l.opener = a) (hback : l.reentering = true) (he : s.suite.Construct a e)
    {Q : Except Fault Unit → Session → Prop} :
    (reachLoop g a k header).Ends s Q ↔ Q ((l.source.opened g true s.vars).1.map fun _ => ())
      (s.opens { l with reentering := false } rest e (l.source.opened g true s.vars)) := by
  have hre : isReentering a s = true := isReentering_iff.2 ⟨l, rest, hs, hat, hback⟩
  have hupdate : s.updateLoop (fun l => { l with reentering := false }) =
      s.setBlocks (.loop { l with reentering := false } :: rest) := by
    rw [Session.updateLoop, Session.updateTop, hs]
  unfold reachLoop topLoop
  simp only [ends_bind, ends_ask, hre, if_true, ends_change, hupdate, Session.blocks_setBlocks, ends_pure]
  rw [ends_advance (l := { l with reentering := false }) (Session.blocks_setBlocks s _),
    Session.setBlocks_setBlocks, Session.vars_setBlocks]
  unfold LoopSource.opened
  rw [if_pos rfl]
  dsimp only
  rcases l.source.advanced g s.vars with ⟨f | ⟨⟩, source, w⟩
  · exact Iff.rfl
  · let l' : LoopFrame := { l with reentering := false, source }
    have hb : ((s.setBlocks (.loop l' :: rest)).withVars w).blocks = .loop l' :: rest := s.blocks_setBlocks _
    have he' : ((s.setBlocks (.loop l' :: rest)).withVars w).suite.Construct a e := by
      rw [Session.suite_withVars, Session.suite_setBlocks]
      exact he
    dsimp only
    rw [ends_beginPass hb ((s.kept_setBlocks _).pending.trans hp) he', Session.opens_setBlocks]
    exact Iff.rfl

/-- **The closer of a loop** sends the run back to the opener, or leaves the loop if no pass is left. -/
theorem closeLoop_ends {Q : Except Fault Unit → Session → Prop} (hs : s.blocks = .loop l :: rest)
    (he : s.suite.Construct l.opener e) (hnested : s.suite.Nested)
    (hQ : Q (.ok ()) (if l.complete then s.drop 1 else
      (s.setBlocks (.loop { l with reentering := true } :: rest)).branch l.opener)) : (closeLoop e).Ends s Q := by
  refine Ends.own_part (f := .loop l) hs (hnested.isPart_closer he) fun c ho => ?_
  unfold topLoop
  simp only [ends_bind, ends_ask, hs, ends_pure]
  by_cases hcomplete : l.complete
  · rw [if_pos hcomplete] at hQ ⊢
    exact hQ
  · rw [if_neg hcomplete] at hQ ⊢
    rw [ends_bind]
    refine Ends.setLoop hs ?_
    dsimp only
    rw [ho]
    exact hQ

/-- The closer of a loop closes it. -/
theorem Session.Ready.loop_closer (h : s.Ready) (hs : s.blocks = .loop l :: rest)
    (he : s.suite.Construct l.opener e) : ∃ cmd k, s.suite.commandAt? e = some cmd ∧
      Keyword.ofName? cmd.name = some (k, false) ∧ ∀ target value, perform g e k target value = closeLoop e := by
  obtain ⟨b, k, hb, hk, hclose⟩ := h.nested.keyword_of_construct he
  have hn := (h.mem_fits hs).nature_eq hb
  rw [Block.nature?] at hn
  obtain ⟨cmd, hcmd, hof⟩ := commandAt?_of_keywordAt? hk
  refine ⟨cmd, k, hcmd, hof, fun target value => ?_⟩
  have hopens : b.keyword.opens? = some .loop := hn
  cases k <;> first
    | rfl
    | cases hclose
    | (rw [← Option.some.inj hclose] at hopens; cases hopens)

end

/-! ## 3. Commands at moments -/

section

variable {σ : Type} {g : Setting} {host : Host σ} {m₀ m m' : Moment σ} {a e : Address} {c : Command}
  {k : Keyword}

variable (host) in
/-- What a flow command that does not fail leads to. -/
theorem Moment.exists_done (ha : m.next? = some a) (hc : m.session.suite.commandAt? a = some c)
    (hof : Keyword.ofName? c.name = some (k, false)) {P : Session → Prop}
    (h : (perform g a k (Text.trim c.target) (Text.trim c.value)).Ends (m.session.poise (some a))
      fun r s' => r = .ok () ∧ P s') :
    ∃ m', m.advance g host = some (.done, m') ∧ P m'.session ∧ m'.following = a.next := by
  rw [← m.session_poised ha] at h
  have hflow := step_flow (w := m.poised) g host ha hc hof
  unfold Ends at h hflow
  refine ⟨⟨(m.poised.step g host a).2, a.next⟩, ?_, ?_, rfl⟩
  · rw [Moment.advance, ha, Option.map_some, hflow.1 h.1]
  · rw [Moment.session, hflow.1 h.1]
    exact h.2

/-- A fault that cannot be caught is not handled. -/
theorem handleFault_refused {f : Fault} {s : Session} (hf : f.isCatchable = false) :
    ∃ f', handleFault g f s = (.unhandled f', s) ∧ f'.code = f.code := by
  unfold handleFault
  cases s.current with
  | none => exact ⟨f, by rw [if_pos (by simp [hf])], rfl⟩
  | some a =>
    have hattach : (f.attach (s.suite.commandRef a)).isCatchable = false := by
      rw [Fault.isCatchable, Fault.kind_attach]
      exact hf
    exact ⟨_, by rw [if_pos (by simp [hattach])], Fault.code_attach _ _⟩

variable (host) in
/-- A flow command that fails is not done, and ends the run if its fault cannot be caught. -/
theorem Moment.not_done (ha : m.next? = some a) (hc : m.session.suite.commandAt? a = some c)
    (hof : Keyword.ofName? c.name = some (k, false)) {f : Fault}
    (h : (perform g a k (Text.trim c.target) (Text.trim c.value)).Ends (m.session.poise (some a))
      fun r _ => r = .error f) :
    (∀ m', m.advance g host ≠ some (.done, m')) ∧
      (f.isCatchable = false → ∃ f' m', m.advance g host = some (.unhandled f', m') ∧ f'.code = f.code) := by
  rw [← m.session_poised ha] at h
  have hadv : m.advance g host = some ((m.poised.step g host a).1, ⟨(m.poised.step g host a).2, a.next⟩) := by
    rw [Moment.advance, ha, Option.map_some]
  have hflow := step_flow (w := m.poised) g host ha hc hof
  have hrun := runCommand_flow (w := m.poised) g host ha hc hof
  unfold Ends at h hflow hrun
  refine ⟨fun m' hm' => ?_, fun hf => ?_⟩
  · refine hflow.2 (by rw [h]; rintro ⟨⟩) ?_
    rw [hadv] at hm'
    exact (Prod.mk.inj (Option.some.inj hm')).1
  · rw [h] at hrun
    rw [hadv]
    unfold World.step
    rw [hrun]
    generalize (perform g a k (Text.trim c.target) (Text.trim c.value) m.poised.session).2 = t
    obtain ⟨f', hrefused, hcode⟩ := handleFault_refused (g := g) (s := t)
      (f := f.attach (t.suite.commandRef a)) (by rw [Fault.isCatchable, Fault.kind_attach]; exact hf)
    dsimp only [Except.mapError, World.handleFault]
    rw [hrefused]
    exact ⟨f', _, rfl, hcode.trans (Fault.code_attach _ _)⟩

/-- **The opener of a loop runs next**, and this is what it does to the variables and to the source of the
loop, whose frame is that which it has then. -/
structure Moment.Reopens (g : Setting) (host : Host σ) (m : Moment σ) (a e : Address) (rest : List Frame)
    (post : List (List Frame)) (l : LoopFrame) (r : Except Fault Bool × LoopSource × Namespace) : Prop where
  next : m.next? = some a
  opener : l.opener = a
  back : l.reentering = false
  done : ∀ more source v, r = (.ok more, source, v) → ∃ m', m.advance g host = some (.done, m') ∧
    m'.session.blockStacks = (.loop { l with source, complete := !more } :: rest) :: post ∧
    m'.session.vars = v ∧ m'.session.pending = (if more then none else some e) ∧
    m'.session.exitRequested = m.session.exitRequested ∧ m'.following = a.next
  failed : ∀ f, r.1 = .error f → (∀ m', m.advance g host ≠ some (.done, m')) ∧
    (f.isCatchable = false → ∃ f' m', m.advance g host = some (.unhandled f', m') ∧ f'.code = f.code)

/-- What an opener does is what its step does. -/
theorem Moment.Reopens.of_ends {rest : List Frame} {l : LoopFrame}
    {r : Except Fault Bool × LoopSource × Namespace} (ha : m.next? = some a)
    (hc : m.session.suite.commandAt? a = some c) (hof : Keyword.ofName? c.name = some (k, false))
    (ho : l.opener = a) (hl : l.reentering = false)
    (h : (perform g a k (Text.trim c.target) (Text.trim c.value)).Ends (m.session.poise (some a))
      fun x t => x = r.1.map (fun _ => ()) ∧ t = (m.session.poise (some a)).opens l rest e r) :
    m.Reopens g host a e rest (m.session.outer.map Level.blocks) l r where
  next := ha
  opener := ho
  back := hl
  done more source v hr := by
    subst hr
    obtain ⟨m', hadv, hs, hfollow⟩ : ∃ m', m.advance g host = some (.done, m') ∧
        m'.session = (m.session.poise (some a)).opens l rest e (.ok more, source, v) ∧
        m'.following = a.next := Moment.exists_done host ha hc hof h
    have hb : m'.session.blocks = .loop { l with source, complete := !more } :: rest := by
      rw [hs]
      exact Session.blocks_setBlocks _ _
    have hout : m'.session.outer = m.session.outer := by
      rw [hs]
      exact Session.outer_setBlocks _ _
    refine ⟨m', hadv, Session.blockStacks_of_outer hb hout, by rw [hs]; rfl, by rw [hs]; rfl, ?_, hfollow⟩
    rw [hs]
    exact (Session.kept_setBlocks _ _).exitRequested
  failed f hr := Moment.not_done host ha hc hof (h.mono fun x t hx => by rw [hx.1, hr]; rfl)

/-- The opener of a loop reaches it with a header of its own. -/
theorem exists_header (hk : k.opens? = some .loop) (target value : String) :
    ∃ header, perform g a k target value = reachLoop g a k header := by
  cases k with
  | whileLoop | forLoop | foreach | forJson | forXml => exact ⟨_, rfl⟩
  | _ => cases hk

variable (host) in
/-- **A loop is entered** by its opener when this is reached from outside. -/
theorem Reachable.enters (ha : m.next? = some a)
    (hc : m.session.suite.commandAt? a = some c) (hof : Keyword.ofName? c.name = some (k, false))
    (hfresh : isReentering a m.session = false) (he : m.session.suite.Construct a e) {header : Action LoopHeader}
    (hperform : perform g a k (Text.trim c.target) (Text.trim c.value) = reachLoop g a k header)
    {h : LoopHeader} {v : Namespace} (hheader : header.Ends (m.session.poise (some a)) fun r t =>
      r = .ok h ∧ t = (m.session.poise (some a)).withVars v) :
    m.Reopens g host a e m.session.blocks (m.session.outer.map Level.blocks) (h.frame a v)
      (h.source.opened g false (h.bound v)) := by
  refine .of_ends ha hc hof rfl rfl ?_
  rw [hperform]
  exact (reachLoop_enters (s := m.session.poise (some a)) rfl hfresh he hheader).2 ⟨rfl, rfl⟩

/-- **A loop that the run was sent back to** begins another pass, or ends. -/
theorem Reachable.reopens (hreach : Reachable g host m₀ m) (hm₀ : m₀.Starts) {l : LoopFrame} {rest : List Frame}
    {post : List (List Frame)} (top : m.session.blockStacks = (.loop l :: rest) :: post)
    (back : l.reentering = true) (hp : m.session.pending = some l.opener)
    (he : m.session.suite.Construct l.opener e) :
    m.Reopens g host l.opener e rest post { l with reentering := false }
      (l.source.opened g true m.session.vars) := by
  have ha : m.next? = some l.opener := by rw [Moment.next?, hp]; rfl
  have hb : m.session.blocks = .loop l :: rest := by
    rw [m.session.blockStacks_eq] at top
    exact (List.cons.inj top).1
  have hpost : m.session.outer.map Level.blocks = post := by
    rw [m.session.blockStacks_eq] at top
    exact (List.cons.inj top).2
  have hready := (hreach.sound_poise hm₀ ha).ready rfl ((hreach.sound_poise hm₀ ha).running_of_blocks hb)
  obtain ⟨b, hbl, hn⟩ := (hready.mem_fits hb).1
  obtain ⟨c, hc, hof⟩ := commandAt?_of_keywordAt? (hready.nested.keyword hbl)
  have hloop : b.keyword.opens? = some .loop := hn
  obtain ⟨header, hperform⟩ := exists_header (g := g) (a := l.opener) hloop (Text.trim c.target) (Text.trim c.value)
  rw [← hpost]
  refine .of_ends ha hc hof rfl rfl ?_
  rw [hperform]
  exact (reachLoop_again (s := m.session.poise (some l.opener)) hb rfl rfl back he).2 ⟨rfl, rfl⟩

/-- **A loop without a pass left** is left at its closer: its names get their bindings back, and the run
goes on behind it. -/
theorem Reachable.leaves_loop (hreach : Reachable g host m₀ m) (hm₀ : m₀.Starts) {l : LoopFrame}
    {rest : List Frame} {post : List (List Frame)} (top : m.session.blockStacks = (.loop l :: rest) :: post)
    (complete : l.complete = true) (ha : m.next? = some e) (he : m.session.suite.Construct l.opener e) :
    ∃ m', m.advance g host = some (.done, m') ∧ m'.session.blockStacks = rest :: post ∧
      m'.session.vars = m.session.vars.restore l.saved ∧ m'.session.pending = none ∧ m'.following = e.next ∧
      m'.session.exitRequested = m.session.exitRequested := by
  have hb : m.session.blocks = .loop l :: rest := by
    rw [m.session.blockStacks_eq] at top
    exact (List.cons.inj top).1
  have hpost : m.session.outer.map Level.blocks = post := by
    rw [m.session.blockStacks_eq] at top
    exact (List.cons.inj top).2
  have hready := (hreach.sound_poise hm₀ ha).ready rfl ((hreach.sound_poise hm₀ ha).running_of_blocks hb)
  obtain ⟨cmd, k, hc, hof, hperform⟩ := hready.loop_closer (g := g) hb he
  obtain ⟨m', hadv, hs, hfollow⟩ : ∃ m', m.advance g host = some (.done, m') ∧
      m'.session = (m.session.poise (some e)).drop 1 ∧ m'.following = e.next := by
    refine Moment.exists_done host (P := (· = (m.session.poise (some e)).drop 1)) ha hc hof ?_
    rw [hperform]
    refine closeLoop_ends hb he hready.nested ?_
    rw [if_pos complete]
    exact ⟨rfl, rfl⟩
  have hkept := (m.session.poise (some e)).kept_drop 1
  refine ⟨m', hadv, ?_, ?_, by rw [hs]; exact hkept.pending, hfollow, by rw [hs]; exact hkept.exitRequested⟩
  · rw [← hpost]
    refine Session.blockStacks_of_outer ?_ (by rw [hs]; exact Session.outer_drop _ 1)
    rw [hs, Session.blocks_drop]
    exact congrArg (List.drop 1) hb
  · have hdrop : (m.session.poise (some e)).drop 1 =
        ((m.session.poise (some e)).setBlocks rest).discard (.loop l) := by
      unfold Session.drop
      rw [show (m.session.poise (some e)).blocks = .loop l :: rest from hb]
      rfl
    rw [hs, hdrop, Session.discard]
    dsimp only
    rw [Session.vars_setBlocks]
    rfl

end

/-! ## 4. Passes -/

/-- The loop opened at an address is in a pass: it is not complete, and not about to begin another one. -/
def Session.InPass (s : Session) (a : Address) (rest : List Frame) (post : List (List Frame)) : Prop :=
  ∃ l, s.Bears (.loop l) rest post ∧ l.opener = a ∧ l.complete = false ∧ l.reentering = false

section

variable {σ : Type}

/-- A pass of the loop opened at an address begins: the loop is innermost, and the run goes on at the first
command of its body. -/
structure Moment.BeginsPass (m : Moment σ) (a : Address) (rest : List Frame) (post : List (List Frame)) : Prop where
  top : ∃ l, m.session.blockStacks = (.loop l :: rest) :: post ∧ l.opener = a ∧ l.complete = false ∧
    l.reentering = false
  pending : m.session.pending = none
  following : m.following = a.next

/-- The loop opened at an address is innermost, and has been sent back to its opener. -/
def Moment.SentBack (m : Moment σ) (a : Address) (rest : List Frame) (post : List (List Frame)) : Prop :=
  ∃ l, m.session.blockStacks = (.loop l :: rest) :: post ∧ l.opener = a ∧ l.complete = false ∧
    l.reentering = true ∧ m.session.pending = some a

/-- **A pass**: the loop is running, whatever else is run in its body, until the closer or a `continue` sends
the run back to the opener. -/
structure Pass (g : Setting) (host : Host σ) (a : Address) (rest : List Frame) (post : List (List Frame))
    (m m' : Moment σ) : Prop where
  meanwhile : Meanwhile g host (fun m => m.session.InPass a rest post) m m'
  back : m'.SentBack a rest post

/-- Passes one after the other, each with the moments at which it begins and ends. -/
inductive Rounds (g : Setting) (host : Host σ) (a : Address) (rest : List Frame) (post : List (List Frame)) :
    List (Moment σ × Moment σ) → Moment σ → Moment σ → Prop
  | none {m : Moment σ} : Rounds g host a rest post [] m m
  | pass {m b e m' : Moment σ} {passes : List (Moment σ × Moment σ)}
      (opens : m.advance g host = some (.done, b)) (begins : b.BeginsPass a rest post)
      (runs : Pass g host a rest post b e) (further : Rounds g host a rest post passes e m') :
      Rounds g host a rest post ((b, e) :: passes) m m'

variable {g : Setting} {host : Host σ} {m₀ m m' b : Moment σ} {a e : Address} {l : LoopFrame} {rest : List Frame}
  {post : List (List Frame)} {P : Moment σ → Prop}

/-- The frame of a loop stays as it is in a pass. -/
theorem Meanwhile.bears (h : Meanwhile g host (fun m => m.session.InPass a rest post) b m) (hm₀ : m₀.Starts)
    (hreach : Reachable g host m₀ b) (hb : b.session.Bears (.loop l) rest post) (hin : m.session.InPass a rest post) :
    m.session.Bears (.loop l) rest post := by
  induction h with
  | start => exact hb
  | @step m m' x before holds advance handled goesOn ih =>
    obtain ⟨l', hl', -, hcomplete, hback⟩ := hin
    obtain ⟨q, -, -, -, hstep⟩ := Moment.step_of_advance ((hreach.trans before.reachable).sound hm₀) advance
    have hl := ih holds
    obtain ⟨l'', hl'', -, -, hback''⟩ := holds
    cases hl.unique hl''
    rcases (show Session.Bears (m.session.poise (some q)) (.loop l) rest post from hl).step hstep handled hl' with
      heq | ⟨hbecomes, -, -⟩
    · exact heq ▸ hl'
    · cases hbecomes with
      | sendBack => cases hback
      | again at_ reentering => cases hback''.symm.trans reentering
      | complete => cases hcomplete

/-- **A pass keeps its loop**: all that has changed at its end is that the opener is to begin another one. -/
theorem Pass.ends (h : Pass g host a rest post b m) (hm₀ : m₀.Starts) (hreach : Reachable g host m₀ b)
    (top : b.session.blockStacks = (.loop l :: rest) :: post) (hl : l.reentering = false) :
    m.session.blockStacks = (.loop { l with reentering := true } :: rest) :: post ∧
      m.session.pending = some l.opener := by
  obtain ⟨hmeanwhile, l', htop, ho, hcomplete, hback, hp⟩ := h
  cases hmeanwhile with
  | start =>
    cases top.symm.trans htop
    cases hl.symm.trans hback
  | @step m₁ _ x before holds advance handled goesOn =>
    have hbears := before.bears hm₀ hreach (.of_top top) holds
    obtain ⟨q, -, -, -, hstep⟩ := Moment.step_of_advance ((hreach.trans before.reachable).sound hm₀) advance
    rcases (show Session.Bears (m₁.session.poise (some q)) (.loop l) rest post from hbears).step hstep handled
      (.of_top htop) with heq | ⟨hbecomes, -, -⟩
    · cases heq
      cases hl.symm.trans hback
    · cases hbecomes with
      | sendBack command goesOn => exact ⟨htop, goesOn⟩
      | again at_ reentering => cases hl.symm.trans reentering
      | complete => cases hl.symm.trans hback

/-- A pass has one end. -/
theorem Pass.unique {m' : Moment σ} (h : Pass g host a rest post b m) (h' : Pass g host a rest post b m') :
    m = m' := by
  have hnot {m : Moment σ} (hback : m.SentBack a rest post) : ¬m.session.InPass a rest post := by
    obtain ⟨l, top, -, -, hl, -⟩ := hback
    rintro ⟨l', hbears, -, -, hl'⟩
    cases Bears.unique (.of_top top) hbears
    cases hl.symm.trans hl'
  exact h.meanwhile.unique h'.meanwhile (hnot h.back) (hnot h'.back)

variable {r : Except Fault Bool × LoopSource × Namespace} {source : LoopSource} {v : Namespace}

/-- An opener that finds a pass begins it. -/
theorem Moment.Reopens.begins (h : m.Reopens g host a e rest post l (.ok true, source, v)) (hm₀ : m₀.Starts)
    (hreach : Reachable g host m₀ m) : ∃ b, m.advance g host = some (.done, b) ∧ Reachable g host m₀ b ∧
      b.session.blockStacks = (.loop { l with source, complete := false } :: rest) :: post ∧
      b.BeginsPass a rest post ∧ b.session.vars = v := by
  obtain ⟨b, hadv, top, hvars, hpending, hexit, hfollowing⟩ := h.done _ _ _ rfl
  exact ⟨b, hadv, hreach.step hadv nofun (hexit.trans (hreach.exitRequested hm₀)), top,
    ⟨⟨_, top, h.opener, rfl, h.back⟩, hpending, hfollowing⟩, hvars⟩

/-- At the end of a pass the opener runs next, with the source that the pass was begun with. -/
theorem Pass.reopens (hpass : Pass g host a rest post b m) (hm₀ : m₀.Starts) (hreach : Reachable g host m₀ b)
    (top : b.session.blockStacks = (.loop l :: rest) :: post) (ho : l.opener = a) (hl : l.reentering = false)
    (he : b.session.suite.Construct a e) : Reachable g host m₀ m ∧ m.session.suite.Construct a e ∧
      m.Reopens g host a e rest post l (l.source.opened g true m.session.vars) := by
  obtain ⟨htop, hback⟩ := hpass.ends hm₀ hreach top hl
  have hreach' := hreach.trans hpass.meanwhile.reachable
  have he' : m.session.suite.Construct a e := by
    rw [hreach'.suite hm₀, ← hreach.suite hm₀]
    exact he
  subst ho
  have hreopens := hreach'.reopens hm₀ htop rfl hback he'
  have hsame : ({ l with reentering := false } : LoopFrame) = l := by rw [← hl]
  dsimp only at hreopens
  rw [hsame] at hreopens
  exact ⟨hreach', he', hreopens⟩

/-- What the opener of a loop does after passes, each with the variables at its start and at its end. -/
inductive LoopSource.Unrolls (g : Setting) : Except Fault Bool × LoopSource × Namespace →
    List (Namespace × Namespace) → Except Fault Bool × LoopSource × Namespace → Prop
  | none {r : Except Fault Bool × LoopSource × Namespace} : Unrolls g r [] r
  | pass {source : LoopSource} {b z : Namespace} {passes : List (Namespace × Namespace)}
      {r : Except Fault Bool × LoopSource × Namespace} (further : Unrolls g (source.opened g true z) passes r) :
      Unrolls g (.ok true, source, b) ((b, z) :: passes) r

/-- The variables at the start and at the end of a pass. -/
def ends (p : Moment σ × Moment σ) : Namespace × Namespace := (p.1.session.vars, p.2.session.vars)

/-- **What an opener does after passes** is a function of the variables at their ends. -/
theorem Rounds.reopens {passes : List (Moment σ × Moment σ)} (h : Rounds g host a rest post passes m m')
    (hm₀ : m₀.Starts) (hreach : Reachable g host m₀ m) (he : m.session.suite.Construct a e)
    (hopen : m.Reopens g host a e rest post l r) : ∃ l' r', Reachable g host m₀ m' ∧
      m'.session.suite.Construct a e ∧ m'.Reopens g host a e rest post l' r' ∧ l'.saved = l.saved ∧
      LoopSource.Unrolls g r (passes.map ends) r' := by
  induction h generalizing l r with
  | none => exact ⟨l, r, hreach, he, hopen, rfl, .none⟩
  | @pass m b z m' passes opens begins runs further ih =>
    rcases r with ⟨f | more, source, v⟩
    · exact absurd opens ((hopen.failed f rfl).1 b)
    · obtain ⟨b', hadv, top, hvars, hpending, -, -⟩ := hopen.done _ _ _ rfl
      cases opens.symm.trans hadv
      cases more with
      | false => cases begins.pending.symm.trans hpending
      | true =>
        obtain ⟨b', hadv, hreachb, top, -, hvars⟩ := hopen.begins hm₀ hreach
        cases opens.symm.trans hadv
        have heb : b.session.suite.Construct a e := by
          rw [hreachb.suite hm₀, ← hreach.suite hm₀]
          exact he
        obtain ⟨hreachz, hez, hopenz⟩ := runs.reopens hm₀ hreachb top hopen.opener hopen.back heb
        obtain ⟨l', r', hreach', he', hopen', hsaved, hunrolls⟩ := ih hreachz hez hopenz
        exact ⟨l', r', hreach', he', hopen', hsaved, hvars ▸ .pass hunrolls⟩

end

end Flow

end BlockFlow
