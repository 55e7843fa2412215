/-
# Counted loops

A counted loop is a loop under a condition whose body ends with its last statements: `Desugars` is what
that loop does to the variables, and `for_loop_is_while` says that the run of a counted loop does the same.

The opener cannot tell an entry from another pass but by a mark on the loop.  `Reachable.prompt` says that
a marked loop is innermost and that its opener runs next, so that only the loop's own closer, or a transfer
to the loop, leads to another pass.
-/
import BlockFlow.Proofs.Passes

namespace BlockFlow.Flow

open BlockFlow.Flow.Action

/-! ## 1. Loops that were sent back -/

/-- A loop that was sent back to its opener is innermost, and its opener runs next. -/
def Session.Prompt (s : Session) : Prop :=
  ∀ l rest post, s.Bears (.loop l) rest post → l.reentering = true →
    s.blockStacks = (.loop l :: rest) :: post ∧ s.pending = some l.opener

section

variable {σ : Type} {g : Setting} {host : Host σ} {m₀ m m' : Moment σ} {a : Address} {l l' : LoopFrame}
  {rest : List Frame} {post : List (List Frame)} {x : StepResult}

/-- **The opener of a loop that was sent back takes the mark** from the loop. -/
theorem Reachable.takes_mark (hreach : Reachable g host m₀ m) (hm₀ : m₀.Starts)
    (top : m.session.blockStacks = (.loop l :: rest) :: post) (back : l.reentering = true)
    (hp : m.session.pending = some l.opener) (hadv : m.advance g host = some (x, m'))
    (hx : ∀ f, x ≠ .unhandled f) (h' : m'.session.Bears (.loop l') rest post) : l'.reentering = false := by
  obtain ⟨q, hq, -, -, hstep⟩ := Moment.step_of_advance (hreach.sound hm₀) hadv
  have hb : m.session.blocks = .loop l :: rest := by
    rw [m.session.blockStacks_eq] at top
    exact (List.cons.inj top).1
  have hready := (hreach.sound_poise hm₀ hq).ready rfl ((hreach.sound_poise hm₀ hq).running_of_blocks hb)
  obtain ⟨b, e, -, -, he⟩ := hready.exists_closer (n := 0) hb
  have hreopens := hreach.reopens hm₀ top back hp he
  generalize l.source.opened g true m.session.vars = r at hreopens
  rcases r with ⟨f | more, source, v⟩
  · have hnot := (hreopens.failed f rfl).1
    cases x with
    | done => exact absurd hadv (hnot m')
    | unhandled f => exact absurd rfl (hx f)
    | handled f => exact absurd h' (hstep.handled_leaves (show (m.session.poise (some q)).blockStacks = _ from top) nofun nofun)
  · obtain ⟨m₁, hadv₁, top₁, -⟩ := hreopens.done _ _ _ rfl
    cases hadv.symm.trans hadv₁
    cases Bears.unique (.of_top top₁) h'
    exact hreopens.back

/-- A loop gets its mark when its own closer, or a transfer to it, sends the run back to its opener. -/
theorem Reachable.marked (hreach : Reachable g host m₀ m) (hm₀ : m₀.Starts) (hprompt : m.session.Prompt)
    (hadv : m.advance g host = some (x, m')) (hx : ∀ f, x ≠ .unhandled f)
    (hbears : m'.session.Bears (.loop l) rest post) (hmark : l.reentering = true) :
    (m'.session.blockStacks = (.loop l :: rest) :: post ∧ m'.session.pending = some l.opener) ∧
      ∃ q, m.next? = some q ∧ (m.session.suite.Construct l.opener q ∨
        (m.session.suite.keywordAt? q).bind goalOf? = some .loop) := by
  obtain ⟨q, hq, -, -, hstep⟩ := Moment.step_of_advance (hreach.sound hm₀) hadv
  -- the mark of a loop that had it before is gone
  have hbefore {l₀ : LoopFrame} (hb : m.session.Bears (.loop l₀) rest post) (hmark₀ : l₀.reentering = true) :
      False := by
    obtain ⟨top, hp⟩ := hprompt l₀ rest post hb hmark₀
    cases hmark.symm.trans (hreach.takes_mark hm₀ top hmark₀ hp hadv hx hbears)
  rcases (hstep.shift hx).origin hbears with hb | ⟨top, ⟨-, -, hfresh⟩ | ⟨f, hf, hbecomes, -⟩⟩
  · exact absurd hmark fun hmark => hbefore hb hmark
  · cases hmark.symm.trans (hfresh l rfl)
  · cases hbecomes with
    | sendBack command goesOn => exact ⟨⟨top, goesOn⟩, q, hq, command⟩
    | again at_ reentering opener saved done => cases hmark.symm.trans done
    | complete => exact absurd hmark fun hmark => hbefore hf hmark

/-- **A loop that was sent back is innermost, and its opener runs next.** -/
theorem Reachable.prompt (h : Reachable g host m₀ m) (hm₀ : m₀.Starts) : m.session.Prompt := by
  induction h with
  | start =>
    obtain ⟨units, suite, vars, σ', unit, -, rfl⟩ := hm₀
    rintro l rest post ⟨inner, hbears⟩
    have hnil : [] = inner ++ (post.length + 1, .loop l) :: placed (rest :: post) := hbears
    cases inner <;> cases hnil
  | step reached advance handled goesOn ih =>
    exact fun l rest post hbears hmark => (reached.marked hm₀ ih advance handled hbears hmark).1

/-- **Only a loop's own closer, or a transfer to the loop, leads to another pass.** -/
theorem Reachable.sent_back (h : Reachable g host m₀ m) (hm₀ : m₀.Starts) (hback : isReentering a m.session = true) :
    ∃ p q, Reachable g host m₀ p ∧ p.next? = some q ∧ p.advance g host = some (.done, m) ∧
      m.session.pending = some a ∧
      (p.session.suite.Construct a q ∨ (p.session.suite.keywordAt? q).bind goalOf? = some .loop) := by
  obtain ⟨l, rest, hb, rfl, hmark⟩ := isReentering_iff.1 hback
  have htop : m.session.blockStacks = (.loop l :: rest) :: m.session.outer.map Level.blocks := by
    rw [m.session.blockStacks_eq, hb]
  cases h with
  | start =>
    obtain ⟨units, suite, vars, σ', unit, -, rfl⟩ := hm₀
    cases hb
  | @step p _ x reached advance handled goesOn =>
    obtain ⟨⟨-, hp⟩, q, hq, hcommand⟩ := reached.marked hm₀ (reached.prompt hm₀) advance handled (.of_top htop) hmark
    refine ⟨p, q, reached, hq, ?_, hp, hcommand⟩
    cases x with
    | done => exact advance
    | unhandled f => exact absurd rfl (handled f)
    | handled f =>
      obtain ⟨q, -, -, -, hstep⟩ := Moment.step_of_advance (reached.sound hm₀) advance
      obtain ⟨t, t', fs, fss, left, -, hafter, -⟩ := hstep.handled_turns
      cases hafter.symm.trans htop

end

/-! ## 2. The loop that a counted loop stands for -/

/-- **A loop under a condition whose body ends with certain statements**: the variables that its condition
is evaluated over after passes, each of which begins and ends with certain variables. -/
inductive Desugars (g : Setting) (cond : String) (iterate : List String) :
    Namespace → List (Namespace × Namespace) → Namespace → Prop
  | none {v : Namespace} : Desugars g cond iterate v [] v
  | pass {v b z v' w : Namespace} {passes : List (Namespace × Namespace)}
      (holds : g.condition cond v = (.ok true, b)) (iterates : g.evaluateAll iterate z = (.ok (), v'))
      (further : Desugars g cond iterate v' passes w) : Desugars g cond iterate v ((b, z) :: passes) w

section

variable {g : Setting} {init iterate : List String} {cond : String} {v w : Namespace} {more : Bool}
  {passes : List (Namespace × Namespace)} {r : Except Fault Bool × LoopSource × Namespace}

/-- What the opener does to the variables before the condition is evaluated. -/
def LoopSource.prepares (g : Setting) (init iterate : List String) (again : Bool) (v : Namespace) :
    Except EvalError Unit × Namespace :=
  g.evaluateAll (if again then iterate else init) v

theorem LoopSource.opened_counted (again : Bool) : (LoopSource.counted init cond iterate).opened g again v =
    match prepares g init iterate again v with
    | (.ok (), w) => ((g.condition cond w).1.mapError EvalError.fault, .counted init cond iterate, (g.condition cond w).2)
    | (.error e, w) => (.error e.fault, .counted init cond iterate, w) := by
  cases again with
  | false =>
    unfold opened prepares begun
    simp only [Bool.false_eq_true, if_false]
    rcases g.evaluateAll init v with ⟨e | ⟨⟩, w⟩ <;> rfl
  | true =>
    unfold opened prepares advanced
    simp only [if_true]
    rcases g.evaluateAll iterate v with ⟨e | ⟨⟩, w⟩ <;> rfl

/-- The opener of a counted loop finds a pass, or none, if its condition is evaluated. -/
theorem LoopSource.opened_counted_eq_ok {again : Bool} {source : LoopSource} :
    (LoopSource.counted init cond iterate).opened g again v = (.ok more, source, w) ↔
      source = .counted init cond iterate ∧
        ∃ u, prepares g init iterate again v = (.ok (), u) ∧ g.condition cond u = (.ok more, w) := by
  rw [opened_counted]
  rcases prepares g init iterate again v with ⟨e | ⟨⟩, u⟩
  · refine iff_of_false nofun ?_
    rintro ⟨-, u, h, -⟩
    cases h
  · dsimp only
    rcases hcond : g.condition cond u with ⟨e | b, w'⟩
    · refine iff_of_false nofun ?_
      rintro ⟨-, u', h, h'⟩
      cases h
      cases hcond.symm.trans h'
    · constructor
      · rintro h
        cases h
        exact ⟨rfl, u, rfl, hcond⟩
      · rintro ⟨rfl, u', h, h'⟩
        cases h
        cases hcond.symm.trans h'
        rfl

/-- The header of a counted loop stays as it is. -/
theorem LoopSource.Unrolls.counted {r₀ : Except Fault Bool × LoopSource × Namespace} (h : Unrolls g r₀ passes r)
    (hr₀ : r₀.2.1 = .counted init cond iterate) : r.2.1 = .counted init cond iterate := by
  induction h with
  | none => exact hr₀
  | @pass source b z passes r further ih =>
    refine ih ?_
    rw [show source = .counted init cond iterate from hr₀, opened_counted]
    split <;> rfl

/-- **The opener of a counted loop does what the desugared loop does.** -/
theorem LoopSource.Unrolls.eq_ok_iff {again : Bool} {r₀ : Except Fault Bool × LoopSource × Namespace}
    (h : Unrolls g r₀ passes r) (hr₀ : (LoopSource.counted init cond iterate).opened g again v = r₀) :
    (∃ u u', prepares g init iterate again v = (.ok (), u) ∧ Desugars g cond iterate u passes u' ∧
      g.condition cond u' = (.ok more, w)) ↔ r = (.ok more, .counted init cond iterate, w) := by
  induction h generalizing v again with
  | none =>
    rw [← hr₀, opened_counted_eq_ok]
    constructor
    · rintro ⟨u, u', hprep, hdes, hcond⟩
      cases hdes
      exact ⟨rfl, u, hprep, hcond⟩
    · rintro ⟨-, u, hprep, hcond⟩
      exact ⟨u, u, hprep, .none, hcond⟩
  | pass further ih =>
    obtain ⟨rfl, u, hprep, hcond⟩ := opened_counted_eq_ok.1 hr₀
    rw [← ih (rfl : (LoopSource.counted init cond iterate).opened g true _ = _)]
    constructor
    · rintro ⟨u₁, u', hprep₁, hdes, hcond'⟩
      cases hprep.symm.trans hprep₁
      cases hdes with
      | pass holds iterates further' => exact ⟨_, u', iterates, further', hcond'⟩
    · rintro ⟨v', u', iterates, hdes, hcond'⟩
      exact ⟨u, u', hprep, .pass hcond iterates hdes, hcond'⟩

end

/-! ## 3. Breaking out -/

/-- The variables after a guard, if there is one, was evaluated. -/
def Setting.guarded (g : Setting) (guard : String) (v : Namespace) : Namespace :=
  if guard.isEmpty then v else (g.condition guard v).2

section

variable {g : Setting} {a : Address} {s : Session} {guard : String}

theorem ends_guardHolds {Q : Except Fault Bool → Session → Prop}
    (hQ : ∀ r, Q r (s.withVars (g.guarded guard s.vars))) : (guardHolds g guard).Ends s Q := by
  unfold guardHolds Setting.guarded at *
  by_cases hempty : guard.isEmpty
  · simp only [hempty, if_true] at hQ ⊢
    exact hQ (.ok true)
  · simp only [hempty, Bool.false_eq_true, if_false] at hQ ⊢
    rw [ends_condition]
    exact hQ _

/-- Leaving the constructs inside the innermost loop gives no name back. -/
theorem Session.vars_drop_insideLoop (s : Session) : (s.drop s.insideLoop).vars = s.vars := by
  have hnil : snapshotsIn (s.blocks.take s.insideLoop) = [] := by
    rw [snapshotsIn, List.filterMap_eq_nil_iff]
    intro f hf
    have htake : s.blocks.take s.insideLoop = s.blocks.takeWhile fun f => !f.isLoop :=
      (List.prefix_iff_eq_take.1 (List.takeWhile_prefix _)).symm
    rw [htake] at hf
    cases f with
    | conditional | guarded => rfl
    | loop l => cases List.mem_takeWhile_imp hf
  rw [Session.drop, Session.vars_discardAll, Session.vars_setBlocks, hnil]
  rfl

/-- **A `break` that makes its loop complete** has evaluated nothing but its guard. -/
theorem breakLoop_gives (hc : s.Counted) : (breakLoop g a guard).Ends s fun r t => r = .ok () →
    ∀ l rest, t.blocks = .loop l :: rest → t.blockStacks = s.blockStacks ∨
      t.vars = g.guarded guard s.vars := by
  unfold breakLoop loopToLeave?
  simp only [ends_bind]
  refine ends_guardHolds fun r => ?_
  rcases r with f | held
  · rintro ⟨⟩
  · cases held with
    | false => exact fun _ _ _ _ => .inl rfl
    | true =>
      simp only [Bool.not_true, Bool.false_eq_true, if_false, ends_bind]
      refine Ends.deferTransfer (hc.withVars _) ?_ ?_ ?_
      · exact fun d ds _ _ _ _ _ _ => .inl rfl
      · intro _ t ht _ l rest hb
        have hb : t.blocks = .loop l :: rest := hb
        obtain ⟨t', fs, fss, -, hafter, -⟩ := ht.shift
        rw [t.blockStacks_eq, hb] at hafter
        cases hafter
      · intro _ _
        simp only [Bool.false_eq_true, if_false, ends_bind]
        refine unwindToLoop_ends (fun l rest hl => ?_) (by rintro _ ⟨⟩)
        have hdrop : ((s.withVars (g.guarded guard s.vars)).drop s.insideLoop).blocks = .loop l :: rest := by
          rw [Session.blocks_drop]
          exact hl
        dsimp only
        rw [ends_pure]
        dsimp only
        rw [ends_bind]
        refine Ends.setLoop (s := (s.withVars (g.guarded guard s.vars)).drop s.insideLoop) hdrop ?_
        dsimp only
        unfold Action.block
        simp only [ends_bind, ends_ask]
        split
        · rw [ends_pure]
          dsimp only
          unfold goToPart
          split
          · refine fun _ _ _ _ => .inr ?_
            change (((s.withVars (g.guarded guard s.vars)).drop s.insideLoop).setBlocks _).vars = _
            rw [Session.vars_setBlocks]
            exact (s.withVars (g.guarded guard s.vars)).vars_drop_insideLoop
          · rintro ⟨⟩
        · simp only [ends_bind, ends_ask, ends_fail]
          rintro ⟨⟩

end

/-! ## 4. The run of a counted loop -/

section

variable {σ : Type} {g : Setting} {host : Host σ} {m₀ m m' b p z : Moment σ} {a e : Address} {c : Command}
  {init iterate names : List String} {cond guard : String} {l : LoopFrame}

/-- **The run leaves a loop** that it entered at a moment: by way of the closer to the command behind it,
with the constructs around the loop, and with the names of the loop bound as they were. -/
def Moment.LeavesLoop (g : Setting) (host : Host σ) (m z : Moment σ) (e : Address) (names : List String) : Prop :=
  z.session.pending = some e ∧ ∃ z', z.advance g host = some (.done, z') ∧
    z'.session.blockStacks = m.session.blockStacks ∧ z'.session.pending = none ∧ z'.following = e.next ∧
    ∀ name, z'.session.vars.get? name =
      if name ∈ names then m.session.vars.get? name else z.session.vars.get? name

/-- A `break` with a guard makes the loop opened at an address complete. -/
structure Moment.BreaksOut (g : Setting) (host : Host σ) (p z : Moment σ) (a : Address) (rest : List Frame)
    (post : List (List Frame)) (guard : String) : Prop where
  inPass : p.session.InPass a rest post
  command : ∃ q c, p.next? = some q ∧ p.session.suite.commandAt? q = some c ∧
    Keyword.ofName? c.name = some (.breakLoop, false) ∧ Text.trim c.target = guard
  advance : p.advance g host = some (.done, z)
  goesOn : z.session.exitRequested = false
  out : ∃ l, z.session.Bears (.loop l) rest post ∧ l.complete = true

/-- **The run of a counted loop that is entered** is that of the loop it stands for, whose condition is
first evaluated after the first statements of the counted loop.  A `break` leaves it at once. -/
structure Moment.RunsAsWhile (g : Setting) (host : Host σ) (m : Moment σ) (a e : Address)
    (init : List String) (cond : String) (iterate names : List String) : Prop where
  passes : ∀ passes m' more w,
    Rounds g host a m.session.blocks (m.session.outer.map Level.blocks) passes m m' →
    ((∃ v v', g.evaluateAll init (LoopHeader.bound ⟨.counted init cond iterate, names⟩ m.session.vars) = (.ok (), v) ∧
        Desugars g cond iterate v (passes.map ends) v' ∧ g.condition cond v' = (.ok more, w)) ↔
      ∃ z, m'.advance g host = some (.done, z) ∧ z.session.vars = w ∧
        if more then z.BeginsPass a m.session.blocks (m.session.outer.map Level.blocks)
        else m.LeavesLoop g host z e names)
  breaks : ∀ passes m' b p z guard,
    Rounds g host a m.session.blocks (m.session.outer.map Level.blocks) passes m m' →
    m'.advance g host = some (.done, b) → b.BeginsPass a m.session.blocks (m.session.outer.map Level.blocks) →
    Meanwhile g host (fun m' => m'.session.InPass a m.session.blocks (m.session.outer.map Level.blocks)) b p →
    p.BreaksOut g host z a m.session.blocks (m.session.outer.map Level.blocks) guard →
    z.session.vars = g.guarded guard p.session.vars ∧ m.LeavesLoop g host z e names

/-- A loop without a pass left is left. -/
theorem Reachable.leavesLoop (hreach : Reachable g host m₀ z) (hm₀ : m₀.Starts)
    (top : z.session.blockStacks = (.loop l :: m.session.blocks) :: m.session.outer.map Level.blocks)
    (complete : l.complete = true) (saved : l.saved = bindings names m.session.vars) (ho : l.opener = a)
    (hp : z.session.pending = some e) (he : z.session.suite.Construct a e) : m.LeavesLoop g host z e names := by
  subst ho
  have hnext : z.next? = some e := by rw [Moment.next?, hp]; rfl
  obtain ⟨z', hadv, hafter, hvars, hpending, hfollowing, -⟩ := hreach.leaves_loop hm₀ top complete hnext he
  refine ⟨hp, z', hadv, by rw [hafter, m.session.blockStacks_eq], hpending, hfollowing, fun name => ?_⟩
  rw [hvars, saved, Namespace.get?_restore]
  by_cases hname : name ∈ names
  · rw [get?_bindings hname, if_pos hname]
    rfl
  · rw [if_neg hname, not_not.1 (mt mem_of_get?_bindings hname)]
    rfl

/-- A `break` in a pass leaves the loop at once. -/
theorem Moment.BreaksOut.leaves {rest : List Frame} {post : List (List Frame)} (h : p.BreaksOut g host z a rest post guard)
    (hm₀ : m₀.Starts) (hreach : Reachable g host m₀ b)
    (top : b.session.blockStacks = (.loop l :: rest) :: post)
    (hmeanwhile : Meanwhile g host (fun m => m.session.InPass a rest post) b p) :
    z.session.vars = g.guarded guard p.session.vars ∧
      z.session.blockStacks = (.loop { l with complete := true } :: rest) :: post ∧
      ∃ e, p.session.suite.Construct l.opener e ∧ z.session.pending = some e := by
  obtain ⟨hin, ⟨q, c, hq, hc, hof, rfl⟩, hadv, -, l', hl', hcomplete'⟩ := h
  have hreachp := hreach.trans hmeanwhile.reachable
  have hbears := hmeanwhile.bears hm₀ hreach (.of_top top) hin
  obtain ⟨l₀, hl₀, -, hcomplete, hpass⟩ := hin
  cases hbears.unique hl₀
  obtain ⟨q', hq', -, -, hstep⟩ := Moment.step_of_advance (hreachp.sound hm₀) hadv
  cases hq.symm.trans hq'
  -- the loop was not complete, so that this is what the command made it
  have hbears' : Session.Bears (p.session.poise (some q)) (.loop l) rest post := hbears
  rcases hbears'.step hstep nofun hl' with heq | ⟨hbecomes, htop, -⟩
  · cases heq
    cases hcomplete.symm.trans hcomplete'
  have hsame : z.session.blockStacks ≠ p.session.blockStacks := by
    intro hsame
    rw [hsame] at htop
    cases hbears.unique (.of_top htop)
    cases hcomplete.symm.trans hcomplete'
  have hvars := Moment.of_done hq hc hof (P := fun t => ∀ l rest, t.blocks = .loop l :: rest →
      t.blockStacks = p.session.blockStacks ∨ t.vars = g.guarded (Text.trim c.target) p.session.vars)
    (breakLoop_gives (hreachp.sound_poise hm₀ hq).counted) hadv l' rest
    (by rw [z.session.blockStacks_eq] at htop; exact (List.cons.inj htop).1)
  refine ⟨hvars.resolve_left hsame, ?_⟩
  cases hbecomes with
  | sendBack => cases hcomplete.symm.trans hcomplete'
  | again at_ reentering => cases hpass.symm.trans reentering
  | complete closer goesOn => exact ⟨htop, _, closer, goesOn⟩

/-- **A `for` loop is the `while` loop that it stands for.**  Its opener is run again for another pass only
when its own closer, or a transfer to it, has sent the run there; every other time the loop is entered, and
its run begins with the first statements of its header, each evaluated once, and then is that of the loop
under its condition whose body ends with the last ones. -/
theorem for_loop_is_while (hm₀ : m₀.Starts) (hreach : Reachable g host m₀ m) (ha : m.next? = some a)
    (hc : m.session.suite.commandAt? a = some c) (hof : Keyword.ofName? c.name = some (.forLoop, false))
    (he : m.session.suite.Construct a e)
    (hheader : forHeader (Text.trim c.target) = .ok ⟨.counted init cond iterate, names⟩) :
    (isReentering a m.session = true → ∃ p q, Reachable g host m₀ p ∧ p.next? = some q ∧
      p.advance g host = some (.done, m) ∧ m.session.pending = some a ∧
      (p.session.suite.Construct a q ∨ (p.session.suite.keywordAt? q).bind goalOf? = some .loop)) ∧
    (isReentering a m.session = false → m.RunsAsWhile g host a e init cond iterate names) := by
  refine ⟨hreach.sent_back hm₀, fun hfresh => ?_⟩
  let h : LoopHeader := ⟨.counted init cond iterate, names⟩
  have hperform : perform g a .forLoop (Text.trim c.target) (Text.trim c.value) =
      reachLoop g a .forLoop (pure h) := by
    unfold perform
    dsimp only
    rw [hheader]
  have hopen := Reachable.enters host (v := m.session.vars) ha hc hof hfresh he hperform ⟨rfl, rfl⟩
  -- at the opener after passes, the loop has kept what its names were bound to
  have hrounds {passes m'} (hpasses : Rounds g host a m.session.blocks (m.session.outer.map Level.blocks) passes m m') :=
    hpasses.reopens hm₀ hreach he hopen
  refine ⟨fun passes m' more w hpasses => ?_, fun passes m' b p z guard hpasses hadv hbegins hmeanwhile hbreaks => ?_⟩
  · obtain ⟨l, r, hreach', he', hopen', hsaved, hunrolls⟩ := hrounds hpasses
    refine (hunrolls.eq_ok_iff (rfl : h.source.opened g false _ = _)).trans ⟨?_, ?_⟩
    · rintro rfl
      obtain ⟨z, hadv, top, hvars, hpending, hexit, hfollowing⟩ := hopen'.done _ _ _ rfl
      refine ⟨z, hadv, hvars, ?_⟩
      cases more with
      | true => exact ⟨⟨_, top, hopen'.opener, rfl, hopen'.back⟩, hpending, hfollowing⟩
      | false =>
        have hreachz := hreach'.step hadv nofun (hexit.trans (hreach'.exitRequested hm₀))
        exact hreachz.leavesLoop hm₀ top rfl hsaved hopen'.opener hpending
          (by rw [hreachz.suite hm₀, ← hreach.suite hm₀]; exact he)
    · rintro ⟨z, hadv, rfl, hz⟩
      have hsource : r.2.1 = .counted init cond iterate :=
        hunrolls.counted (by rw [LoopSource.opened_counted]; split <;> rfl)
      rcases r with ⟨f | more', source, w⟩
      · exact absurd hadv ((hopen'.failed f rfl).1 z)
      · obtain ⟨z', hadv', -, hvars, hpending, -, -⟩ := hopen'.done _ _ _ rfl
        cases hadv.symm.trans hadv'
        subst hvars
        obtain rfl : source = .counted init cond iterate := hsource
        -- whether a pass begins shows in where the run goes on
        cases more <;> cases more'
        · rfl
        · cases hz.1.symm.trans hpending
        · cases hz.pending.symm.trans hpending
        · rfl
  · obtain ⟨l, r, hreach', he', hopen', hsaved, -⟩ := hrounds hpasses
    rcases r with ⟨f | more, source, w⟩
    · exact absurd hadv ((hopen'.failed f rfl).1 b)
    · obtain ⟨b', hadv', top, -, -, hexit, -⟩ := hopen'.done _ _ _ rfl
      cases hadv.symm.trans hadv'
      have hreachb := hreach'.step hadv nofun (hexit.trans (hreach'.exitRequested hm₀))
      obtain ⟨hvars, htop, e', hcloser, hpending⟩ := hbreaks.leaves hm₀ hreachb top hmeanwhile
      have hreachp := hreachb.trans hmeanwhile.reachable
      have hreachz := hreachp.step hbreaks.advance nofun hbreaks.goesOn
      have hsuite : p.session.suite = m.session.suite := (hreachp.suite hm₀).trans (hreach.suite hm₀).symm
      rw [show ({ l with source, complete := !more } : LoopFrame).opener = a from hopen'.opener, hsuite] at hcloser
      cases hcloser.unique he
      exact ⟨hvars, hreachz.leavesLoop hm₀ htop rfl hsaved hopen'.opener hpending
        (by rw [hreachz.suite hm₀, ← hreach.suite hm₀]; exact he)⟩

/-- A loop that counts begins its first pass after its variable was bound. -/
theorem counting_loop_begins : ∃ m₀ z : Moment Unit,
    Moment.ofUnits [.named "main" [{ name := "for", target := "$i = 0; $i; $i = 1" }, { name := "endFor" }]] = .ok m₀ ∧
    m₀.RunsAsWhile .trivial silent ⟨0, 0⟩ ⟨0, 1⟩ ["$i = 0"] "$i" ["$i = 1"] ["i"] ∧
    m₀.advance .trivial silent = some (.done, z) ∧ z.session.vars.get? "i" = some .null ∧
    z.BeginsPass ⟨0, 0⟩ m₀.session.blocks (m₀.session.outer.map Level.blocks) := by
  have hheader : forHeader (Text.trim "$i = 0; $i; $i = 1") =
      .ok ⟨.counted ["$i = 0"] "$i" ["$i = 1"], ["i"]⟩ := rfl
  obtain ⟨m₀, hm₀, hnext, hcmd, he, hfresh, hvars⟩ : ∃ m₀ : Moment Unit,
      Moment.ofUnits [.named "main" [{ name := "for", target := "$i = 0; $i; $i = 1" }, { name := "endFor" }]] =
        .ok m₀ ∧ m₀.next? = some ⟨0, 0⟩ ∧
      m₀.session.suite.commandAt? ⟨0, 0⟩ = some { name := "for", target := "$i = 0; $i; $i = 1" } ∧
      m₀.session.suite.Construct ⟨0, 0⟩ ⟨0, 1⟩ ∧ isReentering ⟨0, 0⟩ m₀.session = false ∧ m₀.session.vars = ∅ :=
    ⟨_, rfl, rfl, rfl, ⟨_, rfl, rfl, rfl⟩, rfl, rfl⟩
  have hruns : m₀.RunsAsWhile .trivial silent ⟨0, 0⟩ ⟨0, 1⟩ ["$i = 0"] "$i" ["$i = 1"] ["i"] :=
    (for_loop_is_while (starts_ofUnits hm₀) .start hnext hcmd rfl he hheader).2 hfresh
  have hinit (v : Namespace) : Setting.trivial.evaluateAll ["$i = 0"] v = (.ok (), v) := rfl
  have hcond (v : Namespace) : Setting.trivial.condition "$i" v = (.ok true, v) := rfl
  obtain ⟨z, hadv, hz, hbegins⟩ := (hruns.passes [] m₀ true _ .none).1 ⟨_, _, hinit _, .none, hcond _⟩
  have hbound : (LoopHeader.bound ⟨.counted ["$i = 0"] "$i" ["$i = 1"], ["i"]⟩ m₀.session.vars).get? "i" =
      some .null := by
    rw [hvars]
    rfl
  exact ⟨m₀, z, hm₀, hruns, hadv, hz ▸ hbound, hbegins⟩

end

end BlockFlow.Flow
