/-
# Counting tries

The nesting counter is kept by hand, by every command and offer that enters or leaves a try.  `Stage` lists
the worlds that runs come to, also between the parts of a step and where units do not compile again, and
`stage_counts_tries` says that in each of them the counter is one less than the number of tries that take
part.  So a fault that is offered to the tries always finds one, and the counter is zero there exactly if no
other try takes part.
-/
import BlockFlow.Proofs.Moments

namespace BlockFlow.Flow

/-! ## 1. Stages of runs -/

/-- What is to be done next in a run. -/
inductive Phase
  /-- Nothing: a run may begin. -/
  | idle
  /-- The next command is to be told, which follows in its unit if the last one went nowhere else. -/
  | between (following : Address)
  | command (a : Address)
  /-- The command at an address has failed, and its fault is to be offered to the tries. -/
  | failed (a : Address) (f : Fault)

/-- **The worlds that runs come to**, with what is to be done next. -/
inductive Stage {σ : Type} (g : Setting) (host : Host σ) : Phase → World σ → Prop
  | created {units : List ScriptUnit} {suite : Suite} (compiles : Suite.compile units = .ok suite)
      (vars : Namespace) (state : σ) : Stage g host .idle ⟨(Session.fresh suite).withVars vars, state⟩
  | begins {p : Phase} {w : World σ} {s : Session} (stage : Stage g host p w)
      (compiles : w.session.beforeRun = (none, s)) (unit : Nat) :
      Stage g host (.between ⟨unit, 0⟩) { w with session := s }
  | refused {p : Phase} {w : World σ} {s : Session} {e : CompileError} (stage : Stage g host p w)
      (fails : w.session.beforeRun = (some e, s)) : Stage g host .idle { w with session := s }
  | goesOn {following a : Address} {w w' : World σ} (stage : Stage g host (.between following) w)
      (next : w.next (w.session.suite.present? following) = (some a, w')) : Stage g host (.command a) w'
  | passes {following : Address} {w w' : World σ} (stage : Stage g host (.between following) w)
      (next : w.next (w.session.suite.present? following) = (none, w')) : Stage g host .idle w'
  | done {a : Address} {w w' : World σ} (stage : Stage g host (.command a) w)
      (runs : w.runCommand g host a = (.ok (), w')) : Stage g host (.between a.next) w'
  | fails {a : Address} {f : Fault} {w w' : World σ} (stage : Stage g host (.command a) w)
      (runs : w.runCommand g host a = (.error f, w')) : Stage g host (.failed a f) w'
  | handled {a : Address} {f : Fault} {w w' : World σ} (stage : Stage g host (.failed a f) w)
      (offer : w.handleFault g f = (.handled, w')) : Stage g host (.between a.next) w'
  | unhandled {a : Address} {f f' : Fault} {w w' : World σ} (stage : Stage g host (.failed a f) w)
      (offer : w.handleFault g f = (.unhandled f', w')) : Stage g host .idle w'
  | abandoned {p : Phase} {w : World σ} (stage : Stage g host p w) : Stage g host .idle w.abandon

/-- What holds of the session at a stage. -/
def Phase.Holds : Phase → Session → Prop
  | .idle, s => s.Counted
  | .between following, s => s.Sound (s.pending.getD following)
  | .command a, s => s.Sound a ∧ s.pending = none ∧ s.current = some a
  | .failed _ _, s => s.Running ∧ ∃ r, s.Sound r

section

variable {σ : Type} {g : Setting} {host : Host σ} {p : Phase} {w w' : World σ} {s s' : Session} {a : Address}
  {f : Fault}

theorem Phase.Holds.counted (h : p.Holds s) : s.Counted := by
  cases p with
  | idle => exact h
  | between following => exact (Session.Sound.toFitted h).counted
  | command a => exact h.1.counted
  | failed a f =>
    obtain ⟨-, r, hs⟩ := h
    exact hs.counted

/-- A fault that no try handles leaves the count right. -/
theorem Offer.counted {f' : Fault} (o : Offer g f s (.unhandled f') s') (hc : s.Counted) : s'.Counted := by
  cases o with
  | refused => exact hc
  | @spent k n t rest v _ reaches =>
    have hsame : ((((s.abortCalls k).drop n).relieve t.opener).defer (.fault f) t.opener).blocks =
        .guarded t :: rest := reaches.blocks
    have hcut : ((((s.abortCalls k).drop n).relieve t.opener).defer (.fault f) t.opener).Counted :=
      (hc.abortCalls k).drop n
    exact hcut.setBlocks (by rw [hsame])

/-- Where nothing is running nothing is counted. -/
theorem Session.counted_abandon (s : Session) : s.abandon.Counted := by
  have hcalls : (s.abortCalls s.calls.length).calls = [] := by rw [calls_abortCalls, List.drop_length]
  have houter : s.abandon.outer = [] := by
    change ((s.abortCalls s.calls.length).drop _).outer = []
    rw [outer_drop, outer, hcalls]
  rw [Counted, frames, blocks_abandon, houter]
  rfl

theorem Session.Counted.beforeRun {e? : Option CompileError} (hc : s.Counted) (h : s.beforeRun = (e?, s')) :
    s'.Counted := by
  rcases s.beforeRun_cases with ⟨e, tables, hrun⟩ | ⟨suite, -, hrun⟩ <;> rw [hrun] at h <;> cases h
  · exact hc
  · exact show Session.Counted _ from rfl

/-! ## 2. What one part of a step keeps -/

/-- **A command keeps the session sound**, also if it fails. -/
theorem World.runCommand_sound {r : Except Fault Unit} (hs : w.session.Sound a) (hp : w.session.pending = none)
    (hc : w.session.current = some a) (hrun : w.runCommand g host a = (r, w')) :
    w'.session.Sound (w'.session.pending.getD a.next) ∧ ∀ f, r = .error f → w'.session.Running := by
  rcases World.runCommand_cases hs hp hc hrun with ⟨rfl, hstep⟩ | ⟨f₀, f', rfl, hready, hmove, -⟩
  · exact ⟨hstep.sound hs nofun, nofun⟩
  · exact ⟨hmove.sound hready hs, fun f _ c hcs => hready.runs hs c (hmove.sites_of_error ▸ hcs)⟩

/-- **An offer keeps the session sound** if a try handles the fault, and the count right in any case. -/
theorem World.handleFault_sound {d : Disposition} {r : Address} (hs : w.session.Sound r) (hr : w.session.Running)
    (hoffer : w.handleFault g f = (d, w')) :
    w'.session.Counted ∧ (d = .handled → ∀ r', w'.session.Sound r') := by
  have ho := World.handleFault_offer hs.toFitted hoffer
  cases d with
  | handled =>
    have hsound := ho.sound hs hr
    exact ⟨(hsound r).counted, fun _ => hsound⟩
  | unhandled f' => exact ⟨ho.counted hs.counted, nofun⟩

/-- **Every stage keeps to its phase.** -/
theorem Stage.holds (h : Stage g host p w) : p.Holds w.session := by
  induction h with
  | created compiles vars state => exact show Session.Counted _ from rfl
  | @begins p w s stage compiles unit ih =>
    have hm := (starts_first (w := w) (by rw [compiles]) unit).sound
    rw [Moment.first, compiles] at hm
    exact hm
  | refused stage fails ih => exact ih.counted.beforeRun fails
  | @goesOn following a w w' stage next ih =>
    have hplace := Moment.place_of_next? (m := ⟨w, following⟩) (congrArg Prod.fst next)
    obtain rfl : w' = _ := (congrArg Prod.snd next).symm
    have ha : (w.next (w.session.suite.present? following)).1 = some a := congrArg Prod.fst next
    exact ⟨hplace ▸ Session.Sound.poise ih _, rfl, ha⟩
  | @passes following w w' stage next ih =>
    obtain rfl : w' = _ := (congrArg Prod.snd next).symm
    have hc : w.session.Counted := ih.counted
    exact hc
  | done stage runs ih => exact (World.runCommand_sound ih.1 ih.2.1 ih.2.2 runs).1
  | fails stage runs ih =>
    obtain ⟨hsound, hr⟩ := World.runCommand_sound ih.1 ih.2.1 ih.2.2 runs
    exact ⟨hr _ rfl, _, hsound⟩
  | handled stage offer ih =>
    obtain ⟨hr, r, hs⟩ := ih
    exact (World.handleFault_sound hs hr offer).2 rfl _
  | unhandled stage offer ih =>
    obtain ⟨hr, r, hs⟩ := ih
    exact (World.handleFault_sound hs hr offer).1
  | abandoned stage ih => exact Session.counted_abandon _

/-! ## 3. Whole runs -/

/-- **A step ends at a stage**, after which the run goes on unless no try has handled the step's fault. -/
theorem Stage.step {x : StepResult} (h : Stage g host (.command a) w) (hstep : w.step g host a = (x, w')) :
    (∀ f, x ≠ .unhandled f) ∧ Stage g host (.between a.next) w' ∨
      (∃ f, x = .unhandled f) ∧ Stage g host .idle w' := by
  unfold World.step at hstep
  rcases hrun : w.runCommand g host a with ⟨f | _, w₁⟩
  · rw [hrun] at hstep
    dsimp only at hstep
    rcases hoffer : w₁.handleFault g f with ⟨_ | f', w₂⟩ <;> rw [hoffer] at hstep
    · obtain ⟨rfl, rfl⟩ := Prod.mk.inj hstep
      exact .inl ⟨nofun, (h.fails hrun).handled hoffer⟩
    · obtain ⟨rfl, rfl⟩ := Prod.mk.inj hstep
      exact .inr ⟨⟨f', rfl⟩, (h.fails hrun).unhandled hoffer⟩
  · rw [hrun] at hstep
    obtain ⟨rfl, rfl⟩ := Prod.mk.inj hstep
    exact .inl ⟨nofun, h.done hrun⟩

/-- What is driven from a stage ends at a stage. -/
theorem Stage.drive {maxSteps left : Nat} {following : Address} (h : Stage g host (.between following) w) :
    ∃ p, Stage g host p (w.drive g host maxSteps left (w.session.suite.present? following)).2 := by
  induction left generalizing w following with
  | zero =>
    unfold World.drive
    rcases hn : w.next (w.session.suite.present? following) with ⟨_ | a, w'⟩
    · exact ⟨_, h.passes hn⟩
    · exact ⟨_, (h.goesOn hn).abandoned⟩
  | succ left ih =>
    unfold World.drive
    rcases hn : w.next (w.session.suite.present? following) with ⟨_ | a, w'⟩
    · exact ⟨_, h.passes hn⟩
    · dsimp only
      rcases hstep : w'.step g host a with ⟨x, w₁⟩
      -- the run ends where it was asked to, and else goes on with the next command
      have hgo (hs : Stage g host (.between a.next) w₁) : ∃ p, Stage g host p
          (if w₁.session.exitRequested then (⟨.exited, maxSteps - left⟩, w₁.abandon)
            else w₁.drive g host maxSteps left (w₁.session.suite.successor? a) : Report × World σ).2 := by
        split
        · exact ⟨_, hs.abandoned⟩
        · exact ih hs
      rcases (h.goesOn hn).step hstep with ⟨hx, hs⟩ | ⟨⟨f, rfl⟩, hs⟩
      · cases x with
        | unhandled f => exact absurd rfl (hx f)
        | done | handled => exact hgo hs
      · exact ⟨_, hs.abandoned⟩

/-- **A whole run from a stage ends at a stage.** -/
theorem Stage.run (h : Stage g host p w) (options : RunOptions) : ∃ p', Stage g host p' (w.run g host options).2 := by
  unfold World.run
  rcases hb : w.session.beforeRun with ⟨_ | e, s⟩
  · dsimp only
    cases hentry : s.suite.entry options.entry with
    | error e => exact ⟨_, h.begins hb 0⟩
    | ok unit => exact (h.begins hb unit).drive
  · exact ⟨_, h.refused hb⟩

/-- The next command of a moment that is a stage is another one. -/
theorem Stage.poised {m : Moment σ} (h : Stage g host (.between m.following) m.world) (ha : m.next? = some a) :
    Stage g host (.command a) m.poised :=
  h.goesOn (show m.world.next (m.session.suite.present? m.following) = (some a, m.poised) from
    Prod.ext ha rfl)

/-- **Every moment of a run is a stage.** -/
theorem Reachable.stage {m₀ m : Moment σ} (h : Reachable g host m₀ m) (hm₀ : m₀.Starts) :
    Stage g host (.between m.following) m.world := by
  induction h with
  | start =>
    obtain ⟨units, suite, vars, σ', unit, hsuite, rfl⟩ := hm₀
    obtain rfl := Suite.units_of_compile hsuite
    have hnew := congrArg (Except.map Session.fresh) hsuite
    exact (Stage.created hsuite vars σ').begins (Session.beforeRun_of_ok hnew) unit
  | @step m m' x reached advance handled goesOn ih =>
    obtain ⟨a, ha, heq⟩ := Option.map_eq_some_iff.1 advance
    rcases hstep : m.poised.step g host a with ⟨y, w⟩
    rw [hstep] at heq
    obtain ⟨rfl, rfl⟩ := Prod.mk.inj heq
    exact ((ih.poised ha).step hstep).elim And.right fun h => absurd h.1 (by rintro ⟨f, rfl⟩; exact handled f rfl)

/-! ## 4. The counter -/

/-- **The counter counts the tries.**  At every stage of a run it is one less than the number of tries that
take part, over the constructs of all calls.  So a fault that is offered to the tries finds the innermost one,
with everything inside it left, and then the counter is zero exactly if no other try takes part. -/
theorem stage_counts_tries (h : Stage g host p w) :
    w.session.nesting + 1 = (w.session.blockStacks.flatten.countP Frame.isActiveTry : Int) ∧
      (0 ≤ w.session.nesting → ∃ t rest u, w.session.unwindToTry = (some t.opener, u) ∧
        u.blocks = .guarded t :: rest ∧ t.isActive = true ∧
        (u.nesting = 0 ↔ ∀ f ∈ rest ++ u.blockStacks.tail.flatten, f.isActiveTry = false)) := by
  have hc := h.holds.counted
  rw [← Session.frames_eq]
  refine ⟨hc, fun hn => ?_⟩
  obtain ⟨k, n, t, rest, hreach, hunwind⟩ := w.session.unwindToTry_eq hc hn
  refine ⟨t, rest, _, hunwind, hreach.blocks, hreach.active, ?_⟩
  have hcount := (hc.abortCalls k).drop n
  generalize hu : (w.session.abortCalls k).drop n = u at hcount
  have hb : u.blocks = .guarded t :: rest := hu ▸ hreach.blocks
  rw [Session.Counted, Session.frames_eq, Session.blockStacks_eq, List.flatten_cons, hb, List.cons_append,
    List.countP_cons_of_pos (show Frame.isActiveTry (.guarded t) = true from hreach.active)] at hcount
  rw [Session.blockStacks_eq, List.tail_cons]
  simp only [← Bool.not_eq_true]
  rw [← List.countP_eq_zero]
  omega

/-- A fault that is thrown in the body of the only try. -/
theorem throw_finds_the_try : ∃ (w : World Unit) (f : Fault), Stage .trivial silent (.failed ⟨0, 1⟩ f) w ∧
    w.session.nesting = 0 ∧ ∃ t rest u, w.session.unwindToTry = (some t.opener, u) ∧
      u.blocks = .guarded t :: rest ∧ ∀ f ∈ rest ++ u.blockStacks.tail.flatten, f.isActiveTry = false := by
  obtain ⟨suite, s, w₁, w₂, w₃, w₄, f, hcompiles, hbegins, hnext, hopens, hnext', hthrows, hzero, hkept⟩ :
      ∃ (suite : Suite) (s : Session) (w₁ w₂ w₃ w₄ : World Unit) (f : Fault),
      Suite.compile [.named "main" [{ name := "try" }, { name := "throw" }, { name := "catch" },
        { name := "endTry" }]] = .ok suite ∧
      ((Session.fresh suite).withVars ∅).beforeRun = (none, s) ∧
      (⟨s, ()⟩ : World Unit).next (s.suite.present? ⟨0, 0⟩) = (some ⟨0, 0⟩, w₁) ∧
      w₁.runCommand .trivial silent ⟨0, 0⟩ = (.ok (), w₂) ∧
      w₂.next (w₂.session.suite.present? ⟨0, 1⟩) = (some ⟨0, 1⟩, w₃) ∧
      w₃.runCommand .trivial silent ⟨0, 1⟩ = (.error f, w₄) ∧ w₄.session.nesting = 0 ∧
      w₄.session.unwindToTry.2.nesting = 0 :=
    ⟨_, _, _, _, _, _, _, rfl, rfl, rfl, rfl, rfl, rfl, rfl, rfl⟩
  have hstage : Stage .trivial silent (.failed ⟨0, 1⟩ f) w₄ :=
    ((((Stage.created hcompiles ∅ ()).begins hbegins 0).goesOn hnext).done hopens |>.goesOn hnext').fails hthrows
  obtain ⟨-, hfinds⟩ := stage_counts_tries hstage
  obtain ⟨t, rest, u, hunwind, hb, -, hiff⟩ := hfinds hzero.ge
  rw [hunwind] at hkept
  exact ⟨w₄, f, hstage, hzero, t, rest, u, hunwind, hb, hiff.1 hkept⟩

end

end BlockFlow.Flow
