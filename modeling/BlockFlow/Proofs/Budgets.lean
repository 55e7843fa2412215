/-
# Budgets of runs

A run may take a number of steps.  `Moment.round` is one round of a run, and `Moment.drive_succ` says that a run is
one round after the other; what a run with fewer steps does is then compared with what one with more steps does,
round by round.  The commands that it executes are the next commands of its moments (`getElem?_executed`).

A run is cut short (`Moment.Exhausts`) if it has taken all its steps and there is still a next command.  One that
is not cut short is the same with more steps (`drive_of_not_exhausts`); one that is has executed the first
commands of those (`executed_of_exhausts`), so what its host has noted is a beginning (`log_drive_prefix`).

`budget_only_truncates` is the main result.
-/
import BlockFlow.Proofs.Internal

namespace BlockFlow

/-- The run ends with the limit of its steps. -/
def Report.HitsLimit (report : Report) : Prop := ∃ f, report.outcome = .failed f ∧ f.code = "API_STEP_LIMIT"

namespace Flow

/-! ## 1. Rounds -/

/-- What comes of one round of a run. -/
inductive Round (σ : Type)
  | passed (w : World σ)
  /-- The run ends with the command at an address. -/
  | ended (a : Address) (outcome : Outcome) (w : World σ)
  /-- The run goes on after the command at an address. -/
  | goesOn (a : Address) (m : Moment σ)

/-- The world after a round. -/
def Round.world {σ : Type} : Round σ → World σ
  | .passed w | .ended _ _ w => w
  | .goesOn _ m => m.world

namespace Moment

section

variable {σ : Type} (g : Setting) (h : Host σ)

/-- **One round of a run**: the next command is found, executed, and its fault offered to the tries. -/
def round (m : Moment σ) : Round σ :=
  match m.next? with
  | none => .passed m.poised
  | some a =>
    match m.poised.step g h a with
    | (.unhandled f, w) => .ended a (.failed f) w.abandon
    | (_, w) => if w.session.exitRequested then .ended a .exited w.abandon else .goesOn a ⟨w, a.next⟩

/-- The run from a moment on, with a number of steps left. -/
def drive (maxSteps left : Nat) (m : Moment σ) : Report × World σ :=
  m.world.drive g h maxSteps left (m.session.suite.present? m.following)

/-- The commands that a run executes with a number of steps left. -/
def executed : Nat → Moment σ → List Address
  | 0, _ => []
  | left + 1, m =>
    match m.round g h with
    | .passed _ => []
    | .ended a _ _ => [a]
    | .goesOn a m => a :: executed left m

/-- **A run is cut short**: once it has taken the steps that are left there is still a next command. -/
def Exhausts : Nat → Moment σ → Prop
  | 0, m => m.next?.isSome
  | left + 1, m => ∃ a m', m.round g h = .goesOn a m' ∧ Exhausts left m'

end

variable {σ : Type} {g : Setting} {h : Host σ} {m m' : Moment σ} {a : Address} {w : World σ} {f : Fault}
  {maxSteps left more : Nat}

theorem drive_zero : m.drive g h maxSteps 0 =
    match m.next? with
    | none => (⟨.passed, maxSteps⟩, m.poised)
    | some a => m.poised.exhaust maxSteps a := by
  unfold drive World.drive
  rw [show m.world.next (m.session.suite.present? m.following) = (m.next?, m.poised) from rfl]
  cases m.next? <;> rfl

/-- **A run is one round after the other.** -/
theorem drive_succ : m.drive g h maxSteps (left + 1) =
    match m.round g h with
    | .passed w => (⟨.passed, maxSteps - (left + 1)⟩, w)
    | .ended _ outcome w => (⟨outcome, maxSteps - left⟩, w)
    | .goesOn _ m => m.drive g h maxSteps left := by
  unfold drive round
  rw [World.drive, show m.world.next (m.session.suite.present? m.following) = (m.next?, m.poised) from rfl]
  cases m.next? with
  | none => rfl
  | some a =>
    dsimp only
    rcases m.poised.step g h a with ⟨_ | f | f, w⟩
    · dsimp only
      split <;> rfl
    · dsimp only
      split <;> rfl
    · rfl

theorem round_of_none (hnext : m.next? = none) : m.round g h = .passed m.poised := by
  rw [round, hnext]

theorem round_of_next (hnext : m.next? = some a) : m.round g h =
    match m.poised.step g h a with
    | (.unhandled f, w) => .ended a (.failed f) w.abandon
    | (_, w) => if w.session.exitRequested then .ended a .exited w.abandon else .goesOn a ⟨w, a.next⟩ := by
  rw [round, hnext]

/-- **What a round does** is what its next command does. -/
theorem round_of_some (hnext : m.next? = some a) : ∃ x m', m.advance g h = some (x, m') ∧
    ((∃ f, x = .unhandled f ∧ m.round g h = .ended a (.failed f) m'.world.abandon) ∨
      (∀ f, x ≠ .unhandled f) ∧ (m'.session.exitRequested = true ∧ m.round g h = .ended a .exited m'.world.abandon ∨
        m'.session.exitRequested = false ∧ m.round g h = .goesOn a m')) := by
  rw [round_of_next hnext, advance, hnext, Option.map_some]
  refine ⟨_, _, rfl, ?_⟩
  rcases m.poised.step g h a with ⟨_ | f | f, w⟩
  case unhandled => exact .inl ⟨f, rfl, rfl⟩
  all_goals
    refine .inr ⟨by simp, ?_⟩
    cases hexit : w.session.exitRequested
    · exact .inr ⟨hexit, if_neg (by simp [hexit])⟩
    · exact .inl ⟨hexit, if_pos hexit⟩

/-- A run that goes on comes to its next moment. -/
theorem advance_of_goesOn (hround : m.round g h = .goesOn a m') : ∃ x, m.advance g h = some (x, m') ∧
    (∀ f, x ≠ .unhandled f) ∧ m'.session.exitRequested = false := by
  cases hnext : m.next? with
  | none => cases (round_of_none hnext).symm.trans hround
  | some b =>
    obtain ⟨x, m₁, hadv, ⟨f, -, hends⟩ | ⟨hx, ⟨-, hends⟩ | ⟨hexit, hgoes⟩⟩⟩ := m.round_of_some (g := g) (h := h) hnext
    · cases hends.symm.trans hround
    · cases hends.symm.trans hround
    · cases hgoes.symm.trans hround
      exact ⟨x, hadv, hx, hexit⟩

/-- A run that fails in a round does so with a fault that no try handles. -/
theorem advance_of_failed (hround : m.round g h = .ended a (.failed f) w) :
    ∃ m', m.advance g h = some (.unhandled f, m') := by
  cases hnext : m.next? with
  | none => cases (round_of_none hnext).symm.trans hround
  | some b =>
    obtain ⟨x, m₁, hadv, ⟨f', rfl, hends⟩ | ⟨-, ⟨-, hends⟩ | ⟨-, hgoes⟩⟩⟩ := m.round_of_some (g := g) (h := h) hnext
    · cases hends.symm.trans hround
      exact ⟨m₁, hadv⟩
    · cases hends.symm.trans hround
    · cases hgoes.symm.trans hround

theorem after?_succ_round {n : Nat} : m.after? g h (n + 1) =
    match m.round g h with
    | .goesOn _ m => m.after? g h n
    | _ => none := by
  rw [after?]
  cases hnext : m.next? with
  | none => rw [round_of_none hnext, advance, hnext, Option.map_none]
  | some a =>
    obtain ⟨x, m', hadv, ⟨f, rfl, hround⟩ | ⟨hx, ⟨hexit, hround⟩ | ⟨hexit, hround⟩⟩⟩ :=
      m.round_of_some (g := g) (h := h) hnext
    · rw [hadv, hround]
    · cases x <;> simp [hadv, hround, hexit] at hx ⊢
    · cases x <;> simp [hadv, hround, hexit] at hx ⊢

/-! ## 2. Steps -/

theorem executed_of_some (hnext : m.next? = some a) (left : Nat) : ∃ as, m.executed g h (left + 1) = a :: as := by
  rw [executed]
  obtain ⟨_, _, _, ⟨_, _, hround⟩ | ⟨_, ⟨_, hround⟩ | ⟨_, hround⟩⟩⟩ := m.round_of_some (g := g) (h := h) hnext <;>
    rw [hround] <;> exact ⟨_, rfl⟩

/-- **The commands that a run executes** are the next commands of its moments. -/
theorem getElem?_executed {k : Nat} (hk : k < left) : (m.executed g h left)[k]? = (m.after? g h k).bind next? := by
  induction left generalizing k m with
  | zero => cases hk
  | succ left ih =>
    cases k with
    | zero =>
      rw [after?, Option.bind_some]
      cases hnext : m.next? with
      | none => rw [executed, round_of_none hnext, List.getElem?_nil]
      | some a =>
        obtain ⟨as, has⟩ := executed_of_some (g := g) (h := h) hnext left
        rw [has, List.getElem?_cons_zero]
    | succ k =>
      rw [executed, after?_succ_round]
      cases m.round g h with
      | passed => rfl
      | ended => rfl
      | goesOn => exact ih (Nat.lt_of_succ_lt_succ hk)

theorem length_executed_le : (m.executed g h left).length ≤ left := by
  induction left generalizing m with
  | zero => exact le_rfl
  | succ left ih =>
    rw [executed]
    split
    · exact Nat.zero_le _
    · exact Nat.le_add_left 1 left
    · exact Nat.succ_le_succ ih

/-- **The steps of a run** are the commands that it executes. -/
theorem steps_drive (hle : left ≤ maxSteps) :
    (m.drive g h maxSteps left).1.steps = maxSteps - left + (m.executed g h left).length := by
  induction left generalizing m with
  | zero =>
    rw [drive_zero]
    split <;> rfl
  | succ left ih =>
    rw [drive_succ, executed]
    split
    · rfl
    · change maxSteps - left = maxSteps - (left + 1) + 1
      omega
    · rw [ih (Nat.le_of_succ_le hle), List.length_cons]
      omega

/-! ## 3. More steps -/

/-- **A run that is cut short** has taken all its steps. -/
theorem length_executed_of_exhausts (hex : m.Exhausts g h left) : (m.executed g h left).length = left := by
  induction left generalizing m with
  | zero => rfl
  | succ left ih =>
    obtain ⟨a, m', hround, hex⟩ := hex
    rw [executed, hround]
    exact congrArg (· + 1) (ih hex)

/-- A run that is cut short says so. -/
theorem outcome_of_exhausts (hex : m.Exhausts g h left) :
    ∃ f, (m.drive g h maxSteps left).1.outcome = .failed f ∧ f.code = "API_STEP_LIMIT" := by
  induction left generalizing m with
  | zero =>
    obtain ⟨a, hnext⟩ := Option.isSome_iff_exists.1 hex
    rw [drive_zero, hnext]
    exact ⟨_, rfl, Fault.code_attach _ _⟩
  | succ left ih =>
    obtain ⟨a, m', hround, hex⟩ := hex
    rw [drive_succ, hround]
    exact ih hex

/-- **A run that is cut short** has executed the first commands of the run with more steps. -/
theorem executed_of_exhausts (hex : m.Exhausts g h left) :
    m.executed g h left = (m.executed g h (left + more)).take left := by
  induction left generalizing m with
  | zero => rw [List.take_zero]; rfl
  | succ left ih =>
    obtain ⟨a, m', hround, hex⟩ := hex
    rw [Nat.add_right_comm, executed, executed, hround]
    exact congrArg _ (ih hex)

/-- **A run that is not cut short** is the same with more steps. -/
theorem drive_of_not_exhausts (hle : left ≤ maxSteps) (hex : ¬m.Exhausts g h left) :
    m.drive g h (maxSteps + more) (left + more) = m.drive g h maxSteps left := by
  induction left generalizing m with
  | zero =>
    have hnext : m.next? = none := by simpa [Exhausts] using hex
    rw [drive_zero, hnext]
    cases more with
    | zero => rw [drive_zero, hnext]; rfl
    | succ more => rw [Nat.zero_add, drive_succ, round_of_none hnext, Nat.add_sub_cancel]
  | succ left ih =>
    rw [Nat.add_right_comm, drive_succ, drive_succ]
    split
    · rw [Nat.add_right_comm left more 1, Nat.add_sub_add_right]
    · rw [Nat.add_sub_add_right]
    · rename_i hround
      exact ih (Nat.le_of_succ_le hle) fun hlater => hex ⟨_, _, hround, hlater⟩

/-- A run that is not cut short executes no more commands with more steps. -/
theorem executed_of_not_exhausts (hex : ¬m.Exhausts g h left) :
    m.executed g h (left + more) = m.executed g h left := by
  induction left generalizing m with
  | zero =>
    have hnext : m.next? = none := by simpa [Exhausts] using hex
    cases more with
    | zero => rfl
    | succ more => rw [Nat.zero_add, executed, executed, round_of_none hnext]
  | succ left ih =>
    rw [Nat.add_right_comm, executed, executed]
    split
    · rfl
    · rfl
    · rename_i hround
      rw [ih fun hlater => hex ⟨_, _, hround, hlater⟩]

/-- **A run that is cut short** executes further commands with more steps. -/
theorem lt_length_executed_of_exhausts (hex : m.Exhausts g h left) (hmore : 0 < more) :
    left < (m.executed g h (left + more)).length := by
  obtain ⟨more, rfl⟩ := Nat.exists_eq_add_one_of_ne_zero hmore.ne'
  induction left generalizing m with
  | zero =>
    obtain ⟨a, hnext⟩ := Option.isSome_iff_exists.1 hex
    obtain ⟨as, has⟩ := executed_of_some (g := g) (h := h) hnext more
    rw [Nat.zero_add, has]
    exact Nat.zero_lt_succ _
  | succ left ih =>
    obtain ⟨a, m', hround, hex⟩ := hex
    rw [Nat.add_right_comm, executed, hround]
    exact Nat.succ_lt_succ (ih hex)

/-- **A run that fails without being cut short** fails at a moment with a fault that no try handles. -/
theorem exists_unhandled_of_drive (hex : ¬m.Exhausts g h left)
    (hout : (m.drive g h maxSteps left).1.outcome = .failed f) :
    ∃ m₁ m', Reachable g h m m₁ ∧ m₁.advance g h = some (.unhandled f, m') := by
  induction left generalizing m with
  | zero =>
    have hnext : m.next? = none := by simpa [Exhausts] using hex
    rw [drive_zero, hnext] at hout
    cases hout
  | succ left ih =>
    rw [drive_succ] at hout
    split at hout
    · cases hout
    · rename_i hround
      cases hout
      obtain ⟨m', hadv⟩ := advance_of_failed hround
      exact ⟨m, m', .start, hadv⟩
    · rename_i hround
      obtain ⟨x, hadv, hx, hexit⟩ := advance_of_goesOn hround
      obtain ⟨m₁, m', hreach, hfails⟩ := ih (fun hlater => hex ⟨_, _, hround, hlater⟩) hout
      exact ⟨m₁, m', hreach.head hadv hx hexit, hfails⟩

end Moment

/-! ## 4. What hosts note -/

/-- **A host only adds** to what it has noted. -/
def Extends {σ τ : Type} (h : Host σ) (log : σ → List τ) : Prop :=
  ∀ evaluate c s vars, log s <+: log (h.execute evaluate c s vars).2.1

/-- The reference host only adds to its echoes. -/
theorem extends_reference : Extends Host.reference List.reverse := by
  intro evaluate c echoes vars
  simp only [Host.reference, Host.perform]
  split
  · simp
  all_goals
    repeat' split
    all_goals exact List.prefix_rfl

section

variable {σ τ : Type} {g : Setting} {h : Host σ} {log : σ → List τ}

theorem Extends.step (hlog : Extends h log) (a : Address) (w : World σ) :
    log w.host <+: log (w.step g h a).2.host := by
  have hrun : log w.host <+: log (w.runCommand g h a).2.host := by
    unfold World.runCommand
    split
    · split
      · exact List.prefix_rfl
      · exact hlog _ _ _ _
    · exact List.prefix_rfl
  unfold World.step
  rcases hr : w.runCommand g h a with ⟨f | _, w'⟩
  · rw [hr] at hrun
    dsimp only
    rcases hf : w'.handleFault g f with ⟨_ | f', w''⟩ <;> exact (congrArg (fun p => p.2.host) hf) ▸ hrun
  · rwa [hr] at hrun

theorem Extends.round (hlog : Extends h log) (m : Moment σ) : log m.world.host <+: log (m.round g h).world.host := by
  cases hnext : m.next? with
  | none =>
    rw [Moment.round_of_none hnext]
    exact List.prefix_rfl
  | some a =>
    have hstep : log m.world.host <+: log (m.poised.step g h a).2.host := hlog.step a m.poised
    obtain ⟨x, m', hadv, hround⟩ := m.round_of_some (g := g) (h := h) hnext
    rw [Moment.advance, hnext, Option.map_some] at hadv
    cases hadv
    rcases hround with ⟨f, -, hround⟩ | ⟨-, ⟨-, hround⟩ | ⟨-, hround⟩⟩ <;> rw [hround] <;> exact hstep

theorem Extends.drive (hlog : Extends h log) {maxSteps left : Nat} {m : Moment σ} :
    log m.world.host <+: log (m.drive g h maxSteps left).2.host := by
  induction left generalizing m with
  | zero =>
    rw [Moment.drive_zero]
    split <;> exact List.prefix_rfl
  | succ left ih =>
    have hround := hlog.round (g := g) m
    rw [Moment.drive_succ]
    split <;> rename_i ht <;> rw [ht] at hround
    · exact hround
    · exact hround
    · exact hround.trans ih

/-- **What a run with fewer steps has noted** is a beginning of what a run with more steps has. -/
theorem Extends.drive_prefix (hlog : Extends h log) {maxSteps maxSteps' left more : Nat} {m : Moment σ} :
    log (m.drive g h maxSteps left).2.host <+: log (m.drive g h maxSteps' (left + more)).2.host := by
  induction left generalizing m with
  | zero =>
    have hhost : (m.drive g h maxSteps 0).2.host = m.world.host := by
      rw [Moment.drive_zero]
      split <;> rfl
    rw [hhost]
    exact hlog.drive
  | succ left ih =>
    rw [Nat.add_right_comm, Moment.drive_succ, Moment.drive_succ]
    split
    · exact List.prefix_rfl
    · exact List.prefix_rfl
    · exact ih

end

/-! ## 5. Budgets -/

section

variable {σ : Type} (g : Setting) (h : Host σ) (entry : Option String)

/-- The commands that a run executes with a number of steps. -/
def commandsRun (maxSteps : Nat) (w : World σ) : List Address :=
  match w.session.beforeRun with
  | (some _, _) => []
  | (none, session) =>
    match session.suite.entry entry with
    | .error _ => []
    | .ok unit => Moment.executed g h maxSteps ⟨{ w with session }, ⟨unit, 0⟩⟩

/-- **A run starts or does not**, whatever number of steps it may take. -/
theorem run_cases (w : World σ) :
    (∃ f w', ∀ n, w.run g h ⟨entry, n⟩ = (.error f, w')) ∨
      ∃ unit, (Moment.first w unit).Starts ∧ w.session.beforeRun.2.suite.entry entry = .ok unit ∧ ∀ n,
        w.run g h ⟨entry, n⟩ =
          (.ok ((Moment.first w unit).drive g h n n).1, ((Moment.first w unit).drive g h n n).2) ∧
        commandsRun g h entry n w = (Moment.first w unit).executed g h n := by
  rcases hb : w.session.beforeRun with ⟨_ | e, session⟩
  · have hfirst (unit : Nat) : Moment.first w unit = ⟨{ w with session }, ⟨unit, 0⟩⟩ := by rw [Moment.first, hb]
    cases hunit : session.suite.entry entry with
    | error e => exact .inl ⟨e.fault, { w with session }, fun n => by simp only [World.run, hb, hunit]⟩
    | ok unit =>
      refine .inr ⟨unit, starts_first (by rw [hb]) unit, rfl, fun n => ?_⟩
      rw [hfirst]
      exact ⟨by simp only [World.run, hb, hunit]; rfl, by simp only [commandsRun, hb, hunit]⟩
  · exact .inl ⟨e.fault session.suite.units, { w with session }, fun n => by simp only [World.run, hb]⟩

variable {g h} {m : Moment σ} {few many : Nat}

theorem hitsLimit_of_exhausts (hex : m.Exhausts g h few) : (m.drive g h few few).1.HitsLimit :=
  Moment.outcome_of_exhausts hex

/-- **A limit that a run hits** without being cut short is a report of its host. -/
theorem hostReports_of_hitsLimit (hm : m.Starts) (hex : ¬m.Exhausts g h few)
    (hlimit : (m.drive g h few few).1.HitsLimit) :
    ∃ m₁, HostReports g h m m₁ fun f => f.code = "API_STEP_LIMIT" := by
  obtain ⟨f, hout, hcode⟩ := hlimit
  obtain ⟨m₁, m', hreach, hadv⟩ := Moment.exists_unhandled_of_drive hex hout
  refine ⟨m₁, ?_⟩
  rcases hreach.origin (reserved_of_code (by decide) (by decide)) hm hadv (.inr rfl) hcode with hhost | ⟨a, -, hskips⟩
  · exact hhost
  · exact absurd (hskips.code.symm.trans hcode) (by decide)

/-- **A number of steps only cuts runs short.**  A run with few steps and one with many either both do not start,
with the same fault, or:

* the run with few executes no more commands than that, and these are its steps;
* if it does not end with the limit then the run with many is the same;
* if it does then it has executed the first commands of the run with many, its host has noted a beginning of what
  the host of that has, and it has taken all its steps, unless its host reports a limit and both runs are the same;
* if the run with many takes few steps and does not hit its limit then the run with few is the same. -/
theorem budget_only_truncates (w : World σ) (hle : few ≤ many) :
    (∃ f w', w.run g h ⟨entry, few⟩ = (.error f, w') ∧ w.run g h ⟨entry, many⟩ = (.error f, w')) ∨
    ∃ short w₁ long w₂, w.run g h ⟨entry, few⟩ = (.ok short, w₁) ∧ w.run g h ⟨entry, many⟩ = (.ok long, w₂) ∧
      short.steps = (commandsRun g h entry few w).length ∧ short.steps ≤ few ∧
      (¬short.HitsLimit → long = short ∧ w₂ = w₁ ∧ commandsRun g h entry many w = commandsRun g h entry few w) ∧
      (short.HitsLimit →
        commandsRun g h entry few w = (commandsRun g h entry many w).take few ∧
        (∀ (τ : Type) (log : σ → List τ), Extends h log → log w₁.host <+: log w₂.host) ∧
        (short.steps = few ∨ (long = short ∧ w₂ = w₁) ∧ ∃ unit m, w.session.beforeRun.2.suite.entry entry = .ok unit ∧
          HostReports g h (Moment.first w unit) m fun f => f.code = "API_STEP_LIMIT")) ∧
      (¬long.HitsLimit → long.steps ≤ few → short = long ∧ w₁ = w₂) := by
  obtain ⟨more, rfl⟩ := Nat.exists_eq_add_of_le hle
  rcases run_cases g h entry w with ⟨f, w', hrun⟩ | ⟨unit, hm, hentry, hrun⟩
  · exact .inl ⟨f, w', hrun few, hrun _⟩
  · refine .inr ⟨_, _, _, _, (hrun few).1, (hrun _).1, ?_⟩
    rw [(hrun few).2, (hrun _).2]
    generalize hfirst : Moment.first w unit = m at hm ⊢
    have hsteps (n : Nat) : (m.drive g h n n).1.steps = (m.executed g h n).length := by
      rw [Moment.steps_drive le_rfl, Nat.sub_self, Nat.zero_add]
    have hsame (hex : ¬m.Exhausts g h few) : m.drive g h (few + more) (few + more) = m.drive g h few few :=
      Moment.drive_of_not_exhausts le_rfl hex
    refine ⟨hsteps few, hsteps few ▸ Moment.length_executed_le, fun hlimit => ?_, fun hlimit => ⟨?_, ?_, ?_⟩,
      fun hlimit hlong => ?_⟩
    · have hex : ¬m.Exhausts g h few := fun hex => hlimit (hitsLimit_of_exhausts hex)
      rw [hsame hex]
      exact ⟨rfl, rfl, Moment.executed_of_not_exhausts hex⟩
    · by_cases hex : m.Exhausts g h few
      · exact Moment.executed_of_exhausts hex
      · rw [Moment.executed_of_not_exhausts hex, List.take_of_length_le Moment.length_executed_le]
    · intro τ log hlog
      exact hlog.drive_prefix
    · by_cases hex : m.Exhausts g h few
      · exact .inl ((hsteps few).trans (Moment.length_executed_of_exhausts hex))
      · obtain ⟨m₁, hhost⟩ := hostReports_of_hitsLimit hm hex hlimit
        exact .inr ⟨by rw [hsame hex]; exact ⟨rfl, rfl⟩, unit, m₁, hentry, hfirst ▸ hhost⟩
    · have hex : more = 0 ∨ ¬m.Exhausts g h few := by
        by_contra hno
        obtain ⟨hmore, hex⟩ := not_or.1 hno
        have := Moment.lt_length_executed_of_exhausts (not_not.1 hex) (Nat.pos_of_ne_zero hmore)
        rw [hsteps] at hlong
        omega
      rcases hex with rfl | hex
      · exact ⟨rfl, rfl⟩
      · rw [hsame hex]
        exact ⟨rfl, rfl⟩

end

/-- A loop without end, cut short after two commands and after four. -/
theorem cuts_endless_loop : ∃ (s : Session) (short long : Report) (w₁ w₂ : World Echoes),
    Session.ofUnits [.named "main"
      [{ name := "while", target := "true" }, { name := "echo", target := "on" }, { name := "endWhile" }]] = .ok s ∧
    World.run .trivial .reference ⟨none, 2⟩ ⟨s, []⟩ = (.ok short, w₁) ∧
    World.run .trivial .reference ⟨none, 4⟩ ⟨s, []⟩ = (.ok long, w₂) ∧
    short.HitsLimit ∧ short.steps = 2 ∧ w₁.host = ["on"] ∧ w₁.host.reverse <+: w₂.host.reverse ∧
    commandsRun .trivial .reference none 2 (⟨s, []⟩ : World Echoes) =
      (commandsRun .trivial .reference none 4 (⟨s, []⟩ : World Echoes)).take 2 := by
  obtain ⟨s, short, w₁, f, hs, hrun, hout, hcode, hecho⟩ : ∃ (s : Session) (short : Report) (w₁ : World Echoes)
      (f : Fault), Session.ofUnits [.named "main"
        [{ name := "while", target := "true" }, { name := "echo", target := "on" }, { name := "endWhile" }]] = .ok s ∧
      World.run .trivial .reference ⟨none, 2⟩ ⟨s, []⟩ = (.ok short, w₁) ∧ short = ⟨.failed f, 2⟩ ∧
      f.code = "API_STEP_LIMIT" ∧ w₁.host = ["on"] :=
    ⟨_, _, _, _, rfl, rfl, rfl, rfl, rfl⟩
  subst hout
  rcases budget_only_truncates (g := .trivial) (h := .reference) none ⟨s, []⟩ (show 2 ≤ 4 by decide) with
    ⟨f, w', herror, -⟩ | ⟨short, w₁, long, w₂, hrun', hlong, -, -, -, hlimit, -⟩
  · cases hrun.symm.trans herror
  · cases hrun.symm.trans hrun'
    obtain ⟨hfirst, hlog, -⟩ := hlimit ⟨f, rfl, hcode⟩
    exact ⟨s, _, long, w₁, w₂, hs, hrun, hlong, ⟨f, rfl, hcode⟩, rfl, hecho, hlog _ _ extends_reference, hfirst⟩

end Flow

end BlockFlow
