/-
# Moments of runs

A run seen as a chain of moments, a moment being the world between two commands with the address that
follows the last one: `Moment.advance` runs one command, and `Reachable` holds of the moments that a run
comes to.

`Step` says what one command does to the session, over all the ways of `Move` and `Offer`;
`Reachable.sound` and `Reachable.invariant` carry what every step keeps to all moments of a run, and
`exists_moment_of_passed` finds the moment at which a run has passed.
-/
import BlockFlow.Proofs.Ledger
import BlockFlow.Run

namespace BlockFlow.Flow

/-! ## 1. What one command does -/

/-- **What one command does** to the session that is about to run it. -/
inductive Step (g : Setting) (a : Address) (s : Session) : StepResult → Session → Prop
  /-- A call that has ended is finished by its command. -/
  | finish {c : Call} {calls : List Call} {v : Namespace} (call : s.sites = c :: calls)
      (returning : c.returning = true) : Step g a s .done (s.abortCall.withVars v)
  | move {s' : Session} (ready : s.Ready) (move : Move a s (.ok ()) s') : Step g a s .done s'
  | handled {f f' : Fault} {t s' : Session} (ready : s.Ready) (move : Move a s (.error f) t)
      (same : f'.attach (s.suite.commandRef a) = f.attach (s.suite.commandRef a))
      (offer : Offer g (f.attach (s.suite.commandRef a)) t .handled s') : Step g a s (.handled f') s'
  | unhandled {f f' : Fault} {t s' : Session} (ready : s.Ready) (move : Move a s (.error f) t)
      (offer : Offer g (f.attach (s.suite.commandRef a)) t (.unhandled f') s') :
      Step g a s (.unhandled f') s'

section

variable {g : Setting} {a : Address} {s s' : Session} {x : StepResult}

/-- **Commands keep sessions sound**, unless they end the run. -/
theorem Step.sound (h : Step g a s x s') (hs : s.Sound a) (hx : ∀ f, x ≠ .unhandled f) :
    s'.Sound (s'.pending.getD a.next) := by
  cases h with
  | finish call returning => exact (hs.finishCall call returning _ _).1
  | move ready move => exact move.sound ready hs
  | handled ready move same offer =>
    refine offer.sound (move.sound ready hs) ?_ _
    intro c hc
    rw [move.sites_of_error] at hc
    exact ready.runs hs c hc
  | unhandled => exact absurd rfl (hx _)

/-- Commands keep the suite, and only a transfer to the end of the run asks it to end. -/
theorem Step.kept (h : Step g a s x s') : s'.suite = s.suite ∧ (s'.exitRequested = s.exitRequested ∨
    s.cleanup? .exit = none ∧ s'.frames = s.frames) := by
  cases h with
  | finish => exact ⟨s.kept_abortCall.suite, .inl s.kept_abortCall.exitRequested⟩
  | move ready move =>
    obtain ⟨hsuite, -, hexit⟩ := move.kept
    exact ⟨hsuite, hexit.imp_right And.right⟩
  | handled ready move same offer =>
    obtain ⟨hsuite, -, hexit⟩ := move.kept
    have hk := offer.kept
    exact ⟨hk.1.trans hsuite, .inl (hk.2.trans (hexit.resolve_right fun h => nomatch h.1))⟩
  | unhandled ready move offer =>
    obtain ⟨hsuite, -, hexit⟩ := move.kept
    have hk := offer.kept
    exact ⟨hk.1.trans hsuite, .inl (hk.2.trans (hexit.resolve_right fun h => nomatch h.1))⟩

theorem commandAt?_of_keywordAt? {suite : Suite} {k : Keyword} (h : suite.keywordAt? a = some k) :
    ∃ c, suite.commandAt? a = some c ∧ Keyword.ofName? c.name = some (k, false) := by
  obtain ⟨c, hc, hk⟩ := Option.bind_eq_some_iff.1 h
  refine ⟨c, hc, ?_⟩
  split at hk
  · rename_i l hl
    cases hk
    exact hl
  · cases hk

/-- A call that has ended is finished by its command. -/
theorem dispatch_finish {c : Call} {calls : List Call} (h : s.Sound a) (hcs : s.sites = c :: calls)
    (hret : c.returning = true) : (dispatch g a).Ends s fun r t =>
      r = .ok () ∧ ∃ v, t = s.abortCall.withVars v := by
  obtain ⟨-, rfl⟩ := h.returning c calls hcs hret
  obtain ⟨hop, hkey, cmd, o, hcmd, hname⟩ := h.calls c (by rw [hcs]; exact List.mem_cons_self)
  obtain ⟨cmd', hcmd', hof⟩ := commandAt?_of_keywordAt? hkey
  cases hcmd.symm.trans hcmd'
  obtain ⟨d, ds, hds, hd⟩ : ∃ d ds, s.calls = d :: ds ∧ d.site = c := by
    cases hc : s.calls with
    | nil =>
      rw [Session.sites, hc] at hcs
      cases hcs
    | cons d ds =>
      rw [Session.sites, hc] at hcs
      exact ⟨d, ds, rfl, (List.cons.inj hcs).1⟩
  unfold dispatch
  rw [Action.ends_bind, Action.ends_ask]
  dsimp only
  rw [show Command.locate s.suite.units c.returnTo = .ok cmd from Command.locate_eq_ok_iff.2 hcmd]
  dsimp only
  rw [hof]
  exact reachCall_finish hds (by rw [← hd] at hret; exact hret) (by rw [← hd]; rfl) hname _

end

section

variable {σ : Type} {g : Setting} {host : Host σ} {a : Address} {w : World σ}

/-- A command of the host changes variables only. -/
theorem Session.Ready.delegate_move {s : Session} (h : s.Ready)
    (hk : s.suite.keywordAt? a = none) (r : Except Fault Unit) (v : Namespace) :
    Move a s r (s.withVars v) := by
  rw [Session.withVars_eq_proceed h.pending]
  refine .stay fun _ => ⟨by rw [hk]; nofun, fun o ho => ?_, fun n => ?_⟩
  · obtain ⟨b, k, -, hk', -⟩ := h.nested.keyword_of_construct ho
    cases hk.symm.trans hk'
  · rintro ⟨b, hb, -⟩
    cases hk.symm.trans (h.nested.keyword hb)

theorem keywordAt?_of_not_handles {suite : Suite} {c : Command} (hc : suite.commandAt? a = some c)
    (hh : handles c.name = false) : suite.keywordAt? a = none := by
  cases hk : suite.keywordAt? a with
  | none => rfl
  | some k =>
    obtain ⟨c', hc', hof⟩ := commandAt?_of_keywordAt? hk
    cases hc.symm.trans hc'
    simp [handles, hof] at hh

/-- **Every command that runs moves the session**, and its fault has the reference of the command once
it was attached. -/
theorem runCommand_move (g : Setting) (host : Host σ) (h : w.session.Ready) (hc : w.session.current = some a) :
    ∃ r, Move a w.session r (w.runCommand g host a).2.session ∧
      ((r = .ok () ∧ (w.runCommand g host a).1 = .ok ()) ∨
        ∃ f f', r = .error f ∧ (w.runCommand g host a).1 = .error f' ∧
          f'.attach (w.session.suite.commandRef a) = f.attach (w.session.suite.commandRef a)) := by
  have hcur : { w.session with current := some a } = w.session := by rw [← hc]
  have hexec : ∃ r, Move a w.session r (w.execute g a).2.session ∧
      ((r = .ok () ∧ (w.execute g a).1 = .ok ()) ∨
        ∃ f f', r = .error f ∧ (w.execute g a).1 = .error f' ∧
          f'.attach (w.session.suite.commandRef a) = f.attach (w.session.suite.commandRef a)) := by
    have hm := dispatch_move g a h
    unfold World.execute Session.execute
    rw [hcur]
    unfold Action.Ends at hm
    rcases hd : dispatch g a w.session with ⟨r, t⟩
    rw [hd] at hm
    dsimp only at hm
    cases r with
    | ok x => exact ⟨.ok (), hm, .inl ⟨rfl, rfl⟩⟩
    | error f =>
      refine ⟨.error f, hm, .inr ⟨f, _, rfl, rfl, ?_⟩⟩
      rw [hm.kept.1, Fault.attach_attach]
  unfold World.runCommand
  split
  · rename_i c hcmd
    split
    · exact hexec
    · rename_i hh
      have hk := keywordAt?_of_not_handles hcmd (Bool.eq_false_iff.2 hh)
      have hm (r : Except Fault Unit) (v : Namespace) := h.delegate_move hk r v
      unfold World.delegate
      rcases host.execute g.evaluate c w.host w.session.vars with ⟨r, σ', v⟩
      refine ⟨r, hm r v, ?_⟩
      cases r with
      | ok x => exact .inl ⟨rfl, rfl⟩
      | error f => exact .inr ⟨f, f, rfl, rfl, rfl⟩
  · exact hexec

/-- A call that has ended is finished by the command that runs. -/
theorem runCommand_finish (h : w.session.Sound a) (hc : w.session.current = some a) {c : Call} {calls : List Call}
    (hcs : w.session.sites = c :: calls) (hret : c.returning = true) :
    ∃ v, w.runCommand g host a = (.ok (), { w with session := w.session.abortCall.withVars v }) := by
  have hkey := (h.calls c (by rw [hcs]; exact List.mem_cons_self)).keyword
  rw [← (h.returning c calls hcs hret).2] at hkey
  obtain ⟨cmd, hcmd, hof⟩ := commandAt?_of_keywordAt? hkey
  have hcur : { w.session with current := some a } = w.session := by rw [← hc]
  have hfinish := dispatch_finish (g := g) h hcs hret
  unfold World.runCommand
  rw [hcmd]
  dsimp only
  rw [show handles cmd.name = true by simp [handles, hof], if_pos rfl]
  unfold World.execute Session.execute
  rw [hcur]
  unfold Action.Ends at hfinish
  rcases hd : dispatch g a w.session with ⟨r, t⟩
  rw [hd] at hfinish
  obtain ⟨rfl, v, rfl⟩ := hfinish
  exact ⟨v, rfl⟩

/-- A call that waits to be finished is the innermost one. -/
theorem Session.Sound.exists_returning {s : Session} {r : Address} (hs : s.Sound r) (h : ¬s.Running) :
    ∃ c calls, s.sites = c :: calls ∧ c.returning = true := by
  by_contra hno
  refine h fun c hc => Bool.eq_false_iff.2 fun hret => hno ?_
  cases hcs : s.sites with
  | nil =>
    rw [hcs] at hc
    cases hc
  | cons d calls =>
    rw [hcs] at hc
    rcases List.mem_cons.1 hc with rfl | hc
    · exact ⟨_, _, rfl, hret⟩
    · have := hs.running c (by rw [hcs]; exact hc)
      cases hret.symm.trans this

/-- A session without a call that has ended is ready for its next command. -/
theorem Session.Sound.ready {s : Session} {r : Address} (h : s.Sound r) (hp : s.pending = none)
    (hr : s.Running) : s.Ready where
  toFitted := h.toFitted
  pending := hp
  running c calls hc := hr c.site (by rw [Session.sites, hc]; exact List.mem_cons_self)

/-- **A command is a step by itself** unless it fails, and then its fault has the reference of the command once
it was attached. -/
theorem World.runCommand_cases {r : Except Fault Unit} {w' : World σ} (h : w.session.Sound a)
    (hp : w.session.pending = none) (hc : w.session.current = some a) (hrun : w.runCommand g host a = (r, w')) :
    r = .ok () ∧ Step g a w.session .done w'.session ∨
      ∃ f f', r = .error f' ∧ w.session.Ready ∧ Move a w.session (.error f) w'.session ∧
        f'.attach (w.session.suite.commandRef a) = f.attach (w.session.suite.commandRef a) := by
  by_cases hr : w.session.Running
  · have hready := h.ready hp hr
    obtain ⟨r₀, hmove, hres⟩ := runCommand_move g host hready hc
    rw [hrun] at hmove hres
    rcases hres with ⟨rfl, rfl⟩ | ⟨f, f', rfl, rfl, hsame⟩
    · exact .inl ⟨rfl, .move hready hmove⟩
    · exact .inr ⟨f, f', rfl, hready, hmove, hsame⟩
  · obtain ⟨c, calls, hcs, hret⟩ := h.exists_returning hr
    obtain ⟨v, hfinish⟩ := runCommand_finish (g := g) h hc hcs hret
    obtain ⟨rfl, rfl⟩ := Prod.mk.inj (hrun.symm.trans hfinish)
    exact .inl ⟨rfl, .finish hcs hret⟩

/-- What becomes of a fault that is offered to the tries, with the reference of the command that is running. -/
theorem World.handleFault_offer {f : Fault} {d : Disposition} {w' : World σ} (hf : w.session.Fitted)
    (hoffer : w.handleFault g f = (d, w')) : Offer g (w.session.blame f) w.session d w'.session := by
  have ho := Flow.handleFault_offer g f hf
  unfold World.handleFault at hoffer
  rcases hh : Flow.handleFault g f w.session with ⟨d', t⟩
  rw [hh] at ho hoffer
  obtain ⟨rfl, rfl⟩ := Prod.mk.inj hoffer
  exact ho

/-- **Every step of a run** is one of those that are listed. -/
theorem step_step (h : w.session.Sound a) (hp : w.session.pending = none)
    (hc : w.session.current = some a) :
    Step g a w.session (w.step g host a).1 (w.step g host a).2.session := by
  unfold World.step
  rcases hrun : w.runCommand g host a with ⟨r, w'⟩
  rcases World.runCommand_cases h hp hc hrun with ⟨rfl, hstep⟩ | ⟨f, f', rfl, hready, hm, hsame⟩
  · exact hstep
  · have hfitted := (hm.sound hready h).toFitted
    have hblame : w'.session.blame f' = f.attach (w.session.suite.commandRef a) := by
      rw [Session.blame, hm.kept.2.1, hc, hm.kept.1]
      exact hsame
    dsimp only
    rcases hoffer : w'.handleFault g f' with ⟨d, w''⟩
    have ho := World.handleFault_offer hfitted hoffer
    rw [hblame] at ho
    cases d with
    | handled => exact .handled hready hm hsame ho
    | unhandled f'' => exact .unhandled hready hm ho

end

/-! ## 2. Moments -/

/-- The world between two commands, with the address that follows the last one in its unit. -/
structure Moment (σ : Type) where
  world : World σ
  following : Address

/-- The session that is about to run the command at an address, if there is one. -/
def Session.poise (s : Session) (a? : Option Address) : Session :=
  { s with pending := none, current := a? }

namespace Moment

variable {σ : Type} (g : Setting) (host : Host σ) (m : Moment σ)

/-- The session of the moment. -/
def session : Session := m.world.session

/-- Where the run goes on. -/
def place : Address := m.session.pending.getD m.following

/-- The command that runs next. -/
def next? : Option Address := m.session.pending <|> m.session.suite.present? m.following

/-- The world that is about to run the next command. -/
def poised : World σ := { m.world with session := m.session.poise m.next? }

/-- Runs the next command: what became of it, and the moment after it. -/
def advance : Option (StepResult × Moment σ) :=
  m.next?.map fun a => ((m.poised.step g host a).1, ⟨(m.poised.step g host a).2, a.next⟩)

/-- The moment at which a run of a suite begins: nothing is running, and the run goes on at the first
command of a unit. -/
def Starts : Prop := ∃ units suite vars σ' unit, Suite.compile units = .ok suite ∧
  m = ⟨⟨{ Session.fresh suite with vars }, σ'⟩, ⟨unit, 0⟩⟩

end Moment

/-- **The moments that a run comes to**, each of which the run goes on from. -/
inductive Reachable {σ : Type} (g : Setting) (host : Host σ) (m₀ : Moment σ) : Moment σ → Prop
  | start : Reachable g host m₀ m₀
  | step {m m' : Moment σ} {x : StepResult} (reached : Reachable g host m₀ m)
      (advance : m.advance g host = some (x, m')) (handled : ∀ f, x ≠ .unhandled f)
      (goesOn : m'.session.exitRequested = false) : Reachable g host m₀ m'

section

variable {σ : Type} {g : Setting} {host : Host σ} {m₀ m m' : Moment σ} {x : StepResult}

theorem Session.Sound.poise {s : Session} {r : Address} (h : s.Sound r) (a? : Option Address) :
    (s.poise a?).Sound r :=
  ⟨⟨h.nested, h.fits, h.counted⟩, h.calls, h.running, h.returning, h.ledger⟩

theorem Moment.Starts.sound (h : m.Starts) : m.session.Sound m.place := by
  obtain ⟨units, suite, vars, σ', unit, hsuite, rfl⟩ := h
  refine ⟨⟨Suite.nested_of_compile hsuite, nofun, rfl⟩, nofun, nofun, nofun, ⟨.nil, nofun, nofun⟩⟩

theorem Moment.place_of_next? {a : Address} (h : m.next? = some a) : m.place = a := by
  unfold Moment.next? at h
  unfold Moment.place
  cases hp : m.session.pending with
  | some p =>
    rw [hp] at h
    exact Option.some.inj h
  | none =>
    rw [hp] at h
    obtain ⟨c, -, rfl⟩ := Option.map_eq_some_iff.1 h
    rfl

/-- What one command does at a moment. -/
theorem Moment.step_of_advance (h : m.session.Sound m.place) (ha : m.advance g host = some (x, m')) :
    ∃ a, m.next? = some a ∧ m.place = a ∧ m'.following = a.next ∧
      Step g a (m.session.poise (some a)) x m'.session := by
  obtain ⟨a, hnext, heq⟩ := Option.map_eq_some_iff.1 ha
  cases heq
  have hplace := m.place_of_next? hnext
  refine ⟨a, hnext, hplace, rfl, ?_⟩
  have hs : (m.session.poise (some a)).Sound a := hplace ▸ h.poise _
  have hw : m.poised = { m.world with session := m.session.poise (some a) } := by
    rw [Moment.poised, hnext]
  rw [hw]
  exact step_step (w := { m.world with session := m.session.poise (some a) }) hs rfl rfl

/-- **Every moment of a run is sound.** -/
theorem Reachable.sound (h : Reachable g host m₀ m) (hm₀ : m₀.Starts) : m.session.Sound m.place := by
  induction h with
  | start => exact hm₀.sound
  | step reached advance handled goesOn ih =>
    obtain ⟨a, -, hplace, hfollow, hstep⟩ := Moment.step_of_advance ih advance
    rw [Moment.place, hfollow]
    exact hstep.sound (hplace ▸ ih.poise _) handled

/-- The session that is about to run the next command of a moment is sound. -/
theorem Reachable.sound_poise (h : Reachable g host m₀ m) (hm₀ : m₀.Starts) {a : Address}
    (ha : m.next? = some a) : (m.session.poise (some a)).Sound a :=
  m.place_of_next? ha ▸ (h.sound hm₀).poise _

/-- A run that goes on was not asked to end. -/
theorem Reachable.exitRequested {m₀ m : Moment σ} (h : Reachable g host m₀ m) (hm₀ : m₀.Starts) :
    m.session.exitRequested = false := by
  cases h with
  | start =>
    obtain ⟨units, suite, vars, σ', unit, -, rfl⟩ := hm₀
    rfl
  | step reached advance handled goesOn => exact goesOn

/-- **What every command keeps** holds at all moments of a run. -/
theorem Reachable.invariant {P : Session → Address → Prop} (h : Reachable g host m₀ m)
    (hm₀ : m₀.Starts) (poise : ∀ {s : Session} {r : Address} a?, P s r → P (s.poise a?) r)
    (initially : P m₀.session m₀.place)
    (preserved : ∀ {m : Moment σ} {s' : Session} {a : Address} {x : StepResult},
      Reachable g host m₀ m → m.next? = some a → P (m.session.poise (some a)) a →
      Step g a (m.session.poise (some a)) x s' → (∀ f, x ≠ .unhandled f) →
      s'.exitRequested = false → P s' (s'.pending.getD a.next)) :
    P m.session m.place := by
  induction h with
  | start => exact initially
  | step reached advance handled goesOn ih =>
    obtain ⟨a, ha, hplace, hfollow, hstep⟩ := Moment.step_of_advance (reached.sound hm₀) advance
    rw [Moment.place, hfollow]
    exact preserved reached ha (hplace ▸ poise _ ih) hstep handled goesOn

/-- The moments of a run are over one suite. -/
theorem Reachable.suite (h : Reachable g host m₀ m) (hm₀ : m₀.Starts) : m.session.suite = m₀.session.suite := by
  refine h.invariant (P := fun s _ => s.suite = m₀.session.suite) hm₀ (fun _ h => h) rfl ?_
  intro m s' a x _ _ hsuite hstep _ _
  exact hstep.kept.1.trans hsuite

/-- A run keeps the suite that its units compile to. -/
theorem Reachable.compiled (h : Reachable g host m₀ m) (hm₀ : m₀.Starts) :
    Suite.compile m.session.suite.units = .ok m.session.suite := by
  rw [h.suite hm₀]
  obtain ⟨units, suite, vars, σ', unit, hsuite, rfl⟩ := hm₀
  obtain rfl := Suite.units_of_compile hsuite
  exact hsuite

/-! ## 3. Runs that pass -/

/-- The moment at which a run of a world begins in a unit. -/
def Moment.first (w : World σ) (unit : Nat) : Moment σ :=
  ⟨{ w with session := w.session.beforeRun.2 }, ⟨unit, 0⟩⟩

/-- A run begins afresh if its units compile; if not then only the tables change. -/
theorem Session.beforeRun_cases (s : Session) :
    (∃ e tables, s.beforeRun = (some e, { s with suite.tables := tables })) ∨
      ∃ suite, Suite.compile s.suite.units = .ok suite ∧
        s.beforeRun = (none, { Session.fresh suite with vars := s.vars }) := by
  unfold Session.beforeRun
  rcases hu : Tables.ofUnits s.suite.units with ⟨tables, e | _⟩
  · exact .inr ⟨⟨s.suite.units, tables⟩, by rw [Suite.compile, hu], rfl⟩
  · exact .inl ⟨_, tables, rfl⟩

theorem starts_first {w : World σ} (h : w.session.beforeRun.1 = none) (unit : Nat) :
    (Moment.first w unit).Starts := by
  rcases w.session.beforeRun_cases with ⟨e, tables, hrun⟩ | ⟨suite, hsuite, hrun⟩
  · rw [hrun] at h
    cases h
  · exact ⟨_, suite, w.session.vars, w.host, unit, hsuite, by rw [Moment.first, hrun]⟩

/-- A run that goes on after its first command comes to the moments after it. -/
theorem Reachable.head {m₁ : Moment σ} (h : Reachable g host m₁ m)
    (advance : m₀.advance g host = some (x, m₁)) (handled : ∀ f, x ≠ .unhandled f)
    (goesOn : m₁.session.exitRequested = false) : Reachable g host m₀ m := by
  induction h with
  | start => exact .step .start advance handled goesOn
  | step _ advance handled goesOn ih => exact .step ih advance handled goesOn

/-- **A run comes to a moment at which it ends**: one without a next command, or one whose command fails
with a fault that no try handles; it may also be asked to end, or run out of steps. -/
inductive Moment.Concludes (g : Setting) (host : Host σ) (m : Moment σ) : Outcome → World σ → Prop
  | passed (next : m.next? = none) : Concludes g host m .passed m.poised
  | failed {f : Fault} {m' : Moment σ} {w' : World σ} (advance : m.advance g host = some (.unhandled f, m')) :
      Concludes g host m (.failed f) w'
  | exhausted {f : Fault} {w' : World σ} (code : f.code = "API_STEP_LIMIT") : Concludes g host m (.failed f) w'
  | exited {w' : World σ} : Concludes g host m .exited w'

theorem exists_moment_of_drive {maxSteps left : Nat} {w w' : World σ} {following : Address}
    {report : Report}
    (h : w.drive g host maxSteps left (w.session.suite.present? following) = (report, w')) :
    ∃ m, Reachable g host ⟨w, following⟩ m ∧ m.Concludes g host report.outcome w' := by
  induction left generalizing w following with
  | zero =>
    unfold World.drive at h
    rw [show w.next (w.session.suite.present? following) =
      ((⟨w, following⟩ : Moment σ).next?, (⟨w, following⟩ : Moment σ).poised) from rfl] at h
    refine ⟨_, .start, ?_⟩
    cases hn : (⟨w, following⟩ : Moment σ).next? with
    | none =>
      rw [hn] at h
      obtain ⟨rfl, rfl⟩ := Prod.mk.inj h
      exact .passed hn
    | some a =>
      rw [hn] at h
      obtain ⟨rfl, -⟩ := Prod.mk.inj h
      exact .exhausted (Fault.code_attach _ _)
  | succ left ih =>
    unfold World.drive at h
    rw [show w.next (w.session.suite.present? following) =
      ((⟨w, following⟩ : Moment σ).next?, (⟨w, following⟩ : Moment σ).poised) from rfl] at h
    cases hn : (⟨w, following⟩ : Moment σ).next? with
    | none =>
      rw [hn] at h
      obtain ⟨rfl, rfl⟩ := Prod.mk.inj h
      exact ⟨_, .start, .passed hn⟩
    | some a =>
      rw [hn] at h
      dsimp only at h
      have hadv : (⟨w, following⟩ : Moment σ).advance g host = some
          (((⟨w, following⟩ : Moment σ).poised.step g host a).1,
            ⟨((⟨w, following⟩ : Moment σ).poised.step g host a).2, a.next⟩) := by
        rw [Moment.advance, hn]
        rfl
      rcases hst : (⟨w, following⟩ : Moment σ).poised.step g host a with ⟨x, t⟩
      rw [hst] at h hadv
      have hgo (hx : ∀ f, x ≠ .unhandled f) (hex : t.session.exitRequested = false)
          (h : t.drive g host maxSteps left (t.session.suite.successor? a) = (report, w')) :
          ∃ m, Reachable g host ⟨w, following⟩ m ∧ m.Concludes g host report.outcome w' := by
        obtain ⟨m, hm, hends⟩ := ih h
        exact ⟨m, hm.head hadv hx hex, hends⟩
      cases x with
      | unhandled f =>
        obtain ⟨rfl, -⟩ := Prod.mk.inj h
        exact ⟨_, .start, .failed hadv⟩
      | done =>
        dsimp only at h
        split at h
        · obtain ⟨rfl, -⟩ := Prod.mk.inj h
          exact ⟨_, .start, .exited⟩
        · exact hgo nofun (Bool.eq_false_iff.2 ‹_›) h
      | handled f =>
        dsimp only at h
        split at h
        · obtain ⟨rfl, -⟩ := Prod.mk.inj h
          exact ⟨_, .start, .exited⟩
        · exact hgo nofun (Bool.eq_false_iff.2 ‹_›) h

/-- A run from an entry unit comes to a moment at which it ends. -/
theorem exists_moment_of_run {w w' : World σ} {options : RunOptions} {report : Report}
    (h : w.run g host options = (.ok report, w')) :
    ∃ unit m, w.session.beforeRun.2.suite.entry options.entry = .ok unit ∧
      (Moment.first w unit).Starts ∧ Reachable g host (Moment.first w unit) m ∧
      m.Concludes g host report.outcome w' := by
  unfold World.run at h
  split at h
  · cases h
  · rename_i session hb
    dsimp only at h
    split at h
    · cases h
    · rename_i unit hu
      rcases hd : World.drive g host options.maxSteps options.maxSteps
        (session.suite.present? ⟨unit, 0⟩) { w with session } with ⟨report', t⟩
      rw [hd] at h
      obtain ⟨hr, rfl⟩ := Prod.mk.inj h
      cases hr
      obtain ⟨m, hm, hends⟩ := exists_moment_of_drive (w := { w with session }) hd
      have hfirst : Moment.first w unit = ⟨{ w with session }, ⟨unit, 0⟩⟩ := by rw [Moment.first, hb]
      exact ⟨unit, m, by rw [hb]; exact hu, starts_first (by rw [hb]) unit, hfirst ▸ hm, hends⟩

/-- **A run that passes** comes to a moment without a next command, and does nothing more. -/
theorem exists_moment_of_passed {w w' : World σ} {options : RunOptions} {report : Report}
    (h : w.run g host options = (.ok report, w')) (hp : report.outcome = .passed) :
    ∃ unit m, w.session.beforeRun.2.suite.entry options.entry = .ok unit ∧
      (Moment.first w unit).Starts ∧ Reachable g host (Moment.first w unit) m ∧ m.next? = none ∧
      w' = m.poised := by
  obtain ⟨unit, m, hentry, hm₀, hreach, hends⟩ := exists_moment_of_run h
  rw [hp] at hends
  cases hends with
  | passed next => exact ⟨unit, m, hentry, hm₀, hreach, next, rfl⟩

end

/-! ## 4. Moments after a number of commands -/

namespace Moment

/-- The moment after a number of commands, unless the run ends before it. -/
def after? {σ : Type} (g : Setting) (host : Host σ) (m : Moment σ) : Nat → Option (Moment σ)
  | 0 => some m
  | n + 1 =>
    match m.advance g host with
    | none | some (.unhandled _, _) => none
    | some (_, m') => if m'.session.exitRequested then none else m'.after? g host n

/-- The moment at which a run of units begins in the first one, with a host that has no state. -/
def ofUnits (units : List ScriptUnit) : Except CompileError (Moment Unit) :=
  (Session.ofUnits units).map fun s => ⟨⟨s, ()⟩, ⟨0, 0⟩⟩

end Moment

/-- The moments that a run comes to are those after some number of commands. -/
theorem reachable_of_after? {σ : Type} {g : Setting} {host : Host σ} {m₀ m : Moment σ} {n : Nat}
    (h : m₀.after? g host n = some m) : Reachable g host m₀ m := by
  induction n generalizing m₀ with
  | zero =>
    cases h
    exact .start
  | succ n ih =>
    unfold Moment.after? at h
    split at h
    · cases h
    · cases h
    · rename_i x m' hx hadv
      split at h
      · cases h
      · exact (ih h).head hadv hx (Bool.eq_false_iff.2 ‹_›)

/-- One command more. -/
theorem after?_succ {σ : Type} {g : Setting} {host : Host σ} {m m₁ m₂ : Moment σ} {n : Nat} {x : StepResult}
    (h : m.after? g host n = some m₁)
    (hadv : m₁.advance g host = some (x, m₂)) (hx : ∀ f, x ≠ .unhandled f)
    (hexit : m₂.session.exitRequested = false) : m.after? g host (n + 1) = some m₂ := by
  induction n generalizing m with
  | zero =>
    cases h
    unfold Moment.after?
    rw [hadv]
    cases x with
    | unhandled f => exact absurd rfl (hx f)
    | done | handled =>
      dsimp only
      rw [if_neg (by simp [hexit])]
      rfl
  | succ n ih =>
    unfold Moment.after? at h ⊢
    cases hfirst : m.advance g host with
    | none =>
      rw [hfirst] at h
      cases h
    | some r =>
      obtain ⟨y, m₀⟩ := r
      rw [hfirst] at h
      cases y with
      | unhandled f => cases h
      | done | handled =>
        dsimp only at h ⊢
        split at h
        · cases h
        · rename_i hgo
          rw [if_neg hgo]
          exact ih h

theorem starts_ofUnits {units : List ScriptUnit} {m : Moment Unit} (h : Moment.ofUnits units = .ok m) :
    m.Starts := by
  unfold Moment.ofUnits Session.ofUnits at h
  cases hs : Suite.compile units with
  | error e =>
    rw [hs] at h
    cases h
  | ok suite =>
    rw [hs] at h
    cases h
    exact ⟨units, suite, ∅, (), 0, hs, rfl⟩

/-- A setting in which every expression holds. -/
def Setting.trivial : Setting := ⟨fun _ vars => (.ok (.bool true), vars), {}, none⟩

/-- A setting in which every expression holds until a variable is bound. -/
def Setting.holdsUntil (name : String) : Setting :=
  ⟨fun _ vars => (.ok (.bool (vars.get? name).isNone), vars), {}, none⟩

/-- A host that does nothing. -/
def silent : Host Unit := ⟨fun _ _ σ vars => (.ok (), σ, vars)⟩

/-- A host whose commands bind a variable. -/
def binding (name : String) : Host Unit := ⟨fun _ _ σ vars => (.ok (), σ, vars.insert name .null)⟩

end BlockFlow.Flow
