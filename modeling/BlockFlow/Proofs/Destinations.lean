/-
# Where commands go on

A session that goes on elsewhere than at the next command goes on at a command: `Session.Aims`.  A part of a
construct, an opener, a closer, a call and a command that transfers control are all commands of the suite, and
so is what has a label; only the number of commands that `skipNext` passes over is checked while the suite runs.

`World.aims_step` says that every step leaves a session that aims, and `Reachable.aims` that every moment of a
run does; so the next command of a run is always there (`Reachable.hasCommand`).
-/
import BlockFlow.Proofs.BlockMap
import BlockFlow.Proofs.Layers

namespace BlockFlow

/-! ## 1. Addresses of commands -/

namespace Suite

variable {s : Suite} {a o p : Address}

/-- There is a command at an address. -/
def HasCommand (s : Suite) (a : Address) : Prop := ∃ c, s.commandAt? a = some c

theorem hasCommand_of_keywordAt? {k : Keyword} (hk : s.keywordAt? a = some k) : s.HasCommand a := by
  obtain ⟨c, hc, -⟩ := Flow.commandAt?_of_keywordAt? hk
  exact ⟨c, hc⟩

theorem Nested.hasCommand (hn : s.Nested) {b : Block} (hb : s.blockAt? a = some b) : s.HasCommand a :=
  hasCommand_of_keywordAt? (hn.keyword hb)

theorem IsPart.hasCommand (h : s.IsPart o p) (hn : s.Nested) : s.HasCommand p := by
  obtain ⟨c, hc, -⟩ := h
  exact hn.hasCommand hc

theorem Construct.hasCommand {e : Address} (h : s.Construct o e) (hn : s.Nested) : s.HasCommand e :=
  (hn.isPart_closer h).hasCommand hn

theorem Opens.hasCommand {n : Nature} (h : s.Opens n o) (hn : s.Nested) : s.HasCommand o := by
  obtain ⟨b, hb, -⟩ := h
  exact hn.hasCommand hb

/-- The table of labels lists what the units label. -/
theorem labels_declared (h : Suite.compile s.units = .ok s) {key : LabelKey}
    (ha : s.tables.labels.get? key = some a) : Labels s.units key a := by
  obtain ⟨-, -, hordered⟩ :=
    (Draft.invariant_ordered s.units).compile h ⟨sound_nil s.units, ordered_nil s.units⟩
  exact ((hordered.labels key a).1 ha).2

/-- What has a label is a command. -/
theorem hasCommand_of_label (h : Suite.compile s.units = .ok s) {key : LabelKey}
    (ha : s.tables.labels.get? key = some a) : s.HasCommand a := by
  obtain ⟨label, ⟨c, hc, -⟩, -⟩ := labels_declared h ha
  exact ⟨c, hc⟩

end Suite

namespace Flow

/-- **The session goes on at a command**, if not at the next one. -/
def Session.Aims (s : Session) : Prop := ∀ p, s.pending = some p → s.suite.HasCommand p

theorem Session.aims_of_none {s : Session} (h : s.pending = none) : s.Aims := by
  rintro p hp
  cases h.symm.trans hp

/-! ## 2. Jumps -/

section

open BlockFlow.Flow.Action

variable {g : Setting} {a : Address} {s s' : Session}

/-- The commands that jump. -/
def jumps : List Keyword := [.goto, .gotoIf, .skipNext]

theorem jump_aims {goal : Address} (h : s.Aims) (hgoal : s.suite.HasCommand goal) :
    (jump a goal).Ends s fun _ t => t.Aims := by
  unfold jump
  rw [ends_bind, ends_ask]
  dsimp only
  split
  · exact h
  · rw [ends_change]
    rintro p ⟨⟩
    rw [show (Session.branch _ goal).suite = s.suite from s.suite_setBlocks _]
    exact hgoal

theorem goto_aims (hsuite : Suite.compile s.suite.units = .ok s.suite) (h : s.Aims) (label : String) :
    (goto a label).Ends s fun _ t => t.Aims := by
  unfold goto
  dsimp only
  rw [ends_bind, ends_ask]
  dsimp only
  split
  · rename_i hgoal
    exact jump_aims h (Suite.hasCommand_of_label hsuite hgoal)
  · exact h

theorem skipNext_aims (h : s.Aims) (spec : String) : (skipNext g a spec).Ends s fun _ t => t.Aims := by
  unfold skipNext
  rw [ends_bind]
  refine (OnlyVars.skipCount g spec).ends fun r v => ?_
  cases r with
  | error f => exact h
  | ok count =>
    dsimp only
    split
    · exact h
    · rw [ends_bind, ends_ask]
      dsimp only
      split
      · exact h
      · rename_i goal hgoal
        obtain ⟨rfl, hsome⟩ := Address.check_eq_ok_iff.1 hgoal
        exact jump_aims (s := s.withVars v) h (Option.isSome_iff_exists.1 hsome)

/-- **A command that jumps goes on at a command.** -/
theorem dispatch_jump_aims (hsuite : Suite.compile s.suite.units = .ok s.suite) (h : s.Aims)
    (hk : ∃ k ∈ jumps, s.suite.keywordAt? a = some k) : (dispatch g a).Ends s fun _ t => t.Aims := by
  obtain ⟨k, hmem, hk⟩ := hk
  obtain ⟨c, hc, hof⟩ := commandAt?_of_keywordAt? hk
  unfold dispatch
  rw [ends_bind, ends_ask]
  dsimp only
  rw [show Command.locate s.suite.units a = .ok c from Command.locate_eq_ok_iff.2 hc]
  dsimp only
  rw [hof]
  simp only [jumps, List.mem_cons, List.not_mem_nil, or_false] at hmem
  rcases hmem with rfl | rfl | rfl
  · exact goto_aims hsuite h _
  · change (gotoIf g a _ _).Ends s _
    unfold gotoIf
    rw [ends_bind]
    refine (OnlyVars.condition g _).ends fun r v => ?_
    cases r with
    | error f => exact h
    | ok held =>
      dsimp only
      split
      · exact goto_aims (s := s.withVars v) hsuite h _
      · exact h
  · exact skipNext_aims h _

/-! ## 3. Moves and offers -/

/-- A cleanup section that a transfer waits for begins with a command. -/
theorem Suspends.aims {origin : Address} {goal : Goal} (m : Suspends origin goal s s') (h : s.Fitted) : s'.Aims := by
  have hsuite := m.kept.1
  obtain ⟨clean, blocks, owes, section_⟩ := m
  rename_i k n t rest p v
  have hfit : Frame.Fits s.suite (.guarded t) := by
    have := ((h.abortCalls k).drop n).top blocks
    rwa [((s.kept_abortCalls k).trans (Session.kept_drop _ n)).suite] at this
  rintro _ ⟨⟩
  rw [hsuite]
  exact (isPart_of_finallyOf? h.nested hfit section_).hasCommand h.nested

/-- **A command goes on at a command**, if it does so where it jumps. -/
theorem Move.aims {r : Except Fault Unit} (m : Move a s r s') (hready : s.Ready) (h : s.Sound a)
    (hjump : (∃ k ∈ jumps, s.suite.keywordAt? a = some k) → s'.Aims) : s'.Aims := by
  have hn := h.nested
  have hsuite := m.kept.1
  have hpart {o : Address} {p? : Option Address} (hp : ∀ p, p? = some p → s.suite.IsPart o p) :
      ∀ p, p? = some p → s'.suite.HasCommand p := by
    intro p hp?
    rw [hsuite]
    exact (hp p hp?).hasCommand hn
  cases m with
  | stay | enterTry | leave | reachFinally | closeTry | rethrow | replace | adrift | exit =>
    exact Session.aims_of_none rfl
  | jump unlinked keyword accepted => exact hjump keyword
  | enter fits opener noTry fresh again part => exact hpart part
  | branch top at_ open_ opener untried part => exact hpart part
  | again top at_ reentering opener saved done part => exact hpart part
  | skipHandler top at_ handler phase part last =>
    rintro _ ⟨⟩
    exact part.hasCommand hn
  | @resume t rest d ds origin goal v resumes =>
    rintro _ ⟨⟩
    have hcarried := h.ledger.carried d (by rw [resumes.deferred]; exact List.mem_cons_self) _ _ resumes.work
    obtain ⟨k, hk, -⟩ := Option.bind_eq_some_iff.1 hcarried.1
    rw [hsuite]
    exact Suite.hasCommand_of_keywordAt? hk
  | resuspend top closer active deferred resumeAt depth work suspends =>
    have hf := h.toFitted.leaveTry top
    exact suspends.aims ⟨hf.nested, hf.fits, hf.counted⟩
  | suspend transfers stays suspends => exact suspends.aims h.toFitted
  | repeat_ top closer =>
    rintro _ ⟨⟩
    rw [hsuite]
    exact (h.toFitted.top top).1.hasCommand hn
  | breakLoop transfers stays clear top closer =>
    rintro _ ⟨⟩
    rw [hsuite]
    exact closer.hasCommand hn
  | continueLoop transfers stays clear top =>
    rintro _ ⟨⟩
    obtain ⟨b, e, hb, -⟩ := hready.exists_closer top
    rw [hsuite]
    exact hn.hasCommand hb
  | @returnFrom c calls v transfers stays clear call =>
    rintro _ ⟨⟩
    have hgenuine := h.calls c.site (by rw [Session.sites, call]; exact List.mem_cons_self)
    rw [hsuite]
    exact Suite.hasCommand_of_keywordAt? hgenuine.keyword
  | enterCall keyword opens names =>
    rintro _ ⟨⟩
    exact opens.hasCommand hn
  | skipFunction opens closer callee =>
    rintro _ ⟨⟩
    exact closer.hasCommand hn

/-- A try that takes part in a fault goes on at a command. -/
theorem Offer.aims {f : Fault} {d : Disposition} (o : Offer g f s d s') (h : s.Fitted) (haims : s.Aims) : s'.Aims := by
  have hn := h.nested
  have hsuite := o.kept.1
  have hfits {k n : Nat} {t : TryFrame} {rest : List Frame} (hr : s.Reaches k n t rest) :
      Frame.Fits s.suite (.guarded t) := h.fits _ hr.mem_frames
  cases o with
  | refused => exact haims
  | caught catchable reaches catches message =>
    rintro _ ⟨⟩
    have hcatch := catches.1
    rw [show (Session.pruneDeferred _).suite = s.suite from reaches.kept.suite] at hcatch
    rw [hsuite]
    exact (isPart_of_catchOf? hn (hfits reaches) hcatch).1.hasCommand hn
  | cleaned catchable reaches uncaught section_ uncleaned =>
    rintro _ ⟨⟩
    rw [hsuite]
    exact (isPart_of_finallyOf? hn (hfits reaches) section_).hasCommand hn
  | passed catchable reaches uncaught done nesting closer =>
    rintro _ ⟨⟩
    rw [hsuite]
    exact closer.hasCommand hn
  | @spent k n t rest v catchable reaches uncaught done nesting =>
    have hpend : (((s.abortCalls k).drop n).detain f t rest).pending = s.pending := by
      rw [Session.detain, (Session.kept_setBlocks _ _).pending]
      exact reaches.kept.pending
    intro p hp
    rw [hsuite]
    exact haims p (hpend.symm.trans hp)

end

/-! ## 4. Steps and runs -/

section

variable {σ : Type} {g : Setting} {host : Host σ} {m₀ m m' : Moment σ} {a : Address} {x : StepResult}

namespace World

variable {w : World σ}

/-- Whatever command runs, the session goes on at a command. -/
theorem aims_runCommand (hsuite : Suite.compile w.session.suite.units = .ok w.session.suite)
    (h : w.session.Sound a) (hready : w.session.Ready) (hc : w.session.current = some a) :
    (w.runCommand g host a).2.session.Aims := by
  obtain ⟨r, hm, -⟩ := runCommand_move g host hready hc
  refine hm.aims hready h fun hk => ?_
  have haims := Session.aims_of_none hready.pending
  have hexec : (w.execute g a).2.session.Aims := by
    have hjump := dispatch_jump_aims (g := g) hsuite haims hk
    have hcur : { w.session with current := some a } = w.session := by rw [← hc]
    unfold World.execute Session.execute
    rw [hcur]
    unfold Action.Ends at hjump
    rcases hd : dispatch g a w.session with ⟨_ | _, t⟩ <;> rw [hd] at hjump <;> exact hjump
  obtain ⟨k, -, hk⟩ := hk
  obtain ⟨c, hcmd, hof⟩ := commandAt?_of_keywordAt? hk
  unfold World.runCommand
  rw [hcmd]
  dsimp only
  rwa [show handles c.name = true by simp [handles, hof], if_pos rfl]

/-- **Every step goes on at a command.** -/
theorem aims_step (hsuite : Suite.compile w.session.suite.units = .ok w.session.suite) (h : w.session.Sound a)
    (hp : w.session.pending = none) (hc : w.session.current = some a) : (w.step g host a).2.session.Aims := by
  by_cases hr : w.session.Running
  · have hready := h.ready hp hr
    have haims : (w.runCommand g host a).2.session.Aims := aims_runCommand hsuite h hready hc
    obtain ⟨r, hm, -⟩ := runCommand_move g host hready hc
    have hfitted := (hm.sound hready h).toFitted
    unfold World.step
    rcases hrun : w.runCommand g host a with ⟨f | _, w'⟩ <;> rw [hrun] at haims hfitted
    · dsimp only
      rcases hoffer : w'.handleFault g f with ⟨_ | _, w''⟩ <;>
        exact (World.handleFault_offer hfitted hoffer).aims hfitted haims
    · exact haims
  · obtain ⟨c, calls, hcs, hret⟩ := h.exists_returning hr
    obtain ⟨v, hrun⟩ := runCommand_finish (g := g) h hc hcs hret
    rw [World.step, hrun]
    exact Session.aims_of_none (w.session.kept_abortCall.pending.trans hp)

end World

/-- **Every address that a run branches to is one of a command.** -/
theorem Moment.aims_of_advance (hm₀ : m₀.Starts) (hreach : Reachable g host m₀ m)
    (hadv : m.advance g host = some (x, m')) : m'.session.Aims := by
  obtain ⟨a, ha, heq⟩ := Option.map_eq_some_iff.1 hadv
  obtain ⟨-, rfl⟩ := Prod.mk.inj heq
  have hposed : m.poised.session = m.session.poise (some a) := by rw [Moment.poised, ha]
  refine World.aims_step (w := m.poised) ?_ ?_ ?_ ?_ <;> rw [hposed]
  · exact hreach.compiled hm₀
  · exact hreach.sound_poise hm₀ ha
  · rfl
  · rfl

theorem Reachable.aims (hreach : Reachable g host m₀ m) (hm₀ : m₀.Starts) : m.session.Aims := by
  cases hreach with
  | start =>
    obtain ⟨units, suite, vars, σ', unit, -, rfl⟩ := hm₀
    exact Session.aims_of_none rfl
  | step reached advance handled goesOn => exact Moment.aims_of_advance hm₀ reached advance

/-- **The next command of a run is there.** -/
theorem Reachable.hasCommand (hreach : Reachable g host m₀ m) (hm₀ : m₀.Starts) (ha : m.next? = some a) :
    m.session.suite.HasCommand a := by
  unfold Moment.next? at ha
  cases hp : m.session.pending with
  | some p =>
    rw [hp] at ha
    cases ha
    exact hreach.aims hm₀ _ hp
  | none =>
    rw [hp] at ha
    obtain ⟨c, hc, rfl⟩ := Option.map_eq_some_iff.1 ha
    exact ⟨c, hc⟩

end

end Flow

end BlockFlow
