/-
# Calls and returns

A call command is reached twice: once to make a call, and once more when the function has ended.  The two are
told apart by the innermost call alone, which is marked as ended and is finished by the next command.

`Turn` says what one command does to the calls that are running: it finishes the innermost one, makes one on
top of all others, marks the innermost one as ended, or ends some without going back to them.  Everything below
the innermost call stays as it is, so a call goes back to the calls that were running when it was made
(`Called`, `Reachable.exists_called`).
-/
import BlockFlow.Proofs.BlockMap
import BlockFlow.Proofs.Isolation

namespace BlockFlow

/-- The command at an address calls the function that another one declares. -/
def Suite.Calls (s : Suite) (a callee : Address) : Prop :=
  ∃ name, FlowAt s.units a .call name ∧ Declares s.units name callee

namespace Flow

/-! ## 1. Stacks of calls -/

/-- A call as it was made: without the constructs in it, and not ended. -/
def Call.made (c : Call) : Call := { c with blocks := [], returning := false }

/-- Calls and the constructs outside of them, after replacing the constructs of the innermost call, or those
outside if there is no call. -/
def renew (bs : List Frame) : List Call × List Frame → List Call × List Frame
  | ([], _) => ([], bs)
  | (c :: calls, base) => ({ c with blocks := bs } :: calls, base)

@[simp] theorem renew_renew (bs bs' : List Frame) (p : List Call × List Frame) :
    renew bs (renew bs' p) = renew bs p := by
  obtain ⟨_ | ⟨c, calls⟩, base⟩ := p <;> rfl

namespace Session

variable (s : Session)

/-- The calls that are running, and the constructs outside of them. -/
def callStack : List Call × List Frame := (s.calls, s.base)

@[simp] theorem renew_callStack : renew s.blocks s.callStack = s.callStack := by
  unfold callStack blocks
  cases h : s.calls <;> rfl

@[simp] theorem callStack_setBlocks (bs : List Frame) : (s.setBlocks bs).callStack = renew bs s.callStack := by
  unfold setBlocks callStack
  cases h : s.calls <;> rfl

@[simp] theorem callStack_drop (n : Nat) : (s.drop n).callStack = renew (s.blocks.drop n) s.callStack := by
  rw [← callStack_setBlocks, callStack, drop, calls_discardAll, base_discardAll, callStack]

@[simp] theorem base_abortCall : s.abortCall.base = s.base := by
  unfold abortCall
  split
  · rfl
  · exact base_discardAll s _

@[simp] theorem callStack_abortCalls (k : Nat) : (s.abortCalls k).callStack = (s.calls.drop k, s.base) := by
  have hbase : (s.abortCalls k).base = s.base := by
    induction k generalizing s with
    | zero => rfl
    | succ k ih => rw [abortCalls, ih, base_abortCall]
  rw [callStack, calls_abortCalls, hbase]

/-- Some calls are ended, and the constructs of the innermost one that is left may change. -/
def Cuts (s s' : Session) : Prop := ∃ k bs, s'.callStack = renew bs (s.calls.drop k, s.base)

variable {s} {s' : Session}

theorem Cuts.of_eq (h : s'.callStack = s.callStack) : s.Cuts s' := ⟨0, s.blocks, h.trans s.renew_callStack.symm⟩

theorem Cuts.trans {u : Session} (h : s.Cuts s') (h' : s'.Cuts u) : s.Cuts u := by
  obtain ⟨k, bs, h⟩ := h
  obtain ⟨j, bs', h'⟩ := h'
  obtain ⟨hcalls, hbase⟩ := Prod.mk.inj h
  rw [hcalls, hbase] at h'
  cases hd : s.calls.drop k with
  | nil => exact ⟨k, bs', by rw [h', hd, renew, List.drop_nil]; rfl⟩
  | cons c calls =>
    rw [hd] at h'
    cases j with
    | zero => exact ⟨k, bs', by rw [h', hd]; rfl⟩
    | succ j =>
      have hdrop : s.calls.drop (k + (j + 1)) = calls.drop j := by rw [← List.drop_drop, hd, List.drop_succ_cons]
      exact ⟨k + (j + 1), bs', by rw [h', hdrop]; rfl⟩

variable (s)

theorem cuts_setBlocks (bs : List Frame) : s.Cuts (s.setBlocks bs) := ⟨0, bs, s.callStack_setBlocks bs⟩

theorem cuts_drop (n : Nat) : s.Cuts (s.drop n) := ⟨0, _, s.callStack_drop n⟩

variable {s}

/-- Calls are ended and constructs are left, and the constructs that are left change. -/
theorem Cuts.of_abort {k n : Nat} {bs : List Frame}
    (h : s'.callStack = renew bs ((s.abortCalls k).drop n).callStack) : s.Cuts s' :=
  ⟨k, bs, by rw [h, callStack_drop, renew_renew, callStack_abortCalls]⟩

/-- A call that is running after calls were ended was running before, on the same calls. -/
theorem Cuts.exists_call (h : s.Cuts s') {inner outer : List Call} {c : Call}
    (hs : s'.calls = inner ++ c :: outer) : s'.base = s.base ∧
      ∃ inner' c', s.calls = inner' ++ c' :: outer ∧ c.made = c'.made := by
  obtain ⟨k, bs, h⟩ := h
  obtain ⟨hcalls, hbase⟩ := Prod.mk.inj h
  rw [hs] at hcalls
  cases hd : s.calls.drop k with
  | nil =>
    rw [hd] at hcalls
    cases inner <;> cases hcalls
  | cons d ds =>
    rw [hd] at hcalls hbase
    refine ⟨hbase, ?_⟩
    have hsplit : s.calls = s.calls.take k ++ d :: ds := by rw [← hd, List.take_append_drop]
    cases inner with
    | nil =>
      obtain ⟨rfl, rfl⟩ := List.cons.inj hcalls
      exact ⟨_, d, hsplit, rfl⟩
    | cons e inner =>
      obtain ⟨-, rfl⟩ := List.cons.inj hcalls
      exact ⟨s.calls.take k ++ d :: inner, c, hsplit.trans (List.append_assoc _ (d :: inner) _).symm, rfl⟩

/-- The innermost call has not ended where none has. -/
theorem Running.returning_eq_false (hr : s.Running) {c : Call} {outer : List Call} (hc : s.calls = c :: outer) :
    c.returning = false := hr c.site (by simp [sites, hc])

/-- Where calls are cut none has ended that was running. -/
theorem Cuts.running (h : s.Cuts s') (hr : s.Running) : s'.Running := by
  obtain ⟨k, bs, h⟩ := h
  obtain ⟨hcalls, -⟩ := Prod.mk.inj h
  have hrun : ∀ c ∈ s.calls.drop k, c.returning = false := fun c hc =>
    hr c.site (List.mem_map_of_mem (List.mem_of_mem_drop hc))
  intro d hd
  rw [sites, hcalls] at hd
  obtain ⟨c, hc, rfl⟩ := List.mem_map.1 hd
  cases hdrop : s.calls.drop k with
  | nil =>
    rw [hdrop] at hc
    cases hc
  | cons e calls =>
    rw [hdrop] at hc hrun
    rcases List.mem_cons.1 hc with rfl | hc
    · exact hrun e List.mem_cons_self
    · exact hrun c (List.mem_cons_of_mem e hc)

end Session

/-! ## 2. What one command does to the calls -/

/-- **What one command does** to the calls that are running. -/
inductive Turn (a : Address) (s : Session) : StepResult → Session → Prop
  /-- The innermost call has ended, and the command that made it takes it off. -/
  | finishes {c : Call} {s' : Session} (ended : c.returning = true) (command : c.returnTo = a)
      (calls : s.calls = c :: s'.calls) (base : s'.base = s.base) (pending : s'.pending = none) :
      Turn a s .done s'
  | makes {callee : Address} {saved : Namespace} {s' : Session} (running : s.Running)
      (keyword : s.suite.keywordAt? a = some .call) (names : ∃ c, s.suite.commandAt? a = some c ∧
        s.suite.tables.functions.get? (Text.trim c.target) = some callee)
      (calls : s'.calls = ⟨callee, a, saved, [], false⟩ :: s.calls) (base : s'.base = s.base)
      (pending : s'.pending = some callee) : Turn a s .done s'
  /-- The innermost call is marked as ended, and its command is next. -/
  | ends {c : Call} {calls : List Call} {s' : Session} (running : s.Running) (call : s.calls = c :: calls)
      (marked : s'.calls = { c with blocks := [], returning := true } :: calls) (base : s'.base = s.base)
      (pending : s'.pending = some c.returnTo) : Turn a s .done s'
  /-- Calls may be ended without going back to them. -/
  | cuts {x : StepResult} {s' : Session} (running : s.Running) (cuts : s.Cuts s') : Turn a s x s'

section

variable {g : Setting} {a : Address} {s s' : Session} {x : StepResult}

theorem Suspends.cuts {origin : Address} {goal : Goal} (h : Suspends origin goal s s') : s.Cuts s' := by
  obtain ⟨clean, blocks, owes, section_⟩ := h
  exact .of_abort (Session.callStack_setBlocks _ _)

theorem Offer.cuts {f : Fault} {d : Disposition} (h : Offer g f s d s') : s.Cuts s' := by
  cases h with
  | refused => exact .of_eq rfl
  | caught | cleaned | passed | spent => exact .of_abort (Session.callStack_setBlocks _ _)

/-- A command that moves the session makes a call, ends the innermost one, or cuts the calls. -/
theorem Move.turn {r : Except Fault Unit} (h : Move a s r s') (hr : s.Running) :
    (r = .ok () ∧ Turn a s .done s') ∨ s.Cuts s' := by
  cases h with
  | stay | skipHandler | skipFunction | replace | exit => exact .inr (.of_eq rfl)
  | jump | enter | enterTry | branch | reachFinally | closeTry | repeat_ | again | rethrow | resume =>
    exact .inr (s.cuts_setBlocks _)
  | leave | adrift => exact .inr (s.cuts_drop _)
  | @resuspend t rest d ds _ _ _ top closer active deferred resumeAt depth work suspends =>
    exact .inr ((s.cuts_setBlocks rest).trans suspends.cuts)
  | suspend transfers stays suspends => exact .inr suspends.cuts
  | breakLoop | continueLoop => exact .inr ((s.cuts_drop _).trans (Session.cuts_setBlocks _ _))
  | @returnFrom c calls v transfers stays clear call =>
    rw [Session.markReturning_eq call]
    refine .inl ⟨rfl, .ends hr call rfl ?_ rfl⟩
    exact Session.base_drop (by rw [call]; exact List.cons_ne_nil _ _) _
  | enterCall keyword opens names => exact .inl ⟨rfl, .makes hr keyword names rfl rfl rfl⟩

/-- **Every step of a run** does one of these to the calls. -/
theorem Step.turn (h : Step g a s x s') (hs : s.Sound a) (hp : s.pending = none) : Turn a s x s' := by
  cases h with
  | @finish c calls v call returning =>
    obtain ⟨-, hplace⟩ := hs.returning c calls call returning
    obtain ⟨d, ds, hcalls, rfl, -⟩ := List.map_eq_cons_iff.1 call
    refine .finishes (c := d) returning hplace.symm ?_ s.base_abortCall (s.kept_abortCall.pending.trans hp)
    rw [Session.calls_withVars, Session.calls_abortCall, hcalls, List.tail_cons]
  | move ready move =>
    rcases move.turn (ready.runs hs) with ⟨-, ht⟩ | hcuts
    · exact ht
    · exact .cuts (ready.runs hs) hcuts
  | handled ready move same offer | unhandled ready move offer =>
    rcases move.turn (ready.runs hs) with ⟨hr, -⟩ | hcuts
    · cases hr
    · exact .cuts (ready.runs hs) (hcuts.trans offer.cuts)

/-- **A call that is running after a command** was running before it, on the same calls, or is made by it on top of
all others. -/
theorem Turn.exists_call (h : Turn a s x s') {inner outer : List Call} {c : Call}
    (hc : s'.calls = inner ++ c :: outer) : s'.base = s.base ∧
      ((∃ inner' c', s.calls = inner' ++ c' :: outer ∧ c.made = c'.made) ∨
        inner = [] ∧ x = .done ∧ outer = s.calls ∧ s.Running ∧ c.returnTo = a ∧ c.made = c ∧
          s'.pending = some c.callee ∧ s.suite.keywordAt? a = some .call ∧
          ∃ cmd, s.suite.commandAt? a = some cmd ∧
            s.suite.tables.functions.get? (Text.trim cmd.target) = some c.callee) := by
  cases h with
  | finishes ended command calls base => exact ⟨base, .inl ⟨_ :: inner, c, by rw [calls, hc]; rfl, rfl⟩⟩
  | makes running keyword names calls base pending =>
    refine ⟨base, ?_⟩
    rw [calls] at hc
    cases inner with
    | nil =>
      obtain ⟨rfl, rfl⟩ := List.cons.inj hc
      exact .inr ⟨rfl, rfl, rfl, running, rfl, rfl, pending, keyword, names⟩
    | cons d inner => exact .inl ⟨inner, c, (List.cons.inj hc).2, rfl⟩
  | @ends d calls _ running call marked base =>
    refine ⟨base, .inl ?_⟩
    rw [marked] at hc
    cases inner with
    | nil =>
      obtain ⟨rfl, rfl⟩ := List.cons.inj hc
      exact ⟨[], d, call, rfl⟩
    | cons e inner =>
      obtain ⟨-, rfl⟩ := List.cons.inj hc
      exact ⟨d :: inner, c, call, rfl⟩
  | cuts running cuts =>
    obtain ⟨base, inner', c', hcalls, hmade⟩ := cuts.exists_call hc
    exact ⟨base, .inl ⟨inner', c', hcalls, hmade⟩⟩

/-- Where the innermost call has ended, its command takes it off and does nothing else to the calls. -/
theorem Turn.of_ended (h : Turn a s x s') {c : Call} {outer : List Call} (hc : s.calls = c :: outer)
    (hret : c.returning = true) : x = .done ∧ s'.calls = outer ∧ s'.base = s.base ∧ s'.pending = none := by
  have hno (hr : s.Running) : False := by
    cases hret.symm.trans (hr.returning_eq_false hc)
  cases h with
  | finishes ended command calls base pending =>
    obtain ⟨-, rfl⟩ := List.cons.inj (hc.symm.trans calls)
    exact ⟨rfl, rfl, base, pending⟩
  | makes running | ends running | cuts running => exact (hno running).elim

end

/-! ## 3. Where a call comes from -/

section

variable {σ : Type} {g : Setting} {host : Host σ} {m₀ m₁ m m' : Moment σ} {x : StepResult} {c : Call}
  {inner outer : List Call}

/-- What the command that runs next does to the calls. -/
theorem Reachable.turn (h : Reachable g host m₀ m) (hm₀ : m₀.Starts) (ha : m.advance g host = some (x, m')) :
    ∃ a, m.next? = some a ∧ m'.following = a.next ∧ Turn a (m.session.poise (some a)) x m'.session := by
  obtain ⟨a, hnext, -, hfollow, hstep⟩ := Moment.step_of_advance (h.sound hm₀) ha
  exact ⟨a, hnext, hfollow, hstep.turn (h.sound_poise hm₀ hnext) rfl⟩

/-- A call is made at one moment, and stays on the calls that were running then up to another one. -/
inductive Lasts (g : Setting) (host : Host σ) (m₁ : Moment σ) (c : Call) : Moment σ → Prop
  | made {m : Moment σ} (advance : m₁.advance g host = some (.done, m))
      (calls : m.session.calls = c :: m₁.session.calls) (place : m.place = c.callee) : Lasts g host m₁ c m
  | step {m m' : Moment σ} {x : StepResult} (lasts : Lasts g host m₁ c m)
      (advance : m.advance g host = some (x, m')) (handled : ∀ f, x ≠ .unhandled f)
      (goesOn : m'.session.exitRequested = false)
      (still : ∃ inner c', m'.session.calls = inner ++ c' :: m₁.session.calls ∧ c'.made = c) :
      Lasts g host m₁ c m'

/-- **Where a call comes from**: its command was reached at a moment of the run at which no call waited to be
finished, and made it on top of the calls that are below it. -/
structure Called (g : Setting) (host : Host σ) (m₀ m : Moment σ) (c : Call) (outer : List Call)
    (m₁ : Moment σ) : Prop where
  reached : Reachable g host m₀ m₁
  next : m₁.next? = some c.returnTo
  running : m₁.session.Running
  calls : m₁.session.calls = outer
  base : m₁.session.base = m.session.base
  /-- The saved variables are those of the caller, once the arguments were evaluated. -/
  saved : ∃ args, MakesCall g c.returnTo (m₁.session.poise (some c.returnTo)) args c.saved
  lasts : Lasts g host m₁ c.made m

/-- Making a call takes the snapshot of its caller. -/
theorem snapshots_of_calls {s s' : Session} (hcalls : s'.calls = c.made :: s.calls) (hbase : s'.base = s.base) :
    s'.snapshots = .call c.returnTo c.saved :: s.snapshots := by
  rw [Session.snapshots, hcalls, hbase]
  rfl

/-- **Every call that is running was made by its command**, on the calls below it. -/
theorem Reachable.exists_called (h : Reachable g host m₀ m) (hm₀ : m₀.Starts)
    (hc : m.session.calls = inner ++ c :: outer) : ∃ m₁, Called g host m₀ m c outer m₁ := by
  induction h generalizing inner c with
  | start =>
    obtain ⟨units, suite, vars, σ', unit, -, rfl⟩ := hm₀
    cases inner <;> cases hc
  | @step m m' x reached advance handled goesOn ih =>
    obtain ⟨a, hnext, hfollow, hturn⟩ := reached.turn hm₀ advance
    obtain ⟨hbase, ⟨inner', c', hcalls, hmade⟩ | ⟨rfl, rfl, rfl, hrun, rfl, hmade, hpending, -⟩⟩ :=
      hturn.exists_call hc
    -- The call was running before, though it may have been marked or have lost constructs, or it is new.
    · obtain ⟨m₁, hm₁⟩ := ih hcalls
      have hsite : c.returnTo = c'.returnTo := (Call.mk.inj hmade).2.1
      have hsaved : c.saved = c'.saved := (Call.mk.inj hmade).2.2.1
      refine ⟨m₁, hm₁.reached, hsite ▸ hm₁.next, hm₁.running, hm₁.calls, hm₁.base.trans hbase.symm, ?_, ?_⟩
      · rw [hsite, hsaved]
        exact hm₁.saved
      · exact .step (hmade ▸ hm₁.lasts) advance handled goesOn ⟨inner, c, by rw [hc, hm₁.calls], rfl⟩
    · obtain ⟨b, new?, gone, u, hb, he⟩ := Moment.exchange_of_advance (reached.sound hm₀) advance
      cases hnext.symm.trans hb
      obtain ⟨-, -, args, hargs, -⟩ := he.starts_call (snapshots_of_calls (hmade.symm ▸ hc) hbase)
      refine ⟨m, reached, hnext, hrun, rfl, hbase.symm, ⟨args, hargs⟩, .made advance (hmade.symm ▸ hc) ?_⟩
      rw [Moment.place, hpending]
      rfl

/-! ## 4. Calls of a run -/

/-- A call that a command names is one of the function that has the name. -/
theorem calls_of_names {suite : Suite} (hsuite : Suite.compile suite.units = .ok suite) {a callee : Address}
    (keyword : suite.keywordAt? a = some .call) (names : ∃ cmd, suite.commandAt? a = some cmd ∧
      suite.tables.functions.get? (Text.trim cmd.target) = some callee) : suite.Calls a callee := by
  obtain ⟨cmd, hcmd, hof⟩ := commandAt?_of_keywordAt? keyword
  obtain ⟨cmd', hcmd', hname⟩ := names
  cases hcmd.symm.trans hcmd'
  exact ⟨_, ⟨cmd, hcmd, hof, rfl⟩, (Suite.functions_declared hsuite).1 hname⟩

/-- Every call that is running after a command is one of the function that its command names. -/
theorem Turn.calls {a : Address} {s s' : Session} (h : Turn a s x s')
    (hsuite : Suite.compile s.suite.units = .ok s.suite)
    (hcalls : ∀ c ∈ s.calls, s.suite.Calls c.returnTo c.callee) :
    ∀ c ∈ s'.calls, s.suite.Calls c.returnTo c.callee := by
  intro c hc
  obtain ⟨inner, outer, hc⟩ := List.append_of_mem hc
  obtain ⟨-, ⟨inner', c', hs, hmade⟩ | ⟨-, -, -, -, rfl, -, -, keyword, names⟩⟩ := h.exists_call hc
  · have hcallee : c.callee = c'.callee := (Call.mk.inj hmade).1
    have hsite : c.returnTo = c'.returnTo := (Call.mk.inj hmade).2.1
    rw [hcallee, hsite]
    exact hcalls c' (by simp [hs])
  · exact calls_of_names hsuite keyword names

theorem Reachable.calls (h : Reachable g host m₀ m) (hm₀ : m₀.Starts) :
    ∀ c ∈ m.session.calls, m.session.suite.Calls c.returnTo c.callee := by
  induction h with
  | start =>
    obtain ⟨units, suite, vars, σ', unit, -, rfl⟩ := hm₀
    exact nofun
  | @step m m' x reached advance handled goesOn ih =>
    obtain ⟨a, -, -, hturn⟩ := reached.turn hm₀ advance
    have hnext := hturn.calls (reached.compiled hm₀) ih
    rw [(reached.step advance handled goesOn).suite hm₀, ← reached.suite hm₀]
    exact hnext

/-- A call that has ended is the innermost one, holds no constructs, and is next to be finished. -/
theorem Reachable.returning (h : Reachable g host m₀ m) (hm₀ : m₀.Starts)
    (hc : m.session.calls = inner ++ c :: outer) (hret : c.returning = true) :
    inner = [] ∧ m.session.blocks = [] ∧ m.next? = some c.returnTo := by
  have hs := h.sound hm₀
  obtain rfl : inner = [] := by
    cases inner with
    | nil => rfl
    | cons d inner =>
      have hmem : c.site ∈ m.session.sites.tail := by simp [Session.sites, hc]
      have hrun : c.site.returning = false := hs.running c.site hmem
      cases hret.symm.trans hrun
  obtain ⟨hblocks, hplace⟩ := hs.returning c.site (outer.map Call.site) (by rw [Session.sites, hc]; rfl) hret
  refine ⟨rfl, hblocks, ?_⟩
  obtain ⟨name, ⟨cmd, hcmd, -⟩, -⟩ := h.calls hm₀ c (by simp [hc])
  have hplace : m.place = c.returnTo := hplace
  unfold Moment.next?
  unfold Moment.place at hplace
  cases hp : m.session.pending with
  | some p =>
    rw [hp] at hplace
    exact congrArg some hplace
  | none =>
    rw [hp] at hplace
    have hplace : m.following = c.returnTo := hplace
    rw [hplace, Suite.present?, show m.session.suite.commandAt? c.returnTo = some cmd from hcmd]
    rfl

/-- **Calls return to where they were made**, the last one first.  Every call that is running is one of the function
that its command names; it was made on the calls that are below it, and the caller's variables were saved.  Only the
innermost one may have ended, and then it holds no constructs, and the command that is next is the one that made it:
this takes off that call alone, so the calls and constructs are those of the moment at which the call was made, and
the run goes on at the next command.  A command makes a call only where no call waits to be finished. -/
theorem calls_return_in_turn (hm₀ : m₀.Starts) (h : Reachable g host m₀ m) :
    (∀ inner c outer, m.session.calls = inner ++ c :: outer →
      m.session.suite.Calls c.returnTo c.callee ∧
      ∃ m₁, Called g host m₀ m c outer m₁ ∧
        (c.returning = true → inner = [] ∧ m.session.blocks = [] ∧ m.next? = some c.returnTo ∧
          ∃ m', m.advance g host = some (.done, m') ∧ m'.session.calls = m₁.session.calls ∧
            m'.session.base = m₁.session.base ∧ m'.session.Running ∧ m'.place = c.returnTo.next)) ∧
    ∀ x m', m.advance g host = some (x, m') →
      (∀ c ∈ m'.session.calls, m.session.suite.Calls c.returnTo c.callee) ∧
      ∃ a, m.next? = some a ∧ Turn a (m.session.poise (some a)) x m'.session := by
  constructor
  · intro inner c outer hc
    obtain ⟨m₁, hcalled⟩ := h.exists_called hm₀ hc
    refine ⟨h.calls hm₀ c (by simp [hc]), m₁, hcalled, fun hret => ?_⟩
    obtain ⟨rfl, hblocks, hnext⟩ := h.returning hm₀ hc hret
    refine ⟨rfl, hblocks, hnext, ?_⟩
    obtain ⟨⟨x, m'⟩, hadv⟩ : ∃ r, m.advance g host = some r := ⟨_, by rw [Moment.advance, hnext]; rfl⟩
    obtain ⟨a, ha, hfollow, hturn⟩ := h.turn hm₀ hadv
    cases hnext.symm.trans ha
    obtain ⟨rfl, hcalls, hbase, hpending⟩ := hturn.of_ended hc hret
    refine ⟨m', hadv, hcalls.trans hcalled.calls.symm, hbase.trans hcalled.base.symm, fun d hd => ?_, ?_⟩
    · refine (h.sound hm₀).running d ?_
      rw [Session.sites, hcalls] at hd
      rwa [Session.sites, hc]
    · rw [Moment.place, hpending, hfollow]
      rfl
  · intro x m' hadv
    obtain ⟨a, ha, -, hturn⟩ := h.turn hm₀ hadv
    exact ⟨hturn.calls (h.compiled hm₀) (h.calls hm₀), a, ha, hturn⟩

/-- A setting in which an expression holds if it is the name of a variable. -/
def Setting.ofNames : Setting := ⟨fun expr vars => (.ok (.bool (vars.get? expr).isSome), vars), {}, none⟩

/-- A function that calls itself if it has an argument: the inner call returns into the outer one. -/
theorem recursive_call_returns : ∃ (m₀ m₁ m m' : Moment Unit) (c d : Call),
    Moment.ofUnits [.named "main" [{ name := "call", target := "f", value := "x = y" },
      { name := "function", target := "f" }, { name := "if", target := "x" }, { name := "call", target := "f" },
      { name := "endIf" }, { name := "endFunction" }]] = .ok m₀ ∧
    m₀.after? .ofNames silent 8 = some m ∧ m.session.calls = [c, d] ∧ c.callee = d.callee ∧ c.returning = true ∧
    Called .ofNames silent m₀ m c [d] m₁ ∧ m.next? = some ⟨0, 3⟩ ∧
    m.advance .ofNames silent = some (.done, m') ∧ m'.session.calls = m₁.session.calls ∧ m'.place = ⟨0, 4⟩ := by
  obtain ⟨m₀, m, c, d, hm₀, hm, hcalls, hsame, hret, hsite⟩ : ∃ (m₀ m : Moment Unit) (c d : Call),
      Moment.ofUnits [.named "main" [{ name := "call", target := "f", value := "x = y" },
        { name := "function", target := "f" }, { name := "if", target := "x" }, { name := "call", target := "f" },
        { name := "endIf" }, { name := "endFunction" }]] = .ok m₀ ∧
      m₀.after? .ofNames silent 8 = some m ∧ m.session.calls = [c, d] ∧ c.callee = d.callee ∧
      c.returning = true ∧ c.returnTo = ⟨0, 3⟩ := ⟨_, _, _, _, rfl, rfl, rfl, rfl, rfl, rfl⟩
  obtain ⟨hrunning, -⟩ := calls_return_in_turn (starts_ofUnits hm₀) (reachable_of_after? hm)
  obtain ⟨-, m₁, hcalled, hreturns⟩ := hrunning [] c [d] hcalls
  obtain ⟨-, -, hnext, m', hadv, hback, -, -, hplace⟩ := hreturns hret
  rw [hsite] at hnext hplace
  exact ⟨m₀, m₁, m, m', c, d, hm₀, hm, hcalls, hsame, hret, hcalled, hnext, hadv, hback, hplace⟩

end

end Flow

end BlockFlow
