/-
# Internal faults

An engine guards what it relies on: that a block, a part of a construct or a frame is there, that a command is
known, that a call or a record is left.  The faults of these guards are internal, and no run comes to one.

A class of faults that no command reports of itself (`Reserved`) comes from the host wherever it turns up in a
run, or it is the fault of a `skipNext` that leads out of its unit (`Moment.origin_of_fault`).  A fault may have
waited for a cleanup section meanwhile, which is why this is an induction over the run.

`run_reports_no_internal_fault` is the main result.
-/
import BlockFlow.Proofs.Destinations
import BlockFlow.Proofs.Lexical
import BlockFlow.Proofs.Lookups
import BlockFlow.Proofs.Veils

namespace BlockFlow

/-! ## 1. Internal faults -/

/-- **A fault of a guard** on what an engine relies on. -/
def Fault.IsInternal (f : Fault) : Prop :=
  f.code ∈ ["ENGINE_BLOCK_MISSING", "ENGINE_NO_FRAME", "ENGINE_COMMAND_UNKNOWN", "ENGINE_RECORD_EOF"] ∨
    f.code = "ENGINE_SCOPE_MISMATCH" ∧ "Expected an active ".toList <+: f.message.toList ∨
    f.code = "ENGINE_LOOP_INVALID" ∧ " does not open a loop.".toList <:+ f.message.toList

@[simp] theorem Fault.isInternal_attach (f : Fault) (ref : String) : (f.attach ref).IsInternal ↔ f.IsInternal := by
  simp only [IsInternal, code_attach, message_attach]

namespace Flow

/-- A word that a text ends in is comparable with what the text ends in. -/
theorem not_suffix_append {word xs ys : List Char} (hlong : ¬word <:+ ys) (hshort : ¬ys <:+ word) :
    ¬word <:+ xs ++ ys := fun h =>
  (List.suffix_or_suffix_of_suffix h (List.suffix_append xs ys)).elim hlong hshort

/-- What is wrong with a loop is never that it opens none. -/
theorem LoopMisuse.message_ne (why : LoopMisuse) : ¬" does not open a loop.".toList <:+ why.message.toList := by
  cases why with
  | headerVariable ordinal text =>
    rw [show (headerVariable ordinal text).message = ("For loop variable #" ++ toString ordinal ++
      " must start with $ and name a variable: '" ++ text) ++ "'" from rfl, String.toList_append]
    refine not_suffix_append ?_ ?_ <;> decide +kernel
  | fileMissing command =>
    rw [show (fileMissing command).message = ("'" ++ command) ++ "' requires a data file path." from rfl,
      String.toList_append]
    refine not_suffix_append ?_ ?_ <;> decide +kernel
  | _ => decide +kernel

theorem Ordinary.not_isInternal {f : Fault} (h : Ordinary f) : ¬f.IsInternal := by
  rintro (hcode | ⟨hcode, -⟩ | ⟨hcode, hmessage⟩)
  · refine h.code_not_mem (List.mem_of_mem_take (i := 4) ?_)
    simpa [reservedCodes] using hcode
  · exact h.code_not_mem (by rw [hcode]; decide)
  · obtain ⟨why, rfl⟩ := h.exists_loopMisuse hcode
    exact why.message_ne hmessage

/-- A reference begins with a sign of its own. -/
theorem commandRef_toList (units : List ScriptUnit) (a : Address) :
    ∃ cs, (commandRef units a).toList = '@' :: cs := by
  have hsign (text : String) : ("@" ++ text).toList = '@' :: text.toList := by
    rw [String.toList_append]
    rfl
  unfold commandRef
  split
  · exact ⟨_, hsign _⟩
  · dsimp only
    split <;> simp only [String.toList_append] <;> exact ⟨_, rfl⟩

/-- A misplaced command names itself, and not what was expected. -/
theorem scopeMismatch_message {here : String} (hhere : here = "" ∨ ∃ cs, here.toList = '@' :: cs)
    (active : Option String) : ¬"Expected an active ".toList <+: (FlowError.scopeMismatch here active).message.toList := by
  have hword : "Expected an active ".toList = 'E' :: "xpected an active ".toList := by decide +kernel
  have hsign {text : String} (h : ∃ c cs, text.toList = c :: cs ∧ c ≠ 'E') (rest : String) :
      ¬"Expected an active ".toList <+: (text ++ rest).toList := by
    obtain ⟨c, cs, hcs, hc⟩ := h
    rw [hword, String.toList_append, hcs]
    exact fun hp => hc (List.cons_prefix_cons.1 hp).1.symm
  rcases hhere with rfl | ⟨cs, hcs⟩
  · cases active with
    | none => decide +kernel
    | some active =>
      refine hsign ⟨' ', "unexpected command, active command was ".toList, ?_, by decide⟩ active
      decide +kernel
  · cases active with
    | none => exact hsign ⟨'@', cs, hcs, by decide⟩ _
    | some active => exact hsign ⟨'@', _, by rw [String.toList_append, hcs]; rfl, by decide⟩ active

theorem Session.misplacement_not_isInternal (s : Session) : ¬s.misplacement.IsInternal := by
  rintro (hcode | ⟨-, hmessage⟩ | ⟨hcode, -⟩)
  · simp [misplacement, FlowError.fault, FlowError.code] at hcode
  · refine scopeMismatch_message ?_ _ hmessage
    cases s.current with
    | none => exact .inl rfl
    | some a => exact .inr (commandRef_toList s.suite.units a)
  · simp [misplacement, FlowError.fault, FlowError.code] at hcode

/-! ## 2. Where faults come from -/

/-- **A class of faults that no command reports of itself**, other than `skipNext`. -/
structure Reserved (B : Fault → Prop) : Prop where
  attach : ∀ f ref, B (f.attach ref) ↔ B f
  ordinary : ∀ {f}, Ordinary f → ¬B f
  misplaced : ∀ s : Session, ¬B s.misplacement

theorem reserved_internal : Reserved Fault.IsInternal :=
  ⟨Fault.isInternal_attach, Ordinary.not_isInternal, Session.misplacement_not_isInternal⟩

theorem reserved_of_code {code : String} (hcode : code ∈ reservedCodes) (hmismatch : code ≠ "ENGINE_SCOPE_MISMATCH") :
    Reserved fun f => f.code = code where
  attach f ref := by rw [Fault.code_attach]
  ordinary h hf := h.code_not_mem (hf ▸ hcode)
  misplaced s := hmismatch.symm

/-- **A `skipNext` leads out of its unit**, and this is its fault. -/
def SkipsOut (suite : Suite) (a : Address) (f : Fault) : Prop :=
  suite.keywordAt? a = some .skipNext ∧ ∃ count e ref,
    (a.offset (min (count + 1) Address.limit)).check suite.units = .error e ∧ f = e.fault.attach ref

theorem SkipsOut.kind {suite : Suite} {a : Address} {f : Fault} (h : SkipsOut suite a f) : f.kind = .address := by
  obtain ⟨-, count, e, ref, -, rfl⟩ := h
  rw [Fault.kind_attach]
  rfl

theorem SkipsOut.code {suite : Suite} {a : Address} {f : Fault} (h : SkipsOut suite a f) :
    f.code = "ADDRESS_OUT_OF_RANGE" := by
  obtain ⟨-, count, e, ref, -, rfl⟩ := h
  rw [Fault.code_attach]
  rfl

section

variable {σ : Type} {g : Setting} {host : Host σ} {m₀ m m' : Moment σ} {f : Fault} {x : StepResult} {B : Fault → Prop}

/-- The host has reported a fault of a class in the run up to a moment, or is about to. -/
def HostReports (g : Setting) (host : Host σ) (m₀ m : Moment σ) (B : Fault → Prop) : Prop :=
  ∃ m₁ f, Reachable g host m₀ m₁ ∧ Reachable g host m₁ m ∧ m₁.Reports g host f ∧ B f

theorem HostReports.step (h : HostReports g host m₀ m B) (advance : m.advance g host = some (x, m'))
    (handled : ∀ f, x ≠ .unhandled f) (goesOn : m'.session.exitRequested = false) : HostReports g host m₀ m' B := by
  obtain ⟨m₁, f, hreach, hafter, hreports, hf⟩ := h
  exact ⟨m₁, f, hreach, .step hafter advance handled goesOn, hreports, hf⟩

/-- The faults that wait can be caught, and those of a class come from the host. -/
def Session.Detains (B : Fault → Prop) (reported : Prop) (s : Session) : Prop :=
  ∀ d ∈ s.deferred, ∀ f, d.work = .fault f → f.isCatchable ∧ (B f → reported)

/-- **A fault of a reserved class comes from the host**, or from a `skipNext` that leads out of its unit. -/
theorem Moment.origin_of_fault (hB : Reserved B) (hm₀ : m₀.Starts) (hreach : Reachable g host m₀ m)
    (hdetains : m.session.Detains B (HostReports g host m₀ m B)) (hadv : m.advance g host = some (x, m'))
    (hx : x = .handled f ∨ x = .unhandled f) (hf : B f) :
    HostReports g host m₀ m B ∨ ∃ a, m.next? = some a ∧ SkipsOut m.session.suite a f := by
  obtain ⟨a, f', w, ha, hrun, hsame⟩ := Moment.error_of_advance hm₀ hreach hadv hx
  have hready : m.poised.session.Ready := Moment.Fails.ready ⟨a, f', w, ha, hrun, rfl, rfl⟩ hm₀ hreach
  have hposed : m.poised.session = m.session.poise (some a) := by rw [Moment.poised, ha]
  have hcur : m.poised.session.current = some a := by rw [hposed]; rfl
  have hf' : B f' := by
    rcases hsame with rfl | rfl
    · exact hf
    · exact (hB.attach _ _).1 hf
  rcases runCommand_reports hready hcur hrun with ⟨f₀, ref, rfl, hreported⟩ | ⟨c, hc, hh, hexec⟩
  · have hf₀ := (hB.attach _ _).1 hf'
    rw [hposed] at hreported
    cases hreported with
    | ordinary ho => exact absurd hf₀ (hB.ordinary ho)
    | misplaced => exact absurd hf₀ (hB.misplaced _)
    | @skipped count e keyword absent =>
      refine .inr ⟨a, ha, keyword, count, e, ref, absent, ?_⟩
      rcases hsame with rfl | rfl
      · rfl
      · exact Fault.attach_attach _ _ _
    | absent none =>
      obtain ⟨c, hc⟩ := hreach.hasCommand hm₀ ha
      cases none.symm.trans hc
    | deferred keyword mem work => exact .inl ((hdetains _ mem _ work).2 hf₀)
  · rw [hposed] at hc hexec
    exact .inl ⟨m, f', hreach, .start, ⟨a, c, ha, hc, hh, hexec⟩, hf'⟩

/-- A fault that a try handles can be caught. -/
theorem Offer.isCatchable {s s' : Session} (o : Offer g f s .handled s') : f.isCatchable := by
  cases o <;> assumption

/-- A fault that waits has waited before, or is the one that was handled last. -/
theorem Step.detained {a : Address} {s s' : Session} (h : Step g a s x s') (hx : ∀ f, x ≠ .unhandled f) {d : Deferred}
    (hd : d ∈ s'.deferred) (hwork : d.work = .fault f) : (∃ e ∈ s.deferred, e.work = .fault f) ∨
      f.isCatchable ∧ ∃ f' ref, x = .handled f' ∧ f = f'.attach ref := by
  cases h with
  | finish => exact .inl ⟨d, (Session.kept_abortCall _).deferred ▸ hd, hwork⟩
  | move ready move =>
    rcases move.deferred d hd with hold | ⟨⟨origin, goal, hnew⟩, -⟩
    · exact .inl ⟨d, hold, hwork⟩
    · cases hwork.symm.trans hnew
  | @handled f₁ f' t _ ready move same offer =>
    rcases offer.mem_deferred hd with hold | hnew
    · exact .inl ⟨d, move.deferred_of_error d hold, hwork⟩
    · cases hwork.symm.trans hnew
      exact .inr ⟨offer.isCatchable, f', _, rfl, same.symm⟩
  | unhandled => exact absurd rfl (hx _)

/-- **The faults that wait in a run** can be caught, and those of a reserved class come from the host. -/
theorem Reachable.detains (hB : Reserved B) (hreach : Reachable g host m₀ m) (hm₀ : m₀.Starts) :
    m.session.Detains B (HostReports g host m₀ m B) := by
  induction hreach with
  | start =>
    obtain ⟨units, suite, vars, σ', unit, -, rfl⟩ := hm₀
    rintro _ ⟨⟩
  | @step m m' x reached advance handled goesOn ih =>
    obtain ⟨a, ha, -, -, hstep⟩ := Moment.step_of_advance (reached.sound hm₀) advance
    intro d hd f hwork
    rcases hstep.detained handled hd hwork with ⟨e, he, hwork⟩ | ⟨hcatch, f', ref, rfl, rfl⟩
    · obtain ⟨hcatch, hhost⟩ := ih e he f hwork
      exact ⟨hcatch, fun hf => (hhost hf).step advance handled goesOn⟩
    · refine ⟨hcatch, fun hf => ?_⟩
      rcases Moment.origin_of_fault hB hm₀ reached ih advance (.inl rfl) ((hB.attach _ _).1 hf) with
        hhost | ⟨a', -, hskips⟩
      · exact hhost.step advance handled goesOn
      · -- the fault of a `skipNext` cannot be caught, so it never waits
        rw [Fault.isCatchable, Fault.kind_attach, hskips.kind] at hcatch
        cases hcatch

/-- **What a step of a run reports**, if it is of a reserved class. -/
theorem Reachable.origin (hB : Reserved B) (hm₀ : m₀.Starts) (hreach : Reachable g host m₀ m)
    (hadv : m.advance g host = some (x, m')) (hx : x = .handled f ∨ x = .unhandled f) (hf : B f) :
    HostReports g host m₀ m B ∨ ∃ a, m.next? = some a ∧ SkipsOut m.session.suite a f :=
  Moment.origin_of_fault hB hm₀ hreach (hreach.detains hB hm₀) hadv hx hf

end

/-! ## 3. Calls that end -/

/-- The fault of ending a call where none is running. -/
def noFrame : Fault where
  kind := .assertion
  code := "ENGINE_NO_FRAME"
  message := "No function call frame to return from."

namespace Session

namespace Strict

/-- Ends the innermost call, which has to be there. -/
def abortCall (s : Session) : Except Fault Session := if s.calls.isEmpty then .error noFrame else .ok s.abortCall

/-- Ends a number of calls. -/
def abortCalls (s : Session) : Nat → Except Fault Session
  | 0 => return s
  | n + 1 => do abortCalls (← abortCall s) n

/-- Ends the innermost call and hands its result to the caller. -/
def finishCall (s : Session) : Except Fault Session := do
  let result? := s.vars.get? Namespace.resultName
  let s ← abortCall s
  return { s with
    vars := match result? with
      | some v => s.vars.insert Namespace.resultName v
      | none => s.vars.erase Namespace.resultName }

/-- The innermost try that takes part, after ending the calls inside it and leaving the constructs inside it. -/
def unwindThrough (s : Session) : List Call → Except Fault (Option Address × Session)
  | [] => return (s.dropToTry.blocks.head?.map Frame.opener, s.dropToTry)
  | _ :: calls =>
    match s.dropToTry.blocks.head? with
    | some f => return (some f.opener, s.dropToTry)
    | none =>
      if s.dropToTry.nesting < 0 then return (none, s.dropToTry)
      else do unwindThrough (← abortCall s.dropToTry) calls

end Strict

variable {s : Session}

theorem strict_abortCall (h : s.calls ≠ []) : Strict.abortCall s = .ok s.abortCall := by
  rw [Strict.abortCall, if_neg (by simpa using h)]

theorem strict_abortCalls : ∀ {n : Nat} {s : Session}, n ≤ s.calls.length →
    Strict.abortCalls s n = .ok (s.abortCalls n)
  | 0, _, _ => rfl
  | n + 1, s, h => by
    have hcalls : s.calls ≠ [] := by
      rintro hnil
      simp [hnil] at h
    rw [Strict.abortCalls, strict_abortCall hcalls]
    exact strict_abortCalls (by rw [calls_abortCall, List.length_tail]; omega)

theorem strict_unwindThrough : ∀ {calls : List Call} {s : Session}, calls.length ≤ s.calls.length →
    Strict.unwindThrough s calls = .ok (s.unwindThrough calls)
  | [], _, _ => rfl
  | c :: calls, s, h => by
    rw [← s.length_calls_dropToTry, List.length_cons] at h
    have hcalls : s.dropToTry.calls ≠ [] := by
      rintro hnil
      simp [hnil] at h
    unfold Strict.unwindThrough unwindThrough
    cases s.dropToTry.blocks.head? with
    | some f => rfl
    | none =>
      dsimp only
      split
      · rfl
      · rw [strict_abortCall hcalls]
        exact strict_unwindThrough (by rw [calls_abortCall, List.length_tail]; omega)

/-- The cleanup section that a transfer comes to is not outside of every call. -/
theorem calls_le_of_cleanup? {goal : Goal} {k n : Nat} (h : s.cleanup? goal = some (k, n)) : k ≤ s.calls.length := by
  obtain ⟨pre, L, post, above, t, rest, hlev, rfl, -⟩ := cleanup?_eq_some h default
  have := congrArg List.length hlev
  rw [levels, List.length_cons, length_outer, List.length_append, List.length_cons] at this
  omega

/-- **The engine ends calls that are running**, wherever it ends any: at the command that made the call, on the
way of a transfer to a cleanup section, and on the way of a fault to a try. -/
structure EndsCalls (s : Session) : Prop where
  returning : ∀ a, s.isReturningTo a → Strict.finishCall s = .ok s.finishCall
  transfer : ∀ goal k n, s.cleanup? goal = some (k, n) → Strict.abortCalls s k = .ok (s.abortCalls k)
  fault : Strict.unwindThrough s s.calls = .ok s.unwindToTry

theorem endsCalls (s : Session) : s.EndsCalls where
  returning a ha := by
    have hcalls : s.calls ≠ [] := by
      rintro hnil
      simp [isReturningTo, hnil] at ha
    rw [Strict.finishCall, strict_abortCall hcalls]
    rfl
  transfer goal k n h := strict_abortCalls (calls_le_of_cleanup? h)
  fault := strict_unwindThrough le_rfl

end Session

/-! ## 4. Runs without internal faults -/

section

variable {σ : Type} {g : Setting} {host : Host σ}

/-- **Internal faults do not happen.**  Whenever a suite that compiles runs:

* the command that a step runs is there, and the step branches to no other address than that of a command;
* a step reports an internal fault only if the host has reported one by then, and so does the run;
* an address is out of range only where a `skipNext` leads out of its unit, unless the host says so;
* calls are ended only while there are any.

And no units at all make the compiler read a block that is not in the block map. -/
theorem run_reports_no_internal_fault {w : World σ} (hcompiles : w.session.beforeRun.1 = none) :
    (∀ unit m x m', Reachable g host (Moment.first w unit) m → m.advance g host = some (x, m') →
      (∃ a, m.next? = some a ∧ m.session.suite.HasCommand a) ∧ m'.session.Aims ∧
        ∀ f, x = .handled f ∨ x = .unhandled f →
          (f.IsInternal → HostReports g host (Moment.first w unit) m Fault.IsInternal) ∧
          (f.code = "ADDRESS_OUT_OF_RANGE" →
            HostReports g host (Moment.first w unit) m (fun f => f.code = "ADDRESS_OUT_OF_RANGE") ∨
              ∃ a, m.next? = some a ∧ SkipsOut m.session.suite a f)) ∧
    (∀ options report w' f, w.run g host options = (.ok report, w') → report.outcome = .failed f → f.IsInternal →
      ∃ unit m, HostReports g host (Moment.first w unit) m Fault.IsInternal) ∧
    (∀ s : Session, s.EndsCalls) ∧ ∀ units, Tables.Strict.ofUnits units = .ok (Tables.ofUnits units) := by
  have hm₀ (unit : Nat) : (Moment.first w unit).Starts := starts_first hcompiles unit
  have hinternal {unit : Nat} {m m' : Moment σ} {x : StepResult} {f : Fault}
      (hreach : Reachable g host (Moment.first w unit) m) (hadv : m.advance g host = some (x, m'))
      (hx : x = .handled f ∨ x = .unhandled f) (hf : f.IsInternal) :
      HostReports g host (Moment.first w unit) m Fault.IsInternal := by
    rcases hreach.origin reserved_internal (hm₀ unit) hadv hx hf with hhost | ⟨a, -, hskips⟩
    · exact hhost
    · rcases hf with hcode | ⟨hcode, -⟩ | ⟨hcode, -⟩ <;> simp [hskips.code] at hcode
  refine ⟨fun unit m x m' hreach hadv => ?_, fun options report w' f hrun hout hf => ?_, Session.endsCalls,
    Tables.Strict.ofUnits_eq⟩
  · obtain ⟨a, ha, -⟩ := Option.map_eq_some_iff.1 hadv
    refine ⟨⟨a, ha, hreach.hasCommand (hm₀ unit) ha⟩, Moment.aims_of_advance (hm₀ unit) hreach hadv, fun f hx => ?_⟩
    exact ⟨hinternal hreach hadv hx,
      hreach.origin (reserved_of_code (by decide) (by decide)) (hm₀ unit) hadv hx⟩
  · obtain ⟨unit, m, -, -, hreach, hends⟩ := exists_moment_of_run hrun
    rw [hout] at hends
    cases hends with
    | failed advance => exact ⟨unit, m, hinternal hreach advance (.inr rfl) hf⟩
    | exhausted code => rcases hf with hcode | ⟨hcode, -⟩ | ⟨hcode, -⟩ <;> simp [code] at hcode

/-- A `skipNext` at the end of its unit. -/
theorem skip_out_of_unit : ∃ (s : Session) (w : World Unit) (m' : Moment Unit) (f : Fault),
    Session.ofUnits [.named "main" [{ name := "skipNext" }]] = .ok s ∧ w = ⟨s, ()⟩ ∧
    (Moment.first w 0).advance .trivial silent = some (.unhandled f, m') ∧ f.code = "ADDRESS_OUT_OF_RANGE" ∧
    SkipsOut (Moment.first w 0).session.suite ⟨0, 0⟩ f := by
  obtain ⟨s, m', f, hs, hb, hnext, hadv, hcode⟩ : ∃ (s : Session) (m' : Moment Unit) (f : Fault),
      Session.ofUnits [.named "main" [{ name := "skipNext" }]] = .ok s ∧ s.beforeRun.1 = none ∧
      (Moment.first (⟨s, ()⟩ : World Unit) 0).next? = some ⟨0, 0⟩ ∧
      (Moment.first (⟨s, ()⟩ : World Unit) 0).advance .trivial silent = some (.unhandled f, m') ∧
      f.code = "ADDRESS_OUT_OF_RANGE" := ⟨_, _, _, rfl, rfl, rfl, rfl, rfl⟩
  refine ⟨s, _, m', f, hs, rfl, hadv, hcode, ?_⟩
  obtain ⟨-, -, hfault⟩ := (run_reports_no_internal_fault (w := ⟨s, ()⟩) hb).1 0 _ _ _ .start hadv
  rcases (hfault f (.inr rfl)).2 hcode with ⟨m, f', -, -, ⟨a, c, -, -, -, hexec⟩, -⟩ | ⟨a, ha, hskips⟩
  · cases hexec
  · cases hnext.symm.trans ha
    exact hskips

end

end Flow

end BlockFlow
