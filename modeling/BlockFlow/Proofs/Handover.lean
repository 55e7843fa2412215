/-
# Returned values

A `return` stores the value of its expression as the variable `_result`, leaves the constructs of its function, and
the command of the call hands the variable over to the caller.  Leaving a loop gives its own names their old bindings
back, so the value is lost if a loop that is left has `_result` for one of its names; then the caller is handed what
the lowest of these loops had saved (`returned_value_arrives`).

Only a loop over the records of a file can have that name: the names of other loops start with a letter, or are `_i`
(`Reachable.hasField_of_saved`).
-/
import BlockFlow.Proofs.Resuming
import BlockFlow.Proofs.Returns

namespace BlockFlow.Flow

open BlockFlow.Flow.Action

/-! ## 1. What a `return` does -/

section

variable {g : Setting} {s s' : Session} {a : Address} {expr : String}

/-- **A `return` that ends its call**: the value of the expression was stored as the result, and then the constructs
of the call were left; the command of the call is next. -/
def Session.Returns (g : Setting) (s : Session) (expr : String) (s' : Session) : Prop :=
  ∃ v w c calls, g.evaluate expr s.vars = (.ok v, w) ∧ s.calls = c :: calls ∧
    s' = (s.withVars (w.insert Namespace.resultName v)).markReturning.branch c.returnTo

/-- A result is stored once its expression was evaluated. -/
theorem storeResult_ends (hexpr : expr ≠ "") : (storeResult g expr).Ends s fun r t => r = .ok () →
    ∃ v w, g.evaluate expr s.vars = (.ok v, w) ∧ t = s.withVars (w.insert Namespace.resultName v) := by
  unfold storeResult
  rw [if_pos (by simpa using hexpr), ends_bind, ends_evaluate]
  rcases hv : g.evaluate expr s.vars with ⟨e | v, w⟩
  · rintro ⟨⟩
  · exact fun _ => ⟨v, w, rfl, rfl⟩

/-- A `return` ends its call, or it leaves the call running. -/
theorem returnFrom_ends (h : s.Ready) (hk : s.suite.keywordAt? a = some .returnValue) (hexpr : expr ≠ "") :
    (returnFrom g a expr).Ends s fun r s' => r = .ok () → s.Cuts s' ∨ s.Returns g expr s' := by
  obtain ⟨b, hb, -⟩ := h.nested.exists_block hk rfl
  unfold returnFrom
  rw [ends_bind]
  refine Ends.block hb ?_
  dsimp only
  rw [ends_bind, ends_ask]
  dsimp only
  split
  · exact fun _ => .inl (.of_eq rfl)
  · rename_i hown
    obtain ⟨c, calls, hcs⟩ : ∃ c calls, s.calls = c :: calls := by
      refine List.exists_cons_of_ne_nil fun hnil => hown ?_
      rw [Session.callee?, hnil]
      rfl
    rw [ends_bind]
    refine Ends.deferTransfer h.counted (fun d ds hd hl => ?_) (fun hst s' hs' => ?_) fun hst hclear => ?_
    · exact fun _ => .inl (.of_eq rfl)
    · exact fun _ => .inl hs'.cuts
    · dsimp only
      rw [if_neg (by decide), ends_bind]
      refine (storeResult_ends hexpr).mono ?_
      rintro (f | _) t hstored
      · rintro ⟨⟩
      · obtain ⟨v, w, hv, rfl⟩ := hstored rfl
        dsimp only
        simp only [ends_bind, ends_ask, ends_change, Session.calls_withVars, hcs]
        exact Ends.goToPart (p := c.returnTo) rfl fun _ => .inr ⟨v, w, c, calls, hv, hcs, rfl⟩

/-- **What the call has for its result** is the value, unless a loop that was left says otherwise. -/
theorem Session.Returns.result (h : s.Returns g expr s') : ∃ v, (g.evaluate expr s.vars).1 = .ok v ∧
    s'.vars.get? Namespace.resultName =
      (lowest? Namespace.resultName (snapshotsIn s.blocks)).getD (some v) := by
  obtain ⟨v, w, c, calls, hv, hcs, rfl⟩ := h
  refine ⟨v, by rw [hv], ?_⟩
  rw [Session.branch, Session.markReturning_eq (s := s.withVars (w.insert Namespace.resultName v)) hcs]
  change ((s.withVars (w.insert Namespace.resultName v)).drop s.blocks.length).vars.get? _ = _
  rw [Session.drop, Session.vars_discardAll, Session.vars_setBlocks, get?_restoreAll, Session.blocks_withVars,
    List.take_length, Session.vars_withVars, Dict.get?_insert, if_pos rfl]

theorem Session.Returns.exitRequested (h : s.Returns g expr s') : s'.exitRequested = s.exitRequested := by
  obtain ⟨v, w, c, calls, -, hcs, rfl⟩ := h
  rw [Session.branch, Session.markReturning_eq (s := s.withVars (w.insert Namespace.resultName v)) hcs]
  exact (Session.kept_drop _ _).exitRequested

/-- The caller is handed the result that the function has, or that it has none. -/
theorem get?_handResult (result? : Option Value) (vars : Namespace) :
    (handResult result? vars).get? Namespace.resultName = result? := by
  cases result? with
  | none => simp [handResult]
  | some v => simp [handResult]

end

/-! ## 2. Names of loops -/

/-- The command at an address is a loop over the records of a file that have a field of a name. -/
def HasField (g : Setting) (s : Session) (a : Address) (name : String) : Prop :=
  ∃ k format target value cursor, s.Runs a k target value ∧
    (k = .forJson ∧ format = .json ∨ k = .forXml ∧ format = .xml) ∧
    (DataCursor.new format).load g.files (dataPath g s a.unit target) = .ok cursor ∧ name ∈ cursor.fields

theorem HasField.of_suite {g : Setting} {s s' : Session} {a : Address} {name : String} (h : HasField g s a name)
    (hsuite : s'.suite = s.suite) : HasField g s' a name := by
  obtain ⟨k, format, target, value, cursor, ⟨c, hc, hof⟩, hkind, hload, hname⟩ := h
  refine ⟨k, format, target, value, cursor, ⟨c, hsuite ▸ hc, hof⟩, hkind, ?_, hname⟩
  rw [← hload, dataPath, dataPath, hsuite]

theorem isLetteredName_of_checkName {name what : String} {u : Unit} (h : checkName name what = .ok u) :
    Text.isLetteredName name := by
  unfold checkName at h
  split at h
  · assumption
  · cases h

theorem isLetteredName_of_headerVariable {n : Nat} {statement name : String}
    (h : headerVariable n statement = .ok name) : Text.isLetteredName name := by
  unfold headerVariable at h
  dsimp only at h
  split at h
  · cases hcheck : checkName _ "for loop variable" with
    | error e =>
      rw [hcheck] at h
      cases h
    | ok u =>
      rw [hcheck] at h
      cases h
      exact isLetteredName_of_checkName hcheck
  · cases h

/-- The variables of a counted loop start with letters. -/
theorem isLetteredName_of_mem_headerVariables {statements : List String} : ∀ {n : Nat} {names : List String},
    headerVariables n statements = .ok names → ∀ name ∈ names, Text.isLetteredName name := by
  induction statements with
  | nil =>
    rintro n names ⟨⟩
    exact nofun
  | cons statement rest ih =>
    intro n names h
    unfold headerVariables at h
    cases hfirst : headerVariable n statement with
    | error e =>
      rw [hfirst] at h
      cases h
    | ok first =>
      rw [hfirst] at h
      cases hrest : headerVariables (n + 1) rest with
      | error e =>
        simp only [hrest] at h
        cases h
      | ok others =>
        simp only [hrest] at h
        cases h
        intro name hname
        rcases List.mem_cons.1 hname with rfl | hname
        · exact isLetteredName_of_headerVariable hfirst
        · exact ih hrest name hname

section

variable {g : Setting} {a : Address} {s : Session} {name target value : String}

/-- **A loop with a name that does not start with a letter** goes over records that have a field of that name, or
over values, unless the name is that of the index. -/
theorem EntersLoop.hasField_or {names : List String} {vars : Namespace} (h : EntersLoop g a s names vars)
    (hmem : name ∈ names) (hletter : Text.isLetteredName name = false) (hindex : name ≠ Namespace.indexName) :
    HasField g s a name ∨ ∃ target value, s.Runs a .foreach target value ∧ dropDollar target = name := by
  cases h with
  | holding runs => cases hmem
  | counted runs parts declared =>
    rw [isLetteredName_of_mem_headerVariables declared name hmem] at hletter
    cases hletter
  | @values target value _ _ runs evaluated =>
    refine .inr ⟨target, value, runs, ?_⟩
    rcases List.mem_cons.1 hmem with rfl | hmem
    · rfl
    · exact absurd (List.mem_singleton.1 hmem) hindex
  | @records k format target value cursor runs kind loaded =>
    exact .inl ⟨k, format, target, value, cursor, runs, kind, loaded, hmem⟩

/-- The header of a loop over values is refused if the variable does not start with a letter. -/
theorem foreachHeader_refuses (hletter : Text.isLetteredName (dropDollar target) = false) :
    (foreachHeader g target value).Ends s fun r t => (∃ f, r = .error f) ∧ t = s := by
  unfold foreachHeader
  dsimp only
  split
  · exact ⟨⟨_, rfl⟩, rfl⟩
  · rw [checkName, hletter]
    exact ⟨⟨_, rfl⟩, rfl⟩

/-- Then the opener enters no loop. -/
theorem reachForeach_lowers (hletter : Text.isLetteredName (dropDollar target) = false) :
    (reachLoop g a .foreach (foreachHeader g target value)).Ends s fun _ t => s.Lowers t := by
  unfold reachLoop
  rw [ends_bind, ends_ask]
  dsimp only
  split
  · have hagain : Within Session.SameSnapshots (do
        change fun s => s.updateLoop fun l => { l with reentering := false }
        (← topLoop).source.advance g
        beginPass g a .foreach) :=
      .bind (.updateLoop fun _ => ⟨rfl, rfl⟩) fun _ => .bind .topLoop fun _ =>
        .bind (advance_same _) fun _ => beginPass_same .foreach
    exact (hagain s).lowers
  · rw [ends_bind]
    refine (foreachHeader_refuses hletter).mono ?_
    rintro r t ⟨⟨f, rfl⟩, rfl⟩
    exact (Session.Unwinds.refl t).lowers

end

section

variable {σ : Type} {g : Setting} {host : Host σ} {m₀ m₁ m : Moment σ} {a : Address} {sn : Snapshot}

/-- A flow command that takes no snapshot takes none by its step. -/
theorem step_lowers {w : World σ} (hc : w.session.current = some a) {c : Command} {k : Keyword}
    (hcmd : w.session.suite.commandAt? a = some c) (hof : Keyword.ofName? c.name = some (k, false))
    (h : (perform g a k (Text.trim c.target) (Text.trim c.value)).Ends w.session fun _ t => w.session.Lowers t) :
    ∃ gone, w.session.snapshots = gone ++ (w.step g host a).2.session.snapshots := by
  have hrun := runCommand_flow g host hc hcmd hof
  unfold Ends at hrun h
  unfold World.step
  rw [hrun]
  generalize perform g a k (Text.trim c.target) (Text.trim c.value) w.session = r at h
  obtain ⟨v, gone, hs, -⟩ := h
  rcases r with ⟨f | _, t⟩
  · have hway := handleFault_unwinds g (f.attach (t.suite.commandRef a)) t
    dsimp only [Except.mapError, World.handleFault] at hs ⊢
    generalize handleFault g (f.attach (t.suite.commandRef a)) t = d at hway ⊢
    obtain ⟨u, ⟨gone', hs', -⟩, hsettled, -⟩ := hway
    have hsn : w.session.snapshots = gone ++ gone' ++ d.2.snapshots := by
      rw [List.append_assoc, ← hsettled, ← hs']
      exact hs
    rcases d with ⟨_ | f', t'⟩
    · exact ⟨_, hsn⟩
    · exact ⟨_, hsn⟩
  · exact ⟨gone, hs⟩

/-- The session in which the command that is next runs. -/
theorem Moment.session_poised (ha : m.next? = some a) : m.poised.session = m.session.poise (some a) := by
  rw [Moment.poised, ha]

/-- What a flow command leads to if its step is done. -/
theorem Moment.of_done (ha : m.next? = some a) {c : Command} {k : Keyword}
    (hcmd : m.session.suite.commandAt? a = some c) (hof : Keyword.ofName? c.name = some (k, false))
    {P : Session → Prop} (h : (perform g a k (Text.trim c.target) (Text.trim c.value)).Ends
      (m.session.poise (some a)) fun r s' => r = .ok () → P s')
    {m' : Moment σ} (hadv : m.advance g host = some (.done, m')) : P m'.session := by
  rw [← m.session_poised ha] at h
  have hflow := step_flow (w := m.poised) g host ha hcmd hof
  unfold Ends at h hflow
  rw [Moment.advance, ha, Option.map_some] at hadv
  obtain ⟨hresult, rfl⟩ := Prod.mk.inj (Option.some.inj hadv)
  have hok := not_not.1 fun hne => hflow.2 hne hresult
  change P (m.poised.step g host a).2.session
  rw [hflow.1 hok]
  exact h hok

/-- No snapshot is added by a step whose command takes none. -/
theorem Moment.not_grown (ha : m.next? = some a) {c : Command} {k : Keyword}
    (hcmd : m.session.suite.commandAt? a = some c) (hof : Keyword.ofName? c.name = some (k, false))
    (h : (perform g a k (Text.trim c.target) (Text.trim c.value)).Ends (m.session.poise (some a))
      fun _ t => (m.session.poise (some a)).Lowers t)
    {x : StepResult} {m' : Moment σ} (hadv : m.advance g host = some (x, m')) (above : List Snapshot) :
    m'.session.snapshots ≠ above ++ sn :: m.session.snapshots := by
  rw [← m.session_poised ha] at h
  obtain ⟨gone, hs⟩ : ∃ gone, m.poised.session.snapshots = gone ++ (m.poised.step g host a).2.session.snapshots :=
    step_lowers ha hcmd hof h
  rw [Moment.advance, ha, Option.map_some] at hadv
  obtain ⟨-, rfl⟩ := Prod.mk.inj (Option.some.inj hadv)
  change (m.poised.step g host a).2.session.snapshots ≠ _
  intro hgrown
  have hlength := congrArg List.length hs
  rw [hgrown, m.session_poised ha] at hlength
  change m.session.snapshots.length = _ at hlength
  simp only [List.length_append, List.length_cons] at hlength
  omega

/-- A snapshot that is kept was taken by a step. -/
theorem Keeps.exists_step (h : Keeps g host sn m₁ m) (hne : m ≠ m₁) : ∃ x m₂,
    m₁.advance g host = some (x, m₂) ∧ ∃ above, m₂.session.snapshots = above ++ sn :: m₁.session.snapshots := by
  induction h with
  | now => exact absurd rfl hne
  | @step m m' x kept advance handled goesOn lasts ih =>
    by_cases hm : m = m₁
    · subst hm
      exact ⟨x, m', advance, lasts⟩
    · exact ih hm

/-- **A construct that has saved a name** that starts with no letter, other than that of the index, is a loop over
records that have a field of that name. -/
theorem Reachable.hasField_of_saved (h : Reachable g host m₀ m) (hm₀ : m₀.Starts) {l : LoopFrame}
    (hl : .loop l ∈ m.session.blocks) {name : String} (hsaved : l.saved.get? name ≠ none)
    (hletter : Text.isLetteredName name = false) (hindex : name ≠ Namespace.indexName) :
    HasField g m.session l.opener name := by
  obtain ⟨inner, outer, hblocks⟩ := List.append_of_mem hl
  have hsn : m.session.snapshots = snapshotsIn inner ++ .loop l.opener l.saved ::
      (snapshotsIn outer ++ m.session.around) := by
    rw [Session.snapshots_eq, hblocks, snapshotsIn_append, List.append_assoc]
    rfl
  obtain ⟨m₁, htaken⟩ := h.exists_taken hm₀ hsn
  have hsuite : m₁.session.suite = m.session.suite := (htaken.reached.suite hm₀).trans (h.suite hm₀).symm
  obtain ⟨a, ha, hentry⟩ := htaken.entry
  generalize hs : Snapshot.loop l.opener l.saved = sn at hentry htaken hsn
  cases hentry with
  | call makes => cases hs
  | @loop names vars enters =>
    obtain ⟨rfl, hnames⟩ := Snapshot.loop.inj hs
    rw [hnames] at hsaved
    rcases enters.hasField_or (mem_of_get?_bindings hsaved) hletter hindex with
      hfield | ⟨target, value, ⟨c, hc, hof, rfl, rfl⟩, hvar⟩
    · exact hfield.of_suite hsuite.symm
    -- The loop over values is not entered by the command that has taken the snapshot.
    · have hne : m ≠ m₁ := by
        rintro rfl
        have hlength := congrArg List.length (hsn.symm.trans htaken.below)
        simp only [List.length_append, List.length_cons] at hlength
        omega
      obtain ⟨x, m₂, hadv, above, hgrown⟩ := htaken.keeps.exists_step hne
      exact absurd hgrown (Moment.not_grown ha hc hof (reachForeach_lowers (hvar ▸ hletter)) hadv above)

/-- What a `return` that goes on has done. -/
theorem Reachable.returns (h : Reachable g host m₀ m) (hm₀ : m₀.Starts) (ha : m.next? = some a) {cmd : Command}
    (hcmd : m.session.suite.commandAt? a = some cmd) (hof : Keyword.ofName? cmd.name = some (.returnValue, false))
    (hexpr : Text.trim cmd.target ≠ "") {x : StepResult} {m' : Moment σ} (hadv : m.advance g host = some (x, m'))
    {c : Call} {outer : List Call} (hc : m'.session.calls = c :: outer) (hret : c.returning = true) :
    x = .done ∧ (m.session.poise (some a)).Returns g (Text.trim cmd.target) m'.session := by
  have hkey : m.session.suite.keywordAt? a = some .returnValue := keywordAt?_of_commandAt? hcmd hof
  have hno (hr : m'.session.Running) : False := by
    cases hret.symm.trans (hr.returning_eq_false hc)
  have hsound := h.sound_poise hm₀ ha
  have hready : (m.session.poise (some a)).Ready :=
    hsound.ready_of_ne_call rfl fun hcall => by cases hkey.symm.trans hcall
  obtain ⟨b, hb, -, hturn⟩ := h.turn hm₀ hadv
  cases ha.symm.trans hb
  obtain rfl : x = .done := by
    cases hturn with
    | finishes | makes | ends => rfl
    | cuts running cuts => exact (hno (cuts.running running)).elim
  refine ⟨rfl, ?_⟩
  rcases Moment.of_done ha hcmd hof (returnFrom_ends hready hkey hexpr) hadv with hcuts | hreturns
  · exact (hno (hcuts.running (hready.runs hsound))).elim
  · exact hreturns

/-- **The caller is handed the result of its call.** -/
theorem Reachable.handed (h : Reachable g host m₀ m) (hm₀ : m₀.Starts) {c : Call} {outer : List Call}
    (hc : m.session.calls = c :: outer) (hret : c.returning = true) :
    m.next? = some c.returnTo ∧ ∃ m', m.advance g host = some (.done, m') ∧ m'.session.calls = outer ∧
      m'.session.vars.get? Namespace.resultName = m.session.vars.get? Namespace.resultName := by
  obtain ⟨-, -, hnext⟩ := h.returning hm₀ (show m.session.calls = [] ++ c :: outer from hc) hret
  obtain ⟨⟨x, m'⟩, hadv⟩ : ∃ r, m.advance g host = some r := ⟨_, by rw [Moment.advance, hnext]; rfl⟩
  obtain ⟨a, ha, -, hturn⟩ := h.turn hm₀ hadv
  cases hnext.symm.trans ha
  obtain ⟨rfl, hcalls, -⟩ := hturn.of_ended hc hret
  refine ⟨hnext, m', hadv, hcalls, ?_⟩
  obtain ⟨b, new?, gone, u, hb, he⟩ := Moment.exchange_of_advance (h.sound hm₀) hadv
  cases hnext.symm.trans hb
  have hended : (m.session.poise (some c.returnTo)).isReturningTo c.returnTo = true := by
    change m.session.isReturningTo c.returnTo = true
    simp [Session.isReturningTo, hc, hret]
  cases he.aftermath with
  | settled running =>
    cases hended.symm.trans running
  | handsOver ended vars =>
    rw [vars, get?_handResult]
    rfl

/-- **Returned values arrive** unless a loop over records hides them.  When a `return` with an expression ends the
active call, the expression has evaluated to a value, the command of the call runs next, and it takes the call off and
hands the caller a result.  This is the value, unless a loop of the function was open that has `_result` for one of
its names: then it is what the lowest such loop had saved for it, if anything.  Such a loop goes over records that
have a field `_result`, whatever other constructs are open. -/
theorem returned_value_arrives (hm₀ : m₀.Starts) (h : Reachable g host m₀ m) (ha : m.next? = some a) {cmd : Command}
    (hcmd : m.session.suite.commandAt? a = some cmd) (hof : Keyword.ofName? cmd.name = some (.returnValue, false))
    (hexpr : Text.trim cmd.target ≠ "") {x : StepResult} {m' : Moment σ} (hadv : m.advance g host = some (x, m'))
    {c : Call} {outer : List Call} (hc : m'.session.calls = c :: outer) (hret : c.returning = true) :
    ∃ v, (g.evaluate (Text.trim cmd.target) m.session.vars).1 = .ok v ∧
      m'.next? = some c.returnTo ∧ ∃ m'', m'.advance g host = some (.done, m'') ∧ m''.session.calls = outer ∧
      m''.session.vars.get? Namespace.resultName =
        (lowest? Namespace.resultName (snapshotsIn m.session.blocks)).getD (some v) ∧
      ((∀ l, .loop l ∈ m.session.blocks → ¬HasField g m.session l.opener Namespace.resultName) →
        m''.session.vars.get? Namespace.resultName = some v) := by
  obtain ⟨rfl, hreturns⟩ := h.returns hm₀ ha hcmd hof hexpr hadv hc hret
  obtain ⟨v, hv, hresult⟩ := hreturns.result
  have hgoesOn : m'.session.exitRequested = false := hreturns.exitRequested.trans (h.exitRequested hm₀)
  obtain ⟨hnext, m'', hadv', hcalls, hhanded⟩ := (h.step hadv nofun hgoesOn).handed hm₀ hc hret
  refine ⟨v, hv, hnext, m'', hadv', hcalls, hhanded.trans hresult, fun hclear => ?_⟩
  rw [hhanded, hresult]
  suffices hnone : lowest? Namespace.resultName (snapshotsIn m.session.blocks) = none by
    change (lowest? Namespace.resultName (snapshotsIn m.session.blocks)).getD _ = _
    rw [hnone]
    rfl
  refine List.findSome?_eq_none_iff.2 fun sn hsn => ?_
  obtain ⟨f, hf, hsaved⟩ := List.mem_filterMap.1 (List.mem_reverse.1 hsn)
  cases f with
  | conditional | guarded => cases hsaved
  | loop l =>
    cases hsaved
    by_contra hne
    exact hclear l hf (h.hasField_of_saved hm₀ hf hne (by decide) (by decide))

/-- A function returns from inside a conditional, and the caller has the value. -/
theorem value_returned_inside_if : ∃ (m₀ m m' m'' : Moment Unit) (v : Value),
    Moment.ofUnits [.named "main" [{ name := "call", target := "f" }, { name := "function", target := "f" },
      { name := "if", target := "x" }, { name := "return", target := "y" }, { name := "endIf" },
      { name := "endFunction" }]] = .ok m₀ ∧
    m₀.after? .trivial silent 3 = some m ∧ m.next? = some ⟨0, 3⟩ ∧ m.advance .trivial silent = some (.done, m') ∧
    m'.next? = some ⟨0, 0⟩ ∧ m'.advance .trivial silent = some (.done, m'') ∧ m''.session.calls = [] ∧
    m''.session.vars.get? Namespace.resultName = some v := by
  obtain ⟨m₀, m, m', c, hm₀, hm, hnext, hcmd, hadv, hcalls, hret, hsite, hblocks⟩ :
      ∃ (m₀ m m' : Moment Unit) (c : Call),
      Moment.ofUnits [.named "main" [{ name := "call", target := "f" }, { name := "function", target := "f" },
        { name := "if", target := "x" }, { name := "return", target := "y" }, { name := "endIf" },
        { name := "endFunction" }]] = .ok m₀ ∧
      m₀.after? .trivial silent 3 = some m ∧ m.next? = some ⟨0, 3⟩ ∧
      m.session.suite.commandAt? ⟨0, 3⟩ = some { name := "return", target := "y" } ∧
      m.advance .trivial silent = some (.done, m') ∧ m'.session.calls = [c] ∧ c.returning = true ∧ c.returnTo = ⟨0, 0⟩ ∧
      ∀ f ∈ m.session.blocks, f.isLoop = false := by
    refine ⟨_, _, _, _, rfl, rfl, rfl, rfl, rfl, rfl, rfl, rfl, ?_⟩
    intro f hf
    rcases List.mem_singleton.1 hf with rfl
    rfl
  obtain ⟨v, -, hback, m'', hadv', houter, -, harrives⟩ := returned_value_arrives (starts_ofUnits hm₀)
    (reachable_of_after? hm) hnext hcmd rfl (by decide) hadv hcalls hret
  refine ⟨m₀, m, m', m'', v, hm₀, hm, hnext, hadv, hsite ▸ hback, hadv', houter, harrives fun l hl => ?_⟩
  cases hblocks _ hl

end

end BlockFlow.Flow
