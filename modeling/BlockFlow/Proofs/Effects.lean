/-
# Effects on snapshots

What a command does to the snapshots and the variables of its session.  `EntersLoop` says which names are a
loop's own and which variables they are saved from, and `MakesCall` what the arguments of a call are and what
variables the caller is left with.  `Effect` lists the ways of a command: it leaves loops and calls after the
variables have changed, finishes a call, enters a loop, or makes a call.

Most commands neither enter nor leave a loop or a call, whatever they do otherwise; they are within
`Session.SameSnapshots`.
-/
import BlockFlow.Proofs.Snapshots

namespace BlockFlow.Flow

open BlockFlow.Flow.Action

/-! ## 1. Loops and calls that are entered -/

/-- A flow command at an address, with its trimmed target and value. -/
def Session.Runs (s : Session) (a : Address) (k : Keyword) (target value : String) : Prop :=
  ∃ c, s.suite.commandAt? a = some c ∧ Keyword.ofName? c.name = some (k, false) ∧
    target = Text.trim c.target ∧ value = Text.trim c.value

/-- **A loop is about to be entered**: the names that are its own, and the variables once its header was read. -/
inductive EntersLoop (g : Setting) (a : Address) (s : Session) : List String → Namespace → Prop
  | holding {target value : String} (runs : s.Runs a .whileLoop target value) : EntersLoop g a s [] s.vars
  | counted {target value init cond iterate : String} {names : List String}
      (runs : s.Runs a .forLoop target value) (parts : Text.splitTopLevel ';' target = [init, cond, iterate])
      (declared : headerVariables 1 (Text.splitTopLevel ',' init) = .ok names) : EntersLoop g a s names s.vars
  | values {target value : String} {v : Value} {vars : Namespace} (runs : s.Runs a .foreach target value)
      (evaluated : g.evaluate ("[" ++ value ++ "]") s.vars = (.ok v, vars)) :
      EntersLoop g a s [dropDollar target, Namespace.indexName] vars
  | records {k : Keyword} {format : DataFormat} {target value : String} {cursor : DataCursor}
      (runs : s.Runs a k target value)
      (kind : k = .forJson ∧ format = .json ∨ k = .forXml ∧ format = .xml)
      (loaded : (DataCursor.new format).load g.files (dataPath g s a.unit target) = .ok cursor) :
      EntersLoop g a s cursor.fields s.vars

/-- Arguments are evaluated from left to right, each over the variables that the one before it leaves. -/
inductive Evaluates (g : Setting) : List String → Namespace → List (String × Value) → Namespace → Prop
  | nil {vars : Namespace} : Evaluates g [] vars [] vars
  | blank {part : String} {parts : List String} {vars after : Namespace} {args : List (String × Value)}
      (blank : part.isEmpty) (rest : Evaluates g parts vars args after) :
      Evaluates g (part :: parts) vars args after
  | cons {part name expr : String} {parts : List String} {v : Value} {vars between after : Namespace}
      {args : List (String × Value)} (argument : argument part = .ok (name, expr))
      (evaluated : g.evaluate expr vars = (.ok v, between)) (rest : Evaluates g parts between args after) :
      Evaluates g (part :: parts) vars ((name, v) :: args) after

/-- **A call is about to be made**: its arguments, and the caller's variables once they were evaluated. -/
def MakesCall (g : Setting) (a : Address) (s : Session) (args : List (String × Value)) (vars : Namespace) : Prop :=
  ∃ target value, s.Runs a .call target value ∧ (s.suite.tables.functions.get? target).isSome ∧
    Evaluates g (Text.splitTopLevel ',' value) s.vars args vars

/-- What a command at an address saves that enters a loop or makes a call. -/
inductive Entry (g : Setting) (a : Address) (s : Session) : Snapshot → Prop
  | loop {names : List String} {vars : Namespace} (enters : EntersLoop g a s names vars) :
      Entry g a s (.loop a (bindings names vars))
  | call {args : List (String × Value)} {vars : Namespace} (makes : MakesCall g a s args vars) :
      Entry g a s (.call a vars)

/-- **What one command does** to the snapshots and the variables. -/
inductive Effect (g : Setting) (a : Address) (s : Session) : Except Fault Unit → Session → Prop
  | leaves {r : Except Fault Unit} {t : Session} (running : r = .ok () → s.isReturningTo a = false)
      (lowers : s.Lowers t) : Effect g a s r t
  | finishes (ended : s.isReturningTo a) : Effect g a s (.ok ()) s.finishCall
  | enters {names : List String} {vars : Namespace} {r : Except Fault Unit} {t : Session}
      (running : r = .ok () → s.isReturningTo a = false) (enters : EntersLoop g a s names vars)
      (snapshots : t.snapshots = .loop a (bindings names vars) :: s.snapshots) : Effect g a s r t
  | calls {args : List (String × Value)} {vars : Namespace} {t : Session} (running : s.isReturningTo a = false)
      (makes : MakesCall g a s args vars)
      (snapshots : t.snapshots = .call a vars :: s.snapshots) (arguments : t.vars = Dict.ofList args) :
      Effect g a s (.ok ()) t

section

variable {g : Setting} {a : Address} {s : Session}

/-- The fault of a command may have its reference attached. -/
theorem Effect.error {f : Fault} {t : Session} (h : Effect g a s (.error f) t) (f' : Fault) :
    Effect g a s (.error f') t := by
  cases h with
  | leaves running lowers => exact .leaves (by rintro ⟨⟩) lowers
  | enters running enters snapshots => exact .enters (by rintro ⟨⟩) enters snapshots

/-! ## 2. Conditionals, tries and jumps -/

variable {R : Session → Session → Prop} [Session.Course R]

theorem takeUntried_within : takeUntried.Within R := by
  refine .bind (.ask _) fun blocks => ?_
  split
  · exact .bind (.updateIf _) fun _ => .pure _
  · exact .pure _

theorem tryBranch_within (he : ∀ expr, (evaluate g expr).Within R) (b : Block) (cond : String) :
    (tryBranch g b cond).Within R :=
  .bind (.condition he cond) fun _ => .ite (.updateIf _) (.bind takeUntried_within fun _ => .goToPart _ _)

theorem enterIf_within (he : ∀ expr, (evaluate g expr).Within R) (cond : String) : (enterIf g a cond).Within R :=
  .bind (.block a) fun b =>
    .bind (.push (fun _ => rfl) (fun _ => Session.vars_setBlocks _ _) rfl) fun _ => tryBranch_within he b cond

theorem reachElseIf_within (he : ∀ expr, (evaluate g expr).Within R) (cond : String) :
    (reachElseIf g a cond).Within R :=
  .bind (owningIf_within a) fun b => .bind (.ask _) fun _ => .ite (.goToPart _ _) (tryBranch_within he b cond)

theorem reachElse_within (a : Address) : (reachElse a).Within R :=
  .bind (owningIf_within a) fun _ => .bind (.ask _) fun _ => .ite (.goToPart _ _) (.pure _)

theorem enterTry_within (a : Address) : (enterTry a).Within R :=
  .bind (.block a) fun _ => .bind (.ask _) fun _ => .ite
    (.push (fun _ => rfl) (fun _ => Session.vars_setBlocks _ _) rfl)
    (.push (fun _ => rfl) (fun _ => Session.vars_setBlocks _ _) rfl)

theorem reachCatch_within (a : Address) : (reachCatch a).Within R :=
  .bind (.block a) fun _ => .bind (.requireActive _) fun _ => .bind (.ask _) fun _ =>
    .ite (.goToPart _ _) (.pure _)

theorem reachFinally_same (a : Address) : (reachFinally a).Within Session.SameSnapshots :=
  .bind (.block a) fun _ => .bind (.requireActive _) fun _ =>
    .bind OnlyVars.clearError.sameSnapshots fun _ => .updateTry _

/-- A jump ends conditionals only. -/
theorem snapshotsIn_keepSpanning (suite : Suite) (goal : Address) (fs : List Frame) :
    snapshotsIn (keepSpanning suite goal fs) = snapshotsIn fs := by
  induction fs with
  | nil => rfl
  | cons f fs ih =>
    unfold keepSpanning
    split
    · rename_i c rest heq
      cases heq
      split
      · rfl
      · exact ih
    · rfl

theorem jump_within (start goal : Address) : (jump start goal).Within R := by
  refine .bind (.ask _) fun suite => ?_
  split
  · exact .throw _
  · exact .quiet (fun s => Session.snapshots_of_blocks (snapshotsIn_keepSpanning _ _ _)) fun s =>
      Session.vars_setBlocks _ _

theorem goto_within (label : String) : (goto a label).Within R := by
  refine .bind (.ask _) fun suite => ?_
  split
  · exact jump_within _ _
  · exact .fail _

theorem gotoIf_within (he : ∀ expr, (evaluate g expr).Within R) (cond label : String) :
    (gotoIf g a cond label).Within R :=
  .bind (.condition he cond) fun _ => .ite (goto_within label) (.pure _)

theorem skipNext_within (he : ∀ expr, (evaluate g expr).Within R) (spec : String) : (skipNext g a spec).Within R := by
  refine .bind (.skipCount he spec) fun count => .ite (.pure _) <| .bind (.ask _) fun suite => ?_
  split
  · exact .throw _
  · exact jump_within _ _

/-! ## 3. Loops -/

theorem setSource_within (source : LoopSource) : (setSource source).Within R := .updateLoop fun _ => ⟨rfl, rfl⟩

theorem advance_same (source : LoopSource) : (source.advance g).Within Session.SameSnapshots := by
  cases source with
  | holding | records => exact .pure _
  | counted init cond iterate => exact (OnlyVars.evaluateAll g iterate).sameSnapshots
  | values var items index =>
    exact .bind (setSource_within _) fun _ => (OnlyVars.bindItem var items (index + 1)).sameSnapshots

theorem hasPass_same (source : LoopSource) : (source.hasPass g).Within Session.SameSnapshots := by
  cases source with
  | holding cond | counted init cond iterate => exact (OnlyVars.condition g cond).sameSnapshots
  | values var items index => exact .bind (OnlyVars.bindName _ _).sameSnapshots fun _ => .pure _
  | records cursor =>
    refine .ite (.pure _) <| .bind (.ask _) fun vars => ?_
    split
    · exact .throw _
    · exact .bind (OnlyVars.change _).sameSnapshots fun _ => .bind (setSource_within _) fun _ => .pure _

theorem beginPass_same (k : Keyword) : (beginPass g a k).Within Session.SameSnapshots :=
  .bind .topLoop fun _ => .bind (hasPass_same _) fun _ => .bind (.updateLoop fun _ => ⟨rfl, rfl⟩) fun _ =>
    .ite (.bind (.block a) fun _ => .goToPart _ _) (.pure _)

/-- **The opener of a loop** goes on with the loop, or enters it once its header was read. -/
theorem reachLoop_effect {k : Keyword} {header : Action LoopHeader}
    (hrun : s.isReturningTo a = false)
    (hheader : header.Ends s fun r t =>
      ∃ v, t = s.withVars v ∧ ∀ h, r = .ok h → EntersLoop g a s h.names v) :
    (reachLoop g a k header).Ends s (Effect g a s) := by
  unfold reachLoop
  rw [ends_bind, ends_ask]
  dsimp only
  split
  · have hagain : Within Session.SameSnapshots (do
        change fun s => s.updateLoop fun l => { l with reentering := false }
        (← topLoop).source.advance g
        beginPass g a k) :=
      .bind (.updateLoop fun _ => ⟨rfl, rfl⟩) fun _ => .bind .topLoop fun _ =>
        .bind (advance_same _) fun _ => beginPass_same k
    exact .leaves (fun _ => hrun) (hagain s).lowers
  · rw [ends_bind]
    refine hheader.mono ?_
    rintro r t ⟨v, ht, hnames⟩
    cases r with
    | error f => exact .leaves (by rintro ⟨⟩) ⟨v, ht ▸ .refl _⟩
    | ok h =>
      have hpushed : Within (fun s t => t.snapshots = .loop a (bindings h.names s.vars) :: s.snapshots) (pushLoop a h) := by
        intro s
        change (s.push _).snapshots = _
        rw [Session.push, Session.snapshots_setBlocks, Session.snapshots_eq s]
        rfl
      have hbegun : Within (fun s t => t.snapshots = .loop a (bindings h.names s.vars) :: s.snapshots) (do
          pushLoop a h
          h.source.begin g
          beginPass g a k) :=
        .bind_of hpushed (S := Session.SameSnapshots)
          (fun _ => .bind (OnlyVars.begin g h.source).sameSnapshots fun _ => beginPass_same k) id
          fun h h' => h'.trans h
      subst ht
      exact .enters (fun _ => hrun) (hnames h rfl) (hbegun (s.withVars v))

/-- The header of a loop over values, which the values may change variables for. -/
theorem foreachHeader_ends {target value : String} (hruns : s.Runs a .foreach target value) :
    (foreachHeader g target value).Ends s fun r t =>
      ∃ v, t = s.withVars v ∧ ∀ h, r = .ok h → EntersLoop g a s h.names v := by
  have hstop (e : FlowError) : ∃ v, s = s.withVars v ∧
      ∀ h : LoopHeader, (.error e.fault : Except Fault LoopHeader) = .ok h → EntersLoop g a s h.names v :=
    ⟨s.vars, rfl, by rintro h ⟨⟩⟩
  have hvalues : Ends (do
      let items := loopValues (← evaluate g ("[" ++ value ++ "]"))
      return { source := .values (dropDollar target) items 0, names := [dropDollar target, Namespace.indexName] }) s
      fun r t => ∃ v, t = s.withVars v ∧ ∀ h : LoopHeader, r = .ok h → EntersLoop g a s h.names v := by
    rw [ends_bind, ends_evaluate]
    rcases hv : g.evaluate ("[" ++ value ++ "]") s.vars with ⟨e | v, vars⟩
    · exact ⟨vars, rfl, by rintro h ⟨⟩⟩
    · refine ⟨vars, rfl, ?_⟩
      rintro h ⟨⟩
      exact .values hruns hv
  unfold foreachHeader
  dsimp only
  split
  · exact hstop _
  · split
    · exact hstop _
    · split
      · exact hstop _
      · exact hvalues

/-- The header of a loop over records changes nothing. -/
theorem recordsHeader_ends {k : Keyword} {format : DataFormat} {target value : String}
    (hruns : s.Runs a k target value) (hkind : k = .forJson ∧ format = .json ∨ k = .forXml ∧ format = .xml) :
    (recordsHeader g a k format target).Ends s fun r t =>
      ∃ v, t = s.withVars v ∧ ∀ h, r = .ok h → EntersLoop g a s h.names v := by
  unfold recordsHeader
  split
  · exact ⟨s.vars, rfl, by rintro h ⟨⟩⟩
  · rw [ends_bind, ends_ask]
    dsimp only
    split
    · exact ⟨s.vars, rfl, by rintro h ⟨⟩⟩
    · rename_i cursor hcursor
      refine ⟨s.vars, rfl, ?_⟩
      rintro h ⟨⟩
      exact .records hruns hkind hcursor

theorem whileHeader_names {cond : String} {h : LoopHeader} (hh : whileHeader cond = .ok h) : h.names = [] := by
  unfold whileHeader at hh
  split at hh
  · cases hh
  · cases hh
    rfl

theorem forHeader_names {target : String} {h : LoopHeader} (hh : forHeader target = .ok h) :
    ∃ init cond iterate, Text.splitTopLevel ';' target = [init, cond, iterate] ∧
      headerVariables 1 (Text.splitTopLevel ',' init) = .ok h.names := by
  unfold forHeader at hh
  split at hh
  · rename_i init cond iterate hparts
    refine ⟨init, cond, iterate, hparts, ?_⟩
    dsimp only at hh
    split at hh
    · cases hh
    · cases hn : headerVariables 1 (Text.splitTopLevel ',' init) with
      | error e =>
        rw [hn] at hh
        cases hh
      | ok names =>
        rw [hn] at hh
        cases hh
        rfl
  · cases hh

/-! ## 4. Calls -/

/-- **Arguments are evaluated from left to right**, and of two with one name the later wins. -/
theorem arguments_ends (parts : List String) : ∀ (args : Namespace) (s : Session),
    (arguments g args parts).Ends s fun r t => ∃ v, t = s.withVars v ∧
      ∀ b, r = .ok b → ∃ added, Evaluates g parts s.vars added v ∧ b = args.insertAll added := by
  induction parts with
  | nil =>
    intro args s
    refine ⟨s.vars, rfl, ?_⟩
    rintro b ⟨⟩
    exact ⟨[], .nil, rfl⟩
  | cons part parts ih =>
    intro args s
    unfold arguments
    split
    · rename_i hblank
      refine (ih args s).mono ?_
      rintro r t ⟨v, ht, hr⟩
      refine ⟨v, ht, fun b hb => ?_⟩
      obtain ⟨added, heval, hadded⟩ := hr b hb
      exact ⟨added, .blank hblank heval, hadded⟩
    · split
      · exact ⟨s.vars, rfl, by rintro b ⟨⟩⟩
      · rename_i name expr harg
        rw [ends_bind, ends_evaluate]
        rcases hv : g.evaluate expr s.vars with ⟨e | v, vars⟩
        · exact ⟨vars, rfl, by rintro b ⟨⟩⟩
        · refine (ih (args.insert name v) (s.withVars vars)).mono ?_
          rintro r t ⟨w, ht, hr⟩
          refine ⟨w, ht, fun b hb => ?_⟩
          obtain ⟨added, heval, rfl⟩ := hr b hb
          exact ⟨(name, v) :: added, .cons harg hv heval, rfl⟩

/-- **A call** is finished if it has ended, and otherwise made once its arguments were evaluated. -/
theorem reachCall_effect {target value : String} (hruns : s.Runs a .call target value) :
    (reachCall g a target value).Ends s (Effect g a s) := by
  unfold reachCall
  rw [ends_bind, ends_ask]
  dsimp only
  split
  · exact .leaves (by rintro ⟨⟩) (Session.Unwinds.refl s).lowers
  · rename_i callee hcallee
    rw [ends_bind, ends_ask]
    dsimp only
    split
    · exact .finishes ‹_›
    · rename_i hrun
      rw [ends_bind]
      refine (arguments_ends _ ∅ s).mono ?_
      rintro r t ⟨v, ht, hr⟩
      subst ht
      cases r with
      | error f => exact .leaves (by rintro ⟨⟩) ⟨v, .refl _⟩
      | ok args =>
        obtain ⟨added, heval, hadded⟩ := hr args rfl
        have hmakes : MakesCall g a s added v := ⟨target, value, hruns, by rw [hcallee]; rfl, heval⟩
        exact .calls (Bool.eq_false_iff.2 hrun) hmakes rfl hadded

/-- A function that was not called is passed over. -/
theorem reachFunction_within (a : Address) : (reachFunction a).Within R :=
  .bind (.ask _) fun _ => .ite (.bind (.block a) fun _ => .goToPart _ _) (.pure _)

/-! ## 5. Every command -/

theorem Action.Within.effect {m : Action Unit} (h : m.Within Session.Lowers) (hrun : s.isReturningTo a = false) :
    m.Ends s (Effect g a s) := .leaves (fun _ => hrun) (h s)

theorem Action.Within.effect_of_same {m : Action Unit} (h : m.Within Session.SameSnapshots)
    (hrun : s.isReturningTo a = false) : m.Ends s (Effect g a s) := .leaves (fun _ => hrun) (h s).lowers

/-- A session that is ready waits for no call to be finished. -/
theorem Session.Ready.isReturningTo (h : s.Ready) (a : Address) : s.isReturningTo a = false := by
  unfold Session.isReturningTo
  cases hcs : s.calls with
  | nil => rfl
  | cons c calls => simp [h.running c calls hcs]

theorem perform_effect {k : Keyword} {target value : String} (hruns : s.Runs a k target value)
    (hready : k ≠ .call → s.Ready) : (perform g a k target value).Ends s (Effect g a s) := by
  have hk : s.suite.keywordAt? a = some k := by
    obtain ⟨c, hc, hname, -⟩ := hruns
    exact keywordAt?_of_commandAt? hc hname
  by_cases hcall : k = .call
  · subst hcall
    exact reachCall_effect hruns
  have hrun := (hready hcall).isReturningTo a
  have he (expr : String) : (evaluate g expr).Within Session.SameSnapshots := (OnlyVars.evaluate g expr).sameSnapshots
  cases k
  case label => exact .leaves (fun _ => hrun) (Session.Unwinds.refl s).lowers
  case goto => exact (goto_within target).effect_of_same hrun
  case gotoIf => exact (gotoIf_within he target value).effect_of_same hrun
  case skipNext => exact (skipNext_within he target).effect_of_same hrun
  case ifThen => exact (enterIf_within he target).effect_of_same hrun
  case elseIf => exact (reachElseIf_within he target).effect_of_same hrun
  case otherwise => exact (reachElse_within a).effect_of_same hrun
  case endIf => exact (leaveIf_unwinds a).lowers.effect hrun
  case tryBlock => exact (enterTry_within a).effect_of_same hrun
  case catchError => exact (reachCatch_within a).effect_of_same hrun
  case finallyDo => exact (reachFinally_same a).effect_of_same hrun
  case endTry => exact (leaveTry_lowers (hready hcall) hk).mono fun r t h => .leaves (fun _ => hrun) h
  case «throwError» => exact (OnlyVars.throwValue g target).lowers.effect hrun
  case whileLoop =>
    refine reachLoop_effect hrun ?_
    split
    · rename_i h hh
      refine ⟨s.vars, rfl, ?_⟩
      rintro _ ⟨⟩
      rw [whileHeader_names hh]
      exact .holding hruns
    · exact ⟨s.vars, rfl, by rintro h ⟨⟩⟩
  case forLoop =>
    refine reachLoop_effect hrun ?_
    split
    · rename_i h hh
      obtain ⟨init, cond, iterate, hparts, hnames⟩ := forHeader_names hh
      refine ⟨s.vars, rfl, ?_⟩
      rintro _ ⟨⟩
      exact .counted hruns hparts hnames
    · exact ⟨s.vars, rfl, by rintro h ⟨⟩⟩
  case foreach => exact reachLoop_effect hrun (foreachHeader_ends hruns)
  case forJson => exact reachLoop_effect hrun (recordsHeader_ends hruns (.inl ⟨rfl, rfl⟩))
  case forXml => exact reachLoop_effect hrun (recordsHeader_ends hruns (.inr ⟨rfl, rfl⟩))
  case breakLoop => exact (breakLoop_lowers target).effect hrun
  case continueLoop => exact (continueLoop_lowers target).effect hrun
  case endWhile | endFor | endForeach | endForJson | endForXml =>
    exact (closeLoop_unwinds a).lowers.effect hrun
  case call => exact absurd rfl hcall
  case function | script => exact (reachFunction_within a).effect_of_same hrun
  case returnValue => exact (returnFrom_lowers target).effect hrun
  case endFunction | endScript => exact (returnFrom_lowers "").effect hrun
  case exitTest => exact (exitRun_unwinds a).lowers.effect hrun
  case loadJsonVars => exact (OnlyVars.loadRecord g a .json target value).lowers.effect hrun
  case loadXmlVars => exact (OnlyVars.loadRecord g a .xml target value).lowers.effect hrun

/-- **Every flow command** has one of the effects that are listed. -/
theorem dispatch_effect (g : Setting) (hready : s.suite.keywordAt? a ≠ some .call → s.Ready) :
    (dispatch g a).Ends s (Effect g a s) := by
  have hnone (e : Fault) : Effect g a s (.error e) s := .leaves (by rintro ⟨⟩) (Session.Unwinds.refl s).lowers
  unfold dispatch
  rw [ends_bind, ends_ask]
  dsimp only
  split
  · exact hnone _
  · rename_i c hc
    have hc' : s.suite.commandAt? a = some c := Command.locate_eq_ok_iff.1 hc
    split
    · rename_i k hk
      refine perform_effect ⟨c, hc', hk, rfl, rfl⟩ fun hne => hready fun hcall => hne ?_
      exact Option.some.inj ((keywordAt?_of_commandAt? hc' hk).symm.trans hcall)
    · exact hnone _

/-- A call that has ended is finished by its command, and every other command finds its session ready. -/
theorem Session.Sound.ready_of_ne_call (h : s.Sound a) (hp : s.pending = none)
    (hk : s.suite.keywordAt? a ≠ some .call) : s.Ready := by
  refine h.ready hp fun c hc => Bool.eq_false_iff.2 fun hret => hk ?_
  have hne : ¬s.Running := fun hr => by simp [hr c hc] at hret
  obtain ⟨d, calls, hcs, hd⟩ := h.exists_returning hne
  have hkey := (h.calls d (by rw [hcs]; exact List.mem_cons_self)).keyword
  rwa [← (h.returning d calls hcs hd).2] at hkey

end

section

variable {σ : Type} {g : Setting} {host : Host σ} {a : Address} {w : World σ}

variable (g host) in
/-- **Every command that runs** has one of the effects that are listed; one of the host changes variables only. -/
theorem runCommand_effect (h : w.session.Sound a) (hp : w.session.pending = none) (hc : w.session.current = some a) :
    Effect g a w.session (w.runCommand g host a).1 (w.runCommand g host a).2.session := by
  have hexec : Effect g a w.session (w.execute g a).1 (w.execute g a).2.session := by
    have heff := dispatch_effect g (h.ready_of_ne_call hp)
    have hcur : { w.session with current := some a } = w.session := by rw [← hc]
    unfold World.execute Session.execute
    rw [hcur]
    unfold Action.Ends at heff
    rcases hd : dispatch g a w.session with ⟨r, t⟩
    rw [hd] at heff
    cases r with
    | ok _ => exact heff
    | error f => exact heff.error _
  unfold World.runCommand
  split
  · rename_i c hcmd
    split
    · exact hexec
    · rename_i hh
      have hk := keywordAt?_of_not_handles hcmd (Bool.eq_false_iff.2 hh)
      unfold World.delegate
      exact .leaves (fun _ => (h.ready_of_ne_call hp (by rw [hk]; rintro ⟨⟩)).isReturningTo a) ⟨_, .refl _⟩
  · exact hexec

end

end BlockFlow.Flow
