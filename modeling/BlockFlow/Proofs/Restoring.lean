/-
# What a run gives back

`Exchange` says what one step does to the snapshots of its session: it may put one on, it takes some off from
the top, and it gives back what it takes off.  Whatever comes after that in the same step is an `Aftermath`: a
call hands its result to the caller, or a handler is asked and catches the fault.

Every snapshot of a run was taken by a command that entered a loop or made a call, on top of the snapshots that
are still below it (`Taken`, `Reachable.exists_taken`).  So what is given back is known from the moment at which
it was saved.
-/
import BlockFlow.Proofs.Effects

namespace BlockFlow.Flow

open BlockFlow.Flow.Action

/-! ## 1. After the removals of a step -/

/-- The variables after a handler was asked: its target is evaluated, unless it is empty or a pattern. -/
def handlerVars (g : Setting) (suite : Suite) (p : Address) (vars : Namespace) : Namespace :=
  let target := Text.trim (((suite.commandAt? p).map Command.target).getD "")
  if target.isEmpty || (patternBody? target).isSome then vars else (g.evaluate target vars).2

/-- The variables of a caller who is handed a result, or that there is none. -/
def handResult (result? : Option Value) (vars : Namespace) : Namespace :=
  match result? with
  | some v => vars.insert Namespace.resultName v
  | none => vars.erase Namespace.resultName

/-- Variables after the handler of the innermost construct was asked, if one was. -/
def Session.Asked (g : Setting) (u : Session) (vars : Namespace) : Prop :=
  vars = u.vars ∨ ∃ t rest p, u.blocks = .guarded t :: rest ∧ catchOf? u.suite t.opener = some p ∧
    vars = handlerVars g u.suite p u.vars

/-- What becomes of the variables when a fault is offered to the innermost construct. -/
inductive Offered (g : Setting) (f : Fault) (u : Session) : Except Fault Disposition → Namespace → Prop
  | caught {t : TryFrame} {rest : List Frame} {p : Address} (innermost : u.blocks = .guarded t :: rest)
      (fits : u.Catches g f t p) : Offered g f u (.ok .handled)
        ((handlerVars g u.suite p u.vars).insert Namespace.errorName (.text f.message))
  | passed {r : Except Fault Disposition} {vars : Namespace}
      (missed : ∀ t rest p, u.blocks = .guarded t :: rest → ¬u.Catches g f t p) (asked : u.Asked g vars) :
      Offered g f u r vars

/-- **What comes after the removals** of a step over the command at an address. -/
inductive Aftermath (g : Setting) (a : Address) (s u : Session) : StepResult → Session → Prop
  | settled {s' : Session} (running : s.isReturningTo a = false) (vars : s'.vars = u.vars) :
      Aftermath g a s u .done s'
  | handsOver {s' : Session} (ended : s.isReturningTo a)
      (vars : s'.vars = handResult (s.vars.get? Namespace.resultName) u.vars) : Aftermath g a s u .done s'
  | handled {f : Fault} {s' : Session} (offered : Offered g f u (.ok .handled) s'.vars) :
      Aftermath g a s u (.handled f) s'
  | unhandled {f : Fault} {s' : Session} (asked : u.Asked g s'.vars) : Aftermath g a s u (.unhandled f) s'

/-- **What a step does to the snapshots**: it may put one on, and the session after it has taken some off gives
back what they saved. -/
structure Exchange (g : Setting) (a : Address) (s : Session) (new? : Option Snapshot) (gone : List Snapshot)
    (u : Session) (x : StepResult) (s' : Session) : Prop where
  entry : ∀ sn ∈ new?, Entry g a s sn
  moved : new?.toList ++ s.snapshots = gone ++ s'.snapshots
  settled : u.snapshots = s'.snapshots
  restored : ∃ v, u.vars = restoreAll v gone
  aftermath : Aftermath g a s u x s'
  arguments : ∀ site v, new? = some (.call site v) →
    gone = [] ∧ x = .done ∧ ∃ args, MakesCall g a s args v ∧ s'.vars = Dict.ofList args

section

variable {g : Setting} {a : Address} {s u : Session} {f : Fault}

/-- Asking a handler changes what its target changes. -/
theorem catches_ends (g : Setting) (message : String) (p : Address) (s : Session) :
    (catches g message p).Ends s fun _ t => t = s.withVars (handlerVars g s.suite p s.vars) := by
  unfold catches handlerVars
  rw [ends_bind, ends_ask]
  dsimp only
  generalize Text.trim (((s.suite.commandAt? p).map Command.target).getD "") = target
  by_cases hempty : target.isEmpty
  · rw [if_pos hempty, hempty]
    rfl
  · rw [if_neg hempty, ends_bind]
    unfold handlerText
    by_cases hpattern : (patternBody? target).isSome
    · rw [if_pos hpattern, hpattern, Bool.or_true]
      rfl
    · rw [if_neg hpattern, if_neg (by simp [hempty, hpattern]), ends_tryCatch, ends_bind, ends_evaluate]
      cases (g.evaluate target s.vars).1 <;> rfl

theorem passOn_still (f : Fault) (t : TryFrame) (b : Block) : (passOn f t b).Within Session.Still := by
  refine .bind (.quiet (fun _ => rfl) fun _ => rfl) fun _ => ?_
  split
  · refine .bind (fun s => ?_) fun _ => .pure _
    exact Action.Within.updateTry (R := Session.Still) TryFrame.enterCleanup s
  · exact .bind (.ask _) fun _ => .ite (.bind (.goToPart _ _) fun _ => .pure _)
      (.bind (.quiet (fun _ => rfl) fun _ => rfl) fun _ => .pure _)

/-- The handler of the innermost construct is entered. -/
theorem snapshots_enterHandler (s : Session) (v : Namespace) (o p : Address) :
    (({ s.updateTry TryFrame.enterHandler with vars := v }.forgetDeferred o).branch p).snapshots = s.snapshots := by
  have h := Action.Within.updateTry (R := Session.SameSnapshots) TryFrame.enterHandler s
  generalize ht : s.updateTry TryFrame.enterHandler = t
  rw [← show t.snapshots = s.snapshots from ht ▸ h]
  rfl

/-- A fault that is offered to the innermost try leaves no more. -/
theorem catchOrPassOn_same (o : Address) : (catchOrPassOn g f o).Within Session.SameSnapshots := by
  have hpass (t : TryFrame) (b : Block) : (passOn f t b).Within Session.SameSnapshots :=
    fun s => (passOn_still f t b s).1
  refine .bind (.quiet (fun _ => rfl) fun _ => rfl) fun _ => .bind (.block _) fun b => .bind (.ask _) fun _ => ?_
  split
  · split
    · refine .bind (OnlyVars.catches g _ _).sameSnapshots fun _ => .ite (.bind (.change fun s => ?_) fun _ => .pure _)
        (hpass _ _)
      exact snapshots_enterHandler s _ _ _
    · exact hpass _ _
  · exact .fail _

/-- **A fault that is offered to the innermost try** changes what the handler changes that is asked. -/
theorem catchOrPassOn_offered {o : Address} (ho : u.blocks.head?.map Frame.opener = some o) :
    (catchOrPassOn g f o).Ends u fun r s' => Offered g f u.pruneDeferred r s'.vars := by
  have hasked {p : Address} {v : Namespace}
      (hv : (catches g f.message p u.pruneDeferred).2 = u.pruneDeferred.withVars v) :
      v = handlerVars g u.suite p u.vars := by
    have hvars : (catches g f.message p u.pruneDeferred).2 =
        u.pruneDeferred.withVars (handlerVars g u.suite p u.vars) := catches_ends g f.message p _
    have := congrArg Session.vars (hv.symm.trans hvars)
    rwa [Session.vars_withVars, Session.vars_withVars] at this
  refine catchOrPassOn_ends ho (fun hnone e => .passed ?_ (.inl rfl)) ?_ ?_
  · rintro t rest p hs ⟨hp, -⟩
    change catchOf? u.suite t.opener = some p at hp
    rw [catchOf?, hnone t rest hs] at hp
    cases hp
  · intro t rest p v hs hcatches hv
    rw [hasked hv]
    exact .caught hs hcatches
  · intro t rest b v hs hb hmissed hv
    refine .passed (fun t' rest' p hs' => ?_) ((passOn_still f t b (u.pruneDeferred.withVars v)).2 ▸ ?_)
    · cases hs.symm.trans hs'
      exact hmissed p
    · obtain hv | ⟨p, hp, hv⟩ := hv
      · exact .inl hv
      · exact .inr ⟨t, rest, p, hs, hp, hasked hv⟩

/-- The way to a try ends at it. -/
theorem opener_unwindThrough {o : Address} (calls : List Call) : ∀ s : Session,
    (s.unwindThrough calls).1 = some o → (s.unwindThrough calls).2.blocks.head?.map Frame.opener = some o := by
  induction calls with
  | nil => exact fun s h => h
  | cons c calls ih =>
    intro s h
    unfold Session.unwindThrough at h ⊢
    cases htop : s.dropToTry.blocks.head? with
    | some top =>
      rw [htop] at h
      change s.dropToTry.blocks.head?.map Frame.opener = some o
      rw [htop]
      exact h
    | none =>
      rw [htop] at h
      dsimp only at h ⊢
      split at h
      · cases h
      · rw [if_neg ‹_›]
        exact ih _ h

theorem opener_unwindToTry {o : Address} (way : s.unwindToTry = (some o, u)) :
    u.blocks.head?.map Frame.opener = some o := by
  have := opener_unwindThrough (o := o) s.calls s (congrArg Prod.fst way)
  rwa [show s.unwindThrough s.calls = (some o, u) from way] at this

/-- A handler sees the message of a fault only. -/
theorem Offered.of_blame {t : Session} {r : Except Fault Disposition} {vars : Namespace}
    (h : Offered g (t.blame f) u r vars) : Offered g f u r vars := by
  have hmessage : (t.blame f).message = f.message := by
    unfold Session.blame
    split
    · exact Fault.message_attach _ _
    · rfl
  have hfits (i : TryFrame) (p : Address) : u.Catches g (t.blame f) i p ↔ u.Catches g f i p := by
    unfold Session.Catches
    rw [hmessage]
  cases h with
  | caught innermost fits =>
    rw [hmessage]
    exact .caught innermost ((hfits _ _).1 fits)
  | passed missed asked => exact .passed (fun i rest p hs h => missed i rest p hs ((hfits i p).2 h)) asked

theorem Offered.asked {r : Except Fault Disposition} {vars : Namespace} (h : Offered g f u r vars)
    (hr : r ≠ .ok .handled) : u.Asked g vars := by
  cases h with
  | caught => exact absurd rfl hr
  | passed missed asked => exact asked

/-- A fault that is offered after the way to a try. -/
theorem catchOrPassOn_unwound {o : Address} {t : Session} {r : Except Fault Disposition}
    (way : s.unwindToTry = (some o, u)) (offer : catchOrPassOn g f o u = (r, t)) :
    u.pruneDeferred.snapshots = t.snapshots ∧ Offered g f u.pruneDeferred r t.vars := by
  have hsame := catchOrPassOn_same (g := g) (f := f) o u
  have hoffered := catchOrPassOn_offered (g := g) (f := f) (opener_unwindToTry way)
  unfold Action.Ends at hoffered
  rw [offer] at hsame hoffered
  exact ⟨hsame.symm, hoffered⟩

/-- **What a fault does to the snapshots**: it leaves constructs and calls up to the innermost try, which it is
offered to. -/
theorem handleFault_unwinds (g : Setting) (f : Fault) (s : Session) :
    ∃ u, s.Unwinds u ∧ u.snapshots = (handleFault g f s).2.snapshots ∧
      (((handleFault g f s).1 = .handled ∧ Offered g (s.blame f) u (.ok .handled) (handleFault g f s).2.vars) ∨
        ∃ f', (handleFault g f s).1 = .unhandled f' ∧ u.Asked g (handleFault g f s).2.vars) := by
  have hdealing := handleFault_dealing g f s
  generalize handleFault g f s = x at hdealing ⊢
  obtain ⟨d, t⟩ := x
  dsimp only at hdealing ⊢
  have hway := s.unwinds_unwindToTry
  cases hdealing with
  | refused => exact ⟨s, .refl s, rfl, .inr ⟨_, rfl, .inl rfl⟩⟩
  | untried nesting way =>
    rw [way] at hway
    exact ⟨_, hway, rfl, .inr ⟨_, rfl, .inl rfl⟩⟩
  | @decided o u _ d catchable nesting way offer =>
    rw [way] at hway
    obtain ⟨hsame, hoffered⟩ := catchOrPassOn_unwound way offer
    refine ⟨u.pruneDeferred, hway.trans (.of_eq rfl rfl), hsame, ?_⟩
    cases d with
    | handled => exact .inl ⟨rfl, hoffered⟩
    | unhandled f' => exact .inr ⟨f', rfl, hoffered.asked (by rintro ⟨⟩)⟩
  | @failed o u _ e catchable nesting way offer =>
    rw [way] at hway
    obtain ⟨hsame, hoffered⟩ := catchOrPassOn_unwound way offer
    exact ⟨u.pruneDeferred, hway.trans (.of_eq rfl rfl), hsame, .inr ⟨e, rfl, hoffered.asked (by rintro ⟨⟩)⟩⟩

end

/-! ## 2. Steps -/

section

variable {σ : Type} {g : Setting} {host : Host σ} {a : Address} {s t : Session}

theorem Effect.exchange (h : Effect g a s (.ok ()) t) :
    ∃ new? gone u, Exchange g a s new? gone u .done t := by
  cases h with
  | leaves running lowers =>
    obtain ⟨v, gone, hs, hv⟩ := lowers
    exact ⟨none, gone, t, nofun, hs, rfl, ⟨v, hv⟩, .settled (running rfl) rfl, nofun⟩
  | finishes ended =>
    obtain ⟨gone, hs, hv⟩ := s.unwinds_abortCall
    exact ⟨none, gone, s.abortCall, nofun, hs, rfl, ⟨s.vars, hv⟩, .handsOver ended rfl, nofun⟩
  | @enters names vars _ _ running enters snapshots =>
    refine ⟨some (.loop a (bindings names vars)), [], t, ?_, snapshots.symm, rfl, ⟨t.vars, rfl⟩,
      .settled (running rfl) rfl, nofun⟩
    rintro _ ⟨⟩
    exact .loop enters
  | @calls args vars _ running makes snapshots arguments =>
    refine ⟨some (.call a vars), [], t, ?_, snapshots.symm, rfl, ⟨t.vars, rfl⟩, .settled running rfl, ?_⟩
    · rintro _ ⟨⟩
      exact .call makes
    · rintro _ _ ⟨⟩
      exact ⟨rfl, rfl, args, makes, arguments⟩

/-- A command that fails may have left constructs and calls, or entered a loop. -/
theorem Effect.of_error {f : Fault} (h : Effect g a s (.error f) t) :
    ∃ new? gone, (∀ sn ∈ new?, Entry g a s sn) ∧ (∀ site v, new? ≠ some (.call site v)) ∧
      new?.toList ++ s.snapshots = gone ++ t.snapshots ∧ ∃ v, t.vars = restoreAll v gone := by
  cases h with
  | leaves running lowers =>
    obtain ⟨v, gone, hs, hv⟩ := lowers
    exact ⟨none, gone, nofun, nofun, hs, v, hv⟩
  | @enters names vars _ _ running enters snapshots =>
    refine ⟨some (.loop a (bindings names vars)), [], ?_, nofun, snapshots.symm, t.vars, rfl⟩
    rintro _ ⟨⟩
    exact .loop enters

variable (g host) in
/-- **Every step of a run** exchanges snapshots. -/
theorem step_exchange {w : World σ} (h : w.session.Sound a) (hp : w.session.pending = none)
    (hc : w.session.current = some a) :
    ∃ new? gone u, Exchange g a w.session new? gone u (w.step g host a).1 (w.step g host a).2.session := by
  have heff := runCommand_effect g host h hp hc
  unfold World.step
  rcases hrun : w.runCommand g host a with ⟨r, w'⟩
  rw [hrun] at heff
  cases r with
  | ok _ => exact heff.exchange
  | error f =>
    obtain ⟨new?, gone, hentry, hcall, hmoved, v, hv⟩ := heff.of_error
    dsimp only at hmoved hv ⊢
    obtain ⟨u, ⟨gone', hs, hu⟩, hsettled, hafter⟩ := handleFault_unwinds g f w'.session
    unfold World.handleFault
    rcases hd : handleFault g f w'.session with ⟨d, s'⟩
    rw [hd] at hsettled hafter
    have hmoved' : new?.toList ++ w.session.snapshots = gone ++ gone' ++ s'.snapshots := by
      rw [hmoved, hs, hsettled, List.append_assoc]
    have hrestored : u.vars = restoreAll v (gone ++ gone') := by rw [hu, hv, restoreAll_append]
    refine ⟨new?, gone ++ gone', u, ?_⟩
    rcases hafter with ⟨rfl, hoffered⟩ | ⟨f', rfl, hasked⟩
    · exact ⟨hentry, hmoved', hsettled, ⟨v, hrestored⟩, .handled hoffered.of_blame, fun _ _ h => absurd h (hcall _ _)⟩
    · exact ⟨hentry, hmoved', hsettled, ⟨v, hrestored⟩, .unhandled hasked, fun _ _ h => absurd h (hcall _ _)⟩

/-- The command that runs next at a moment exchanges snapshots. -/
theorem Moment.exchange_of_advance {m m' : Moment σ} {x : StepResult} (h : m.session.Sound m.place)
    (ha : m.advance g host = some (x, m')) :
    ∃ a new? gone u, m.next? = some a ∧ Exchange g a (m.session.poise (some a)) new? gone u x m'.session := by
  obtain ⟨a, hnext, heq⟩ := Option.map_eq_some_iff.1 ha
  cases heq
  have hs : (m.session.poise (some a)).Sound a := m.place_of_next? hnext ▸ h.poise _
  have hw : m.poised = { m.world with session := m.session.poise (some a) } := by rw [Moment.poised, hnext]
  obtain ⟨new?, gone, u, he⟩ :=
    step_exchange g host (w := { m.world with session := m.session.poise (some a) }) hs rfl rfl
  exact ⟨a, new?, gone, u, hnext, hw ▸ he⟩

end

/-! ## 3. Where a snapshot comes from -/

section

variable {σ : Type} {g : Setting} {host : Host σ} {m₀ m₁ m m' : Moment σ} {x : StepResult} {sn : Snapshot}
  {above below : List Snapshot}

/-- A snapshot is taken by the command that runs at one moment, and is kept up to another one. -/
inductive Keeps (g : Setting) (host : Host σ) (sn : Snapshot) (m₁ : Moment σ) : Moment σ → Prop
  | now : Keeps g host sn m₁ m₁
  | step {m m' : Moment σ} {x : StepResult} (kept : Keeps g host sn m₁ m) (advance : m.advance g host = some (x, m'))
      (handled : ∀ f, x ≠ .unhandled f) (goesOn : m'.session.exitRequested = false)
      (lasts : ∃ above, m'.session.snapshots = above ++ sn :: m₁.session.snapshots) : Keeps g host sn m₁ m'

/-- **Where a snapshot comes from**: a command entered a loop or made a call at a moment of the run, and took it
on top of the snapshots that are below it; it was kept up to a moment, whose command may be that one. -/
structure Taken (g : Setting) (host : Host σ) (m₀ m : Moment σ) (sn : Snapshot) (below : List Snapshot)
    (m₁ : Moment σ) : Prop where
  reached : Reachable g host m₀ m₁
  entry : ∃ a, m₁.next? = some a ∧ Entry g a (m₁.session.poise (some a)) sn
  below : m₁.session.snapshots = below
  keeps : Keeps g host sn m₁ m

/-- A snapshot was there before, or is taken by the command that runs next. -/
theorem Reachable.exists_taken_or (h : Reachable g host m₀ m) {a : Address} {new? : Option Snapshot}
    (ha : m.next? = some a) (hentry : ∀ sn ∈ new?, Entry g a (m.session.poise (some a)) sn)
    (hbefore : ∀ above, m.session.snapshots = above ++ sn :: below → ∃ m₁, Taken g host m₀ m sn below m₁)
    (hsn : new?.toList ++ m.session.snapshots = above ++ sn :: below) : ∃ m₁, Taken g host m₀ m sn below m₁ := by
  cases new? with
  | none => exact hbefore above hsn
  | some new =>
    cases above with
    | nil =>
      obtain ⟨rfl, hbelow⟩ := List.cons.inj hsn
      exact ⟨m, h, ⟨a, ha, hentry _ rfl⟩, hbelow, .now⟩
    | cons top above => exact hbefore above (List.cons.inj hsn).2

/-- **Every snapshot of a run was taken by one of its commands.** -/
theorem Reachable.exists_taken (h : Reachable g host m₀ m) (hm₀ : m₀.Starts)
    (hsn : m.session.snapshots = above ++ sn :: below) : ∃ m₁, Taken g host m₀ m sn below m₁ := by
  induction h generalizing above with
  | start =>
    obtain ⟨units, suite, vars, σ', unit, -, rfl⟩ := hm₀
    cases above <;> cases hsn
  | @step m m' x reached advance handled goesOn ih =>
    obtain ⟨a, new?, gone, u, hnext, he⟩ := Moment.exchange_of_advance (reached.sound hm₀) advance
    have hmoved : new?.toList ++ m.session.snapshots = (gone ++ above) ++ sn :: below := by
      rw [List.append_assoc, ← hsn]
      exact he.moved
    obtain ⟨m₁, htaken⟩ := reached.exists_taken_or hnext he.entry (fun _ => ih) hmoved
    refine ⟨m₁, htaken.reached, htaken.entry, htaken.below, .step htaken.keeps advance handled goesOn ⟨above, ?_⟩⟩
    rw [hsn, htaken.below]

/-- Snapshots of a session and those that its next step gives back were taken by commands of the run. -/
theorem Reachable.exists_taken_of_advance (h : Reachable g host m₀ m) (hm₀ : m₀.Starts) {a : Address}
    {new? : Option Snapshot} {gone : List Snapshot} {u : Session} (ha : m.next? = some a)
    (he : Exchange g a (m.session.poise (some a)) new? gone u x m'.session)
    (hsn : gone ++ m'.session.snapshots = above ++ sn :: below) : ∃ m₁, Taken g host m₀ m sn below m₁ :=
  h.exists_taken_or ha he.entry (fun _ => h.exists_taken hm₀) (he.moved.trans hsn)

/-- **What is given back was taken by commands of the run**: when everything is left, at a moment and after its last
step, and by the removals of a step. -/
theorem Reachable.gives_back (h : Reachable g host m₀ m) (hm₀ : m₀.Starts)
    {P : List Snapshot → List Snapshot → Namespace → Prop}
    (hP : ∀ {gone rest : List Snapshot} {vars v : Namespace}, vars = restoreAll v gone →
      (∀ inner sn outer, gone = inner ++ sn :: outer → ∃ m₁, Taken g host m₀ m sn (outer ++ rest) m₁) →
      P gone rest vars) :
    P m.session.snapshots [] m.session.abandon.vars ∧
    ∀ x m', m.advance g host = some (x, m') →
      P m'.session.snapshots [] m'.session.abandon.vars ∧
      ∃ a new? gone u, m.next? = some a ∧ Exchange g a (m.session.poise (some a)) new? gone u x m'.session ∧
        P gone m'.session.snapshots u.vars := by
  have habandon (s : Session) : s.abandon.vars = restoreAll s.vars s.snapshots := by
    obtain ⟨⟨gone, hs, hv⟩, hnone⟩ := s.unwinds_abandon
    rw [hv, hs, hnone, List.append_nil]
  constructor
  · refine hP (habandon _) fun inner sn outer hsn => ?_
    have hsn : m.session.snapshots = inner ++ sn :: (outer ++ []) := by rw [hsn, List.append_nil]
    exact h.exists_taken hm₀ hsn
  · intro x m' hadv
    obtain ⟨a, new?, gone, u, ha, he⟩ := Moment.exchange_of_advance (h.sound hm₀) hadv
    constructor
    · refine hP (habandon _) fun inner sn outer hsn => ?_
      have hsn : gone ++ m'.session.snapshots = (gone ++ inner) ++ sn :: (outer ++ []) := by
        rw [hsn, List.append_nil, List.append_assoc]
      exact h.exists_taken_of_advance hm₀ ha he hsn
    · obtain ⟨v, hv⟩ := he.restored
      refine ⟨a, new?, gone, u, ha, he, hP hv fun inner sn outer hgone => ?_⟩
      have hsn : gone ++ m'.session.snapshots = inner ++ sn :: (outer ++ m'.session.snapshots) := by
        rw [hgone, List.append_assoc, List.cons_append]
      exact h.exists_taken_of_advance hm₀ ha he hsn

/-! ## 4. Names of loops -/

/-- A name that a snapshot covers is bound as it says, unless one below says otherwise. -/
theorem get?_restoreAll_of_binding {vars : Namespace} {inner outer : List Snapshot} {name : String}
    {b : Option Value} (h : sn.binding? name = some b) :
    (restoreAll vars (inner ++ sn :: outer)).get? name = (lowest? name outer).getD b := by
  rw [restoreAll_append]
  change (restoreAll (Snapshot.restore (restoreAll vars inner) sn) outer).get? name = _
  rw [get?_restoreAll, get?_restore, h]
  rfl

/-- Loops that are given back, over snapshots that stay, were entered at moments of the run, and their own names are
bound as they were just before, unless one of the snapshots below says otherwise that is given back as well. -/
def LoopsGiveBack (g : Setting) (host : Host σ) (m₀ m : Moment σ) (gone rest : List Snapshot) (vars : Namespace) :
    Prop :=
  ∀ inner o saved outer, gone = inner ++ .loop o saved :: outer →
    ∃ m₁ names before, Taken g host m₀ m (.loop o saved) (outer ++ rest) m₁ ∧ m₁.next? = some o ∧
      EntersLoop g o (m₁.session.poise (some o)) names before ∧
      ∀ name ∈ names, vars.get? name = (lowest? name outer).getD (before.get? name)

theorem loopsGiveBack_of_taken {gone rest : List Snapshot} {vars v : Namespace} (hv : vars = restoreAll v gone)
    (htaken : ∀ inner sn outer, gone = inner ++ sn :: outer → ∃ m₁, Taken g host m₀ m sn (outer ++ rest) m₁) :
    LoopsGiveBack g host m₀ m gone rest vars := by
  intro inner o saved outer hgone
  obtain ⟨m₁, ht⟩ := htaken _ _ _ hgone
  obtain ⟨a, ha, hentry⟩ := ht.entry
  cases hentry with
  | @loop names before enters =>
    refine ⟨m₁, names, before, ht, ha, enters, fun name hname => ?_⟩
    rw [hv, hgone]
    exact get?_restoreAll_of_binding (get?_bindings hname)

/-- **Loops give their names back.**  Whenever a step leaves loops, by whatever way, the session just after the
removals binds each of a loop's own names as it was bound just before the loop was entered, unless a loop or a
call below says otherwise that is left in the same step, the lowest of which counts.  The same holds when
everything is left, at any moment of a run and after its last step. -/
theorem loops_give_names_back (hm₀ : m₀.Starts) (h : Reachable g host m₀ m) :
    LoopsGiveBack g host m₀ m m.session.snapshots [] m.session.abandon.vars ∧
    ∀ x m', m.advance g host = some (x, m') →
      LoopsGiveBack g host m₀ m m'.session.snapshots [] m'.session.abandon.vars ∧
      ∃ a new? gone u, m.next? = some a ∧ Exchange g a (m.session.poise (some a)) new? gone u x m'.session ∧
        LoopsGiveBack g host m₀ m gone m'.session.snapshots u.vars :=
  h.gives_back hm₀ loopsGiveBack_of_taken

/-- A fault leaves two loops at once, one inside the other, and gives the names of both back; if everything is left
before then the names of the outer one are bound as before it. -/
theorem fault_leaves_both_loops : ∃ (m₀ m m' : Moment Unit) (f : Fault) (inner outer : Dict String (Option Value)),
    Moment.ofUnits [.named "main" [{ name := "try" }, { name := "foreach", target := "x", value := "v" },
      { name := "foreach", target := "y", value := "v" }, { name := "throw" }, { name := "endForeach" },
      { name := "endForeach" }, { name := "catch" }, { name := "endTry" }]] = .ok m₀ ∧
    m₀.after? .trivial silent 3 = some m ∧ m.session.snapshots = [.loop ⟨0, 2⟩ inner, .loop ⟨0, 1⟩ outer] ∧
    m.advance .trivial silent = some (.handled f, m') ∧ m'.session.snapshots = [] ∧
    (∃ a new? gone u, m.next? = some a ∧
      Exchange .trivial a (m.session.poise (some a)) new? gone u (.handled f) m'.session ∧
      LoopsGiveBack .trivial silent m₀ m gone [] u.vars) ∧
    ∃ (m₁ : Moment Unit) (names : List String) (before : Namespace), m₁.next? = some ⟨0, 1⟩ ∧
      EntersLoop .trivial ⟨0, 1⟩ (m₁.session.poise (some ⟨0, 1⟩)) names before ∧
      ∀ name ∈ names, m.session.abandon.vars.get? name = before.get? name := by
  obtain ⟨m₀, m, m', f, inner, outer, hm₀, hm, hsn, hadv, hnone⟩ :
      ∃ (m₀ m m' : Moment Unit) (f : Fault) (inner outer : Dict String (Option Value)),
      Moment.ofUnits [.named "main" [{ name := "try" }, { name := "foreach", target := "x", value := "v" },
        { name := "foreach", target := "y", value := "v" }, { name := "throw" }, { name := "endForeach" },
        { name := "endForeach" }, { name := "catch" }, { name := "endTry" }]] = .ok m₀ ∧
      m₀.after? .trivial silent 3 = some m ∧ m.session.snapshots = [.loop ⟨0, 2⟩ inner, .loop ⟨0, 1⟩ outer] ∧
      m.advance .trivial silent = some (.handled f, m') ∧ m'.session.snapshots = [] :=
    ⟨_, _, _, _, _, _, rfl, rfl, rfl, rfl, rfl⟩
  obtain ⟨habandon, hstep⟩ := loops_give_names_back (starts_ofUnits hm₀) (reachable_of_after? hm)
  obtain ⟨-, a, new?, gone, u, ha, he, hgone⟩ := hstep _ _ hadv
  obtain ⟨m₁, names, before, -, hnext, henters, hnames⟩ := habandon [.loop ⟨0, 2⟩ inner] ⟨0, 1⟩ outer [] hsn
  rw [hnone] at hgone
  exact ⟨m₀, m, m', f, inner, outer, hm₀, hm, hsn, hadv, hnone, ⟨a, new?, gone, u, ha, he, hgone⟩,
    m₁, names, before, hnext, henters, hnames⟩

end

end BlockFlow.Flow
