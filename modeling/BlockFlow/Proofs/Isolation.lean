/-
# Calls are isolated

A call gives its function the arguments and nothing else, and its caller gets the variables back that it had once
the arguments were evaluated, whatever the function and the functions that it calls have done and however the call
ends.  What else a step can change for the caller is listed by `Aftermath`: a call that is finished hands its
result over, and a fault that is caught leaves its message.

A handler is asked over the variables of the caller, and its target may change them
(`handler_changes_caller`).
-/
import BlockFlow.Proofs.Restoring

namespace BlockFlow.Flow

/-! ## 1. Arguments -/

/-- Of the pairs of a list with one key the last wins. -/
theorem get?_insertAll (es : List (String × Value)) (vars : Namespace) (name : String) :
    (vars.insertAll es).get? name = (es.reverse.lookup name).or (vars.get? name) := by
  induction es generalizing vars with
  | nil => rfl
  | cons e es ih =>
    obtain ⟨key, v⟩ := e
    rw [Dict.insertAll_cons, ih, Dict.get?_insert, List.reverse_cons, List.lookup_append, List.lookup_cons]
    by_cases h : name = key
    · simp [h]
    · have hne : (name == key) = false := by simpa using h
      simp [h, hne]

/-- The variables that a function starts with are its arguments alone, the last of those with one name. -/
theorem get?_arguments (args : List (String × Value)) (name : String) :
    (Dict.ofList args : Namespace).get? name = args.reverse.lookup name := by
  rw [Dict.ofList, get?_insertAll]
  exact Option.or_none

section

variable {σ : Type} {g : Setting} {host : Host σ} {m₀ m m' : Moment σ} {x : StepResult}

/-- **A call starts its function** with the arguments alone. -/
theorem Exchange.starts_call {a site : Address} {s s' u : Session} {new? : Option Snapshot} {gone : List Snapshot}
    {saved : Namespace} (h : Exchange g a s new? gone u x s')
    (hs : s'.snapshots = .call site saved :: s.snapshots) :
    site = a ∧ x = .done ∧ ∃ args, MakesCall g a s args saved ∧
      ∀ name, s'.vars.get? name = args.reverse.lookup name := by
  have hmoved := h.moved
  have hlength := congrArg List.length hmoved
  rw [hs] at hmoved hlength
  cases new? with
  | none =>
    simp only [Option.toList_none, List.nil_append, List.length_append, List.length_cons] at hlength
    omega
  | some new =>
    simp only [Option.toList_some, List.length_append, List.length_cons, List.length_nil] at hlength
    obtain rfl : gone = [] := List.eq_nil_of_length_eq_zero (by omega)
    obtain ⟨rfl, -⟩ := List.cons.inj hmoved
    obtain ⟨-, hx, args, hmakes, hvars⟩ := h.arguments site saved rfl
    refine ⟨?_, hx, args, hmakes, fun name => by rw [hvars, get?_arguments]⟩
    cases h.entry _ rfl with
    | call makes => rfl

/-! ## 2. Callers -/

/-- Calls that are given back, over snapshots that stay, were made at moments of the run, and a caller's variables
are those that it had once the arguments were evaluated, but for the loops and calls below that are given back as
well. -/
def CallsGiveBack (g : Setting) (host : Host σ) (m₀ m : Moment σ) (gone rest : List Snapshot) (vars : Namespace) :
    Prop :=
  ∀ inner a saved outer, gone = inner ++ .call a saved :: outer →
    (∃ m₁ args, Taken g host m₀ m (.call a saved) (outer ++ rest) m₁ ∧ m₁.next? = some a ∧
      MakesCall g a (m₁.session.poise (some a)) args saved) ∧ vars = restoreAll saved outer

theorem callsGiveBack_of_taken {gone rest : List Snapshot} {vars v : Namespace} (hv : vars = restoreAll v gone)
    (htaken : ∀ inner sn outer, gone = inner ++ sn :: outer → ∃ m₁, Taken g host m₀ m sn (outer ++ rest) m₁) :
    CallsGiveBack g host m₀ m gone rest vars := by
  intro inner a saved outer hgone
  constructor
  · obtain ⟨m₁, ht⟩ := htaken _ _ _ hgone
    obtain ⟨b, hb, hentry⟩ := ht.entry
    cases hentry with
    | call makes => exact ⟨m₁, _, ht, hb, makes⟩
  · rw [hv, hgone, restoreAll_call]

/-- **Calls are isolated.**  A function starts with its arguments alone, evaluated from left to right over the
caller's variables, and of those with one name the last.  Whenever calls end, by whatever way, the session just
after the removals has the variables of the lowest caller as they were once the arguments were evaluated, but for
the names of the caller's loops that are left in the same step; the rest of the step is an aftermath, which hands
over a result or asks the handler that a fault comes to.  The same holds when everything is left, at any moment
of a run and after its last step. -/
theorem calls_are_isolated (hm₀ : m₀.Starts) (h : Reachable g host m₀ m) :
    CallsGiveBack g host m₀ m m.session.snapshots [] m.session.abandon.vars ∧
    ∀ x m', m.advance g host = some (x, m') →
      (∀ a saved, m'.session.snapshots = .call a saved :: m.session.snapshots →
        m.next? = some a ∧ x = .done ∧ ∃ args, MakesCall g a (m.session.poise (some a)) args saved ∧
          ∀ name, m'.session.vars.get? name = args.reverse.lookup name) ∧
      CallsGiveBack g host m₀ m m'.session.snapshots [] m'.session.abandon.vars ∧
      ∃ a new? gone u, m.next? = some a ∧ Exchange g a (m.session.poise (some a)) new? gone u x m'.session ∧
        Aftermath g a (m.session.poise (some a)) u x m'.session ∧
        CallsGiveBack g host m₀ m gone m'.session.snapshots u.vars := by
  obtain ⟨habandon, hstep⟩ := h.gives_back hm₀ callsGiveBack_of_taken
  refine ⟨habandon, fun x m' hadv => ?_⟩
  obtain ⟨hafter, a, new?, gone, u, ha, he, hgone⟩ := hstep x m' hadv
  refine ⟨fun b saved hs => ?_, hafter, a, new?, gone, u, ha, he, he.aftermath, hgone⟩
  obtain ⟨rfl, hx, hargs⟩ := he.starts_call hs
  exact ⟨ha, hx, hargs⟩

/-- A function with an argument calls another one that fails; its first caller catches the fault, over the variables
that it had once the argument was evaluated. -/
theorem fault_ends_two_calls : ∃ (m₀ m₁ m₂ m m' : Moment Unit) (f : Fault) (saved inner : Namespace),
    Moment.ofUnits [.named "main" [{ name := "try" }, { name := "call", target := "f", value := "a = 1" },
      { name := "catch" }, { name := "endTry" }, { name := "function", target := "f" },
      { name := "call", target := "g" }, { name := "endFunction" }, { name := "function", target := "g" },
      { name := "throw" }, { name := "endFunction" }]] = .ok m₀ ∧
    m₀.after? .trivial silent 1 = some m₁ ∧ m₁.advance .trivial silent = some (.done, m₂) ∧
    m₂.session.snapshots = .call ⟨0, 1⟩ saved :: m₁.session.snapshots ∧
    (∃ args, MakesCall .trivial ⟨0, 1⟩ (m₁.session.poise (some ⟨0, 1⟩)) args saved ∧
      ∀ name, m₂.session.vars.get? name = args.reverse.lookup name) ∧
    m₀.after? .trivial silent 5 = some m ∧
    m.session.snapshots = [.call ⟨0, 5⟩ inner, .call ⟨0, 1⟩ saved] ∧ m.session.abandon.vars = saved ∧
    m.advance .trivial silent = some (.handled f, m') ∧ m'.session.snapshots = [] ∧
    ∃ a new? gone u, m.next? = some a ∧
      Exchange .trivial a (m.session.poise (some a)) new? gone u (.handled f) m'.session ∧
      Aftermath .trivial a (m.session.poise (some a)) u (.handled f) m'.session ∧
      CallsGiveBack .trivial silent m₀ m gone [] u.vars := by
  obtain ⟨m₀, m₁, m₂, m, m', f, saved, inner, hm₀, hm₁, hadv₁, hsn₁, hm, hsn, hadv, hnone⟩ :
      ∃ (m₀ m₁ m₂ m m' : Moment Unit) (f : Fault) (saved inner : Namespace),
      Moment.ofUnits [.named "main" [{ name := "try" }, { name := "call", target := "f", value := "a = 1" },
        { name := "catch" }, { name := "endTry" }, { name := "function", target := "f" },
        { name := "call", target := "g" }, { name := "endFunction" }, { name := "function", target := "g" },
        { name := "throw" }, { name := "endFunction" }]] = .ok m₀ ∧
      m₀.after? .trivial silent 1 = some m₁ ∧ m₁.advance .trivial silent = some (.done, m₂) ∧
      m₂.session.snapshots = .call ⟨0, 1⟩ saved :: m₁.session.snapshots ∧
      m₀.after? .trivial silent 5 = some m ∧
      m.session.snapshots = [.call ⟨0, 5⟩ inner, .call ⟨0, 1⟩ saved] ∧
      m.advance .trivial silent = some (.handled f, m') ∧ m'.session.snapshots = [] :=
    ⟨_, _, _, _, _, _, _, _, rfl, rfl, rfl, rfl, rfl, rfl, rfl, rfl⟩
  obtain ⟨-, hcall⟩ := calls_are_isolated (starts_ofUnits hm₀) (reachable_of_after? hm₁)
  obtain ⟨hstarts, -⟩ := hcall _ _ hadv₁
  obtain ⟨-, -, hargs⟩ := hstarts _ _ hsn₁
  obtain ⟨habandon, hstep⟩ := calls_are_isolated (starts_ofUnits hm₀) (reachable_of_after? hm)
  obtain ⟨-, hvars⟩ := habandon [.call ⟨0, 5⟩ inner] ⟨0, 1⟩ saved [] hsn
  obtain ⟨-, -, a, new?, gone, u, ha, he, hafter, hgone⟩ := hstep _ _ hadv
  rw [hnone] at hgone
  exact ⟨m₀, m₁, m₂, m, m', f, saved, inner, hm₀, hm₁, hadv₁, hsn₁, hargs, hm, hsn, hvars, hadv, hnone, a, new?,
    gone, u, ha, he, hafter, hgone⟩

end

/-! ## 3. A handler that changes its caller -/

/-- A caller with a variable that the target of its handler changes. -/
def assigningCaller : List ScriptUnit :=
  [.named "main" [{ name := "store", target := "1", value := "x" }, { name := "try" },
    { name := "call", target := "f" }, { name := "catch", target := "$x = \"2\"" }, { name := "endTry" },
    { name := "function", target := "f" }, { name := "throw", target := "\"null\"" },
    { name := "endFunction" }]]

/-- **A handler's target can change the caller's variables** in the step that ends the call: no loop is left, and a
variable that the caller had once the arguments were evaluated has another value when the fault is caught. -/
theorem handler_changes_caller :
    ∃ (s : Session) (m m' : Moment Echoes) (x : StepResult) (c : Call),
      Session.ofUnits assigningCaller = .ok s ∧
      (⟨⟨s, []⟩, ⟨0, 0⟩⟩ : Moment Echoes).after? ⟨.standard, {}, none⟩ .reference 4 = some m ∧
      m.session.calls = [c] ∧ m.session.snapshots.length = 1 ∧
      m.advance ⟨.standard, {}, none⟩ .reference = some (x, m') ∧ m'.session.calls = [] ∧
      (m'.session.vars.get? Namespace.errorName).map Value.display = some "null" ∧
      (c.saved.get? "x").map Value.display = some "1" ∧ (m'.session.vars.get? "x").map Value.display = some "2" := by
  have hrun : ((Session.ofUnits assigningCaller).toOption.bind fun s =>
      ((⟨⟨s, []⟩, ⟨0, 0⟩⟩ : Moment Echoes).after? ⟨.standard, {}, none⟩ .reference 4).bind fun m =>
      (m.advance ⟨.standard, {}, none⟩ .reference).map fun r =>
        (m.session.snapshots.length, m.session.calls.map fun c => (c.saved.get? "x").map Value.display,
          r.2.session.calls.length, (r.2.session.vars.get? Namespace.errorName).map Value.display,
          (r.2.session.vars.get? "x").map Value.display)) =
      some (1, [some "1"], 0, some "null", some "2") := by decide +kernel
  obtain ⟨s, hs, hrun⟩ := Option.bind_eq_some_iff.1 hrun
  obtain ⟨m, hm, hrun⟩ := Option.bind_eq_some_iff.1 hrun
  obtain ⟨⟨x, m'⟩, hadv, hrun⟩ := Option.map_eq_some_iff.1 hrun
  have hok : Session.ofUnits assigningCaller = .ok s := by
    cases hunits : Session.ofUnits assigningCaller with
    | error e =>
      rw [hunits] at hs
      cases hs
    | ok s' =>
      rw [hunits] at hs
      cases hs
      rfl
  simp only [Prod.mk.injEq] at hrun
  obtain ⟨hsn, hcalls, hnone, herror, hafter⟩ := hrun
  obtain ⟨c, hc, hbefore⟩ := List.map_eq_singleton_iff.1 hcalls
  exact ⟨s, m, m', x, c, hok, hm, hc, hsn, hadv, List.eq_nil_of_length_eq_zero hnone, herror, hbefore, hafter⟩

end BlockFlow.Flow
