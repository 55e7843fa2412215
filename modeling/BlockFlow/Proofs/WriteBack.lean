/-
# What an evaluation leaves of the variables

After an interpreter has run, the variables that it was given are stored again one by one.  An interpreter that
fails leaves them alone, and one whose scope can be stored has all of them set to what the scope holds, whether or
not the result has a value.

In between lies the scope with a datum that no variable can hold (`Ends.stopped`): the bound variables whose names
come before the name of that one are set, and it and all after it are as they were.  The names of the variables are
the same in every case, and so is a variable that cannot be bound (`ofInterpreter_ends`).
-/
import BlockFlow.Evaluator

namespace BlockFlow.Evaluator

open Script (Scope parse?)

/-! ## 1. Storing names -/

/-- From a scope, exactly the variables with certain names are stored. -/
structure Stores (after : Scope) (names : List String) (vars vars' : Namespace) : Prop where
  set : ∀ name ∈ names, ∀ d, after.get? (symbol name) = some d →
    ∃ v, d.toValue = .ok v ∧ vars'.get? name = some v
  kept : ∀ name, name ∉ names ∨ after.get? (symbol name) = none → vars'.get? name = vars.get? name

section

variable {after : Scope} {name : String} {names : List String} {vars vars' : Namespace}

theorem Stores.nil : Stores after [] vars vars := ⟨nofun, fun _ _ => rfl⟩

/-- A name that the scope has lost stores nothing. -/
theorem Stores.cons_none (hname : after.get? (symbol name) = none) (h : Stores after names vars vars') :
    Stores after (name :: names) vars vars' where
  set other hother d hd := by
    rcases List.mem_cons.1 hother with rfl | hother
    · rw [hname] at hd
      cases hd
    · exact h.set other hother d hd
  kept other hother := h.kept other (hother.imp_left (mt (List.mem_cons_of_mem name)))

/-- A name whose datum has a value stores it, unless the name comes again. -/
theorem Stores.cons_some {d : Script.Datum} {v : Value} (hname : after.get? (symbol name) = some d)
    (hd : d.toValue = .ok v) (h : Stores after names (vars.insert name v) vars') :
    Stores after (name :: names) vars vars' where
  set other hother e he := by
    by_cases hmem : other ∈ names
    · exact h.set other hmem e he
    · obtain rfl : other = name := (List.mem_cons.1 hother).resolve_right hmem
      obtain rfl : d = e := Option.some.inj (hname.symm.trans he)
      exact ⟨v, hd, by rw [h.kept _ (.inl hmem), Dict.get?_insert, if_pos rfl]⟩
  kept other hother := by
    have hne : other ≠ name := by
      rintro rfl
      rcases hother with hother | hother
      · exact hother List.mem_cons_self
      · rw [hname] at hother
        cases hother
    rw [h.kept other (hother.imp_left (mt (List.mem_cons_of_mem name))), Dict.get?_insert, if_neg hne]

/-- Storing names that are bound neither adds nor removes a variable. -/
theorem Stores.contains (h : Stores after names vars vars') (hnames : ∀ n ∈ names, vars.contains n = true)
    (name : String) : vars'.contains name = vars.contains name := by
  by_cases hmem : name ∈ names
  · cases hd : after.get? (symbol name) with
    | none => rw [Dict.contains, Dict.contains, h.kept name (.inr hd)]
    | some d =>
      obtain ⟨v, -, hv⟩ := h.set name hmem d hd
      rw [hnames name hmem, Dict.contains, hv, Option.isSome_some]
  · rw [Dict.contains, Dict.contains, h.kept name (.inl hmem)]

end

/-- How storing a list of names ends: with all of them, or at the first that cannot be stored. -/
inductive WritesBack (after : Scope) (names : List String) (vars : Namespace) :
    Except EvalError Unit × Namespace → Prop
  | all {vars'} : Stores after names vars vars' → WritesBack after names vars (.ok (), vars')
  | stopped {before name left bad typeName vars'} : names = before ++ name :: left →
      after.get? (symbol name) = some bad → bad.toValue = .error typeName → Stores after before vars vars' →
      WritesBack after names vars (.error (.unsupported typeName), vars')

/-- A name in front goes into what is stored in either case. -/
theorem WritesBack.cons {after : Scope} {name : String} {names : List String} {vars vars₁ : Namespace}
    {r : Except EvalError Unit × Namespace}
    (hname : ∀ stored vars', Stores after stored vars₁ vars' → Stores after (name :: stored) vars vars') :
    WritesBack after names vars₁ r → WritesBack after (name :: names) vars r
  | .all h => .all (hname _ _ h)
  | .stopped hsplit hbad ht h => .stopped (by rw [hsplit, List.cons_append]) hbad ht (hname _ _ h)

theorem writeBack_writesBack (after : Scope) (names : List String) (vars : Namespace) :
    WritesBack after names vars (writeBack after names vars) := by
  induction names generalizing vars with
  | nil => exact .all .nil
  | cons name names ih =>
    rw [writeBack]
    cases hname : after.get? (symbol name) with
    | none => exact (ih vars).cons fun _ _ => .cons_none hname
    | some d =>
      dsimp only
      cases hd : d.toValue with
      | ok v => exact (ih (vars.insert name v)).cons fun _ _ => .cons_some hname hd
      | error typeName => exact .stopped (List.nil_append (name :: names)).symm hname hd .nil

/-! ## 2. Evaluations -/

theorem mem_bindable {vars : Namespace} {name : String} :
    name ∈ bindable vars ↔ (∃ v, vars.get? name = some v) ∧ Text.isName name = true := by
  rw [bindable, List.mem_filter, Dict.mem_keys]

/-- A variable that can be bound is a variable. -/
theorem contains_of_mem_bindable {vars : Namespace} {name : String} (h : name ∈ bindable vars) :
    vars.contains name = true := by
  obtain ⟨⟨v, hv⟩, -⟩ := mem_bindable.1 h
  rw [Dict.contains, hv, Option.isSome_some]

/-- **How an evaluation ends**, with the variables that it leaves. -/
inductive Ends (run : Interpreter) (expr : String) (vars : Namespace) : Except EvalError Value × Namespace → Prop
  /-- The interpreter fails, and no variable is stored. -/
  | failed {why} : run (scopeOf vars) (marked expr) = .error why →
      Ends run expr vars (.error (.failed expr why), vars)
  /-- Every variable that was bound is stored; the result may be one that has no value. -/
  | stored {d after vars'} : run (scopeOf vars) (marked expr) = .ok (d, after) →
      Stores after (bindable vars) vars vars' → Ends run expr vars (d.toValue.mapError .unsupported, vars')
  /-- A variable cannot be stored: those before it are, and it and those after it keep what they had. -/
  | stopped {d after before name left bad typeName vars'} : run (scopeOf vars) (marked expr) = .ok (d, after) →
      bindable vars = before ++ name :: left →
      after.get? (symbol name) = some bad → bad.toValue = .error typeName →
      Stores after before vars vars' → (∀ n ∈ name :: left, vars'.get? n = vars.get? n) →
      Ends run expr vars (.error (.unsupported typeName), vars')

theorem ends_ofInterpreter (run : Interpreter) (expr : String) (vars : Namespace) :
    Ends run expr vars (ofInterpreter run expr vars) := by
  rw [ofInterpreter]
  cases hrun : run (scopeOf vars) (marked expr) with
  | error why => exact .failed hrun
  | ok r =>
    obtain ⟨d, after⟩ := r
    have hback := writeBack_writesBack after (bindable vars) vars
    dsimp only
    generalize writeBack after (bindable vars) vars = w at hback
    cases hback with
    | all h => exact .stored hrun h
    | @stopped before name left bad typeName vars' hsplit hbad ht h =>
      have hnodup : (before ++ name :: left).Nodup := hsplit ▸ vars.nodup_keys.filter _
      refine .stopped hrun hsplit hbad ht h fun n hn => h.kept n (.inl fun hmem => ?_)
      exact (List.nodup_append.1 hnodup).2.2 n hmem n hn rfl

/-- In every case some of the variables that were bound are stored, and nothing else happens to the variables. -/
theorem Ends.stores {run : Interpreter} {expr : String} {vars : Namespace}
    {r : Except EvalError Value × Namespace} (h : Ends run expr vars r) :
    ∃ after names, (∀ n ∈ names, n ∈ bindable vars) ∧ Stores after names vars r.2 := by
  cases h with
  | failed => exact ⟨[], [], nofun, .nil⟩
  | stored _ h => exact ⟨_, _, fun _ hn => hn, h⟩
  | stopped _ hsplit _ _ h => exact ⟨_, _, fun n hn => hsplit ▸ List.mem_append_left _ hn, h⟩

/-- An evaluation that has a value has stored all of the variables that were bound. -/
theorem stores_of_ok {run : Interpreter} {expr : String} {vars vars' : Namespace} {v : Value}
    (h : ofInterpreter run expr vars = (.ok v, vars')) :
    ∃ d after, run (scopeOf vars) (marked expr) = .ok (d, after) ∧ Stores after (bindable vars) vars vars' := by
  have hends := ends_ofInterpreter run expr vars
  rw [h] at hends
  generalize hr : (Except.ok v : Except EvalError Value) = r at hends
  cases hends with
  | failed => cases hr
  | stored hrun h => exact ⟨_, _, hrun, h⟩
  | stopped => cases hr

/-- **Storing stops at the first variable that cannot be stored**, and what was stored before it stays.  If there
is none, an evaluation leaves all the variables alone or sets all that were bound.  In no case is a name added or
removed, or a variable changed that cannot be bound. -/
theorem ofInterpreter_ends (run : Interpreter) (expr : String) (vars : Namespace) :
    Ends run expr vars (ofInterpreter run expr vars) ∧
      (∀ name, (ofInterpreter run expr vars).2.contains name = vars.contains name) ∧
      ∀ name, Text.isName name = false → (ofInterpreter run expr vars).2.get? name = vars.get? name := by
  have hends := ends_ofInterpreter run expr vars
  obtain ⟨after, names, hnames, h⟩ := hends.stores
  refine ⟨hends, h.contains fun n hn => contains_of_mem_bindable (hnames n hn), fun name hname => ?_⟩
  refine h.kept name (.inl fun hmem => ?_)
  rw [(mem_bindable.1 (hnames name hmem)).2] at hname
  cases hname

/-- Of two assignments the first is stored, and the second, of a byte string, is not. -/
theorem first_of_two_assignments_is_stored :
    ∃ vars', standard "$a = true; $b = blob()" (Dict.ofList [("a", .null), ("b", .null), ("my-var", .null)]) =
        (.error (.unsupported "blob"), vars') ∧
      vars'.get? "a" = some (.bool true) ∧ vars'.get? "b" = some .null ∧ vars'.get? "my-var" = some .null := by
  have htokens : Script.Token.all? (marked "$a = true; $b = blob()").toList =
      some [.name "__sv_a", .symbol "=", .name "true", .symbol ";", .name "__sv_b", .symbol "=", .name "blob",
        .symbol "(", .symbol ")"] := by rfl
  have hstatements : Script.statements? 160 [.name "__sv_a", .symbol "=", .name "true", .symbol ";", .name "__sv_b",
        .symbol "=", .name "blob", .symbol "(", .symbol ")"] =
      some ([.assign (.variable "__sv_a") none (.literal (.bool true)),
        .assign (.variable "__sv_b") none (.call "blob" [])], []) := by rfl
  have hparse : parse? (marked "$a = true; $b = blob()") =
      some [.assign (.variable "__sv_a") none (.literal (.bool true)),
        .assign (.variable "__sv_b") none (.call "blob" [])] :=
    Script.parse?_of_tokens htokens hstatements
  have hrun : standard "$a = true; $b = blob()" (Dict.ofList [("a", .null), ("b", .null), ("my-var", .null)]) =
      (.error (.unsupported "blob"), Dict.ofList [("a", .bool true), ("b", .null), ("my-var", .null)]) := by
    rw [standard, ofInterpreter, Script.run, hparse]
    rfl
  have hkept := (ofInterpreter_ends Script.run "$a = true; $b = blob()"
    (Dict.ofList [("a", .null), ("b", .null), ("my-var", .null)])).2.2 "my-var" (by decide)
  change (standard _ _).2.get? _ = _ at hkept
  rw [hrun] at hkept
  exact ⟨_, hrun, rfl, rfl, hkept⟩

end BlockFlow.Evaluator
