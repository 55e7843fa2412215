/-
# Variables that an expression does not write

An expression runs in a scope that has every variable it can name, and afterwards every one of them is stored
again.  Those that it does not write go through both conversions and come back as they were.

`writtenIn` lists the names that statements assign to or define, and `Evaluation.Keeps` says that an evaluation
leaves a name alone, whatever it does to the variables around it and inside its blocks.  The conversions are those
of `Proofs.Conversions`; `survives_evaluation` puts the two together.
-/
import BlockFlow.Proofs.Conversions
import BlockFlow.Proofs.WriteBack

namespace BlockFlow

namespace Script

/-! ## 1. Scopes that agree on a name -/

namespace Scope

variable {name other : String} {sc sc' sc'' : Scope} {d : Datum} {n : Nat}

/-- A scope was changed at most inside the newest variables and in variables of other names, so that a name means
the same in it, and after any rewinding of it. -/
structure Keeps (name : String) (sc sc' : Scope) : Prop where
  grown : sc.length ≤ sc'.length
  found : sc'.get? name = sc.get? name
  below : ∀ n ≤ sc.length, (sc'.rewind n).get? name = (sc.rewind n).get? name

theorem Keeps.refl (name : String) (sc : Scope) : Keeps name sc sc := ⟨Nat.le_refl _, rfl, fun _ _ => rfl⟩

theorem Keeps.trans (h : Keeps name sc sc') (h' : Keeps name sc' sc'') : Keeps name sc sc'' where
  grown := Nat.le_trans h.grown h'.grown
  found := h'.found.trans h.found
  below n hn := (h'.below n (Nat.le_trans hn h.grown)).trans (h.below n hn)

theorem get?_cons_of_ne (hne : other ≠ name) : get? name ((other, d) :: sc) = get? name sc := by
  simp [get?, hne]

theorem rewind_cons (hn : n ≤ sc.length) (v : String × Datum) : rewind n (v :: sc) = rewind n sc := by
  rw [rewind, rewind, List.length_cons, Nat.succ_sub hn, List.drop_succ_cons]

theorem rewind_rewind {m : Nat} (hn : n ≤ m) (hm : m ≤ sc.length) : rewind n (rewind m sc) = rewind n sc := by
  simp only [rewind, List.drop_drop, List.length_drop]
  congr 1
  omega

theorem length_rewind (hn : n ≤ sc.length) : (rewind n sc).length = n := by
  rw [rewind, List.length_drop]
  omega

theorem rewind_length (sc : Scope) : rewind sc.length sc = sc := by
  rw [rewind, Nat.sub_self, List.drop_zero]

/-- A variable of another name is defined. -/
theorem Keeps.define (hne : other ≠ name) (d : Datum) (sc : Scope) : Keeps name sc ((other, d) :: sc) where
  grown := Nat.le_succ _
  found := get?_cons_of_ne hne
  below _ hn := by rw [rewind_cons hn]

/-- What was defined is gone again. -/
theorem Keeps.rewind (h : Keeps name sc sc') : Keeps name sc (sc'.rewind sc.length) where
  grown := Nat.le_of_eq (length_rewind h.grown).symm
  found := by rw [h.below _ (Nat.le_refl _), rewind_length]
  below n hn := by rw [rewind_rewind hn h.grown, h.below n hn]

/-- Changing a variable keeps the names of all, and what the others are. -/
theorem alter_append {f : Datum → Option Datum} : ∀ {sc sc' : Scope}, alter other f sc = some sc' →
    ∃ before v d after, sc = before ++ v :: after ∧ v.1 = other ∧ sc' = before ++ (other, d) :: after
  | v :: sc, sc', h => by
    rw [alter] at h
    split at h
    case isTrue hv =>
      obtain ⟨d, -, rfl⟩ := Option.map_eq_some_iff.1 h
      have hv : v.1 = other := by simpa using hv
      exact ⟨[], v, d, sc, rfl, hv, by rw [hv]; rfl⟩
    case isFalse =>
      obtain ⟨sc', hsc', rfl⟩ := Option.map_eq_some_iff.1 h
      obtain ⟨before, w, d, after, rfl, hw, rfl⟩ := alter_append hsc'
      exact ⟨v :: before, w, d, after, rfl, hw, rfl⟩

/-- One variable of another name in a scope makes no difference. -/
theorem get?_append_cons (hne : other ≠ name) (d d' : Datum) (after : Scope) : ∀ before : Scope,
    get? name (before ++ (other, d) :: after) = get? name (before ++ (other, d') :: after)
  | [] => by rw [List.nil_append, List.nil_append, get?_cons_of_ne hne, get?_cons_of_ne hne]
  | (key, e) :: before => by
    have ih := get?_append_cons hne d d' after before
    rw [List.cons_append, List.cons_append]
    by_cases hkey : key = name
    · simp [get?, hkey]
    · rw [get?_cons_of_ne hkey, get?_cons_of_ne hkey, ih]

/-- A variable of another name is changed. -/
theorem Keeps.alter {f : Datum → Option Datum} (hne : other ≠ name) (h : alter other f sc = some sc') :
    Keeps name sc sc' := by
  obtain ⟨before, ⟨key, d⟩, d', after, rfl, rfl, rfl⟩ := alter_append h
  refine ⟨by simp, get?_append_cons hne _ _ _ _, fun n _ => ?_⟩
  rw [Scope.rewind, Scope.rewind, List.length_append, List.length_append, List.length_cons, List.length_cons,
    List.drop_append, List.drop_append]
  cases before.length + (after.length + 1) - n - before.length with
  | zero => exact get?_append_cons hne _ _ _ _
  | succ k => rfl

end Scope

/-! ## 2. Evaluations that keep a name -/

namespace Evaluation

/-- Two evaluations give a result if the first does, and the second on what the first gave. -/
theorem bind_eq_some {α β : Type} {m : Evaluation α} {f : α → Evaluation β} {sc : Scope} {r : β × Scope} :
    (m >>= f) sc = some r ↔ ∃ a sc', m sc = some (a, sc') ∧ f a sc' = some r :=
  Option.bind_eq_some_iff.trans Prod.exists

theorem lift_eq_some {α : Type} {x : Option α} {sc : Scope} {r : α × Scope} :
    (liftM x : Evaluation α) sc = some r ↔ ∃ a, x = some a ∧ (a, sc) = r := by
  cases x with
  | none => exact ⟨nofun, nofun⟩
  | some a => exact ⟨fun h => ⟨a, rfl, Option.some.inj h⟩, by rintro ⟨_, ⟨⟩, rfl⟩; rfl⟩

/-- An evaluation that gives a result leaves a name as it was. -/
def Keeps {α : Type} (name : String) (m : Evaluation α) : Prop :=
  ∀ sc r, m sc = some r → Scope.Keeps name sc r.2

section

variable {α β : Type} {name : String}

theorem Keeps.pure (a : α) : Keeps name (Pure.pure a : Evaluation α) := by
  rintro sc r ⟨⟩
  exact .refl name sc

theorem Keeps.fail : Keeps name (fun _ => none : Evaluation α) := nofun

theorem Keeps.lift (x : Option α) : Keeps name (liftM x : Evaluation α) := by
  intro sc r h
  obtain ⟨a, -, rfl⟩ := lift_eq_some.1 h
  exact .refl name sc

/-- What comes after an evaluation has to keep the name on the results that the evaluation can give. -/
theorem Keeps.bind_of {m : Evaluation α} {f : α → Evaluation β} (hm : Keeps name m)
    (hf : ∀ sc a sc', m sc = some (a, sc') → Keeps name (f a)) : Keeps name (m >>= f) := by
  intro sc r h
  obtain ⟨a, sc', ha, hr⟩ := bind_eq_some.1 h
  exact (hm sc _ ha).trans (hf sc a sc' ha sc' r hr)

theorem Keeps.bind {m : Evaluation α} {f : α → Evaluation β} (hm : Keeps name m) (hf : ∀ a, Keeps name (f a)) :
    Keeps name (m >>= f) :=
  hm.bind_of fun _ a _ _ => hf a

/-- What only looks at the scope keeps all of it. -/
theorem Keeps.read {f : Scope → Evaluation β} (hf : ∀ sc, Keeps name (f sc)) : Keeps name (get >>= f) :=
  fun sc r h => hf sc sc r h

theorem Keeps.define {other : String} (hne : other ≠ name) (d : Datum) :
    Keeps name (modify ((other, d) :: ·) : Evaluation PUnit) := by
  rintro sc r ⟨⟩
  exact .define hne d sc

theorem Keeps.alter {other : String} (hne : other ≠ name) (f : Datum → Option Datum) {k : Evaluation β}
    (hk : Keeps name k) :
    Keeps name
      (get >>= fun sc : Scope => liftM (sc.alter other f) >>= fun sc' : Scope => set sc' >>= fun _ => k) := by
  intro sc r h
  obtain ⟨_, _, ⟨⟩, h⟩ := bind_eq_some.1 h
  obtain ⟨sc', _, hlift, h⟩ := bind_eq_some.1 h
  obtain ⟨_, halter, ⟨⟩⟩ := lift_eq_some.1 hlift
  exact (Scope.Keeps.alter hne halter).trans (hk sc' r h)

theorem Keeps.enclosed {m : Evaluation α} (hm : Keeps name m) : Keeps name m.enclosed := by
  intro sc r h
  obtain ⟨r', hr', rfl⟩ := Option.map_eq_some_iff.1 h
  exact (hm sc r' hr').rewind

end

end Evaluation

/-! ## 3. Names that are written -/

/-- The variable of a place. -/
def Expr.root? : Expr → Option String
  | .variable name => some name
  | .index e _ | .property e _ => e.root?
  | _ => none

mutual

/-- The names that an expression assigns to or defines; a function is never called. -/
def Expr.written : Expr → List String
  | .literal _ | .variable _ | .function _ _ => []
  | .list items => writtenInExprs items
  | .map fields => writtenInFields fields
  | .negate e | .affirm e | .not e | .property e _ => e.written
  | .operator _ l r | .both l r | .either l r | .orElse l r | .range _ l r | .within l r | .index l r =>
    l.written ++ r.written
  | .call _ args => writtenInExprs args
  | .choose cond yes no => cond.written ++ (writtenIn yes ++ writtenIn no)
  | .block body => writtenIn body

/-- The names that a statement assigns to or defines. -/
def Statement.written : Statement → List String
  | .expr e => e.written
  | .assign place _ e => e.written ++ (place.written ++ place.root?.toList)
  | .define name none => [name]
  | .define name (some e) => e.written ++ [name]

def writtenInExprs : List Expr → List String
  | [] => []
  | e :: es => e.written ++ writtenInExprs es

def writtenInFields : List (String × Expr) → List String
  | [] => []
  | (_, e) :: fs => e.written ++ writtenInFields fs

/-- The names that statements assign to or define. -/
def writtenIn : List Statement → List String
  | [] => []
  | s :: ss => s.written ++ writtenIn ss

end

/-! ## 4. Names that are not written are kept -/

section

variable {name : String}

theorem of_not_mem_append {l r : List String} (h : name ∉ l ++ r) : name ∉ l ∧ name ∉ r :=
  not_or.1 (mt List.mem_append.2 h)

/-- A name is kept by an operation if both operands keep it, whatever is made of their data. -/
theorem Evaluation.Keeps.operands {α β γ : Type} {l : Evaluation α} {r : Evaluation β} {f : α → β → Evaluation γ}
    (hl : l.Keeps name) (hr : r.Keeps name) (hf : ∀ a b, (f a b).Keeps name) :
    Evaluation.Keeps name (do f (← l) (← r)) :=
  hl.bind fun a => hr.bind fun b => hf a b

/-- A place starts at its variable. -/
theorem Expr.root?_of_place : ∀ (e : Expr) (sc : Scope) (r : (String × List Step) × Scope), e.place sc = some r →
    e.root? = some r.1.1
  | .variable other, sc, r, h => by
    rw [Expr.place] at h
    cases h
    rfl
  | .index e i, sc, r, h => by
    rw [Expr.place] at h
    obtain ⟨p, sc', hplace, h⟩ := Evaluation.bind_eq_some.1 h
    obtain ⟨d, sc', -, h⟩ := Evaluation.bind_eq_some.1 h
    cases h
    exact Expr.root?_of_place e sc (p, _) hplace
  | .property e key, sc, r, h => by
    rw [Expr.place] at h
    obtain ⟨p, sc', hplace, h⟩ := Evaluation.bind_eq_some.1 h
    cases h
    exact Expr.root?_of_place e sc (p, _) hplace
  | .literal _, _, _, h | .list _, _, _, h | .map _, _, _, h | .negate _, _, _, h | .affirm _, _, _, h
  | .not _, _, _, h | .operator .., _, _, h | .both .., _, _, h | .either .., _, _, h | .orElse .., _, _, h
  | .range .., _, _, h | .within .., _, _, h | .call .., _, _, h | .function .., _, _, h | .choose .., _, _, h
  | .block _, _, _, h => by cases h

mutual

theorem Expr.eval_keeps : ∀ e : Expr, name ∉ e.written → e.eval.Keeps name
  | .literal _, _ | .function _ _, _ => by rw [Expr.eval]; exact .pure _
  | .variable other, _ => by rw [Expr.eval]; exact .read fun sc => .lift _
  | .list items, h => by rw [Expr.eval]; exact (evalList_keeps items h).bind fun _ => .pure _
  | .map fields, h => by
    rw [Expr.written] at h
    rw [Expr.eval]
    exact (evalFields_keeps fields h).bind fun _ => .pure _
  | .negate e, h | .affirm e, h => by rw [Expr.eval]; exact (Expr.eval_keeps e h).bind fun _ => .lift _
  | .not e, h => by
    rw [Expr.eval]
    exact (Expr.eval_keeps e h).bind fun _ => (Evaluation.Keeps.lift _).bind fun _ => .pure _
  | .operator op l r, h => by
    obtain ⟨hl, hr⟩ := of_not_mem_append h
    rw [Expr.eval]
    exact (Expr.eval_keeps l hl).operands (Expr.eval_keeps r hr) fun _ _ => .lift _
  | .both l r, h => by
    obtain ⟨hl, hr⟩ := of_not_mem_append h
    rw [Expr.eval]
    refine (Expr.eval_keeps l hl).bind fun _ => (Evaluation.Keeps.lift _).bind fun holds => ?_
    cases holds with
    | false => exact .pure _
    | true => exact (Expr.eval_keeps r hr).bind fun _ => (Evaluation.Keeps.lift _).bind fun _ => .pure _
  | .either l r, h => by
    obtain ⟨hl, hr⟩ := of_not_mem_append h
    rw [Expr.eval]
    refine (Expr.eval_keeps l hl).bind fun _ => (Evaluation.Keeps.lift _).bind fun holds => ?_
    cases holds with
    | false => exact (Expr.eval_keeps r hr).bind fun _ => (Evaluation.Keeps.lift _).bind fun _ => .pure _
    | true => exact .pure _
  | .orElse l r, h => by
    obtain ⟨hl, hr⟩ := of_not_mem_append h
    rw [Expr.eval]
    refine (Expr.eval_keeps l hl).bind fun d => ?_
    split
    · exact Expr.eval_keeps r hr
    · exact .pure _
  | .range closed l r, h => by
    obtain ⟨hl, hr⟩ := of_not_mem_append h
    rw [Expr.eval]
    exact (Expr.eval_keeps l hl).operands (Expr.eval_keeps r hr) fun _ _ => .lift _
  | .within l r, h => by
    obtain ⟨hl, hr⟩ := of_not_mem_append h
    rw [Expr.eval]
    exact (Expr.eval_keeps l hl).operands (Expr.eval_keeps r hr) fun _ _ =>
      (Evaluation.Keeps.lift _).bind fun _ => .pure _
  | .index e i, h => by
    obtain ⟨he, hi⟩ := of_not_mem_append h
    rw [Expr.eval]
    exact (Expr.eval_keeps e he).operands (Expr.eval_keeps i hi) fun _ _ => .lift _
  | .property e key, h => by rw [Expr.eval]; exact (Expr.eval_keeps e h).bind fun _ => .lift _
  | .call function args, h => by rw [Expr.eval]; exact (evalList_keeps args h).bind fun _ => .lift _
  | .choose cond yes no, h => by
    obtain ⟨hcond, h⟩ := of_not_mem_append h
    obtain ⟨hyes, hno⟩ := of_not_mem_append h
    rw [Expr.eval]
    refine (Expr.eval_keeps cond hcond).bind fun _ => (Evaluation.Keeps.lift _).bind fun holds => ?_
    cases holds with
    | false => exact (evalStatements_keeps no hno .unit).enclosed
    | true => exact (evalStatements_keeps yes hyes .unit).enclosed
  | .block body, h => by rw [Expr.eval]; exact (evalStatements_keeps body h .unit).enclosed

theorem evalList_keeps : ∀ es : List Expr, name ∉ writtenInExprs es → (evalList es).Keeps name
  | [], _ => by rw [evalList]; exact .pure _
  | e :: es, h => by
    obtain ⟨he, hes⟩ := of_not_mem_append h
    rw [evalList]
    exact (Expr.eval_keeps e he).operands (evalList_keeps es hes) fun _ _ => .pure _

theorem evalFields_keeps : ∀ fs : List (String × Expr), name ∉ writtenInFields fs → (evalFields fs).Keeps name
  | [], _ => by rw [evalFields]; exact .pure _
  | (key, e) :: fs, h => by
    obtain ⟨he, hfs⟩ := of_not_mem_append h
    rw [evalFields]
    exact (Expr.eval_keeps e he).operands (evalFields_keeps fs hfs) fun _ _ => .pure _

/-- Finding a place evaluates its indices only; the variable that it starts at is not changed yet. -/
theorem Expr.place_keeps : ∀ e : Expr, name ∉ e.written → e.place.Keeps name
  | .variable _, _ => by rw [Expr.place]; exact .pure _
  | .index e i, h => by
    obtain ⟨he, hi⟩ := of_not_mem_append h
    rw [Expr.place]
    exact (Expr.place_keeps e he).operands (Expr.eval_keeps i hi) fun _ _ => .pure _
  | .property e key, h => by rw [Expr.place]; exact (Expr.place_keeps e h).bind fun _ => .pure _
  | .literal _, _ | .list _, _ | .map _, _ | .negate _, _ | .affirm _, _ | .not _, _ | .operator .., _ | .both .., _
  | .either .., _ | .orElse .., _ | .range .., _ | .within .., _ | .call .., _ | .function .., _ | .choose .., _
  | .block _, _ => by rw [Expr.place]; exact .fail; all_goals nofun

theorem Statement.eval_keeps : ∀ s : Statement, name ∉ s.written → s.eval.Keeps name
  | .expr e, h => by rw [Statement.eval]; exact Expr.eval_keeps e h
  | .assign place op e, h => by
    obtain ⟨he, h⟩ := of_not_mem_append h
    obtain ⟨hplace, hroot⟩ := of_not_mem_append h
    rw [Statement.eval]
    refine (Expr.eval_keeps e he).bind fun operand => (Expr.place_keeps place hplace).bind_of fun sc p sc' hp => ?_
    have hne : p.1 ≠ name := by simpa [Expr.root?_of_place place sc (p, sc') hp, eq_comm] using hroot
    exact .alter hne _ (.pure _)
  | .define other none, h => by
    rw [Statement.eval]
    exact (Evaluation.Keeps.define (by simpa [Statement.written, eq_comm] using h) .unit).bind fun _ => .pure _
  | .define other (some e), h => by
    obtain ⟨he, hother⟩ := of_not_mem_append h
    rw [Statement.eval]
    exact (Expr.eval_keeps e he).bind fun d =>
      (Evaluation.Keeps.define (by simpa [eq_comm] using hother) d).bind fun _ => .pure _

theorem evalStatements_keeps : ∀ ss : List Statement, name ∉ writtenIn ss → ∀ d, (evalStatements ss d).Keeps name
  | [], _, d => by rw [evalStatements]; exact .pure _
  | s :: ss, h, d => by
    obtain ⟨hs, hss⟩ := of_not_mem_append h
    rw [evalStatements]
    exact (Statement.eval_keeps s hs).bind fun d => evalStatements_keeps ss hss d

end

/-- **A run keeps the names that its source does not write.** -/
theorem run_keeps {sc after : Scope} {source : String} {d : Datum} (h : run sc source = .ok (d, after)) :
    ∃ body, parse? source = some body ∧ ∀ name, name ∉ writtenIn body → after.get? name = sc.get? name := by
  rw [run] at h
  cases hparse : parse? source with
  | none => simp [hparse] at h
  | some body =>
    refine ⟨body, rfl, fun name hname => ?_⟩
    rw [hparse] at h
    dsimp only at h
    split at h
    · cases h
    · split at h
      case h_1 r hr =>
        cases h
        exact (evalStatements_keeps body hname .unit sc _ hr).found
      case h_2 => cases h

end

end Script

namespace Evaluator

open Script (Datum parse? writtenIn)

/-! ## 5. Variables that an expression does not write -/

theorem symbol_inj {a b : String} : symbol a = symbol b ↔ a = b := by
  simp [symbol]

/-- A variable that can be bound has its own value where the expression starts. -/
theorem get?_scopeOf {vars : Namespace} {name : String} (hname : Text.isName name = true) :
    (scopeOf vars).get? (symbol name) = (vars.get? name).map Datum.ofValue := by
  rw [scopeOf, Dict.get?]
  induction vars.toList with
  | nil => rfl
  | cons v vs ih =>
    obtain ⟨key, x⟩ := v
    by_cases hkey : key = name
    · subst hkey
      simp [hname, Script.Scope.get?, Entries.find?]
    · have hfind : Entries.find? name ((key, x) :: vs) = Entries.find? name vs := by
        simp [Entries.find?, Ne.symm hkey]
      rw [hfind, ← ih]
      cases hbound : Text.isName key with
      | false => simp [hbound]
      | true => simp [hbound, Script.Scope.get?, symbol_inj, hkey]

/-- A bound variable that has its datum still is stored as it was. -/
theorem Stores.unchanged {after : Script.Scope} {vars vars' : Namespace} {name : String}
    (h : Stores after (bindable vars) vars vars')
    (hname : name ∉ bindable vars ∨ after.get? (symbol name) = (scopeOf vars).get? (symbol name)) :
    vars'.get? name = vars.get? name := by
  by_cases hmem : name ∈ bindable vars
  · obtain ⟨⟨v, hv⟩, hisName⟩ := mem_bindable.1 hmem
    have hd : after.get? (symbol name) = some (Datum.ofValue v) := by
      rw [hname.resolve_left (not_not_intro hmem), get?_scopeOf hisName, hv, Option.map_some]
    obtain ⟨w, hw, hset⟩ := h.set name hmem _ hd
    rw [Datum.toValue_ofValue] at hw
    rw [hset, hv, Except.ok.inj hw]
  · exact h.kept name (.inl hmem)

/-- **Values survive an evaluation.**  A value is given back as it was by the two conversions; a datum has a value
exactly if all its parts can be stored, and is given back but for integers that are floating then and characters
that are texts.  So an evaluation that has a value leaves every variable that it does not change as it was, whether
the variable was bound or not; and what the evaluator of the language changes is what the expression writes. -/
theorem survives_evaluation :
    (∀ v : Value, (Datum.ofValue v).toValue = .ok v) ∧
      (∀ d : Datum, ((∃ v, d.toValue = .ok v) ↔ d.Storable) ∧
        ∀ v, d.toValue = .ok v → Datum.ofValue v = d.settled) ∧
      (∀ (run : Interpreter) (expr : String) (vars vars' : Namespace) (v : Value),
        ofInterpreter run expr vars = (.ok v, vars') →
        ∃ d after, run (scopeOf vars) (marked expr) = .ok (d, after) ∧
          ∀ name, name ∉ bindable vars ∨ after.get? (symbol name) = (scopeOf vars).get? (symbol name) →
            vars'.get? name = vars.get? name) ∧
      ∀ (expr : String) (vars vars' : Namespace) (v : Value), standard expr vars = (.ok v, vars') →
        ∃ body, parse? (marked expr) = some body ∧
          ∀ name, symbol name ∉ writtenIn body → vars'.get? name = vars.get? name := by
  refine ⟨Datum.toValue_ofValue, fun d => ⟨d.toValue_eq_ok_iff, fun _ => Datum.ofValue_of_toValue⟩, ?_, ?_⟩
  · intro run expr vars vars' v h
    obtain ⟨d, after, hrun, hstores⟩ := stores_of_ok h
    exact ⟨d, after, hrun, fun name => hstores.unchanged⟩
  · intro expr vars vars' v h
    obtain ⟨d, after, hrun, hstores⟩ := stores_of_ok h
    obtain ⟨body, hbody, hkeeps⟩ := Script.run_keeps hrun
    exact ⟨body, hbody, fun name hname => hstores.unchanged (.inr (hkeeps _ hname))⟩

/-- A character comes back as a text; and an assignment to one variable leaves the others alone, one that the
expression could name and one that it could not. -/
theorem survives_assignment_to_another :
    (Datum.toValue (.list [.char 'x', .unit]) = .ok (.list [.text "x", .null]) ∧
        Datum.ofValue (.list [.text "x", .null]) = Datum.settled (.list [.char 'x', .unit])) ∧
      ∃ vars', standard "$a = true" (Dict.ofList [("a", .null), ("b", .text "x"), ("my-var", .null)]) =
          (.ok .null, vars') ∧
        vars'.get? "b" = some (.text "x") ∧ vars'.get? "my-var" = some .null := by
  obtain ⟨-, hdata, hinterpreter, hstandard⟩ := survives_evaluation
  have htokens : Script.Token.all? (marked "$a = true").toList =
      some [.name "__sv_a", .symbol "=", .name "true"] := by rfl
  have hstatements : Script.statements? 64 [.name "__sv_a", .symbol "=", .name "true"] =
      some ([.assign (.variable "__sv_a") none (.literal (.bool true))], []) := by rfl
  have hparse : parse? (marked "$a = true") =
      some [.assign (.variable "__sv_a") none (.literal (.bool true))] :=
    Script.parse?_of_tokens htokens hstatements
  have hrun : standard "$a = true" (Dict.ofList [("a", .null), ("b", .text "x"), ("my-var", .null)]) =
      (.ok .null, Dict.ofList [("a", .bool true), ("b", .text "x"), ("my-var", .null)]) := by
    rw [standard, ofInterpreter, Script.run, hparse]
    rfl
  obtain ⟨body, hbody, hkeeps⟩ := hstandard _ _ _ _ hrun
  obtain rfl : [_] = body := Option.some.inj (hparse.symm.trans hbody)
  obtain ⟨_, _, _, hunbound⟩ := hinterpreter Script.run _ _ _ _ hrun
  exact ⟨⟨rfl, (hdata _).2 _ rfl⟩, _, hrun, hkeeps "b" (by decide), hunbound "my-var" (.inl (by decide))⟩

end Evaluator

end BlockFlow
