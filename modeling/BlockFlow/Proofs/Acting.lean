/-
# What actions do

`Action.Ends` says what holds of an action's result and of the session after it.  Each way of putting
actions together has an equation for it, tagged for `simp`, and each step that the commands are made of
has one lemma; what a command does is then read off its text.

Expressions, record files and patterns may change any variable, and nothing else: `Ends.evaluate` and
the lemmas after it.
-/
import BlockFlow.Flow.Execute

namespace BlockFlow.Flow

/-! ## 1. Sessions that differ in their variables -/

namespace Session

/-- The session with other variables. -/
def withVars (s : Session) (v : Namespace) : Session := { s with vars := v }

@[simp] theorem withVars_withVars (s : Session) (v w : Namespace) :
    (s.withVars v).withVars w = s.withVars w := rfl

@[simp] theorem withVars_vars (s : Session) : s.withVars s.vars = s := rfl

@[simp] theorem suite_withVars (s : Session) (v : Namespace) : (s.withVars v).suite = s.suite := rfl

@[simp] theorem vars_withVars (s : Session) (v : Namespace) : (s.withVars v).vars = v := rfl

@[simp] theorem calls_withVars (s : Session) (v : Namespace) : (s.withVars v).calls = s.calls := rfl

@[simp] theorem base_withVars (s : Session) (v : Namespace) : (s.withVars v).base = s.base := rfl

@[simp] theorem blocks_withVars (s : Session) (v : Namespace) : (s.withVars v).blocks = s.blocks := rfl

@[simp] theorem depth_withVars (s : Session) (v : Namespace) : (s.withVars v).depth = s.depth := rfl

@[simp] theorem nesting_withVars (s : Session) (v : Namespace) :
    (s.withVars v).nesting = s.nesting := rfl

@[simp] theorem deferred_withVars (s : Session) (v : Namespace) :
    (s.withVars v).deferred = s.deferred := rfl

@[simp] theorem pending_withVars (s : Session) (v : Namespace) :
    (s.withVars v).pending = s.pending := rfl

@[simp] theorem current_withVars (s : Session) (v : Namespace) :
    (s.withVars v).current = s.current := rfl

@[simp] theorem callee?_withVars (s : Session) (v : Namespace) :
    (s.withVars v).callee? = s.callee? := rfl

/-- Nothing but the variables changes. -/
def OnlyVars (s t : Session) : Prop := ∃ v, t = s.withVars v

/-- A relation of sessions that holds across no change, and across changes in turn. -/
class Way (R : Session → Session → Prop) : Prop where
  refl (s : Session) : R s s
  trans {s s' t : Session} : R s s' → R s' t → R s t

instance : Way OnlyVars where
  refl s := ⟨s.vars, rfl⟩
  trans := by
    rintro s _ _ ⟨v, rfl⟩ ⟨w, rfl⟩
    exact ⟨w, rfl⟩

end Session

namespace Action

variable {α β : Type} {s : Session}

/-! ## 2. Results of actions -/

/-- Something holds of an action's result and of the session after it. -/
def Ends (m : Action α) (s : Session) (Q : Except Fault α → Session → Prop) : Prop := Q (m s).1 (m s).2

variable {Q R : Except Fault α → Session → Prop}

theorem Ends.mono {m : Action α} (h : m.Ends s Q) (hQ : ∀ r t, Q r t → R r t) : m.Ends s R := hQ _ _ h

@[simp] theorem ends_pure (a : α) : (pure a : Action α).Ends s Q ↔ Q (.ok a) s := Iff.rfl

@[simp] theorem ends_throw (f : Fault) : (throw f : Action α).Ends s Q ↔ Q (.error f) s := Iff.rfl

@[simp] theorem ends_fail (e : FlowError) : (fail e : Action α).Ends s Q ↔ Q (.error e.fault) s := Iff.rfl

@[simp] theorem ends_change {Q : Except Fault Unit → Session → Prop} (f : Session → Session) :
    (change f).Ends s Q ↔ Q (.ok ()) (f s) := Iff.rfl

@[simp] theorem ends_ask (f : Session → α) : (ask f).Ends s Q ↔ Q (.ok (f s)) s := Iff.rfl

@[simp] theorem ends_getThe {Q : Except Fault Session → Session → Prop} :
    (getThe Session : Action Session).Ends s Q ↔ Q (.ok s) s := Iff.rfl

@[simp] theorem ends_goTo {Q : Except Fault Unit → Session → Prop} (a : Address) :
    (goTo a).Ends s Q ↔ Q (.ok ()) (s.branch a) := Iff.rfl

/-- The first of two actions passes its result on, or its fault. -/
theorem bind_apply (m : Action α) (f : α → Action β) (s : Session) : (m >>= f) s = match m s with
    | (.ok a, t) => f a t
    | (.error e, t) => (.error e, t) := by
  change (ExceptT.bind m f) s = _
  unfold ExceptT.bind ExceptT.mk
  change (match m s with | (r, t) => (ExceptT.bindCont f r) t) = _
  rcases m s with ⟨_ | _, _⟩ <;> rfl

@[simp] theorem ends_bind {Q : Except Fault β → Session → Prop} (m : Action α) (f : α → Action β) :
    (m >>= f).Ends s Q ↔ m.Ends s fun r t =>
      match r with
      | .ok a => (f a).Ends t Q
      | .error e => Q (.error e) t := by
  unfold Ends
  rw [bind_apply]
  rcases m s with ⟨_ | _, _⟩ <;> rfl

theorem ends_map {Q : Except Fault β → Session → Prop} (m : Action α) (f : α → β) :
    (f <$> m).Ends s Q ↔ m.Ends s fun r t => Q (r.map f) t := by
  rw [map_eq_pure_bind, ends_bind]
  unfold Ends
  rcases m s with ⟨_ | _, _⟩ <;> rfl

@[simp] theorem ends_discard {Q : Except Fault Unit → Session → Prop} (m : Action α) :
    (Functor.discard m : Action Unit).Ends s Q ↔ m.Ends s fun r t => Q (r.map fun _ => ()) t :=
  ends_map m fun _ => ()

/-- A handler takes over from an action that fails. -/
theorem tryCatch_apply (m : Action α) (f : Fault → Action α) (s : Session) :
    (MonadExcept.tryCatch m f : Action α) s = match m s with
      | (.ok a, t) => (.ok a, t)
      | (.error e, t) => f e t := by
  simp only [MonadExcept.tryCatch, tryCatchThe, MonadExceptOf.tryCatch, ExceptT.tryCatch,
    ExceptT.mk, Bind.bind, StateT.bind]
  rcases m s with ⟨_ | _, _⟩ <;> rfl

theorem ends_tryCatch (m : Action α) (f : Fault → Action α) :
    (MonadExcept.tryCatch m f : Action α).Ends s Q ↔ m.Ends s fun r t =>
      match r with
      | .ok a => Q (.ok a) t
      | .error e => (f e).Ends t Q := by
  unfold Ends
  rw [tryCatch_apply]
  rcases m s with ⟨_ | _, _⟩ <;> rfl

/-- An expression is evaluated over the variables, which it may change. -/
theorem ends_evaluate {Q : Except Fault Value → Session → Prop} (g : Setting) (expr : String) :
    (evaluate g expr).Ends s Q ↔
      Q ((g.evaluate expr s.vars).1.mapError EvalError.fault) (s.withVars (g.evaluate expr s.vars).2) := by
  unfold evaluate
  rw [ends_bind, ends_ask]
  dsimp only
  rw [ends_bind, ends_change]
  cases (g.evaluate expr s.vars).1 <;> rfl

/-! ## 3. Actions within a relation -/

/-- Whatever its result, the action leads to a session in relation to the one before. -/
def Within (R : Session → Session → Prop) (m : Action α) : Prop := ∀ s, R s (m s).2

namespace Within

/-- Actions in turn, each within a relation of its own. -/
theorem bind_of {R S T : Session → Session → Prop} {m : Action α} {f : α → Action β} (hm : m.Within R)
    (hf : ∀ a, (f a).Within S) (hstop : ∀ {s t}, R s t → T s t) (hgo : ∀ {s t u}, R s t → S t u → T s u) :
    (m >>= f).Within T := fun s => by
  have : (m >>= f).Ends s fun _ t => T s t := by
    rw [ends_bind]
    refine Ends.mono (Q := fun _ t => R s t) (hm s) fun r t h => ?_
    cases r with
    | error e => exact hstop h
    | ok a => exact hgo h (hf a t)
  exact this

theorem mono {R S : Session → Session → Prop} {m : Action α} (h : m.Within R) (hRS : ∀ {s t}, R s t → S s t) :
    m.Within S := fun s => hRS (h s)

variable {R : Session → Session → Prop}

theorem change {f : Session → Session} (h : ∀ s, R s (f s)) : (Action.change f).Within R := h

theorem ite {c : Prop} [Decidable c] {m n : Action α} (hm : m.Within R) (hn : n.Within R) :
    (if c then m else n).Within R := by
  split
  · exact hm
  · exact hn

variable [Session.Way R]

theorem pure (a : α) : (Pure.pure a : Action α).Within R := Session.Way.refl

theorem throw (f : Fault) : (MonadExcept.throw f : Action α).Within R := Session.Way.refl

theorem fail (e : FlowError) : (Action.fail e : Action α).Within R := Session.Way.refl

theorem ask (f : Session → α) : (Action.ask f).Within R := Session.Way.refl

theorem get : (getThe Session : Action Session).Within R := Session.Way.refl

theorem bind {m : Action α} {f : α → Action β} (hm : m.Within R) (hf : ∀ a, (f a).Within R) :
    (m >>= f).Within R := bind_of hm hf id Session.Way.trans

theorem map {m : Action α} (hm : m.Within R) (f : α → β) : (f <$> m).Within R := by
  rw [map_eq_pure_bind]
  exact hm.bind fun a => pure (f a)

theorem discard {m : Action α} (hm : m.Within R) : (Functor.discard m : Action Unit).Within R := hm.map _

theorem tryCatch {m : Action α} {f : Fault → Action α} (hm : m.Within R) (hf : ∀ e, (f e).Within R) :
    (MonadExcept.tryCatch m f).Within R := fun s => by
  have : (MonadExcept.tryCatch m f).Ends s fun _ t => R s t := by
    rw [ends_tryCatch]
    refine Ends.mono (Q := fun _ t => R s t) (hm s) fun r t h => ?_
    cases r with
    | ok a => exact h
    | error e => exact Session.Way.trans h (hf e t)
  exact this

/-! What evaluates expressions, and changes nothing besides, is within every relation that evaluating is. -/

variable {g : Setting} (he : ∀ expr, (Action.evaluate g expr).Within R)

include he

theorem condition (expr : String) : (Action.condition g expr).Within R := (he expr).bind fun _ => pure _

theorem evaluateAll : ∀ exprs : List String, (Action.evaluateAll g exprs).Within R
  | [] => pure _
  | expr :: exprs => (he expr).discard.bind fun _ => evaluateAll exprs

theorem guardHolds (guard : String) : (Flow.guardHolds g guard).Within R := ite (pure _) (condition he guard)

theorem throwValue (expr : String) : (Flow.throwValue g expr).Within R :=
  ite ((throw _).bind fun _ => (he expr).bind fun _ => throw _) ((he expr).bind fun _ => throw _)

theorem arguments : ∀ (parts : List String) (args : Namespace), (Flow.arguments g args parts).Within R
  | [], _ => pure _
  | part :: parts, args => by
    unfold Flow.arguments
    refine ite (arguments parts args) ?_
    split
    · exact fail _
    · exact (he _).bind fun v => arguments parts _

theorem skipCount (spec : String) : (Flow.skipCount g spec).Within R := by
  refine ite (pure _) ((he spec).bind fun v => ?_)
  split
  · exact fail _
  · exact ite (fail _) (pure _)

theorem foreachHeader (target value : String) : (Flow.foreachHeader g target value).Within R := by
  refine ite ((fail _).bind fun _ => ?_) ?_
  all_goals
    dsimp only
    split
    · refine (fail _).bind fun _ => ite ((fail _).bind fun _ => ?_) ?_ <;> exact (he _).bind fun _ => pure _
    · refine ite ((fail _).bind fun _ => ?_) ?_ <;> exact (he _).bind fun _ => pure _

theorem handlerText (target : String) : (Flow.handlerText g target).Within R :=
  ite (pure _) (tryCatch ((he target).bind fun _ => pure _) fun _ => pure _)

theorem catches (message : String) (catchAt : Address) : (Flow.catches g message catchAt).Within R :=
  (ask _).bind fun _ => ite (pure _) ((handlerText he _).bind fun _ => pure _)

omit he in
theorem recordsHeader (g : Setting) (a : Address) (k : Keyword) (format : DataFormat) (target : String) :
    (Flow.recordsHeader g a k format target).Within R := by
  refine ite ((fail _).bind fun _ => (ask _).bind fun path => ?_) ((ask _).bind fun path => ?_)
  all_goals
    split
    · exact throw _
    · exact pure _

end Within

/-! ## 4. Actions that change variables only -/

/-- Whatever the action does, it leaves everything but the variables as it was. -/
def OnlyVars (m : Action α) : Prop := ∀ s, ∃ v, (m s).2 = s.withVars v

namespace OnlyVars

theorem ends {m : Action α} (h : m.OnlyVars) (hQ : ∀ r v, Q r (s.withVars v)) : m.Ends s Q := by
  obtain ⟨v, hv⟩ := h s
  rw [Ends, hv]
  exact hQ _ v

theorem of_within {m : Action α} (h : m.Within Session.OnlyVars) : m.OnlyVars := h

theorem pure (a : α) : (Pure.pure a : Action α).OnlyVars := of_within (.pure a)

theorem throw (f : Fault) : (MonadExcept.throw f : Action α).OnlyVars := of_within (.throw f)

theorem fail (e : FlowError) : (Action.fail e : Action α).OnlyVars := of_within (.fail e)

theorem ask (f : Session → α) : (Action.ask f).OnlyVars := of_within (.ask f)

theorem change (f : Session → Namespace) :
    (Action.change fun s => { s with vars := f s }).OnlyVars := fun s => ⟨f s, rfl⟩

theorem bind {m : Action α} {f : α → Action β} (hm : m.OnlyVars) (hf : ∀ a, (f a).OnlyVars) :
    (m >>= f).OnlyVars := of_within (.bind hm hf)

theorem ite {c : Prop} [Decidable c] {m n : Action α} (hm : m.OnlyVars) (hn : n.OnlyVars) :
    (if c then m else n).OnlyVars := of_within (.ite hm hn)

variable (g : Setting)

theorem evaluate (expr : String) : (Action.evaluate g expr).OnlyVars := by
  refine (ask Session.vars).bind fun vars => ?_
  refine (change fun _ => (g.evaluate expr vars).2).bind fun _ => ?_
  split
  · exact pure _
  · exact throw _

theorem within_evaluate (expr : String) : (Action.evaluate g expr).Within Session.OnlyVars := evaluate g expr

theorem condition (expr : String) : (Action.condition g expr).OnlyVars :=
  of_within (.condition (within_evaluate g) expr)

theorem evaluateAll (exprs : List String) : (Action.evaluateAll g exprs).OnlyVars :=
  of_within (.evaluateAll (within_evaluate g) exprs)

theorem guardHolds (guard : String) : (Flow.guardHolds g guard).OnlyVars :=
  of_within (.guardHolds (within_evaluate g) guard)

theorem storeResult (expr : String) : (Flow.storeResult g expr).OnlyVars :=
  ite ((evaluate g expr).bind fun v => change fun s => s.vars.insert Namespace.resultName v) (pure _)

theorem throwValue (expr : String) : (Flow.throwValue g expr).OnlyVars :=
  of_within (.throwValue (within_evaluate g) expr)

theorem arguments (parts : List String) (args : Namespace) : (Flow.arguments g args parts).OnlyVars :=
  of_within (.arguments (within_evaluate g) parts args)

theorem skipCount (spec : String) : (Flow.skipCount g spec).OnlyVars :=
  of_within (.skipCount (within_evaluate g) spec)

theorem foreachHeader (target value : String) : (Flow.foreachHeader g target value).OnlyVars :=
  of_within (.foreachHeader (within_evaluate g) target value)

theorem recordsHeader (a : Address) (k : Keyword) (format : DataFormat) (target : String) :
    (Flow.recordsHeader g a k format target).OnlyVars := of_within (.recordsHeader g a k format target)

theorem takeRecord (cursor : DataCursor) : (Flow.takeRecord cursor).OnlyVars := by
  refine (ask Session.vars).bind fun vars => ?_
  split
  · exact throw _
  · rename_i vars' _
    exact (change fun _ => vars').bind fun _ => pure _

theorem selectRecord (selector path : String) : ∀ (left : Nat) (cursor : DataCursor),
    (Flow.selectRecord g selector path cursor left).OnlyVars
  | 0, _ => (condition g selector).bind fun _ => ite (fail _) (pure _)
  | left + 1, cursor => (condition g selector).bind fun _ =>
    ite ((takeRecord cursor).bind fun c => selectRecord selector path left c) (pure _)

theorem loadRecord (a : Address) (format : DataFormat) (target selector : String) :
    (Flow.loadRecord g a format target selector).OnlyVars := by
  refine ite ((fail _).bind fun _ => (ask _).bind fun path => ?_) ((ask _).bind fun path => ?_)
  all_goals
    split
    · exact throw _
    · exact (takeRecord _).bind fun c => ite (selectRecord g _ _ _ _) (ite (fail _) (pure _))

theorem bindName (name : String) (v : Value) : (Flow.bindName name v).OnlyVars :=
  change fun s => s.vars.insert name v

theorem bindItem (var : String) (items : List Value) (index : Nat) :
    (Flow.bindItem var items index).OnlyVars := by
  unfold Flow.bindItem
  split
  · exact bindName _ _
  · exact pure _

theorem begin (source : LoopSource) : (source.begin g).OnlyVars := by
  cases source with
  | holding | records => exact pure _
  | counted init _ _ => exact evaluateAll g init
  | values var items _ => exact bindItem var items 0

theorem clearError : Flow.clearError.OnlyVars := change fun s => s.vars.erase Namespace.errorName

theorem catches (message : String) (catchAt : Address) :
    (Flow.catches g message catchAt).OnlyVars :=
  of_within (.catches (within_evaluate g) message catchAt)

end OnlyVars

end Action

end BlockFlow.Flow
