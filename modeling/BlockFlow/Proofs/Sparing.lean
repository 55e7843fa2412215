/-
# Commands that spare a name

A name is spared by what changes its binding only to give back what loops and calls have saved:
`Session.Spares`.  A command may also enter a loop or make a call; then the binding stays, or the call has
saved it, and leaving the call gives it back (`Session.Carries`).

Expressions and the host may bind any name.  `Setting.sparing` and `Host.sparing` are the setting and the host
that undo this for one name.  What is left are the names that commands bind themselves, those of loops,
arguments, results and records; `perform_carries` and `step_carries` say that no other name is touched, but by
the parts of a try that remove the message of its fault.
-/
import BlockFlow.Proofs.Passes

namespace BlockFlow

/-! ## 1. Settings and hosts that spare a name -/

namespace Flow

/-- No expression changes what a name is bound to. -/
def Setting.Spares (g : Setting) (name : String) : Prop := ∀ expr v, (g.evaluate expr v).2.get? name = v.get? name

/-- The setting in which expressions do not change what a name is bound to. -/
def Setting.sparing (g : Setting) (name : String) : Setting :=
  { g with evaluate := fun expr v => ((g.evaluate expr v).1, (g.evaluate expr v).2.restore (bindings [name] v)) }

section

variable {g : Setting} {name : String}

theorem get?_restore_bindings (v w : Namespace) (name : String) :
    (w.restore (bindings [name] v)).get? name = v.get? name := by
  rw [Namespace.get?_restore, get?_bindings List.mem_cons_self]
  rfl

/-- Nothing is undone if the name is bound as before. -/
theorem restore_bindings {v w : Namespace} (h : w.get? name = v.get? name) : w.restore (bindings [name] v) = w := by
  refine Dict.ext fun other => ?_
  by_cases hother : other = name
  · rw [hother, get?_restore_bindings, h]
  · have hnone : (bindings [name] v).get? other = none := by
      by_contra hne
      exact hother (List.mem_singleton.1 (mem_of_get?_bindings hne))
    rw [Namespace.get?_restore, hnone]
    rfl

theorem Setting.spares_sparing (g : Setting) (name : String) : (g.sparing name).Spares name :=
  fun _ v => get?_restore_bindings v _ name

/-- Expressions that spare the name are the same. -/
theorem Setting.Spares.sparing_eq (h : g.Spares name) : g.sparing name = g := by
  have : (fun expr v => ((g.evaluate expr v).1, (g.evaluate expr v).2.restore (bindings [name] v))) = g.evaluate :=
    funext fun expr => funext fun v => Prod.ext rfl (restore_bindings (h expr v))
  rw [Setting.sparing, this]

end

end Flow

namespace Host

open BlockFlow.Flow

variable {σ : Type} {host : Host σ} {name : String}

/-- No command of the host changes what a name is bound to. -/
def Spares (host : Host σ) (name : String) : Prop :=
  ∀ evaluate c state v, (host.execute evaluate c state v).2.2.get? name = v.get? name

/-- The host that does not change what a name is bound to. -/
def sparing (host : Host σ) (name : String) : Host σ where
  execute evaluate c state v :=
    let (r, state, w) := host.execute evaluate c state v
    (r, state, w.restore (bindings [name] v))

theorem spares_sparing (host : Host σ) (name : String) : (host.sparing name).Spares name :=
  fun _ _ _ v => get?_restore_bindings v _ name

theorem Spares.sparing_eq (h : host.Spares name) : host.sparing name = host := by
  have : (fun evaluate c state v => ((host.execute evaluate c state v).1, (host.execute evaluate c state v).2.1,
      (host.execute evaluate c state v).2.2.restore (bindings [name] v))) = host.execute :=
    funext fun evaluate => funext fun c => funext fun state => funext fun v =>
      Prod.ext rfl (Prod.ext rfl (restore_bindings (h evaluate c state v)))
  exact congrArg Host.mk this

end Host

namespace Flow

/-! ## 2. Sessions that spare a name -/

namespace Session

variable {name : String} {s t u : Session} {P : Snapshot → Prop}

/-- **A name is spared**: loops and calls are left, and the name is bound as they give it back, or as before. -/
def Spares (name : String) (s t : Session) : Prop :=
  ∃ gone, s.snapshots = gone ++ t.snapshots ∧ t.vars.get? name = (lowest? name gone).getD (s.vars.get? name)

/-- **A name is carried**: it is spared, or a loop is entered or a call made, which gives it back as it was. -/
inductive Carries (name : String) (P : Snapshot → Prop) (s t : Session) : Prop
  | spares (spared : s.Spares name t)
  | shelters (sn : Snapshot) (grown : t.snapshots = sn :: s.snapshots) (allowed : P sn)
      (kept : (sn.restore t.vars).get? name = s.vars.get? name)

theorem Spares.of_eq (hs : t.snapshots = s.snapshots) (hv : t.vars.get? name = s.vars.get? name) : s.Spares name t :=
  ⟨[], hs.symm, hv⟩

theorem Spares.refl (s : Session) : s.Spares name s := .of_eq rfl rfl

theorem Unwinds.spares (h : s.Unwinds t) (name : String) : s.Spares name t := by
  obtain ⟨gone, hs, hv⟩ := h
  exact ⟨gone, hs, by rw [hv, get?_restoreAll]⟩

theorem Spares.trans (h : s.Spares name t) (h' : t.Spares name u) : s.Spares name u := by
  obtain ⟨gone, hs, hv⟩ := h
  obtain ⟨gone', hs', hv'⟩ := h'
  refine ⟨gone ++ gone', by rw [hs, hs', List.append_assoc], ?_⟩
  rw [hv', hv, lowest?_append]
  cases lowest? name gone' <;> rfl

instance : Course (Spares name) where
  refl := .refl
  trans := .trans
  quiet hs hv := .of_eq hs (by rw [hv])

/-- A session with other variables spares a name if it is bound as before. -/
theorem spares_withVars {v : Namespace} : s.Spares name (s.withVars v) ↔ v.get? name = s.vars.get? name := by
  refine ⟨?_, fun hv => .of_eq rfl hv⟩
  rintro ⟨gone, hs, hv⟩
  obtain rfl : gone = [] := List.append_left_eq_self.1 hs.symm
  exact hv

theorem Carries.trans (h : s.Carries name P t) (h' : t.Spares name u) : s.Carries name P u := by
  cases h with
  | spares spared => exact .spares (spared.trans h')
  | shelters sn grown allowed kept =>
    obtain ⟨gone, hs, hv⟩ := h'
    rw [get?_restore] at kept
    cases gone with
    | nil =>
      refine .shelters sn (hs.symm.trans grown) allowed ?_
      rw [get?_restore, hv]
      exact kept
    -- the loop or the call is left again
    | cons top gone =>
      rw [grown] at hs
      obtain ⟨rfl, hsame⟩ := List.cons.inj hs
      refine .spares ⟨gone, hsame, ?_⟩
      rw [hv, show sn :: gone = [sn] ++ gone from rfl, lowest?_append, ← kept]
      have hone : lowest? name [sn] = sn.binding? name := by
        rw [lowest?, List.reverse_singleton, List.findSome?_singleton]
      rw [hone]
      cases lowest? name gone <;> rfl

end Session

namespace Action.Within

variable {α β : Type} {R : Session → Session → Prop} [Session.Way R] {name : String}

/-- What follows an action may depend on its result. -/
theorem bind_when {m : Action α} {f : α → Action β} {P : α → Prop}
    (hm : ∀ s, m.Ends s fun r t => R s t ∧ ∀ a, r = .ok a → P a) (hf : ∀ a, P a → (f a).Within R) :
    (m >>= f).Within R := fun s => by
  have : (m >>= f).Ends s fun _ t => R s t := by
    rw [ends_bind]
    refine (hm s).mono fun r t h => ?_
    cases r with
    | error e => exact h.1
    | ok a => exact Session.Way.trans h.1 (hf a (h.2 a rfl) t)
  exact this

theorem spares {m : Action α} (h : m.Within Session.Unwinds) : m.Within (Session.Spares name) :=
  h.mono fun h => h.spares name

end Action.Within

open BlockFlow.Flow.Action

section

variable {g : Setting} {name : String} (hg : g.Spares name)

include hg

theorem Setting.Spares.within_evaluate (expr : String) : (Action.evaluate g expr).Within (Session.Spares name) := fun s => by
  have : (Action.evaluate g expr).Ends s fun _ t => s.Spares name t := by
    rw [ends_evaluate]
    exact Session.spares_withVars.2 (hg expr s.vars)
  exact this

/-! ## 3. Records and loops -/

theorem Setting.Spares.evaluateAll : ∀ (exprs : List String) (v : Namespace),
    (g.evaluateAll exprs v).2.get? name = v.get? name
  | [], _ => rfl
  | expr :: exprs, v => by
    unfold Setting.evaluateAll
    have hexpr := hg expr v
    generalize g.evaluate expr v = r at hexpr
    rcases r with ⟨e | x, w⟩
    · exact hexpr
    · exact (evaluateAll exprs w).trans hexpr

omit hg in
/-- A record is copied into the variables of its fields. -/
theorem get?_next {cursor cursor' : DataCursor} {v w : Namespace} (h : cursor.next v = .ok (cursor', w))
    (hname : name ∉ cursor.fields) : w.get? name = v.get? name := by
  unfold DataCursor.next at h
  split at h
  · cases h
  · rename_i record _
    split at h
    · rename_i hkeys
      cases h
      refine Dict.get?_insertAll_of_not_mem fun e he heq => hname ?_
      rw [← hkeys, ← heq]
      exact List.mem_map_of_mem he
    · cases h

namespace LoopSource

variable {source : LoopSource} (hsource : ¬source.Binds name)

omit hg in
theorem get?_itemBound {var : String} (hvar : name ≠ var) (items : List Value) (index : Nat) (v : Namespace) :
    (itemBound var items index v).get? name = v.get? name := by
  unfold itemBound
  split
  · rw [Dict.get?_insert, if_neg hvar]
  · rfl

include hsource

theorem get?_begun (v : Namespace) : (source.begun g v).2.get? name = v.get? name := by
  cases source with
  | holding | records => rfl
  | counted init cond iterate => exact hg.evaluateAll init v
  | values var items index => exact get?_itemBound (fun h => hsource (.inl h)) items 0 v

theorem get?_advanced (v : Namespace) : (source.advanced g v).2.2.get? name = v.get? name ∧
    ¬(source.advanced g v).2.1.Binds name := by
  cases source with
  | holding | records => exact ⟨rfl, hsource⟩
  | counted init cond iterate => exact ⟨hg.evaluateAll iterate v, hsource⟩
  | values var items index => exact ⟨get?_itemBound (fun h => hsource (.inl h)) items (index + 1) v, hsource⟩

theorem get?_tested (v : Namespace) : (source.tested g v).2.2.get? name = v.get? name := by
  cases source with
  | holding cond | counted init cond iterate => exact hg cond v
  | values var items index =>
    refine (Dict.get?_insert _ _ _ _).trans (if_neg fun h => hsource (.inr h))
  | records cursor =>
    unfold tested
    dsimp only
    split
    · rfl
    · split
      · rfl
      · rename_i hnext
        exact get?_next hnext hsource

/-- **The opener of a loop** binds only names that the source binds. -/
theorem get?_opened (again : Bool) (v : Namespace) : (source.opened g again v).2.2.get? name = v.get? name := by
  unfold opened
  cases again with
  | true =>
    obtain ⟨hv, hbinds⟩ := get?_advanced hg hsource v
    rw [if_pos rfl]
    generalize source.advanced g v = r at hv hbinds
    rcases r with ⟨f | ⟨⟩, source', w⟩
    · exact hv
    · exact (get?_tested hg hbinds w).trans hv
  | false =>
    have hv := get?_begun hg hsource v
    rw [if_neg (by decide)]
    generalize source.begun g v = r at hv
    rcases r with ⟨f | ⟨⟩, w⟩
    · exact hv
    · exact (get?_tested hg hsource w).trans hv

end LoopSource

/-- A loop has not saved a name. -/
def Snapshot.Omits (name : String) : Snapshot → Prop
  | .loop _ saved => saved.get? name = none
  | .call _ _ => True

omit hg in
theorem Session.snapshots_opens {s : Session} {l : LoopFrame} {rest : List Frame} {e : Address}
    (r : Except Fault Bool × LoopSource × Namespace) :
    (s.opens l rest e r).snapshots = .loop l.opener l.saved :: (snapshotsIn rest ++ s.around) := by
  rcases r with ⟨f | more, source, v⟩ <;> exact Session.snapshots_setBlocks _ _

omit hg in
theorem Session.vars_opens {s : Session} {l : LoopFrame} {rest : List Frame} {e : Address}
    (r : Except Fault Bool × LoopSource × Namespace) : (s.opens l rest e r).vars = r.2.2 := by
  rcases r with ⟨f | more, source, v⟩ <;> rfl

variable {a e : Address} {s : Session}

/-- A header was read without changing what a name is bound to, and describes a loop that has other names. -/
def ReadsOther (name : String) (s : Session) (r : Except Fault LoopHeader) (t : Session) : Prop :=
  (∃ v, t = s.withVars v ∧ v.get? name = s.vars.get? name) ∧ ∀ h, r = .ok h → name ∉ h.names ∧ h.Own

/-- **The opener of a loop** carries a name that the loop does not bind, neither the one that is running nor the
one that the header describes. -/
theorem reachLoop_carries {k : Keyword} {header : Action LoopHeader} (hp : s.pending = none)
    (he : s.suite.Construct a e) (hrunning : ∀ l rest, s.blocks = .loop l :: rest → ¬l.source.Binds name)
    (hheader : header.Ends s (ReadsOther name s)) :
    (reachLoop g a k header).Ends s fun _ t => s.Carries name (Snapshot.Omits name) t := by
  by_cases hback : isReentering a s = true
  · obtain ⟨l, rest, hs, ho, hl⟩ := isReentering_iff.1 hback
    refine (reachLoop_again hs hp ho hl he).2 (.spares (.of_eq ?_ ?_))
    · rw [Session.snapshots_opens, s.snapshots_eq, hs]
      rfl
    · rw [Session.vars_opens]
      exact LoopSource.get?_opened hg (hrunning l rest hs) true s.vars
  · have hfresh := Bool.eq_false_iff.2 hback
    rcases hrun : header s with ⟨f | h, t⟩ <;> unfold Ends at hheader <;> rw [hrun] at hheader <;>
      obtain ⟨⟨v, rfl, hv⟩, hnames⟩ := hheader
    · unfold reachLoop
      simp only [ends_bind, ends_ask, hfresh, Bool.false_eq_true, if_false]
      unfold Ends
      rw [hrun]
      exact .spares (Session.spares_withVars.2 hv)
    · obtain ⟨hname, hown⟩ := hnames h rfl
      refine (reachLoop_enters hp hfresh he (h := h) (v := v) ⟨congrArg Prod.fst hrun, congrArg Prod.snd hrun⟩).2 ?_
      have hsaved : (bindings h.names v).get? name = none := by
        by_contra hne
        exact hname (mem_of_get?_bindings hne)
      refine .shelters (.loop a (bindings h.names v)) ?_ hsaved ?_
      · rw [Session.snapshots_opens, s.snapshots_eq]
        rfl
      · rw [get?_restore, show (Snapshot.loop a (bindings h.names v)).binding? name = none from hsaved,
          Session.vars_opens]
        refine (LoopSource.get?_opened hg (fun hb => hname (hown name hb)) false _).trans ?_
        refine (Dict.get?_insertAll_of_not_mem fun b hb heq => hname ?_).trans hv
        obtain ⟨other, hother, rfl⟩ := List.mem_map.1 hb
        exact heq ▸ (List.mem_filter.1 hother).1

/-! ## 4. Commands -/

/-- The format of the records that a command reads. -/
def recordFormat? : Keyword → Option DataFormat
  | .forJson | .loadJsonVars => some .json
  | .forXml | .loadXmlVars => some .xml
  | _ => none

/-- **The command at an address reads records** that have a field of a name. -/
def Bestows (g : Setting) (s : Session) (a : Address) (name : String) : Prop :=
  ∃ k format target value cursor, s.Runs a k target value ∧ recordFormat? k = some format ∧
    (DataCursor.new format).load g.files (dataPath g s a.unit target) = .ok cursor ∧ name ∈ cursor.fields

omit hg in
theorem foreachHeader_names (target value : String) : (foreachHeader g target value).Ends s fun r _ =>
    ∀ h, r = .ok h → ∀ name ∈ h.names, Text.isLetteredName name = true ∨ name = Namespace.indexName := by
  unfold foreachHeader
  dsimp only
  split
  · rintro _ ⟨⟩
  · split
    · rintro _ ⟨⟩
    · rename_i hcheck
      split
      · rintro _ ⟨⟩
      · rw [ends_bind, ends_evaluate]
        rcases g.evaluate ("[" ++ value ++ "]") s.vars with ⟨e | v, vars⟩
        · rintro _ ⟨⟩
        · rintro h ⟨⟩ name hname
          rcases List.mem_cons.1 hname with rfl | hname
          · cases hu : checkName (dropDollar target) "foreach variable" with
            | error e => exact absurd hu (hcheck e)
            | ok u => exact .inl (isLetteredName_of_checkName hu)
          · exact .inr (List.mem_singleton.1 hname)

omit hg in
theorem recordsHeader_names (k : Keyword) (format : DataFormat) (target : String) :
    (recordsHeader g a k format target).Ends s fun r t => t = s ∧ ∀ h, r = .ok h → ∃ cursor,
      (DataCursor.new format).load g.files (dataPath g s a.unit target) = .ok cursor ∧ h.names = cursor.fields := by
  unfold recordsHeader
  split
  · exact ⟨rfl, by rintro _ ⟨⟩⟩
  · rw [ends_bind, ends_ask]
    dsimp only
    split
    · exact ⟨rfl, by rintro _ ⟨⟩⟩
    · rename_i cursor hload
      refine ⟨rfl, ?_⟩
      rintro h ⟨⟩
      exact ⟨cursor, hload, rfl⟩

/-- **The header of a loop** describes a loop that has a name for its own only if a record has a field of that
name, or the name starts with a letter or is that of the index. -/
theorem exists_header_sparing {k : Keyword} {target value : String} (hruns : s.Runs a k target value)
    (hk : k.opens? = some .loop) (hbestows : ¬Bestows g s a name) (hletter : Text.isLetteredName name = false)
    (hindex : name ≠ Namespace.indexName) : ∃ header, perform g a k target value = reachLoop g a k header ∧
      header.Ends s (ReadsOther name s) := by
  have hfails (e : FlowError) : (fail e : Action LoopHeader).Ends s (ReadsOther name s) :=
    ⟨⟨s.vars, rfl, rfl⟩, by rintro _ ⟨⟩⟩
  have hreads (h : LoopHeader) (hother : name ∉ h.names ∧ h.Own) :
      (Pure.pure h : Action LoopHeader).Ends s (ReadsOther name s) := by
    refine ⟨⟨s.vars, rfl, rfl⟩, ?_⟩
    rintro _ ⟨⟩
    exact hother
  have hrecords (format : DataFormat) (hformat : recordFormat? k = some format) :
      (recordsHeader g a k format target).Ends s (ReadsOther name s) := by
    have hnames := recordsHeader_names (g := g) (a := a) (s := s) k format target
    refine ⟨⟨s.vars, hnames.1, rfl⟩, fun h hh => ⟨fun hmem => hbestows ?_, recordsHeader_own k format target h hh⟩⟩
    obtain ⟨cursor, hload, hfields⟩ := hnames.2 h hh
    exact ⟨k, format, target, value, cursor, hruns, hformat, hload, hfields ▸ hmem⟩
  cases k with
  | whileLoop =>
    refine ⟨_, rfl, ?_⟩
    cases hh : whileHeader target with
    | error e => exact hfails e
    | ok h =>
      refine hreads h ⟨?_, whileHeader_own hh⟩
      rw [whileHeader_names hh]
      exact List.not_mem_nil
  | forLoop =>
    refine ⟨_, rfl, ?_⟩
    cases hh : forHeader target with
    | error e => exact hfails e
    | ok h =>
      refine hreads h ⟨fun hmem => ?_, forHeader_own hh⟩
      obtain ⟨init, cond, iterate, -, hnames⟩ := forHeader_names hh
      cases (isLetteredName_of_mem_headerVariables hnames name hmem).symm.trans hletter
  | foreach =>
    refine ⟨_, rfl, ?_, fun h hh => ⟨fun hmem => ?_, foreachHeader_own target value h hh⟩⟩
    · obtain ⟨v, hv⟩ := OnlyVars.foreachHeader g target value s
      refine ⟨v, hv, Session.spares_withVars.1 ?_⟩
      rw [← hv]
      exact Within.foreachHeader hg.within_evaluate target value s
    · rcases foreachHeader_names target value h hh name hmem with hlettered | rfl
      · cases hlettered.symm.trans hletter
      · exact hindex rfl
  | forJson => exact ⟨_, rfl, hrecords .json rfl⟩
  | forXml => exact ⟨_, rfl, hrecords .xml rfl⟩
  | _ => cases hk

/-- Records that have no field of a name are copied, and the name is spared. -/
theorem loadRecord_sparing {k : Keyword} {format : DataFormat} {target value : String} (hruns : s.Runs a k target value)
    (hformat : recordFormat? k = some format) (hbestows : ¬Bestows g s a name) :
    (loadRecord g a format target value).Ends s fun _ t => s.Spares name t := by
  have htake {cursor : DataCursor} (hname : name ∉ cursor.fields) (s : Session) :
      (takeRecord cursor).Ends s fun r t => s.Spares name t ∧ ∀ c, r = .ok c → name ∉ c.fields := by
    unfold takeRecord
    rw [ends_bind, ends_ask]
    dsimp only
    split
    · exact ⟨Session.Spares.refl s, by rintro _ ⟨⟩⟩
    · rename_i hnext
      refine ⟨Session.spares_withVars.2 (get?_next hnext hname), ?_⟩
      rintro _ ⟨⟩
      exact fields_of_next hnext ▸ hname
  have hselect (path : String) : ∀ (left : Nat) (cursor : DataCursor), name ∉ cursor.fields →
      (selectRecord g value path cursor left).Within (Session.Spares name) := by
    intro left
    induction left with
    | zero => exact fun cursor _ => .bind (.condition hg.within_evaluate _) fun _ => .ite (.fail _) (.pure _)
    | succ left ih =>
      exact fun cursor hname => .bind (.condition hg.within_evaluate _) fun _ =>
        .ite (.bind_when (htake hname) ih) (.pure _)
  unfold loadRecord
  dsimp only
  by_cases hempty : target.isEmpty = true
  · rw [if_pos hempty]
    exact Session.Spares.refl s
  · rw [if_neg hempty, ends_bind, ends_ask]
    dsimp only
    split
    · exact Session.Spares.refl s
    · rename_i cursor hload
      have hname : name ∉ cursor.fields := fun hmem => hbestows ⟨k, format, target, value, cursor, hruns, hformat, hload, hmem⟩
      exact Within.bind_when (htake hname)
        (fun c hc => .ite (hselect _ _ c hc) (.ite (.fail _) (.pure _))) s

theorem loopToLeave?_sparing (guard : String) : (loopToLeave? g a guard).Within (Session.Spares name) :=
  .bind (.guardHolds hg.within_evaluate guard) fun _ => .ite (.pure _) <|
    .bind (deferTransfer_unwinds _).spares fun _ => .ite (.pure _) (.bind unwindToLoop_unwinds.spares fun _ => .pure _)

theorem breakLoop_sparing (guard : String) : (breakLoop g a guard).Within (Session.Spares name) := by
  refine .bind (loopToLeave?_sparing hg guard) fun l? => ?_
  split
  · exact .bind (.updateLoop fun _ => ⟨rfl, rfl⟩) fun _ => .bind (.block _) fun _ => .goToPart _ _
  · exact .pure _

theorem continueLoop_sparing (guard : String) : (continueLoop g a guard).Within (Session.Spares name) := by
  refine .bind (loopToLeave?_sparing hg guard) fun l? => ?_
  split
  · exact .bind (.updateLoop fun _ => ⟨rfl, rfl⟩) fun _ => .goTo _
  · exact .pure _

theorem returnFrom_sparing (hresult : name ≠ Namespace.resultName) (expr : String) :
    (returnFrom g a expr).Within (Session.Spares name) := by
  have hstore : (storeResult g expr).Within (Session.Spares name) :=
    .ite (.bind (hg.within_evaluate _) fun v => .change fun s => Session.spares_withVars.2 <| by
      rw [Dict.get?_insert, if_neg hresult]) (.pure _)
  exact .bind (.block _) fun _ => .bind (.ask _) fun _ => .ite (.pure _) <| .bind (deferTransfer_unwinds _).spares fun _ =>
    .ite (.pure _) <| .bind hstore fun _ => .bind (.ask _) fun _ =>
      .bind (.change fun s => (Session.unwinds_markReturning s).spares name) fun _ => .goToPart _ _

omit hg in
/-- A call that has ended hands over its result, and spares every other name. -/
theorem Session.spares_finishCall (s : Session) (hresult : name ≠ Namespace.resultName) :
    s.Spares name s.finishCall := by
  refine (s.unwinds_abortCall.spares name).trans (.of_eq rfl ?_)
  change (handResult (s.vars.get? Namespace.resultName) s.abortCall.vars).get? name = _
  cases s.vars.get? Namespace.resultName <;> simp [handResult, hresult]

/-- **A call** is finished, or made once its arguments were evaluated. -/
theorem reachCall_carries (hresult : name ≠ Namespace.resultName) (target value : String) :
    (reachCall g a target value).Ends s fun _ t => s.Carries name (Snapshot.Omits name) t := by
  unfold reachCall
  rw [ends_bind, ends_ask]
  dsimp only
  split
  · exact .spares (.refl s)
  · rw [ends_bind, ends_ask]
    dsimp only
    split
    · exact .spares (s.spares_finishCall hresult)
    · rw [ends_bind]
      have hargs := OnlyVars.arguments g (Text.splitTopLevel ',' value) ∅ s
      have hspares := Within.arguments hg.within_evaluate (Text.splitTopLevel ',' value) ∅ s
      unfold Ends
      generalize arguments g ∅ (Text.splitTopLevel ',' value) s = r at hargs hspares
      obtain ⟨x, t⟩ := r
      obtain ⟨v, rfl⟩ := hargs
      cases x with
      | error f => exact .spares hspares
      | ok args => exact .shelters (.call a v) rfl trivial (Session.spares_withVars.1 hspares)

end

section

variable {g : Setting} {a : Address} {s : Session} (hg : g.Spares Namespace.errorName)

include hg

/-- **A flow command carries the message of a fault**, but for the parts of a try that remove it, if the records
that it reads and the loop that it goes on with do not bind the name. -/
theorem perform_carries {k : Keyword} {target value : String} (hruns : s.Runs a k target value)
    (hready : k ≠ .call → s.Ready) (hfinally : k ≠ .finallyDo) (hend : k ≠ .endTry)
    (hbestows : ¬Bestows g s a Namespace.errorName)
    (hrunning : ∀ l rest, s.blocks = .loop l :: rest → ¬l.source.Binds Namespace.errorName) :
    (perform g a k target value).Ends s fun _ t =>
      s.Carries Namespace.errorName (Snapshot.Omits Namespace.errorName) t := by
  have hk : s.suite.keywordAt? a = some k := by
    obtain ⟨c, hc, hname, -⟩ := hruns
    exact keywordAt?_of_commandAt? hc hname
  have he := hg.within_evaluate
  have hspares {m : Action Unit} (h : m.Within (Session.Spares Namespace.errorName)) :
      m.Ends s fun _ t => s.Carries Namespace.errorName (Snapshot.Omits Namespace.errorName) t := .spares (h s)
  by_cases hloop : k.opens? = some .loop
  · have hready : s.Ready := hready (by rintro rfl; cases hloop)
    obtain ⟨b, hb, hbk⟩ := hready.nested.exists_block hk (Keyword.isLinked_of_opens? hloop)
    obtain ⟨e, he⟩ := hready.nested.exists_construct hb (by rw [Block.nature?, hbk, hloop]; rfl)
    obtain ⟨header, hperform, hheader⟩ := exists_header_sparing hg hruns hloop hbestows (by decide) (by decide)
    rw [hperform]
    exact reachLoop_carries hg hready.pending he hrunning hheader
  cases k
  case label => exact hspares (.pure _)
  case goto => exact hspares (goto_within target)
  case gotoIf => exact hspares (gotoIf_within he target value)
  case skipNext => exact hspares (skipNext_within he target)
  case ifThen => exact hspares (enterIf_within he target)
  case elseIf => exact hspares (reachElseIf_within he target)
  case otherwise => exact hspares (reachElse_within a)
  case endIf => exact hspares (leaveIf_unwinds a).spares
  case tryBlock => exact hspares (enterTry_within a)
  case catchError => exact hspares (reachCatch_within a)
  case finallyDo => exact absurd rfl hfinally
  case endTry => exact absurd rfl hend
  case «throwError» => exact hspares (.throwValue he target)
  case whileLoop | forLoop | foreach | forJson | forXml => exact absurd rfl hloop
  case breakLoop => exact hspares (breakLoop_sparing hg target)
  case continueLoop => exact hspares (continueLoop_sparing hg target)
  case endWhile | endFor | endForeach | endForJson | endForXml => exact hspares (closeLoop_unwinds a).spares
  case call => exact reachCall_carries hg (by decide) target value
  case function | script => exact hspares (reachFunction_within a)
  case returnValue => exact hspares (returnFrom_sparing hg (by decide) target)
  case endFunction | endScript => exact hspares (returnFrom_sparing hg (by decide) "")
  case exitTest => exact hspares (exitRun_unwinds a).spares
  case loadJsonVars => exact .spares (loadRecord_sparing hg hruns rfl hbestows)
  case loadXmlVars => exact .spares (loadRecord_sparing hg hruns rfl hbestows)

theorem dispatch_carries (hready : s.suite.keywordAt? a ≠ some .call → s.Ready)
    (hfinally : s.suite.keywordAt? a ≠ some .finallyDo) (hend : s.suite.keywordAt? a ≠ some .endTry)
    (hbestows : ¬Bestows g s a Namespace.errorName)
    (hrunning : ∀ l rest, s.blocks = .loop l :: rest → ¬l.source.Binds Namespace.errorName) :
    (dispatch g a).Ends s fun _ t =>
      s.Carries Namespace.errorName (Snapshot.Omits Namespace.errorName) t := by
  unfold dispatch
  rw [ends_bind, ends_ask]
  dsimp only
  split
  · exact .spares (.refl s)
  · rename_i c hc
    have hc' : s.suite.commandAt? a = some c := Command.locate_eq_ok_iff.1 hc
    split
    · rename_i k hk
      have hkey := keywordAt?_of_commandAt? hc' hk
      have hne {k' : Keyword} (h : s.suite.keywordAt? a ≠ some k') : k ≠ k' := by
        rintro rfl
        exact h hkey
      refine perform_carries hg ⟨c, hc', hk, rfl, rfl⟩ (fun hcall => hready ?_) (hne hfinally) (hne hend) hbestows
        hrunning
      rw [hkey]
      exact fun heq => hcall (Option.some.inj heq)
    · exact .spares (.refl s)

/-- **A command carries the message of a fault**, one of the host if it does not bind the name. -/
theorem runCommand_carries {σ : Type} {host : Host σ} {w : World σ} (hhost : host.Spares Namespace.errorName)
    (hc : w.session.current = some a) (hready : w.session.suite.keywordAt? a ≠ some .call → w.session.Ready)
    (hfinally : w.session.suite.keywordAt? a ≠ some .finallyDo) (hend : w.session.suite.keywordAt? a ≠ some .endTry)
    (hbestows : ¬Bestows g w.session a Namespace.errorName)
    (hrunning : ∀ l rest, w.session.blocks = .loop l :: rest → ¬l.source.Binds Namespace.errorName) :
    w.session.Carries Namespace.errorName (Snapshot.Omits Namespace.errorName) (w.runCommand g host a).2.session := by
  have hexec : w.session.Carries Namespace.errorName (Snapshot.Omits Namespace.errorName)
      (w.execute g a).2.session := by
    have hcarries := dispatch_carries hg hready hfinally hend hbestows hrunning
    have hcur : { w.session with current := some a } = w.session := by rw [← hc]
    unfold World.execute Session.execute
    rw [hcur]
    unfold Ends at hcarries
    generalize dispatch g a w.session = r at hcarries
    rcases r with ⟨_ | _, t⟩ <;> exact hcarries
  unfold World.runCommand
  split
  · split
    · exact hexec
    · exact .spares (Session.spares_withVars.2 (hhost _ _ _ _))
  · exact hexec

end

/-! ## 5. Faults and steps -/

/-- **A try has caught a fault** with the last command: the try is innermost, and the run goes on at its handler. -/
def Session.Caught (s : Session) : Prop :=
  ∃ t rest p, s.blocks = .guarded t :: rest ∧ catchOf? s.suite t.opener = some p ∧ s.pending = some p

section

variable {g : Setting} {name : String} (hg : g.Spares name)

include hg

/-- **A fault that is offered to a try** spares a name, unless the try catches it. -/
theorem catchOrPassOn_sparing {f : Fault} {u : Session} {o : Address}
    (ho : u.blocks.head?.map Frame.opener = some o) :
    (catchOrPassOn g f o).Ends u fun r t => r = .ok .handled ∧ t.Caught ∨ u.Spares name t := by
  have hprune : u.Spares name u.pruneDeferred := .of_eq rfl rfl
  refine catchOrPassOn_ends ho (fun _ e => .inr hprune) ?_ ?_
  · intro t rest p v hs hcatches _
    exact .inl ⟨rfl, t.enterHandler, rest, p, Session.blocks_setBlocks _ _,
      (congrArg (catchOf? · t.opener) (Session.suite_setBlocks _ _)).trans hcatches.1, rfl⟩
  · intro t rest b v hs hb _ hasked
    have hspares : u.Spares name (u.pruneDeferred.withVars v) := by
      rcases hasked with rfl | ⟨p, -, hv⟩
      · exact hprune
      · exact hv ▸ hprune.trans (Within.catches hg.within_evaluate f.message p u.pruneDeferred)
    have hstill := passOn_still f t b (u.pruneDeferred.withVars v)
    exact .inr (hspares.trans (.of_eq hstill.1 (by rw [hstill.2])))

/-- **What a fault does to a name** that expressions spare: nothing, unless a try catches it. -/
theorem handleFault_sparing (f : Fault) (s : Session) :
    (handleFault g f s).1 = .handled ∧ (handleFault g f s).2.Caught ∨ s.Spares name (handleFault g f s).2 := by
  have hdealing := handleFault_dealing g f s
  generalize handleFault g f s = x at hdealing ⊢
  obtain ⟨d, t⟩ := x
  dsimp only at hdealing ⊢
  have hway := s.unwinds_unwindToTry.spares name
  have hoffered {o : Address} {u : Session} (way : s.unwindToTry = (some o, u)) :=
    catchOrPassOn_sparing hg (f := s.blame f) (opener_unwindToTry way)
  cases hdealing with
  | refused => exact .inr (.refl s)
  | untried nesting way =>
    rw [way] at hway
    exact .inr hway
  | decided catchable nesting way offer =>
    have h := hoffered way
    rw [way] at hway
    unfold Ends at h
    rw [offer] at h
    rcases h with ⟨hhandled, hcaught⟩ | hspares
    · exact .inl ⟨Except.ok.inj hhandled, hcaught⟩
    · exact .inr (hway.trans hspares)
  | failed catchable nesting way offer =>
    have h := hoffered way
    rw [way] at hway
    unfold Ends at h
    rw [offer] at h
    rcases h with ⟨hhandled, -⟩ | hspares
    · cases hhandled
    · exact .inr (hway.trans hspares)

/-- **What a step keeps** that its command keeps, and that lasts as long as a name is spared: the fault of the
command may be caught. -/
theorem step_sparing {σ : Type} {host : Host σ} {w : World σ} {a : Address} {R : Session → Prop}
    (hlasts : ∀ {t u}, R t → t.Spares name u → R u) (hcommand : R (w.runCommand g host a).2.session) :
    (∃ f, (w.step g host a).1 = .handled f) ∧ (w.step g host a).2.session.Caught ∨
      R (w.step g host a).2.session := by
  unfold World.step
  generalize w.runCommand g host a = r at hcommand
  obtain ⟨⟨f⟩ | ⟨⟨⟩⟩, w'⟩ := r
  · have hfault := handleFault_sparing hg f w'.session
    unfold World.handleFault
    dsimp only at hcommand ⊢
    generalize handleFault g f w'.session = r at hfault
    obtain ⟨d, t⟩ := r
    rcases hfault with ⟨hhandled, hcaught⟩ | hspares
    · cases hhandled
      exact .inl ⟨⟨f, rfl⟩, hcaught⟩
    · cases d <;> exact .inr (hlasts hcommand hspares)
  · exact .inr hcommand

omit hg in
/-- Whatever a command does, a name is carried from some binding of it. -/
theorem Effect.carries {a : Address} {s t : Session} {r : Except Fault Unit} (h : Effect g a s r t) (name : String)
    (hresult : name ≠ Namespace.resultName) : ∃ v, (s.withVars v).Carries name (fun _ => True) t := by
  cases h with
  | leaves running lowers =>
    obtain ⟨v, hv⟩ := lowers
    exact ⟨v, .spares (hv.spares name)⟩
  | finishes ended => exact ⟨s.vars, .spares (s.spares_finishCall hresult)⟩
  | @enters names vars _ _ running enters snapshots =>
    exact ⟨(Snapshot.loop a (bindings names vars)).restore t.vars, .shelters _ snapshots trivial rfl⟩
  | @calls args vars _ running makes snapshots arguments => exact ⟨vars, .shelters _ snapshots trivial rfl⟩

end

section

variable {σ : Type} {g : Setting} {host : Host σ} {m m' : Moment σ} {a : Address} {x : StepResult}

theorem Session.Carries.of_poise {name : String} {P : Snapshot → Prop} {s t : Session} (a? : Option Address)
    (h : (s.poise a?).Carries name P t) : s.Carries name P t := by
  cases h with
  | spares spared => exact .spares spared
  | shelters sn grown allowed kept => exact .shelters sn grown allowed kept

/-- **The next command carries the message of a fault**, unless it fails and a try catches its fault; parts of
tries are left out that remove the message, and records and a loop that bind its name. -/
theorem Moment.carries (hs : m.session.Sound m.place) (hg : g.Spares Namespace.errorName)
    (hhost : host.Spares Namespace.errorName) (ha : m.next? = some a)
    (hfinally : m.session.suite.keywordAt? a ≠ some .finallyDo) (hend : m.session.suite.keywordAt? a ≠ some .endTry)
    (hbestows : ¬Bestows g m.session a Namespace.errorName)
    (hrunning : ∀ l rest, m.session.blocks = .loop l :: rest → ¬l.source.Binds Namespace.errorName)
    (hadv : m.advance g host = some (x, m')) :
    (∃ f, x = .handled f) ∧ m'.session.Caught ∨
      m.session.Carries Namespace.errorName (Snapshot.Omits Namespace.errorName) m'.session := by
  have hsession : m.poised.session = m.session.poise (some a) := m.session_poised ha
  have hsound : (m.session.poise (some a)).Sound a := m.place_of_next? ha ▸ hs.poise _
  have hcommand := runCommand_carries (w := m.poised) hg hhost (a := a)
  rw [hsession] at hcommand
  have hstep := step_sparing hg (R := (m.session.poise (some a)).Carries Namespace.errorName
    (Snapshot.Omits Namespace.errorName)) .trans
    (hcommand rfl (hsound.ready_of_ne_call rfl) hfinally hend hbestows hrunning)
  rw [Moment.advance, ha, Option.map_some] at hadv
  obtain ⟨rfl, rfl⟩ := Prod.mk.inj (Option.some.inj hadv)
  exact hstep.imp id (Session.Carries.of_poise (some a))

/-- Whatever the next command does, the message of a fault is carried from some binding of it. -/
theorem Moment.carries_from (hs : m.session.Sound m.place) (hg : g.Spares Namespace.errorName)
    (hadv : m.advance g host = some (x, m')) : (∃ f, x = .handled f) ∧ m'.session.Caught ∨
      ∃ v, (m.session.withVars v).Carries Namespace.errorName (fun _ => True) m'.session := by
  obtain ⟨a, ha, heq⟩ := Option.map_eq_some_iff.1 hadv
  obtain ⟨rfl, rfl⟩ := Prod.mk.inj heq
  have hsession : m.poised.session = m.session.poise (some a) := m.session_poised ha
  have hsound : (m.session.poise (some a)).Sound a := m.place_of_next? ha ▸ hs.poise _
  have heffect := runCommand_effect g host (w := m.poised) (a := a)
  rw [hsession] at heffect
  obtain ⟨v, hv⟩ := (heffect hsound rfl rfl).carries Namespace.errorName (by decide)
  have hstep := step_sparing hg (R := ((m.session.poise (some a)).withVars v).Carries Namespace.errorName fun _ => True)
    .trans hv
  refine hstep.imp id fun hcarries => ⟨v, ?_⟩
  exact hcarries.of_poise (some a)

end

end Flow

end BlockFlow
