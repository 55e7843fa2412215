/-
# What commands report

The faults that flow commands fail with.  An `Ordinary` fault comes from an expression, a data file, a jump,
a `throw` or the way a command is written; `Action.Orderly` actions report no others, whatever the session.
Further faults need a reason: `Reported` lists them with it, and `dispatch_reports` says that a command which
finds its session in order reports nothing else.

No fault of the list speaks of a block, a part of a construct or a frame that is missing, or of a command
that the engine does not know: those never happen.
-/
import BlockFlow.Proofs.Moments

namespace BlockFlow

namespace Flow

/-! ## 1. Ordinary faults -/

/-- Whether a flow error is about the way a command is written, and not about the state of the session. -/
def FlowError.IsMisuse : FlowError → Prop
  | .blockMissing _ | .partMissing _ | .frameMissing _ | .scopeMismatch _ _ | .commandUnknown _ => False
  | _ => True

/-- **A fault that tells nothing about the state of the session.** -/
inductive Ordinary : Fault → Prop
  | expression (e : EvalError) : Ordinary e.fault
  | data {e : DataError} (more : ∀ format count, e ≠ .atEnd format count) : Ordinary e.fault
  | jump (e : JumpError) : Ordinary e.fault
  | misuse {e : FlowError} (h : e.IsMisuse) : Ordinary e.fault
  | thrown (message : String) : Ordinary (thrown message)

/-- The codes of faults that are not ordinary. -/
def reservedCodes : List String :=
  ["ENGINE_BLOCK_MISSING", "ENGINE_NO_FRAME", "ENGINE_COMMAND_UNKNOWN", "ENGINE_RECORD_EOF",
    "ENGINE_SCOPE_MISMATCH", "ADDRESS_OUT_OF_RANGE", "API_STEP_LIMIT"]

theorem Ordinary.code_not_mem {f : Fault} (h : Ordinary f) : f.code ∉ reservedCodes := by
  cases h with
  | expression e => cases e <;> simp [EvalError.fault, reservedCodes]
  | @data e more =>
    cases e with
    | malformed why =>
      cases why with
      | jsonMalformed | xmlMalformed => simp [DataError.fault, RecordError.fault, reservedCodes]
      | empty format => cases format <;> simp [DataError.fault, RecordError.fault, reservedCodes]
    | unreadable | inconsistent => simp [DataError.fault, reservedCodes]
    | atEnd format count => exact absurd rfl (more format count)
  | jump e => cases e <;> simp [JumpError.fault, reservedCodes]
  | @misuse e h => cases e <;> first | (cases h; done) | simp [FlowError.fault, FlowError.code, reservedCodes]
  | thrown => simp [Flow.thrown, reservedCodes]

/-- An ordinary fault with the code of a loop that is invalid says what is wrong with the loop. -/
theorem Ordinary.exists_loopMisuse {f : Fault} (h : Ordinary f) (hcode : f.code = "ENGINE_LOOP_INVALID") :
    ∃ why, f = (FlowError.loopInvalid why).fault := by
  cases h with
  | expression e => cases e <;> simp [EvalError.fault] at hcode
  | @data e more =>
    cases e with
    | malformed why =>
      cases why with
      | jsonMalformed | xmlMalformed => simp [DataError.fault, RecordError.fault] at hcode
      | empty format => cases format <;> simp [DataError.fault, RecordError.fault] at hcode
    | unreadable | inconsistent | atEnd => simp [DataError.fault] at hcode
  | jump e => cases e <;> simp [JumpError.fault] at hcode
  | @misuse e h =>
    cases e <;> first | exact ⟨_, rfl⟩ | simp [FlowError.fault, FlowError.code] at hcode
  | thrown => simp [Flow.thrown] at hcode

/-! ## 2. Orderly actions -/

variable {α β : Type} {P : Fault → Prop}

/-- If the result is a fault then one of a class. -/
def Only (P : Fault → Prop) (r : Except Fault α) (_ : Session) : Prop := ∀ f, r = .error f → P f

@[simp] theorem only_ok {a : α} {s : Session} : Only P (.ok a) s := by
  rintro f ⟨⟩

@[simp] theorem only_error {f : Fault} {s : Session} : Only P (.error f : Except Fault α) s ↔ P f := by
  constructor
  · exact fun h => h f rfl
  · rintro h _ ⟨⟩
    exact h

/-- A text of a command that cannot be read is a misuse of the command. -/
def Legible (r : Except FlowError α) : Prop := ∀ e, r = .error e → e.IsMisuse

namespace Legible

theorem ok (a : α) : Legible (.ok a) := by
  rintro e ⟨⟩

theorem error {e : FlowError} (h : e.IsMisuse) : Legible (.error e : Except FlowError α) := by
  rintro _ ⟨⟩
  exact h

theorem bind {r : Except FlowError α} {k : α → Except FlowError β} (hr : Legible r) (hk : ∀ a, Legible (k a)) :
    Legible (r >>= k) := by
  cases r with
  | ok a => exact hk a
  | error e => exact error (hr e rfl)

theorem checkName (name what : String) : Legible (Flow.checkName name what) := by
  unfold Flow.checkName
  split
  · exact ok ()
  · exact error trivial

theorem argument (part : String) : Legible (Flow.argument part) := by
  unfold Flow.argument
  split
  · exact error trivial
  · exact (checkName _ _).bind fun _ => ok _

theorem whileHeader (cond : String) : Legible (Flow.whileHeader cond) := by
  unfold Flow.whileHeader
  split
  · exact error trivial
  · exact ok _

theorem headerVariable (ordinal : Nat) (statement : String) : Legible (Flow.headerVariable ordinal statement) := by
  unfold Flow.headerVariable
  dsimp only
  split
  · exact (checkName _ _).bind fun _ => ok _
  · exact error trivial

theorem headerVariables (statements : List String) : ∀ ordinal, Legible (Flow.headerVariables ordinal statements) := by
  induction statements with
  | nil => exact fun _ => ok _
  | cons statement rest ih =>
    exact fun ordinal => (headerVariable ordinal statement).bind fun _ => (ih (ordinal + 1)).bind fun _ => ok _

theorem forHeader (target : String) : Legible (Flow.forHeader target) := by
  unfold Flow.forHeader
  split
  · dsimp only
    split
    · exact error trivial
    · exact (headerVariables _ 1).bind fun _ => ok _
  · exact error trivial

end Legible

/-- Reading a data file gives a record at least. -/
theorem records_ne_nil {format : DataFormat} {source : String} {records : List Record}
    (h : Record.ofText format source = .ok records) : records ≠ [] := by
  rintro rfl
  cases format with
  | json =>
    simp only [Record.ofText, Record.ofJsonText] at h
    split at h
    · split at h
      · cases h
      · rename_i hne _
        cases h
        exact hne rfl
      · cases h
    · cases h
  | xml =>
    simp only [Record.ofText, Record.ofXmlText] at h
    split at h
    · cases h
    · split at h
      · cases h
      · rename_i hne
        simp only [Except.ok.injEq, List.map_eq_nil_iff] at h
        exact hne h

theorem load_position {c c' : DataCursor} {files : Files} {path : String} (h : c.load files path = .ok c') :
    c'.position < c'.records.length := by
  unfold DataCursor.load at h
  split at h
  · cases h
  · split at h
    · cases h
    · rename_i hrecords
      cases h
      exact List.length_pos_iff.2 (records_ne_nil hrecords)

/-- A cursor that is not at the end has a record, which may differ in its fields. -/
theorem next_ne_atEnd {c : DataCursor} {vars : Namespace} {e : DataError} (hc : c.position < c.records.length)
    (h : c.next vars = .error e) (format : DataFormat) (count : Nat) : e ≠ .atEnd format count := by
  unfold DataCursor.next at h
  rw [List.getElem?_eq_getElem hc] at h
  dsimp only at h
  split at h
  · cases h
  · cases h
    rintro ⟨⟩

theorem load_ne_atEnd {c : DataCursor} {files : Files} {path : String} {e : DataError}
    (h : c.load files path = .error e) (format : DataFormat) (count : Nat) : e ≠ .atEnd format count := by
  unfold DataCursor.load at h
  split at h
  · cases h
    nofun
  · split at h <;> cases h
    nofun

namespace Action

/-- Whatever the session, the action reports only ordinary faults. -/
def Orderly (m : Action α) : Prop := ∀ s, m.Ends s (Only Ordinary)

/-- Actions in turn report what each of them does. -/
theorem Ends.only_bind {m : Action α} {k : α → Action β} {s : Session}
    (h : m.Ends s fun r t => Only P r t ∧ ∀ a, r = .ok a → (k a).Ends t (Only P)) :
    (m >>= k).Ends s (Only P) := by
  rw [ends_bind]
  refine h.mono fun r t ht => ?_
  cases r with
  | ok a => exact ht.2 a rfl
  | error f => exact only_error.2 (ht.1 f rfl)

namespace Orderly

/-- The faults of an orderly action are of every class that holds the ordinary ones. -/
theorem ends {m : Action α} (h : m.Orderly) (hP : ∀ f, Ordinary f → P f) (s : Session) : m.Ends s (Only P) :=
  (h s).mono fun _ _ hr f hf => hP f (hr f hf)

theorem pure (a : α) : (Pure.pure a : Action α).Orderly := fun _ => only_ok

theorem throw {f : Fault} (h : Ordinary f) : (MonadExcept.throw f : Action α).Orderly := fun _ => only_error.2 h

theorem fail {e : FlowError} (h : e.IsMisuse) : (Action.fail e : Action α).Orderly := throw (.misuse h)

theorem ask (f : Session → α) : (Action.ask f).Orderly := fun _ => only_ok

theorem change (f : Session → Session) : (Action.change f).Orderly := fun _ => only_ok

theorem goTo (a : Address) : (Action.goTo a).Orderly := change _

theorem bind {m : Action α} {k : α → Action β} (hm : m.Orderly) (hk : ∀ a, (k a).Orderly) : (m >>= k).Orderly :=
  fun s => Ends.only_bind ⟨hm s, fun a _ => hk a _⟩

theorem map {m : Action α} (hm : m.Orderly) (f : α → β) : (f <$> m).Orderly := by
  rw [map_eq_pure_bind]
  exact hm.bind fun a => pure (f a)

theorem discard {m : Action α} (hm : m.Orderly) : (Functor.discard m : Action Unit).Orderly := hm.map _

theorem ite {c : Prop} [Decidable c] {m n : Action α} (hm : m.Orderly) (hn : n.Orderly) :
    (if c then m else n).Orderly := by
  split
  · exact hm
  · exact hn

/-- Actions in turn, the first of which changes variables only. -/
theorem ends_bind {m : Action α} {k : α → Action β} {s : Session} (hm : m.Orderly) (hv : m.OnlyVars)
    (hP : ∀ f, Ordinary f → P f) (hk : ∀ a v, (k a).Ends (s.withVars v) (Only P)) : (m >>= k).Ends s (Only P) :=
  Ends.only_bind ⟨hm.ends hP s,
    hv.ends (Q := fun r t => ∀ a, r = .ok a → (k a).Ends t (Only P)) fun _ v a _ => hk a v⟩

variable (g : Setting)

theorem evaluate (expr : String) : (Action.evaluate g expr).Orderly := by
  refine (ask Session.vars).bind fun vars => (change _).bind fun _ => ?_
  split
  · exact pure _
  · exact throw (.expression _)

theorem condition (expr : String) : (Action.condition g expr).Orderly := (evaluate g expr).bind fun _ => pure _

theorem evaluateAll : ∀ exprs : List String, (Action.evaluateAll g exprs).Orderly
  | [] => pure _
  | expr :: exprs => (evaluate g expr).discard.bind fun _ => evaluateAll exprs

/-- A part of a block that is there. -/
theorem goToPart {a? : Option Address} {what : String} (h : a?.isSome) : (Action.goToPart a? what).Orderly := by
  obtain ⟨a, rfl⟩ := Option.isSome_iff_exists.1 h
  exact goTo a

theorem clearError : Flow.clearError.Orderly := change _

theorem bindName (name : String) (v : Value) : (Flow.bindName name v).Orderly := change _

theorem bindItem (var : String) (items : List Value) (index : Nat) : (Flow.bindItem var items index).Orderly := by
  unfold Flow.bindItem
  split
  · exact bindName _ _
  · exact pure _

theorem setSource (source : LoopSource) : (Flow.setSource source).Orderly := change _

theorem begin (source : LoopSource) : (source.begin g).Orderly := by
  cases source with
  | holding | records => exact pure _
  | counted init _ _ => exact evaluateAll g init
  | values var items _ => exact bindItem var items 0

theorem advance (source : LoopSource) : (source.advance g).Orderly := by
  cases source with
  | holding | records => exact pure _
  | counted _ _ iterate => exact evaluateAll g iterate
  | values var items index => exact (setSource _).bind fun _ => bindItem var items (index + 1)

/-- A loop over records takes one only if there is one. -/
theorem hasPass (source : LoopSource) : (source.hasPass g).Orderly := by
  cases source with
  | holding cond | counted _ cond _ => exact condition g cond
  | values var items index => exact (bindName _ _).bind fun _ => pure _
  | records cursor =>
    simp only [LoopSource.hasPass]
    split
    · exact pure false
    · rename_i hend
      have hposition : cursor.position < cursor.records.length := by simpa [DataCursor.atEnd] using hend
      refine (ask _).bind fun vars => ?_
      split
      · exact throw (.data (next_ne_atEnd hposition ‹_›))
      · exact (change _).bind fun _ => (setSource _).bind fun _ => pure _

theorem foreachHeader (target value : String) : (Flow.foreachHeader g target value).Orderly := by
  refine ite ((fail (by trivial)).bind fun _ => ?_) ?_
  all_goals
    dsimp only
    split
    · rename_i e he
      refine (fail (Legible.checkName _ _ e he)).bind fun _ => ite ((fail (by trivial)).bind fun _ => ?_) ?_ <;>
        exact (evaluate g _).bind fun _ => pure _
    · refine ite ((fail (by trivial)).bind fun _ => ?_) ?_ <;> exact (evaluate g _).bind fun _ => pure _

theorem recordsHeader (a : Address) (k : Keyword) (format : DataFormat) (target : String) :
    (Flow.recordsHeader g a k format target).Orderly := by
  refine ite ((fail (by trivial)).bind fun _ => (ask _).bind fun path => ?_) ((ask _).bind fun path => ?_)
  all_goals
    split
    · exact throw (.data (load_ne_atEnd ‹_›))
    · exact pure _

theorem arguments : ∀ (parts : List String) (args : Namespace), (Flow.arguments g args parts).Orderly
  | [], _ => pure _
  | part :: parts, args => by
    unfold Flow.arguments
    refine ite (arguments parts args) ?_
    split
    · exact fail (Legible.argument part _ ‹_›)
    · exact (evaluate g _).bind fun v => arguments parts _

theorem guardHolds (guard : String) : (Flow.guardHolds g guard).Orderly := ite (pure _) (condition g guard)

theorem storeResult (expr : String) : (Flow.storeResult g expr).Orderly :=
  ite ((evaluate g expr).bind fun _ => change _) (pure _)

theorem throwValue (expr : String) : (Flow.throwValue g expr).Orderly :=
  ite ((throw (.thrown _)).bind fun _ => (evaluate g expr).bind fun _ => throw (.thrown _))
    ((evaluate g expr).bind fun _ => throw (.thrown _))

theorem skipCount (spec : String) : (Flow.skipCount g spec).Orderly := by
  refine ite (pure _) ((evaluate g spec).bind fun v => ?_)
  split
  · exact fail (by trivial)
  · exact ite (fail (by trivial)) (pure _)

theorem jump (start goal : Address) : (Flow.jump start goal).Orderly := by
  refine (ask _).bind fun _ => ?_
  split
  · exact throw (.jump _)
  · exact change _

theorem goto (a : Address) (label : String) : (Flow.goto a label).Orderly := by
  refine (ask _).bind fun _ => ?_
  split
  · exact jump _ _
  · exact fail (by trivial)

theorem gotoIf (a : Address) (cond label : String) : (Flow.gotoIf g a cond label).Orderly :=
  (condition g cond).bind fun _ => ite (goto a label) (pure _)

/-- The records of a load command are taken as long as there are any. -/
theorem takeRecord_bind {cursor : DataCursor} {k : DataCursor → Action α} (hc : cursor.position < cursor.records.length)
    (hk : ∀ c, c.records = cursor.records → c.position = cursor.position + 1 → (k c).Orderly) :
    (Flow.takeRecord cursor >>= k).Orderly := by
  intro s
  unfold Flow.takeRecord
  simp only [Action.ends_bind, ends_ask]
  split
  · exact throw (.data (next_ne_atEnd hc ‹_›)) s
  · rename_i c v hnext
    rw [Action.ends_bind, ends_change]
    unfold DataCursor.next at hnext
    rw [List.getElem?_eq_getElem hc] at hnext
    dsimp only at hnext
    split at hnext <;> cases hnext
    exact hk { cursor with position := cursor.position + 1 } rfl rfl _

theorem selectRecord (selector path : String) : ∀ (left : Nat) (cursor : DataCursor),
    cursor.position + left ≤ cursor.records.length → (Flow.selectRecord g selector path cursor left).Orderly
  | 0, _, _ => (condition g selector).bind fun _ => ite (fail (by trivial)) (pure _)
  | left + 1, cursor, hleft => by
    refine (condition g selector).bind fun _ => ite (takeRecord_bind (by omega) fun c hrecords hposition => ?_) (pure _)
    exact selectRecord selector path left c (by rw [hrecords, hposition]; omega)

theorem loadRecord (a : Address) (format : DataFormat) (target selector : String) :
    (Flow.loadRecord g a format target selector).Orderly := by
  refine ite ((fail (by trivial)).bind fun _ => (ask _).bind fun path => ?_) ((ask _).bind fun path => ?_)
  all_goals
    split
    · exact throw (.data (load_ne_atEnd ‹_›))
    · rename_i cursor hload
      have hposition := load_position hload
      refine takeRecord_bind hposition fun c hrecords hnext => ?_
      exact ite (selectRecord g _ _ _ _ (by rw [hrecords, hnext]; omega)) (ite (fail (by trivial)) (pure _))

theorem takeUntried : Flow.takeUntried.Orderly := by
  refine (ask _).bind fun blocks => ?_
  split
  · exact (change _).bind fun _ => pure _
  · exact pure _

theorem tryBranch {b : Block} (hb : b.closer.isSome) (cond : String) : (Flow.tryBranch g b cond).Orderly := by
  refine (condition g cond).bind fun _ => ite (change _) (takeUntried.bind fun p? => goToPart ?_)
  obtain ⟨e, he⟩ := Option.isSome_iff_exists.1 hb
  rw [he]
  cases p? <;> cases b.elseAt <;> rfl

theorem unwindToLoop : Flow.unwindToLoop.Orderly := by
  refine (change _).bind fun _ => (ask _).bind fun blocks => ?_
  split
  · exact pure _
  · exact fail (by trivial)

theorem reachCall (a : Address) (name args : String) : (Flow.reachCall g a name args).Orderly := by
  refine (ask _).bind fun _ => ?_
  split
  · exact fail (by trivial)
  · exact (ask _).bind fun _ => ite (change _) ((arguments g _ _).bind fun _ => (change _).bind fun _ => goTo _)

end Orderly

end Action

/-! ## 3. Faults with a reason -/

/-- If the command at an address belongs to a construct, other than a function, then to the innermost one. -/
def Session.AtHome (s : Session) (a : Address) : Prop :=
  ∀ o, s.suite.IsPart o a → ¬s.suite.Opens .function o → ∃ f rest, s.blocks = f :: rest ∧ f.opener = o

/-- The fault of a command whose construct is not the innermost one. -/
def Session.misplacement (s : Session) : Fault :=
  (FlowError.scopeMismatch ((s.current.map s.suite.commandRef).getD "")
    ((s.blocks.head?.map Frame.opener).map s.suite.commandRef)).fault

/-- **A fault that the command at an address reports**, with the reason if it is not an ordinary one. -/
inductive Reported (s : Session) (a : Address) : Fault → Prop
  | ordinary {f : Fault} (h : Ordinary f) : Reported s a f
  | misplaced (h : ¬s.AtHome a) : Reported s a s.misplacement
  /-- A number of commands is skipped that leads out of the unit. -/
  | skipped {count : Nat} {e : Address.OutOfRange} (keyword : s.suite.keywordAt? a = some .skipNext)
      (absent : (a.offset (min (count + 1) Address.limit)).check s.suite.units = .error e) : Reported s a e.fault
  /-- There is no command at the address. -/
  | absent {e : Address.OutOfRange} (none : s.suite.commandAt? a = none) : Reported s a e.fault
  /-- The closer of a try takes up a fault that was deferred. -/
  | deferred {d : Deferred} {f : Fault} (keyword : s.suite.keywordAt? a = some .endTry) (mem : d ∈ s.deferred)
      (work : d.work = .fault f) : Reported s a f

section

open BlockFlow.Flow.Action

variable {g : Setting} {a : Address} {s : Session} {k q : Keyword}

theorem Action.Orderly.reports {m : Action α} (h : m.Orderly) (t : Session) : m.Ends t (Only (Reported s a)) :=
  h.ends (fun _ => .ordinary) t

/-! ## 4. Commands of constructs -/

/-- A command of a construct finds it innermost, or it is misplaced. -/
theorem owned_ends {K : Block → Unit → Action β} {Q : Except Fault β → Session → Prop} (h : s.Ready)
    (hk : s.suite.keywordAt? a = some k) (hpart : k.partOf? = some q) (hq : q.opens? ≠ some .function)
    (hmisplaced : ¬s.AtHome a → Q (.error s.misplacement) s)
    (hQ : ∀ f rest b c, s.blocks = f :: rest → q.opens? = some f.nature → s.suite.blockAt? f.opener = some b →
      b.closer.isSome → s.suite.blockAt? a = some c → c.keyword = k → c.opener = some f.opener → (K c ()).Ends s Q) :
    (Action.block a >>= fun b => requireActive b.opener >>= K b).Ends s Q := by
  obtain ⟨c, hc, rfl⟩ := h.nested.exists_block hk (Keyword.isLinked_of_partOf? hpart)
  obtain ⟨o, b, ho, hb, rfl, -, hat⟩ := h.nested.exists_owner hc hpart
  have hno : ¬s.suite.Opens .function o := by
    rintro ⟨b', hb', hn⟩
    cases hb.symm.trans hb'
    exact hq hn
  rw [ends_bind]
  refine Ends.block hc ?_
  dsimp only
  rw [ends_bind, ho]
  unfold Action.requireActive
  rw [ends_bind, ends_getThe]
  dsimp only
  split
  · rename_i hactive
    rw [Bool.and_eq_true, beq_iff_eq] at hactive
    cases hs : s.blocks with
    | nil => simp [hs] at hactive
    | cons f rest =>
      obtain rfl : f.opener = o := by simpa [hs] using hactive.2
      obtain ⟨e, he⟩ := h.nested.closed hb (Keyword.opens?_of_partOf? hpart)
      exact hQ f rest b c hs ((h.mem_fits hs).nature_eq hb) hb (by rw [he]; rfl) hc rfl ho
  · rename_i hinactive
    refine hmisplaced fun hhome => hinactive ?_
    obtain ⟨f, rest, hs, rfl⟩ := hhome o hat hno
    simp [hs]

theorem owningIf_reports {K : Block → Action β} (h : s.Ready) (hk : s.suite.keywordAt? a = some k)
    (hpart : k.partOf? = some .ifThen) (hK : ∀ b, b.closer.isSome → (K b).Orderly) :
    (owningIf a >>= K).Ends s (Only (Reported s a)) := by
  unfold owningIf
  rw [bind_assoc]
  simp only [bind_assoc]
  refine owned_ends h hk hpart (by decide) (fun hhome => only_error.2 (.misplaced hhome)) ?_
  intro f rest b c _ _ hb hcloser _ _ ho
  rw [ends_bind, ho]
  exact Ends.block hb ((hK b hcloser).reports s)

theorem enterIf_reports (h : s.Ready) (hk : s.suite.keywordAt? a = some .ifThen) (cond : String) :
    (enterIf g a cond).Ends s (Only (Reported s a)) := by
  obtain ⟨b, hb, hkey⟩ := h.nested.exists_block hk rfl
  obtain ⟨e, he⟩ := h.nested.closed hb (by rw [Block.nature?, hkey]; rfl)
  unfold enterIf
  rw [ends_bind]
  refine Ends.block hb ?_
  exact ((Orderly.change _).bind fun _ => Orderly.tryBranch g (by rw [he]; rfl) cond).reports s

theorem reachElseIf_reports (h : s.Ready) (hk : s.suite.keywordAt? a = some .elseIf) (cond : String) :
    (reachElseIf g a cond).Ends s (Only (Reported s a)) :=
  owningIf_reports h hk rfl fun _ hb => (Orderly.ask _).bind fun _ => .ite (.goToPart hb) (.tryBranch g hb cond)

theorem reachElse_reports (h : s.Ready) (hk : s.suite.keywordAt? a = some .otherwise) :
    (reachElse a).Ends s (Only (Reported s a)) :=
  owningIf_reports h hk rfl fun _ hb => (Orderly.ask _).bind fun _ => .ite (.goToPart hb) (.pure _)

theorem leaveIf_reports (h : s.Ready) (hk : s.suite.keywordAt? a = some .endIf) :
    (leaveIf a).Ends s (Only (Reported s a)) := by
  have := owningIf_reports (K := fun _ => leaveTop) h hk rfl fun _ _ => Orderly.change _
  unfold leaveIf
  rw [ends_bind] at this ⊢
  rw [ends_discard]
  refine this.mono fun r t ht => ?_
  cases r <;> exact ht

/-! ## 5. Commands of tries -/

theorem enterTry_reports (h : s.Ready) (hk : s.suite.keywordAt? a = some .tryBlock) :
    (enterTry a).Ends s (Only (Reported s a)) := by
  obtain ⟨b, hb, -⟩ := h.nested.exists_block hk rfl
  unfold enterTry
  rw [ends_bind]
  exact Ends.block hb (((Orderly.ask _).bind fun _ => .ite (.change _) (.change _)).reports s)

theorem reachCatch_reports (h : s.Ready) (hk : s.suite.keywordAt? a = some .catchError) :
    (reachCatch a).Ends s (Only (Reported s a)) := by
  refine owned_ends h hk rfl (by decide) (fun hhome => only_error.2 (.misplaced hhome)) ?_
  intro f rest b c _ _ hb hcloser hc hck ho
  have hcloser : c.closer = b.closer :=
    Block.closer_of_follow (by rw [hck]; rfl) (by rw [hck]; rfl) (h.nested.follows hc ho hb)
  refine ((Orderly.ask _).bind fun _ => .ite (.goToPart ?_) (.pure _)).reports s
  rw [hcloser]
  cases c.finallyAt with
  | none => assumption
  | some p => rfl

theorem reachFinally_reports (h : s.Ready) (hk : s.suite.keywordAt? a = some .finallyDo) :
    (reachFinally a).Ends s (Only (Reported s a)) :=
  owned_ends h hk rfl (by decide) (fun hhome => only_error.2 (.misplaced hhome)) fun _ _ _ _ _ _ _ _ _ _ _ =>
    (Orderly.clearError.bind fun _ => .change _).reports s

/-- The closer of a try may take up a deferred fault, and has no other to report. -/
theorem leaveTry_reports (h : s.Ready) (hk : s.suite.keywordAt? a = some .endTry) :
    (leaveTry a).Ends s (Only (Reported s a)) := by
  refine owned_ends h hk rfl (by decide) (fun hhome => only_error.2 (.misplaced hhome)) ?_
  intro f rest b c hs hnat _ _ _ _ _
  cases f with
  | conditional | loop => cases hnat
  | guarded t =>
    rw [ends_bind, clearError, ends_change]
    generalize s.vars.erase Namespace.errorName = v
    change Action.Ends _ (s.withVars v) _
    simp only [ends_bind, ends_ask, Session.blocks_withVars, hs, ends_change]
    split
    · rw [ends_bind, ends_change]
      refine Ends.resumeDeferred (fun _ => only_ok) (fun d ds f hd _ _ hw => ?_)
        (fun _ _ _ _ _ _ _ _ _ _ => only_ok) fun _ _ _ _ _ _ _ _ _ => only_ok
      have hd : s.deferred = d :: ds := ((s.withVars v).deferred_setBlocks rest).symm.trans hd
      exact only_error.2 (.deferred hk (by rw [hd]; exact List.mem_cons_self) hw)
    · exact only_ok

/-! ## 6. Commands of loops -/

theorem beginPass_orderly {l : LoopFrame} {rest : List Frame} {b : Block} (hs : s.blocks = .loop l :: rest)
    (hb : s.suite.blockAt? a = some b) (hcloser : b.closer.isSome) (k : Keyword) :
    (beginPass g a k).Ends s (Only Ordinary) := by
  unfold beginPass topLoop
  simp only [ends_bind, ends_ask, hs, ends_pure]
  have horderly := Orderly.hasPass g l.source s
  have hsuite : (l.source.hasPass g).Ends s fun _ t => t.suite = s.suite :=
    hasPass_ends hs fun _ _ _ _ => Session.suite_setBlocks _ _
  have hboth : (l.source.hasPass g).Ends s fun r t => Only Ordinary r t ∧ t.suite = s.suite := ⟨horderly, hsuite⟩
  refine hboth.mono fun r t ht => ?_
  cases r with
  | error f => exact only_error.2 (ht.1 f rfl)
  | ok more =>
    dsimp only
    rw [ends_change]
    dsimp only
    split
    · rw [ends_bind]
      refine Ends.block (b := b) ?_ (Orderly.goToPart hcloser _)
      rw [Session.updateLoop, Session.suite_updateTop, ht.2, hb]
    · exact only_ok

/-- The opener of a loop runs with the loop innermost, once it was entered. -/
theorem reachLoop_reports {header : Action LoopHeader} (h : s.Ready) (hk : s.suite.keywordAt? a = some k)
    (hloop : k.opens? = some .loop) (hheader : header.Orderly) (hvars : header.OnlyVars) :
    (reachLoop g a k header).Ends s (Only (Reported s a)) := by
  obtain ⟨b, hb, rfl⟩ := h.nested.exists_block hk (Keyword.isLinked_of_opens? hloop)
  have hcloser : b.closer.isSome := by
    obtain ⟨e, he⟩ := h.nested.closed hb (by rw [Block.nature?, hloop]; rfl)
    rw [he]
    rfl
  have hP : ∀ f, Ordinary f → Reported s a f := fun _ => .ordinary
  unfold reachLoop
  rw [ends_bind, ends_ask]
  dsimp only
  split
  · rename_i hre
    obtain ⟨l, rest, hs, -⟩ := isReentering_iff.1 hre
    have hupdate : (s.updateLoop fun l => { l with reentering := false }).blocks =
        .loop { l with reentering := false } :: rest := by
      rw [Session.updateLoop, Session.updateTop, hs]
      exact s.blocks_setBlocks _
    unfold topLoop
    simp only [ends_bind, ends_change, ends_ask, hupdate, ends_pure]
    have horderly := Orderly.advance g l.source (s.updateLoop fun l => { l with reentering := false })
    have hkept : (l.source.advance g).Ends (s.updateLoop fun l => { l with reentering := false })
        fun _ t => (∃ l' rest', t.blocks = .loop l' :: rest') ∧ t.suite = s.suite :=
      advance_ends (l := { l with reentering := false }) hupdate fun _ _ _ _ => ⟨⟨_, _, Session.blocks_setBlocks _ _⟩,
        (Session.suite_setBlocks _ _).trans (Session.suite_updateTop _ _)⟩
    have hboth : (l.source.advance g).Ends (s.updateLoop fun l => { l with reentering := false }) fun r t =>
        Only Ordinary r t ∧ (∃ l' rest', t.blocks = .loop l' :: rest') ∧ t.suite = s.suite := ⟨horderly, hkept⟩
    refine hboth.mono fun r t ht => ?_
    obtain ⟨hr, ⟨l', rest', hblocks⟩, hsuite⟩ := ht
    cases r with
    | error f => exact only_error.2 (hP f (hr f rfl))
    | ok _ => exact (beginPass_orderly hblocks (by rw [hsuite, hb]) hcloser _).mono fun _ _ hr f hf => hP f (hr f hf)
  · refine hheader.ends_bind hvars hP fun header v => ?_
    unfold pushLoop
    rw [ends_bind, ends_change]
    generalize hpush : ({ (s.withVars v).push _ with vars := _ } : Session) = t
    have hblocks : ∃ l, t.blocks = .loop l :: s.blocks := by
      subst hpush
      exact ⟨_, (s.withVars v).blocks_push _⟩
    have hsuite : t.suite = s.suite := by
      subst hpush
      exact (s.withVars v).suite_setBlocks _
    obtain ⟨l, hblocks⟩ := hblocks
    refine (Orderly.begin g header.source).ends_bind (.begin g header.source) hP fun _ w => ?_
    have hblocks : (t.withVars w).blocks = .loop l :: s.blocks := hblocks
    refine (beginPass_orderly hblocks ?_ hcloser _).mono fun _ _ hr f hf => hP f (hr f hf)
    rw [Session.suite_withVars, hsuite, hb]

/-- The closer of a loop finds it innermost, or it is misplaced. -/
theorem closeLoop_reports (h : s.Ready) (hk : s.suite.keywordAt? a = some k) (hpart : k.partOf? = some q)
    (hq : q.opens? = some .loop) : (closeLoop a).Ends s (Only (Reported s a)) := by
  refine owned_ends h hk hpart (by rw [hq]; decide) (fun hhome => only_error.2 (.misplaced hhome)) ?_
  intro f rest b c hs hnat _ _ _ _ ho
  cases f with
  | conditional | guarded => cases hq.symm.trans hnat
  | loop l =>
    unfold topLoop
    simp only [ends_bind, ends_ask, hs, ends_pure]
    exact (Orderly.ite (.change _) ((Orderly.change _).bind fun _ => .goToPart (by rw [ho]; rfl))).reports s

/-! ## 7. Transfers -/

/-- Deferring a transfer does not fail. -/
theorem deferTransfer_only {P : Fault → Prop} (hc : s.Counted) (goal : Goal) :
    (deferTransfer a goal).Ends s (Only P) :=
  Ends.deferTransfer hc (fun _ _ _ _ => only_ok) (fun _ _ _ => only_ok) fun _ _ => only_ok

/-- Actions in turn, the first of which reports faults of a class and the others ordinary ones. -/
theorem Action.Ends.only_then {P : Fault → Prop} {m : Action α} {k : α → Action β} (hm : m.Ends s (Only P))
    (hP : ∀ f, Ordinary f → P f) (hk : ∀ a, (k a).Orderly) : (m >>= k).Ends s (Only P) :=
  Ends.only_bind ⟨hm, fun a _ => (hk a).ends hP _⟩

theorem loopToLeave?_only (hc : s.Counted) (guard : String) : (loopToLeave? g a guard).Ends s (Only Ordinary) := by
  refine (Orderly.guardHolds g guard).ends_bind (.guardHolds g guard) (fun _ => id) fun held v => ?_
  split
  · exact only_ok
  · refine (deferTransfer_only (hc.withVars v) _).only_then (fun _ => id) fun _ => ?_
    exact .ite (.pure _) (Orderly.unwindToLoop.bind fun _ => .pure _)

theorem breakLoop_reports (h : s.Ready) (guard : String) : (breakLoop g a guard).Ends s (Only (Reported s a)) := by
  have hloop : (loopToLeave? g a guard).Ends s fun r t => ∀ l, r = .ok (some l) →
      t.suite = s.suite ∧ ∃ b, s.suite.blockAt? l.opener = some b ∧ b.closer.isSome := by
    refine loopToLeave?_ends h guard ?_ (fun _ _ _ _ _ _ => nofun) (fun _ _ _ _ => nofun) ?_ fun _ _ _ _ _ => nofun
    · exact fun r v hr l hl => absurd hl (hr l)
    · rintro l rest v - - hl _ ⟨⟩
      obtain ⟨b, e, hb, he, -⟩ := h.exists_closer hl
      exact ⟨(s.kept_drop _).suite, b, hb, by rw [he]; rfl⟩
  unfold breakLoop
  have honly := (loopToLeave?_only (g := g) (a := a) h.counted guard).mono
    fun r t hr => show Only (Reported s a) r t from fun f hf => .ordinary (hr f hf)
  refine Ends.only_bind ⟨honly, fun l? hl => ?_⟩
  cases l? with
  | none => exact only_ok
  | some l =>
    obtain ⟨hsuite, b, hb, hcloser⟩ := hloop l hl
    dsimp only
    rw [ends_bind, ends_change]
    dsimp only
    rw [ends_bind]
    refine Ends.block (b := b) ?_ ((Orderly.goToPart hcloser).reports _)
    rw [Session.updateLoop, Session.suite_updateTop, hsuite, hb]

theorem continueLoop_reports (hc : s.Counted) (guard : String) :
    (continueLoop g a guard).Ends s (Only (Reported s a)) := by
  have h : (continueLoop g a guard).Ends s (Only Ordinary) := by
    refine (loopToLeave?_only hc guard).only_then (fun _ => id) fun l? => ?_
    split
    · exact (Orderly.change _).bind fun _ => .goTo _
    · exact .pure _
  exact h.mono fun _ _ hr f hf => .ordinary (hr f hf)

theorem exitRun_reports (hc : s.Counted) : (exitRun a).Ends s (Only (Reported s a)) :=
  (deferTransfer_only hc _).only_then (fun _ => .ordinary) fun _ => .ite (.change _) (.pure _)

theorem returnFrom_reports (h : s.Ready) (hk : s.suite.keywordAt? a = some k) (hlinked : k.isLinked) (expr : String) :
    (returnFrom g a expr).Ends s (Only (Reported s a)) := by
  obtain ⟨b, hb, -⟩ := h.nested.exists_block hk hlinked
  unfold returnFrom
  rw [ends_bind]
  refine Ends.block hb ?_
  dsimp only
  rw [ends_bind, ends_ask]
  dsimp only
  split
  · exact only_ok
  · rename_i hown
    -- the function that returns is one that was called
    obtain ⟨c, calls, hcalls⟩ : ∃ c calls, s.calls = c :: calls := by
      cases hc : s.calls with
      | nil => simp [Session.callee?, hc] at hown
      | cons c calls => exact ⟨c, calls, rfl⟩
    rw [ends_bind]
    refine Ends.deferTransfer h.counted (fun _ _ _ _ => only_ok) (fun _ _ _ => only_ok) fun _ _ => ?_
    refine (Orderly.storeResult g expr).ends_bind (.storeResult g expr) (fun _ => .ordinary) fun _ v => ?_
    simp only [ends_bind, ends_ask, Session.calls_withVars, hcalls, ends_change]
    exact (Orderly.goToPart rfl).reports _

/-! ## 8. Other commands -/

theorem reachFunction_reports (h : s.Ready) (hk : s.suite.keywordAt? a = some k) (hfun : k.opens? = some .function) :
    (reachFunction a).Ends s (Only (Reported s a)) := by
  obtain ⟨b, hb, rfl⟩ := h.nested.exists_block hk (Keyword.isLinked_of_opens? hfun)
  obtain ⟨e, he⟩ := h.nested.closed hb (by rw [Block.nature?, hfun]; rfl)
  unfold reachFunction
  rw [ends_bind, ends_ask]
  dsimp only
  split
  · rw [ends_bind]
    exact Ends.block hb ((Orderly.goToPart (by rw [he]; rfl)).reports s)
  · exact only_ok

/-- A number of commands may lead out of the unit. -/
theorem skipNext_reports (hk : s.suite.keywordAt? a = some .skipNext) (spec : String) :
    (skipNext g a spec).Ends s (Only (Reported s a)) := by
  refine (Orderly.skipCount g spec).ends_bind (.skipCount g spec) (fun _ => .ordinary) fun count v => ?_
  split
  · exact only_ok
  · rw [ends_bind, ends_ask]
    dsimp only
    split
    · exact only_error.2 (.skipped hk ‹_›)
    · exact (Orderly.jump _ _).reports _

/-! ## 9. Every command -/

/-- **What flow commands report.** -/
theorem perform_reports (h : s.Ready) (hk : s.suite.keywordAt? a = some k) (target value : String) :
    (perform g a k target value).Ends s (Only (Reported s a)) := by
  cases k
  case label => exact only_ok
  case goto => exact (Orderly.goto a target).reports s
  case gotoIf => exact (Orderly.gotoIf g a target value).reports s
  case skipNext => exact skipNext_reports hk target
  case ifThen => exact enterIf_reports h hk target
  case elseIf => exact reachElseIf_reports h hk target
  case otherwise => exact reachElse_reports h hk
  case endIf => exact leaveIf_reports h hk
  case tryBlock => exact enterTry_reports h hk
  case catchError => exact reachCatch_reports h hk
  case finallyDo => exact reachFinally_reports h hk
  case endTry => exact leaveTry_reports h hk
  case «throwError» => exact (Orderly.throwValue g target).reports s
  case whileLoop =>
    refine reachLoop_reports h hk rfl ?_ ?_ <;> split
    · exact .pure _
    · exact .fail (Legible.whileHeader target _ ‹_›)
    · exact .pure _
    · exact .fail _
  case forLoop =>
    refine reachLoop_reports h hk rfl ?_ ?_ <;> split
    · exact .pure _
    · exact .fail (Legible.forHeader target _ ‹_›)
    · exact .pure _
    · exact .fail _
  case foreach => exact reachLoop_reports h hk rfl (.foreachHeader g target value) (.foreachHeader g target value)
  case forJson | forXml =>
    exact reachLoop_reports h hk rfl (.recordsHeader g a _ _ target) (.recordsHeader g a _ _ target)
  case breakLoop => exact breakLoop_reports h target
  case continueLoop => exact continueLoop_reports h.counted target
  case endWhile | endFor | endForeach | endForJson | endForXml => exact closeLoop_reports h hk rfl rfl
  case call => exact (Orderly.reachCall g a target value).reports s
  case function | script => exact reachFunction_reports h hk rfl
  case returnValue | endFunction | endScript => exact returnFrom_reports h hk rfl _
  case exitTest => exact exitRun_reports h.counted
  case loadJsonVars | loadXmlVars => exact (Orderly.loadRecord g a _ target value).reports s

/-- **Commands that are dispatched are known**, so nothing else is reported. -/
theorem dispatch_reports (h : s.Ready) (hh : ∀ c, s.suite.commandAt? a = some c → handles c.name) :
    (dispatch g a).Ends s (Only (Reported s a)) := by
  unfold dispatch
  rw [ends_bind, ends_ask]
  dsimp only
  split
  · rename_i e he
    refine only_error.2 (.absent (Option.eq_none_iff_forall_ne_some.2 fun c hc => ?_))
    cases he.symm.trans (Command.locate_eq_ok_iff.2 hc)
  · rename_i c hc
    have hc := Command.locate_eq_ok_iff.1 hc
    have hh := hh c hc
    unfold handles at hh
    split at hh
    · rename_i k hof
      exact perform_reports h (keywordAt?_of_commandAt? hc hof) _ _
    · cases hh

/-- **What commands report**: a flow command one of the faults that are listed, with its reference, and any
other command what the host reports. -/
theorem runCommand_reports {σ : Type} {host : Host σ} {w w' : World σ} {f : Fault} (h : w.session.Ready)
    (hcur : w.session.current = some a) (hrun : w.runCommand g host a = (.error f, w')) :
    (∃ f₀ ref, f = f₀.attach ref ∧ Reported w.session a f₀) ∨
      ∃ c, w.session.suite.commandAt? a = some c ∧ handles c.name = false ∧
        (host.execute g.evaluate c w.host w.session.vars).1 = .error f := by
  have hexec (hh : ∀ c, w.session.suite.commandAt? a = some c → handles c.name)
      (hrun : w.execute g a = (.error f, w')) : ∃ f₀ ref, f = f₀.attach ref ∧ Reported w.session a f₀ := by
    have hreports := dispatch_reports (g := g) h hh
    have hcur : { w.session with current := some a } = w.session := by rw [← hcur]
    unfold World.execute Session.execute at hrun
    rw [hcur] at hrun
    unfold Action.Ends at hreports
    rcases hd : dispatch g a w.session with ⟨r, t⟩
    rw [hd] at hrun hreports
    cases r with
    | ok _ =>
      obtain ⟨hr, -⟩ := Prod.mk.inj hrun
      cases hr
    | error f₀ =>
      obtain ⟨hr, -⟩ := Prod.mk.inj hrun
      cases hr
      exact ⟨f₀, _, rfl, hreports f₀ rfl⟩
  unfold World.runCommand at hrun
  split at hrun
  · rename_i c hc
    split at hrun
    · rename_i hh
      refine .inl (hexec (fun c' hc' => ?_) hrun)
      cases hc.symm.trans hc'
      exact hh
    · exact .inr ⟨c, hc, Bool.eq_false_iff.2 ‹_›, (Prod.mk.inj hrun).1⟩
  · rename_i hnone
    exact .inl (hexec (fun c hc => by cases hnone.symm.trans hc) hrun)

end

end Flow

/-! ## 10. Scope mismatches -/

/-- The fault of a command whose construct is not the innermost one. -/
def Fault.IsMismatch (f : Fault) : Prop := f.code = "ENGINE_SCOPE_MISMATCH"

@[simp] theorem Fault.isMismatch_attach (f : Fault) (r : String) : (f.attach r).IsMismatch ↔ f.IsMismatch := by
  rw [IsMismatch, code_attach, IsMismatch]

namespace Flow

/-- **A command that fails with a scope mismatch**, its construct being the innermost one, took it up from
the deferred work, or is one of the host's. -/
theorem runCommand_accounts {σ : Type} {g : Setting} {host : Host σ} {w w' : World σ} {a : Address} {f : Fault}
    (h : w.session.Ready) (hcur : w.session.current = some a) (hhome : w.session.AtHome a)
    (hrun : w.runCommand g host a = (.error f, w')) (hf : f.IsMismatch) :
    (∃ d ∈ w.session.deferred, ∃ f', d.work = .fault f' ∧ f'.IsMismatch) ∨
      ∃ c, w.session.suite.commandAt? a = some c ∧ handles c.name = false ∧
        (host.execute g.evaluate c w.host w.session.vars).1 = .error f := by
  rcases runCommand_reports h hcur hrun with ⟨f₀, ref, rfl, hreported⟩ | hhost
  · rw [Fault.isMismatch_attach] at hf
    cases hreported with
    | ordinary ho => exact absurd (by rw [hf]; decide) ho.code_not_mem
    | misplaced hno => exact absurd hhome hno
    | skipped | absent => exact absurd (show "ADDRESS_OUT_OF_RANGE" = "ENGINE_SCOPE_MISMATCH" from hf) (by decide)
    | deferred _ hmem hwork => exact .inl ⟨_, hmem, _, hwork, hf⟩
  · exact .inr hhost

end Flow

end BlockFlow
