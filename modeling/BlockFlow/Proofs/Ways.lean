/-
# Cleanup sections on the way

A transfer of control first runs the cleanup sections that the constructs on its way owe.
`Session.cleanup?_eq_none_iff` says when it is free to go, and `Session.cleanup?_eq_some` what is left
for the first section; `Suspends` is the session that then waits for it.

`Session.proceed` says where a session goes on; everything else that a command does to the variables
is left open.
-/
import BlockFlow.Proofs.Nesting
import BlockFlow.Proofs.Stacks

namespace BlockFlow.Flow

/-! ## 1. Frames that fit their suite -/

/-- The nature of the construct that a frame is about. -/
def Frame.nature : Frame → Nature
  | .conditional _ => .conditional
  | .loop _ => .loop
  | .guarded _ => .guarded

/-- A name is one that the source of a loop binds for every pass. -/
def LoopSource.Binds (name : String) : LoopSource → Prop
  | .values var _ _ => name = var ∨ name = Namespace.indexName
  | .records cursor => name ∈ cursor.fields
  | .holding _ | .counted _ _ _ => False

/-- What names are bound to: a value, or none. -/
def bindings (names : List String) (vars : Namespace) : Dict String (Option Value) :=
  Dict.ofList (names.map fun name => (name, vars.get? name))

/-- The binding of a name that is in a list is kept there. -/
theorem get?_bindings {names : List String} {vars : Namespace} {name : String} (h : name ∈ names) :
    (bindings names vars).get? name = some (vars.get? name) := by
  suffices ∀ d : Dict String (Option Value),
      (d.insertAll (names.map fun name => (name, vars.get? name))).get? name =
        if name ∈ names then some (vars.get? name) else d.get? name by
    rw [bindings, Dict.ofList, this, if_pos h]
  clear h
  induction names with
  | nil => exact fun d => rfl
  | cons other names ih =>
    intro d
    rw [List.map_cons, Dict.insertAll_cons, ih, Dict.get?_insert]
    by_cases hname : name ∈ names
    · simp [hname]
    · by_cases heq : name = other
      · simp [heq]
      · simp [hname, heq]

/-- A name that is saved is one of the names. -/
theorem mem_of_get?_bindings {names : List String} {vars : Namespace} {name : String}
    (h : (bindings names vars).get? name ≠ none) : name ∈ names := by
  by_contra hno
  refine h ?_
  rw [bindings, Dict.ofList, Dict.get?_insertAll_of_not_mem]
  · rfl
  · intro e he
    obtain ⟨other, hother, rfl⟩ := List.mem_map.1 he
    exact fun heq => hno (heq ▸ hother)

/-- A frame is about a construct of its nature.  A conditional has only branches of its own left to
try, a loop has saved the names that its source binds, and a try that takes no part has neither
handler nor cleanup section. -/
def Frame.Fits (suite : Suite) (f : Frame) : Prop :=
  suite.Opens f.nature f.opener ∧
    match f with
    | .conditional c => ∀ p ∈ c.untried, suite.IsPart c.opener p
    | .loop l => ∀ name, l.source.Binds name → l.saved.get? name ≠ none
    | .guarded t => t.isActive = false →
      ∀ b, suite.blockAt? t.opener = some b → b.catchAt = none ∧ b.finallyAt = none

/-- A loop still fits if nothing changes but its state, and its source binds no other name. -/
theorem Frame.Fits.loop {suite : Suite} {l l' : LoopFrame} (h : Frame.Fits suite (.loop l)) (opener : l'.opener = l.opener)
    (saved : l'.saved = l.saved) (binds : ∀ name, l'.source.Binds name → l.source.Binds name) :
    Frame.Fits suite (.loop l') := by
  refine ⟨?_, fun name hname => saved ▸ h.2 name (binds name hname)⟩
  rw [show Frame.opener (.loop l') = l.opener from opener]
  exact h.1

/-- A conditional still fits if it has no branch left to try that it did not have before. -/
theorem Frame.Fits.conditional {suite : Suite} {c c' : IfFrame} (h : Frame.Fits suite (.conditional c))
    (opener : c'.opener = c.opener) (untried : ∀ p ∈ c'.untried, p ∈ c.untried) :
    Frame.Fits suite (.conditional c') := by
  refine ⟨?_, fun p hp => ?_⟩
  · rw [show Frame.opener (.conditional c') = c.opener from opener]
    exact h.1
  · rw [opener]
    exact h.2 p (untried p hp)

/-- A try still fits in its handler. -/
theorem Frame.Fits.enterHandler {suite : Suite} {t : TryFrame} (h : Frame.Fits suite (.guarded t)) :
    Frame.Fits suite (.guarded t.enterHandler) := ⟨h.1, nofun⟩

/-- A try still fits in its cleanup section. -/
theorem Frame.Fits.enterCleanup {suite : Suite} {t : TryFrame} (h : Frame.Fits suite (.guarded t)) :
    Frame.Fits suite (.guarded t.enterCleanup) := ⟨h.1, nofun⟩

/-- The cleanup section of the try opened at an address. -/
def finallyOf? (suite : Suite) (o : Address) : Option Address := (suite.blockAt? o).bind Block.finallyAt

theorem TryFrame.owesCleanup_iff {suite : Suite} {t : TryFrame} :
    t.owesCleanup suite = true ↔
      t.isActive = true ∧ t.cleaned = false ∧ ∃ p, finallyOf? suite t.opener = some p := by
  simp [TryFrame.owesCleanup, finallyOf?, Option.isSome_iff_exists, and_assoc]

@[simp] theorem TryFrame.opener_enterCleanup (t : TryFrame) : t.enterCleanup.opener = t.opener := rfl

@[simp] theorem TryFrame.isActive_enterCleanup (t : TryFrame) : t.enterCleanup.isActive = true := rfl

@[simp] theorem TryFrame.opener_enterHandler (t : TryFrame) : t.enterHandler.opener = t.opener := rfl

@[simp] theorem TryFrame.isActive_enterHandler (t : TryFrame) : t.enterHandler.isActive = true := rfl

/-- What a session knows fits its suite. -/
structure Session.Fitted (s : Session) : Prop where
  nested : s.suite.Nested
  fits : ∀ f ∈ s.frames, f.Fits s.suite
  counted : s.Counted

/-! ## 2. Where a session goes on -/

namespace Session

/-- The session that goes on at an address, or at the next command, with its variables changed. -/
def proceed (s : Session) (p? : Option Address) (v : Namespace) : Session :=
  { s with pending := p?, vars := v }

section

variable (s : Session) (p? : Option Address) (v : Namespace)

@[simp] theorem suite_proceed : (s.proceed p? v).suite = s.suite := rfl

@[simp] theorem calls_proceed : (s.proceed p? v).calls = s.calls := rfl

@[simp] theorem base_proceed : (s.proceed p? v).base = s.base := rfl

@[simp] theorem blocks_proceed : (s.proceed p? v).blocks = s.blocks := rfl

@[simp] theorem outer_proceed : (s.proceed p? v).outer = s.outer := rfl

@[simp] theorem callee?_proceed : (s.proceed p? v).callee? = s.callee? := rfl

@[simp] theorem depth_proceed : (s.proceed p? v).depth = s.depth := rfl

@[simp] theorem frames_proceed : (s.proceed p? v).frames = s.frames := rfl

@[simp] theorem nesting_proceed : (s.proceed p? v).nesting = s.nesting := rfl

@[simp] theorem deferred_proceed : (s.proceed p? v).deferred = s.deferred := rfl

@[simp] theorem pending_proceed : (s.proceed p? v).pending = p? := rfl

@[simp] theorem exitRequested_proceed : (s.proceed p? v).exitRequested = s.exitRequested := rfl

@[simp] theorem current_proceed : (s.proceed p? v).current = s.current := rfl

end

/-- The session with other work deferred. -/
def withDeferred (s : Session) (ds : List Deferred) : Session := { s with deferred := ds }

section

variable (s : Session) (ds : List Deferred)

@[simp] theorem suite_withDeferred : (s.withDeferred ds).suite = s.suite := rfl

@[simp] theorem calls_withDeferred : (s.withDeferred ds).calls = s.calls := rfl

@[simp] theorem blocks_withDeferred : (s.withDeferred ds).blocks = s.blocks := rfl

@[simp] theorem outer_withDeferred : (s.withDeferred ds).outer = s.outer := rfl

@[simp] theorem callee?_withDeferred : (s.withDeferred ds).callee? = s.callee? := rfl

@[simp] theorem depth_withDeferred : (s.withDeferred ds).depth = s.depth := rfl

@[simp] theorem frames_withDeferred : (s.withDeferred ds).frames = s.frames := rfl

@[simp] theorem nesting_withDeferred : (s.withDeferred ds).nesting = s.nesting := rfl

@[simp] theorem deferred_withDeferred : (s.withDeferred ds).deferred = ds := rfl

@[simp] theorem cleanup?_withDeferred (goal : Goal) :
    (s.withDeferred ds).cleanup? goal = s.cleanup? goal := rfl

end

theorem withVars_eq_proceed {s : Session} (h : s.pending = none) (v : Namespace) :
    s.withVars v = s.proceed none v := by
  rw [proceed, ← h]
  rfl

/-- Going on somewhere as soon as the variables are changed. -/
theorem branch_withVars (s : Session) (v : Namespace) (p : Address) :
    (s.withVars v).branch p = s.proceed (some p) v := rfl

theorem branch_eq_proceed (s : Session) (p : Address) : s.branch p = s.proceed (some p) s.vars := rfl

@[simp] theorem setBlocks_withVars (s : Session) (v : Namespace) (bs : List Frame) :
    (s.withVars v).setBlocks bs = (s.setBlocks bs).withVars v := by
  unfold setBlocks
  rw [calls_withVars]
  cases s.calls <;> rfl

@[simp] theorem push_withVars (s : Session) (v : Namespace) (f : Frame) :
    (s.withVars v).push f = (s.push f).withVars v := setBlocks_withVars _ _ _

theorem discard_withVars (s : Session) (v : Namespace) (f : Frame) :
    ∃ w, (s.withVars v).discard f = (s.discard f).withVars w := by
  cases f with
  | conditional _ => exact ⟨v, rfl⟩
  | loop l => exact ⟨v.restore l.saved, rfl⟩
  | guarded t =>
    refine ⟨v, ?_⟩
    unfold discard
    dsimp only
    split <;> rfl

theorem discardAll_withVars (s : Session) (v : Namespace) (fs : List Frame) :
    ∃ w, (s.withVars v).discardAll fs = (s.discardAll fs).withVars w := by
  induction fs generalizing s v with
  | nil => exact ⟨v, rfl⟩
  | cons f fs ih =>
    obtain ⟨w, hw⟩ := s.discard_withVars v f
    rw [discardAll_cons, hw]
    exact ih _ w

theorem drop_withVars (s : Session) (v : Namespace) (n : Nat) :
    ∃ w, (s.withVars v).drop n = (s.drop n).withVars w := by
  unfold drop
  rw [setBlocks_withVars, blocks_withVars]
  exact discardAll_withVars _ _ _

theorem abortCall_withVars (s : Session) (v : Namespace) :
    ∃ w, (s.withVars v).abortCall = s.abortCall.withVars w := by
  unfold abortCall
  rw [calls_withVars]
  cases s.calls with
  | nil => exact ⟨v, rfl⟩
  | cons c calls =>
    obtain ⟨w, hw⟩ := s.discardAll_withVars v c.blocks
    dsimp only
    rw [hw]
    exact ⟨c.saved, rfl⟩

theorem abortCalls_withVars (s : Session) (v : Namespace) (k : Nat) :
    ∃ w, (s.withVars v).abortCalls k = (s.abortCalls k).withVars w := by
  induction k generalizing s v with
  | zero => exact ⟨v, rfl⟩
  | succ k ih =>
    obtain ⟨w, hw⟩ := s.abortCall_withVars v
    rw [abortCalls, hw]
    exact ih _ w

@[simp] theorem blockStacks_withVars (s : Session) (v : Namespace) :
    (s.withVars v).blockStacks = s.blockStacks := rfl

theorem pruneDeferred_withVars (s : Session) (v : Namespace) :
    (s.withVars v).pruneDeferred = s.pruneDeferred.withVars v := rfl

@[simp] theorem cleanup?_withVars (s : Session) (v : Namespace) (goal : Goal) :
    (s.withVars v).cleanup? goal = s.cleanup? goal := rfl

end Session

/-! ## 3. Cleanup sections on the way -/

/-- No try among the constructs owes its cleanup section. -/
def NoneOwe (suite : Suite) (fs : List Frame) : Prop :=
  ∀ t, .guarded t ∈ fs → t.owesCleanup suite = false

/-- Whether a frame is a loop. -/
def Frame.isLoop : Frame → Bool
  | .loop _ => true
  | _ => false

/-- The constructs that a transfer leaves in the innermost call. -/
def onTheWay (goal : Goal) (fs : List Frame) : List Frame :=
  if goal = .loop then fs.takeWhile fun f => !f.isLoop else fs

/-- No cleanup section is owed on the way exactly if none is found. -/
theorem cleanupDepth?_eq_none_iff {suite : Suite} {goal : Goal} {fs : List Frame} :
    cleanupDepth? suite goal fs = none ↔ NoneOwe suite (onTheWay goal fs) := by
  induction fs with
  | nil => by_cases hg : goal = .loop <;> simp [cleanupDepth?, NoneOwe, onTheWay, hg]
  | cons f fs ih =>
    by_cases hg : goal = .loop <;> cases f
    case pos.guarded t | neg.guarded t =>
      by_cases ht : t.owesCleanup suite <;>
        simp_all [cleanupDepth?, NoneOwe, onTheWay, Frame.isLoop]
    all_goals simp_all [cleanupDepth?, NoneOwe, onTheWay, Frame.isLoop]

/-- The first try that owes its cleanup section. -/
theorem cleanupDepth?_eq_some {suite : Suite} {goal : Goal} : ∀ {fs : List Frame} {n : Nat},
    cleanupDepth? suite goal fs = some n →
    ∃ above t rest, fs = above ++ .guarded t :: rest ∧ above.length = n ∧ t.owesCleanup suite ∧
      NoneOwe suite above ∧ (goal = .loop → ∀ f ∈ above, f.isLoop = false)
  | [], _, h => by cases h
  | f :: fs, n, h => by
    have htail {m : Nat} (hm : cleanupDepth? suite goal fs = some m) (hn : m + 1 = n)
        (hf : ∀ t, f = .guarded t → t.owesCleanup suite = false)
        (hl : goal = .loop → f.isLoop = false) :
        ∃ above t rest, f :: fs = above ++ .guarded t :: rest ∧ above.length = n ∧
          t.owesCleanup suite ∧ NoneOwe suite above ∧
          (goal = .loop → ∀ f ∈ above, f.isLoop = false) := by
      obtain ⟨above, t, rest, rfl, rfl, ht, ha, hal⟩ := cleanupDepth?_eq_some hm
      refine ⟨f :: above, t, rest, rfl, hn, ht, ?_, ?_⟩
      · intro t' ht'
        rcases List.mem_cons.1 ht' with heq | ht'
        · exact hf t' heq.symm
        · exact ha t' ht'
      · intro hg f' hf'
        rcases List.mem_cons.1 hf' with rfl | hf'
        · exact hl hg
        · exact hal hg f' hf'
    cases f with
    | guarded t =>
      unfold cleanupDepth? at h
      split at h
      · cases h
        exact ⟨[], t, fs, rfl, rfl, ‹_›, nofun, fun _ => nofun⟩
      · obtain ⟨m, hm, hn⟩ := Option.map_eq_some_iff.1 h
        refine htail hm hn ?_ fun _ => rfl
        rintro t' ⟨⟩
        exact Bool.eq_false_iff.2 ‹_›
    | loop l =>
      unfold cleanupDepth? at h
      split at h
      · cases h
      · obtain ⟨m, hm, hn⟩ := Option.map_eq_some_iff.1 h
        exact htail hm hn nofun fun hg => absurd hg ‹_›
    | conditional c =>
      obtain ⟨m, hm, hn⟩ := Option.map_eq_some_iff.1 h
      exact htail hm hn nofun fun _ => rfl

theorem cleanupIn?_eq_none_iff {suite : Suite} {goal : Goal} {fss : List (List Frame)} :
    cleanupIn? suite goal fss = none ↔
      ∀ fs ∈ fss, NoneOwe suite (onTheWay goal fs) := by
  induction fss with
  | nil => simp [cleanupIn?]
  | cons fs fss ih =>
    rw [List.forall_mem_cons, ← ih, ← cleanupDepth?_eq_none_iff]
    cases h : cleanupDepth? suite goal fs <;> simp [cleanupIn?, h]

/-- The first of several fss with a try that owes its cleanup section. -/
theorem cleanupIn?_eq_some {suite : Suite} {goal : Goal} : ∀ {fss : List (List Frame)}
    {k n : Nat}, cleanupIn? suite goal fss = some (k, n) →
    ∃ pre fs post, fss = pre ++ fs :: post ∧ pre.length = k ∧
      cleanupDepth? suite goal fs = some n ∧ ∀ gs ∈ pre, NoneOwe suite (onTheWay goal gs)
  | [], _, _, h => by cases h
  | fs :: fss, k, n, h => by
    unfold cleanupIn? at h
    split at h
    · cases h
      exact ⟨[], fs, fss, rfl, rfl, ‹_›, nofun⟩
    · rename_i hnone
      obtain ⟨⟨k', n'⟩, hk, heq⟩ := Option.map_eq_some_iff.1 h
      cases heq
      obtain ⟨pre, gs, post, rfl, rfl, hn, hpre⟩ := cleanupIn?_eq_some hk
      exact ⟨fs :: pre, gs, post, rfl, rfl, hn,
        List.forall_mem_cons.2 ⟨cleanupDepth?_eq_none_iff.1 hnone, hpre⟩⟩

namespace Session

variable {s : Session}

/-- A transfer is free to go if no cleanup section on its way is owed. -/
theorem cleanup?_eq_none_iff {goal : Goal} : s.cleanup? goal = none ↔
    NoneOwe s.suite (onTheWay goal s.blocks) ∧ (goal = .exit → NoneOwe s.suite s.frames) := by
  unfold cleanup?
  split
  · rename_i hg
    subst hg
    rw [cleanupIn?_eq_none_iff, blockStacks_eq]
    have hway (fs : List Frame) : onTheWay .exit fs = fs := rfl
    simp only [hway, frames, NoneOwe, List.forall_mem_cons, List.mem_append, List.mem_flatten]
    constructor
    · rintro ⟨hb, ho⟩
      refine ⟨hb, fun _ t ht => ?_⟩
      rcases ht with ht | ⟨fs, hfs, ht⟩
      · exact hb t ht
      · exact ho fs hfs t ht
    · rintro ⟨hb, ho⟩
      exact ⟨hb, fun fs hfs t ht => ho trivial t (.inr ⟨fs, hfs, ht⟩)⟩
  · rename_i hg
    rw [cleanupIn?_eq_none_iff]
    simp [hg]

/-- **The try that a transfer has to clean up first**, with everything that is inside it. -/
theorem cleanup?_eq_some {goal : Goal} {k n : Nat} (h : s.cleanup? goal = some (k, n)) (r : Address) :
    ∃ pre L post above t rest, s.levels r = pre ++ L :: post ∧ pre.length = k ∧
      L.blocks = above ++ .guarded t :: rest ∧ above.length = n ∧ t.owesCleanup s.suite ∧
      NoneOwe s.suite above ∧ (goal = .loop → ∀ f ∈ above, f.isLoop = false) ∧
      (∀ M ∈ pre, NoneOwe s.suite M.blocks) ∧ (goal ≠ .exit → pre = []) := by
  unfold cleanup? at h
  have hstacks : s.blockStacks = (s.levels r).map Level.blocks := by
    rw [blockStacks_eq, levels, List.map_cons, level]
  split at h
  · rename_i hg
    obtain ⟨pre', fs, post', heq, hk, hn, hpre⟩ := cleanupIn?_eq_some h
    rw [hstacks] at heq
    obtain ⟨pre, tail, hlev, rfl, htail⟩ := List.map_eq_append_iff.1 heq
    obtain ⟨L, post, rfl, rfl, rfl⟩ := List.map_eq_cons_iff.1 htail
    obtain ⟨above, t, rest, hb, hlen, ht, ha, hal⟩ := cleanupDepth?_eq_some hn
    refine ⟨pre, L, post, above, t, rest, hlev, by simpa using hk, hb, hlen, ht, ha, hal, ?_,
      fun hne => absurd hg hne⟩
    intro M hM
    have := hpre M.blocks (List.mem_map_of_mem hM)
    rwa [hg] at this
  · rename_i hg
    obtain ⟨pre', fs, post', heq, hk, hn, -⟩ := cleanupIn?_eq_some h
    obtain ⟨above, t, rest, hb, hlen, ht, ha, hal⟩ := cleanupDepth?_eq_some hn
    cases pre' with
    | nil =>
      cases heq
      exact ⟨[], s.level r, s.outer, above, t, rest, rfl, hk, hb, hlen, ht, ha, hal, by rintro _ ⟨⟩,
        fun _ => rfl⟩
    | cons x xs =>
      have := congrArg List.length heq
      simp at this

theorem exists_isActiveTry_of_cleanup? {goal : Goal} (h : (s.cleanup? goal).isSome) :
    ∃ f ∈ s.frames, f.isActiveTry := by
  obtain ⟨⟨k, n⟩, hkn⟩ := Option.isSome_iff_exists.1 h
  obtain ⟨pre, L, post, above, t, rest, hlev, -, hb, -, ht, -⟩ := cleanup?_eq_some hkn default
  refine ⟨.guarded t, (s.mem_frames_iff default).2 ⟨L, ?_, ?_⟩, (TryFrame.owesCleanup_iff.1 ht).1⟩
  · rw [hlev]
    simp
  · rw [hb]
    simp

/-! ## 4. Waiting for a cleanup section -/

/-- The session whose innermost construct, a try, has entered its cleanup section with work that
waits for it. -/
def suspendAt (u : Session) (t : TryFrame) (rest : List Frame) (work : Work) : Session :=
  (u.setBlocks (.guarded t.enterCleanup :: rest)).pruneDeferred.defer work t.opener

theorem suspendAt_withVars (u : Session) (v : Namespace) (t : TryFrame) (rest : List Frame)
    (work : Work) : (u.withVars v).suspendAt t rest work = (u.suspendAt t rest work).withVars v := by
  unfold suspendAt
  rw [setBlocks_withVars, pruneDeferred_withVars]
  rfl

/-- A transfer does not leave the cleanup section that the innermost deferred work waits for. -/
def Stays (s : Session) (goal : Goal) : Prop :=
  ∀ d ds, s.deferred = d :: ds → s.leavesCleanup d goal = false

end Session

/-- **A transfer waits** for the first cleanup section on its way. -/
inductive Suspends (origin : Address) (goal : Goal) (s : Session) : Session → Prop
  | intro {k n : Nat} {t : TryFrame} {rest : List Frame} {p : Address} {v : Namespace}
      (clean : s.cleanup? goal = some (k, n))
      (blocks : ((s.abortCalls k).drop n).blocks = .guarded t :: rest)
      (owes : t.owesCleanup s.suite)
      (section_ : finallyOf? s.suite t.opener = some p) :
      Suspends origin goal s
        ((((s.abortCalls k).drop n).suspendAt t rest (.transfer origin goal)).proceed (some p) v)

theorem Suspends.of_withVars {origin : Address} {goal : Goal} {s s' : Session} {v : Namespace}
    (h : Suspends origin goal (s.withVars v) s') : Suspends origin goal s s' := by
  obtain ⟨clean, blocks, owes, section_⟩ := h
  rename_i k n t rest p w
  obtain ⟨w₁, h₁⟩ := s.abortCalls_withVars v k
  obtain ⟨w₂, h₂⟩ := (s.abortCalls k).drop_withVars w₁ n
  rw [h₁, h₂] at blocks ⊢
  rw [Session.suspendAt_withVars]
  exact .intro clean blocks owes section_

theorem Session.levels_setBlocks (s : Session) (bs : List Frame) (r : Address) :
    (s.setBlocks bs).levels r = ⟨bs, r, s.callee?⟩ :: s.outer := by
  rw [Session.levels, Session.level, Session.blocks_setBlocks, Session.callee?_setBlocks,
    Session.outer_setBlocks]

/-- The levels of a session that waits for a cleanup section. -/
theorem Suspends.levels {origin : Address} {goal : Goal} {s s' : Session}
    (h : Suspends origin goal s s') (r : Address) : ∃ pre L post above t rest p,
      s.levels r = pre ++ L :: post ∧ L.blocks = above ++ .guarded t :: rest ∧
      t.owesCleanup s.suite ∧ finallyOf? s.suite t.opener = some p ∧ s'.pending = some p ∧
      (∀ q, s'.levels q = ⟨.guarded t.enterCleanup :: rest, q, L.callee⟩ :: post) ∧
      NoneOwe s.suite above ∧ (goal = .loop → ∀ f ∈ above, f.isLoop = false) ∧
      (∀ M ∈ pre, NoneOwe s.suite M.blocks) ∧ (goal ≠ .exit → pre = []) := by
  obtain ⟨clean, blocks, owes, hsection⟩ := h
  rename_i k n t rest p v
  obtain ⟨pre, L, post, above, t', rest', hlev, rfl, hb, rfl, -, habove, hloop, hpre, hexit⟩ :=
    Session.cleanup?_eq_some clean r
  have hcut := Session.levels_uncover hlev hb default
  obtain ⟨hl, ho⟩ := List.cons.inj hcut
  have hblocks := congrArg Level.blocks hl
  cases blocks.symm.trans hblocks
  refine ⟨pre, L, post, above, t, rest, p, hlev, hb, owes, hsection, rfl, fun q => ?_, habove, hloop,
    hpre, hexit⟩
  have hcallee : ((s.abortCalls pre.length).drop above.length).callee? = L.callee :=
    congrArg Level.callee hl
  rw [← hcallee, ← ho]
  exact Session.levels_setBlocks _ _ q

namespace Action

variable {s : Session} {Q : Except Fault Unit → Session → Prop}

theorem Ends.block {a : Address} {b : Block} {Q : Except Fault Block → Session → Prop}
    (hb : s.suite.blockAt? a = some b) (hQ : Q (.ok b) s) : (Action.block a).Ends s Q := by
  unfold Action.block
  simp only [ends_bind, ends_ask, hb]
  exact hQ

theorem Ends.block_of_none {a : Address} {Q : Except Fault Block → Session → Prop}
    (hb : s.suite.blockAt? a = none) (hQ : ∀ e, Q (.error e) s) : (Action.block a).Ends s Q := by
  unfold Action.block
  simp only [ends_bind, ends_ask, hb]
  exact hQ _

theorem Ends.goToPart {a? : Option Address} {what : String} {p : Address} (ha : a? = some p)
    (hQ : Q (.ok ()) (s.branch p)) : (Action.goToPart a? what).Ends s Q := by
  rw [ha]
  exact hQ

/-- Entering the cleanup section of a try that owes it. -/
theorem Ends.enterCleanup {work : Work} {t : TryFrame} {rest : List Frame} {p : Address}
    (hs : s.blocks = .guarded t :: rest) (hp : finallyOf? s.suite t.opener = some p)
    (hQ : Q (.ok ()) ((s.suspendAt t rest work).proceed (some p) s.vars)) :
    (Flow.enterCleanup work).Ends s Q := by
  obtain ⟨b, hb, hbp⟩ := Option.bind_eq_some_iff.1 hp
  have hu : s.updateTry TryFrame.enterCleanup = s.setBlocks (.guarded t.enterCleanup :: rest) := by
    rw [Session.updateTry, Session.updateTop, hs]
  unfold Flow.enterCleanup
  simp only [ends_bind, ends_ask, hs, ends_change, hu]
  refine Ends.block (b := b) (by rw [Session.suite_setBlocks, hb]) (Ends.goToPart hbp ?_)
  have hv : (s.suspendAt t rest work).vars = s.vars := Session.vars_setBlocks _ _
  rw [← hv] at hQ
  exact hQ

/-- A transfer runs the next cleanup section on its way, or goes to its command. -/
theorem Ends.resumeTransfer {origin : Address} {goal : Goal}
    (hsuspend : ∀ s', Suspends origin goal s s' → Q (.ok ()) s')
    (hclear : s.cleanup? goal = none → Q (.ok ()) (s.branch origin)) :
    (Flow.resumeTransfer origin goal).Ends s Q := by
  unfold Flow.resumeTransfer
  simp only [ends_bind, ends_ask]
  split
  · rename_i k n hclean
    obtain ⟨pre, L, post, above, t, rest, hlev, rfl, hb, rfl, ht, -⟩ :=
      Session.cleanup?_eq_some hclean default
    obtain ⟨-, -, p, hp⟩ := TryFrame.owesCleanup_iff.1 ht
    simp only [ends_bind, ends_change]
    have hsuite : ((s.abortCalls pre.length).drop above.length).suite = s.suite :=
      ((s.kept_abortCalls _).trans (Session.kept_drop _ _)).suite
    have hblocks : ((s.abortCalls pre.length).drop above.length).blocks = .guarded t :: rest := by
      have := congrArg Level.blocks (List.cons.inj (Session.levels_abortCalls hlev default)).1
      rw [Session.blocks_drop, show (s.abortCalls pre.length).blocks = L.blocks from this, hb,
        List.drop_left]
    exact Ends.enterCleanup hblocks (by rw [hsuite, hp]) (hsuspend _ (.intro hclean hblocks ht hp))
  · rename_i hnone
    exact hclear hnone

/-- A transfer that leaves a cleanup section replaces the work that waits for it; otherwise it waits
for the first section on its way, if there is one. -/
theorem Ends.deferTransfer {here : Address} {goal : Goal} {Q : Except Fault Bool → Session → Prop}
    (hcounted : s.Counted)
    (hreplace : ∀ d ds, s.deferred = d :: ds → s.leavesCleanup d goal →
      Q (.ok true) (s.withDeferred ({ d with work := .transfer here goal } :: ds)))
    (hsuspend : s.Stays goal → ∀ s', Suspends here goal s s' → Q (.ok true) s')
    (hgo : s.Stays goal → s.cleanup? goal = none → Q (.ok false) s) :
    (Flow.deferTransfer here goal).Ends s Q := by
  have hway (hstay : s.Stays goal) : Ends (if s.nesting > -1 ∧ (s.cleanup? goal).isSome then do
        Flow.resumeTransfer here goal
        pure true
      else pure false) s Q := by
    split
    · rename_i hc
      rw [ends_bind]
      refine Ends.resumeTransfer (hsuspend hstay) fun hnone => ?_
      rw [hnone] at hc
      cases hc.2
    · rename_i hc
      refine hgo hstay (Option.not_isSome_iff_eq_none.1 fun hsome => hc ⟨?_, hsome⟩)
      have := hcounted.nesting_nonneg_iff.2 (Session.exists_isActiveTry_of_cleanup? hsome)
      omega
  unfold Flow.deferTransfer
  simp only [ends_bind, ends_getThe]
  split
  · rename_i d ds hd
    split
    · exact hreplace d ds hd ‹_›
    · refine hway fun d' ds' hd' => ?_
      cases hd.symm.trans hd'
      exact Bool.eq_false_iff.2 ‹_›
  · rename_i hd
    exact hway fun d' ds' hd' => by cases hd.symm.trans hd'

/-- The work that waits for the closer of a try is taken up there. -/
theorem Ends.resumeDeferred {tryAt : Address}
    (hquiet : (∀ d ds, s.deferred = d :: ds → ¬(d.resumeAt = tryAt ∧ d.depth = s.depth)) →
      Q (.ok ()) s)
    (hfault : ∀ d ds f, s.deferred = d :: ds → d.resumeAt = tryAt → d.depth = s.depth →
      d.work = .fault f → Q (.error f) (s.withDeferred ds))
    (hsuspend : ∀ d ds origin goal s', s.deferred = d :: ds → d.resumeAt = tryAt →
      d.depth = s.depth → d.work = .transfer origin goal →
      Suspends origin goal (s.withDeferred ds) s' → Q (.ok ()) s')
    (hclear : ∀ d ds origin goal, s.deferred = d :: ds → d.resumeAt = tryAt → d.depth = s.depth →
      d.work = .transfer origin goal → (s.withDeferred ds).cleanup? goal = none →
      Q (.ok ()) ((s.withDeferred ds).branch origin)) :
    (Flow.resumeDeferred tryAt).Ends s Q := by
  unfold Flow.resumeDeferred
  simp only [ends_bind, ends_getThe]
  split
  · rename_i d ds hd
    split
    · rename_i hat
      simp only [Bool.and_eq_true, beq_iff_eq] at hat
      rw [ends_bind, ends_change]
      dsimp only
      split
      · exact hfault d ds _ hd hat.1 hat.2 ‹_›
      · rename_i hw
        exact Ends.resumeTransfer (fun s' => hsuspend d ds _ _ s' hd hat.1 hat.2 hw)
          (hclear d ds _ _ hd hat.1 hat.2 hw)
    · rename_i hat
      refine hquiet fun d' ds' hd' => ?_
      cases hd.symm.trans hd'
      simpa [Bool.and_eq_true, beq_iff_eq] using hat
  · rename_i hd
    exact hquiet fun d' ds' hd' => by cases hd.symm.trans hd'

end Action

end BlockFlow.Flow
