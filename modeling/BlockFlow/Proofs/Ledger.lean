/-
# Sound sessions

What holds of a session between any two commands of a run, apart from where its constructs hold the
run: `Session.Sound`.  The calls that are running name functions and call commands, only the innermost
one may be about to end, and the deferred work is a `Ledger`: it waits deeper the newer it is, and each
transfer names a command that makes it.

Every move keeps sessions sound (`Move.sound`), and so does every offer of a fault that a try handles
(`Offer.sound`).
-/
import BlockFlow.Proofs.Moves.Dispatch
import BlockFlow.Proofs.Offers

namespace BlockFlow.Flow

/-! ## 1. The calls that are running -/

/-- A call without the constructs and variables that it holds. -/
def Call.site (c : Call) : Call := { c with blocks := [], saved := ∅ }

/-- The function that runs at a depth of calls, outside of every call none. -/
def calleeAt? (sites : List Call) (depth : Nat) : Option Address :=
  (sites.drop (sites.length + 1 - depth)).head?.map Call.callee

theorem calleeAt?_drop {sites : List Call} {k depth : Nat} (h : depth ≤ (sites.drop k).length + 1) :
    calleeAt? (sites.drop k) depth = calleeAt? sites depth := by
  unfold calleeAt?
  rw [List.drop_drop]
  rw [List.length_drop] at h ⊢
  rcases Nat.le_total k sites.length with hk | hk
  · rw [show k + (sites.length - k + 1 - depth) = sites.length + 1 - depth by omega]
  · rw [List.drop_eq_nil_of_le (by omega), List.drop_eq_nil_of_le (by omega)]

theorem calleeAt?_cons {c : Call} {sites : List Call} {depth : Nat} (h : depth ≤ sites.length + 1) :
    calleeAt? (c :: sites) depth = calleeAt? sites depth :=
  (calleeAt?_drop (k := 1) (show depth ≤ ((c :: sites).drop 1).length + 1 from h)).symm

/-- A call of a function by a command that names one. -/
structure Call.Genuine (suite : Suite) (c : Call) : Prop where
  callee : suite.Opens .function c.callee
  keyword : suite.keywordAt? c.returnTo = some .call
  names : ∃ cmd o, suite.commandAt? c.returnTo = some cmd ∧
    suite.tables.functions.get? (Text.trim cmd.target) = some o

/-- Levels of the same calls with the same constructs are the same. -/
theorem levelsOf_ext {base base' : List Frame} {calls calls' : List Call} {r : Address}
    (hsites : calls.map Call.site = calls'.map Call.site)
    (hblocks : (levelsOf base calls r).map Level.blocks = (levelsOf base' calls' r).map Level.blocks) :
    levelsOf base calls r = levelsOf base' calls' r := by
  induction calls generalizing calls' r with
  | nil =>
    obtain rfl := List.map_eq_nil_iff.1 hsites.symm
    obtain rfl : base = base' := (List.cons.inj hblocks).1
    rfl
  | cons c calls ih =>
    obtain ⟨c', calls', rfl, hc, hcalls⟩ := List.map_eq_cons_iff.1 hsites.symm
    obtain ⟨hb, hrest⟩ := List.cons.inj hblocks
    have hreturn : c'.site.returnTo = c.site.returnTo := by rw [hc]
    have hcallee : c'.site.callee = c.site.callee := by rw [hc]
    change c'.returnTo = c.returnTo at hreturn
    change c'.callee = c.callee at hcallee
    rw [levelsOf, levelsOf, hcallee, hreturn, ih hcalls.symm (hreturn ▸ hrest)]
    exact congrArg (fun bs => Level.mk bs r (some c.callee) :: _) hb

namespace Session

variable (s : Session)

/-- The calls that are running, innermost first. -/
def sites : List Call := s.calls.map Call.site

theorem depth_eq_sites : s.depth = s.sites.length + 1 := by rw [depth, sites, List.length_map]

theorem callee?_eq_sites : s.callee? = calleeAt? s.sites s.depth := by
  rw [callee?, calleeAt?, depth_eq_sites, Nat.sub_self, List.drop_zero, sites]
  cases s.calls <;> rfl

/-- Sessions with the same calls and the same constructs have the same levels around the innermost one. -/
theorem outer_ext {s s' : Session} (hsites : s.sites = s'.sites)
    (hblocks : s.outer.map Level.blocks = s'.outer.map Level.blocks) : s.outer = s'.outer := by
  unfold sites at hsites
  unfold outer at hblocks ⊢
  cases hc : s.calls with
  | nil =>
    rw [hc] at hsites
    rw [List.map_eq_nil_iff.1 hsites.symm]
  | cons c calls =>
    rw [hc] at hsites hblocks
    obtain ⟨c', calls', hc', hcc, hcalls⟩ := List.map_eq_cons_iff.1 hsites.symm
    have hreturn : c'.site.returnTo = c.site.returnTo := by rw [hcc]
    change c'.returnTo = c.returnTo at hreturn
    rw [hc'] at hblocks ⊢
    dsimp only at hblocks ⊢
    rw [hreturn] at hblocks ⊢
    exact levelsOf_ext hcalls.symm hblocks

@[simp] theorem sites_setBlocks (bs : List Frame) : (s.setBlocks bs).sites = s.sites := by
  unfold setBlocks sites
  cases s.calls <;> rfl

@[simp] theorem sites_discardAll (fs : List Frame) : (s.discardAll fs).sites = s.sites := by
  rw [sites, calls_discardAll, sites]

@[simp] theorem sites_drop (n : Nat) : (s.drop n).sites = s.sites := by
  rw [drop, sites_discardAll, sites_setBlocks]

@[simp] theorem sites_abortCalls (k : Nat) : (s.abortCalls k).sites = s.sites.drop k := by
  rw [sites, calls_abortCalls, sites, List.map_drop]

@[simp] theorem sites_proceed (p? : Option Address) (v : Namespace) :
    (s.proceed p? v).sites = s.sites := rfl

@[simp] theorem sites_withVars (v : Namespace) : (s.withVars v).sites = s.sites := rfl

theorem stackAt?_isSome {depth : Nat} {fs : List Frame} (h : s.stackAt? depth = some fs) :
    depth ≤ s.depth := by
  unfold stackAt? at h
  split at h
  · cases h
  · have := (List.getElem?_eq_some_iff.1 h).1
    rw [blockStacks_eq, List.length_reverse, List.length_cons, List.length_map] at this
    rw [depth_eq]
    omega

/-- Work that is still waited for is not deeper than the calls that are running. -/
theorem depth_le_of_mem_pruneDeferred {d : Deferred} (h : d ∈ s.pruneDeferred.deferred) :
    d.depth ≤ s.depth := by
  have := (List.mem_filter.1 h).2
  cases hs : s.stackAt? d.depth with
  | none =>
    rw [hs] at this
    cases this
  | some fs => exact s.stackAt?_isSome hs

theorem pruneDeferred_sublist : s.pruneDeferred.deferred.Sublist s.deferred := List.filter_sublist

theorem relieve_sublist (a : Address) : (s.relieve a).deferred.Sublist s.pruneDeferred.deferred :=
  List.filter_sublist

end Session

/-! ## 2. The ledger of deferred work -/

/-- The calls without the innermost one, if that has ended. -/
def lasting : List Call → List Call
  | [] => []
  | c :: calls => if c.returning then calls else c :: calls

theorem lasting_eq {sites : List Call} (h : ∀ c ∈ sites.head?, c.returning = false) :
    lasting sites = sites := by
  cases sites with
  | nil => rfl
  | cons c sites => simp [lasting, h c rfl]

/-- A deferred transfer names a command that makes it, and in the call of a function one of that
function. -/
def Deferred.Carried (suite : Suite) (sites : List Call) (d : Deferred) : Prop :=
  ∀ origin goal, d.work = .transfer origin goal →
    (suite.keywordAt? origin).bind goalOf? = some goal ∧
      (goal = .function → ∃ b o, suite.blockAt? origin = some b ∧ b.opener = some o ∧
        calleeAt? sites d.depth = some o)

/-- **The deferred work of a session**: the newer, the deeper. -/
structure Ledger (suite : Suite) (sites : List Call) (ds : List Deferred) : Prop where
  sorted : ds.Pairwise fun d e => e.depth ≤ d.depth
  deep : ∀ d ∈ ds, d.depth ≤ (lasting sites).length + 1
  carried : ∀ d ∈ ds, d.Carried suite sites

namespace Ledger

variable {suite : Suite} {sites : List Call} {ds : List Deferred} {d : Deferred}

/-- Calls end, and no work is left for them. -/
theorem cut (h : Ledger suite sites ds) {k : Nat} (hr : ∀ c ∈ sites, c.returning = false)
    {ds' : List Deferred} (hs : ds'.Sublist ds) (hd : ∀ d ∈ ds', d.depth ≤ (sites.drop k).length + 1) :
    Ledger suite (sites.drop k) ds' where
  sorted := h.sorted.sublist hs
  deep d hm := by
    rw [lasting_eq fun c hc => hr c (List.mem_of_mem_drop (List.mem_of_mem_head? hc))]
    exact hd d hm
  carried d hm origin goal hw := by
    obtain ⟨hkey, hfun⟩ := h.carried d (hs.subset hm) origin goal hw
    rw [calleeAt?_drop (hd d hm)]
    exact ⟨hkey, hfun⟩

/-- Work is deferred in the innermost call. -/
theorem cons (h : Ledger suite sites ds) (hr : ∀ c ∈ sites.head?, c.returning = false)
    (hd : d.depth = sites.length + 1) (hc : d.Carried suite sites) : Ledger suite sites (d :: ds) where
  sorted := by
    refine List.pairwise_cons.2 ⟨fun e he => ?_, h.sorted⟩
    rw [hd, ← lasting_eq hr]
    exact h.deep e he
  deep e he := by
    rcases List.mem_cons.1 he with rfl | he
    · rw [lasting_eq hr, hd]
    · exact h.deep e he
  carried e he := by
    rcases List.mem_cons.1 he with rfl | he
    · exact hc
    · exact h.carried e he

/-- Other work takes the place of the newest. -/
theorem replace (h : Ledger suite sites (d :: ds)) {w : Work}
    (hc : Deferred.Carried suite sites { d with work := w }) :
    Ledger suite sites ({ d with work := w } :: ds) where
  sorted := by
    obtain ⟨hd, hds⟩ := List.pairwise_cons.1 h.sorted
    exact List.pairwise_cons.2 ⟨hd, hds⟩
  deep e he := by
    rcases List.mem_cons.1 he with rfl | he
    · exact h.deep d List.mem_cons_self
    · exact h.deep e (List.mem_cons_of_mem _ he)
  carried e he := by
    rcases List.mem_cons.1 he with rfl | he
    · exact hc
    · exact h.carried e (List.mem_cons_of_mem _ he)

/-- The newest work is the deepest. -/
theorem depth_le_head (h : Ledger suite sites (d :: ds)) {e : Deferred} (he : e ∈ d :: ds) :
    e.depth ≤ d.depth := by
  rcases List.mem_cons.1 he with rfl | he
  · exact le_rfl
  · exact (List.pairwise_cons.1 h.sorted).1 e he

theorem tail (h : Ledger suite sites (d :: ds)) : Ledger suite sites ds where
  sorted := (List.pairwise_cons.1 h.sorted).2
  deep e he := h.deep e (List.mem_cons_of_mem _ he)
  carried e he := h.carried e (List.mem_cons_of_mem _ he)

/-- A call begins. -/
theorem enterCall (h : Ledger suite sites ds) (hr : ∀ c ∈ sites.head?, c.returning = false) {c : Call}
    (hc : c.returning = false) : Ledger suite (c :: sites) ds where
  sorted := h.sorted
  deep e he := by
    have := h.deep e he
    rw [lasting_eq hr] at this
    rw [lasting, hc, if_neg (by decide), List.length_cons]
    omega
  carried e he origin goal hw := by
    have := h.deep e he
    rw [lasting_eq hr] at this
    rw [calleeAt?_cons this]
    exact h.carried e he origin goal hw

/-- A call ends that no work waits in. -/
theorem returnFrom {c : Call} (h : Ledger suite (c :: sites) ds)
    (hd : ∀ d ∈ ds, d.depth ≤ sites.length + 1) : Ledger suite ({ c with returning := true } :: sites) ds where
  sorted := h.sorted
  deep := hd
  carried e he origin goal hw := by
    rw [calleeAt?_cons (hd e he), ← calleeAt?_cons (c := c) (hd e he)]
    exact h.carried e he origin goal hw

/-- The caller goes on. -/
theorem finishCall {c : Call} (h : Ledger suite (c :: sites) ds) (hc : c.returning = true)
    (hr : ∀ d ∈ sites, d.returning = false) : Ledger suite sites ds where
  sorted := h.sorted
  deep e he := by
    have := h.deep e he
    rw [lasting, if_pos hc] at this
    rwa [lasting_eq fun d hd => hr d (List.mem_of_mem_head? hd)]
  carried e he origin goal hw := by
    have := h.deep e he
    rw [lasting, if_pos hc] at this
    rw [← calleeAt?_cons (c := c) this]
    exact h.carried e he origin goal hw

end Ledger

/-! ## 3. What keeps a session fitted -/

namespace Session

variable {s s' : Session}

theorem frames_setBlocks (s : Session) (bs : List Frame) :
    (s.setBlocks bs).frames = bs ++ (s.outer.map Level.blocks).flatten := by
  rw [frames, blocks_setBlocks, outer_setBlocks]

theorem mem_frames_of_drop {n : Nat} {f : Frame} (h : f ∈ (s.drop n).frames) : f ∈ s.frames := by
  rw [frames, blocks_drop, outer_drop] at h
  rcases List.mem_append.1 h with h | h
  · exact List.mem_append_left _ (List.mem_of_mem_drop h)
  · exact List.mem_append_right _ h

theorem mem_frames_of_abortCall {f : Frame} (h : f ∈ s.abortCall.frames) : f ∈ s.frames := by
  cases ho : s.outer with
  | nil =>
    have hc : s.calls = [] := List.length_eq_zero_iff.1 (by rw [← s.length_outer, ho]; rfl)
    rwa [abortCall, hc] at h
  | cons L post =>
    obtain ⟨hb, ho', -⟩ := blocks_abortCall ho
    rw [frames, hb, ho'] at h
    rw [frames, ho]
    exact List.mem_append_right _ h

theorem Fitted.mono (h : s.Fitted) (hsuite : s'.suite = s.suite)
    (hframes : ∀ f ∈ s'.frames, f ∈ s.frames ∨ f.Fits s.suite) (hcounted : s'.Counted) : s'.Fitted where
  nested := hsuite ▸ h.nested
  fits f hf := hsuite ▸ (hframes f hf).elim (h.fits f) id
  counted := hcounted

theorem Fitted.setBlocks (h : s.Fitted) {bs : List Frame}
    (hbs : ∀ f ∈ bs, f ∈ s.blocks ∨ f.Fits s.suite)
    (hcount : bs.countP Frame.isActiveTry = s.blocks.countP Frame.isActiveTry) :
    (s.setBlocks bs).Fitted := by
  refine h.mono (suite_setBlocks _ _) (fun f hf => ?_) (h.counted.setBlocks hcount)
  rw [frames_setBlocks] at hf
  rcases List.mem_append.1 hf with hf | hf
  · exact (hbs f hf).imp_left fun hf => List.mem_append_left _ hf
  · exact .inl (List.mem_append_right _ hf)

theorem Fitted.drop (h : s.Fitted) (n : Nat) : (s.drop n).Fitted :=
  h.mono (s.kept_drop n).suite (fun _ hf => .inl (mem_frames_of_drop hf)) (h.counted.drop n)

theorem Fitted.abortCall (h : s.Fitted) : s.abortCall.Fitted :=
  h.mono s.kept_abortCall.suite (fun _ hf => .inl (mem_frames_of_abortCall hf)) h.counted.abortCall

theorem Fitted.abortCalls (h : s.Fitted) (k : Nat) : (s.abortCalls k).Fitted := by
  induction k generalizing s with
  | zero => exact h
  | succ k ih => exact ih h.abortCall

theorem Fitted.proceed (h : s.Fitted) (p? : Option Address) (v : Namespace) : (s.proceed p? v).Fitted :=
  ⟨h.nested, h.fits, h.counted⟩

/-- The innermost construct is left, and if it is a try then it is no longer counted. -/
theorem Fitted.leaveTry (h : s.Fitted) {t : TryFrame} {rest : List Frame}
    (hs : s.blocks = .guarded t :: rest) : (s.leaveTry t rest).Fitted := by
  refine h.mono (suite_setBlocks _ _) (fun f hf => .inl ?_) ?_
  · change f ∈ (s.setBlocks rest).frames at hf
    rw [frames_setBlocks] at hf
    rw [frames, hs]
    exact List.mem_cons_of_mem _ hf
  · have hc := h.counted
    unfold Counted at hc ⊢
    change s.nesting - _ + 1 = ((s.setBlocks rest).frames.countP Frame.isActiveTry : Int)
    rw [frames, hs, List.cons_append, List.countP_cons] at hc
    rw [frames_setBlocks]
    by_cases hact : t.isActive <;> simp [Frame.isActiveTry, hact] at hc ⊢ <;> omega

/-- A call that has ended holds no constructs. -/
theorem markReturning_eq {c : Call} {calls : List Call} (hc : s.calls = c :: calls) :
    s.markReturning = { s.drop s.blocks.length with
      calls := { c with blocks := [], returning := true } :: calls } := by
  have hcalls : (s.drop s.blocks.length).calls = { c with blocks := [] } :: calls := by
    rw [Session.drop, List.drop_length, calls_discardAll, Session.setBlocks, hc]
  unfold markReturning
  dsimp only
  rw [hcalls]

@[simp] theorem outer_enterCall (s : Session) (callee returnTo : Address) (args : Namespace) :
    (s.enterCall callee returnTo args).outer = s.levels returnTo := by
  rw [levels_eq]
  rfl

theorem Fitted.enterCall (h : s.Fitted) (callee returnTo : Address) (args v : Namespace) :
    ((s.withVars v).enterCall callee returnTo args).Fitted := by
  have hframes : ((s.withVars v).enterCall callee returnTo args).frames = s.frames := by
    rw [frames, outer_enterCall]
    rfl
  refine h.mono rfl (fun f hf => .inl (hframes ▸ hf)) ?_
  have hc := h.counted
  unfold Counted at hc ⊢
  rw [hframes]
  exact hc

theorem base_drop (hc : s.calls ≠ []) (n : Nat) : (s.drop n).base = s.base := by
  rw [drop, base_discardAll, setBlocks]
  cases hcs : s.calls with
  | nil => exact absurd hcs hc
  | cons c calls => rfl

theorem blocks_markReturning {c : Call} {calls : List Call} (hc : s.calls = c :: calls) :
    s.markReturning.blocks = [] := by rw [markReturning_eq hc, blocks]

theorem outer_markReturning {c : Call} {calls : List Call} (hc : s.calls = c :: calls) :
    s.markReturning.outer = s.outer := by
  rw [markReturning_eq hc]
  unfold outer
  dsimp only
  rw [hc, base_drop (by rw [hc]; exact List.cons_ne_nil _ _)]

theorem sites_markReturning {c : Call} {calls : List Call} (hc : s.calls = c :: calls) :
    s.markReturning.sites = { c.site with returning := true } :: calls.map Call.site := by
  rw [markReturning_eq hc, sites, List.map_cons]
  rfl

theorem kept_markReturning {c : Call} {calls : List Call} (hc : s.calls = c :: calls) :
    s.Kept s.markReturning := by
  rw [markReturning_eq hc]
  exact (s.kept_drop _).trans ⟨rfl, rfl, rfl, rfl, rfl⟩

theorem Fitted.markReturning (h : s.Fitted) {c : Call} {calls : List Call} (hc : s.calls = c :: calls) :
    s.markReturning.Fitted := by
  have hd := h.drop s.blocks.length
  have hframes : s.markReturning.frames = (s.drop s.blocks.length).frames := by
    rw [frames, blocks_markReturning hc, outer_markReturning hc, frames, blocks_drop, List.drop_length,
      outer_drop]
  refine hd.mono ?_ (fun f hf => .inl (hframes ▸ hf)) ?_
  · rw [(kept_markReturning hc).suite, (s.kept_drop _).suite]
  · have hn := hd.counted
    unfold Counted at hn ⊢
    rw [hframes, ← hn, markReturning_eq hc]

theorem Fitted.enterTry (h : s.Fitted) {t : TryFrame} (ht : Frame.Fits s.suite (.guarded t)) :
    (s.enterTry t).Fitted := by
  refine h.mono (suite_setBlocks _ _) (fun f hf => ?_) ?_
  · change f ∈ (s.setBlocks (.guarded t :: s.blocks)).frames at hf
    rw [frames_setBlocks, List.cons_append] at hf
    rcases List.mem_cons.1 hf with rfl | hf
    · exact .inr ht
    · exact .inl hf
  · have hc := h.counted
    unfold Counted at hc ⊢
    change s.nesting + _ + 1 = ((s.setBlocks (.guarded t :: s.blocks)).frames.countP Frame.isActiveTry : Int)
    rw [frames] at hc
    rw [frames_setBlocks, List.cons_append, List.countP_cons]
    by_cases hact : t.isActive <;> simp [Frame.isActiveTry, hact] at hc ⊢ <;> omega

end Session

/-! ## 4. Sound sessions -/

/-- **What holds of a session** between two commands of a run that is to go on at an address. -/
structure Session.Sound (s : Session) (r : Address) : Prop extends s.Fitted where
  calls : ∀ c ∈ s.sites, c.Genuine s.suite
  running : ∀ c ∈ s.sites.tail, c.returning = false
  returning : ∀ c calls, s.sites = c :: calls → c.returning = true → s.blocks = [] ∧ r = c.returnTo
  ledger : Ledger s.suite s.sites s.deferred

namespace Session

variable {s s' : Session} {r : Address}

/-- No call waits to be finished. -/
def Running (s : Session) : Prop := ∀ c ∈ s.sites, c.returning = false

/-- A call that has ended waits to be finished. -/
theorem not_running_markReturning {c : Call} {calls : List Call} (hc : s.calls = c :: calls)
    (p? : Option Address) (v : Namespace) : ¬(s.markReturning.proceed p? v).Running := by
  intro h
  have := h { c.site with returning := true } (by
    rw [sites_proceed, sites_markReturning hc]
    exact List.mem_cons_self)
  cases this

theorem Running.head (h : s.Running) : ∀ c ∈ s.sites.head?, c.returning = false :=
  fun c hc => h c (List.mem_of_mem_head? hc)

theorem Ready.runs (h : s.Ready) (hs : s.Sound r) : s.Running := by
  intro c hc
  cases hcs : s.calls with
  | nil =>
    rw [sites, hcs] at hc
    cases hc
  | cons d calls =>
    have hsites : s.sites = d.site :: calls.map Call.site := by rw [sites, hcs, List.map_cons]
    rw [hsites] at hc
    rcases List.mem_cons.1 hc with rfl | hc
    · exact h.running d calls hcs
    · exact hs.running c (by rw [hsites]; exact hc)

/-- A call that has ended holds no constructs. -/
theorem Sound.running_of_blocks (h : s.Sound r) {f : Frame}
    {rest : List Frame} (hs : s.blocks = f :: rest) : s.Running := by
  intro c hc
  cases hcs : s.sites with
  | nil =>
    rw [hcs] at hc
    cases hc
  | cons d calls =>
    rw [hcs] at hc
    rcases List.mem_cons.1 hc with rfl | hc
    · refine Bool.eq_false_iff.2 fun hret => ?_
      have := (h.returning c calls hcs hret).1
      rw [hs] at this
      cases this
    · exact h.running c (by rw [hcs]; exact hc)

/-- A session that is sound, with calls ended and no other call about to end. -/
theorem Sound.of_drop (h : s.Sound r) (hr : s.Running) {k : Nat} (hf : s'.Fitted)
    (hsuite : s'.suite = s.suite) (hsites : s'.sites = s.sites.drop k)
    (hledger : Ledger s.suite (s.sites.drop k) s'.deferred) (r' : Address) : s'.Sound r' where
  toFitted := hf
  calls c hc := by
    rw [hsites] at hc
    exact hsuite ▸ h.calls c (List.mem_of_mem_drop hc)
  running c hc := by
    rw [hsites, List.tail_drop] at hc
    exact hr c (List.mem_of_mem_drop hc)
  returning c calls hcs hret := by
    have : c ∈ s.sites.drop k := by
      rw [← hsites, hcs]
      exact List.mem_cons_self
    rw [hr c (List.mem_of_mem_drop this)] at hret
    cases hret
  ledger := by
    rw [hsuite, hsites]
    exact hledger

/-- A session that is sound, with other constructs. -/
theorem Sound.of_sites (h : s.Sound r) (hr : s.Running) (hf : s'.Fitted) (hsuite : s'.suite = s.suite)
    (hsites : s'.sites = s.sites) (hledger : Ledger s.suite s.sites s'.deferred) (r' : Address) :
    s'.Sound r' :=
  h.of_drop hr (k := 0) hf hsuite hsites hledger r'

theorem Fitted.top {f : Frame} {rest : List Frame} (h : s.Fitted) (hs : s.blocks = f :: rest) :
    f.Fits s.suite := h.fits f (by rw [frames, hs]; exact List.mem_cons_self)

/-- The innermost construct changes without ceasing to be what it is. -/
theorem Fitted.setTop (h : s.Fitted) {f f' : Frame} {rest : List Frame} (hs : s.blocks = f :: rest)
    (hf : f'.Fits s.suite) (hact : f'.isActiveTry = f.isActiveTry) : (s.setBlocks (f' :: rest)).Fitted := by
  refine h.setBlocks (fun g hg => ?_) ?_
  · rw [hs]
    rcases List.mem_cons.1 hg with rfl | hg
    · exact .inr hf
    · exact .inl (List.mem_cons_of_mem _ hg)
  · rw [hs, List.countP_cons, List.countP_cons, hact]

theorem Fitted.enterCleanup (h : s.Fitted) {t : TryFrame} {rest : List Frame}
    (hs : s.blocks = .guarded t :: rest) (hact : t.isActive) :
    (s.setBlocks (.guarded t.enterCleanup :: rest)).Fitted := by
  refine h.setTop hs (h.top hs).enterCleanup ?_
  rw [Frame.isActiveTry, Frame.isActiveTry, hact]
  rfl

theorem Fitted.setLoop (h : s.Fitted) {l : LoopFrame} {rest : List Frame} (hs : s.blocks = .loop l :: rest)
    (l' : LoopFrame) (opener : l'.opener = l.opener) (saved : l'.saved = l.saved)
    (binds : ∀ name, l'.source.Binds name → l.source.Binds name) : (s.setBlocks (.loop l' :: rest)).Fitted :=
  h.setTop hs ((h.top hs).loop opener saved binds) rfl

end Session

/-! ## 5. What keeps a session sound -/

section

variable {suite : Suite} {s s' : Session} {a r : Address} {goal : Goal}

/-- A transfer that a command of the innermost call makes. -/
theorem Session.Transfers.carried (h : s.Transfers a goal) (o : Address) :
    Deferred.Carried s.suite s.sites ⟨.transfer a goal, o, s.depth⟩ := by
  rintro origin goal' ⟨⟩
  refine ⟨h.carries, fun hg => ?_⟩
  obtain ⟨b, o', hb, ho, hc⟩ := h.callee hg
  exact ⟨b, o', hb, ho, by rw [← hc, Session.callee?_eq_sites]⟩

/-- A transfer that waits for a cleanup section leaves the session sound. -/
theorem Suspends.sound {origin : Address} (m : Suspends origin goal s s') (h : s.Sound r)
    (hr : s.Running) (hc : Deferred.Carried s.suite s.sites ⟨.transfer origin goal, default, s.depth⟩)
    (r' : Address) : s'.Sound r' := by
  obtain ⟨clean, blocks, owes, hsection⟩ := m
  rename_i k n t rest p v
  have hu : ((s.abortCalls k).drop n).Fitted := (h.toFitted.abortCalls k).drop n
  have hk : s.Kept ((s.abortCalls k).drop n) := (s.kept_abortCalls k).trans (Session.kept_drop _ n)
  have hsites : ((s.abortCalls k).drop n).sites = s.sites.drop k := by
    rw [Session.sites_drop, Session.sites_abortCalls]
  generalize (s.abortCalls k).drop n = u at blocks hu hk hsites
  have hact := (TryFrame.owesCleanup_iff.1 owes).1
  have hfit := hu.enterCleanup blocks hact
  have hset : (u.setBlocks (.guarded t.enterCleanup :: rest)).sites = s.sites.drop k := by
    rw [Session.sites_setBlocks, hsites]
  have hsuite : (u.setBlocks (.guarded t.enterCleanup :: rest)).suite = s.suite :=
    (u.kept_setBlocks _).suite.trans hk.suite
  have hdef : (u.setBlocks (.guarded t.enterCleanup :: rest)).deferred = s.deferred :=
    (u.kept_setBlocks _).deferred.trans hk.deferred
  unfold Session.suspendAt
  generalize u.setBlocks (.guarded t.enterCleanup :: rest) = w at hfit hset hsuite hdef ⊢
  have hdepth : w.depth = (s.sites.drop k).length + 1 := by rw [Session.depth_eq_sites, hset]
  have hledger : Ledger s.suite (s.sites.drop k) w.pruneDeferred.deferred := by
    refine h.ledger.cut hr (hdef ▸ w.pruneDeferred_sublist) fun d hd => ?_
    rw [← hdepth]
    exact w.depth_le_of_mem_pruneDeferred hd
  have hfit' : ((w.pruneDeferred.defer (.transfer origin goal) t.opener).proceed (some p) v).Fitted :=
    ⟨hfit.nested, hfit.fits, hfit.counted⟩
  refine h.of_drop hr (k := k) hfit' hsuite hset ?_ r'
  refine hledger.cons (fun c hc => hr c (List.mem_of_mem_drop (List.mem_of_mem_head? hc))) hdepth ?_
  rintro origin' goal' ⟨⟩
  obtain ⟨hkey, hfun⟩ := hc origin goal rfl
  refine ⟨hkey, fun hg => ?_⟩
  -- a transfer out of a function waits in the call that it is made in
  have hk0 : k = 0 := by
    obtain ⟨pre, -, -, -, -, -, -, rfl, -, -, -, -, -, -, hpre⟩ := Session.cleanup?_eq_some clean default
    rw [hpre (by rw [hg]; decide)]
    rfl
  subst hk0
  rw [show w.pruneDeferred.depth = s.depth from by rw [Session.depth_eq_sites s]; exact hdepth]
  exact hfun hg

theorem Session.kept_enterTry (s : Session) (t : TryFrame) : s.Kept (s.enterTry t) :=
  (s.kept_setBlocks _).trans ⟨rfl, rfl, rfl, rfl, rfl⟩

theorem Session.kept_leaveTry (s : Session) (t : TryFrame) (rest : List Frame) :
    s.Kept (s.leaveTry t rest) := (s.kept_setBlocks _).trans ⟨rfl, rfl, rfl, rfl, rfl⟩

/-- The conditionals that a jump leaves. -/
theorem exists_keepSpanning (suite : Suite) (goal : Address) : ∀ fs : List Frame,
    ∃ left, fs = left ++ keepSpanning suite goal fs ∧ ∀ f ∈ left, ∃ c, f = .conditional c
  | [] => ⟨[], rfl, nofun⟩
  | .conditional c :: fs => by
    unfold keepSpanning
    split
    · exact ⟨[], rfl, nofun⟩
    · obtain ⟨left, hfs, hleft⟩ := exists_keepSpanning suite goal fs
      refine ⟨.conditional c :: left, congrArg _ hfs, ?_⟩
      rintro f hf
      rcases List.mem_cons.1 hf with rfl | hf
      · exact ⟨c, rfl⟩
      · exact hleft f hf
  | .loop l :: fs => ⟨[], rfl, nofun⟩
  | .guarded t :: fs => ⟨[], rfl, nofun⟩

/-- A jump leaves conditionals, which are not counted. -/
theorem Session.Fitted.jump (h : s.Fitted) (goal : Address) :
    (s.setBlocks (keepSpanning s.suite goal s.blocks)).Fitted := by
  obtain ⟨left, hfs, hleft⟩ := exists_keepSpanning s.suite goal s.blocks
  have hcount : left.countP Frame.isActiveTry = 0 := by
    refine List.countP_eq_zero.2 fun f hf => ?_
    obtain ⟨c, rfl⟩ := hleft f hf
    exact Bool.false_ne_true
  refine h.setBlocks (fun f hf => .inl (hfs ▸ List.mem_append_right _ hf)) ?_
  conv_rhs => rw [hfs]
  rw [List.countP_append, hcount, Nat.zero_add]

/-- A construct is entered that is not counted. -/
theorem Session.Fitted.push (h : s.Fitted) {f : Frame} (hf : f.Fits s.suite) (hno : ∀ t, f ≠ .guarded t) :
    (s.push f).Fitted := by
  refine h.setBlocks (fun g hg => ?_) ?_
  · rcases List.mem_cons.1 hg with rfl | hg
    · exact .inr hf
    · exact .inl hg
  · rw [List.countP_cons]
    cases f with
    | guarded t => exact absurd rfl (hno t)
    | conditional _ | loop _ => rfl

/-- A session that goes on, with the same calls and with less deferred work. -/
theorem Session.Sound.goOn (h : s.Sound r) (hr : s.Running) (hf : s'.Fitted) (hk : s.Kept s')
    (hsites : s'.sites = s.sites) (p? : Option Address) (v : Namespace) (r' : Address) :
    (s'.proceed p? v).Sound r' :=
  h.of_sites hr (hf.proceed p? v) hk.suite hsites (by
    change Ledger s.suite s.sites s'.deferred
    rw [hk.deferred]
    exact h.ledger) r'

/-- Only the end of the run leaves a cleanup section of another call. -/
theorem Session.depth_eq_of_leavesCleanup {d : Deferred} (h : s.leavesCleanup d goal)
    (hg : goal ≠ .exit) : s.depth = d.depth := by
  by_contra hne
  rw [Session.leavesCleanup, if_pos hne, beq_iff_eq] at h
  exact hg h

/-- A function that is left has no cleanup section that work waits for. -/
theorem Session.Stays.depth_ne (h : s.Stays .function) {d : Deferred} {ds : List Deferred}
    (hd : s.deferred = d :: ds) : s.depth ≠ d.depth := by
  intro heq
  have := h d ds hd
  rw [Session.leavesCleanup, if_neg (by simpa using heq)] at this
  cases this

/-- The session in which the innermost try was left and the work for its closer was taken up. -/
theorem Session.Sound.leaveTry (h : s.Sound r) (hr : s.Running) {t : TryFrame} {rest : List Frame}
    {d : Deferred} {ds : List Deferred} (hs : s.blocks = .guarded t :: rest) (hd : s.deferred = d :: ds)
    (r' : Address) : ((s.leaveTry t rest).withDeferred ds).Sound r' ∧
      ((s.leaveTry t rest).withDeferred ds).Running := by
  have hl := h.toFitted.leaveTry hs
  have hf : ((s.leaveTry t rest).withDeferred ds).Fitted := ⟨hl.nested, hl.fits, hl.counted⟩
  have hsites : ((s.leaveTry t rest).withDeferred ds).sites = s.sites := s.sites_setBlocks _
  refine ⟨h.of_sites hr hf (s.kept_leaveTry t rest).suite hsites (hd ▸ h.ledger).tail r', ?_⟩
  intro c hc
  rw [hsites] at hc
  exact hr c hc

/-- A call ends, and no work waits in it: the newest work is the deepest. -/
theorem Session.Sound.returnFrom (h : s.Sound r) (hr : s.Running) (stays : s.Stays .function) {c : Call}
    {calls : List Call} (call : s.calls = c :: calls) (v : Namespace) :
    (s.markReturning.proceed (some c.returnTo) v).Sound c.returnTo := by
  have hsites : s.sites = c.site :: calls.map Call.site := by rw [Session.sites, call, List.map_cons]
  have hmark := Session.sites_markReturning call
  have hk := Session.kept_markReturning call
  have hledger : Ledger s.suite (c.site :: calls.map Call.site) s.deferred := hsites ▸ h.ledger
  have hdeep : ∀ d ∈ s.deferred, d.depth ≤ (calls.map Call.site).length + 1 := by
    intro d hd
    obtain ⟨e, es, hde⟩ := List.exists_cons_of_ne_nil (List.ne_nil_of_mem hd)
    have hne := stays.depth_ne hde
    have he := hledger.deep e (hde ▸ List.mem_cons_self)
    have hle := (hde ▸ hledger).depth_le_head (hde ▸ hd)
    rw [lasting_eq (hsites ▸ hr.head), List.length_cons] at he
    rw [Session.depth_eq_sites, hsites, List.length_cons] at hne
    omega
  exact
    { toFitted := (h.toFitted.markReturning call).proceed _ _
      calls := fun d hd => by
        rw [Session.sites_proceed, hmark] at hd
        rw [Session.suite_proceed, hk.suite]
        rcases List.mem_cons.1 hd with rfl | hd
        · have := h.calls c.site (by rw [hsites]; exact List.mem_cons_self)
          exact ⟨this.callee, this.keyword, this.names⟩
        · exact h.calls d (by rw [hsites]; exact List.mem_cons_of_mem _ hd)
      running := fun d hd => by
        rw [Session.sites_proceed, hmark] at hd
        exact h.running d (by rw [hsites]; exact hd)
      returning := fun d ds hd _ => by
        rw [Session.sites_proceed, hmark] at hd
        obtain ⟨rfl, -⟩ := List.cons.inj hd
        exact ⟨Session.blocks_markReturning call, rfl⟩
      ledger := by
        rw [Session.suite_proceed, Session.sites_proceed, Session.deferred_proceed, hmark, hk.suite,
          hk.deferred]
        exact hledger.returnFrom hdeep }

/-- A call begins that its command names. -/
theorem Session.Sound.enterCall (h : s.Sound r) (hr : s.Running) {callee : Address} {args v : Namespace}
    (keyword : s.suite.keywordAt? a = some .call) (opens : s.suite.Opens .function callee)
    (names : ∃ c, s.suite.commandAt? a = some c ∧
      s.suite.tables.functions.get? (Text.trim c.target) = some callee) (r' : Address) :
    (((s.withVars v).enterCall callee a args).proceed (some callee) args).Sound r' := by
  have hsites : ((s.withVars v).enterCall callee a args).sites = ⟨callee, a, ∅, [], false⟩ :: s.sites := rfl
  exact
    { toFitted := (h.toFitted.enterCall callee a args v).proceed _ _
      calls := fun d hd => by
        rw [Session.sites_proceed, hsites] at hd
        rcases List.mem_cons.1 hd with rfl | hd
        · obtain ⟨c, hc, hname⟩ := names
          exact ⟨opens, keyword, c, callee, hc, hname⟩
        · exact h.calls d hd
      running := fun d hd => hr d hd
      returning := fun d ds hd hret => by
        rw [Session.sites_proceed, hsites] at hd
        obtain ⟨rfl, -⟩ := List.cons.inj hd
        cases hret
      ledger := h.ledger.enterCall hr.head rfl }

/-- A transfer that waited makes way for another cleanup section. -/
theorem Suspends.sound_leaveTry {t : TryFrame} {rest : List Frame} {d : Deferred} {ds : List Deferred}
    {origin : Address} (m : Suspends origin goal ((s.leaveTry t rest).withDeferred ds) s') (h : s.Sound r)
    (hr : s.Running) (top : s.blocks = .guarded t :: rest) (deferred : s.deferred = d :: ds)
    (depth : d.depth = s.depth) (work : d.work = .transfer origin goal) (r' : Address) : s'.Sound r' := by
  obtain ⟨hl, hlr⟩ := h.leaveTry hr top deferred r
  have hsites : ((s.leaveTry t rest).withDeferred ds).sites = s.sites := s.sites_setBlocks _
  have hdepth : ((s.leaveTry t rest).withDeferred ds).depth = s.depth := s.depth_setBlocks _
  have hsuite : ((s.leaveTry t rest).withDeferred ds).suite = s.suite := s.suite_setBlocks _
  refine m.sound hl hlr ?_ r'
  rintro origin' goal' ⟨⟩
  have := h.ledger.carried d (deferred ▸ List.mem_cons_self) _ _ work
  rwa [depth, ← hsites, ← hsuite, ← hdepth] at this

/-- Another transfer takes the place of the newest work. -/
theorem Session.Sound.replace (h : s.Sound r) (hr : s.Running) {d : Deferred} {ds : List Deferred}
    (transfers : s.Transfers a goal) (deferred : s.deferred = d :: ds) (leaves : s.leavesCleanup d goal)
    (v : Namespace) (r' : Address) :
    ((s.withDeferred ({ d with work := .transfer a goal } :: ds)).proceed none v).Sound r' := by
  have hf : (s.withDeferred ({ d with work := .transfer a goal } :: ds)).Fitted := ⟨h.nested, h.fits, h.counted⟩
  have hledger : Ledger s.suite s.sites (d :: ds) := deferred ▸ h.ledger
  refine h.of_sites hr (hf.proceed none v) rfl rfl (hledger.replace ?_) r'
  rintro origin goal' ⟨⟩
  refine ⟨transfers.carries, fun hg => ?_⟩
  have := (transfers.carried default a goal rfl).2 hg
  rwa [Session.depth_eq_of_leavesCleanup leaves (by rw [hg]; decide)] at this

/-- **Moves keep sessions sound.** -/
theorem Move.sound {x : Except Fault Unit} (m : Move a s x s') (hready : s.Ready) (h : s.Sound a) :
    s'.Sound (s'.pending.getD a.next) := by
  have hr := hready.runs h
  have hf := h.toFitted
  have hgo {bs : List Frame} (hf : (s.setBlocks bs).Fitted) (p? : Option Address) (v : Namespace)
      (r' : Address) : ((s.setBlocks bs).proceed p? v).Sound r' :=
    h.goOn hr hf (s.kept_setBlocks bs) (s.sites_setBlocks bs) p? v r'
  -- the constructs inside the innermost loop are left
  have hloop {l : LoopFrame} {rest : List Frame} (top : s.blocks.drop s.insideLoop = .loop l :: rest)
      (l' : LoopFrame) (opener : l'.opener = l.opener) (saved : l'.saved = l.saved)
      (source : l'.source = l.source) (p? : Option Address) (v : Namespace) (r' : Address) :
      (((s.drop s.insideLoop).setBlocks (.loop l' :: rest)).proceed p? v).Sound r' :=
    h.goOn hr ((hf.drop _).setLoop ((s.blocks_drop _).trans top) l' opener saved fun _ => source ▸ id)
      ((s.kept_drop _).trans (Session.kept_setBlocks _ _)) ((Session.sites_setBlocks _ _).trans (s.sites_drop _))
      p? v r'
  cases m with
  | stay | skipHandler | skipFunction => exact h.goOn hr hf (Session.Kept.refl s) rfl _ _ _
  | jump => exact hgo (hf.jump _) _ _ _
  | enter fits opener noTry => exact hgo (hf.push fits noTry) _ _ _
  | enterTry fits =>
    exact h.goOn hr (hf.enterTry fits) (s.kept_enterTry _) (s.sites_setBlocks _) _ _ _
  | branch top at_ open_ opener untried =>
    exact hgo (hf.setTop top ((hf.top top).conditional opener untried) rfl) _ _ _
  | leave top noTry closer => exact h.goOn hr (hf.drop 1) (s.kept_drop 1) (s.sites_drop 1) _ _ _
  | reachFinally top at_ active => exact hgo (hf.enterCleanup top active) _ _ _
  | closeTry top =>
    exact h.goOn hr (hf.leaveTry top) (s.kept_leaveTry _ _) (s.sites_setBlocks _) _ _ _
  | rethrow top closer active deferred =>
    obtain ⟨hl, hlr⟩ := h.leaveTry hr top deferred a
    exact hl.goOn hlr hl.toFitted (Session.Kept.refl _) rfl _ _ _
  | resume resumes =>
    obtain ⟨hl, hlr⟩ := h.leaveTry hr resumes.top resumes.deferred a
    exact hl.goOn hlr hl.toFitted (Session.Kept.refl _) rfl _ _ _
  | resuspend top closer active deferred resumeAt depth work suspends =>
    exact suspends.sound_leaveTry h hr top deferred depth work _
  | @repeat_ l rest top =>
    exact hgo (hf.setLoop top { l with reentering := true } rfl rfl fun _ => id) _ _ _
  | again top at_ reentering opener saved done part binds =>
    exact hgo (hf.setLoop top _ opener saved binds) _ _ _
  | replace transfers deferred leaves => exact h.replace hr transfers deferred leaves _ _
  | suspend transfers stays suspends => exact suspends.sound h hr (transfers.carried _) _
  | @breakLoop l rest e v transfers stays clear top =>
    exact hloop top { l with complete := true } rfl rfl rfl _ _ _
  | @continueLoop l rest v transfers stays clear top =>
    exact hloop top { l with reentering := true } rfl rfl rfl _ _ _
  | adrift => exact h.goOn hr (hf.drop _) (s.kept_drop _) (s.sites_drop _) _ _ _
  | returnFrom transfers stays clear call => exact h.returnFrom hr stays call _
  | exit =>
    have hexit : ({ s with exitRequested := true } : Session).Fitted := ⟨h.nested, h.fits, h.counted⟩
    exact h.of_sites hr (hexit.proceed _ _) rfl rfl h.ledger _
  | enterCall keyword opens names => exact h.enterCall hr keyword opens names _

theorem Suspends.kept {origin : Address} (m : Suspends origin goal s s') :
    s'.suite = s.suite ∧ s'.current = s.current ∧ s'.exitRequested = s.exitRequested := by
  obtain ⟨clean, blocks, owes, hsection⟩ := m
  rename_i k n t rest p v
  have hk := ((s.kept_abortCalls k).trans (Session.kept_drop _ n)).trans
    (Session.kept_setBlocks _ (.guarded t.enterCleanup :: rest))
  exact ⟨hk.suite, hk.current, hk.exitRequested⟩

/-- Moves keep the suite, and the command that is current.  A run is asked to end only where no cleanup
section is owed. -/
theorem Move.kept {x : Except Fault Unit} (m : Move a s x s') : s'.suite = s.suite ∧
    s'.current = s.current ∧ (s'.exitRequested = s.exitRequested ∨
      x = .ok () ∧ s.cleanup? .exit = none ∧ s'.frames = s.frames) := by
  have hgo {u : Session} (hk : s.Kept u) (p? : Option Address) (v : Namespace) :
      (u.proceed p? v).suite = s.suite ∧ (u.proceed p? v).current = s.current ∧
        ((u.proceed p? v).exitRequested = s.exitRequested ∨
          x = .ok () ∧ s.cleanup? .exit = none ∧ (u.proceed p? v).frames = s.frames) :=
    ⟨hk.suite, hk.current, .inl hk.exitRequested⟩
  cases m with
  | stay | skipHandler | skipFunction | replace | enterCall => exact ⟨rfl, rfl, .inl rfl⟩
  | exit transfers stays clear => exact ⟨rfl, rfl, .inr ⟨rfl, clear, rfl⟩⟩
  | jump | enter | branch | reachFinally | repeat_ | again => exact hgo (s.kept_setBlocks _) _ _
  | enterTry => exact hgo (s.kept_enterTry _) _ _
  | leave => exact hgo (s.kept_drop 1) _ _
  | closeTry => exact hgo (s.kept_leaveTry _ _) _ _
  | @rethrow t rest | @resume t rest =>
    have hk := s.kept_leaveTry t rest
    exact ⟨hk.suite, hk.current, .inl hk.exitRequested⟩
  | @resuspend t rest _ _ _ _ _ top closer active deferred resumeAt depth work suspends =>
    obtain ⟨hsuite, hcurrent, hexit⟩ := suspends.kept
    have hl := s.kept_leaveTry t rest
    exact ⟨hsuite.trans hl.suite, hcurrent.trans hl.current, .inl (hexit.trans hl.exitRequested)⟩
  | suspend transfers stays suspends =>
    obtain ⟨hsuite, hcurrent, hexit⟩ := suspends.kept
    exact ⟨hsuite, hcurrent, .inl hexit⟩
  | breakLoop | continueLoop =>
    exact hgo ((s.kept_drop _).trans (Session.kept_setBlocks _ _)) _ _
  | adrift => exact hgo (s.kept_drop _) _ _
  | returnFrom transfers stays clear call => exact hgo (Session.kept_markReturning call) _ _

/-- A command that fails ends no call. -/
theorem Move.sites_of_error {f : Fault} (m : Move a s (.error f) s') : s'.sites = s.sites := by
  cases m with
  | stay => rfl
  | enter | branch | again => exact s.sites_setBlocks _
  | rethrow => exact s.sites_setBlocks _
  | adrift => exact s.sites_drop _

/-- What is left of the deferred work where a try meets with a fault. -/
theorem Session.Sound.ledger_relieve (h : s.Sound r) (hr : s.Running) {k n : Nat} {t : TryFrame}
    {rest : List Frame} (hreach : s.Reaches k n t rest) :
    Ledger s.suite (s.sites.drop k) (((s.abortCalls k).drop n).relieve t.opener).deferred := by
  have hsub := ((s.abortCalls k).drop n).relieve_sublist t.opener
  refine h.ledger.cut hr ?_ fun d hd => ?_
  · rw [← hreach.kept.deferred]
    exact hsub.trans (Session.pruneDeferred_sublist _)
  · have := Session.depth_le_of_mem_pruneDeferred _ (hsub.subset hd)
    rwa [Session.depth_eq_sites, Session.sites_drop, Session.sites_abortCalls] at this

/-- A fault waits for a try of the innermost call. -/
theorem Session.Sound.ledger_detain (h : s.Sound r) (hr : s.Running) {k n : Nat} {t : TryFrame}
    {rest : List Frame} (hreach : s.Reaches k n t rest) (f : Fault) :
    Ledger s.suite (s.sites.drop k)
      ((((s.abortCalls k).drop n).relieve t.opener).defer (.fault f) t.opener).deferred := by
  refine (h.ledger_relieve hr hreach).cons
    (fun c hc => hr c (List.mem_of_mem_drop (List.mem_of_mem_head? hc))) ?_ nofun
  change ((s.abortCalls k).drop n).depth = _
  rw [Session.depth_eq_sites, Session.sites_drop, Session.sites_abortCalls]

/-- **A fault that a try handles** leaves the session sound. -/
theorem Offer.sound {g : Setting} {f : Fault} (o : Offer g f s .handled s') (h : s.Sound r)
    (hr : s.Running) (r' : Address) : s'.Sound r' := by
  have hmain {k n : Nat} {t t' : TryFrame} {rest : List Frame} (hreach : s.Reaches k n t rest)
      (hfits : Frame.Fits s.suite (.guarded t')) (hactive : t'.isActive) {ds : List Deferred}
      (hds : Ledger s.suite (s.sites.drop k) ds) (p? : Option Address) (v : Namespace) :
      (((((s.abortCalls k).drop n).withDeferred ds).setBlocks (.guarded t' :: rest)).proceed p? v).Sound
        r' := by
    have hu : (((s.abortCalls k).drop n).withDeferred ds).Fitted := by
      have := (h.toFitted.abortCalls k).drop n
      exact ⟨this.nested, this.fits, this.counted⟩
    have hk := hreach.kept
    have hset := (((s.abortCalls k).drop n).withDeferred ds).kept_setBlocks (.guarded t' :: rest)
    refine h.of_drop hr ((hu.setTop hreach.blocks ?_ ?_).proceed p? v) ?_ (k := k) ?_ ?_ r'
    · rw [Session.suite_withDeferred, hk.suite]
      exact hfits
    · exact hactive.trans hreach.active.symm
    · exact hset.suite.trans hk.suite
    · rw [Session.sites_proceed, Session.sites_setBlocks]
      exact (Session.sites_drop _ _).trans (Session.sites_abortCalls _ _)
    · rw [Session.deferred_proceed, hset.deferred]
      exact hds
  cases o with
  | @caught k n t rest p v catchable reaches catches message =>
    exact hmain reaches (h.fits _ reaches.mem_frames).enterHandler rfl (h.ledger_relieve hr reaches) _ _
  | @cleaned k n t rest p v catchable reaches uncaught section_ uncleaned =>
    exact hmain reaches (h.fits _ reaches.mem_frames).enterCleanup rfl (h.ledger_detain hr reaches f) _ _
  | @passed k n t rest e v catchable reaches uncaught done nesting closer =>
    exact hmain reaches (h.fits _ reaches.mem_frames) reaches.active (h.ledger_detain hr reaches f) _ _

/-- The caller of a call that has ended goes on. -/
theorem Session.Sound.finishCall (h : s.Sound r) {c : Call} {calls : List Call}
    (hcs : s.sites = c :: calls) (hret : c.returning = true) (v : Namespace) (r' : Address) :
    (s.abortCall.withVars v).Sound r' ∧ (s.abortCall.withVars v).Running := by
  have hsites : (s.abortCall.withVars v).sites = calls := by
    rw [Session.sites_withVars]
    have := s.sites_abortCalls 1
    rwa [hcs] at this
  have hf := h.toFitted.abortCall
  have hrun : ∀ d ∈ calls, d.returning = false := fun d hd => h.running d (by rw [hcs]; exact hd)
  refine ⟨⟨⟨hf.nested, hf.fits, hf.counted⟩, ?_, ?_, ?_, ?_⟩, fun d hd => hrun d (hsites ▸ hd)⟩
  · intro d hd
    rw [hsites] at hd
    exact s.kept_abortCall.suite ▸ h.calls d (by rw [hcs]; exact List.mem_cons_of_mem _ hd)
  · intro d hd
    rw [hsites] at hd
    exact hrun d (List.mem_of_mem_tail hd)
  · intro d ds hd hret'
    rw [hsites] at hd
    rw [hrun d (by rw [hd]; exact List.mem_cons_self)] at hret'
    cases hret'
  · rw [hsites, Session.suite_withVars, Session.deferred_withVars, s.kept_abortCall.suite,
      s.kept_abortCall.deferred]
    exact (hcs ▸ h.ledger).finishCall hret hrun

end

end BlockFlow.Flow
