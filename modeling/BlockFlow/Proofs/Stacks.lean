/-
# Stacks

The stacks of a session seen level by level, a level being the constructs that run in one call with
the address at which that call goes on: `Session.level` is the innermost one, and `Session.outer`
lists the others.  Replacing, dropping and aborting are described by what they do to the levels, and
`Session.Kept` says that they leave the rest alone.

`Session.Counted` is the meaning of the nesting counter: one less than the number of tries that take
part, over the constructs of every call.
-/
import BlockFlow.Proofs.Acting

namespace BlockFlow.Flow

/-! ## 1. Levels -/

/-- The constructs that run in one call. -/
structure Level where
  blocks : List Frame
  /-- The command that the call is at. -/
  place : Address
  /-- The function that is running, outside of every call none. -/
  callee : Option Address

/-- The levels of calls that go on at an address. -/
def levelsOf (base : List Frame) : List Call → Address → List Level
  | [], r => [⟨base, r, none⟩]
  | c :: calls, r => ⟨c.blocks, r, some c.callee⟩ :: levelsOf base calls c.returnTo

theorem length_levelsOf (base : List Frame) : ∀ (calls : List Call) (r : Address),
    (levelsOf base calls r).length = calls.length + 1
  | [], _ => rfl
  | c :: calls, _ => by rw [levelsOf, List.length_cons, length_levelsOf base calls, List.length_cons]

namespace Session

variable (s : Session)

/-- The levels around the innermost one. -/
def outer : List Level :=
  match s.calls with
  | [] => []
  | c :: calls => levelsOf s.base calls c.returnTo

/-- The innermost level, going on at an address. -/
def level (r : Address) : Level := ⟨s.blocks, r, s.callee?⟩

/-- Every level, innermost first. -/
def levels (r : Address) : List Level := s.level r :: s.outer

theorem levels_eq (r : Address) : s.levels r = levelsOf s.base s.calls r := by
  unfold levels level outer blocks callee?
  cases s.calls <;> rfl

theorem length_outer : s.outer.length = s.calls.length := by
  unfold outer
  cases s.calls with
  | nil => rfl
  | cons c calls => rw [length_levelsOf, List.length_cons]

theorem depth_eq : s.depth = s.outer.length + 1 := by rw [depth, length_outer]

theorem blockStacks_eq : s.blockStacks = s.blocks :: s.outer.map Level.blocks := by
  have h (base : List Frame) (calls : List Call) : ∀ r,
      (levelsOf base calls r).map Level.blocks = calls.map Call.blocks ++ [base] := by
    induction calls with
    | nil => exact fun _ => rfl
    | cons c calls ih => exact fun r => congrArg _ (ih c.returnTo)
  have := h s.base s.calls default
  rw [← levels_eq] at this
  exact this.symm

/-- The constructs of every call, innermost first. -/
def frames : List Frame := s.blocks ++ (s.outer.map Level.blocks).flatten

theorem mem_frames_iff {f : Frame} (r : Address) :
    f ∈ s.frames ↔ ∃ L ∈ s.levels r, f ∈ L.blocks := by
  simp only [frames, levels, level, List.mem_append, List.mem_flatten, List.mem_map, List.mem_cons,
    exists_eq_or_imp]
  exact or_congr_right ⟨fun ⟨_, ⟨L, hL, h⟩, hf⟩ => ⟨L, hL, h ▸ hf⟩, fun ⟨L, hL, hf⟩ => ⟨_, ⟨L, hL, rfl⟩, hf⟩⟩

theorem frames_eq : s.frames = s.blockStacks.flatten := by rw [blockStacks_eq, List.flatten_cons, frames]

/-! ## 2. What leaving constructs keeps -/

/-- The parts of a session that leaving constructs and calls keeps. -/
structure Kept (s t : Session) : Prop where
  suite : t.suite = s.suite
  deferred : t.deferred = s.deferred
  pending : t.pending = s.pending
  exitRequested : t.exitRequested = s.exitRequested
  current : t.current = s.current

theorem Kept.refl : Kept s s := ⟨rfl, rfl, rfl, rfl, rfl⟩

variable {s}

theorem Kept.trans {t u : Session} (h : Kept s t) (h' : Kept t u) : Kept s u :=
  ⟨h'.suite.trans h.suite, h'.deferred.trans h.deferred, h'.pending.trans h.pending,
    h'.exitRequested.trans h.exitRequested, h'.current.trans h.current⟩

variable (s)

theorem kept_setBlocks (bs : List Frame) : Kept s (s.setBlocks bs) := by
  unfold setBlocks
  cases s.calls <;> exact ⟨rfl, rfl, rfl, rfl, rfl⟩

@[simp] theorem suite_updateTop (f : Frame → Frame) : (s.updateTop f).suite = s.suite := by
  unfold updateTop
  split
  · rfl
  · exact s.suite_setBlocks _

theorem kept_discard (f : Frame) : Kept s (s.discard f) := by
  unfold discard
  split
  · exact Kept.refl s
  · exact ⟨rfl, rfl, rfl, rfl, rfl⟩
  · split
    · exact ⟨rfl, rfl, rfl, rfl, rfl⟩
    · exact Kept.refl s

theorem kept_discardAll (fs : List Frame) : Kept s (s.discardAll fs) := by
  induction fs generalizing s with
  | nil => exact Kept.refl s
  | cons f fs ih => exact (s.kept_discard f).trans (ih _)

theorem kept_drop (n : Nat) : Kept s (s.drop n) := (s.kept_setBlocks _).trans (kept_discardAll _ _)

theorem kept_abortCall : Kept s s.abortCall := by
  unfold abortCall
  split
  · exact Kept.refl s
  · rename_i c calls _
    exact (s.kept_discardAll c.blocks).trans ⟨rfl, rfl, rfl, rfl, rfl⟩

theorem kept_abortCalls (k : Nat) : Kept s (s.abortCalls k) := by
  induction k generalizing s with
  | zero => exact Kept.refl s
  | succ k ih => exact s.kept_abortCall.trans (ih _)

/-! ## 3. What leaving constructs does to the levels -/

@[simp] theorem outer_setBlocks (bs : List Frame) : (s.setBlocks bs).outer = s.outer := by
  unfold setBlocks outer
  cases h : s.calls <;> rfl

@[simp] theorem callee?_setBlocks (bs : List Frame) : (s.setBlocks bs).callee? = s.callee? := by
  unfold setBlocks callee?
  cases s.calls <;> simp

@[simp] theorem outer_withVars (v : Namespace) : (s.withVars v).outer = s.outer := rfl

@[simp] theorem outer_discardAll (fs : List Frame) : (s.discardAll fs).outer = s.outer := by
  unfold outer
  rw [calls_discardAll, base_discardAll]

@[simp] theorem callee?_discardAll (fs : List Frame) : (s.discardAll fs).callee? = s.callee? := by
  unfold callee?
  rw [calls_discardAll]

@[simp] theorem outer_drop (n : Nat) : (s.drop n).outer = s.outer := by
  rw [drop, outer_discardAll, outer_setBlocks]

@[simp] theorem callee?_drop (n : Nat) : (s.drop n).callee? = s.callee? := by
  rw [drop, callee?_discardAll, callee?_setBlocks]

/-- Ending the innermost call uncovers the level around it. -/
theorem levels_abortCall {L : Level} {post : List Level} (h : s.outer = L :: post) (r : Address) :
    s.abortCall.levels r = { L with place := r } :: post := by
  unfold outer at h
  unfold abortCall
  cases hc : s.calls with
  | nil =>
    rw [hc] at h
    cases h
  | cons c calls =>
    rw [hc] at h
    rw [levels_eq]
    dsimp only
    rw [base_discardAll]
    cases calls with
    | nil =>
      cases h
      rfl
    | cons d calls =>
      cases h
      rfl

/-- Ending calls uncovers the level around them. -/
theorem levels_abortCalls {pre post : List Level} {L : Level} : ∀ {s : Session} {r : Address},
    s.levels r = pre ++ L :: post → ∀ r', (s.abortCalls pre.length).levels r' =
      { L with place := r' } :: post := by
  induction pre with
  | nil =>
    intro s r h r'
    obtain ⟨rfl, rfl⟩ := List.cons.inj h
    rfl
  | cons M pre ih =>
    intro s r h r'
    obtain ⟨-, ho⟩ := List.cons.inj h
    cases pre with
    | nil => exact s.levels_abortCall ho r'
    | cons N pre =>
      refine ih (s := s.abortCall) (r := N.place) ?_ r'
      rw [s.levels_abortCall ho]
      rfl

/-- Ending calls and leaving constructs uncovers a construct of the level around them. -/
theorem levels_uncover {s : Session} {r : Address} {pre post : List Level} {L : Level}
    {above : List Frame} {rest : List Frame} (h : s.levels r = pre ++ L :: post)
    (hb : L.blocks = above ++ rest) (p : Address) :
    ((s.abortCalls pre.length).drop above.length).levels p = ⟨rest, p, L.callee⟩ :: post := by
  obtain ⟨hl, ho⟩ := List.cons.inj (levels_abortCalls h p)
  have hblocks : (s.abortCalls pre.length).blocks = L.blocks := congrArg Level.blocks hl
  have hcallee : (s.abortCalls pre.length).callee? = L.callee := congrArg Level.callee hl
  rw [levels, level, blocks_drop, callee?_drop, outer_drop, hblocks, hcallee, ho, hb, List.drop_left]

/-- Leaving constructs changes variables and the nesting counter only. -/
theorem discardAll_eq (fs : List Frame) : ∃ v, s.discardAll fs =
    { s with vars := v, nesting := (s.discardAll fs).nesting } := by
  induction fs generalizing s with
  | nil => exact ⟨s.vars, rfl⟩
  | cons f fs ih =>
    have hf : ∃ v, s.discard f = { s with vars := v, nesting := (s.discard f).nesting } := by
      cases f with
      | conditional c => exact ⟨s.vars, rfl⟩
      | loop l => exact ⟨s.vars.restore l.saved, rfl⟩
      | guarded t =>
        refine ⟨s.vars, ?_⟩
        unfold discard
        dsimp only
        split <;> rfl
    obtain ⟨v, hv⟩ := hf
    obtain ⟨w, hw⟩ := ih (s.discard f)
    refine ⟨w, ?_⟩
    rw [discardAll_cons, hw, hv]

/-! ## 4. The nesting counter -/

/-- **What the nesting counter counts.** -/
def Counted : Prop := s.nesting + 1 = (s.frames.countP Frame.isActiveTry : Int)

theorem nesting_discard (f : Frame) :
    (s.discard f).nesting = s.nesting - if f.isActiveTry then 1 else 0 := by
  cases f with
  | guarded t =>
    by_cases h : t.isActive <;> simp [discard, Frame.isActiveTry, h]
  | _ => simp [discard, Frame.isActiveTry]

theorem nesting_discardAll (fs : List Frame) :
    (s.discardAll fs).nesting = s.nesting - (fs.countP Frame.isActiveTry : Int) := by
  induction fs generalizing s with
  | nil => simp
  | cons f fs ih =>
    rw [discardAll_cons, ih, nesting_discard, List.countP_cons]
    split
    · simp
      omega
    · simp

theorem nesting_drop (n : Nat) :
    (s.drop n).nesting = s.nesting - ((s.blocks.take n).countP Frame.isActiveTry : Int) := by
  rw [drop, nesting_discardAll, nesting_setBlocks]

/-- Leaving the constructs of a call before ending it makes no difference. -/
theorem abortCall_drop (h : s.calls ≠ []) : (s.drop s.blocks.length).abortCall = s.abortCall := by
  obtain ⟨c, calls, hc⟩ := List.exists_cons_of_ne_nil h
  have hb : s.blocks = c.blocks := by rw [blocks, hc]
  have hset : s.setBlocks [] = { s with calls := { c with blocks := [] } :: calls } := by
    rw [setBlocks, hc]
  have hn : (discardAll { s with calls := { c with blocks := [] } :: calls } c.blocks).nesting =
      (s.discardAll c.blocks).nesting := by
    rw [nesting_discardAll, nesting_discardAll]
  obtain ⟨v, hv⟩ := discardAll_eq { s with calls := { c with blocks := [] } :: calls } c.blocks
  obtain ⟨w, hw⟩ := discardAll_eq s c.blocks
  rw [drop, List.drop_length, List.take_length, hset, hb, hv, hn]
  unfold abortCall
  rw [hc]
  dsimp only
  rw [discardAll_nil, hw]

theorem nesting_abortCall {L : Level} {post : List Level} (h : s.outer = L :: post) :
    s.abortCall.nesting = s.nesting - (s.blocks.countP Frame.isActiveTry : Int) := by
  unfold outer at h
  unfold abortCall blocks
  split
  · rename_i hc
    rw [hc] at h
    cases h
  · exact nesting_discardAll _ _

variable {s}

theorem blocks_abortCall {L : Level} {post : List Level} (h : s.outer = L :: post) :
    s.abortCall.blocks = L.blocks ∧ s.abortCall.outer = post ∧ s.abortCall.callee? = L.callee := by
  obtain ⟨hl, ho⟩ := List.cons.inj (s.levels_abortCall h default)
  exact ⟨congrArg Level.blocks hl, ho, congrArg Level.callee hl⟩

theorem Counted.withVars (h : s.Counted) (v : Namespace) : (s.withVars v).Counted := h

theorem Counted.setBlocks (h : s.Counted) {bs : List Frame}
    (hbs : bs.countP Frame.isActiveTry = s.blocks.countP Frame.isActiveTry) :
    (s.setBlocks bs).Counted := by
  unfold Counted frames at h ⊢
  rw [nesting_setBlocks, blocks_setBlocks, outer_setBlocks, List.countP_append, hbs, h,
    List.countP_append]

theorem Counted.drop (h : s.Counted) (n : Nat) : (s.drop n).Counted := by
  unfold Counted frames at h ⊢
  have hsplit : s.blocks.countP Frame.isActiveTry =
      (s.blocks.take n).countP Frame.isActiveTry + (s.blocks.drop n).countP Frame.isActiveTry := by
    rw [← List.countP_append, List.take_append_drop]
  rw [nesting_drop, blocks_drop, outer_drop, List.countP_append]
  rw [List.countP_append, hsplit] at h
  omega

theorem Counted.abortCall (h : s.Counted) : s.abortCall.Counted := by
  cases ho : s.outer with
  | nil =>
    have hc : s.calls = [] := List.length_eq_zero_iff.1 (by rw [← s.length_outer, ho]; rfl)
    rw [Session.abortCall, hc]
    exact h
  | cons L post =>
    obtain ⟨hb, ho', -⟩ := blocks_abortCall ho
    unfold Counted frames at h ⊢
    rw [nesting_abortCall s ho, hb, ho']
    rw [ho, List.map_cons, List.flatten_cons, List.countP_append] at h
    omega

theorem Counted.abortCalls (h : s.Counted) (k : Nat) : (s.abortCalls k).Counted := by
  induction k generalizing s with
  | zero => exact h
  | succ k ih => exact ih h.abortCall

/-- Something is left to handle a fault exactly if the counter is not negative. -/
theorem Counted.nesting_nonneg_iff (h : s.Counted) :
    0 ≤ s.nesting ↔ ∃ f ∈ s.frames, f.isActiveTry := by
  rw [← List.countP_pos_iff]
  unfold Counted at h
  omega

end Session

end BlockFlow.Flow
