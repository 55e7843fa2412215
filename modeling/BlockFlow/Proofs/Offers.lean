/-
# Offers

What becomes of a fault that is offered to the tries that are running.  The fault goes to the innermost
try that takes part, everything inside which is left: `Session.Reaches`.  `Offer` lists what that try
does with it, and `handleFault_offer` says that there is no other way.
-/
import Mathlib.Data.List.TakeWhile
import BlockFlow.Proofs.Ways

namespace BlockFlow.Flow

/-! ## 1. The innermost try -/

/-- The handler of the try opened at an address. -/
def catchOf? (suite : Suite) (o : Address) : Option Address := (suite.blockAt? o).bind Block.catchAt

namespace Session

/-- The innermost try that takes part, inside which a number of calls and, in its own call, a number of
constructs are running. -/
structure Reaches (s : Session) (k n : Nat) (t : TryFrame) (rest : List Frame) : Prop where
  active : t.isActive
  levels : ∀ r, ∃ pre L post above, s.levels r = pre ++ L :: post ∧ pre.length = k ∧
    L.blocks = above ++ .guarded t :: rest ∧ above.length = n ∧
    (∀ f ∈ above, f.isActiveTry = false) ∧ ∀ M ∈ pre, ∀ f ∈ M.blocks, f.isActiveTry = false

variable {s : Session} {k n : Nat} {t : TryFrame} {rest : List Frame}

theorem Reaches.blocks (h : s.Reaches k n t rest) :
    ((s.abortCalls k).drop n).blocks = .guarded t :: rest := by
  obtain ⟨pre, L, post, above, hlev, rfl, hb, rfl, -⟩ := h.levels default
  exact congrArg Level.blocks (List.cons.inj (levels_uncover hlev hb default)).1

theorem Reaches.mem_frames (h : s.Reaches k n t rest) : .guarded t ∈ s.frames := by
  obtain ⟨pre, L, post, above, hlev, rfl, hb, rfl, -⟩ := h.levels default
  refine (s.mem_frames_iff default).2 ⟨L, ?_, ?_⟩
  · rw [hlev]
    simp
  · rw [hb]
    simp

/-- The constructs around the innermost try that takes part, over every call. -/
theorem Reaches.countP (h : s.Reaches k n t rest) :
    ((s.abortCalls k).drop n).frames.countP Frame.isActiveTry = s.frames.countP Frame.isActiveTry := by
  obtain ⟨pre, L, post, above, hlev, rfl, hb, rfl, ha, hpre⟩ := h.levels default
  have hzero {fs : List Frame} (hfs : ∀ f ∈ fs, f.isActiveTry = false) :
      fs.countP Frame.isActiveTry = 0 := List.countP_eq_zero.2 fun f hf => by simp [hfs f hf]
  have hframes (s : Session) : s.frames = ((s.levels default).map Level.blocks).flatten := rfl
  rw [hframes, hframes, levels_uncover hlev hb default, hlev]
  have hinner : ((pre.map Level.blocks).flatten).countP Frame.isActiveTry = 0 := by
    refine hzero fun f hf => ?_
    obtain ⟨fs, hfs, hf⟩ := List.mem_flatten.1 hf
    obtain ⟨M, hM, rfl⟩ := List.mem_map.1 hfs
    exact hpre M hM f hf
  simp only [List.map_append, List.map_cons, List.flatten_append, List.flatten_cons, hb,
    List.countP_append, hinner, hzero ha]
  omega

/-- A call has an innermost try that takes part, or none at all. -/
theorem dropToTry_cases (s : Session) :
    (∃ n t rest, s.Reaches 0 n t rest ∧ s.dropToTry = s.drop n) ∨
      ((∀ f ∈ s.blocks, f.isActiveTry = false) ∧ s.dropToTry = s.drop s.blocks.length) := by
  have hsplit := List.takeWhile_append_dropWhile (p := fun f : Frame => !f.isActiveTry) (l := s.blocks)
  have hinside : ∀ f ∈ s.blocks.takeWhile (fun f => !f.isActiveTry), f.isActiveTry = false :=
    fun f hf => by simpa using List.mem_takeWhile_imp hf
  cases hd : s.blocks.dropWhile fun f => !f.isActiveTry with
  | nil =>
    rw [hd, List.append_nil] at hsplit
    rw [hsplit] at hinside
    exact .inr ⟨hinside, by rw [dropToTry, hsplit]⟩
  | cons f rest =>
    have hf : f.isActiveTry := by
      have := List.head_dropWhile_not (p := fun f : Frame => !f.isActiveTry) (l := s.blocks)
        (by rw [hd]; exact List.cons_ne_nil _ _)
      simpa [hd] using this
    cases f with
    | conditional c => cases hf
    | loop l => cases hf
    | guarded t =>
      rw [hd] at hsplit
      exact .inl ⟨_, t, rest, ⟨hf, fun r => ⟨[], s.level r, s.outer, _, rfl, rfl, hsplit.symm, rfl,
        hinside, nofun⟩⟩, rfl⟩

/-- A try of the call around a call without tries. -/
theorem Reaches.of_abortCall {L : Level} {post : List Level} (ho : s.outer = L :: post)
    (hs : ∀ f ∈ s.blocks, f.isActiveTry = false) (h : s.abortCall.Reaches k n t rest) :
    s.Reaches (k + 1) n t rest := by
  refine ⟨h.active, fun r => ?_⟩
  obtain ⟨pre, M, post', above, hlev, rfl, hb, rfl, ha, hpre⟩ := h.levels L.place
  rw [s.levels_abortCall ho] at hlev
  refine ⟨s.level r :: pre, M, post', above, ?_, rfl, hb, rfl, ha, ?_⟩
  · rw [List.cons_append, ← hlev, ← ho]
    rfl
  · rintro N hN
    rcases List.mem_cons.1 hN with rfl | hN
    · exact hs
    · exact hpre N hN

theorem unwindThrough_eq : ∀ {calls : List Call} {s : Session}, s.calls = calls → s.Counted →
    0 ≤ s.nesting → ∃ k n t rest, s.Reaches k n t rest ∧
      s.unwindThrough calls = (some t.opener, (s.abortCalls k).drop n) := by
  intro calls
  induction calls with
  | nil =>
    intro s hcs hc hn
    rcases s.dropToTry_cases with ⟨n, t, rest, hr, hd⟩ | ⟨hall, -⟩
    · refine ⟨0, n, t, rest, hr, ?_⟩
      rw [unwindThrough, hd, show (s.drop n).blocks = .guarded t :: rest from hr.blocks]
      rfl
    · obtain ⟨f, hf, hact⟩ := hc.nesting_nonneg_iff.1 hn
      rw [frames, outer, hcs, List.map_nil, List.flatten_nil, List.append_nil] at hf
      cases (hall f hf).symm.trans hact
  | cons c calls ih =>
    intro s hcs hc hn
    rcases s.dropToTry_cases with ⟨n, t, rest, hr, hd⟩ | ⟨hall, hd⟩
    · refine ⟨0, n, t, rest, hr, ?_⟩
      rw [unwindThrough, hd, show (s.drop n).blocks = .guarded t :: rest from hr.blocks]
      rfl
    · have hne : s.calls ≠ [] := by
        rw [hcs]
        exact List.cons_ne_nil _ _
      obtain ⟨L, post, ho⟩ : ∃ L post, s.outer = L :: post := by
        refine List.exists_cons_of_ne_nil fun h => hne (List.length_eq_zero_iff.1 ?_)
        rw [← s.length_outer, h]
        rfl
      -- the call has no try that takes part, so the counter is the same without it
      have hzero : s.blocks.countP Frame.isActiveTry = 0 :=
        List.countP_eq_zero.2 fun f hf => by simp [hall f hf]
      have hdropn : (s.drop s.blocks.length).nesting = s.nesting := by
        rw [nesting_drop, List.take_length, hzero]
        omega
      have habortn : s.abortCall.nesting = s.nesting := by
        rw [nesting_abortCall s ho, hzero]
        omega
      obtain ⟨k, n, t, rest, hr, hu⟩ := ih (s := s.abortCall) (by rw [calls_abortCall, hcs]; rfl)
        hc.abortCall (by rw [habortn]; exact hn)
      refine ⟨k + 1, n, t, rest, hr.of_abortCall ho hall, ?_⟩
      rw [unwindThrough, hd, blocks_drop, List.drop_length]
      simp only [List.head?_nil]
      rw [hdropn, if_neg (by omega), abortCall_drop s hne, hu]
      rfl

/-- **A fault goes to the innermost try** that takes part. -/
theorem unwindToTry_eq (hc : s.Counted) (hn : 0 ≤ s.nesting) : ∃ k n t rest, s.Reaches k n t rest ∧
    s.unwindToTry = (some t.opener, (s.abortCalls k).drop n) := unwindThrough_eq rfl hc hn

/-! ## 2. What a try does with a fault -/

/-- The fault with the reference of the command that runs, unless it has one. -/
def blame (s : Session) (f : Fault) : Fault :=
  match s.current with
  | some a => f.attach (s.suite.commandRef a)
  | none => f

/-- The session without the deferred work of a try of its innermost call, and of those that are no
longer running. -/
def relieve (s : Session) (a : Address) : Session := s.pruneDeferred.forgetDeferred a

/-- The session whose innermost construct is a try, as it stands after a fault was offered to it. -/
def withTry (s : Session) (t : TryFrame) (rest : List Frame) : Session :=
  (s.relieve t.opener).setBlocks (.guarded t :: rest)

/-- The session in which a fault waits for the closer of the innermost construct, a try. -/
def detain (s : Session) (f : Fault) (t : TryFrame) (rest : List Frame) : Session :=
  ((s.relieve t.opener).defer (.fault f) t.opener).setBlocks (.guarded t :: rest)

theorem forgetDeferred_setBlocks (s : Session) (a : Address) (bs : List Frame) :
    (s.setBlocks bs).forgetDeferred a = (s.forgetDeferred a).setBlocks bs := by
  unfold forgetDeferred
  rw [deferred_setBlocks, depth_setBlocks]
  unfold setBlocks
  cases s.calls <;> rfl

end Session

section

open BlockFlow.Flow.Action

variable {g : Setting} {s : Session}

/-- The pattern of a handler can always be told. -/
theorem catches_ok (g : Setting) (message : String) (p : Address) (s : Session) :
    ∃ b, (catches g message p s).1 = .ok b := by
  have htext (target : String) : (handlerText g target).Ends s fun r _ => ∃ text, r = .ok text := by
    unfold handlerText
    split
    · exact ⟨target, rfl⟩
    · rw [ends_tryCatch, ends_bind]
      refine (OnlyVars.evaluate g target).ends fun r v => ?_
      cases r with
      | ok a => exact ⟨a.display, rfl⟩
      | error e => exact ⟨target, rfl⟩
  have : (catches g message p).Ends s fun r _ => ∃ b, r = .ok b := by
    unfold catches
    rw [ends_bind, ends_ask]
    dsimp only
    generalize Text.trim (((s.suite.commandAt? p).map Command.target).getD "") = target
    split
    · exact ⟨true, rfl⟩
    · rw [ends_bind]
      refine (htext _).mono ?_
      rintro r t ⟨text, rfl⟩
      exact ⟨_, rfl⟩
  exact this

/-- Whether a try is ready to catch a fault: it is in its body, has a handler, and the handler's
pattern fits. -/
def Session.Catches (g : Setting) (f : Fault) (s : Session) (t : TryFrame) (p : Address) : Prop :=
  catchOf? s.suite t.opener = some p ∧ t.phase = some .trying ∧ t.caught = false ∧
    (catches g f.message p s).1 = .ok true

/-- **What becomes of a fault** that the command at an address fails with. -/
inductive Offer (g : Setting) (f : Fault) (s : Session) : Disposition → Session → Prop
  /-- The fault cannot be caught, or no try takes part. -/
  | refused (why : f.isCatchable = false ∨ s.nesting < 0) : Offer g f s (.unhandled f) s
  | caught {k n : Nat} {t : TryFrame} {rest : List Frame} {p : Address} {v : Namespace}
      (catchable : f.isCatchable) (reaches : s.Reaches k n t rest)
      (catches : ((s.abortCalls k).drop n).pruneDeferred.Catches g f t p)
      (message : v.get? Namespace.errorName = some (.text f.message)) :
      Offer g f s .handled
        ((((s.abortCalls k).drop n).withTry t.enterHandler rest).proceed (some p) v)
  /-- The fault waits for the cleanup section, which was not entered. -/
  | cleaned {k n : Nat} {t : TryFrame} {rest : List Frame} {p : Address} {v : Namespace}
      (catchable : f.isCatchable) (reaches : s.Reaches k n t rest)
      (uncaught : ∀ q, ¬((s.abortCalls k).drop n).pruneDeferred.Catches g f t q)
      (section_ : finallyOf? s.suite t.opener = some p) (uncleaned : t.cleaned = false) :
      Offer g f s .handled
        ((((s.abortCalls k).drop n).detain f t.enterCleanup rest).proceed (some p) v)
  /-- The fault goes on from the closer. -/
  | passed {k n : Nat} {t : TryFrame} {rest : List Frame} {e : Address} {v : Namespace}
      (catchable : f.isCatchable) (reaches : s.Reaches k n t rest)
      (uncaught : ∀ q, ¬((s.abortCalls k).drop n).pruneDeferred.Catches g f t q)
      (done : finallyOf? s.suite t.opener = none ∨ t.cleaned = true)
      (nesting : 0 < s.nesting) (closer : s.suite.Construct t.opener e) :
      Offer g f s .handled
        ((((s.abortCalls k).drop n).detain f t rest).proceed (some e) v)
  /-- The fault has passed the outermost try. -/
  | spent {k n : Nat} {t : TryFrame} {rest : List Frame} {v : Namespace}
      (catchable : f.isCatchable) (reaches : s.Reaches k n t rest)
      (uncaught : ∀ q, ¬((s.abortCalls k).drop n).pruneDeferred.Catches g f t q)
      (done : finallyOf? s.suite t.opener = none ∨ t.cleaned = true) (nesting : s.nesting = 0) :
      Offer g f s (.unhandled f)
        (((((s.abortCalls k).drop n).detain f t rest).withDeferred []).withVars v)

/-- The session in which a try has everything inside it left keeps what the suite and the counter
say. -/
theorem Session.Reaches.kept {k n : Nat} {t : TryFrame} {rest : List Frame}
    (_ : s.Reaches k n t rest) : s.Kept ((s.abortCalls k).drop n) :=
  (s.kept_abortCalls k).trans (Session.kept_drop _ n)

theorem Session.Reaches.nesting {k n : Nat} {t : TryFrame} {rest : List Frame}
    (h : s.Reaches k n t rest) (hc : s.Counted) : ((s.abortCalls k).drop n).nesting = s.nesting := by
  have hu : ((s.abortCalls k).drop n).Counted := (hc.abortCalls k).drop n
  unfold Session.Counted at hc hu
  rw [h.countP] at hu
  omega

/-- Sending a fault on from the innermost construct, a try. -/
theorem passOn_ends {Q : Except Fault Disposition → Session → Prop} {f : Fault} {t : TryFrame}
    {rest : List Frame} {b : Block} (hs : s.blocks = .guarded t :: rest) (hb : s.suite.blockAt? t.opener = some b)
    (hn : s.suite.Nested) (hnat : b.nature?.isSome) (hnesting : 0 ≤ s.nesting)
    (hcleaned : ∀ p, b.finallyAt = some p → t.cleaned = false → Q (.ok .handled)
      ((((s.forgetDeferred t.opener).defer (.fault f) t.opener).setBlocks
        (.guarded t.enterCleanup :: rest)).proceed (some p) s.vars))
    (hpassed : ∀ e, (b.finallyAt = none ∨ t.cleaned = true) → 0 < s.nesting →
      s.suite.Construct t.opener e → Q (.ok .handled)
        (((s.forgetDeferred t.opener).defer (.fault f) t.opener).proceed (some e) s.vars))
    (hspent : (b.finallyAt = none ∨ t.cleaned = true) → s.nesting = 0 → Q (.ok (.unhandled f))
      (((s.forgetDeferred t.opener).defer (.fault f) t.opener).withDeferred [])) :
    (passOn f t b).Ends s Q := by
  unfold passOn
  rw [ends_bind, ends_change]
  dsimp only
  split
  · rename_i p hp
    obtain ⟨hp, hcl⟩ := Option.filter_eq_some_iff.1 hp
    have hblocks : ((s.forgetDeferred t.opener).defer (.fault f) t.opener).blocks =
        .guarded t :: rest := hs
    rw [ends_bind, ends_change, Session.updateTry, Session.updateTop, hblocks]
    dsimp only
    rw [ends_pure, Session.branch_eq_proceed, Session.vars_setBlocks]
    exact hcleaned p hp (by simpa using hcl)
  · rename_i hp
    have hdone : b.finallyAt = none ∨ t.cleaned = true := by
      cases hf : b.finallyAt with
      | none => exact .inl rfl
      | some p =>
        rw [hf] at hp
        simpa using hp
    rw [ends_bind, ends_ask]
    dsimp only
    split
    · rename_i hpos
      obtain ⟨e, he⟩ := hn.closed hb hnat
      rw [ends_bind]
      exact Ends.goToPart he (hpassed e hdone hpos ⟨b, hb, hnat, he⟩)
    · rename_i hzero
      rw [ends_bind, ends_change]
      refine hspent hdone ?_
      have : ((s.forgetDeferred t.opener).defer (.fault f) t.opener).nesting = s.nesting := rfl
      omega

/-- The innermost try that takes part is a try of the suite. -/
theorem Session.Reaches.block (h : s.Fitted) {k n : Nat} {t : TryFrame} {rest : List Frame}
    (hr : s.Reaches k n t rest) : ∃ b, s.suite.blockAt? t.opener = some b ∧ b.nature?.isSome ∧
      finallyOf? s.suite t.opener = b.finallyAt ∧ catchOf? s.suite t.opener = b.catchAt := by
  obtain ⟨⟨b, hb, hnat⟩, -⟩ := h.fits _ hr.mem_frames
  change s.suite.blockAt? t.opener = some b at hb
  refine ⟨b, hb, by rw [hnat]; rfl, ?_, ?_⟩
  · rw [finallyOf?, hb]
    rfl
  · rw [catchOf?, hb]
    rfl

/-- A fault that the innermost try does not catch is sent on from it. -/
theorem passOn_offer (h : s.Fitted) {f : Fault} (hcatch : f.isCatchable) (hn : 0 ≤ s.nesting)
    {k n : Nat} {t : TryFrame} {rest : List Frame} (hr : s.Reaches k n t rest)
    (huncaught : ∀ q, ¬((s.abortCalls k).drop n).pruneDeferred.Catches g f t q) {b : Block}
    (hb : s.suite.blockAt? t.opener = some b) (v : Namespace) :
    (passOn f t b).Ends (((s.abortCalls k).drop n).pruneDeferred.withVars v)
      fun r s' => ∃ d, r = .ok d ∧ Offer g f s d s' := by
  obtain ⟨b', hb', hnat, hfin, -⟩ := hr.block h
  cases hb.symm.trans hb'
  have hk := hr.kept
  have hblocks := hr.blocks
  have hnesting := hr.nesting h.counted
  generalize hu : (s.abortCalls k).drop n = u at hk hblocks hnesting ⊢
  have hbu : u.suite.blockAt? t.opener = some b := by rw [hk.suite, hb]
  have hsame (f : Fault) : ((u.relieve t.opener).defer (.fault f) t.opener) = u.detain f t rest := by
    have hbs : ((u.relieve t.opener).defer (.fault f) t.opener).blocks = .guarded t :: rest := hblocks
    rw [Session.detain, ← hbs, Session.setBlocks_blocks]
  refine passOn_ends (s := u.pruneDeferred.withVars v) hblocks hbu (hk.suite ▸ h.nested) hnat
    (hnesting ▸ hn) ?_ ?_ ?_
  · intro p hp hcl
    refine ⟨_, rfl, ?_⟩
    have := Offer.cleaned (v := v) hcatch hr huncaught (hfin.trans hp) hcl
    rw [hu] at this
    rw [show ((u.pruneDeferred.withVars v).forgetDeferred t.opener).defer (.fault f) t.opener =
      ((u.relieve t.opener).defer (.fault f) t.opener).withVars v from rfl,
      Session.setBlocks_withVars]
    exact this
  · intro e hdone hpos he
    refine ⟨_, rfl, ?_⟩
    have := Offer.passed (v := v) hcatch hr huncaught (hfin ▸ hdone)
      (by rw [← hnesting]; exact hpos) (by rw [← hk.suite]; exact he)
    rw [hu, ← hsame] at this
    exact this
  · intro hdone hzero
    refine ⟨_, rfl, ?_⟩
    have := Offer.spent (v := v) hcatch hr huncaught (hfin ▸ hdone)
      (by rw [← hnesting]; exact hzero)
    rw [hu, ← hsame] at this
    exact this

/-- **Offering a fault to the innermost construct**: it is a try that catches the fault, or that sends it on
after its handler was asked, if it has one. -/
theorem catchOrPassOn_ends {Q : Except Fault Disposition → Session → Prop} {f : Fault} {o : Address}
    (ho : s.blocks.head?.map Frame.opener = some o)
    (hfail : (∀ t rest, s.blocks = .guarded t :: rest → s.suite.blockAt? t.opener = none) →
      ∀ e, Q (.error e) s.pruneDeferred)
    (hcaught : ∀ t rest p v, s.blocks = .guarded t :: rest → s.pruneDeferred.Catches g f t p →
      (catches g f.message p s.pruneDeferred).2 = s.pruneDeferred.withVars v → Q (.ok .handled)
        ((s.withTry t.enterHandler rest).proceed (some p) (v.insert Namespace.errorName (.text f.message))))
    (hmissed : ∀ t rest b v, s.blocks = .guarded t :: rest → s.suite.blockAt? t.opener = some b →
      (∀ p, ¬s.pruneDeferred.Catches g f t p) →
      (v = s.vars ∨ ∃ p, catchOf? s.suite t.opener = some p ∧
        (catches g f.message p s.pruneDeferred).2 = s.pruneDeferred.withVars v) →
      (passOn f t b).Ends (s.pruneDeferred.withVars v) Q) :
    (catchOrPassOn g f o).Ends s Q := by
  have hopener {t : TryFrame} {rest : List Frame} (hs : s.blocks = .guarded t :: rest) : t.opener = o := by
    rw [hs] at ho
    exact Option.some.inj ho
  unfold catchOrPassOn
  rw [ends_bind, ends_change]
  dsimp only
  rw [ends_bind]
  cases hb : s.suite.blockAt? o with
  | none => exact Ends.block_of_none hb fun e => hfail (fun t rest hs => hopener hs ▸ hb) e
  | some b =>
    refine Ends.block (s := s.pruneDeferred) hb ?_
    dsimp only
    rw [ends_bind, ends_ask]
    dsimp only
    split
    · rename_i t rest hs
      change s.blocks = .guarded t :: rest at hs
      obtain rfl := hopener hs
      have hcat : catchOf? s.suite t.opener = b.catchAt := by
        rw [catchOf?, hb]
        rfl
      split
      · rename_i p hp
        obtain ⟨hp, hready⟩ := Option.filter_eq_some_iff.1 hp
        simp only [Bool.and_eq_true, Bool.not_eq_true', beq_iff_eq] at hready
        obtain ⟨v, hv⟩ := OnlyVars.catches g f.message p s.pruneDeferred
        obtain ⟨fits, hfits⟩ := catches_ok g f.message p s.pruneDeferred
        rw [ends_bind, Ends, hv, hfits]
        cases fits with
        | true =>
          have htop : (s.pruneDeferred.withVars v).updateTry TryFrame.enterHandler =
              (s.pruneDeferred.setBlocks (.guarded t.enterHandler :: rest)).withVars v := by
            rw [Session.updateTry, Session.updateTop,
              show (s.pruneDeferred.withVars v).blocks = .guarded t :: rest from hs]
            dsimp only
            rw [Session.setBlocks_withVars]
          have hleft : (s.pruneDeferred.setBlocks (.guarded t.enterHandler :: rest)).forgetDeferred
              t.opener = s.withTry t.enterHandler rest := Session.forgetDeferred_setBlocks _ _ _
          have hready' := hcaught t rest p v hs ⟨hcat.trans hp, hready.2, hready.1, hfits⟩ hv
          rw [← hleft] at hready'
          dsimp only
          rw [if_pos rfl, ends_bind, ends_change, htop, Session.vars_withVars]
          exact hready'
        | false =>
          refine hmissed t rest b v hs hb ?_ (.inr ⟨p, hcat.trans hp, hv⟩)
          rintro q ⟨hq, -, -, hcq⟩
          cases hp.symm.trans (hcat.symm.trans hq)
          cases hfits.symm.trans hcq
      · rename_i hp
        refine hmissed t rest b s.vars hs hb ?_ (.inl rfl)
        rintro q ⟨hq, hphase, hcaught, -⟩
        rw [hcat.symm.trans hq] at hp
        simp [hphase, hcaught] at hp
    · rename_i hno
      exact hfail (fun t rest hs => absurd hs (hno t rest)) _

/-- The innermost try catches a fault or sends it on. -/
theorem catchOrPassOn_offer (h : s.Fitted) {f : Fault} (hcatch : f.isCatchable) (hn : 0 ≤ s.nesting)
    {k n : Nat} {t : TryFrame} {rest : List Frame} (hr : s.Reaches k n t rest) :
    (catchOrPassOn g f t.opener).Ends ((s.abortCalls k).drop n)
      fun r s' => ∃ d, r = .ok d ∧ Offer g f s d s' := by
  obtain ⟨b, hb, -⟩ := hr.block h
  refine catchOrPassOn_ends (by rw [hr.blocks]; rfl) (fun hnone => ?_) ?_ ?_
  · have := hnone t rest hr.blocks
    rw [hr.kept.suite, hb] at this
    cases this
  · intro t' rest' p v hs hcatches _
    cases hr.blocks.symm.trans hs
    exact ⟨_, rfl, .caught hcatch hr hcatches (by simp)⟩
  · intro t' rest' b' v hs hb' hmissed _
    cases hr.blocks.symm.trans hs
    exact passOn_offer h hcatch hn hr hmissed (hr.kept.suite ▸ hb') v

/-- **How a fault is dealt with** that a command reports: it is refused, no try takes part, or the innermost one
that takes part decides. -/
inductive Dealing (g : Setting) (f : Fault) (s : Session) : Disposition → Session → Prop
  | refused (why : f.isCatchable = false ∨ s.nesting < 0) : Dealing g f s (.unhandled f) s
  | untried {t : Session} (nesting : 0 ≤ s.nesting) (way : s.unwindToTry = (none, t)) :
      Dealing g f s (.unhandled f) t
  | decided {o : Address} {t u : Session} {d : Disposition} (catchable : f.isCatchable)
      (nesting : 0 ≤ s.nesting) (way : s.unwindToTry = (some o, t))
      (offer : catchOrPassOn g f o t = (.ok d, u)) : Dealing g f s d u
  | failed {o : Address} {t u : Session} {e : Fault} (catchable : f.isCatchable)
      (nesting : 0 ≤ s.nesting) (way : s.unwindToTry = (some o, t))
      (offer : catchOrPassOn g f o t = (.error e, u)) : Dealing g f s (.unhandled e) u

theorem handleFault_dealing (g : Setting) (f : Fault) (s : Session) :
    Dealing g (s.blame f) s (handleFault g f s).1 (handleFault g f s).2 := by
  unfold handleFault Session.blame
  generalize s.current = current
  cases current <;> dsimp only
  case' some a => generalize f.attach (s.suite.commandRef a) = f
  all_goals
    split
    · rename_i hwhy
      exact .refused (by simpa using hwhy)
    · rename_i hwhy
      simp only [Bool.or_eq_true, Bool.not_eq_true', decide_eq_true_eq, not_or, not_lt,
        Bool.not_eq_false] at hwhy
      rcases hway : s.unwindToTry with ⟨_ | o, t⟩
      · exact .untried hwhy.2 hway
      · rcases hoffer : catchOrPassOn g f o t with ⟨e | d, u⟩ <;> dsimp only <;> rw [hoffer]
        · exact .failed hwhy.1 hwhy.2 hway hoffer
        · exact .decided hwhy.1 hwhy.2 hway hoffer

/-- **Every fault meets with one of the offers** that are listed. -/
theorem handleFault_offer (g : Setting) (f : Fault) (h : s.Fitted) :
    Offer g (s.blame f) s (handleFault g f s).1 (handleFault g f s).2 := by
  have hdealing := handleFault_dealing g f s
  generalize handleFault g f s = x at hdealing ⊢
  obtain ⟨d, u⟩ := x
  dsimp only at hdealing ⊢
  have hreach (hn : 0 ≤ s.nesting) := s.unwindToTry_eq h.counted hn
  cases hdealing with
  | refused why => exact .refused why
  | untried nesting way =>
    obtain ⟨k, n, t, rest, -, hunwind⟩ := hreach nesting
    cases way.symm.trans hunwind
  | decided catchable nesting way offer =>
    obtain ⟨k, n, t, rest, hr, hunwind⟩ := hreach nesting
    cases way.symm.trans hunwind
    obtain ⟨d, hd, ho⟩ := catchOrPassOn_offer (g := g) h catchable nesting hr
    rw [offer] at hd ho
    cases hd
    exact ho
  | failed catchable nesting way offer =>
    obtain ⟨k, n, t, rest, hr, hunwind⟩ := hreach nesting
    cases way.symm.trans hunwind
    obtain ⟨d, hd, -⟩ := catchOrPassOn_offer (g := g) h catchable nesting hr
    rw [offer] at hd
    cases hd

/-- What a try does that handles a fault, and where the run goes on. -/
inductive TryFrame.Answers (suite : Suite) (t : TryFrame) : TryFrame → Address → Prop
  | handler {p : Address} (at_ : catchOf? suite t.opener = some p) (phase : t.phase = some .trying)
      (caught : t.caught = false) : t.Answers suite t.enterHandler p
  | cleanup {p : Address} (at_ : finallyOf? suite t.opener = some p) (cleaned : t.cleaned = false) :
      t.Answers suite t.enterCleanup p
  | closer {p : Address} (at_ : suite.Construct t.opener p)
      (done : finallyOf? suite t.opener = none ∨ t.cleaned = true) : t.Answers suite t p

/-- Offers keep the suite, and do not ask the run to end. -/
theorem Offer.kept {f : Fault} {d : Disposition} {s' : Session} (o : Offer g f s d s') :
    s'.suite = s.suite ∧ s'.exitRequested = s.exitRequested := by
  have hdetain {k n : Nat} {t t' : TryFrame} {rest : List Frame} (hreach : s.Reaches k n t rest) :
      (((s.abortCalls k).drop n).detain f t' rest).suite = s.suite ∧
        (((s.abortCalls k).drop n).detain f t' rest).exitRequested = s.exitRequested := by
    have hk := Session.kept_setBlocks
      ((((s.abortCalls k).drop n).relieve t'.opener).defer (.fault f) t'.opener) (.guarded t' :: rest)
    exact ⟨hk.suite.trans hreach.kept.suite, hk.exitRequested.trans hreach.kept.exitRequested⟩
  cases o with
  | refused => exact ⟨rfl, rfl⟩
  | @caught k n t rest p v catchable reaches =>
    have hk := (((s.abortCalls k).drop n).relieve t.opener).kept_setBlocks (.guarded t.enterHandler :: rest)
    rw [Session.suite_proceed, Session.exitRequested_proceed]
    exact ⟨hk.suite.trans reaches.kept.suite, hk.exitRequested.trans reaches.kept.exitRequested⟩
  | cleaned catchable reaches | passed catchable reaches =>
    rw [Session.suite_proceed, Session.exitRequested_proceed]
    exact hdetain reaches
  | spent catchable reaches =>
    rw [Session.suite_withVars, Session.suite_withDeferred]
    exact hdetain reaches

/-- The levels of a session whose constructs inside the innermost try were left. -/
theorem Session.Reaches.levels_setBlocks {s' : Session} {k n : Nat} {t : TryFrame} {f : Frame}
    {rest : List Frame} (h : s.Reaches k n t rest) (hs' : ∀ q, s'.levels q =
      ⟨f :: rest, q, ((s.abortCalls k).drop n).callee?⟩ :: ((s.abortCalls k).drop n).outer) (r : Address) :
    ∃ pre L post above, s.levels r = pre ++ L :: post ∧ L.blocks = above ++ .guarded t :: rest ∧
      (∀ q, s'.levels q = ⟨f :: rest, q, L.callee⟩ :: post) ∧
      (∀ f ∈ above, f.isActiveTry = false) ∧ ∀ M ∈ pre, ∀ f ∈ M.blocks, f.isActiveTry = false := by
  obtain ⟨pre, L, post, above, hlev, rfl, hb, rfl, habove, hpre⟩ := h.levels r
  refine ⟨pre, L, post, above, hlev, hb, fun q => ?_, habove, hpre⟩
  obtain ⟨hl, ho⟩ := List.cons.inj (Session.levels_uncover hlev hb q)
  have hcallee : ((s.abortCalls pre.length).drop above.length).callee? = L.callee :=
    congrArg Level.callee hl
  rw [hs', hcallee, ho]

/-- The levels of a session in which a fault was handled. -/
theorem Offer.levels {f : Fault} {s' : Session} (o : Offer g f s .handled s') (r : Address) :
    ∃ pre L post above t t' rest p, s.levels r = pre ++ L :: post ∧
      L.blocks = above ++ .guarded t :: rest ∧ t.isActive ∧ t.Answers s.suite t' p ∧
      s'.pending = some p ∧ (∀ q, s'.levels q = ⟨.guarded t' :: rest, q, L.callee⟩ :: post) ∧
      (∀ f ∈ above, f.isActiveTry = false) ∧ ∀ M ∈ pre, ∀ f ∈ M.blocks, f.isActiveTry = false := by
  have hmain {k n : Nat} {t t' : TryFrame} {rest : List Frame} {p : Address}
      (hreach : s.Reaches k n t rest) (ha : t.Answers s.suite t' p) (hp : s'.pending = some p)
      (hs' : ∀ q, s'.levels q = ⟨.guarded t' :: rest, q, ((s.abortCalls k).drop n).callee?⟩ ::
        ((s.abortCalls k).drop n).outer) :
      ∃ pre L post above t t' rest p, s.levels r = pre ++ L :: post ∧
        L.blocks = above ++ .guarded t :: rest ∧ t.isActive ∧ t.Answers s.suite t' p ∧
        s'.pending = some p ∧ (∀ q, s'.levels q = ⟨.guarded t' :: rest, q, L.callee⟩ :: post) ∧
        (∀ f ∈ above, f.isActiveTry = false) ∧ ∀ M ∈ pre, ∀ f ∈ M.blocks, f.isActiveTry = false := by
    obtain ⟨pre, L, post, above, hlev, hb, hlev', habove, hpre⟩ := hreach.levels_setBlocks hs' r
    exact ⟨pre, L, post, above, t, t', rest, p, hlev, hb, hreach.active, ha, hp, hlev', habove, hpre⟩
  cases o with
  | caught catchable reaches catches message =>
    obtain ⟨hp, hphase, hcaught, -⟩ := catches
    rw [show ((s.abortCalls _).drop _).pruneDeferred.suite = s.suite from reaches.kept.suite] at hp
    exact hmain reaches (.handler hp hphase hcaught) rfl fun q => Session.levels_setBlocks _ _ q
  | cleaned catchable reaches uncaught section_ uncleaned =>
    exact hmain reaches (.cleanup section_ uncleaned) rfl fun q => Session.levels_setBlocks _ _ q
  | passed catchable reaches uncaught done nesting closer =>
    exact hmain reaches (.closer closer done) rfl fun q => Session.levels_setBlocks _ _ q

end

end BlockFlow.Flow
