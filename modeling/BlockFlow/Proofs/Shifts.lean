/-
# Constructs that stay

A command takes frames off the stacks, and then puts one on, or changes the innermost one of those that
are left: `Shift` lists the three ways, and `Step.shift` says that there is no other one.  A construct
that is running therefore stays as it is until it is the innermost one, and then changes in one of the
ways of `Frame.Becomes`: this is `Session.Bears.step`, from `Shift.origin`.

`Meanwhile` is the part of a run up to the moment at which something ceases to hold.
-/
import BlockFlow.Proofs.Sections

namespace BlockFlow.Flow

/-! ## 1. What a command does to the stacks -/

/-- **How a command changes** the innermost construct, and where the run goes on. -/
inductive Frame.Becomes (suite : Suite) (a : Address) (p? : Option Address) : Frame → Frame → Prop
  /-- A branch of a conditional is reached. -/
  | branch {c c' : IfFrame} (at_ : suite.IsPart c.opener a) (opener : c'.opener = c.opener) :
      Becomes suite a p? (.conditional c) (.conditional c')
  | guarded {t t' : TryFrame} (advances : t.Advances t') : Becomes suite a p? (.guarded t) (.guarded t')
  /-- The closer of a loop, or a transfer to it, sends the run back to its opener. -/
  | sendBack {l : LoopFrame}
      (command : suite.Construct l.opener a ∨ (suite.keywordAt? a).bind goalOf? = some .loop)
      (goesOn : p? = some l.opener) : Becomes suite a p? (.loop l) (.loop { l with reentering := true })
  /-- The opener of a loop begins another pass, or ends the loop. -/
  | again {l l' : LoopFrame} (at_ : l.opener = a) (reentering : l.reentering = true)
      (opener : l'.opener = l.opener) (saved : l'.saved = l.saved) (done : l'.reentering = false) :
      Becomes suite a p? (.loop l) (.loop l')
  | complete {l : LoopFrame} {e : Address} (closer : suite.Construct l.opener e) (goesOn : p? = some e) :
      Becomes suite a p? (.loop l) (.loop { l with complete := true })

/-- **What a command does to the stacks**: constructs are left, one is entered, or constructs are left and
the innermost one of the others changes; a conditional changes only if it was innermost. -/
inductive Shift (suite : Suite) (a : Address) (p? : Option Address) :
    List (List Frame) → List (List Frame) → Prop
  | leave {A B : List (List Frame)} (left : List (Nat × Frame)) (placed : placed A = left ++ placed B) :
      Shift suite a p? A B
  | enter {f : Frame} {fs : List Frame} {fss : List (List Frame)} (opener : f.opener = a)
      (fresh : ∀ l, f = .loop l → l.reentering = false) : Shift suite a p? (fs :: fss) ((f :: fs) :: fss)
  | turn {A : List (List Frame)} {f f' : Frame} {fs : List Frame} {fss : List (List Frame)}
      (left : List (Nat × Frame)) (placed : placed A = left ++ placed ((f :: fs) :: fss))
      (innermost : (∃ c, f = .conditional c) → A = (f :: fs) :: fss) (becomes : f.Becomes suite a p? f') :
      Shift suite a p? A ((f' :: fs) :: fss)

section

variable {suite : Suite} {a : Address} {p? : Option Address} {A B : List (List Frame)} {s s' : Session}
  {f f' : Frame} {fs : List Frame}

theorem TryFrame.Advances.refl (t : TryFrame) : t.Advances t where
  opener := rfl
  phase p hp := ⟨p, hp, le_rfl⟩
  idle := id
  caught := id
  body _ := rfl
  cleaned := id

/-- Constructs of the innermost call are left. -/
theorem Shift.of_leave (left : List Frame) (hb : s.blocks = left ++ fs) (hr : s.Restacks fs s') :
    Shift suite a p? s.blockStacks s'.blockStacks := by
  refine .leave (left.map fun f => ((s.outer.map Level.blocks).length + 1, f)) ?_
  rw [s.blockStacks_eq, hb, placed_cons_append, hr.blockStacks]

/-- A construct of the innermost call goes on. -/
theorem Session.Turns.shift {above : List Frame} (h : s.Turns a above f f' fs s')
    (innermost : (∃ c, f = .conditional c) → above = []) (becomes : f.Becomes suite a p? f') :
    Shift suite a p? s.blockStacks s'.blockStacks := by
  rw [h.after.blockStacks]
  refine .turn (above.map fun f => ((s.outer.map Level.blocks).length + 1, f)) ?_ (fun hc => ?_) becomes
  · rw [s.blockStacks_eq, h.before, placed_cons_append]
  · rw [s.blockStacks_eq, h.before, innermost hc, List.nil_append]

/-- A construct is entered. -/
theorem Shift.of_enter (hr : s.Restacks (f :: s.blocks) s') (opener : f.opener = a)
    (fresh : ∀ l, f = .loop l → l.reentering = false) :
    Shift suite a p? s.blockStacks s'.blockStacks := by
  rw [hr.blockStacks, s.blockStacks_eq]
  exact .enter opener fresh

/-- The frames of a level, below some of them. -/
theorem Session.placed_of_levels {s : Session} {r : Address} {pre post : List Level} {L : Level}
    {above : List Frame} (h : s.levels r = pre ++ L :: post) (hb : L.blocks = above ++ fs) :
    ∃ left, placed s.blockStacks = left ++ placed (fs :: post.map Level.blocks) := by
  obtain ⟨left, hleft, -⟩ := exists_placed_append (pre.map Level.blocks) (L.blocks :: post.map Level.blocks)
  refine ⟨left ++ above.map fun f => ((post.map Level.blocks).length + 1, f), ?_⟩
  rw [s.blockStacks_eq_levels r, h, List.map_append, List.map_cons, hleft, hb, placed_cons_append,
    List.append_assoc]

theorem Suspends.shift {origin : Address} {goal : Goal} (h : Suspends origin goal s s') :
    ∃ t fs fss, t.isActive = true ∧ s'.blockStacks = (.guarded t.enterCleanup :: fs) :: fss ∧
      ∃ left, placed s.blockStacks = left ++ placed ((.guarded t :: fs) :: fss) := by
  obtain ⟨pre, L, post, above, t, rest, p, hlev, hb, howes, -, -, hlev', -⟩ := h.levels default
  refine ⟨t, rest, post.map Level.blocks, (TryFrame.owesCleanup_iff.1 howes).1, ?_,
    Session.placed_of_levels hlev hb⟩
  rw [s'.blockStacks_eq_levels default, hlev', List.map_cons]

/-- What a command that does not fail does to the stacks. -/
theorem Move.shift (m : Move a s (.ok ()) s') (h : s.Ready) :
    Shift s.suite a s'.pending s.blockStacks s'.blockStacks := by
  have hf := h.toFitted
  cases m with
  | stay | skipHandler | skipFunction | replace | exit | enterCall => exact .leave [] rfl
  | @jump goal v =>
    obtain ⟨left, hfs, -⟩ := exists_keepSpanning s.suite goal s.blocks
    exact .of_leave left hfs ((Session.Restacks.setBlocks _).proceed _ _)
  | enter fits opener noTry fresh =>
    exact .of_enter ((Session.Restacks.setBlocks _).proceed _ _) opener fresh
  | enterTry fits opener => exact .of_enter ((Session.Restacks.enterTry _).proceed _ _) opener nofun
  | branch top at_ open_ opener untried part =>
    exact (Session.Turns.branch hf top at_ open_ opener untried part).shift (fun _ => rfl) (.branch at_ opener)
  | reachFinally top at_ active =>
    exact (Session.Turns.reachFinally hf top at_ active).shift nofun (.guarded (.enterCleanup active))
  | repeat_ top closer => exact (Session.Turns.repeat_ hf top).shift nofun (.sendBack (.inl closer) rfl)
  | again top at_ reentering opener saved done part binds =>
    exact (Session.Turns.again hf top at_ opener saved part binds).shift nofun
      (.again at_ reentering opener saved done)
  | breakLoop transfers stays clear top closer =>
    exact (Session.Turns.breakLoop hf clear top closer).shift nofun (.complete closer rfl)
  | continueLoop transfers stays clear top =>
    exact (Session.Turns.continueLoop hf clear top).shift nofun (.sendBack (.inr transfers.carries) rfl)
  | @leave f rest v top => exact .of_leave [f] top ((Session.Restacks.tail top).proceed _ _)
  | @closeTry t rest v top => exact .of_leave [.guarded t] top ((Session.Restacks.leaveTry _ _).proceed _ _)
  | @resume t rest d ds origin goal v resumes =>
    exact .of_leave [.guarded t] resumes.top (((Session.Restacks.leaveTry _ _).withDeferred _).proceed _ _)
  | @resuspend t rest d ds origin goal _ top closer active deferred resumeAt depth work suspends =>
    obtain ⟨u, fs, fss, hact, hafter, left, hbefore⟩ := suspends.shift
    rw [hafter]
    refine .turn ((s.depth, .guarded t) :: left) ?_ (fun ⟨_, hc⟩ => nomatch hc) (.guarded (.enterCleanup hact))
    rw [List.cons_append, ← hbefore, ((Session.Restacks.leaveTry t rest).withDeferred ds).blockStacks,
      ← Session.placed_blockStacks top]
  | suspend transfers stays suspends =>
    obtain ⟨t, fs, fss, hact, hafter, left, hbefore⟩ := suspends.shift
    rw [hafter]
    exact .turn left hbefore (fun ⟨_, hc⟩ => nomatch hc) (.guarded (.enterCleanup hact))
  | returnFrom transfers stays clear call =>
    exact .of_leave s.blocks (List.append_nil _).symm ((Session.Restacks.markReturning call).proceed _ _)

/-- A try that is running after a command that failed was running before it. -/
theorem Move.placed_of_error {fault : Fault} (m : Move a s (.error fault) s') {t : TryFrame} {rest : List Frame}
    {post : List (List Frame)} {left : List (Nat × Frame)}
    (h : placed s'.blockStacks = left ++ placed ((.guarded t :: rest) :: post)) :
    ∃ left, placed s.blockStacks = left ++ placed ((.guarded t :: rest) :: post) := by
  have hleave (above : List Frame) {fs : List Frame} {left' : List (Nat × Frame)} (hb : s.blocks = above ++ fs)
      (hfs : placed (fs :: s.outer.map Level.blocks) = left' ++ placed ((.guarded t :: rest) :: post)) :
      ∃ left, placed s.blockStacks = left ++ placed ((.guarded t :: rest) :: post) :=
    ⟨_ ++ left', by rw [s.blockStacks_eq, hb, placed_cons_append, hfs, List.append_assoc]⟩
  -- the innermost frame, which is no try, is one of those that are left
  have hinner (above : List Frame) {fs : List Frame} {f' : Frame} (hr : s.Restacks (f' :: fs) s')
      (hnoTry : ∀ t, f' ≠ .guarded t) (hb : s.blocks = above ++ fs) :
      ∃ left, placed s.blockStacks = left ++ placed ((.guarded t :: rest) :: post) := by
    rw [Session.placed_blockStacks hr.blocks, hr.outer] at h
    cases left with
    | nil => exact absurd (Prod.mk.inj (List.cons.inj h).1).2 (hnoTry t)
    | cons x left => exact hleave above hb (List.cons.inj h).2
  cases m with
  | stay => exact ⟨left, h⟩
  | enter fits opener noTry =>
    exact hinner [] ((Session.Restacks.setBlocks _).proceed _ _) noTry rfl
  | @branch c c' _ _ _ _ top =>
    exact hinner [.conditional c] ((Session.Restacks.setBlocks _).proceed _ _) nofun top
  | @again l l' _ _ _ _ top =>
    exact hinner [.loop l] ((Session.Restacks.setBlocks _).proceed _ _) nofun top
  | @rethrow u rest' d ds _ v top =>
    rw [(((Session.Restacks.leaveTry u rest').withDeferred ds).proceed none v).blockStacks] at h
    exact hleave [.guarded u] top h
  | @adrift v =>
    rw [((Session.Restacks.drop s.blocks.length).proceed none v).blockStacks] at h
    exact hleave _ (List.take_append_drop _ _).symm h

/-- A fault that is handled leaves constructs, up to a try that takes part in the handling. -/
theorem Step.handled_turns {g : Setting} {f : Fault} (h : Step g a s (.handled f) s') :
    ∃ t t' fs fss left, placed s.blockStacks = left ++ placed ((.guarded t :: fs) :: fss) ∧
      s'.blockStacks = (.guarded t' :: fs) :: fss ∧ t.Advances t' := by
  cases h with
  | @handled f₀ _ t _ ready move same offer =>
    have hmain {k n : Nat} {u u' : TryFrame} {rest : List Frame} (hr : t.Reaches k n u rest)
        (hadv : u.Advances u') (hb' : s'.blocks = .guarded u' :: rest)
        (ho : s'.outer = ((t.abortCalls k).drop n).outer) :
        ∃ t t' fs fss left, placed s.blockStacks = left ++ placed ((.guarded t :: fs) :: fss) ∧
          s'.blockStacks = (.guarded t' :: fs) :: fss ∧ t.Advances t' := by
      obtain ⟨pre, L, post, above, hlev, rfl, hb, rfl, -⟩ := hr.levels default
      obtain ⟨left, hleft⟩ := Session.placed_of_levels hlev hb
      obtain ⟨left', hleft'⟩ := move.placed_of_error hleft
      have hout : ((t.abortCalls pre.length).drop above.length).outer = post :=
        (List.cons.inj (Session.levels_uncover hlev hb default)).2
      exact ⟨u, u', rest, post.map Level.blocks, left', hleft', by rw [s'.blockStacks_eq, hb', ho, hout], hadv⟩
    cases offer with
    | @caught k n u rest p v catchable reaches catches =>
      exact hmain reaches (.enterHandler catches.2.1) (Session.blocks_setBlocks _ _)
        (Session.outer_setBlocks _ _)
    | @cleaned k n u rest p v catchable reaches =>
      exact hmain reaches (.enterCleanup reaches.active) (Session.blocks_setBlocks _ _)
        (Session.outer_setBlocks _ _)
    | @passed k n u rest e v catchable reaches =>
      exact hmain reaches (.refl u) (Session.blocks_setBlocks _ _) (Session.outer_setBlocks _ _)

/-- **Every step shifts the stacks** in one of the ways of `Shift`. -/
theorem Step.shift {g : Setting} {x : StepResult} (h : Step g a s x s') (hx : ∀ f, x ≠ .unhandled f) :
    Shift s.suite a s'.pending s.blockStacks s'.blockStacks := by
  cases x with
  | done =>
    cases h with
    | @finish c calls v call returning =>
      obtain ⟨L, post, ho⟩ : ∃ L post, s.outer = L :: post := by
        refine List.exists_cons_of_ne_nil fun hnil => ?_
        have hlen := s.length_outer
        rw [Session.sites] at call
        have := congrArg List.length call
        rw [List.length_map, ← hlen, hnil] at this
        cases this
      refine .leave (s.blocks.map fun f => ((s.outer.map Level.blocks).length + 1, f)) ?_
      obtain ⟨hb, ho', -⟩ := Session.blocks_abortCall ho
      rw [s.blockStacks_eq, ho]
      change _ = _ ++ placed s.abortCall.blockStacks
      rw [s.abortCall.blockStacks_eq, hb, ho']
      rfl
    | move ready move => exact move.shift ready
  | handled f =>
    obtain ⟨t, t', fs, fss, left, hplaced, hafter, hadv⟩ := h.handled_turns
    rw [hafter]
    exact .turn left hplaced (by rintro ⟨_, ⟨⟩⟩) (.guarded hadv)
  | unhandled f => exact absurd rfl (hx f)

end

/-! ## 2. Constructs that are running -/

/-- A construct is on the stacks, with certain constructs below it in its call and in the calls around. -/
def Bears (A : List (List Frame)) (f : Frame) (rest : List Frame) (post : List (List Frame)) : Prop :=
  ∃ inner, placed A = inner ++ (post.length + 1, f) :: placed (rest :: post)

/-- A construct is running. -/
def Session.Bears (s : Session) (f : Frame) (rest : List Frame) (post : List (List Frame)) : Prop :=
  Flow.Bears s.blockStacks f rest post

section

variable {suite : Suite} {a : Address} {p? : Option Address} {A B : List (List Frame)} {s s' : Session}
  {f f' : Frame} {rest : List Frame} {post : List (List Frame)} {x : StepResult} {g : Setting}

theorem Bears.of_top (h : A = (f :: rest) :: post) : Bears A f rest post :=
  ⟨[], by rw [h]; rfl⟩

/-- There is one construct with certain constructs below it. -/
theorem Bears.unique (h : Bears A f rest post) (h' : Bears A f' rest post) : f = f' := by
  obtain ⟨inner, hA⟩ := h
  obtain ⟨inner', hA'⟩ := h'
  exact (Prod.mk.inj (List.cons.inj (List.append_inj_right' (hA.symm.trans hA') rfl)).1).2

/-- No construct is on the stacks that are below it. -/
theorem Bears.ne (h : Bears A f rest post) : A ≠ rest :: post := by
  rintro rfl
  obtain ⟨inner, hA⟩ := h
  have := congrArg List.length hA
  rw [List.length_append, List.length_cons] at this
  omega

/-- A construct below others is on the stacks below these. -/
theorem bears_of_placed {left : List (Nat × Frame)} (h : placed A = left ++ placed B) (hB : Bears B f rest post) :
    Bears A f rest post := by
  obtain ⟨inner, hB⟩ := hB
  exact ⟨left ++ inner, by rw [h, hB, List.append_assoc]⟩

theorem Bears.cons {y : Frame} {fs : List Frame} {fss : List (List Frame)} (h : Bears (fs :: fss) f rest post) :
    Bears ((y :: fs) :: fss) f rest post := by
  obtain ⟨inner, h⟩ := h
  exact ⟨_ :: inner, congrArg (List.cons _) h⟩

/-- A construct on the stacks is the innermost one, or is below it. -/
theorem Bears.top_or {y : Frame} {fs : List Frame} {fss : List (List Frame)}
    (h : Bears ((y :: fs) :: fss) f rest post) : y = f ∧ fs = rest ∧ fss = post ∨ Bears (fs :: fss) f rest post := by
  obtain ⟨inner, h⟩ := h
  have hcons : (fss.length + 1, y) :: placed (fs :: fss) =
      inner ++ (post.length + 1, f) :: placed (rest :: post) := h
  cases inner with
  | nil =>
    obtain ⟨hhead, htail⟩ := List.cons.inj hcons
    obtain ⟨hlen, rfl⟩ := Prod.mk.inj hhead
    obtain ⟨rfl, rfl⟩ := List.cons.inj (placed_inj htail (congrArg (· + 1) (Nat.succ.inj hlen)))
    exact .inl ⟨rfl, rfl, rfl⟩
  | cons x inner => exact .inr ⟨inner, (List.cons.inj hcons).2⟩

/-- A construct that is on the stacks splits them. -/
theorem bears_iff : Bears A f rest post ↔ ∃ pre above, A = pre ++ (above ++ f :: rest) :: post := by
  constructor
  · intro h
    induction A with
    | nil =>
      obtain ⟨inner, h⟩ := h
      exact absurd h (by simp [placed])
    | cons fs fss ih =>
      induction fs with
      | nil =>
        obtain ⟨pre, above, heq⟩ := ih h
        exact ⟨[] :: pre, above, congrArg (List.cons []) heq⟩
      | cons y fs ihf =>
        rcases h.top_or with ⟨rfl, rfl, rfl⟩ | h
        · exact ⟨[], [], rfl⟩
        · obtain ⟨_ | ⟨gs, pre⟩, above, heq⟩ := ihf h
          · obtain ⟨rfl, rfl⟩ := List.cons.inj heq
            exact ⟨[], y :: above, rfl⟩
          · obtain ⟨rfl, rfl⟩ := List.cons.inj heq
            exact ⟨(y :: fs) :: pre, above, rfl⟩
  · rintro ⟨pre, above, rfl⟩
    obtain ⟨left, hleft, -⟩ := exists_placed_append pre ((above ++ f :: rest) :: post)
    exact ⟨left ++ above.map fun g => (post.length + 1, g), by
      rw [hleft, placed_cons_append, List.append_assoc]
      rfl⟩

/-- A frame on the stacks is a construct that is running. -/
theorem exists_bears {left below : List (Nat × Frame)} {n : Nat} (h : placed A = left ++ (n, f) :: below) :
    ∃ rest post, Bears A f rest post ∧ n = post.length + 1 ∧ below = placed (rest :: post) := by
  induction A generalizing left with
  | nil => exact absurd h.symm (by simp [placed])
  | cons fs fss ih =>
    induction fs generalizing left with
    | nil =>
      obtain ⟨rest, post, ⟨inner, hbears⟩, hrest⟩ := ih h
      exact ⟨rest, post, ⟨inner, hbears⟩, hrest⟩
    | cons y fs ihf =>
      cases left with
      | nil =>
        obtain ⟨hhead, hbelow⟩ := List.cons.inj h
        obtain ⟨rfl, rfl⟩ := Prod.mk.inj hhead
        exact ⟨fs, fss, .of_top rfl, rfl, hbelow.symm⟩
      | cons x left =>
        obtain ⟨rest, post, hbears, hrest⟩ := ihf (List.cons.inj h).2
        exact ⟨rest, post, hbears.cons, hrest⟩

/-- A construct is in a call that is running. -/
theorem Session.Bears.depth_le (h : s.Bears f rest post) : post.length + 1 ≤ s.depth := by
  obtain ⟨inner, hplaced⟩ := h
  have hle : post.length + 1 ≤ s.blockStacks.length :=
    depth_le_of_mem_placed (x := (post.length + 1, f)) (hplaced ▸ List.mem_append_right _ List.mem_cons_self)
  rwa [Session.blockStacks_eq, List.length_cons, List.length_map, ← Session.depth_eq] at hle

/-- **Where a construct comes from** that is running after a command: it was running before, or it is
innermost and has been entered, or has changed. -/
theorem Shift.origin (h : Shift suite a p? A B) (hB : Bears B f' rest post) :
    Bears A f' rest post ∨ B = (f' :: rest) :: post ∧
      (A = rest :: post ∧ f'.opener = a ∧ (∀ l, f' = .loop l → l.reentering = false) ∨
        ∃ f, Bears A f rest post ∧ f.Becomes suite a p? f' ∧
          ((∃ c, f = .conditional c) → A = (f :: rest) :: post)) := by
  cases h with
  | leave left hplaced => exact .inl (bears_of_placed hplaced hB)
  | enter opener fresh =>
    rcases hB.top_or with ⟨rfl, rfl, rfl⟩ | hB
    · exact .inr ⟨rfl, .inl ⟨rfl, opener, fresh⟩⟩
    · exact .inl hB
  | turn left hplaced innermost becomes =>
    rcases hB.top_or with ⟨rfl, rfl, rfl⟩ | hB
    · exact .inr ⟨rfl, .inr ⟨_, ⟨left, hplaced⟩, becomes, innermost⟩⟩
    · exact .inl (bears_of_placed hplaced hB.cons)

/-- **A construct that is running stays as it is** until it is innermost. -/
theorem Session.Bears.step (h : s.Bears f rest post) (hstep : Step g a s x s') (hx : ∀ f, x ≠ .unhandled f)
    (h' : s'.Bears f' rest post) :
    f' = f ∨ f.Becomes s.suite a s'.pending f' ∧ s'.blockStacks = (f' :: rest) :: post ∧
      ((∃ c, f = .conditional c) → s.blockStacks = (f :: rest) :: post) := by
  rcases (hstep.shift hx).origin h' with hbefore | ⟨htop, ⟨hstacks, -⟩ | ⟨f₀, hbefore, hbecomes, hinner⟩⟩
  · exact .inl (hbefore.unique h)
  · exact absurd hstacks h.ne
  · cases hbefore.unique h
    exact .inr ⟨hbecomes, htop, hinner⟩

/-- A construct, no try, that is running after a fault was handled is below a try that was running before. -/
theorem Step.handled_below {k : Fault} (h : Step g a s (.handled k) s') (hf : ∀ t, f ≠ .guarded t)
    (hbears : s'.Bears f rest post) : ∃ t fs fss left, placed s.blockStacks =
      left ++ placed ((.guarded t :: fs) :: fss) ∧ Flow.Bears (fs :: fss) f rest post := by
  obtain ⟨t, t', fs, fss, left, hplaced, hafter, -⟩ := h.handled_turns
  rw [Session.Bears, hafter] at hbears
  rcases hbears.top_or with ⟨heq, -⟩ | hbelow
  · exact absurd heq.symm (hf t')
  · exact ⟨t, fs, fss, left, hplaced, hbelow⟩

/-- **A fault that is handled enters no construct** but sections of tries. -/
theorem Step.handled_enters_none {k : Fault} (h : Step g a s (.handled k) s') (hf : ∀ t, f ≠ .guarded t)
    (hbears : s'.Bears f rest post) : s.Bears f rest post := by
  obtain ⟨t, fs, fss, left, hplaced, hbelow⟩ := h.handled_below hf hbears
  exact bears_of_placed hplaced hbelow.cons

/-- **A fault that is handled leaves** the innermost construct, if it is no try. -/
theorem Step.handled_leaves {k : Fault} {f₀ : Frame} (h : Step g a s (.handled k) s')
    (top : s.blockStacks = (f₀ :: rest) :: post) (hf₀ : ∀ t, f₀ ≠ .guarded t) (hf : ∀ t, f ≠ .guarded t) :
    ¬s'.Bears f rest post := by
  intro hbears
  obtain ⟨t, fs, fss, left, hplaced, hbelow⟩ := h.handled_below hf hbears
  have hbefore : placed s.blockStacks = (post.length + 1, f₀) :: placed (rest :: post) := by rw [top]; rfl
  cases left with
  | nil => exact hf₀ t (Prod.mk.inj (List.cons.inj (hbefore.symm.trans hplaced)).1).2
  | cons x left => exact (bears_of_placed (List.cons.inj (hbefore.symm.trans hplaced)).2 hbelow.cons).ne rfl

end

/-! ## 3. Parts of runs -/

/-- **The part of a run up to a moment**, at all moments before which something holds. -/
inductive Meanwhile {σ : Type} (g : Setting) (host : Host σ) (P : Moment σ → Prop) :
    Moment σ → Moment σ → Prop
  | start {m : Moment σ} : Meanwhile g host P m m
  | step {m m' m'' : Moment σ} {x : StepResult} (before : Meanwhile g host P m m') (holds : P m')
      (advance : m'.advance g host = some (x, m'')) (handled : ∀ f, x ≠ .unhandled f)
      (goesOn : m''.session.exitRequested = false) : Meanwhile g host P m m''

section

variable {σ : Type} {g : Setting} {host : Host σ} {P : Moment σ → Prop} {m m₁ m₂ : Moment σ}

theorem Meanwhile.reachable (h : Meanwhile g host P m m₁) : Reachable g host m m₁ := by
  induction h with
  | start => exact .start
  | step before holds advance handled goesOn ih => exact .step ih advance handled goesOn

theorem Meanwhile.exists_after? (h : Meanwhile g host P m m₁) : ∃ n, m.after? g host n = some m₁ ∧
    ∀ i < n, ∃ m', m.after? g host i = some m' ∧ P m' := by
  induction h with
  | start => exact ⟨0, rfl, nofun⟩
  | step before holds advance handled goesOn ih =>
    obtain ⟨n, hn, hbefore⟩ := ih
    refine ⟨n + 1, after?_succ hn advance handled goesOn, fun i hi => ?_⟩
    rcases Nat.lt_succ_iff_lt_or_eq.1 hi with hi | rfl
    · exact hbefore i hi
    · exact ⟨_, hn, holds⟩

/-- A run comes to one moment at which something first ceases to hold. -/
theorem Meanwhile.unique (h₁ : Meanwhile g host P m m₁) (h₂ : Meanwhile g host P m m₂) (hn₁ : ¬P m₁)
    (hn₂ : ¬P m₂) : m₁ = m₂ := by
  obtain ⟨n₁, ha₁, hb₁⟩ := h₁.exists_after?
  obtain ⟨n₂, ha₂, hb₂⟩ := h₂.exists_after?
  rcases Nat.lt_trichotomy n₁ n₂ with hlt | rfl | hlt
  · obtain ⟨m', ha, hp⟩ := hb₂ n₁ hlt
    cases ha.symm.trans ha₁
    exact absurd hp hn₁
  · exact Option.some.inj (ha₁.symm.trans ha₂)
  · obtain ⟨m', ha, hp⟩ := hb₁ n₂ hlt
    cases ha.symm.trans ha₂
    exact absurd hp hn₂

end

end BlockFlow.Flow
