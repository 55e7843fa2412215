/-
# The innermost call

What a command does to the constructs of the call that is running, as long as no call begins or ends.
`Session.Restacks` says which constructs there are afterwards.  If constructs are left and one of the
others goes on, then that is innermost: a conditional at one of its branches, a try in its cleanup section,
a loop at its opener or its closer.  `Session.Turns` says what they have in common, and `Suite.GoesOn`
where in the construct the run is then.
-/
import BlockFlow.Proofs.Moments

namespace BlockFlow

/-- **Where the run goes on** inside a construct: at a part of it, at its opener, or behind the command,
which is the opener or a part before the closer. -/
inductive Suite.GoesOn (s : Suite) (o a : Address) : Option Address → Prop
  | part {p : Address} (isPart : s.IsPart o p) : s.GoesOn o a (some p)
  | opener : s.GoesOn o a (some o)
  | next (at_ : o = a ∨ s.IsPart o a ∧ ¬s.Construct o a) : s.GoesOn o a none

/-- At a part if there is one to go to, and otherwise behind the command. -/
theorem Suite.GoesOn.of_part {s : Suite} {o a : Address} (at_ : o = a ∨ s.IsPart o a ∧ ¬s.Construct o a)
    {p? : Option Address} (part : ∀ p, p? = some p → s.IsPart o p) : s.GoesOn o a p? := by
  cases p? with
  | none => exact .next at_
  | some p => exact .part (part p rfl)

/-- Unless it is at the opener the run is inside the construct. -/
theorem Suite.GoesOn.spans {s : Suite} {o a : Address} {p? : Option Address} {n : Nature}
    (h : s.GoesOn o a p?) (hn : s.Nested) (ho : s.Opens n o) :
    p? = some o ∨ s.Spans o (p?.getD a.next) := by
  cases h with
  | part isPart => exact .inr (hn.spans_of_isPart isPart)
  | opener => exact .inl rfl
  | next at_ =>
    rcases at_ with rfl | ⟨hpart, hopen⟩
    · exact .inr (hn.spans_from_opener ho nofun)
    · exact .inr (hn.spans_from_part hpart hopen nofun)

/-- No part of a construct is its opener. -/
theorem Suite.Nested.part_ne {s : Suite} (hn : s.Nested) {n : Nature} {o p : Address} (ho : s.Opens n o)
    (hp : s.IsPart o p) : p ≠ o := by
  obtain ⟨e, he⟩ := hn.exists_construct_of_opens ho
  exact (hp.ne_opener he).symm

namespace Flow

/-! ## 1. Sections of tries -/

/-- A cleanup section is part of its try. -/
theorem isPart_of_finallyOf? {suite : Suite} (hn : suite.Nested) {f : Frame} (hf : f.Fits suite)
    {q : Address} (hq : finallyOf? suite f.opener = some q) : suite.IsPart f.opener q := by
  obtain ⟨b, hb, hbq⟩ := Option.bind_eq_some_iff.1 hq
  refine hn.isPart_of_mem (k := .finallyDo) hb ?_ (by simpa [Block.partsOf] using hbq)
  rw [hf.nature_eq hb]
  rfl

/-- A cleanup section begins with its command. -/
theorem keywordAt?_of_finallyOf? {suite : Suite} (hn : suite.Nested) {f : Frame} (hf : f.Fits suite)
    {q : Address} (hq : finallyOf? suite f.opener = some q) : suite.keywordAt? q = some .finallyDo := by
  obtain ⟨b, hb, hbq⟩ := Option.bind_eq_some_iff.1 hq
  have hnat : b.nature?.isSome := by
    rw [hf.nature_eq hb]
    rfl
  obtain ⟨c, hc, hck, -⟩ := hn.part hb hnat (k := .finallyDo) (by simpa [Block.partsOf] using hbq)
  rw [hn.keyword hc, hck]

/-- A handler begins with its command. -/
theorem keywordAt?_of_catchOf? {suite : Suite} (hn : suite.Nested) {f : Frame} (hf : f.Fits suite)
    {q : Address} (hq : catchOf? suite f.opener = some q) : suite.keywordAt? q = some .catchError := by
  obtain ⟨b, hb, hbq⟩ := Option.bind_eq_some_iff.1 hq
  have hnat : b.nature?.isSome := by
    rw [hf.nature_eq hb]
    rfl
  obtain ⟨c, hc, hck, -⟩ := hn.part hb hnat (k := .catchError) (by simpa [Block.partsOf] using hbq)
  rw [hn.keyword hc, hck]

/-! ## 2. Constructs that go on -/

/-- The order of the sections of a try. -/
def TryPhase.rank : TryPhase → Nat
  | .trying => 0
  | .catching => 1
  | .finallying => 2

/-- A try goes forward, and does not forget what it has done. -/
structure TryFrame.Advances (t t' : TryFrame) : Prop where
  opener : t'.opener = t.opener
  phase : ∀ p, t.phase = some p → ∃ p', t'.phase = some p' ∧ p.rank ≤ p'.rank
  idle : t.phase = none → t'.phase = none
  caught : t.caught = true → t'.caught = true
  body : t'.phase = some .trying → t'.caught = t.caught
  cleaned : t.cleaned = true → t'.cleaned = true

theorem TryFrame.Advances.enterCleanup {t : TryFrame} (h : t.isActive) : t.Advances t.enterCleanup where
  opener := rfl
  phase p _ := ⟨.finallying, rfl, by cases p <;> decide⟩
  idle hnone := by simp [TryFrame.isActive, hnone] at h
  caught := id
  body := by rintro ⟨⟩
  cleaned _ := rfl

theorem TryFrame.Advances.enterHandler {t : TryFrame} (h : t.phase = some .trying) :
    t.Advances t.enterHandler where
  opener := rfl
  phase p hp := ⟨.catching, rfl, by cases hp.symm.trans h; decide⟩
  idle hnone := by cases h.symm.trans hnone
  caught _ := rfl
  body := by rintro ⟨⟩
  cleaned := id

/-- A construct goes on. -/
inductive Frame.Advances : Frame → Frame → Prop
  | conditional {c c' : IfFrame} (opener : c'.opener = c.opener) :
      Frame.Advances (.conditional c) (.conditional c')
  | loop {l l' : LoopFrame} (opener : l'.opener = l.opener) : Frame.Advances (.loop l) (.loop l')
  | guarded {t t' : TryFrame} (advances : t.Advances t') : Frame.Advances (.guarded t) (.guarded t')

/-! ## 3. Other constructs in the same call -/

section

variable {s s' : Session} {a : Address} {f f' : Frame} {rest bs : List Frame} {p? : Option Address} {v : Namespace}

theorem Session.Fitted.blocks (h : s.Fitted) : ∀ f ∈ s.blocks, f.Fits s.suite :=
  fun f hf => h.fits f (List.mem_append_left _ hf)

theorem Session.Fitted.insideLoop (h : s.Fitted) {f : Frame} {rest : List Frame}
    (hs : s.blocks.drop s.insideLoop = f :: rest) : f.Fits s.suite :=
  h.blocks f (List.mem_of_mem_drop (hs ▸ List.mem_cons_self))

/-- The stacks of a session whose innermost constructs change. -/
theorem Session.blockStacks_of_outer (hb : s'.blocks = bs) (ho : s'.outer = s.outer) :
    s'.blockStacks = bs :: s.outer.map Level.blocks := by
  rw [Session.blockStacks_eq, hb, ho]

/-- **The innermost call is restacked**: these are its constructs now, and nothing else of the calls has
changed. -/
structure Session.Restacks (s : Session) (bs : List Frame) (s' : Session) : Prop where
  blocks : s'.blocks = bs
  outer : s'.outer = s.outer
  callee : s'.callee? = s.callee?

namespace Session.Restacks

theorem refl : s.Restacks s.blocks s := ⟨rfl, rfl, rfl⟩

theorem setBlocks (bs : List Frame) : s.Restacks bs (s.setBlocks bs) :=
  ⟨s.blocks_setBlocks bs, s.outer_setBlocks bs, s.callee?_setBlocks bs⟩

theorem drop (n : Nat) : s.Restacks (s.blocks.drop n) (s.drop n) :=
  ⟨s.blocks_drop n, s.outer_drop n, s.callee?_drop n⟩

theorem tail (top : s.blocks = f :: rest) : s.Restacks rest (s.drop 1) := by
  have := drop (s := s) 1
  rwa [top] at this

theorem leaveTry (t : TryFrame) (rest : List Frame) : s.Restacks rest (s.leaveTry t rest) :=
  ⟨s.blocks_setBlocks rest, s.outer_setBlocks rest, s.callee?_setBlocks rest⟩

theorem enterTry (t : TryFrame) : s.Restacks (.guarded t :: s.blocks) (s.enterTry t) :=
  ⟨s.blocks_setBlocks _, s.outer_setBlocks _, s.callee?_setBlocks _⟩

theorem markReturning {c : Call} {calls : List Call} (hc : s.calls = c :: calls) : s.Restacks [] s.markReturning where
  blocks := Session.blocks_markReturning hc
  outer := Session.outer_markReturning hc
  callee := by rw [Session.markReturning_eq hc, Session.callee?, Session.callee?, hc]; rfl

theorem trans {t : Session} {cs : List Frame} (h : s.Restacks cs t) (h' : t.Restacks bs s') : s.Restacks bs s' :=
  ⟨h'.blocks, h'.outer.trans h.outer, h'.callee.trans h.callee⟩

theorem withDeferred (h : s.Restacks bs s') (ds : List Deferred) : s.Restacks bs (s'.withDeferred ds) :=
  ⟨h.blocks, h.outer, h.callee⟩

theorem proceed (h : s.Restacks bs s') (p? : Option Address) (v : Namespace) : s.Restacks bs (s'.proceed p? v) :=
  ⟨h.blocks, h.outer, h.callee⟩

/-- The stacks of all calls afterwards. -/
theorem blockStacks (h : s.Restacks bs s') : s'.blockStacks = bs :: s.outer.map Level.blocks :=
  Session.blockStacks_of_outer h.blocks h.outer

end Session.Restacks

/-- **The innermost construct is left** by its closer. -/
structure Session.Closes (s : Session) (a : Address) (f : Frame) (rest : List Frame) (s' : Session) : Prop where
  top : s.blocks = f :: rest
  closer : s.suite.Construct f.opener a
  after : s.Restacks rest s'

namespace Session.Closes

theorem of_leaveTry {t : TryFrame} (top : s.blocks = .guarded t :: rest) (closer : s.suite.Construct t.opener a) :
    s.Closes a (.guarded t) rest (s.leaveTry t rest) := ⟨top, closer, .leaveTry t rest⟩

theorem withDeferred (h : s.Closes a f rest s') (ds : List Deferred) : s.Closes a f rest (s'.withDeferred ds) :=
  ⟨h.top, h.closer, h.after.withDeferred ds⟩

theorem proceed (h : s.Closes a f rest s') (p? : Option Address) (v : Namespace) :
    s.Closes a f rest (s'.proceed p? v) := ⟨h.top, h.closer, h.after.proceed p? v⟩

end Session.Closes

/-! ## 4. One of the constructs goes on -/

/-- **A construct of the innermost call goes on**, after those inside it were left, none of which owes its
cleanup section.  A try goes on behind its command, and only a loop that is to begin another pass goes on
at its opener. -/
structure Session.Turns (s : Session) (a : Address) (above : List Frame) (f f' : Frame) (rest : List Frame)
    (s' : Session) : Prop where
  before : s.blocks = above ++ f :: rest
  after : s.Restacks (f' :: rest) s'
  opener : f'.opener = f.opener
  fits : f'.Fits s.suite
  advances : f.Advances f'
  cleaned : ∀ t, f' = .guarded t → t.cleaned = true
  noneOwe : NoneOwe s.suite above
  goesOn : s.suite.GoesOn f.opener a s'.pending
  onward : ∀ t, f = .guarded t → s'.pending = none
  reenters : s'.pending = some f.opener → ∃ l, f' = .loop l ∧ l.reentering

/-- Nothing inside the innermost loop owes its cleanup section if a transfer to the loop is free to go. -/
theorem Session.noneOwe_insideLoop (clear : s.cleanup? .loop = none) : NoneOwe s.suite (s.blocks.take s.insideLoop) := by
  rw [← s.takeWhile_insideLoop]
  exact (Session.cleanup?_eq_none_iff.1 clear).1

namespace Session.Turns

theorem branch {c c' : IfFrame} (hf : s.Fitted) (top : s.blocks = .conditional c :: rest)
    (at_ : s.suite.IsPart c.opener a) (open_ : ¬s.suite.Construct c.opener a) (opener : c'.opener = c.opener)
    (untried : ∀ p ∈ c'.untried, p ∈ c.untried) (part : ∀ p, p? = some p → s.suite.IsPart c.opener p) :
    s.Turns a [] (.conditional c) (.conditional c') rest
      ((s.setBlocks (.conditional c' :: rest)).proceed p? v) where
  before := top
  after := (Restacks.setBlocks _).proceed p? v
  opener := opener
  fits := (hf.top top).conditional opener untried
  advances := .conditional opener
  cleaned := nofun
  noneOwe := nofun
  goesOn := .of_part (.inr ⟨at_, open_⟩) part
  onward := nofun
  reenters hp := absurd rfl (hf.nested.part_ne (hf.top top).1 (part _ hp))

theorem reachFinally {t : TryFrame} (hf : s.Fitted) (top : s.blocks = .guarded t :: rest)
    (at_ : finallyOf? s.suite t.opener = some a) (active : t.isActive) :
    s.Turns a [] (.guarded t) (.guarded t.enterCleanup) rest
      ((s.setBlocks (.guarded t.enterCleanup :: rest)).proceed none v) where
  before := top
  after := (Restacks.setBlocks _).proceed none v
  opener := rfl
  fits := (hf.top top).enterCleanup
  advances := .guarded (.enterCleanup active)
  cleaned := by rintro _ ⟨⟩; rfl
  noneOwe := nofun
  goesOn := .next (.inr ⟨isPart_of_finallyOf? hf.nested (hf.top top) at_,
    hf.nested.not_construct (keywordAt?_of_finallyOf? hf.nested (hf.top top) at_) rfl⟩)
  onward _ _ := rfl
  reenters := nofun

theorem repeat_ {l : LoopFrame} (hf : s.Fitted) (top : s.blocks = .loop l :: rest) :
    s.Turns a [] (.loop l) (.loop { l with reentering := true }) rest
      ((s.setBlocks (.loop { l with reentering := true } :: rest)).proceed (some l.opener) v) where
  before := top
  after := (Restacks.setBlocks _).proceed _ v
  opener := rfl
  fits := (hf.top top).loop rfl rfl fun _ => id
  advances := .loop rfl
  cleaned := nofun
  noneOwe := nofun
  goesOn := .opener
  onward := nofun
  reenters _ := ⟨_, rfl, rfl⟩

theorem again {l l' : LoopFrame} (hf : s.Fitted) (top : s.blocks = .loop l :: rest) (at_ : l.opener = a)
    (opener : l'.opener = l.opener) (saved : l'.saved = l.saved) (part : ∀ p, p? = some p → s.suite.IsPart a p)
    (binds : ∀ name, l'.source.Binds name → l.source.Binds name) :
    s.Turns a [] (.loop l) (.loop l') rest ((s.setBlocks (.loop l' :: rest)).proceed p? v) where
  before := top
  after := (Restacks.setBlocks _).proceed p? v
  opener := opener
  fits := (hf.top top).loop opener saved binds
  advances := .loop opener
  cleaned := nofun
  noneOwe := nofun
  goesOn := .of_part (.inl at_) (at_ ▸ part)
  onward := nofun
  reenters hp := by
    subst at_
    exact absurd rfl (hf.nested.part_ne (hf.top top).1 (part _ hp))

theorem breakLoop {l : LoopFrame} {e : Address} (hf : s.Fitted) (clear : s.cleanup? .loop = none)
    (top : s.blocks.drop s.insideLoop = .loop l :: rest) (closer : s.suite.Construct l.opener e) :
    s.Turns a (s.blocks.take s.insideLoop) (.loop l) (.loop { l with complete := true }) rest
      (((s.drop s.insideLoop).setBlocks (.loop { l with complete := true } :: rest)).proceed (some e) v) where
  before := Session.take_insideLoop top
  after := ((Restacks.drop _).trans (Restacks.setBlocks _)).proceed _ v
  opener := rfl
  fits := (hf.insideLoop top).loop rfl rfl fun _ => id
  advances := .loop rfl
  cleaned := nofun
  noneOwe := Session.noneOwe_insideLoop clear
  goesOn := .part (hf.nested.isPart_closer closer)
  onward := nofun
  reenters hp := absurd (Option.some.inj hp)
    (hf.nested.part_ne (hf.insideLoop top).1 (hf.nested.isPart_closer closer))

theorem continueLoop {l : LoopFrame} (hf : s.Fitted) (clear : s.cleanup? .loop = none)
    (top : s.blocks.drop s.insideLoop = .loop l :: rest) :
    s.Turns a (s.blocks.take s.insideLoop) (.loop l) (.loop { l with reentering := true }) rest
      (((s.drop s.insideLoop).setBlocks (.loop { l with reentering := true } :: rest)).proceed
        (some l.opener) v) where
  before := Session.take_insideLoop top
  after := ((Restacks.drop _).trans (Restacks.setBlocks _)).proceed _ v
  opener := rfl
  fits := (hf.insideLoop top).loop rfl rfl fun _ => id
  advances := .loop rfl
  cleaned := nofun
  noneOwe := Session.noneOwe_insideLoop clear
  goesOn := .opener
  onward := nofun
  reenters _ := ⟨_, rfl, rfl⟩

end Session.Turns

end

end Flow

end BlockFlow
