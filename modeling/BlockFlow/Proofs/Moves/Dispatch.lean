/-
# Every flow command moves its session

Calls, and the commands that change variables only.  `dispatch_move` puts all kinds of commands together.
-/
import BlockFlow.Proofs.Moves.Blocks
import BlockFlow.Proofs.Moves.Loops
import BlockFlow.Proofs.Moves.Transfers

namespace BlockFlow.Flow

section

open BlockFlow.Flow.Action

variable {g : Setting} {a : Address} {s : Session}

/-! ## 1. Calls -/

theorem reachCall_move (h : s.Ready) (hk : s.suite.keywordAt? a = some .call) {c : Command}
    (hc : s.suite.commandAt? a = some c) (args : String) :
    (reachCall g a (Text.trim c.target) args).Ends s (Move a s) := by
  unfold reachCall
  rw [ends_bind, ends_ask]
  dsimp only
  split
  · exact h.fail_move _
  · rename_i callee hcallee
    have hret : s.isReturningTo a = false := by
      unfold Session.isReturningTo
      cases hcs : s.calls with
      | nil => rfl
      | cons d calls => simp [h.running d calls hcs]
    rw [ends_bind, ends_ask]
    dsimp only
    rw [hret, if_neg (by decide), ends_bind]
    refine (OnlyVars.arguments g _ _).ends fun r v => ?_
    cases r with
    | error f =>
      rw [Session.withVars_eq_proceed h.pending]
      exact .stay nofun
    | ok args =>
      dsimp only
      rw [ends_bind, ends_change, ends_goTo]
      obtain ⟨b, hb, hn⟩ := h.nested.function hcallee
      exact .enterCall (v := v) hk ⟨b, hb, hn⟩ ⟨c, hc, hcallee⟩

/-- A call that was finished resumes its caller. -/
theorem reachCall_finish {c : Call} {calls : List Call} (hcs : s.calls = c :: calls)
    (hret : c.returning = true) (hat : c.returnTo = a) {name : String} {callee : Address}
    (hname : s.suite.tables.functions.get? name = some callee) (args : String) :
    (reachCall g a name args).Ends s fun r t => r = .ok () ∧ ∃ v, t = s.abortCall.withVars v := by
  have hr : s.isReturningTo a = true := by
    rw [Session.isReturningTo, hcs]
    simp [hret, hat]
  unfold reachCall
  rw [ends_bind, ends_ask]
  dsimp only
  rw [hname]
  dsimp only
  rw [ends_bind, ends_ask]
  dsimp only
  rw [hr, if_pos rfl, ends_change]
  exact ⟨rfl, _, rfl⟩

theorem reachFunction_move (h : s.Ready) {k : Keyword} (hk : s.suite.keywordAt? a = some k)
    (hf : k.opens? = some .function) : (reachFunction a).Ends s (Move a s) := by
  obtain ⟨b, hb, rfl⟩ := h.nested.exists_block hk (by cases k <;> first | rfl | cases hf)
  have hns : b.nature?.isSome := by rw [Block.nature?, hf]; rfl
  obtain ⟨e, he⟩ := h.nested.closed hb hns
  unfold reachFunction
  rw [ends_bind, ends_ask]
  dsimp only
  split
  · rename_i hc
    rw [ends_bind]
    refine Ends.block hb (Ends.goToPart he ?_)
    exact .skipFunction ⟨b, hb, hf⟩ ⟨b, hb, hns, he⟩ (by simpa using hc)
  · rename_i hc
    refine h.pass_move (h.passable hk ?_ ?_ fun _ => by simpa using hc) s.vars
    · cases hkey : b.keyword <;> rw [hkey] at hf <;> first | rfl | cases hf
    · intro hkey
      rw [hkey] at hf
      cases hf

/-! ## 2. Every command -/

theorem keywordAt?_of_commandAt? {suite : Suite} {c : Command} {k : Keyword}
    (hc : suite.commandAt? a = some c) (hk : Keyword.ofName? c.name = some (k, false)) :
    suite.keywordAt? a = some k := by
  rw [Suite.keywordAt?, BlockFlow.keywordAt?, show BlockFlow.commandAt? suite.units a = some c from hc]
  simp [hk]

theorem throwValue_move (h : s.Ready) (hk : s.suite.keywordAt? a = some .throwError) (expr : String) :
    (throwValue g expr).Ends s (Move a s) := by
  refine (OnlyVars.throwValue g expr).ends fun r v => ?_
  rw [Session.withVars_eq_proceed h.pending]
  exact .stay fun _ => h.passable_of_not_linked hk rfl

theorem loadRecord_move (h : s.Ready) {k : Keyword} (hk : s.suite.keywordAt? a = some k)
    (hlinked : k.isLinked = false) (format : DataFormat) (target selector : String) :
    (loadRecord g a format target selector).Ends s (Move a s) := by
  refine (OnlyVars.loadRecord g a format target selector).ends fun r v => ?_
  rw [Session.withVars_eq_proceed h.pending]
  exact .stay fun _ => h.passable_of_not_linked hk hlinked

theorem perform_move (h : s.Ready) {c : Command} {k : Keyword} (hc : s.suite.commandAt? a = some c)
    (hkey : Keyword.ofName? c.name = some (k, false)) :
    (perform g a k (Text.trim c.target) (Text.trim c.value)).Ends s (Move a s) := by
  have hk := keywordAt?_of_commandAt? hc hkey
  have hunlinked (hl : k.isLinked = false) : s.suite.blockAt? a = none :=
    h.nested.blockAt?_eq_none fun l hl' => by cases hk.symm.trans hl'; exact hl
  cases k
  case label => exact h.pass_move (h.passable_of_not_linked hk rfl) s.vars
  case goto => exact goto_move h (hunlinked rfl) ⟨_, by simp, hk⟩ _ s.vars
  case gotoIf => exact gotoIf_move h hk _ _
  case skipNext => exact skipNext_move h hk _
  case ifThen => exact enterIf_move h hk _
  case elseIf => exact reachElseIf_move h hk _
  case otherwise => exact reachElse_move h hk
  case endIf => exact leaveIf_move h hk
  case tryBlock => exact enterTry_move h hk
  case catchError => exact reachCatch_move h hk
  case finallyDo => exact reachFinally_move h hk
  case endTry => exact leaveTry_move h hk
  case «throwError» => exact throwValue_move h hk _
  case whileLoop =>
    refine reachLoop_move h hk rfl ?_ ?_ <;> split
    · exact OnlyVars.pure _
    · exact OnlyVars.fail _
    · rename_i hh
      rintro _ ⟨⟩
      exact whileHeader_own hh
    · exact nofun
  case forLoop =>
    refine reachLoop_move h hk rfl ?_ ?_ <;> split
    · exact OnlyVars.pure _
    · exact OnlyVars.fail _
    · rename_i hh
      rintro _ ⟨⟩
      exact forHeader_own hh
    · exact nofun
  case foreach => exact reachLoop_move h hk rfl (OnlyVars.foreachHeader g _ _) (foreachHeader_own _ _)
  case forJson => exact reachLoop_move h hk rfl (OnlyVars.recordsHeader g a _ _ _) (recordsHeader_own _ _ _)
  case forXml => exact reachLoop_move h hk rfl (OnlyVars.recordsHeader g a _ _ _) (recordsHeader_own _ _ _)
  case breakLoop => exact breakLoop_move h hk _
  case continueLoop => exact continueLoop_move h hk _
  case endWhile | endFor | endForeach | endForJson | endForXml => exact closeLoop_move h hk rfl rfl
  case call => exact reachCall_move h hk hc _
  case function | script => exact reachFunction_move h hk rfl
  case returnValue => exact returnFrom_move h hk rfl _
  case endFunction | endScript => exact returnFrom_move h hk rfl _
  case exitTest => exact exitRun_move h hk
  case loadJsonVars | loadXmlVars => exact loadRecord_move h hk rfl _ _ _

/-- **Every flow command moves its session** in one of the ways of `Move`. -/
theorem dispatch_move (g : Setting) (a : Address) (h : s.Ready) :
    (dispatch g a).Ends s (Move a s) := by
  unfold dispatch
  rw [ends_bind, ends_ask]
  dsimp only
  split
  · exact h.fail_move _
  · rename_i c hc
    have hc' : s.suite.commandAt? a = some c := Command.locate_eq_ok_iff.1 hc
    split
    · exact perform_move h hc' ‹_›
    · exact h.fail_move _

end

end BlockFlow.Flow
