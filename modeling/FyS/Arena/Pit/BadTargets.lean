import FyS.Arena.Pit.Targets

/-!
# Targets that do not exist

A target id comes from a player and is looked up when the action runs.  The
handler around the lookup catches `eval_error` and nothing else.
-/

namespace FyS.Arena

open FyS.Common FyS.Library.Trace

variable {P : Platform} {C : ChaiScript}

structure SameStatuses (board board' : Board C) : Prop where
  contenders : board'.contenders.contenders.map (·.status) =
    board.contenders.contenders.map (·.status)
  members : board'.partyTeams.members.map (·.status) = board.partyTeams.members.map (·.status)

namespace Board

def Handled (board : Board C) (e : PriorityElem) : Prop :=
  ∃ board', board.executeAllyAction e = .ok board' ∧
    ∀ member pa action target, board.partyTeams.selectMemberById e.id = some member →
      member.nextAction = some (pa, action) → pa.target = some target →
      board.targetStatus target = none → SameStatuses board board'

/-- The call of an action on a status throws nothing but `eval_error`. -/
def CallReturns (member : TeamMember) (function : C.Function) (chai : C.State) (status : Status)
    (board : Board C) : Prop :=
  (C.callWithStatus function status (board.popped member).contenders
    (board.popped member).partyTeams chai).1 ≠ .error .other

/-- Both evaluations of the oldest pending action return, and the target, if it is
of a kind that the action takes, exists. -/
def ActionSafe (board : Board C) (member : TeamMember) : Prop :=
  ∀ pa action, member.nextAction = some (pa, action) →
    ∃ function loaded targeting chai,
      C.evalFunction ("fun(allyStatus)\x7b return " ++ member.allyAction action ++
        ".execute(allyStatus);\x7d") board.chai = (.ok function, loaded) ∧
      C.evalTargeting (member.allyAction action ++ ".requireTarget();") loaded =
        (.ok targeting, chai) ∧
      match pa.target with
      | none => board.CallReturns member function chai member.status
      | some target => target.acceptedBy targeting = true →
          ∃ status, board.targetStatus target = some status ∧
            board.CallReturns member function chai status

def TurnSafe (board : Board C) (e : PriorityElem) : Prop :=
  ∀ member, board.partyTeams.selectMemberById e.id = some member → board.ActionSafe member

/-! ## One action -/

theorem caught_isOk_iff {r : Except ScriptError Int × Effect × C.State} {board : Board C} :
    (∃ board', board.caught r = .ok board') ↔ r.1 ≠ .error .other := by
  obtain ⟨result, effect, chai⟩ := r
  match result with
  | .ok n => simp [caught]
  | .error .evalError => simp [caught]
  | .error .other => simp [caught]

/-- With its evaluations done, an action returns exactly when what it is aimed at
exists and the call returns. -/
theorem executeOn_isOk_iff {member : TeamMember} {function : C.Function} {targeting : Targeting}
    {chai : C.State} {board : Board C} (hfirst : board.partyTeams.noFirstMember = false)
    (target : Option TargetType) :
    (∃ board', member.executeOn target targeting function
        { board.popped member with chai } = .ok board') ↔
      match target with
      | none => board.CallReturns member function chai member.status
      | some target => target.acceptedBy targeting = true →
          ∃ status, board.targetStatus target = some status ∧
            board.CallReturns member function chai status := by
  cases target with
  | none => exact caught_isOk_iff
  | some target =>
      rw [TeamMember.executeOn_some]
      by_cases haccepted : target.acceptedBy targeting = true
      · have hreach (status : Status) :
            ({ board.popped member with chai } : Board C).reach target = .ok status ↔
              board.targetStatus target = some status := by
          rw [reach_eq_ok_iff haccepted]
          show (board.popped member).targetStatus target = some status ∧
            (∀ v, target = .allyTargetId v →
              (board.partyTeams.setPendingActions _ _).noFirstMember = false) ↔ _
          rw [targetStatus_popped, AllyPartyTeams.noFirstMember_setPendingActions]
          simp [hfirst]
        simp only [haccepted, if_true, true_implies]
        constructor
        · rintro ⟨board', hok⟩
          obtain ⟨status, hfound, hcall⟩ := Library.Fuel.bind_eq_ok.mp hok
          exact ⟨status, (hreach status).mp hfound, caught_isOk_iff.mp ⟨board', hcall⟩⟩
        · rintro ⟨status, hfound, hreturns⟩
          rw [(hreach status).mpr hfound]
          exact caught_isOk_iff.mpr hreturns
      · simp [haccepted]

theorem executeAction_isOk_iff {member : TeamMember} {board : Board C}
    (hfirst : board.partyTeams.noFirstMember = false) :
    (∃ board', member.executeAction board = .ok board') ↔ board.ActionSafe member := by
  constructor
  · rintro ⟨board', h⟩ pa action hnext
    simp only [TeamMember.executeAction, hnext] at h
    split at h
    · cases h
    · rename_i function loaded hfunction
      split at h
      · cases h
      · rename_i targeting chai htargeting
        exact ⟨function, loaded, targeting, chai, hfunction, htargeting,
          (executeOn_isOk_iff hfirst pa.target).mp ⟨board', h⟩⟩
  · intro h
    cases hnext : member.nextAction with
    | none =>
        simp only [TeamMember.executeAction, hnext]
        exact ⟨_, rfl⟩
    | some next =>
        obtain ⟨pa, action⟩ := next
        obtain ⟨function, loaded, targeting, chai, hfunction, htargeting, htarget⟩ := h pa action hnext
        simp only [TeamMember.executeAction, hnext, hfunction, htargeting]
        exact (executeOn_isOk_iff hfirst pa.target).mpr htarget

theorem sameStatuses_of_missing {member : TeamMember} {board board' : Board C} {pa : PendingAction}
    {action : String} {target : TargetType} (hfirst : board.partyTeams.noFirstMember = false)
    (hnext : member.nextAction = some (pa, action)) (htarget : pa.target = some target)
    (hmissing : board.targetStatus target = none)
    (h : member.executeAction board = .ok board') : SameStatuses board board' := by
  simp only [TeamMember.executeAction, hnext] at h
  split at h
  · cases h
  · split at h
    · cases h
    · rename_i function _ _ targeting chai _
      rw [htarget] at h
      have hpassed : target.acceptedBy targeting = false := by
        apply Bool.eq_false_iff.mpr
        intro haccepted
        obtain ⟨status, hstatus, -⟩ :=
          (executeOn_isOk_iff hfirst (some target)).mp ⟨board', h⟩ haccepted
        rw [hmissing] at hstatus
        cases hstatus
      rw [TeamMember.executeOn_some, hpassed, if_neg (by decide)] at h
      rw [← Except.ok.inj h]
      exact ⟨rfl, status_setPendingActions _ _ _⟩

/-! ## One turn -/

theorem noFirstMember_of_select {apt : AllyPartyTeams} {id : Nat} {member : TeamMember}
    (h : apt.selectMemberById id = some member) : apt.noFirstMember = false := by
  rw [AllyPartyTeams.selectMemberById_eq] at h
  split_ifs at h with hfirst
  exact Bool.eq_false_iff.mpr hfirst

theorem handled_iff {board : Board C} {e : PriorityElem} (hmember : e.isContender = false) :
    board.Handled e ↔ board.TurnSafe e := by
  unfold Handled TurnSafe executeAllyAction
  simp only [hmember, Bool.false_eq_true, if_false]
  cases hselect : board.partyTeams.selectMemberById e.id with
  | none => simp
  | some member =>
      have hfirst := noFirstMember_of_select hselect
      simp only [Option.some.injEq, forall_eq']
      rw [← executeAction_isOk_iff hfirst]
      constructor
      · rintro ⟨board', hok, -⟩
        exact ⟨board', hok⟩
      · rintro ⟨board', hok⟩
        refine ⟨board', hok, ?_⟩
        rintro _ pa action target rfl hnext htarget hmissing
        exact sameStatuses_of_missing hfirst hnext htarget hmissing hok

end Board

/-! ## One tick -/

namespace FightingPit

def MembersTurn (turn : Turn C) : Prop := turn.currentParticipant.isContender = false

def TurnFails (turn : Turn C) (fault : PitFault) : Prop :=
  (if turn.currentParticipant.isContender then
    turn.board.executeContenderAction turn.currentParticipant
  else turn.board.executeAllyAction turn.currentParticipant) = .error fault

theorem continueBattle_blames (fuel : Nat) (now : Int) (fp : FightingPit C) :
    Blames (fun fault => ∃ f, fault = .scheduler f) TurnFails (continueBattle P fuel now fp) := by
  have hnone (fp : FightingPit C) : Blames (fun fault => ∃ f, fault = PitFault.scheduler f)
      TurnFails (⟨[], .ok fp⟩ : Traced (Turn C) PitFault (FightingPit C)) := by
    intro fault h
    cases h
  have hside (index : Nat) (fp : FightingPit C) : Blames (fun fault => ∃ f, fault = .scheduler f)
      TurnFails (playSide P fuel now index fp) := by
    unfold playSide
    split
    · exact hnone fp
    · split
      · exact hnone fp
      · split
        · intro fault h
          exact .inl ⟨_, (Except.error.inj h).symm⟩
        · rename_i currentParticipant battle' _
          intro fault h
          refine .inr ⟨_, List.mem_singleton_self _, ?_⟩
          dsimp only at h
          cases hrun : (if currentParticipant.isContender then
              fp.toBoard.executeContenderAction currentParticipant
            else fp.toBoard.executeAllyAction currentParticipant) with
          | error f =>
              rw [hrun] at h
              exact hrun.trans (congrArg Except.error (Except.error.inj h))
          | ok board =>
              rw [hrun] at h
              cases h
  unfold continueBattle
  split
  · exact hnone fp
  · exact Blames.runs hside _ fp

/-- No turn of a member brings the tick down, and none that is aimed at nobody
changes a status. -/
structure TargetsHandled (P : Platform) (fuel : Nat) (now : Int) (fp : FightingPit C) : Prop where
  turns : ∀ turn ∈ (continueBattle P fuel now fp).log, MembersTurn turn →
    turn.board.Handled turn.currentParticipant
  fault : ∀ fault, (continueBattle P fuel now fp).result = .error fault →
    (∃ f, fault = .scheduler f) ∨
      ∃ turn ∈ (continueBattle P fuel now fp).log, ¬ MembersTurn turn ∧ TurnFails turn fault

theorem targets_handled_iff (P : Platform) (fuel : Nat) (now : Int) (fp : FightingPit C) :
    TargetsHandled P fuel now fp ↔
      ∀ turn ∈ (continueBattle P fuel now fp).log, MembersTurn turn →
        turn.board.TurnSafe turn.currentParticipant := by
  constructor
  · intro h turn hturn hmember
    exact (Board.handled_iff hmember).mp (h.turns turn hturn hmember)
  · intro h
    have hturns : ∀ turn ∈ (continueBattle P fuel now fp).log, MembersTurn turn →
        turn.board.Handled turn.currentParticipant := by
      intro turn hturn hmember
      exact (Board.handled_iff hmember).mpr (h turn hturn hmember)
    refine ⟨hturns, ?_⟩
    intro fault hfault
    rcases continueBattle_blames fuel now fp fault hfault with hscheduler | ⟨turn, hturn, hfails⟩
    · exact .inl hscheduler
    · refine .inr ⟨turn, hturn, ?_, hfails⟩
      intro hmember
      obtain ⟨board', hok, -⟩ := hturns turn hturn hmember
      unfold TurnFails at hfails
      rw [hmember, if_neg (by decide), hok] at hfails
      cases hfails

/-! ## An arrow at nobody -/

def wild : TeamMember :=
  { archer with pendingActions := (SizedQueue.new.push ⟨0, some (.contenderTargetId 7)⟩).2 }

def practice : FightingPit (constantChai harmless) :=
  let fp := arranged (assembled harmless [] [wild])
  { fp with sideBattles := fp.sideBattles.map fun sb => sb.start 0 fp.timeInterlude }

theorem arrow_at_nobody :
    ¬ ∀ (P : Platform) (C : ChaiScript) (fuel : Nat) (now : Int) (fp : FightingPit C),
      TargetsHandled P fuel now fp := by
  intro h
  let tick := continueBattle (.unbounded insertionSort) 5 10000 practice
  have hresult : (match tick.result with
      | .error fault => some fault
      | .ok _ => none) = some PitFault.outOfRange := by
    decide
  have hmembers : tick.log.all (fun turn => !turn.currentParticipant.isContender) = true := by
    decide
  cases hfault : tick.result with
  | ok fp =>
      rw [hfault] at hresult
      cases hresult
  | error fault =>
      rw [hfault] at hresult
      obtain rfl := Option.some.inj hresult
      rcases (h _ _ 5 10000 practice).fault _ hfault with ⟨f, hf⟩ | ⟨turn, hturn, hnot, -⟩
      · cases hf
      · have hmember := List.all_eq_true.mp hmembers turn hturn
        rw [Bool.not_eq_true'] at hmember
        exact hnot hmember

end FightingPit

end FyS.Arena
