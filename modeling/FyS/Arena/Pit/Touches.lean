import Mathlib.Logic.Relation
import FyS.Arena.Pit.Runs
import FyS.Arena.Pit.Targets
import FyS.Arena.Pit.WellFormed
import FyS.Library.Pointwise

/-!
# What a battle leaves alone

A turn touches the board in a few ways: the engine moves on, a script runs and changes
statuses, the member whose turn it is takes its oldest action.  So who takes part in a battle,
where everybody stands and that the battle goes on never change.
-/

namespace FyS.Arena

open FyS.Common FyS.Library.Pointwise FyS.Library.Trace HexagonSide Relation

variable {P : Platform} {C : ChaiScript}

/-- The text that `executeAction` evaluates. -/
def ContenderScripting.action (cs : ContenderScripting) : String :=
  "fun(contenderId)\x7b return " ++ cs.getChaiContenderId ++ ".runScriptedAction(contenderId);\x7d"

namespace Board

inductive Touches : Board C → Board C → Prop
  | evaluated (board : Board C) (chai : C.State) : Touches board { board with chai }
  | contenderRan (board : Board C) (contender : FightingContender)
      (hmem : contender ∈ board.contenders.contenders) (function : C.Function) (chai : C.State)
      (heval : C.evalFunction contender.contenderScripting.action board.chai =
        (.ok function, chai)) :
      Touches board (board.affected
        (C.callWithId function contender.contenderScripting.contenderId board.contenders
          board.partyTeams chai).2.1
        (C.callWithId function contender.contenderScripting.contenderId board.contenders
          board.partyTeams chai).2.2)
  | calledWithStatus (board : Board C) (function : C.Function) (status : Status) :
      Touches board (board.affected
        (C.callWithStatus function status board.contenders board.partyTeams board.chai).2.1
        (C.callWithStatus function status board.contenders board.partyTeams board.chai).2.2)
  | popped (board : Board C) (member : TeamMember) (hmember : member ∈ board.partyTeams.members) :
      Touches board (board.popped member)

variable {board board' : Board C}

theorem eq_of_caught {r : Except ScriptError Int × Effect × C.State}
    (h : board.caught r = .ok board') : board' = board.affected r.2.1 r.2.2 := by
  unfold Board.caught at h
  split at h
  · cases h
  · exact (Except.ok.inj h).symm

theorem contenderAction_touches {contender : FightingContender}
    (hmem : contender ∈ board.contenders.contenders)
    (h : contender.contenderScripting.executeAction board = .ok board') :
    ReflTransGen Touches board board' := by
  simp only [ContenderScripting.executeAction] at h
  split at h
  · rw [← Except.ok.inj h]
    exact .single (.evaluated board _)
  · cases h
  · rename_i function chai heval
    rw [eq_of_caught h]
    exact .single (.contenderRan board contender hmem function chai heval)

theorem executeOn_touches {member : TeamMember} {target : Option TargetType}
    {targetType : Targeting} {function : C.Function}
    (h : member.executeOn target targetType function board = .ok board') :
    ReflTransGen Touches board board' := by
  have hcalled (status : Status) (h : board.caught (C.callWithStatus function status
      board.contenders board.partyTeams board.chai) = .ok board') :
      ReflTransGen Touches board board' := by
    rw [eq_of_caught h]
    exact .single (.calledWithStatus board function status)
  cases target with
  | none => exact hcalled member.status h
  | some target =>
      rw [TeamMember.executeOn_some] at h
      split_ifs at h
      · cases hreach : board.reach target with
        | error fault =>
            rw [hreach] at h
            cases h
        | ok status =>
            rw [hreach] at h
            exact hcalled status h
      · rw [Except.ok.inj h]

theorem memberAction_touches {member : TeamMember} (hmember : member ∈ board.partyTeams.members)
    (h : member.executeAction board = .ok board') : ReflTransGen Touches board board' := by
  have hpopped : ReflTransGen Touches board (board.popped member) :=
    .single (.popped board member hmember)
  simp only [TeamMember.executeAction] at h
  split at h
  · rw [← Except.ok.inj h]
    exact hpopped
  · split at h
    · cases h
    · split at h
      · cases h
      · rename_i targetType chai _
        exact (hpopped.tail (.evaluated _ chai)).trans (executeOn_touches h)

theorem execute_touches {e : PriorityElem}
    (h : (if e.isContender then board.executeContenderAction e else board.executeAllyAction e) =
      .ok board') : ReflTransGen Touches board board' := by
  rw [Board.execute_eq] at h
  split at h
  · rw [Except.ok.inj h]
  · rename_i contender hcharacter
    refine contenderAction_touches ?_ h
    unfold Board.character at hcharacter
    split at hcharacter
    · obtain ⟨found, hfound, heq⟩ := Option.map_eq_some_iff.mp hcharacter
      cases heq
      exact List.mem_of_getElem? hfound
    · obtain ⟨_, _, heq⟩ := Option.map_eq_some_iff.mp hcharacter
      cases heq
  · rename_i member hcharacter
    refine memberAction_touches ?_ h
    unfold Board.character at hcharacter
    split at hcharacter
    · obtain ⟨_, _, heq⟩ := Option.map_eq_some_iff.mp hcharacter
      cases heq
    · obtain ⟨found, hfound, heq⟩ := Option.map_eq_some_iff.mp hcharacter
      cases heq
      rw [AllyPartyTeams.selectMemberById_eq] at hfound
      split_ifs at hfound
      exact List.mem_of_find?_eq_some hfound

theorem execute_keeps {I : Board C → Prop}
    (hI : ∀ board board', board.Touches board' → I board → I board') {e : PriorityElem}
    (hrun : (if e.isContender then board.executeContenderAction e else board.executeAllyAction e) =
      .ok board') (hboard : I board) : I board' := by
  have htouches := execute_touches hrun
  clear hrun
  induction htouches with
  | refl => exact hboard
  | tail _ hlast ih => exact hI _ _ hlast ih

end Board

/-! ## From single changes to battles -/

namespace FightingPit

/-- What every single change keeps holds of the board in every turn and at the end. -/
theorem battle_touches {I : Board C → Prop} (hI : ∀ board board', board.Touches board' →
    I board → I board') (fuel : Nat) (nows : List Int) {fp : FightingPit C} (hfp : I fp.toBoard) :
    Keeps (fun fp : FightingPit C => I fp.toBoard) (fun turn => I turn.board)
      (battle P fuel nows fp) := by
  refine battle_keeps ?_ nows hfp
  intro now index fp hfp
  refine playSide_keeps hfp ?_
  intro battle currentParticipant battle' _ _ _
  refine ⟨hfp, ?_⟩
  intro board hrun
  exact Board.execute_keeps hI hrun hfp

end FightingPit

/-! ## Who takes part -/

structure TeamMember.Kin (member member' : TeamMember) : Prop where
  userName : member'.userName = member.userName
  name : member'.name = member.name
  side : member'.side = member.side
  id : member'.id = member.id
  actionsDoable : member'.actionsDoable = member.actionsDoable
  pendingActions : ∃ n, member'.pendingActions = (fun q => q.pop.2)^[n] member.pendingActions

namespace TeamMember.Kin

theorem refl (member : TeamMember) : member.Kin member :=
  ⟨rfl, rfl, rfl, rfl, rfl, 0, rfl⟩

theorem trans {member member' member'' : TeamMember} (h : member.Kin member')
    (h' : member'.Kin member'') : member.Kin member'' := by
  obtain ⟨n, hn⟩ := h.pendingActions
  obtain ⟨m, hm⟩ := h'.pendingActions
  refine ⟨h'.userName.trans h.userName, h'.name.trans h.name, h'.side.trans h.side,
    h'.id.trans h.id, h'.actionsDoable.trans h.actionsDoable, m + n, ?_⟩
  rw [hm, hn, Function.iterate_add_apply]

end TeamMember.Kin

def AllyPartyTeams.SameTeams (apt apt' : AllyPartyTeams) : Prop :=
  List.Forall₂ (fun team team' => team'.userName = team.userName ∧
    List.Forall₂ TeamMember.Kin team.members team'.members) apt.partyTeams apt'.partyTeams

theorem AllyPartyTeams.sameTeams_mapMembers (apt : AllyPartyTeams) (f : TeamMember → TeamMember)
    (hf : ∀ member, (f member).id = member.id) (h : ∀ member ∈ apt.members, member.Kin (f member)) :
    apt.SameTeams (apt.mapMembers f hf) := by
  apply forall₂_map
  intro team hteam
  refine ⟨rfl, forall₂_map ?_⟩
  intro member hmember
  exact h member (List.mem_flatMap.mpr ⟨team, hteam, hmember⟩)

namespace Board

structure SameCast (board board' : Board C) : Prop where
  figures : board'.figures = board.figures
  flags : board'.contenders.changeSideFlags = board.contenders.changeSideFlags
  teams : board.partyTeams.SameTeams board'.partyTeams

namespace SameCast

theorem refl (board : Board C) : SameCast board board := by
  refine ⟨rfl, rfl, ?_⟩
  rw [AllyPartyTeams.SameTeams, List.forall₂_same]
  intro team _
  refine ⟨rfl, ?_⟩
  rw [List.forall₂_same]
  intro member _
  exact .refl member

theorem trans {board board' board'' : Board C} (h : SameCast board board')
    (h' : SameCast board' board'') : SameCast board board'' := by
  refine ⟨h'.figures.trans h.figures, h'.flags.trans h.flags, ?_⟩
  refine forall₂_trans ?_ h.teams h'.teams
  intro team team' team'' hteam hteam'
  exact ⟨hteam'.1.trans hteam.1, forall₂_trans (fun _ _ _ => .trans) hteam.2 hteam'.2⟩

end SameCast

theorem sameCast_affected (effect : Effect) (chai : C.State) (board : Board C) :
    SameCast board (board.affected effect chai) := by
  refine ⟨figures_affected effect chai board, rfl,
    AllyPartyTeams.sameTeams_mapMembers board.partyTeams
      (fun member => { member with status := effect.member member.id member.status })
      (fun _ => rfl) ?_⟩
  intro member _
  exact ⟨rfl, rfl, rfl, rfl, rfl, 0, rfl⟩

theorem Touches.sameCast {board board' : Board C} (h : board.Touches board') :
    SameCast board board' := by
  cases h with
  | evaluated chai => exact ⟨rfl, rfl, (SameCast.refl board).teams⟩
  | contenderRan contender hmem function chai heval => exact sameCast_affected _ _ board
  | calledWithStatus function status => exact sameCast_affected _ _ board
  | popped member hmember =>
      refine ⟨rfl, rfl, AllyPartyTeams.sameTeams_mapMembers board.partyTeams
        (fun other => if other.id = member.id then
          { other with pendingActions := member.pendingActions.pop.2 } else other)
        (fun other => by split <;> rfl) ?_⟩
      intro other hother
      split_ifs with hid
      · rw [AllyPartyTeams.eq_of_id_eq hother hmember hid]
        exact ⟨rfl, rfl, rfl, rfl, rfl, 1, rfl⟩
      · exact .refl other

end Board

namespace FightingPit

structure SameBattle (fp fp' : FightingPit C) : Prop where
  cast : fp.toBoard.SameCast fp'.toBoard
  ending : fp'.ending = fp.ending
  levelFightingPit : fp'.levelFightingPit = fp.levelFightingPit
  timeInterlude : fp'.timeInterlude = fp.timeInterlude
  sides : fp'.sideBattles.map (·.side) = fp.sideBattles.map (·.side)

/-- Whatever the scripts do, a battle changes neither who takes part and where nor the
actions they can do, takes pending actions from the front only, and never ends. -/
theorem battle_sameBattle (fuel : Nat) (nows : List Int) (fp : FightingPit C) :
    Keeps fp.SameBattle (fun turn => fp.toBoard.SameCast turn.board) (battle P fuel nows fp) := by
  refine battle_keeps ?_ nows ⟨.refl fp.toBoard, rfl, rfl, rfl, rfl⟩
  intro now index current hcurrent
  refine playSide_keeps hcurrent ?_
  intro sb currentParticipant sb' hsb _ hturn
  refine ⟨hcurrent.cast, ?_⟩
  intro board hrun
  have hcast : fp.toBoard.SameCast board :=
    Board.execute_keeps (fun _ _ htouch hkept => hkept.trans htouch.sameCast) hrun hcurrent.cast
  refine ⟨hcast, hcurrent.ending, hcurrent.levelFightingPit, hcurrent.timeInterlude, ?_⟩
  rw [← hcurrent.sides]
  exact FyS.Library.KeyedTable.map_key_set hsb (SideBattle.getCurrentParticipantTurn_side hturn)

end FightingPit

end FyS.Arena
