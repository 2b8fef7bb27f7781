import FyS.Arena.Pit.Casting

/-!
# Runs of a pit

What an action can change, what one side can do in a tick, and how an invariant
of the pit and a property of the turns go from there to every sequence of ticks.
-/

namespace FyS.Arena

open FyS.Library.Trace HexagonSide PriorityOrderList

variable {P : Platform} {C : ChaiScript}

/-! ## Actions -/

namespace Board

structure Kept (I : Board C → Prop) : Prop where
  chai : ∀ board chai, I board → I { board with chai }
  affected : ∀ board effect chai, I board → I (board.affected effect chai)
  pending : ∀ board id pendingActions, I board →
    I { board with partyTeams := board.partyTeams.setPendingActions id pendingActions }

namespace Kept

variable {I : Board C → Prop} {board board' : Board C}

theorem caught (hI : Kept I) (hboard : I board) {r : Except ScriptError Int × Effect × C.State}
    (h : board.caught r = .ok board') : I board' := by
  unfold Board.caught at h
  split at h
  · exact nomatch h
  · rw [← Except.ok.inj h]
    exact hI.affected board _ _ hboard

theorem contenderAction (hI : Kept I) (hboard : I board) {cs : ContenderScripting}
    (h : cs.executeAction board = .ok board') : I board' := by
  simp only [ContenderScripting.executeAction] at h
  split at h
  · rw [← Except.ok.inj h]
    exact hI.chai board _ hboard
  · exact nomatch h
  · exact hI.caught hboard h

theorem executeOn (hI : Kept I) (hboard : I board) {member : TeamMember}
    {target : Option TargetType} {targetType : Targeting} {funcAction : C.Function}
    (h : member.executeOn target targetType funcAction board = .ok board') : I board' := by
  have hcaught {r : Except ScriptError Int × Effect × C.State}
      (h : board.caught r = .ok board') : I board' := hI.caught hboard h
  have hsame (h : Except.ok (ε := PitFault) board = .ok board') : I board' := by
    rw [← Except.ok.inj h]
    exact hboard
  simp only [TeamMember.executeOn] at h
  split at h
  · split at h
    · split at h
      · exact nomatch h
      · exact hcaught h
    · exact hsame h
  · split at h
    · split at h
      · exact nomatch h
      · exact hcaught h
    · exact hsame h
  · exact hsame h
  · exact hcaught h

theorem memberAction (hI : Kept I) (hboard : I board) {member : TeamMember}
    (h : member.executeAction board = .ok board') : I board' := by
  have hpopped := hI.pending board member.id member.pendingActions.pop.2 hboard
  simp only [TeamMember.executeAction] at h
  split at h
  · rw [← Except.ok.inj h]
    exact hpopped
  · split at h
    · exact nomatch h
    · split at h
      · exact nomatch h
      · exact hI.executeOn (hI.chai _ _ hpopped) h

theorem execute (hI : Kept I) (hboard : I board) {e : PriorityElem}
    (h : (if e.isContender then board.executeContenderAction e else board.executeAllyAction e) =
      .ok board') : I board' := by
  rw [Board.execute_eq] at h
  split at h
  · rw [← Except.ok.inj h]
    exact hboard
  · exact hI.contenderAction hboard h
  · exact hI.memberAction hboard h

end Kept

theorem kept_length (n : Nat) :
    Kept fun board : Board C => board.contenders.contenders.length = n where
  chai _ _ h := h
  affected _ _ _ h := by
    simp only [Board.affected, List.length_mapIdx]
    exact h
  pending _ _ _ h := h

end Board

/-! ## One side in one tick -/

namespace SideBattle

variable {sb sb' : SideBattle} {now timerInterlude : Int}

@[simp] theorem start_priorityOrderList :
    (sb.start now timerInterlude).priorityOrderList = sb.priorityOrderList := by
  unfold start
  split <;> rfl

def deadline (now timerInterlude : Int) (sb : SideBattle) : Int :=
  (sb.start now timerInterlude).endCurrentTurn

/-- Up to the deadline the current element is answered again, from then on the
list gives the next one. -/
theorem getCurrentParticipantTurn_cases {fuel : Nat} {e : PriorityElem}
    (h : sb.getCurrentParticipantTurn P fuel now timerInterlude = .ok (e, sb')) :
    (now < sb.deadline now timerInterlude ∧ e = sb.priorityOrderList.currentPrio ∧
        sb' = sb.start now timerInterlude) ∨
      (sb.deadline now timerInterlude ≤ now ∧ ∃ priorityOrderList,
        sb.priorityOrderList.getNext P fuel = .ok (e, priorityOrderList) ∧
        sb' = { sb.start now timerInterlude with
          endCurrentTurn := now + timerInterlude, priorityOrderList }) := by
  simp only [getCurrentParticipantTurn] at h
  split at h
  · rename_i hlt
    obtain ⟨rfl, rfl⟩ := Prod.mk.inj (Except.ok.inj h)
    refine .inl ⟨hlt, ?_, rfl⟩
    simp only [getCurrent, start_priorityOrderList]
  · rename_i hge
    obtain ⟨⟨elem, priorityOrderList⟩, hnext, hrest⟩ := FyS.Library.Fuel.bind_eq_ok.mp h
    obtain ⟨rfl, rfl⟩ := Prod.mk.inj (Except.ok.inj hrest)
    rw [start_priorityOrderList] at hnext
    exact .inr ⟨Int.not_lt.mp hge, priorityOrderList, hnext, rfl⟩

theorem getCurrentParticipantTurn_side {fuel : Nat} {e : PriorityElem}
    (h : sb.getCurrentParticipantTurn P fuel now timerInterlude = .ok (e, sb')) :
    sb'.side = sb.side := by
  have hstart : (sb.start now timerInterlude).side = sb.side := by
    unfold start
    split <;> rfl
  rcases getCurrentParticipantTurn_cases h with ⟨-, -, rfl⟩ | ⟨-, _, -, rfl⟩
  · exact hstart
  · exact hstart

end SideBattle

namespace FightingPit

variable {I : FightingPit C → Prop} {Q : Turn C → Prop} {fuel : Nat} {now : Int}

/-- What one side does in a tick: nothing, or one turn that is logged. -/
theorem playSide_keeps {index : Nat} {fp : FightingPit C} (hfp : I fp)
    (hturn : ∀ battle currentParticipant battle', fp.sideBattles[index]? = some battle →
      battle.priorityOrderList.baseSpeed ≠ [] →
      battle.getCurrentParticipantTurn P fuel now fp.timeInterlude =
          .ok (currentParticipant, battle') →
        Q ⟨now, fp.timeInterlude, battle, currentParticipant, fp.toBoard⟩ ∧
          ∀ board, (if currentParticipant.isContender then
              fp.toBoard.executeContenderAction currentParticipant
            else fp.toBoard.executeAllyAction currentParticipant) = .ok board →
            I { fp with toBoard := board, sideBattles := fp.sideBattles.set index battle' }) :
    Keeps I Q (playSide P fuel now index fp) := by
  have hidle : Keeps I Q (⟨[], .ok fp⟩ : Traced (Turn C) PitFault (FightingPit C)) := by
    constructor
    · exact List.forall_mem_nil _
    · intro fp' h
      rw [← Except.ok.inj h]
      exact hfp
  unfold playSide
  split
  · exact hidle
  · rename_i battle hbattle
    split
    · exact hidle
    · rename_i hempty
      split
      · exact ⟨List.forall_mem_nil _, fun _ h => nomatch h⟩
      · rename_i currentParticipant battle' hnext
        obtain ⟨hlogged, hkept⟩ := hturn battle currentParticipant battle' hbattle
          (fun hnil => hempty (List.isEmpty_iff.mpr hnil)) hnext
        constructor
        · intro turn ht
          rw [List.mem_singleton.mp ht]
          exact hlogged
        · intro fp' h
          dsimp only at h
          cases hrun : (if currentParticipant.isContender then
              fp.toBoard.executeContenderAction currentParticipant
            else fp.toBoard.executeAllyAction currentParticipant) with
          | error fault =>
              rw [hrun] at h
              exact nomatch h
          | ok board =>
              rw [hrun] at h
              rw [← Except.ok.inj h]
              exact hkept board hrun

def battle (P : Platform) (fuel : Nat) (nows : List Int) (fp : FightingPit C) :
    Traced (Turn C) PitFault (FightingPit C) :=
  runs (continueBattle P fuel) nows fp

theorem continueBattle_keeps
    (hside : ∀ index fp, I fp → Keeps I Q (playSide P fuel now index fp)) {fp : FightingPit C}
    (hfp : I fp) : Keeps I Q (continueBattle P fuel now fp) := by
  unfold continueBattle
  split
  · constructor
    · exact List.forall_mem_nil _
    · intro fp' h
      rw [← Except.ok.inj h]
      exact hfp
  · exact Keeps.runs hside _ hfp

theorem battle_keeps
    (hside : ∀ now index fp, I fp → Keeps I Q (playSide P fuel now index fp)) (nows : List Int)
    {fp : FightingPit C} (hfp : I fp) : Keeps I Q (battle P fuel nows fp) := by
  apply Keeps.runs _ nows hfp
  intro now fp hfp
  exact continueBattle_keeps (hside now) hfp

/-- What every side keeps of the state and of the turns handed out, every run that ends well
keeps. -/
theorem battle_history {J : FightingPit C → List (Turn C) → Prop} {nows : List Int}
    {fp fp' : FightingPit C} {log : List (Turn C)} (hfp : J fp [])
    (hside : ∀ now index fp done fp' new, J fp done →
      playSide P fuel now index fp = ⟨new, .ok fp'⟩ → J fp' (done ++ new))
    (hrun : battle P fuel nows fp = ⟨log, .ok fp'⟩) : J fp' log := by
  refine runs_history hfp ?_ hrun
  intro now fp done fp' new hdone htick
  unfold continueBattle at htick
  split at htick
  · obtain ⟨rfl, rfl⟩ := Traced.ok_eq_ok.mp htick
    rwa [List.append_nil]
  · refine runs_history (J := fun fp played => J fp (done ++ played)) ?_ ?_ htick
    · rwa [List.append_nil]
    · intro index fp played fp' new hplayed hplay
      rw [← List.append_assoc]
      exact hside now index fp _ fp' new hplayed hplay

end FightingPit

end FyS.Arena
