import FyS.Arena.Pit.TheDead
import FyS.Library.Interleaving

/-!
# The schedule of a pit

Who is handed the turn, and when, is decided on each side by its list and its timer.  The
actions that the turns run, the other sides and the statuses have no part in it: in a battle
that goes well a side plays as it would alone.
-/

namespace FyS.Arena

open FyS.Library.Interleaving FyS.Library.Trace HexagonSide PriorityOrderList

variable {P : Platform} {C : ChaiScript} {fuel : Nat}

def SideBattle.play (P : Platform) (fuel : Nat) (timerInterlude now : Int) (sb : SideBattle) :
    Traced (Int × PriorityElem) PitFault SideBattle :=
  if sb.empty then ⟨[], .ok sb⟩
  else
    match sb.getCurrentParticipantTurn P fuel now timerInterlude with
    | .error fault => ⟨[], .error (.scheduler fault)⟩
    | .ok (currentParticipant, sb') => ⟨[(now, currentParticipant)], .ok sb'⟩

namespace FightingPit

def battles (fp : FightingPit C) (side : Orientation) : Option SideBattle :=
  fp.sideBattles.find? fun sb => sb.side = side

def scheduled (turn : Turn C) : Orientation × Int × PriorityElem :=
  (turn.battle.side, turn.now, turn.currentParticipant)

def turnsOn (side : Orientation) (log : List (Turn C)) : List (Int × PriorityElem) :=
  entriesAt side (log.map scheduled)

theorem mem_turnsOn {side : Orientation} {log : List (Turn C)} {call : Int × PriorityElem} :
    call ∈ turnsOn side log ↔
      ∃ turn ∈ log, turn.battle.side = side ∧ (turn.now, turn.currentParticipant) = call := by
  rw [turnsOn, mem_entriesAt, List.mem_map]
  simp only [scheduled, Prod.mk.injEq]

structure Schedules (timerInterlude : Int) (sides : List Orientation) (fp : FightingPit C)
    (family : Orientation → Option SideBattle) : Prop where
  running : fp.ending = .NOT_FINISHED
  interlude : fp.timeInterlude = timerInterlude
  sides_eq : fp.sideBattles.map (·.side) = sides
  battles_eq : fp.battles = family

section

variable {timerInterlude now : Int} {sides : List Orientation} {fp fp' : FightingPit C}
  {family : Orientation → Option SideBattle} {log : List (Turn C)}

theorem playSide_follows (hsides : sides.Nodup) {index : Nat} (hindex : index < sides.length)
    (h : Schedules timerInterlude sides fp family)
    (hplay : playSide P fuel now index fp = ⟨log, .ok fp'⟩) :
    ∃ family', stepAt (SideBattle.play P fuel timerInterlude) (sides[index], now) family =
      ⟨log.map scheduled, .ok family'⟩ ∧ Schedules timerInterlude sides fp' family' := by
  obtain ⟨hrunning, rfl, rfl, rfl⟩ := h
  rw [List.length_map] at hindex
  have hbattle := List.getElem?_eq_getElem hindex
  have hfound : fp.battles fp.sideBattles[index].side = some fp.sideBattles[index] :=
    FyS.Library.KeyedTable.find_of_mem hsides (List.getElem_mem hindex)
  rw [List.getElem_map, stepAt_of_some hfound]
  unfold playSide at hplay
  rw [hbattle] at hplay
  dsimp only at hplay
  unfold SideBattle.play
  by_cases hempty : fp.sideBattles[index].empty
  · rw [if_pos hempty] at hplay
    obtain ⟨rfl, rfl⟩ := Traced.ok_eq_ok.mp hplay
    rw [if_pos hempty]
    refine ⟨fp.battles, ?_, hrunning, rfl, rfl, rfl⟩
    show Traced.mk [] (Except.ok (Function.update fp.battles fp.sideBattles[index].side
      (some fp.sideBattles[index]))) = _
    rw [← hfound, Function.update_eq_self]
    rfl
  · rw [if_neg hempty] at hplay
    rw [if_neg hempty]
    cases hnext : fp.sideBattles[index].getCurrentParticipantTurn P fuel now fp.timeInterlude with
    | error fault =>
        rw [hnext] at hplay
        cases (Traced.mk.inj hplay).2
    | ok answer =>
        obtain ⟨currentParticipant, battle'⟩ := answer
        rw [hnext] at hplay
        obtain ⟨rfl, hboard⟩ := Traced.mk.inj hplay
        have hside := SideBattle.getCurrentParticipantTurn_side hnext
        refine ⟨Function.update fp.battles fp.sideBattles[index].side (some battle'), rfl, ?_⟩
        cases hrun : (if currentParticipant.isContender then
            fp.toBoard.executeContenderAction currentParticipant
          else fp.toBoard.executeAllyAction currentParticipant) with
        | error fault =>
            rw [hrun] at hboard
            cases hboard
        | ok board =>
            rw [hrun] at hboard
            obtain rfl := Except.ok.inj hboard
            refine ⟨hrunning, rfl, ?_, ?_⟩
            · exact FyS.Library.KeyedTable.map_key_set hbattle hside
            · funext side
              rw [Function.update_apply]
              exact FyS.Library.KeyedTable.find_set hsides hbattle hside side

/-! ## Every battle -/

theorem continueBattle_follows (hsides : sides.Nodup)
    (h : Schedules timerInterlude sides fp family)
    (htick : continueBattle P fuel now fp = ⟨log, .ok fp'⟩) :
    ∃ family', runs (stepAt (SideBattle.play P fuel timerInterlude))
        (sides.map fun side => (side, now)) family = ⟨log.map scheduled, .ok family'⟩ ∧
      Schedules timerInterlude sides fp' family' := by
  have hlength : fp.sideBattles.length = sides.length := by
    rw [← h.sides_eq, List.length_map]
  unfold continueBattle checkEndStatusFightingPit at htick
  rw [h.running, hlength] at htick
  have hindices : (List.range sides.length).map (fun index => (sides[index]?.getD .NONE, now)) =
      sides.map fun side => (side, now) := by
    apply List.ext_getElem
    · simp
    · intro index hindex _
      simp only [List.length_map, List.length_range] at hindex
      simp [hindex]
  rw [← hindices]
  refine runs_follow ?_ h htick
  intro index hindex current next known entries hknown hplay
  have hlt := List.mem_range.mp hindex
  rw [List.getElem?_eq_getElem hlt, Option.getD_some]
  exact playSide_follows hsides hlt hknown hplay

theorem battle_follows (hsides : sides.Nodup) {nows : List Int}
    (h : Schedules timerInterlude sides fp family)
    (hrun : battle P fuel nows fp = ⟨log, .ok fp'⟩) :
    ∃ family', runs (stepAt (SideBattle.play P fuel timerInterlude))
        (nows.flatMap fun now => sides.map fun side => (side, now)) family =
          ⟨log.map scheduled, .ok family'⟩ ∧
      Schedules timerInterlude sides fp' family' := by
  rw [← runs_flatMap, ← List.map_id nows]
  refine runs_follow ?_ h hrun
  intro now _ current next known entries hknown htick
  exact continueBattle_follows hsides hknown htick

theorem battle_schedules (hsides : (fp.sideBattles.map (·.side)).Nodup)
    (hrunning : fp.ending = .NOT_FINISHED) {nows : List Int}
    (hrun : battle P fuel nows fp = ⟨log, .ok fp'⟩) :
    Schedules fp.timeInterlude (fp.sideBattles.map (·.side)) fp' fp'.battles := by
  obtain ⟨_, -, hfollows⟩ := battle_follows hsides ⟨hrunning, rfl, rfl, rfl⟩ hrun
  exact ⟨hfollows.running, hfollows.interlude, hfollows.sides_eq, rfl⟩

theorem battle_component (hsides : (fp.sideBattles.map (·.side)).Nodup)
    (hrunning : fp.ending = .NOT_FINISHED) {nows : List Int}
    (hrun : battle P fuel nows fp = ⟨log, .ok fp'⟩) (side : Orientation) :
    Component (SideBattle.play P fuel fp.timeInterlude) nows (turnsOn side log) (fp.battles side)
      (fp'.battles side) := by
  obtain ⟨family', hfamily, hfollows⟩ := battle_follows hsides ⟨hrunning, rfl, rfl, rfl⟩ hrun
  have hcomponent := components_of_runs hfamily side
  rw [hfollows.battles_eq]
  cases hfound : fp.battles side with
  | none =>
      rw [hfound] at hcomponent
      exact hcomponent
  | some sb =>
      have hmem : side ∈ fp.sideBattles.map (·.side) :=
        List.mem_map.mpr ⟨sb, List.mem_of_find?_eq_some hfound, by
          simpa using List.find?_some hfound⟩
      rw [hfound, entriesAt_flatMap_of_nodup (fun _ _ => ⟨hsides, hmem⟩) fun now : Int => now,
        List.map_id'] at hcomponent
      exact hcomponent

/-- In a battle that goes well every side hands out the turns that it would hand out alone.  So
two battles with the same sides and times have the same schedule, whoever takes part in them
and whatever the scripts do. -/
theorem sides_play_alone (hsides : (fp.sideBattles.map (·.side)).Nodup)
    (hrunning : fp.ending = .NOT_FINISHED) {nows : List Int}
    (hrun : battle P fuel nows fp = ⟨log, .ok fp'⟩) :
    (∀ side, Component (SideBattle.play P fuel fp.timeInterlude) nows (turnsOn side log)
        (fp.battles side) (fp'.battles side)) ∧
      ∀ {C' : ChaiScript} {other other' : FightingPit C'} {log' : List (Turn C')},
        other.ending = .NOT_FINISHED → other.timeInterlude = fp.timeInterlude →
          other.sideBattles = fp.sideBattles → battle P fuel nows other = ⟨log', .ok other'⟩ →
            ∀ side, turnsOn side log' = turnsOn side log ∧
              other'.battles side = fp'.battles side := by
  refine ⟨battle_component hsides hrunning hrun, ?_⟩
  intro C' other other' log' hrunning' hinterlude hbattles hrun' side
  have hcomponent := battle_component hsides hrunning hrun side
  have hcomponent' := battle_component (hbattles ▸ hsides) hrunning' hrun' side
  have hfound : other.battles side = fp.battles side := by
    rw [battles, battles, hbattles]
  rw [hfound, hinterlude] at hcomponent'
  cases hside : fp.battles side with
  | none =>
      rw [hside] at hcomponent hcomponent'
      exact ⟨hcomponent'.2.trans hcomponent.2.symm, hcomponent'.1.trans hcomponent.1.symm⟩
  | some sb =>
      rw [hside] at hcomponent hcomponent'
      obtain ⟨sb₁, hafter, hruns⟩ := hcomponent
      obtain ⟨sb₂, hafter', hruns'⟩ := hcomponent'
      obtain ⟨hturns, rfl⟩ := Traced.ok_eq_ok.mp (hruns'.symm.trans hruns)
      exact ⟨hturns, hafter'.trans hafter.symm⟩

end

/-- The archer is handed the same turns, whether the monster kills it or not. -/
theorem sides_play_alone_ambush : ∃ log fp' log' other',
    battle (.unbounded insertionSort) 5 [0, 10000, 20000] (arranged (ambush harmless)) =
        ⟨log, .ok fp'⟩ ∧
      battle (.unbounded insertionSort) 5 [0, 10000, 20000] (arranged (ambush lethal)) =
        ⟨log', .ok other'⟩ ∧
      ∀ side, turnsOn side log' = turnsOn side log ∧
        other'.battles side = fp'.battles side := by
  have hends : (battle (.unbounded insertionSort) 5 [0, 10000, 20000]
      (arranged (ambush harmless))).result.isOk = true := by decide
  have hends' : (battle (.unbounded insertionSort) 5 [0, 10000, 20000]
      (arranged (ambush lethal))).result.isOk = true := by decide
  obtain ⟨fp', hrun⟩ := Traced.eq_of_isOk hends
  obtain ⟨other', hrun'⟩ := Traced.eq_of_isOk hends'
  exact ⟨_, fp', _, other', hrun, hrun',
    (sides_play_alone (by decide) rfl hrun).2 rfl rfl rfl hrun'⟩

end FightingPit

end FyS.Arena
