import FyS.Arena.Scripts.Fights

/-!
# How long the designated member lasts

Slimes and ogres on one side spend each of their turns on the member that they designated
first.  A slash takes 30 lives or more, so the turns that they were handed bound the life
that is left to it.
-/

namespace FyS.Arena

open FyS.Library FyS.Library.Pointwise FyS.Library.Trace HexagonSide Scripts

variable {P : Platform} {C : ChaiScript}

/-- The scripts of the contenders load, and a slash is made with the power of its class,
`30 + 30 * (0.1 * lvl)`. -/
structure RunsMonsters.Slashes (engine : RunsMonsters C) : Prop where
  evaluates : ∀ (cs : ContenderScripting) (chai : C.State),
    (Monster.ofName cs.contenderName).isSome → ∃ function loaded,
      C.evalFunction cs.action chai = (.ok function, loaded)
  power : ∀ level, 30 ≤ (engine.slash level).power

def Turn.ofContender (turn : Turn C) : Bool :=
  turn.currentParticipant.isContender &&
    decide (turn.currentParticipant.id < turn.board.contenders.getNumberContender)

theorem damage_current_le (R : WholeRounding) {dmg : Damage} {n : Nat} (h : (n : Rat) ≤ dmg.power)
    (status : Status) : (dmg.execute R status).life.current ≤ status.life.current - n := by
  obtain ⟨current, hcurrent, -, hle⟩ := dmg.execute_between R status
  have hn : n ≤ ⌊dmg.power⌋₊ := Nat.le_floor h
  rw [hcurrent]
  exact hle.trans (Nat.sub_le_sub_left hn _)

/-- A slime or an ogre that is somebody hits whom `lower_life` designates. -/
theorem runScriptedAction_of_designated {monster : Monster} (hmonster : monster ≠ .Sampy)
    (R : WholeRounding) (slash : Damage) (nullTarget : ScriptError) {id : Nat} {pc : PitContenders}
    {apt : AllyPartyTeams} {thisContender : FightingContender} {target : TeamMember}
    (hthis : pc.getFightingContender id = some thisContender)
    (htarget : DecideTarget.lowerLife pc apt .ENNEMY thisContender.getHexagonSideOrient =
      .member (some target)) :
    monster.runScriptedAction R slash nullTarget id pc apt =
      (.ok 1, onMember target.id (slash.execute R)) := by
  cases monster with
  | Sampy => exact absurd rfl hmonster
  | Slime => simp only [Monster.runScriptedAction, hthis, attackLowerLife, htarget]
  | Ogre => simp only [Monster.runScriptedAction, hthis, attackLowerLife, htarget]

namespace Board

variable {board board' : Board C}

def Slashers (board : Board C) : Prop :=
  ∀ contender ∈ board.contenders.contenders, ∃ monster,
    Monster.ofName contender.contenderScripting.contenderName = some monster ∧ monster ≠ .Sampy

theorem Slashers.known (h : board.Slashers) : board.Known := by
  intro contender hcontender
  obtain ⟨monster, hmonster, -⟩ := h contender hcontender
  rw [hmonster]
  rfl

theorem Fades.slashers {harmed : Nat → Prop} (h : Fades harmed board board')
    (hslashers : board.Slashers) : board'.Slashers := by
  intro contender' hcontender'
  obtain ⟨contender, hcontender, hstays⟩ := exists_of_mem_right h.contenders hcontender'
  rw [hstays.contenderScripting]
  exact hslashers contender hcontender

/-! ## One turn -/

theorem execute_fades (engine : RunsMonsters C) (hknown : board.Known) {side : Orientation}
    (hside : board.OneSided side) {e : PriorityElem}
    (hrun : (if e.isContender then board.executeContenderAction e else board.executeAllyAction e) =
      .ok board') :
    board.Fades (fun _ => True) board' ∧ board'.victim side = board.victim side := by
  refine execute_keeps (I := fun now => board.Fades (fun _ => True) now ∧
    now.victim side = board.victim side) ?_ hrun ⟨.refl _ board, rfl⟩
  rintro now next htouches ⟨hfades, hvictim⟩
  have hturns := htouches.turns engine (hfades.known hknown)
  exact ⟨hfades.trans (hturns.fades fun _ => trivial),
    (hturns.victim_eq (hfades.oneSided hside)).trans hvictim⟩

theorem contenderAction_slashes {engine : RunsMonsters C} (hengine : engine.Slashes)
    (hslashers : board.Slashers) {side : Orientation} (hside : board.OneSided side) {id : Nat}
    (hvictim : board.victim side = some id) {contender : FightingContender}
    (hmem : contender ∈ board.contenders.contenders)
    (h : contender.contenderScripting.executeAction board = .ok board') :
    ∃ level, board'.seen =
      board.seen.map (Seen.struck id ((engine.slash level).execute engine.rounding)) := by
  obtain ⟨_, _, heval⟩ := hengine.evaluates contender.contenderScripting board.chai
    (hslashers.known contender hmem)
  simp only [ContenderScripting.executeAction] at h
  split at h
  · rename_i herror
    cases heval.symm.trans herror
  · cases h
  · rename_i function chai hfunction
    obtain ⟨monster, hmonster, hslasher⟩ := hslashers contender hmem
    obtain ⟨chai', hcall⟩ := engine.callWithId_eq contender.contenderScripting monster function
      _ _ hmonster hfunction board.contenders board.partyTeams chai
    rw [hcall] at h
    cases hthis : board.contenders.getFightingContender
      contender.contenderScripting.contenderId with
    | none =>
        -- the access to the contender throws, and nobody catches what is thrown
        simp only [Monster.runScriptedAction, hthis] at h
        cases h
    | some thisContender =>
        have hthisSide : thisContender.getHexagonSideOrient = side :=
          hside _ (List.mem_of_getElem? hthis)
        obtain ⟨target, htarget, rfl⟩ := Option.map_eq_some_iff.mp hvictim
        have hdesignated : DecideTarget.lowerLife board.contenders board.partyTeams .ENNEMY
            thisContender.getHexagonSideOrient = .member (some target) := by
          rw [hthisSide]
          exact congrArg DecideTarget.Designated.member htarget
        rw [runScriptedAction_of_designated hslasher _ _ _ hthis hdesignated] at h
        refine ⟨engine.level function, ?_⟩
        rw [← Except.ok.inj h, seen_affected]
        rfl

/-- A turn of a contender costs the designated member 30 lives, as far as it has them. -/
theorem execute_wears {engine : RunsMonsters C} (hengine : engine.Slashes)
    (hslashers : board.Slashers) {side : Orientation} (hside : board.OneSided side) {id : Nat}
    (hvictim : board.victim side = some id) {e : PriorityElem}
    (hrun : (if e.isContender then board.executeContenderAction e else board.executeAllyAction e) =
      .ok board') {seen : Seen} (hseen : seen ∈ board.seen) (hid : seen.id = id) :
    ∃ seen' ∈ board'.seen, seen'.id = id ∧ seen'.status.life.current ≤
      seen.status.life.current - if e.isContender &&
        decide (e.id < board.contenders.getNumberContender) then 30 else 0 := by
  have hfades := (execute_fades engine hslashers.known hside hrun).1
  obtain ⟨seen', hseen', hsame, -, hweakened, -⟩ := exists_of_mem_left hfades.members hseen
  split_ifs with hcontender
  · rw [Bool.and_eq_true, decide_eq_true_iff] at hcontender
    obtain ⟨hkind, hlt⟩ := hcontender
    have hcharacter : board.character e = some (.contender board.contenders.contenders[e.id]) := by
      rw [character, if_pos hkind, PitContenders.getFightingContender, List.getElem?_eq_getElem hlt]
      rfl
    rw [Board.execute_eq, hcharacter] at hrun
    obtain ⟨level, hslash⟩ := contenderAction_slashes hengine hslashers hside hvictim
      (List.getElem_mem hlt) hrun
    refine ⟨seen.struck id ((engine.slash level).execute engine.rounding), ?_, hid, ?_⟩
    · rw [hslash]
      exact List.mem_map_of_mem hseen
    · rw [← hid, Seen.struck_self]
      exact damage_current_le engine.rounding (hengine.power level) seen.status
  · exact ⟨seen', hseen', hsame.trans hid, hweakened.current_le⟩

end Board

/-! ## Whole battles -/

namespace FightingPit

variable {fuel : Nat} {nows : List Int} {fp fp' : FightingPit C} {log : List (Turn C)}

theorem playSide_eq_ok {now : Int} {index : Nat} {new : List (Turn C)}
    (h : playSide P fuel now index fp = ⟨new, .ok fp'⟩) :
    new = [] ∧ fp'.toBoard = fp.toBoard ∨
      ∃ turn, new = [turn] ∧ turn.board = fp.toBoard ∧
        (if turn.currentParticipant.isContender then
            fp.toBoard.executeContenderAction turn.currentParticipant
          else fp.toBoard.executeAllyAction turn.currentParticipant) = .ok fp'.toBoard := by
  unfold playSide at h
  split at h
  · obtain ⟨rfl, rfl⟩ := Traced.ok_eq_ok.mp h
    exact .inl ⟨rfl, rfl⟩
  · split_ifs at h
    · obtain ⟨rfl, rfl⟩ := Traced.ok_eq_ok.mp h
      exact .inl ⟨rfl, rfl⟩
    · split at h
      · cases (Traced.mk.inj h).2
      · rename_i currentParticipant _ _
        obtain ⟨hnew, hresult⟩ := Traced.mk.inj h
        refine .inr ⟨_, hnew.symm, rfl, ?_⟩
        cases hboard : (if currentParticipant.isContender then
            fp.toBoard.executeContenderAction currentParticipant
          else fp.toBoard.executeAllyAction currentParticipant) with
        | error fault =>
            rw [hboard] at hresult
            cases hresult
        | ok board =>
            rw [hboard] at hresult
            rw [← Except.ok.inj hresult]

/-- The member that slimes and ogres on one side designate first pays for each turn that they
are handed. -/
theorem battle_wears_down {engine : RunsMonsters C} (hengine : engine.Slashes)
    (hslashers : fp.toBoard.Slashers) {side : Orientation} (hside : fp.toBoard.OneSided side)
    {member : TeamMember} (hmember : member ∈ fp.partyTeams.members)
    (hvictim : fp.toBoard.victim side = some member.id)
    (hrun : battle P fuel nows fp = ⟨log, .ok fp'⟩) :
    ∃ member' ∈ fp'.partyTeams.members, member'.id = member.id ∧
      member'.status.life.current ≤
        member.status.life.current - 30 * log.countP Turn.ofContender := by
  have hworn := battle_history (J := fun now done =>
    fp.toBoard.Fades (fun _ => True) now.toBoard ∧
      now.toBoard.victim side = some member.id ∧
      ∃ seen ∈ now.toBoard.seen, seen.id = member.id ∧ seen.status.life.current ≤
        member.status.life.current - 30 * done.countP Turn.ofContender)
    ⟨.refl _ _, hvictim, member.seen, List.mem_map_of_mem hmember, rfl, Nat.le_refl _⟩ ?_ hrun
  · obtain ⟨-, -, seen, hseen, hid, hle⟩ := hworn
    obtain ⟨member', hmember', rfl⟩ := List.mem_map.mp hseen
    exact ⟨member', hmember', hid, hle⟩
  · rintro now index current done next new ⟨hfades, hdesignated, seen, hseen, hid, hle⟩ hplay
    rcases playSide_eq_ok hplay with ⟨rfl, hboard⟩ | ⟨turn, rfl, hboard, hturn⟩
    · rw [hboard, List.append_nil]
      exact ⟨hfades, hdesignated, seen, hseen, hid, hle⟩
    · obtain ⟨hfaded, hkept⟩ := Board.execute_fades engine (hfades.slashers hslashers).known
        (hfades.oneSided hside) hturn
      obtain ⟨seen', hseen', hid', hle'⟩ := Board.execute_wears hengine
        (hfades.slashers hslashers) (hfades.oneSided hside) hdesignated hturn hseen hid
      refine ⟨hfades.trans hfaded, hkept.trans hdesignated, seen', hseen', hid', ?_⟩
      rw [List.countP_append, List.countP_singleton, Turn.ofContender, hboard]
      split_ifs at hle' ⊢ <;> omega

theorem slashes_runsMonsters {slash : Damage} (h : 30 ≤ slash.power) :
    (runsMonsters slash).Slashes where
  evaluates cs _ _ := ⟨cs.action, (), rfl⟩
  power _ := h

/-- The second recruit does not survive that. -/
theorem battle_wears_down_raid : ∃ log fp',
    battle (.unbounded insertionSort) 5 [0, 10000, 20000] (raid ["Slime", "Ogre"]) =
        ⟨log, .ok fp'⟩ ∧
      ∃ member' ∈ fp'.partyTeams.members, member'.id = 2 ∧
        member'.status.life.current ≤ 10 - 30 * log.countP Turn.ofContender := by
  have hends : (battle (.unbounded insertionSort) 5 [0, 10000, 20000]
      (raid ["Slime", "Ogre"])).result.isOk = true := by decide +kernel
  obtain ⟨fp', hrun⟩ := Traced.eq_of_isOk hends
  have hslashers : (raid ["Slime", "Ogre"]).toBoard.Slashers := by
    unfold Board.Slashers
    decide
  have hside : (raid ["Slime", "Ogre"]).toBoard.OneSided .A_N := by
    unfold Board.OneSided
    decide
  have hmember : { recruit "second" .A_N 5 with id := 2 } ∈
      (raid ["Slime", "Ogre"]).partyTeams.members := by decide
  exact ⟨_, fp', hrun, battle_wears_down (slashes_runsMonsters (by decide)) hslashers hside hmember
    (by decide) hrun⟩

end FightingPit

end FyS.Arena
