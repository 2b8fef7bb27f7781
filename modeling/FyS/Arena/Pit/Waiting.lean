import FyS.Arena.Pit.Targets
import FyS.Arena.Pit.WellFormed

/-!
# Pits on hold

A pit is on hold when it is built.  What else is done to a pit on hold, a team that joins, a
message to the member 0 or a tick, leaves it on hold.
-/

namespace FyS.Arena

open FyS.Common FyS.Library.Trace FightingPit FightingPitAnnouncer HexagonSide

structure TeamMember.Idle (member : TeamMember) : Prop where
  side : member.side = ⟨.B, .B_S⟩
  actionsDoable : member.actionsDoable = []
  pendingActions : member.pendingActions = .new

namespace Board

variable {C : ChaiScript} {E : PitEngine}

def Placed (n : Nat) (board : Board C) : Prop :=
  board.contenders.getNumberContender = n ∧
    ∀ (i : Nat) (cs : ContenderScripting) (side : HexagonSide),
      board.figures[i]? = some (cs, side) → cs.contenderId = i ∧ side = ⟨.B, .B_S⟩

theorem idle_affected {board : Board C} (h : ∀ member ∈ board.partyTeams.members, member.Idle)
    (effect : Effect) (chai : C.State) :
    ∀ member ∈ (board.affected effect chai).partyTeams.members, member.Idle := by
  intro member hmember
  rw [affected, AllyPartyTeams.members_mapMembers] at hmember
  obtain ⟨before, hbefore, rfl⟩ := List.mem_map.mp hmember
  exact ⟨(h before hbefore).side, (h before hbefore).actionsDoable,
    (h before hbefore).pendingActions⟩

theorem Placed.next {n : Nat} {board board' : Board C} (h : board.Placed n)
    {cs : ContenderScripting} (hid : cs.contenderId = n)
    (hfigures : board'.figures = board.figures ++ [(cs, ⟨.B, .B_S⟩)]) : board'.Placed (n + 1) := by
  obtain ⟨hnumber, hplaced⟩ := h
  have hlength : board.figures.length = n := by rw [length_figures, hnumber]
  constructor
  · rw [← length_figures, hfigures, List.length_append, hlength]
    rfl
  · intro i cs' side hi
    rw [hfigures] at hi
    rcases Nat.lt_or_ge i n with hlt | hge
    · rw [List.getElem?_append_left (hlength ▸ hlt)] at hi
      exact hplaced i cs' side hi
    · rw [List.getElem?_append_right (hlength ▸ hge), hlength, List.getElem?_singleton] at hi
      split_ifs at hi with hzero
      cases hi
      exact ⟨hid.trans (by omega), rfl⟩

end Board

/-! ## Generation -/

section Generation

variable {E : PitEngine} {I : Board E.toChaiScript → Prop} {board board' : Board E.toChaiScript}

theorem of_evalOnPit (hI : ∀ code board, I board → I (board.evalOnPit E code).2) {code : String}
    {result : Except ScriptError Unit} (h : board.evalOnPit E code = (result, board'))
    (hboard : I board) : I board' := by
  have hkept := hI code board hboard
  rw [h] at hkept
  exact hkept

theorem loadContenderScript_keeps (hI : ∀ code board, I board → I (board.evalOnPit E code).2)
    {cs : ContenderScripting} {script : String} (hboard : I board)
    (h : cs.loadContenderScript E script board = .ok board') : I board' := by
  unfold ContenderScripting.loadContenderScript at h
  split at h
  · cases h
  · rename_i result loaded hnot hload
    have hloaded : I loaded := by
      split_ifs at hload
      · rw [← (Prod.mk.inj hload).2]
        exact hboard
      · exact of_evalOnPit hI hload hboard
    split at h
    · cases h
    · rename_i created hcreate
      rw [← Except.ok.inj h]
      exact of_evalOnPit hI hcreate hloaded

theorem addContender_keeps (hI : ∀ code board, I board → I (board.evalOnPit E code).2)
    {contender : FightingContender} {ready : Bool}
    (hboard : I { board with contenders := ⟨board.contenders.contenders ++ [contender],
      board.contenders.changeSideFlags ++ [false]⟩ })
    (h : board.addContender E contender = .ok (ready, board')) : I board' := by
  unfold Board.addContender ContenderScripting.setupContender at h
  split at h
  · rename_i hsetup
    rw [← (Prod.mk.inj (Except.ok.inj h)).2]
    exact of_evalOnPit hI hsetup hboard
  · cases h
  · rename_i hsetup
    rw [← (Prod.mk.inj (Except.ok.inj h)).2]
    exact of_evalOnPit hI hsetup hboard

variable {cml : String → Option String} {rng : RandomGenerator} {initialSpeed : Nat → Nat}
  {boundaryMap : BoundaryMap EncounterDesc}

theorem generateContender_placed {n : Nat} {fp fp' : Board E.toChaiScript × List String}
    (hplaced : fp.1.Placed n) (hidle : ∀ member ∈ fp.1.partyTeams.members, member.Idle)
    (h : generateContender E cml rng initialSpeed boundaryMap n fp = .ok (true, fp')) :
    fp'.1.Placed (n + 1) ∧ ∀ member ∈ fp'.1.partyTeams.members, member.Idle := by
  simp only [generateContender, addDrawn] at h
  split at h
  · cases h
  · rename_i desc _
    split at h
    · cases h
    · rename_i loaded hload
      split at h
      · cases h
      · cases h
      · rename_i added hadd
        rw [← (Prod.mk.inj (Except.ok.inj h)).2]
        obtain ⟨hfigures, hidleLoaded⟩ := loadContenderScript_keeps
          (I := fun board => board.figures = fp.1.figures ∧
            ∀ member ∈ board.partyTeams.members, member.Idle)
          (fun code board hboard => ⟨(Board.figures_evalOnPit code board).trans hboard.1,
            Board.idle_affected hboard.2 _ _⟩) ⟨rfl, hidle⟩ hload
        obtain ⟨hfiguresAdded, hidleAdded⟩ := addContender_keeps
          (I := fun board => board.figures = fp.1.figures ++ [(_, ⟨.A, .NONE⟩)] ∧
            ∀ member ∈ board.partyTeams.members, member.Idle)
          (fun code board hboard => ⟨(Board.figures_evalOnPit code board).trans hboard.1,
            Board.idle_affected hboard.2 _ _⟩)
          ⟨(List.map_append.trans (congrArg (· ++ _) hfigures)), hidleLoaded⟩ hadd
        have hposition : loaded.contenders.getNumberContender = fp.1.figures.length := by
          rw [← Board.length_figures, hfigures]
        have hfigures' := Board.figures_setContenderInitiatePosition hfiguresAdded
        rw [← hposition] at hfigures'
        refine ⟨hplaced.next ?_ hfigures', hidleAdded⟩
        rfl

theorem generateEach_placed {n turns : Nat} {fp fp' : Board E.toChaiScript × List String}
    (hplaced : fp.1.Placed n) (hidle : ∀ member ∈ fp.1.partyTeams.members, member.Idle)
    (h : generateEach E cml rng initialSpeed boundaryMap (List.range' n turns) fp =
      .ok (true, fp')) :
    (∃ n, fp'.1.Placed n) ∧ ∀ member ∈ fp'.1.partyTeams.members, member.Idle := by
  induction turns generalizing n fp with
  | zero =>
      rw [← (Prod.mk.inj (Except.ok.inj h)).2]
      exact ⟨⟨n, hplaced⟩, hidle⟩
  | succ turns ih =>
      rw [List.range'_succ, generateEach] at h
      split at h
      · cases h
      · cases h
      · rename_i next hfirst
        obtain ⟨hplaced', hidle'⟩ := generateContender_placed hplaced hidle hfirst
        exact ih hplaced' hidle' h

end Generation

/-! ## Pits -/

/-- No turn was handed out, and the characters stand where they were placed with nothing to do. -/
structure FightingPit.OnHold {C : ChaiScript} (fp : FightingPit C) : Prop where
  ending : fp.ending = .ON_HOLD
  sideBattles : ∃ base : Orientation → List PriorityElem,
    fp.sideBattles.Perm (sides.map fun side => unplayedBattle (base side) side)
  contenders : ∃ n, fp.toBoard.Placed n
  members : ∀ member ∈ fp.partyTeams.members, member.Idle

section Pit

variable {P : Platform} {S : SideSort} {C : ChaiScript} {cml : String → Option String}

theorem idle_numbered {team : PartyTeam} (h : ∀ member ∈ team.members, member.Idle) (n : Nat) :
    ∀ member ∈ (team.numbered n).members, member.Idle := by
  intro member hmember
  obtain ⟨i, hi, rfl⟩ := List.mem_mapIdx.mp hmember
  have hidle := h _ (List.getElem_mem hi)
  exact ⟨hidle.side, hidle.actionsDoable, hidle.pendingActions⟩

theorem idle_addPartyTeam {apt : AllyPartyTeams} (h : ∀ member ∈ apt.members, member.Idle)
    {team : PartyTeam} (hteam : ∀ member ∈ team.members, member.Idle) :
    ∀ member ∈ (apt.addPartyTeam team).members, member.Idle := by
  intro member hmember
  rw [AllyPartyTeams.members_addPartyTeam] at hmember
  rcases List.mem_append.mp hmember with hmember | hmember
  · exact h member hmember
  · exact idle_numbered hteam _ member hmember

/-- A team that joins changes the engine, the teams and the order of the sides. -/
theorem addPartyTeam_eq_ok {pt : PartyTeam} {fp fp' : FightingPit C}
    (h : fp.addPartyTeamAndRegisterActions S cml pt = .ok fp') :
    ∃ chai sideBattles, sideBattles.Perm fp.sideBattles ∧
      fp' = { fp with chai, partyTeams := fp.partyTeams.addPartyTeam pt, sideBattles } := by
  obtain ⟨⟨_, chai⟩, -, hfp⟩ := Library.Fuel.bind_eq_ok.mp h
  exact ⟨chai, _, S.perm _ _, (Except.ok.inj hfp).symm⟩

theorem FightingPit.OnHold.joined {pt : PartyTeam} {fp fp' : FightingPit C} (h : fp.OnHold)
    (hteam : ∀ member ∈ pt.members, member.Idle)
    (hjoin : fp.addPartyTeamAndRegisterActions S cml pt = .ok fp') : fp'.OnHold := by
  obtain ⟨chai, sideBattles, hperm, rfl⟩ := addPartyTeam_eq_ok hjoin
  obtain ⟨base, hbase⟩ := h.sideBattles
  exact ⟨h.ending, ⟨base, hperm.trans hbase⟩, h.contenders, idle_addPartyTeam h.members hteam⟩

/-- The ids of the members begin at 1, so a message to the member 0 reaches nobody. -/
theorem forwardMessageToTeamMember_zero (userName : String) (fp : ArenaInstance C) :
    fp.forwardMessageToTeamMember userName 0 = fp := by
  have hnone : fp.partyTeams.getSpecificTeamMemberById userName 0 = none := by
    unfold AllyPartyTeams.getSpecificTeamMemberById
    split
    · rfl
    · rename_i team hteam
      rw [List.find?_eq_none]
      intro member hmember hzero
      have hmem : member ∈ fp.partyTeams.members :=
        List.mem_flatMap.mpr ⟨team, List.mem_of_find?_eq_some hteam, hmember⟩
      have hid := (AllyPartyTeams.id_bounds hmem).1
      have hzero' : member.id = 0 := by simpa using hzero
      omega
  rw [ArenaInstance.forwardMessageToTeamMember, hnone]

variable {E : PitEngine} {env : Surroundings} {fpa : FightingPitAnnouncer} {team : PartyTeam}

theorem prepare_onHold {prepared : ArenaInstance E.toChaiScript}
    (hidle : ∀ member ∈ team.members, member.Idle)
    (h : fpa.prepare S E env team = .ok prepared) :
    prepared.ending = .ON_HOLD ∧ prepared.sideBattles = [] ∧ prepared.toBoard.Placed 0 ∧
      ∀ member ∈ prepared.partyTeams.members, member.Idle := by
  obtain ⟨chai, -, hfp⟩ := Library.Fuel.bind_eq_ok.mp h
  unfold ArenaInstance.addPartyTeamAndRegisterActions at hfp
  split at hfp
  · cases hfp
  · rename_i pit hpit
    obtain ⟨chai', sideBattles, hperm, rfl⟩ := addPartyTeam_eq_ok hpit
    rw [← Except.ok.inj hfp]
    refine ⟨rfl, hperm.eq_nil, ⟨rfl, ?_⟩, ?_⟩
    · intro i cs side hi
      cases hi
    · apply idle_addPartyTeam _ hidle
      intro member hmember
      cases hmember

theorem generateContenders_placed {ctx : EncounterContext} {wsId : String}
    {board board' : Board E.toChaiScript} {loaded : List String} (hplaced : board.Placed 0)
    (hidle : ∀ member ∈ board.partyTeams.members, member.Idle)
    (h : fpa.generateContenders E env.cml env.rng env.initialSpeed ctx wsId board =
      .ok (true, board', loaded)) :
    (∃ n, board'.Placed n) ∧ ∀ member ∈ board'.partyTeams.members, member.Idle := by
  unfold generateContenders at h
  split at h
  · cases h
  · split_ifs at h
    · simp only at h
      split at h
      · cases h
      · split at h
        · cases h
        · rw [List.range_eq_range'] at h
          have hstart : (board, fpa.loadedScript).1.Placed 0 ∧
              ∀ member ∈ (board, fpa.loadedScript).1.partyTeams.members, member.Idle :=
            ⟨hplaced, hidle⟩
          exact generateEach_placed hstart.1 hstart.2 h

theorem onHold_initializeSideBattles {fuel : Nat} {fp fp' : ArenaInstance C}
    (hending : fp.ending = .ON_HOLD) (hsides : fp.sideBattles = [])
    (hplaced : ∃ n, fp.toBoard.Placed n) (hidle : ∀ member ∈ fp.partyTeams.members, member.Idle)
    (h : fp.initializeSideBattles P fuel = .ok fp') : fp'.OnHold := by
  unfold ArenaInstance.initializeSideBattles at h
  split at h
  · cases h
  · rename_i pit hpit
    obtain ⟨base, -, rfl⟩ := initializeSideBattles_cases (P := P) hsides ⟨fuel, hpit⟩
    rw [← Except.ok.inj h]
    exact ⟨hending, ⟨base, List.Perm.refl _⟩, hplaced, hidle⟩

theorem onHold_buildFightingPit {ctx : EncounterContext} {wsId : String}
    {fp : ArenaInstance E.toChaiScript} (hteam : fpa.creatorPartyTeam = some team)
    (hidle : ∀ member ∈ team.members, member.Idle)
    (h : fpa.buildFightingPit P S E env ctx wsId = .ok (some fp)) : fp.OnHold := by
  unfold buildFightingPit at h
  rw [hteam] at h
  dsimp only at h
  split_ifs at h
  · cases h
  · cases h
  · split at h
    · cases h
    · rename_i prepared hprepare
      split at h
      · cases h
      · cases h
      · rename_i board loaded hgenerate
        split at h
        · cases h
        · rename_i built hinit
          obtain rfl : built = fp := Option.some.inj (Except.ok.inj h)
          obtain ⟨hending, hsides, hplaced, hmembers⟩ := prepare_onHold hidle hprepare
          obtain ⟨hplaced', hmembers'⟩ := generateContenders_placed hplaced hmembers hgenerate
          refine onHold_initializeSideBattles ?_ ?_ ?_ ?_ hinit
          · exact hending
          · exact hsides
          · exact hplaced'
          · exact hmembers'

end Pit

end FyS.Arena
