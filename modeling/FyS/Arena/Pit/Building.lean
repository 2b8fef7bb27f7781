import FyS.Arena.Pit.Announcer
import FyS.Arena.Pit.PartyTeams

/-!
# `buildFightingPit`

The rest of `fightingPit/FightingPitAnnouncer.cpp`: the pit that is built has
its creator as the only admitted player and the only owner of a team.
-/

namespace FyS.Arena

open FyS.Common

/-- Ways a handler of the server can fail: as a method of a pit or the generation
of its contenders does, with a failing `at`, on an iterator that points at no
entry, on a field that a message leaves out, or with the exception of
`getPartyTeamOfPlayer`. -/
inductive ServiceFault where
  | pit (fault : PitFault)
  | generation (fault : GenerationFault)
  | outOfRange
  | endIterator
  | nullField
  | noTeam
deriving DecidableEq, Repr

structure Surroundings where
  cml : String → Option String
  rng : RandomGenerator
  initialSpeed : Nat → Nat
  fuel : Nat

namespace ChaiRegister

/-- The keys of `registerBaseActions`. -/
def baseActions : List String :=
  ["arena:actions:action.chai", "arena:actions:damage:damage.chai", "arena:actions:heal:heal.chai",
    "arena:actions:zone_damage:zone_damage.chai", "arena:actions:zone_heal:zone_heal.chai",
    "arena:contenders:contender_functions.chai"]

/-- The body of the loop of `registerBaseActions`. -/
def registerBaseAction {C : ChaiScript} (cml : String → Option String) (actionKey : String)
    (chai : C.State) : Except PitFault C.State :=
  let actionScript := (cml actionKey).getD ""
  if actionScript.isEmpty then .ok chai
  else
    match C.eval actionScript chai with
    | (.error .other, _) => .error .script
    | (_, chai) => .ok chai

def registerBaseActions {C : ChaiScript} (cml : String → Option String) (chai : C.State) :
    Except PitFault C.State :=
  baseActions.foldlM (fun chai actionKey => registerBaseAction cml actionKey chai) chai

end ChaiRegister

/-- `FightingPit::initializeSideBattles`. -/
def ArenaInstance.initializeSideBattles {C : ChaiScript} (P : Platform) (fuel : Nat)
    (fp : ArenaInstance C) : Except Fault (ArenaInstance C) :=
  match fp.toFightingPit.initializeSideBattles P fuel with
  | .error fault => .error fault
  | .ok pit => .ok { fp with toFightingPit := pit }

namespace FightingPitAnnouncer

variable (P : Platform) (S : SideSort) (E : PitEngine)

def prepare (env : Surroundings) (fpa : FightingPitAnnouncer) (team : PartyTeam) :
    Except PitFault (ArenaInstance E.toChaiScript) := do
  let fp := (ArenaInstance.new fpa.creatorUserName fpa.difficulty E.createChaiInstance :
    ArenaInstance E.toChaiScript).addAuthenticatedUser fpa.creatorUserName fpa.creatorUserToken
  let chai ← ChaiRegister.registerBaseActions env.cml fp.chai
  { fp with chai }.addPartyTeamAndRegisterActions S env.cml team

def buildFightingPit (env : Surroundings) (fpa : FightingPitAnnouncer) (ctx : EncounterContext)
    (wsId : String) : Except ServiceFault (Option (ArenaInstance E.toChaiScript)) :=
  match fpa.creatorPartyTeam with
  | none => .ok none
  | some team =>
    if fpa.creatorUserName.isEmpty || fpa.creatorUserToken.isEmpty then .ok none
    else if !ctx.zoneRegistered wsId then .ok none
    else
      match fpa.prepare S E env team with
      | .error fault => .error (.pit fault)
      | .ok fp =>
        match fpa.generateContenders E env.cml env.rng env.initialSpeed ctx wsId fp.toBoard with
        | .error fault => .error (.generation fault)
        | .ok (false, _) => .ok none
        | .ok (true, board, _) =>
          match ({ fp with toBoard := board } : ArenaInstance E.toChaiScript).initializeSideBattles
            P env.fuel with
          | .error fault => .error (.pit (.scheduler fault))
          | .ok fp => .ok (some fp)

/-! ## The steps of building -/

variable {P S E}

/-- A prepared pit has an engine that went through the base scripts and those of the team,
and nothing in it but the team. -/
theorem prepare_eq_ok {env : Surroundings} {fpa : FightingPitAnnouncer} {team : PartyTeam}
    {fp : ArenaInstance E.toChaiScript} (h : fpa.prepare S E env team = .ok fp) :
    (∃ chai ready, ChaiRegister.registerBaseActions (C := E.toChaiScript) env.cml
        E.createChaiInstance = .ok chai ∧
      ChaiRegister.loadAndRegisterAction (C := E.toChaiScript) env.cml team chai =
        .ok (ready, fp.chai)) ∧
      fp.contenders = ⟨[], []⟩ ∧ fp.sideBattles = [] := by
  obtain ⟨chai, hbase, hfp⟩ := Library.Fuel.bind_eq_ok.mp h
  unfold ArenaInstance.addPartyTeamAndRegisterActions at hfp
  split at hfp
  · cases hfp
  · rename_i pit hpit
    obtain ⟨⟨ready, chai'⟩, hload, heq⟩ := Library.Fuel.bind_eq_ok.mp hpit
    rw [← Except.ok.inj hfp, ← Except.ok.inj heq]
    exact ⟨⟨chai, ready, hbase, hload⟩, rfl, (S.perm _ []).eq_nil⟩

theorem initializeSideBattles_eq_ok {C : ChaiScript} {fuel : Nat} {fp fp' : ArenaInstance C}
    (h : fp.initializeSideBattles P fuel = .ok fp') :
    ∃ sideBattles, fp' = { fp with sideBattles := sideBattles } := by
  unfold ArenaInstance.initializeSideBattles at h
  split at h
  · cases h
  · rename_i pit hpit
    obtain ⟨sideBattles, -, heq⟩ := Library.Fuel.bind_eq_ok.mp hpit
    refine ⟨sideBattles, ?_⟩
    rw [← Except.ok.inj h, ← Except.ok.inj heq]

theorem buildFightingPit_eq_some {env : Surroundings} {fpa : FightingPitAnnouncer}
    {ctx : EncounterContext} {wsId : String} {fp : ArenaInstance E.toChaiScript}
    (h : fpa.buildFightingPit P S E env ctx wsId = .ok (some fp)) :
    ∃ team prepared board loaded sideBattles, fpa.creatorPartyTeam = some team ∧
      fpa.prepare S E env team = .ok prepared ∧
      fpa.generateContenders E env.cml env.rng env.initialSpeed ctx wsId prepared.toBoard =
        .ok (true, board, loaded) ∧
      fp = { prepared with toBoard := board, sideBattles := sideBattles } := by
  unfold buildFightingPit at h
  split at h
  · cases h
  · rename_i team hteam
    split_ifs at h
    · cases h
    · cases h
    · split at h
      · cases h
      · rename_i prepared hprepare
        split at h
        · cases h
        · cases h
        · rename_i board loaded hgenerate
          split at h
          · cases h
          · rename_i pit hinit
            obtain ⟨sideBattles, rfl⟩ := initializeSideBattles_eq_ok hinit
            exact ⟨team, prepared, board, loaded, sideBattles, hteam, hprepare, hgenerate,
              (Option.some.inj (Except.ok.inj h)).symm⟩

/-! ## Who is in the pit that is built -/

theorem userNames_evalOnPit (code : String) (board : Board E.toChaiScript) :
    (board.evalOnPit E code).2.partyTeams.userNames = board.partyTeams.userNames := by
  simp [Board.evalOnPit, Board.affected]

theorem userNames_loadContenderScript {cs : ContenderScripting} {script : String}
    {board board' : Board E.toChaiScript}
    (h : cs.loadContenderScript E script board = .ok board') :
    board'.partyTeams.userNames = board.partyTeams.userNames := by
  unfold ContenderScripting.loadContenderScript at h
  split at h
  · cases h
  · rename_i result loaded hnot hload
    have hloaded : loaded.partyTeams.userNames = board.partyTeams.userNames := by
      have hsnd := congrArg (fun r => r.2.partyTeams.userNames) hload
      split_ifs at hsnd
      · exact hsnd.symm
      · rw [← hsnd]
        exact userNames_evalOnPit script board
    split at h
    · cases h
    · rename_i created hcreate
      rw [← Except.ok.inj h, ← hloaded]
      have hsnd := congrArg (fun r => r.2.partyTeams.userNames) hcreate
      exact hsnd.symm.trans (userNames_evalOnPit _ _)

theorem userNames_addContender {contender : FightingContender} {ready : Bool}
    {board board' : Board E.toChaiScript}
    (h : board.addContender E contender = .ok (ready, board')) :
    board'.partyTeams.userNames = board.partyTeams.userNames := by
  unfold Board.addContender ContenderScripting.setupContender at h
  split at h
  · rename_i hsetup
    have hsnd := congrArg (fun r => r.2.partyTeams.userNames) hsetup
    rw [← (Prod.mk.inj (Except.ok.inj h)).2]
    exact hsnd.symm.trans (userNames_evalOnPit _ _)
  · cases h
  · rename_i hsetup
    have hsnd := congrArg (fun r => r.2.partyTeams.userNames) hsetup
    rw [← (Prod.mk.inj (Except.ok.inj h)).2]
    exact hsnd.symm.trans (userNames_evalOnPit _ _)

variable {cml : String → Option String} {rng : RandomGenerator} {initialSpeed : Nat → Nat}

theorem userNames_generateContender {boundaryMap : BoundaryMap EncounterDesc} {i : Nat}
    {fp fp' : Board E.toChaiScript × List String} {ready : Bool}
    (h : generateContender E cml rng initialSpeed boundaryMap i fp = .ok (ready, fp')) :
    fp'.1.partyTeams.userNames = fp.1.partyTeams.userNames := by
  simp only [generateContender, addDrawn] at h
  split at h
  · cases h
  · split at h
    · cases h
    · rename_i hload
      split at h
      · cases h
      · rename_i hadd
        rw [← (Prod.mk.inj (Except.ok.inj h)).2]
        exact (userNames_addContender hadd).trans (userNames_loadContenderScript hload)
      · rename_i hadd
        rw [← (Prod.mk.inj (Except.ok.inj h)).2]
        exact (userNames_addContender hadd).trans (userNames_loadContenderScript hload)

theorem userNames_generateEach {boundaryMap : BoundaryMap EncounterDesc} {is : List Nat}
    {fp fp' : Board E.toChaiScript × List String} {ready : Bool}
    (h : generateEach E cml rng initialSpeed boundaryMap is fp = .ok (ready, fp')) :
    fp'.1.partyTeams.userNames = fp.1.partyTeams.userNames := by
  induction is generalizing fp with
  | nil => rw [← (Prod.mk.inj (Except.ok.inj h)).2]
  | cons i is ih =>
      rw [generateEach] at h
      split at h
      · cases h
      · rename_i hfirst
        rw [← (Prod.mk.inj (Except.ok.inj h)).2]
        exact userNames_generateContender hfirst
      · rename_i hfirst
        exact (ih h).trans (userNames_generateContender hfirst)

theorem userNames_generateContenders {fpa : FightingPitAnnouncer} {ctx : EncounterContext}
    {wsId : String} {board board' : Board E.toChaiScript} {ready : Bool} {loaded : List String}
    (h : fpa.generateContenders E cml rng initialSpeed ctx wsId board =
      .ok (ready, board', loaded)) :
    board'.partyTeams.userNames = board.partyTeams.userNames := by
  unfold generateContenders at h
  split at h
  · cases h
  · split_ifs at h
    · simp only at h
      split at h
      · cases h
      · split at h
        · cases h
        · exact userNames_generateEach h

theorem admission_prepare {env : Surroundings} {fpa : FightingPitAnnouncer} {team : PartyTeam}
    {fp : ArenaInstance E.toChaiScript} (h : fpa.prepare S E env team = .ok fp) :
    fp.admission = ([⟨fpa.creatorUserName, fpa.creatorUserToken⟩], [team.userName]) := by
  obtain ⟨chai, -, hfp⟩ := Library.Fuel.bind_eq_ok.mp h
  rw [ArenaInstance.admission_addPartyTeam hfp]
  rfl

theorem admission_buildFightingPit {env : Surroundings} {fpa : FightingPitAnnouncer}
    {ctx : EncounterContext} {wsId : String} {fp : ArenaInstance E.toChaiScript}
    (h : fpa.buildFightingPit P S E env ctx wsId = .ok (some fp)) :
    ∃ team, fpa.creatorPartyTeam = some team ∧
      fp.admission = ([⟨fpa.creatorUserName, fpa.creatorUserToken⟩], [team.userName]) := by
  obtain ⟨team, prepared, board, loaded, sideBattles, hteam, hprepare, hgenerate, rfl⟩ :=
    buildFightingPit_eq_some h
  refine ⟨team, hteam, ?_⟩
  rw [← admission_prepare hprepare]
  exact congrArg (Prod.mk prepared.authenticatedPlayers) (userNames_generateContenders hgenerate)

end FightingPitAnnouncer

end FyS.Arena
