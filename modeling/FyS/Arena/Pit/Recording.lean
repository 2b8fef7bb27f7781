import FyS.Arena.Pit.Encounters

/-!
# An engine that keeps the texts

Any engine can be made to note the texts that it evaluates on a pit.  What is built
with it is what is built without, but for the notes.
-/

namespace FyS.Arena

open FyS.Common FightingPitAnnouncer

structure Recorder (E : PitEngine) where
  evaluated : E.State → List String
  evaluated_evalOnPit : ∀ code contenders partyTeams chai,
    evaluated (E.evalOnPit code contenders partyTeams chai).2.2 = evaluated chai ++ [code]

namespace PitEngine

variable (E : PitEngine)

def recording : PitEngine where
  State := E.State × List String
  Function := E.Function
  eval code chai := ((E.eval code chai.1).1, (E.eval code chai.1).2, chai.2)
  evalFunction code chai := ((E.evalFunction code chai.1).1, (E.evalFunction code chai.1).2, chai.2)
  evalTargeting code chai :=
    ((E.evalTargeting code chai.1).1, (E.evalTargeting code chai.1).2, chai.2)
  callWithId function id contenders partyTeams chai :=
    let r := E.callWithId function id contenders partyTeams chai.1
    (r.1, r.2.1, r.2.2, chai.2)
  callWithStatus function status contenders partyTeams chai :=
    let r := E.callWithStatus function status contenders partyTeams chai.1
    (r.1, r.2.1, r.2.2, chai.2)
  createChaiInstance := (E.createChaiInstance, [])
  evalOnPit code contenders partyTeams chai :=
    let r := E.evalOnPit code contenders partyTeams chai.1
    (r.1, r.2.1, r.2.2, chai.2 ++ [code])

def recorder : Recorder E.recording where
  evaluated := Prod.snd
  evaluated_evalOnPit _ _ _ _ := rfl

variable {E}

theorem evalErrorsOnly_recording (h : EvalErrorsOnly E) : EvalErrorsOnly E.recording :=
  ⟨fun code chai => h.eval code chai.1,
    fun code contenders partyTeams chai => h.evalOnPit code contenders partyTeams chai.1⟩

end PitEngine

/-! ## Without the notes -/

def Board.forget {E : PitEngine} (board : Board E.recording.toChaiScript) : Board E.toChaiScript where
  contenders := board.contenders
  partyTeams := board.partyTeams
  chai := board.chai.1

def FightingPit.forget {E : PitEngine} (fp : FightingPit E.recording.toChaiScript) :
    FightingPit E.toChaiScript where
  toBoard := fp.toBoard.forget
  ending := fp.ending
  levelFightingPit := fp.levelFightingPit
  timeInterlude := fp.timeInterlude
  sideBattles := fp.sideBattles

def ArenaInstance.forget {E : PitEngine} (fp : ArenaInstance E.recording.toChaiScript) :
    ArenaInstance E.toChaiScript where
  toFightingPit := fp.toFightingPit.forget
  creatorUserName := fp.creatorUserName
  arenaId := fp.arenaId
  authenticatedPlayers := fp.authenticatedPlayers

variable {E : PitEngine} {P : Platform} {S : SideSort}

/-! ## Actions -/

section Actions

variable (cml : String → Option String)

theorem registerBaseAction_forget (actionKey : String) (chai : E.recording.State) :
    (ChaiRegister.registerBaseAction (C := E.recording.toChaiScript) cml actionKey chai).map Prod.fst =
      ChaiRegister.registerBaseAction (C := E.toChaiScript) cml actionKey chai.1 := by
  unfold ChaiRegister.registerBaseAction PitEngine.recording
  simp only
  split_ifs
  · rfl
  · obtain ⟨result, chai'⟩ := E.eval ((cml actionKey).getD "") chai.1
    match result with
    | .ok () => rfl
    | .error .evalError => rfl
    | .error .other => rfl

theorem registerBaseActions_forget (chai : E.recording.State) :
    (ChaiRegister.registerBaseActions (C := E.recording.toChaiScript) cml chai).map Prod.fst =
      ChaiRegister.registerBaseActions (C := E.toChaiScript) cml chai.1 := by
  unfold ChaiRegister.registerBaseActions
  generalize ChaiRegister.baseActions = actionKeys
  induction actionKeys generalizing chai with
  | nil => rfl
  | cons actionKey rest ih =>
      rw [List.foldlM_cons, List.foldlM_cons, ← registerBaseAction_forget]
      cases ChaiRegister.registerBaseAction (C := E.recording.toChaiScript) cml actionKey chai with
      | error fault => rfl
      | ok chai' => exact ih chai'

theorem registerAction_forget (r : Registration) (chai : E.recording.State) :
    ChaiRegister.registerAction (C := E.toChaiScript) cml r chai.1 =
      ((ChaiRegister.registerAction (C := E.recording.toChaiScript) cml r chai).1,
        (ChaiRegister.registerAction (C := E.recording.toChaiScript) cml r chai).2.1) := by
  unfold ChaiRegister.registerAction
  cases cml r.action with
  | none => rfl
  | some script => rfl

theorem registerAll_forget (rs : List Registration) (chai : E.recording.State) :
    ChaiRegister.registerAll (C := E.toChaiScript) cml rs chai.1 =
      ((ChaiRegister.registerAll (C := E.recording.toChaiScript) cml rs chai).1,
        (ChaiRegister.registerAll (C := E.recording.toChaiScript) cml rs chai).2.1) := by
  induction rs generalizing chai with
  | nil => rfl
  | cons r rest ih =>
      rw [ChaiRegister.registerAll, ChaiRegister.registerAll, registerAction_forget]
      obtain ⟨result, chai'⟩ :=
        ChaiRegister.registerAction (C := E.recording.toChaiScript) cml r chai
      cases result with
      | error e => rfl
      | ok _ => exact ih chai'

theorem loadAndRegisterAction_forget (pt : PartyTeam) (chai : E.recording.State) :
    ChaiRegister.loadAndRegisterAction (C := E.toChaiScript) cml pt chai.1 =
      (ChaiRegister.loadAndRegisterAction (C := E.recording.toChaiScript) cml pt chai).map
        fun r => (r.1, r.2.1) := by
  unfold ChaiRegister.loadAndRegisterAction
  rw [registerAll_forget]
  generalize ChaiRegister.registerAll (C := E.recording.toChaiScript) cml _ chai = r
  obtain ⟨result, chai'⟩ := r
  match result with
  | .ok () => rfl
  | .error .evalError => rfl
  | .error .other => rfl

theorem addPartyTeamAndRegisterActions_forget (pt : PartyTeam)
    (fp : ArenaInstance E.recording.toChaiScript) :
    fp.forget.addPartyTeamAndRegisterActions S cml pt =
      (fp.addPartyTeamAndRegisterActions S cml pt).map ArenaInstance.forget := by
  have hload := loadAndRegisterAction_forget cml pt fp.chai
  unfold ArenaInstance.addPartyTeamAndRegisterActions FightingPit.addPartyTeamAndRegisterActions
  have hchai : fp.forget.toFightingPit.chai = fp.chai.1 := rfl
  rw [hchai, hload]
  cases ChaiRegister.loadAndRegisterAction (C := E.recording.toChaiScript) cml pt fp.chai with
  | error fault => rfl
  | ok r => rfl

theorem prepare_forget (env : Surroundings) (fpa : FightingPitAnnouncer) (team : PartyTeam) :
    fpa.prepare S E env team = (fpa.prepare S E.recording env team).map ArenaInstance.forget := by
  have hbase := registerBaseActions_forget (E := E) env.cml (E.createChaiInstance, [])
  have hstart : E.recording.createChaiInstance = (E.createChaiInstance, []) := rfl
  unfold prepare
  simp only [ArenaInstance.addAuthenticatedUser, ArenaInstance.new, FightingPit.new, hstart]
  rw [← hbase]
  cases ChaiRegister.registerBaseActions (C := E.recording.toChaiScript) env.cml
      (E.createChaiInstance, []) with
  | error fault => rfl
  | ok chai =>
      have hadd := addPartyTeamAndRegisterActions_forget (S := S) env.cml team
        { (ArenaInstance.new fpa.creatorUserName fpa.difficulty (E.createChaiInstance, []) :
            ArenaInstance E.recording.toChaiScript).addAuthenticatedUser fpa.creatorUserName
              fpa.creatorUserToken with chai }
      exact hadd

end Actions

/-! ## Contenders -/

section Contenders

theorem evalOnPit_forget (code : String) (board : Board E.recording.toChaiScript) :
    board.forget.evalOnPit E code =
      ((board.evalOnPit E.recording code).1, (board.evalOnPit E.recording code).2.forget) := rfl

theorem loadContenderScript_forget (cs : ContenderScripting) (script : String)
    (board : Board E.recording.toChaiScript) :
    cs.loadContenderScript E script board.forget =
      (cs.loadContenderScript E.recording script board).map Board.forget := by
  have hload : (if script.isEmpty then (.ok (), board.forget) else board.forget.evalOnPit E script) =
      ((if script.isEmpty then (.ok (), board) else board.evalOnPit E.recording script).1,
        (if script.isEmpty then (.ok (), board) else board.evalOnPit E.recording script).2.forget) := by
    split_ifs
    · rfl
    · rfl
  unfold ContenderScripting.loadContenderScript
  rw [hload]
  generalize (if script.isEmpty then (.ok (), board) else board.evalOnPit E.recording script) = r
  obtain ⟨result, loaded⟩ := r
  match result with
  | .error .other => rfl
  -- an evaluation error of the class is caught and dropped
  | .ok () | .error .evalError =>
      simp only [evalOnPit_forget]
      generalize Board.evalOnPit E.recording _ loaded = r
      obtain ⟨created, made⟩ := r
      cases created with
      | error e => rfl
      | ok _ => rfl

theorem addContender_forget (contender : FightingContender) (board : Board E.recording.toChaiScript) :
    board.forget.addContender E contender =
      (board.addContender E.recording contender).map fun r => (r.1, r.2.forget) := by
  unfold Board.addContender ContenderScripting.setupContender
  have hadded : ({ board.forget with contenders := ⟨board.forget.contenders.contenders ++ [contender],
      board.forget.contenders.changeSideFlags ++ [false]⟩ } : Board E.toChaiScript) =
        Board.forget { board with contenders := ⟨board.contenders.contenders ++ [contender],
          board.contenders.changeSideFlags ++ [false]⟩ } := rfl
  rw [hadded, evalOnPit_forget]
  generalize Board.evalOnPit E.recording _ _ = r
  obtain ⟨result, board'⟩ := r
  match result with
  | .ok () => rfl
  | .error .evalError => rfl
  | .error .other => rfl

variable {cml : String → Option String} {rng : RandomGenerator} {initialSpeed : Nat → Nat}
  {boundaryMap : BoundaryMap EncounterDesc}

def forgetTurn (r : Bool × Board E.recording.toChaiScript × List String) :
    Bool × Board E.toChaiScript × List String := (r.1, r.2.1.forget, r.2.2)

theorem generateContender_forget (i : Nat) (board : Board E.recording.toChaiScript)
    (loadedScript : List String) :
    generateContender E cml rng initialSpeed boundaryMap i (board.forget, loadedScript) =
      (generateContender E.recording cml rng initialSpeed boundaryMap i (board, loadedScript)).map
        forgetTurn := by
  simp only [generateContender, addDrawn]
  cases boundaryMap.get (rng.generateInRange (2 * i + 1) 0 100) with
  | none => rfl
  | some entry =>
      simp only [loadContenderScript_forget]
      cases ContenderScripting.loadContenderScript E.recording
          (getScriptContentString cml (getNameFromKey entry.2.key) entry.2 loadedScript).1
          ⟨getNameFromKey entry.2.key, (rng.generateInRange (2 * i + 2) 1 10).toNat, i⟩ board with
      | error fault => rfl
      | ok loaded =>
          simp only [Except.map, addContender_forget]
          have hnumber : loaded.forget.contenders = loaded.contenders := rfl
          rw [hnumber]
          generalize Board.addContender E.recording _ loaded = r
          cases r with
          | error fault => rfl
          | ok made =>
              obtain ⟨ready, board'⟩ := made
              cases ready with
              | false => rfl
              | true => rfl

theorem generateEach_forget (is : List Nat) (board : Board E.recording.toChaiScript)
    (loadedScript : List String) :
    generateEach E cml rng initialSpeed boundaryMap is (board.forget, loadedScript) =
      (generateEach E.recording cml rng initialSpeed boundaryMap is (board, loadedScript)).map
        forgetTurn := by
  induction is generalizing board loadedScript with
  | nil => rfl
  | cons i is ih =>
      rw [generateEach, generateEach, generateContender_forget]
      generalize generateContender E.recording cml rng initialSpeed boundaryMap i
        (board, loadedScript) = r
      cases r with
      | error fault => rfl
      | ok turn =>
          obtain ⟨ready, board', loadedScript'⟩ := turn
          cases ready with
          | false => rfl
          | true => exact ih board' loadedScript'

theorem generateContenders_forget (fpa : FightingPitAnnouncer) (ctx : EncounterContext)
    (wsId : String) (board : Board E.recording.toChaiScript) :
    fpa.generateContenders E cml rng initialSpeed ctx wsId board.forget =
      (fpa.generateContenders E.recording cml rng initialSpeed ctx wsId board).map forgetTurn := by
  unfold generateContenders
  cases FightingPitAnnouncer.range ctx wsId fpa.difficulty with
  | none => rfl
  | some range =>
      simp only
      split_ifs
      · cases ctx.contendersPerZone.lookup wsId with
        | none => rfl
        | some contenders =>
            simp only
            cases makeContenderRngBoundaryMap contenders fpa.difficulty with
            | error fault => rfl
            | ok boundaryMap => exact generateEach_forget _ board fpa.loadedScript
      · rfl

end Contenders

/-! ## Pits -/

theorem initializeSideBattles_forget (fuel : Nat) (fp : ArenaInstance E.recording.toChaiScript) :
    fp.forget.initializeSideBattles P fuel =
      (fp.initializeSideBattles P fuel).map ArenaInstance.forget := by
  unfold ArenaInstance.initializeSideBattles FightingPit.initializeSideBattles
    FightingPit.initializePriorityListInSidesBattle
  have hlists : FightingPit.initializePriorityList P fuel
      { fp.forget.toFightingPit with
        sideBattles := fp.forget.sideBattles ++ FightingPit.sides.map SideBattle.new } =
      FightingPit.initializePriorityList P fuel
        { fp.toFightingPit with
          sideBattles := fp.sideBattles ++ FightingPit.sides.map SideBattle.new } := rfl
  have hbattles : fp.forget.sideBattles = fp.sideBattles := rfl
  rw [hlists]
  simp only [hbattles]
  generalize (List.mapM _ _ : Except Fault (List SideBattle)) = r
  cases r with
  | error fault => rfl
  | ok sideBattles => rfl

/-- Recording changes nothing but the notes. -/
theorem buildFightingPit_forget (env : Surroundings) (fpa : FightingPitAnnouncer)
    (ctx : EncounterContext) (wsId : String) :
    fpa.buildFightingPit P S E env ctx wsId =
      (fpa.buildFightingPit P S E.recording env ctx wsId).map (Option.map ArenaInstance.forget) := by
  unfold buildFightingPit
  cases fpa.creatorPartyTeam with
  | none => rfl
  | some team =>
      simp only
      split_ifs
      · rfl
      · rfl
      · rw [prepare_forget]
        cases fpa.prepare S E.recording env team with
        | error fault => rfl
        | ok fp =>
            have hboard : fp.forget.toBoard = fp.toBoard.forget := rfl
            simp only [Except.map, hboard, generateContenders_forget]
            generalize fpa.generateContenders E.recording env.cml env.rng env.initialSpeed ctx wsId
              fp.toBoard = r
            cases r with
            | error fault => rfl
            | ok generated =>
                obtain ⟨ready, board, loadedScript⟩ := generated
                cases ready with
                | false => rfl
                | true =>
                    have hinit := initializeSideBattles_forget (P := P) env.fuel
                      ({ fp with toBoard := board } : ArenaInstance E.recording.toChaiScript)
                    have hforget : ({ fp with toBoard := board } :
                        ArenaInstance E.recording.toChaiScript).forget =
                      { fp.forget with toBoard := board.forget } := rfl
                    rw [hforget] at hinit
                    simp only [forgetTurn, hinit]
                    cases ({ fp with toBoard := board } :
                        ArenaInstance E.recording.toChaiScript).initializeSideBattles P env.fuel with
                    | error fault => rfl
                    | ok fp' => rfl

end FyS.Arena
