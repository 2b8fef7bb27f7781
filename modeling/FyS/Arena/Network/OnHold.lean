import FyS.Arena.Network.Endings
import FyS.Arena.Pit.Waiting

/-!
# A server whose pits wait

Nothing that the server does with a message takes a pit off hold, so a tick finds nothing
to do there, and no message of a player in the game reaches a member.
-/

namespace FyS.Arena

open FyS.Library.Trace

variable {P : Platform} {S : SideSort} {E : PitEngine} {ctx : EncounterContext}

/-! ## All pits wait -/

namespace WorkerService

variable {C : ChaiScript} {ws ws' : WorkerService C}

def Waits (ws : WorkerService C) : Prop :=
  ∀ id fp, ws.arenaInstances.lookup id = some fp → fp.arenaId = some id ∧ fp.OnHold

theorem Waits.insert (h : ws.Waits) {id : UInt32} {fp : ArenaInstance C}
    (hinstances : ws'.arenaInstances = ws.arenaInstances.insert id fp)
    (hid : fp.arenaId = some id) (hfp : fp.OnHold) : ws'.Waits := by
  intro id' fp' hlookup
  rw [hinstances] at hlookup
  by_cases heq : id' = id
  · subst heq
    rw [AList.lookup_insert] at hlookup
    cases hlookup
    exact ⟨hid, hfp⟩
  · rw [AList.lookup_insert_ne heq] at hlookup
    exact h id' fp' hlookup

theorem Waits.addFightingPit (h : ws.Waits) {fp : Option (ArenaInstance C)}
    (hfp : ∀ pit, fp = some pit → pit.OnHold) : (ws.addFightingPit fp).2.Waits := by
  obtain ⟨-, heq⟩ | ⟨pit, id, rfl, -, -, -, -, hinstances, -⟩ := ws.addFightingPit_cases fp
  · rw [heq]
    exact h
  · refine h.insert hinstances rfl ?_
    have hold := hfp pit rfl
    exact ⟨hold.ending, hold.sideBattles, hold.contenders, hold.members⟩

theorem idle_retrievePartyTeam (user : String) :
    ∀ member ∈ (retrievePartyTeam user).members, member.Idle := by
  intro member hmember
  simp only [retrievePartyTeam, List.mem_cons, List.not_mem_nil, or_false] at hmember
  rcases hmember with rfl | rfl | rfl | rfl <;> exact ⟨rfl, rfl, rfl⟩

theorem Waits.playerJoinFightingPit (h : ws.Waits) {cml : String → Option String} {id : UInt32}
    {user : String} (hjoin : ws.playerJoinFightingPit S cml id (retrievePartyTeam user) = .ok ws') :
    ws'.Waits := by
  unfold WorkerService.playerJoinFightingPit at hjoin
  split at hjoin
  · rw [← Except.ok.inj hjoin]
    exact h
  · rename_i fp hlookup
    split at hjoin
    · cases hjoin
    · rename_i joined hteam
      unfold ArenaInstance.addPartyTeamAndRegisterActions at hteam
      split at hteam
      · cases hteam
      · rename_i pit hpit
        obtain ⟨hid, hold⟩ := h id fp hlookup
        have hjoined : joined.OnHold := by
          rw [← Except.ok.inj hteam]
          exact hold.joined (idle_retrievePartyTeam user) hpit
        have hid' : joined.arenaId = some id := by
          rw [← Except.ok.inj hteam]
          exact hid
        rw [← Except.ok.inj hjoin]
        exact h.insert rfl hid' hjoined

theorem lookup_setFightingPit {id : UInt32} {fp : ArenaInstance C} (hid : id ∈ ws.arenaInstances)
    (hlookup : ws.arenaInstances.lookup id = some fp) (id' : UInt32) :
    (ws.setFightingPit id fp hid).arenaInstances.lookup id' = ws.arenaInstances.lookup id' := by
  by_cases heq : id' = id
  · subst heq
    exact (AList.lookup_insert _).trans hlookup.symm
  · exact AList.lookup_insert_ne heq

end WorkerService

namespace ArenaServerService

variable {s t : ArenaServerService E} {log : List Event}

theorem waits_createNewFightingPit {env : Surroundings} {apa : AwaitingPlayerArena}
    {ws ws' : WorkerService E.toChaiScript} {fightingPitId : UInt32} (h : ws.Waits)
    (hcreate : createNewFightingPit P S ctx env apa ws = .ok (fightingPitId, ws')) : ws'.Waits := by
  unfold createNewFightingPit at hcreate
  split at hcreate
  · cases hcreate
  · dsimp only at hcreate
    split at hcreate
    · cases hcreate
    · rename_i gen _ fp hbuild
      rw [← (Prod.mk.inj (Except.ok.inj hcreate)).2]
      apply h.addFightingPit
      rintro pit rfl
      exact onHold_buildFightingPit rfl (WorkerService.idle_retrievePartyTeam _) hbuild

theorem waits_logIn {fightingPitId : UInt32} {userName identityPlayer : String}
    (h : s.workerService.Waits)
    (hlogIn : logIn fightingPitId userName identityPlayer s = ⟨log, .ok t⟩) :
    t.workerService.Waits := by
  rw [logIn_workerService hlogIn]
  exact h

theorem waits_registerPlayer {identityWs : String} {binary : FightingPitEncounter}
    (h : s.workerService.Waits)
    (hregister : s.registerPlayer identityWs binary = ⟨log, .ok t⟩) : t.workerService.Waits := by
  unfold registerPlayer at hregister
  split at hregister
  · cases (Traced.mk.inj hregister).2
  · split_ifs at hregister
    all_goals
      rw [← (Traced.ok_eq_ok.mp hregister).2]
      exact h

theorem waits_authenticate {env : Surroundings} {identityPlayer : String}
    {binary : ArenaServerValidateAuth} (h : s.workerService.Waits)
    (hauth : s.authenticate P S ctx env identityPlayer binary = ⟨log, .ok t⟩) :
    t.workerService.Waits := by
  have hok : (s.authenticate P S ctx env identityPlayer binary).result.isOk = true := by
    rw [hauth]
    rfl
  obtain ⟨player, apa, rfl, hawaits⟩ := awaits_of_authenticate hok
  rw [authenticate_awaited hawaits] at hauth
  split_ifs at hauth
  · unfold logInByCreating at hauth
    split at hauth
    · cases (Traced.mk.inj hauth).2
    · rename_i id ws hcreate
      have hws := waits_createNewFightingPit h hcreate
      split_ifs at hauth
      · rw [← (Traced.ok_eq_ok.mp hauth).2]
        exact hws
      · obtain ⟨_, _, _, hfirst, hlogIn, -⟩ := Traced.andThen_eq_ok.mp hauth
        refine waits_logIn ?_ hlogIn
        rw [← (Traced.ok_eq_ok.mp hfirst).2]
        exact hws
  · unfold logInByJoining at hauth
    split_ifs at hauth
    · rw [← (Traced.ok_eq_ok.mp hauth).2]
      exact h
    · split at hauth
      · cases (Traced.mk.inj hauth).2
      · rename_i ws hjoin
        obtain ⟨_, _, _, hfirst, hlogIn, -⟩ := Traced.andThen_eq_ok.mp hauth
        refine waits_logIn ?_ hlogIn
        rw [← (Traced.ok_eq_ok.mp hfirst).2]
        exact h.playerJoinFightingPit hjoin

theorem lookup_inGame {authFrame : ArenaServerValidateAuth}
    (hinGame : s.inGame authFrame = ⟨log, .ok t⟩) (id : UInt32) :
    t.workerService.arenaInstances.lookup id = s.workerService.arenaInstances.lookup id := by
  unfold inGame at hinGame
  split at hinGame
  · split at hinGame
    · rw [← (Traced.ok_eq_ok.mp hinGame).2]
    · rename_i fp hfp
      rw [← (Traced.ok_eq_ok.mp hinGame).2]
      simp only [forwardMessageToTeamMember_zero]
      exact WorkerService.lookup_setFightingPit (WorkerService.mem_of_authenticated hfp)
        (WorkerService.authenticated_iff.mp hfp).1 id
  · cases (Traced.mk.inj hinGame).2

theorem waits_handle {input : Input} (h : s.workerService.Waits)
    (hhandle : s.handle P S ctx input = ⟨log, .ok t⟩) : t.workerService.Waits := by
  cases input with
  | encounter identityWs binary => exact waits_registerPlayer h hhandle
  | auth env identityPlayer binary => exact waits_authenticate h hhandle
  | inGame authFrame =>
      intro id fp hlookup
      rw [lookup_inGame hhandle] at hlookup
      exact h id fp hlookup

theorem run_waits {inputs : List Input} (hrun : runServerLoop P S ctx inputs = ⟨log, .ok s⟩) :
    s.workerService.Waits := by
  have hstart : (start : ArenaServerService E).workerService.Waits := by
    intro id fp hlookup
    cases hlookup
  apply runs_history (J := fun s _ => s.workerService.Waits) hstart _ hrun
  intro input s done t new hs h
  exact waits_handle hs h

end ArenaServerService

theorem FightingPit.OnHold.continueBattle {C : ChaiScript} {fp : FightingPit C} (h : fp.OnHold)
    (P : Platform) (fuel : Nat) (now : Int) :
    fp.continueBattle P fuel now = ⟨[], .ok fp⟩ := by
  simp only [FightingPit.continueBattle, FightingPit.checkEndStatusFightingPit, h.ending]
  rfl

namespace ArenaServerService

/-- Whatever messages a server has handled, every pit is registered under its id and is on
hold: a tick leaves it as it is, and so does every message of a player in the game. -/
theorem pits_wait {inputs : List Input} {s : ArenaServerService E} {log : List Event}
    (hrun : runServerLoop P S ctx inputs = ⟨log, .ok s⟩) :
    (∀ id fp, s.workerService.arenaInstances.lookup id = some fp →
      fp.arenaId = some id ∧ fp.OnHold ∧
        ∀ (P : Platform) (fuel : Nat) (now : Int),
          fp.toFightingPit.continueBattle P fuel now = ⟨[], .ok fp.toFightingPit⟩) ∧
      ∀ authFrame new t, s.inGame authFrame = ⟨new, .ok t⟩ →
        ∀ id, t.workerService.arenaInstances.lookup id =
          s.workerService.arenaInstances.lookup id := by
  constructor
  · intro id fp hlookup
    obtain ⟨hid, hold⟩ := run_waits hrun id fp hlookup
    exact ⟨hid, hold, hold.continueBattle⟩
  · intro authFrame new t hinGame id
    exact lookup_inGame hinGame id

theorem pits_wait_comesTwice :
    ∃ s, slimesRun comesTwice = ⟨(slimesRun comesTwice).log, .ok s⟩ ∧
      (∀ id fp, s.workerService.arenaInstances.lookup id = some fp →
        fp.arenaId = some id ∧ fp.OnHold ∧
          ∀ (P : Platform) (fuel : Nat) (now : Int),
            fp.toFightingPit.continueBattle P fuel now = ⟨[], .ok fp.toFightingPit⟩) ∧
      ∀ authFrame new t, s.inGame authFrame = ⟨new, .ok t⟩ →
        ∀ id, t.workerService.arenaInstances.lookup id =
          s.workerService.arenaInstances.lookup id := by
  obtain ⟨s, hrun⟩ := Traced.eq_of_isOk comesTwice_returns
  exact ⟨s, hrun, pits_wait hrun⟩

end ArenaServerService

end FyS.Arena
