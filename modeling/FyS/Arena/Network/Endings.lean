import FyS.Arena.Network.Creation
import FyS.Arena.Network.Protocol

/-!
# What ends a server

The handlers are `noexcept` or called from a loop that is, so an exception in one of them ends
the server.  The message with which an arriving team is announced gets through to one player
only: a pit goes on with a single user, and the second one ends the server.
-/

namespace FyS.Arena

open FyS.Library.Trace FyS.Library.KeyedTable

/-! ## Who is identified on a pit -/

namespace WorkerService

variable {C : ChaiScript}

def users (fightingPitId : UInt32) (ws : WorkerService C) : List String :=
  ((ws.arenaIdOnIdentifier.lookup fightingPitId).getD []).map PlayerIdentifier.userName

theorem users_addPlayerIdentifier (fightingPitId id : UInt32) (userName identity : String)
    (ws : WorkerService C) :
    (ws.addPlayerIdentifier fightingPitId userName identity).users id =
      if id = fightingPitId then
        if userName ∈ ws.users id then ws.users id else ws.users id ++ [userName]
      else ws.users id := by
  unfold users addPlayerIdentifier
  split_ifs with hid hmem
  · subst hid
    rw [AList.lookup_insert, Option.getD_some, map_upsert, if_pos hmem]
  · subst hid
    rw [AList.lookup_insert, Option.getD_some, map_upsert, if_neg hmem]
  · rw [AList.lookup_insert_ne hid]

/-- A message without frames is emptied by the first player it is sent to. -/
theorem broadcastMsg_nil_isOk_iff (fightingPitId : UInt32) (ws : WorkerService C) :
    (ws.broadcastMsg fightingPitId []).result.isOk = true ↔
      (ws.users fightingPitId).length ≤ 1 := by
  unfold broadcastMsg users
  cases ws.arenaIdOnIdentifier.lookup fightingPitId with
  | none => exact ⟨fun _ => Nat.zero_le _, fun _ => rfl⟩
  | some identifiers =>
      cases identifiers with
      | nil => exact ⟨fun _ => Nat.zero_le _, fun _ => rfl⟩
      | cons first rest =>
          cases rest with
          | nil => exact ⟨fun _ => Nat.le_refl _, fun _ => rfl⟩
          | cons second rest =>
              constructor
              · intro h
                cases h
              · intro h
                simp at h

theorem users_congr {ws ws' : WorkerService C}
    (h : ws'.arenaIdOnIdentifier = ws.arenaIdOnIdentifier) (id : UInt32) :
    ws'.users id = ws.users id := by
  rw [users, users, h]

theorem playerJoinFightingPit_identifiers {S : SideSort} {cml : String → Option String}
    {fightingPitId : UInt32} {pt : PartyTeam} {ws ws' : WorkerService C}
    (h : ws.playerJoinFightingPit S cml fightingPitId pt = .ok ws') :
    ws'.arenaIdOnIdentifier = ws.arenaIdOnIdentifier := by
  unfold playerJoinFightingPit at h
  split at h
  · rw [← Except.ok.inj h]
  · split at h
    · cases h
    · rw [← Except.ok.inj h]
      rfl

theorem playerJoinFightingPit_isOk (S : SideSort) (cml : String → Option String)
    (fightingPitId : UInt32) {pt : PartyTeam} (hpt : ∀ tm ∈ pt.members, tm.actionsDoable = [])
    (ws : WorkerService C) :
    (ws.playerJoinFightingPit S cml fightingPitId pt).isOk = true := by
  have hnone : pt.registrations = [] := by
    rw [PartyTeam.registrations, List.flatMap_eq_nil_iff]
    intro tm htm
    rw [hpt tm htm, List.map_nil]
  have hload (chai : C.State) :
      ChaiRegister.loadAndRegisterAction cml pt chai = .ok (true, chai) := by
    rw [ChaiRegister.loadAndRegisterAction, hnone, ChaiRegister.registerAll]
  unfold playerJoinFightingPit
  split
  · rfl
  · rename_i fp _
    have hjoin : ∃ fp', fp.addPartyTeamAndRegisterActions S cml pt = .ok fp' := by
      unfold ArenaInstance.addPartyTeamAndRegisterActions FightingPit.addPartyTeamAndRegisterActions
      rw [hload]
      exact ⟨_, rfl⟩
    obtain ⟨fp', hfp'⟩ := hjoin
    rw [hfp']
    rfl

end WorkerService

namespace ArenaServerService

variable {E : PitEngine} {P : Platform} {S : SideSort} {ctx : EncounterContext}

theorem createNewFightingPit_identifiers {env : Surroundings} {apa : AwaitingPlayerArena}
    {ws ws' : WorkerService E.toChaiScript} {fightingPitId : UInt32}
    (h : createNewFightingPit P S ctx env apa ws = .ok (fightingPitId, ws')) :
    ws'.arenaIdOnIdentifier = ws.arenaIdOnIdentifier := by
  unfold createNewFightingPit at h
  split at h
  · cases h
  · simp only at h
    split at h
    · cases h
    · rename_i fp hbuild
      have hadd := Except.ok.inj h
      obtain ⟨-, heq⟩ | ⟨pit, id, -, -, -, -, -, -, hidentifiers⟩ := ws.addFightingPit_cases fp
      · rw [heq] at hadd
        rw [(Prod.mk.inj hadd).2]
      · rw [hadd] at hidentifiers
        exact hidentifiers

/-! ## Logging in -/

theorem logIn_isOk_iff {fightingPitId : UInt32} {userName identityPlayer : String}
    {s : ArenaServerService E} :
    (logIn fightingPitId userName identityPlayer s).result.isOk = true ↔
      userName ∈ s.lobby.owners fightingPitId ∧
        ((s.workerService.addPlayerIdentifier fightingPitId userName identityPlayer).users
          fightingPitId).length ≤ 1 := by
  rw [← WorkerService.broadcastMsg_nil_isOk_iff]
  have hmap (r : Except ServiceFault (List String)) (f : List String → ArenaServerService E) :
      (r.map f).isOk = r.isOk := by
    cases r <;> rfl
  rw [logIn, hmap, WorkerService.broadCastNewArrivingTeam]
  have hinstances : (s.workerService.addPlayerIdentifier fightingPitId userName
      identityPlayer).arenaInstances = s.workerService.arenaInstances := rfl
  rw [hinstances, Lobby.owners]
  cases hlookup : s.workerService.arenaInstances.lookup fightingPitId with
  | none =>
      have hpit : s.lobby.pits fightingPitId = none :=
        congrArg (Option.map ArenaInstance.admission) hlookup
      simp [hpit, Except.isOk, Except.toBool]
  | some fp =>
      rw [pits_of_lookup hlookup]
      show _ ↔ userName ∈ fp.partyTeams.userNames ∧ _
      by_cases hteam : userName ∈ fp.partyTeams.userNames
      · rw [and_iff_right hteam]
        cases hfound : fp.partyTeams.getPartyTeamOfPlayer userName with
        | none => exact absurd hteam (AllyPartyTeams.getPartyTeamOfPlayer_eq_none_iff.mp hfound)
        | some team => simp only [hfound]
      · simp only [AllyPartyTeams.getPartyTeamOfPlayer_eq_none_iff.mpr hteam]
        simp [hteam, Except.isOk, Except.toBool]

theorem logIn_workerService {fightingPitId : UInt32} {userName identityPlayer : String}
    {s t : ArenaServerService E} {log : List Event}
    (h : logIn fightingPitId userName identityPlayer s = ⟨log, .ok t⟩) :
    t.workerService =
      s.workerService.addPlayerIdentifier fightingPitId userName identityPlayer := by
  unfold logIn at h
  have hresult := (Traced.mk.inj h).2
  generalize (WorkerService.broadCastNewArrivingTeam fightingPitId userName _).result = sent
    at hresult
  cases sent with
  | error fault => cases hresult
  | ok msg => rw [← Except.ok.inj hresult]

/-! ## Who is let in -/

theorem authenticate_awaited {env : Surroundings} {identityPlayer : String} {player : Credentials}
    {apa : AwaitingPlayerArena} {s : ArenaServerService E} (hawaits : s.lobby.Awaits player apa) :
    s.authenticate P S ctx env identityPlayer player.frame =
      if apa.hasToBeGenerated then s.logInByCreating P S ctx env identityPlayer player apa
      else s.logInByJoining S env identityPlayer player apa := by
  obtain ⟨apa', hfound, hawaits'⟩ | ⟨-, hnot⟩ := isPlayerAwaited_cases player s
  · obtain rfl : apa' = apa := Option.some.inj (hawaits'.entry.symm.trans hawaits.entry)
    simp only [authenticate, Credentials.frame, hfound, Bool.not_true, Bool.false_eq_true, if_false]
  · exact absurd hawaits (hnot apa)

theorem awaits_of_authenticate {env : Surroundings} {identityPlayer : String}
    {binary : ArenaServerValidateAuth} {s : ArenaServerService E}
    (h : (s.authenticate P S ctx env identityPlayer binary).result.isOk = true) :
    ∃ player apa, binary = player.frame ∧ s.lobby.Awaits player apa := by
  by_contra hnone
  unfold authenticate at h
  split at h
  · rename_i tokenAuth userName htoken hname
    obtain ⟨apa, -, hawaits⟩ | ⟨hend, -⟩ :=
      isPlayerAwaited_cases ⟨userName, tokenAuth, binary.fightingPitId⟩ s
    · exact hnone ⟨_, apa, binary.eq_frame htoken hname, hawaits⟩
    · simp only [hend] at h
      cases h
  · cases h

/-! ## Who is on a pit -/

def Admits (s t : ArenaServerService E) (log : List Event) : Prop :=
  ∃ player fightingPitId identityPlayer, admissions log = [(player, fightingPitId)] ∧
    (t.workerService.users fightingPitId).length ≤ 1 ∧
    t.workerService.arenaIdOnIdentifier = (s.workerService.addPlayerIdentifier fightingPitId
      player.userName identityPlayer).arenaIdOnIdentifier

theorem admits_of_logIn {event : Event} {player : Credentials} {fightingPitId : UInt32}
    (hevent : event.admission = some (player, fightingPitId)) {identityPlayer : String}
    {s u t : ArenaServerService E} {log : List Event}
    (hu : u.workerService.arenaIdOnIdentifier = s.workerService.arenaIdOnIdentifier)
    (h : logIn fightingPitId player.userName identityPlayer u = ⟨log, .ok t⟩) :
    Admits s t (event :: log) := by
  have hworker := logIn_workerService h
  have hok : (logIn fightingPitId player.userName identityPlayer u).result.isOk = true := by
    rw [h]
    rfl
  obtain ⟨-, msgs, rfl⟩ := logIn_cases h
  refine ⟨player, fightingPitId, identityPlayer, admissions_cons_sent hevent msgs, ?_, ?_⟩
  · rw [hworker]
    exact (logIn_isOk_iff.mp hok).2
  · rw [hworker, WorkerService.addPlayerIdentifier, WorkerService.addPlayerIdentifier, hu]

theorem handle_users {input : Input} {s t : ArenaServerService E} {log : List Event}
    (h : s.handle P S ctx input = ⟨log, .ok t⟩) :
    admissions log = [] ∧
        t.workerService.arenaIdOnIdentifier = s.workerService.arenaIdOnIdentifier ∨
      Admits s t log := by
  cases input with
  | encounter identityWs binary =>
      left
      simp only [handle, registerPlayer] at h
      split at h
      · cases (Traced.mk.inj h).2
      · split_ifs at h <;> obtain ⟨rfl, rfl⟩ := Traced.ok_eq_ok.mp h <;> exact ⟨rfl, rfl⟩
  | inGame authFrame =>
      left
      simp only [handle, inGame] at h
      split at h
      · split at h <;> obtain ⟨rfl, rfl⟩ := Traced.ok_eq_ok.mp h <;> exact ⟨rfl, rfl⟩
      · cases (Traced.mk.inj h).2
  | auth env identityPlayer binary =>
      have hauth : s.authenticate P S ctx env identityPlayer binary = ⟨log, .ok t⟩ := h
      have hok : (s.authenticate P S ctx env identityPlayer binary).result.isOk = true := by
        rw [hauth]
        rfl
      obtain ⟨player, apa, rfl, hawaits⟩ := awaits_of_authenticate hok
      rw [authenticate_awaited hawaits] at hauth
      split_ifs at hauth with hgen
      · unfold logInByCreating at hauth
        split at hauth
        · cases (Traced.mk.inj hauth).2
        · rename_i id ws hcreate
          have hidentifiers := createNewFightingPit_identifiers hcreate
          split_ifs at hauth with herror
          · obtain ⟨rfl, rfl⟩ := Traced.ok_eq_ok.mp hauth
            exact .inl ⟨rfl, hidentifiers⟩
          · obtain ⟨_, u, _, hfirst, hlogIn, rfl⟩ := Traced.andThen_eq_ok.mp hauth
            obtain ⟨rfl, rfl⟩ := Traced.ok_eq_ok.mp hfirst
            exact .inr (admits_of_logIn rfl hidentifiers hlogIn)
      · unfold logInByJoining at hauth
        split_ifs at hauth with hgone
        · obtain ⟨rfl, rfl⟩ := Traced.ok_eq_ok.mp hauth
          exact .inl ⟨rfl, rfl⟩
        · split at hauth
          · cases (Traced.mk.inj hauth).2
          · rename_i ws hjoin
            have hidentifiers := WorkerService.playerJoinFightingPit_identifiers hjoin
            obtain ⟨_, u, _, hfirst, hlogIn, rfl⟩ := Traced.andThen_eq_ok.mp hauth
            obtain ⟨rfl, rfl⟩ := Traced.ok_eq_ok.mp hfirst
            rw [hawaits.fightingPitId] at hlogIn
            exact .inr (admits_of_logIn rfl hidentifiers hlogIn)

/-- On every pit one user at most is identified, and the teams of the pit are his. -/
def Lonely (s : ArenaServerService E) : Prop :=
  ∀ id, (s.workerService.users id).length ≤ 1 ∧
    ∀ name, name ∈ s.lobby.owners id ↔ name ∈ s.workerService.users id

theorem Lonely.step {input : Input} {s t : ArenaServerService E} {log : List Event}
    (hs : s.Lonely) (h : s.handle P S ctx input = ⟨log, .ok t⟩) : t.Lonely := by
  intro id
  rw [Lobby.owners_step (handle_step h) id]
  obtain ⟨hnone, hsame⟩ | ⟨player, pit, identity, hone, hlength, hsame⟩ := handle_users h
  · rw [WorkerService.users_congr hsame, admittedNames, hnone]
    simpa using hs id
  · have husers := WorkerService.users_congr hsame id
    rw [WorkerService.users_addPlayerIdentifier] at husers
    rw [admittedNames, hone]
    by_cases hid : id = pit
    · subst hid
      refine ⟨hlength, ?_⟩
      intro name
      have hnames := (hs id).2 name
      rw [if_pos rfl] at husers
      rw [husers, List.mem_append, hnames]
      split_ifs with hmem
      · simp only [decide_true, List.filter_cons_of_pos, List.filter_nil, List.map_cons,
          List.map_nil, List.mem_singleton, or_iff_left_iff_imp]
        rintro rfl
        exact hmem
      · simp
    · rw [if_neg hid] at husers
      rw [husers]
      simpa [Ne.symm hid] using hs id

theorem run_lonely {inputs : List Input} {s : ArenaServerService E} {log : List Event}
    (hrun : runServerLoop P S ctx inputs = ⟨log, .ok s⟩) : s.Lonely := by
  have hstart : (start : ArenaServerService E).Lonely := by
    intro id
    refine ⟨Nat.zero_le 1, ?_⟩
    intro name
    rfl
  apply runs_history (J := fun s _ => s.Lonely) hstart _ hrun
  intro input s done t new hs h
  exact hs.step h

/-- Whoever else is admitted to a pit ends the server: in a run that goes on, all
admissions to a pit are those of one user. -/
theorem one_user_per_pit {inputs : List Input} {s : ArenaServerService E} {log : List Event}
    (hrun : runServerLoop P S ctx inputs = ⟨log, .ok s⟩) {fightingPitId : UInt32}
    {first second : Credentials} (hfirst : (first, fightingPitId) ∈ admissions log)
    (hsecond : (second, fightingPitId) ∈ admissions log) : first.userName = second.userName := by
  obtain ⟨hlength, hnames⟩ := run_lonely hrun fightingPitId
  have husers {player : Credentials} (h : (player, fightingPitId) ∈ admissions log) :
      player.userName ∈ s.workerService.users fightingPitId := by
    rw [← hnames, (run_ledger hrun).2.owners]
    exact mem_admittedNames h
  obtain ⟨i, hi, hgetFirst⟩ := List.getElem_of_mem (husers hfirst)
  obtain ⟨j, hj, hgetSecond⟩ := List.getElem_of_mem (husers hsecond)
  obtain rfl : i = j := by omega
  rw [← hgetFirst, ← hgetSecond]

theorem one_user_per_pit_comesTwice :
    (∃ s, slimesRun comesTwice = ⟨(slimesRun comesTwice).log, .ok s⟩) ∧
      (⟨"user", "first", 0⟩, 1) ∈ admissions (slimesRun comesTwice).log ∧
      (⟨"user", "second", 1⟩, 1) ∈ admissions (slimesRun comesTwice).log ∧
      Credentials.userName ⟨"user", "first", 0⟩ = Credentials.userName ⟨"user", "second", 1⟩ := by
  obtain ⟨s, hrun⟩ := Traced.eq_of_isOk comesTwice_returns
  have hfirst : (⟨"user", "first", 0⟩, 1) ∈ admissions (slimesRun comesTwice).log := by
    rw [comesTwice_log]
    decide
  have hsecond : (⟨"user", "second", 1⟩, 1) ∈ admissions (slimesRun comesTwice).log := by
    rw [comesTwice_log]
    decide
  exact ⟨⟨s, hrun⟩, hfirst, hsecond, one_user_per_pit hrun hfirst hsecond⟩

/-! ## Which messages a server survives -/

/-- After a run that did `log`, the message is one that the server survives: all its fields are
there, and a player who asks to be let in is awaited and has a pit built for him, or joins one
to which nobody but he himself was admitted. -/
def Survives (P : Platform) (S : SideSort) (ctx : EncounterContext) (s : ArenaServerService E)
    (log : List Event) : Input → Prop
  | .encounter _ binary =>
      binary.userName ≠ none ∧ binary.tokenAuth ≠ none ∧
        (binary.fightingPitId = 0 → binary.worldServerId ≠ none)
  | .inGame authFrame => authFrame.userName ≠ none ∧ authFrame.tokenAuth ≠ none
  | .auth env _ binary =>
      ∃ player apa, binary = player.frame ∧ s.lobby.Awaits player apa ∧
        if apa.hasToBeGenerated then
          (createNewFightingPit P S ctx env apa s.workerService).isOk = true
        else ∀ name ∈ admittedNames player.fightingPitId log, name = player.userName

theorem createAwaitingPlayer_ne_none_iff {binary : FightingPitEncounter} :
    createAwaitingPlayer binary ≠ none ↔
      binary.userName ≠ none ∧ binary.tokenAuth ≠ none ∧
        (binary.fightingPitId = 0 → binary.worldServerId ≠ none) := by
  obtain ⟨userName, tokenAuth, fightingPitId, worldServerId, level, id, isAmbush⟩ := binary
  unfold createAwaitingPlayer
  by_cases hid : fightingPitId = 0 <;> cases userName <;> cases tokenAuth <;>
    cases worldServerId <;> simp [hid]

theorem registerPlayer_isOk_iff {identityWs : String} {binary : FightingPitEncounter}
    {s : ArenaServerService E} :
    (s.registerPlayer identityWs binary).result.isOk = true ↔
      createAwaitingPlayer binary ≠ none := by
  unfold registerPlayer
  cases createAwaitingPlayer binary with
  | none => simp [Except.isOk, Except.toBool]
  | some apa =>
      simp only
      split_ifs <;> simp [Except.isOk, Except.toBool]

theorem inGame_isOk_iff {authFrame : ArenaServerValidateAuth} {s : ArenaServerService E} :
    (s.inGame authFrame).result.isOk = true ↔
      authFrame.userName ≠ none ∧ authFrame.tokenAuth ≠ none := by
  unfold inGame
  split
  · rename_i userName tokenAuth hname htoken
    rw [hname, htoken]
    split <;> simp [Except.isOk, Except.toBool]
  · rename_i hnot
    refine iff_of_false (by simp [Except.isOk, Except.toBool]) ?_
    rintro ⟨hname, htoken⟩
    obtain ⟨userName, hname⟩ := Option.ne_none_iff_exists'.mp hname
    obtain ⟨tokenAuth, htoken⟩ := Option.ne_none_iff_exists'.mp htoken
    exact hnot userName tokenAuth hname htoken

theorem alone_iff {users : List String} (h : users.length ≤ 1) (userName : String) :
    (if userName ∈ users then users else users ++ [userName]).length ≤ 1 ↔
      ∀ name ∈ users, name = userName := by
  cases users with
  | nil => simp
  | cons name others =>
      obtain rfl : others = [] := by
        rw [List.length_cons] at h
        exact List.eq_nil_of_length_eq_zero (by omega)
      by_cases hname : name = userName
      · simp [hname]
      · simp [hname, Ne.symm hname]

theorem logInByCreating_isOk_iff {env : Surroundings} {identityPlayer : String}
    {player : Credentials} {apa : AwaitingPlayerArena} {s : ArenaServerService E} (hs : s.Lonely)
    (hawaits : s.lobby.Awaits player apa) :
    (s.logInByCreating P S ctx env identityPlayer player apa).result.isOk = true ↔
      (createNewFightingPit P S ctx env apa s.workerService).isOk = true := by
  unfold logInByCreating
  cases hcreate : createNewFightingPit P S ctx env apa s.workerService with
  | error fault => rfl
  | ok r =>
      obtain ⟨id, ws⟩ := r
      apply iff_of_true _ rfl
      simp only
      split_ifs with herror
      · rfl
      · obtain ⟨hrefused, -⟩ | ⟨-, hfresh, fp, hinstances, hadmission⟩ :=
          createNewFightingPit_cases hcreate
        · exact absurd hrefused herror
        · let u : ArenaServerService E := ⟨ws, s.awaitingArena.erase player.tokenAuth⟩
          show (logIn id player.userName identityPlayer u).result.isOk = true
          rw [logIn_isOk_iff, lobby_erase, lobby_setPit hinstances]
          constructor
          · simp [Lobby.owners, Lobby.setPit, Lobby.consume, hadmission, hawaits.namePlayer]
          · have hnone : s.lobby.pits id = none :=
              Option.map_eq_none_iff.mpr (AList.lookup_eq_none.mpr hfresh)
            have hnobody : s.workerService.users id = [] := by
              apply List.eq_nil_iff_forall_not_mem.mpr
              intro name
              rw [← (hs id).2, Lobby.owners, hnone]
              exact List.not_mem_nil
            rw [WorkerService.users_addPlayerIdentifier, if_pos rfl,
              WorkerService.users_congr (createNewFightingPit_identifiers hcreate), hnobody]
            exact le_refl 1

theorem actionsDoable_retrievePartyTeam (user : String) :
    ∀ tm ∈ (retrievePartyTeam user).members, tm.actionsDoable = [] := by
  intro tm htm
  simp only [retrievePartyTeam, List.mem_cons, List.not_mem_nil, or_false] at htm
  rcases htm with rfl | rfl | rfl | rfl <;> rfl

theorem logInByJoining_isOk_iff {env : Surroundings} {identityPlayer : String}
    {player : Credentials} {apa : AwaitingPlayerArena} {s : ArenaServerService E} (hs : s.Lonely)
    (hawaits : s.lobby.Awaits player apa)
    (hpit : s.workerService.doesFightingPitExist player.fightingPitId = true) :
    (s.logInByJoining S env identityPlayer player apa).result.isOk = true ↔
      ∀ name ∈ s.lobby.owners player.fightingPitId, name = player.userName := by
  unfold logInByJoining
  rw [hpit, hawaits.fightingPitId]
  simp only [Bool.not_true, Bool.false_eq_true, if_false]
  have hjoins := WorkerService.playerJoinFightingPit_isOk S env.cml player.fightingPitId
    (actionsDoable_retrievePartyTeam player.userName) s.workerService
  cases hjoin : s.workerService.playerJoinFightingPit S env.cml player.fightingPitId
      (retrievePartyTeam player.userName) with
  | error fault =>
      rw [hjoin] at hjoins
      cases hjoins
  | ok ws =>
      obtain ⟨fp, fp', hlookup, hinstances, hadmission⟩ :=
        playerJoinFightingPit_cases (of_decide_eq_true hpit) hjoin
      let u : ArenaServerService E := ⟨ws, s.awaitingArena.erase player.tokenAuth⟩
      show (logIn player.fightingPitId player.userName identityPlayer u).result.isOk = true ↔ _
      rw [logIn_isOk_iff, lobby_erase, lobby_setPit hinstances, hadmission, and_iff_right]
      · rw [WorkerService.users_addPlayerIdentifier, if_pos rfl,
          WorkerService.users_congr (WorkerService.playerJoinFightingPit_identifiers hjoin),
          alone_iff (hs _).1]
        simp only [(hs _).2]
      · simp [Lobby.owners, Lobby.setPit, Lobby.consume, retrievePartyTeam]

/-- A server survives the messages that `Survives` lists, after whatever messages. -/
theorem survives_iff {inputs : List Input} {s : ArenaServerService E} {log : List Event}
    (hrun : runServerLoop P S ctx inputs = ⟨log, .ok s⟩) (input : Input) :
    (s.handle P S ctx input).result.isOk = true ↔ Survives P S ctx s log input := by
  have hlonely := run_lonely hrun
  obtain ⟨hsound, hrecorded⟩ := run_ledger hrun
  cases input with
  | encounter identityWs binary =>
      exact registerPlayer_isOk_iff.trans createAwaitingPlayer_ne_none_iff
  | inGame authFrame => exact inGame_isOk_iff
  | auth env identityPlayer binary =>
      have hframe (player : Credentials) (apa : AwaitingPlayerArena)
          (hawaits : s.lobby.Awaits player apa) :
          (s.authenticate P S ctx env identityPlayer player.frame).result.isOk = true ↔
            if apa.hasToBeGenerated then
              (createNewFightingPit P S ctx env apa s.workerService).isOk = true
            else ∀ name ∈ admittedNames player.fightingPitId log, name = player.userName := by
        rw [authenticate_awaited hawaits, ← hrecorded.owners]
        split_ifs with hgen
        · exact logInByCreating_isOk_iff hlonely hawaits
        · apply logInByJoining_isOk_iff hlonely hawaits
          have hentry := hsound _ _ hawaits.entry
          have hid : apa.fightingPitId ≠ 0 := by
            intro hzero
            apply hgen
            rw [AwaitingPlayerArena.hasToBeGenerated, hzero, hentry.gen.mpr hzero]
            rfl
          apply Bool.eq_true_of_not_eq_false
          intro hgone
          apply hentry.pit hid
          rw [hawaits.fightingPitId]
          exact pits_eq_none_iff.mpr hgone
      constructor
      · intro hok
        obtain ⟨player, apa, rfl, hawaits⟩ := awaits_of_authenticate hok
        exact ⟨player, apa, rfl, hawaits, (hframe player apa hawaits).mp hok⟩
      · rintro ⟨player, apa, rfl, hawaits, hcondition⟩
        exact (hframe player apa hawaits).mpr hcondition

theorem survives_iff_comesTwice : ∃ s, slimesRun comesTwice =
    ⟨(slimesRun comesTwice).log, .ok s⟩ ∧ ∀ input,
      (s.handle (.unbounded insertionSort) insertionSideSort slimes input).result.isOk = true ↔
        Survives (.unbounded insertionSort) insertionSideSort slimes s
          (slimesRun comesTwice).log input := by
  obtain ⟨s, hrun⟩ := Traced.eq_of_isOk comesTwice_returns
  exact ⟨s, hrun, survives_iff hrun⟩

end ArenaServerService

end FyS.Arena
