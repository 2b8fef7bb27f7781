import FyS.Arena.Network.ArenaServerService

/-!
# Admission

What the handlers of the server do to the awaited players, the admitted players
and the owners of teams, as steps of a lobby.  A lobby forgets everything else,
so that the statements about admission need no more than the kinds of a step.
-/

namespace FyS.Arena

open FyS.Library.Trace

/-- The awaited players by their tokens, and for each pit the admitted players
and the owners of the teams. -/
structure Lobby where
  awaiting : String → Option AwaitingPlayerArena
  pits : UInt32 → Option (List AuthenticatedPlayer × List String)

def Credentials.frame (player : Credentials) : ArenaServerValidateAuth :=
  ⟨some player.userName, some player.tokenAuth, player.fightingPitId⟩

namespace Lobby

def consume (token : String) (l : Lobby) : Lobby :=
  { l with awaiting := Function.update l.awaiting token none }

def setPit (fightingPitId : UInt32) (admission : List AuthenticatedPlayer × List String)
    (l : Lobby) : Lobby :=
  { l with pits := Function.update l.pits fightingPitId (some admission) }

structure Awaits (l : Lobby) (player : Credentials) (apa : AwaitingPlayerArena) : Prop where
  entry : l.awaiting player.tokenAuth = some apa
  namePlayer : apa.namePlayer = player.userName
  fightingPitId : apa.fightingPitId = player.fightingPitId

inductive Step (l : Lobby) : Input → Lobby → List Event → Prop
  | idle (input : Input) : Step l input l []
  | registered (identityWs : String) (binary : FightingPitEncounter) (apa : AwaitingPlayerArena)
      (hbinary : createAwaitingPlayer binary = some apa)
      (hpit : apa.fightingPitId ≠ 0 → l.pits apa.fightingPitId ≠ none)
      (hfresh : l.awaiting apa.token = none) :
      Step l (.encounter identityWs binary)
        { l with awaiting := Function.update l.awaiting apa.token (some apa) }
        [.replied identityWs apa]
  | refused (env : Surroundings) (identityPlayer : String) (player : Credentials)
      (apa : AwaitingPlayerArena) (hawaits : l.Awaits player apa) :
      Step l (.auth env identityPlayer player.frame) (l.consume player.tokenAuth)
        [.refused player]
  | created (env : Surroundings) (identityPlayer : String) (player : Credentials)
      (apa : AwaitingPlayerArena) (fightingPitId : UInt32) (msgs : List (List String))
      (hawaits : l.Awaits player apa) (hgen : apa.hasToBeGenerated = true)
      (hfresh : l.pits fightingPitId = none) :
      Step l (.auth env identityPlayer player.frame)
        ((l.consume player.tokenAuth).setPit fightingPitId
          ([⟨apa.namePlayer, apa.token⟩], [apa.namePlayer]))
        (.created player fightingPitId :: msgs.map .sent)
  | joined (env : Surroundings) (identityPlayer : String) (player : Credentials)
      (apa : AwaitingPlayerArena) (players : List AuthenticatedPlayer) (owners : List String)
      (msgs : List (List String)) (hawaits : l.Awaits player apa)
      (hgen : apa.hasToBeGenerated = false)
      (hpit : l.pits player.fightingPitId = some (players, owners)) :
      Step l (.auth env identityPlayer player.frame)
        ((l.consume player.tokenAuth).setPit player.fightingPitId
          (players, owners ++ [player.userName]))
        (.joined player :: msgs.map .sent)

end Lobby

/-! ## The server steps as its lobby does -/

section

variable {κ ν : Type} [DecidableEq κ]

theorem lookup_erase_eq_update (key : κ) (table : AList fun _ : κ => ν) :
    (fun k => (table.erase key).lookup k) = Function.update (fun k => table.lookup k) key none := by
  ext1 k
  by_cases hk : k = key
  · rw [hk, Function.update_self, AList.lookup_erase]
  · rw [Function.update_of_ne hk, AList.lookup_erase_ne hk]

theorem lookup_insert_eq_update (key : κ) (value : ν) (table : AList fun _ : κ => ν) :
    (fun k => (table.insert key value).lookup k) =
      Function.update (fun k => table.lookup k) key (some value) := by
  ext1 k
  by_cases hk : k = key
  · rw [hk, Function.update_self, AList.lookup_insert]
  · rw [Function.update_of_ne hk, AList.lookup_insert_ne hk]

end

theorem ArenaServerValidateAuth.eq_frame {binary : ArenaServerValidateAuth}
    {tokenAuth userName : String} (htoken : binary.tokenAuth = some tokenAuth)
    (hname : binary.userName = some userName) :
    binary = Credentials.frame ⟨userName, tokenAuth, binary.fightingPitId⟩ := by
  rw [Credentials.frame, ← htoken, ← hname]

namespace ArenaServerService

variable {E : PitEngine} {P : Platform} {S : SideSort} {ctx : EncounterContext}

def lobby (s : ArenaServerService E) : Lobby where
  awaiting token := s.awaitingArena.lookup token
  pits fightingPitId :=
    (s.workerService.arenaInstances.lookup fightingPitId).map ArenaInstance.admission

theorem pits_of_lookup {s : ArenaServerService E} {fightingPitId : UInt32}
    {fp : ArenaInstance E.toChaiScript}
    (h : s.workerService.arenaInstances.lookup fightingPitId = some fp) :
    s.lobby.pits fightingPitId = some fp.admission :=
  congrArg (Option.map ArenaInstance.admission) h

theorem pits_eq_none_iff {s : ArenaServerService E} {fightingPitId : UInt32} :
    s.lobby.pits fightingPitId = none ↔
      s.workerService.doesFightingPitExist fightingPitId = false := by
  rw [WorkerService.doesFightingPitExist, decide_eq_false_iff_not, ← AList.lookup_eq_none]
  exact Option.map_eq_none_iff

theorem lobby_setPit {s : ArenaServerService E} {ws : WorkerService E.toChaiScript}
    {fightingPitId : UInt32} {fp : ArenaInstance E.toChaiScript}
    (hws : ws.arenaInstances = s.workerService.arenaInstances.insert fightingPitId fp) :
    lobby { s with workerService := ws } = s.lobby.setPit fightingPitId fp.admission := by
  rw [lobby, lobby, Lobby.setPit, Lobby.mk.injEq]
  refine ⟨rfl, ?_⟩
  show Option.map ArenaInstance.admission ∘ (fun id => ws.arenaInstances.lookup id) = _
  rw [hws, lookup_insert_eq_update, Function.comp_update]
  rfl

theorem lobby_erase (s : ArenaServerService E) (ws : WorkerService E.toChaiScript)
    (token : String) :
    lobby ⟨ws, s.awaitingArena.erase token⟩ =
      (lobby { s with workerService := ws }).consume token := by
  rw [lobby, lobby, Lobby.consume, lookup_erase_eq_update]

theorem logIn_cases {fightingPitId : UInt32} {userName identityPlayer : String}
    {s t : ArenaServerService E} {log : List Event}
    (h : logIn fightingPitId userName identityPlayer s = ⟨log, .ok t⟩) :
    t.lobby = s.lobby ∧ ∃ msgs : List (List String), log = msgs.map .sent := by
  unfold logIn at h
  obtain ⟨hlog, hresult⟩ := Traced.mk.inj h
  refine ⟨?_, _, hlog.symm⟩
  cases hsent : (WorkerService.broadCastNewArrivingTeam fightingPitId userName
      (s.workerService.addPlayerIdentifier fightingPitId userName identityPlayer)).result with
  | error fault =>
      rw [hsent] at hresult
      cases hresult
  | ok msg =>
      rw [hsent] at hresult
      rw [← Except.ok.inj hresult]
      rfl

theorem registerPlayer_step {identityWs : String} {binary : FightingPitEncounter}
    {s t : ArenaServerService E} {log : List Event}
    (h : s.registerPlayer identityWs binary = ⟨log, .ok t⟩) :
    s.lobby.Step (.encounter identityWs binary) t.lobby log := by
  unfold registerPlayer at h
  split at h
  · cases (Traced.mk.inj h).2
  · rename_i apa hbinary
    split_ifs at h with hgone htoken
    · obtain ⟨rfl, rfl⟩ := Traced.ok_eq_ok.mp h
      exact .idle _
    · obtain ⟨rfl, rfl⟩ := Traced.ok_eq_ok.mp h
      exact .idle _
    · obtain ⟨rfl, rfl⟩ := Traced.ok_eq_ok.mp h
      have hpit : apa.fightingPitId ≠ 0 → s.lobby.pits apa.fightingPitId ≠ none := by
        intro hid hnone
        simp [AwaitingPlayerArena.hasToBeGenerated, hid, pits_eq_none_iff.mp hnone] at hgone
      have hlobby : lobby { s with awaitingArena := s.awaitingArena.insert apa.token apa } =
          { s.lobby with
            awaiting := Function.update s.lobby.awaiting apa.token (some apa) } := by
        rw [lobby, lobby, lookup_insert_eq_update]
      rw [hlobby]
      exact .registered identityWs binary apa hbinary hpit (AList.lookup_eq_none.mpr htoken)

theorem createNewFightingPit_cases {env : Surroundings} {apa : AwaitingPlayerArena}
    {ws ws' : WorkerService E.toChaiScript} {fightingPitId : UInt32}
    (h : createNewFightingPit P S ctx env apa ws = .ok (fightingPitId, ws')) :
    fightingPitId = ArenaInstance.CREATION_ERROR ∧ ws' = ws ∨
      fightingPitId ≠ ArenaInstance.CREATION_ERROR ∧ fightingPitId ∉ ws.arenaInstances ∧
      ∃ fp, ws'.arenaInstances = ws.arenaInstances.insert fightingPitId fp ∧
        fp.admission = ([⟨apa.namePlayer, apa.token⟩], [apa.namePlayer]) := by
  unfold createNewFightingPit at h
  split at h
  · cases h
  · simp only at h
    split at h
    · cases h
    · rename_i gen _ fp hbuild
      have hadd := Except.ok.inj h
      obtain ⟨-, heq⟩ | ⟨pit, id, rfl, -, hne, hfresh, hid, hinstances, -⟩ :=
        ws.addFightingPit_cases fp
      · left
        rw [heq] at hadd
        exact ⟨(Prod.mk.inj hadd).1.symm, (Prod.mk.inj hadd).2.symm⟩
      · right
        rw [hadd] at hid hinstances
        obtain rfl : fightingPitId = id := hid
        obtain ⟨team, hteam, hadmission⟩ :=
          FightingPitAnnouncer.admission_buildFightingPit hbuild
        refine ⟨hne, hfresh, _, hinstances, ?_⟩
        rw [← Option.some.inj hteam] at hadmission
        exact hadmission

theorem playerJoinFightingPit_cases {cml : String → Option String} {fightingPitId : UInt32}
    {pt : PartyTeam} {ws ws' : WorkerService E.toChaiScript}
    (hmem : fightingPitId ∈ ws.arenaInstances)
    (h : ws.playerJoinFightingPit S cml fightingPitId pt = .ok ws') :
    ∃ fp fp', ws.arenaInstances.lookup fightingPitId = some fp ∧
      ws'.arenaInstances = ws.arenaInstances.insert fightingPitId fp' ∧
      fp'.admission = (fp.admission.1, fp.admission.2 ++ [pt.userName]) := by
  unfold WorkerService.playerJoinFightingPit at h
  split at h
  · rename_i hnone
    exact absurd hmem (AList.lookup_eq_none.mp hnone)
  · rename_i fp hfp
    split at h
    · cases h
    · rename_i fp' hjoin
      rw [← Except.ok.inj h]
      exact ⟨fp, fp', hfp, rfl, ArenaInstance.admission_addPartyTeam hjoin⟩

theorem isPlayerAwaited_cases (player : Credentials) (s : ArenaServerService E) :
    (∃ apa, s.isPlayerAwaited player.userName player.tokenAuth player.fightingPitId =
        (true, some apa) ∧ s.lobby.Awaits player apa) ∨
      s.isPlayerAwaited player.userName player.tokenAuth player.fightingPitId = (false, none) ∧
        ∀ apa, ¬ s.lobby.Awaits player apa := by
  rw [isPlayerAwaited]
  cases hlookup : s.awaitingArena.lookup player.tokenAuth with
  | none =>
      right
      refine ⟨rfl, ?_⟩
      intro apa h
      have hentry : s.awaitingArena.lookup player.tokenAuth = some apa := h.entry
      rw [hlookup] at hentry
      cases hentry
  | some apa =>
      by_cases hsame : (apa.namePlayer == player.userName &&
          apa.fightingPitId == player.fightingPitId) = true
      · left
        refine ⟨apa, if_pos hsame, ?_⟩
        rw [Bool.and_eq_true, beq_iff_eq, beq_iff_eq] at hsame
        exact ⟨hlookup, hsame.1, hsame.2⟩
      · right
        refine ⟨if_neg hsame, ?_⟩
        intro apa' h
        have hentry : s.awaitingArena.lookup player.tokenAuth = some apa' := h.entry
        rw [hlookup] at hentry
        obtain rfl := Option.some.inj hentry
        apply hsame
        rw [h.namePlayer, h.fightingPitId, beq_self_eq_true, beq_self_eq_true]
        rfl

theorem logInByCreating_step {env : Surroundings} {identityPlayer : String} {player : Credentials}
    {apa : AwaitingPlayerArena} {s t : ArenaServerService E} {log : List Event}
    (hawaits : s.lobby.Awaits player apa) (hgen : apa.hasToBeGenerated = true)
    (h : s.logInByCreating P S ctx env identityPlayer player apa = ⟨log, .ok t⟩) :
    s.lobby.Step (.auth env identityPlayer player.frame) t.lobby log := by
  unfold logInByCreating at h
  split at h
  · cases (Traced.mk.inj h).2
  · rename_i id ws hcreate
    split_ifs at h with herror
    · obtain ⟨rfl, rfl⟩ := Traced.ok_eq_ok.mp h
      obtain ⟨-, rfl⟩ | ⟨hne, -⟩ := createNewFightingPit_cases hcreate
      · rw [lobby_erase]
        exact .refused env identityPlayer player apa hawaits
      · exact absurd herror hne
    · obtain ⟨_, _, _, hfirst, hlogIn, rfl⟩ := Traced.andThen_eq_ok.mp h
      obtain ⟨rfl, rfl⟩ := Traced.ok_eq_ok.mp hfirst
      obtain ⟨hlobby, msgs, rfl⟩ := logIn_cases hlogIn
      obtain ⟨rfl, -⟩ | ⟨-, hfresh, fp, hinstances, hadmission⟩ := createNewFightingPit_cases hcreate
      · exact absurd rfl herror
      · rw [hlobby, lobby_erase, lobby_setPit hinstances, hadmission]
        have hnone : s.lobby.pits id = none :=
          Option.map_eq_none_iff.mpr (AList.lookup_eq_none.mpr hfresh)
        exact .created env identityPlayer player apa id msgs hawaits hgen hnone

theorem logInByJoining_step {env : Surroundings} {identityPlayer : String} {player : Credentials}
    {apa : AwaitingPlayerArena} {s t : ArenaServerService E} {log : List Event}
    (hawaits : s.lobby.Awaits player apa) (hgen : apa.hasToBeGenerated = false)
    (h : s.logInByJoining S env identityPlayer player apa = ⟨log, .ok t⟩) :
    s.lobby.Step (.auth env identityPlayer player.frame) t.lobby log := by
  unfold logInByJoining at h
  split_ifs at h with hgone
  · obtain ⟨rfl, rfl⟩ := Traced.ok_eq_ok.mp h
    exact .idle _
  · split at h
    · cases (Traced.mk.inj h).2
    · rename_i ws hjoin
      obtain ⟨_, _, _, hfirst, hlogIn, rfl⟩ := Traced.andThen_eq_ok.mp h
      obtain ⟨rfl, rfl⟩ := Traced.ok_eq_ok.mp hfirst
      obtain ⟨hlobby, msgs, rfl⟩ := logIn_cases hlogIn
      have hmem : player.fightingPitId ∈ s.workerService.arenaInstances := by
        simpa [WorkerService.doesFightingPitExist] using hgone
      rw [hawaits.fightingPitId] at hjoin
      obtain ⟨fp, fp', hlookup, hinstances, hadmission⟩ := playerJoinFightingPit_cases hmem hjoin
      rw [hlobby, lobby_erase, lobby_setPit hinstances, hadmission]
      exact .joined env identityPlayer player apa fp.authenticatedPlayers _ msgs hawaits hgen
        (pits_of_lookup hlookup)

theorem authenticate_step {env : Surroundings} {identityPlayer : String}
    {binary : ArenaServerValidateAuth} {s t : ArenaServerService E} {log : List Event}
    (h : s.authenticate P S ctx env identityPlayer binary = ⟨log, .ok t⟩) :
    s.lobby.Step (.auth env identityPlayer binary) t.lobby log := by
  unfold authenticate at h
  split at h
  · rename_i tokenAuth userName htoken hname
    obtain ⟨player, rfl⟩ : ∃ player : Credentials, binary = player.frame :=
      ⟨_, binary.eq_frame htoken hname⟩
    obtain rfl := Option.some.inj htoken
    obtain rfl := Option.some.inj hname
    obtain ⟨apa, hfound, hawaits⟩ | ⟨hnone, -⟩ := isPlayerAwaited_cases player s
    · simp only [Credentials.frame, hfound, Bool.not_true, Bool.false_eq_true, if_false] at h
      split_ifs at h with hgen
      · exact logInByCreating_step hawaits hgen h
      · exact logInByJoining_step hawaits (Bool.eq_false_of_not_eq_true hgen) h
    · simp only [Credentials.frame, hnone] at h
      cases (Traced.mk.inj h).2
  · cases (Traced.mk.inj h).2

theorem inGame_step {authFrame : ArenaServerValidateAuth} {s t : ArenaServerService E}
    {log : List Event} (h : s.inGame authFrame = ⟨log, .ok t⟩) : t.lobby = s.lobby ∧ log = [] := by
  unfold inGame at h
  split at h
  · rename_i userName tokenAuth _ _
    split at h
    · obtain ⟨rfl, rfl⟩ := Traced.ok_eq_ok.mp h
      exact ⟨rfl, rfl⟩
    · rename_i fp hfp
      obtain ⟨rfl, rfl⟩ := Traced.ok_eq_ok.mp h
      refine ⟨?_, rfl⟩
      rw [lobby_setPit rfl, ArenaInstance.admission_forwardMessageToTeamMember, Lobby.setPit]
      rw [← pits_of_lookup (WorkerService.authenticated_iff.mp hfp).1, Function.update_eq_self]
  · cases (Traced.mk.inj h).2

theorem handle_step {input : Input} {s t : ArenaServerService E} {log : List Event}
    (h : s.handle P S ctx input = ⟨log, .ok t⟩) : s.lobby.Step input t.lobby log := by
  cases input with
  | encounter identityWs binary => exact registerPlayer_step h
  | auth env identityPlayer binary => exact authenticate_step h
  | inGame authFrame =>
      obtain ⟨hlobby, rfl⟩ := inGame_step h
      rw [hlobby]
      exact .idle _

end ArenaServerService

end FyS.Arena
