import FyS.Arena.Configuration
import FyS.Arena.Network.Creation
import FyS.Arena.Network.Ledger

/-!
# The zone of a server

A configuration gives ranges to one zone, and the check lets contenders of others pass.  A
server that was started from its files creates pits for that zone only; whoever authenticates
for another zone that has contenders ends it.
-/

namespace FyS.Arena

open FyS.Library FyS.Library.Trace

namespace EncounterContext

end EncounterContext

def AnnouncedFrom (zone : String) (inputs : List Input) (player : Credentials) : Prop :=
  ∃ identityWs binary, .encounter identityWs binary ∈ inputs ∧
    binary.userName = some player.userName ∧ binary.tokenAuth = some player.tokenAuth ∧
    binary.fightingPitId = 0 ∧ binary.worldServerId = some zone

theorem createAwaitingPlayer_eq_some {binary : FightingPitEncounter} {apa : AwaitingPlayerArena}
    (h : createAwaitingPlayer binary = some apa) :
    binary.userName = some apa.namePlayer ∧ binary.tokenAuth = some apa.token ∧
      ∀ gen, apa.gen = some gen →
        binary.fightingPitId = 0 ∧ binary.worldServerId = some gen.serverCode := by
  by_cases hid : binary.fightingPitId = 0
  · simp only [createAwaitingPlayer, if_pos hid, Option.bind_eq_bind, Option.bind_eq_some_iff,
      Option.some.injEq] at h
    obtain ⟨worldServerId, hworld, awaitingArena, rfl, userName, hname, tokenAuth, htoken, rfl⟩ := h
    refine ⟨hname, htoken, ?_⟩
    intro gen hgen
    obtain rfl := Option.some.inj hgen
    exact ⟨hid, hworld⟩
  · simp only [createAwaitingPlayer, if_neg hid, Option.bind_eq_bind, Option.bind_eq_some_iff,
      Option.some.injEq] at h
    obtain ⟨gen, rfl, userName, hname, tokenAuth, htoken, rfl⟩ := h
    refine ⟨hname, htoken, ?_⟩
    intro gen hgen
    cases hgen

/-! ## Where the awaited players come from -/

def Lobby.Expects (inputs : List Input) (l : Lobby) : Prop :=
  ∀ token apa, l.awaiting token = some apa → apa.token = token ∧
    ∃ identityWs binary, .encounter identityWs binary ∈ inputs ∧
      createAwaitingPlayer binary = some apa

namespace Lobby

variable {l l' : Lobby} {inputs : List Input} {input : Input} {new : List Event}

theorem Expects.consume (h : l.Expects inputs) (token : String) :
    (l.consume token).Expects inputs := by
  intro token' apa hentry
  have hentry' : Function.update l.awaiting token none token' = some apa := hentry
  by_cases htoken : token' = token
  · rw [htoken, Function.update_self] at hentry'
    cases hentry'
  · rw [Function.update_of_ne htoken] at hentry'
    exact h token' apa hentry'

theorem Expects.step (h : l.Expects inputs) (hinput : input ∈ inputs)
    (hstep : l.Step input l' new) : l'.Expects inputs := by
  cases hstep with
  | idle => exact h
  | registered identityWs binary apa hbinary hpit hfresh =>
      intro token apa' hentry
      have hentry' : Function.update l.awaiting apa.token (some apa) token = some apa' := hentry
      by_cases htoken : token = apa.token
      · rw [htoken, Function.update_self] at hentry'
        obtain rfl := Option.some.inj hentry'
        exact ⟨htoken.symm, identityWs, binary, hinput, hbinary⟩
      · rw [Function.update_of_ne htoken] at hentry'
        exact h token apa' hentry'
  | refused env identityPlayer player apa hawaits => exact h.consume _
  | created env identityPlayer player apa id msgs hawaits hgen hfresh => exact h.consume _
  | joined env identityPlayer player apa players owners msgs hawaits hgen hpit =>
      exact h.consume _

theorem Expects.announced (h : l.Expects inputs) {player : Credentials}
    {apa : AwaitingPlayerArena} (hawaits : l.Awaits player apa) {gen : AwaitingArena}
    (hgen : apa.gen = some gen) : AnnouncedFrom gen.serverCode inputs player := by
  obtain ⟨htoken, identityWs, binary, hmem, hbinary⟩ := h _ _ hawaits.entry
  obtain ⟨hname, hauth, hzone⟩ := createAwaitingPlayer_eq_some hbinary
  obtain ⟨hid, hworld⟩ := hzone gen hgen
  refine ⟨identityWs, binary, hmem, ?_, ?_, hid, hworld⟩
  · rw [hname, hawaits.namePlayer]
  · rw [hauth, htoken]

end Lobby

/-! ## Which zones get pits -/

namespace ArenaServerService

variable {E : PitEngine} {P : Platform} {S : SideSort} {ctx : EncounterContext}

theorem mem_range_of_built {env : Surroundings} {fpa : FightingPitAnnouncer} {wsId : String}
    {fp : ArenaInstance E.toChaiScript}
    (h : fpa.buildFightingPit P S E env ctx wsId = .ok (some fp)) :
    wsId ∈ ctx.rangeEncounterPerZone := by
  obtain ⟨team, prepared, board, loaded, sideBattles, -, -, hgenerate, -⟩ :=
    FightingPitAnnouncer.buildFightingPit_eq_some h
  obtain ⟨range, contenders, boundaryMap, hzone⟩ := FightingPitAnnouncer.exists_zone hgenerate
  have hrange := hzone.range_eq
  unfold FightingPitAnnouncer.range at hrange
  rw [← AList.lookup_isSome]
  split at hrange
  · cases hrange
  · rename_i ranges hranges
    rw [hranges]
    rfl

theorem mem_range_of_createNewFightingPit {env : Surroundings} {apa : AwaitingPlayerArena}
    {ws ws' : WorkerService E.toChaiScript} {fightingPitId : UInt32}
    (h : createNewFightingPit P S ctx env apa ws = .ok (fightingPitId, ws'))
    (hid : fightingPitId ≠ ArenaInstance.CREATION_ERROR) :
    ∃ gen, apa.gen = some gen ∧ gen.serverCode ∈ ctx.rangeEncounterPerZone := by
  unfold createNewFightingPit at h
  split at h
  · cases h
  · rename_i gen hgen
    simp only at h
    split at h
    · cases h
    · rename_i fp hbuild
      obtain ⟨-, heq⟩ | ⟨pit, id, rfl, -⟩ := ws.addFightingPit_cases fp
      · rw [heq] at h
        exact absurd (Prod.mk.inj (Except.ok.inj h)).1.symm hid
      · exact ⟨gen, hgen, mem_range_of_built hbuild⟩

theorem log_logIn {fightingPitId : UInt32} {userName identityPlayer : String}
    {s : ArenaServerService E} {event : Event}
    (h : event ∈ (logIn fightingPitId userName identityPlayer s).log) :
    ∃ msg, event = .sent msg := by
  obtain ⟨msg, -, heq⟩ := List.mem_map.mp h
  exact ⟨msg, heq.symm⟩

theorem log_andThen_logIn {first : Event} {s : ArenaServerService E} {fightingPitId : UInt32}
    {userName identityPlayer : String} {event : Event}
    (h : event ∈ (Traced.andThen ⟨[first], .ok s⟩
      (logIn fightingPitId userName identityPlayer)).log) :
    event = first ∨ ∃ msg, event = .sent msg := by
  rcases List.mem_append.mp h with h | h
  · exact .inl (List.mem_singleton.mp h)
  · exact .inr (log_logIn h)

theorem created_of_logInByCreating {env : Surroundings} {identityPlayer : String}
    {asked player : Credentials} {apa : AwaitingPlayerArena} {s : ArenaServerService E}
    {fightingPitId : UInt32}
    (h : .created player fightingPitId ∈
      (s.logInByCreating P S ctx env identityPlayer asked apa).log) :
    player = asked ∧ ∃ gen, apa.gen = some gen ∧ gen.serverCode ∈ ctx.rangeEncounterPerZone := by
  unfold logInByCreating at h
  split at h
  · cases h
  · rename_i id ws hcreate
    dsimp only at h
    split_ifs at h with herror
    · cases List.mem_singleton.mp h
    · obtain heq | ⟨msg, hmsg⟩ := log_andThen_logIn h
      · obtain ⟨rfl, -⟩ := Event.created.inj heq
        exact ⟨rfl, mem_range_of_createNewFightingPit hcreate herror⟩
      · cases hmsg

theorem not_created_of_logInByJoining {env : Surroundings} {identityPlayer : String}
    {asked player : Credentials} {apa : AwaitingPlayerArena} {s : ArenaServerService E}
    {fightingPitId : UInt32} :
    .created player fightingPitId ∉ (s.logInByJoining S env identityPlayer asked apa).log := by
  intro h
  unfold logInByJoining at h
  split_ifs at h
  · cases h
  · split at h
    · cases h
    · obtain heq | ⟨msg, hmsg⟩ := log_andThen_logIn h
      · cases heq
      · cases hmsg

theorem created_of_handle {input : Input} {s : ArenaServerService E} {player : Credentials}
    {fightingPitId : UInt32} (h : .created player fightingPitId ∈ (s.handle P S ctx input).log) :
    ∃ apa gen, s.lobby.Awaits player apa ∧ apa.gen = some gen ∧
      gen.serverCode ∈ ctx.rangeEncounterPerZone := by
  cases input with
  | encounter identityWs binary =>
      simp only [handle, registerPlayer] at h
      split at h
      · cases h
      · split_ifs at h <;> simp at h
  | inGame authFrame =>
      simp only [handle, inGame] at h
      split at h
      · split at h <;> cases h
      · cases h
  | auth env identityPlayer binary =>
      simp only [handle, authenticate] at h
      split at h
      · rename_i tokenAuth userName htoken hname
        obtain ⟨asked, rfl⟩ : ∃ asked : Credentials, binary = asked.frame :=
          ⟨_, binary.eq_frame htoken hname⟩
        obtain rfl := Option.some.inj htoken
        obtain rfl := Option.some.inj hname
        obtain ⟨apa, hfound, hawaits⟩ | ⟨hnone, -⟩ := isPlayerAwaited_cases asked s
        · simp only [Credentials.frame, hfound, Bool.not_true, Bool.false_eq_true, if_false] at h
          split_ifs at h
          · obtain ⟨rfl, gen, hgen, hzone⟩ := created_of_logInByCreating h
            exact ⟨apa, gen, hawaits, hgen, hzone⟩
          · exact absurd h not_created_of_logInByJoining
        · simp only [Credentials.frame, hnone] at h
          cases h
      · cases h

/-- In a run, also in one that fails, pits are created for those who were announced from a zone
with ranges. -/
theorem announced_of_created (inputs : List Input) {player : Credentials} {fightingPitId : UInt32}
    (h : .created player fightingPitId ∈
      (runServerLoop P S ctx inputs : Traced Event ServiceFault (ArenaServerService E)).log) :
    ∃ zone, zone ∈ ctx.rangeEncounterPerZone ∧ AnnouncedFrom zone inputs player := by
  let Created (event : Event) : Prop := ∀ player fightingPitId,
    event = .created player fightingPitId →
      ∃ zone, zone ∈ ctx.rangeEncounterPerZone ∧ AnnouncedFrom zone inputs player
  let Ahead (rest : List Input) (s : ArenaServerService E) : Prop :=
    (∀ input ∈ rest, input ∈ inputs) ∧ s.lobby.Expects inputs
  have hstart : Ahead inputs start := by
    refine ⟨fun input h => h, ?_⟩
    intro token apa hentry
    cases hentry
  have hrun : Keeps (Ahead []) Created (runServerLoop P S ctx inputs) := by
    apply Keeps.runs_remaining (R := Ahead) _ inputs hstart
    rintro input rest s ⟨hmem, hexpects⟩
    constructor
    · rintro event hevent player id rfl
      obtain ⟨apa, gen, hawaits, hgen, hzone⟩ := created_of_handle hevent
      exact ⟨gen.serverCode, hzone, hexpects.announced hawaits hgen⟩
    · intro t ht
      have hstep : s.handle P S ctx input = ⟨(s.handle P S ctx input).log, .ok t⟩ := by rw [← ht]
      refine ⟨fun next hnext => hmem next (List.mem_cons_of_mem _ hnext), ?_⟩
      exact hexpects.step (hmem input List.mem_cons_self) (handle_step hstep)
  exact hrun.log _ h player fightingPitId rfl

/-! ## Servers started from files -/

/-- A server that was started from its files creates pits for one zone only. -/
theorem pits_in_one_zone {J : JsonReader} {files : String → Option J.Json}
    {configContent : J.Json} {server : ArenaServerContext}
    (hserver : ArenaServerContext.parseArenaConfigFile J files configContent = .ok server) :
    ∃ zone, ∀ (E : PitEngine) (P : Platform) (S : SideSort) (inputs : List Input)
      (player : Credentials) (fightingPitId : UInt32),
      .created player fightingPitId ∈ (runServerLoop P S server.encounterContext inputs :
          Traced Event ServiceFault (ArenaServerService E)).log →
        AnnouncedFrom zone inputs player := by
  obtain ⟨c, -, hctx⟩ := ArenaServerContext.exists_of_parseArenaConfigFile hserver
  refine ⟨c.zone, ?_⟩
  intro E P S inputs player fightingPitId hcreated
  obtain ⟨zone, hzone, hannounced⟩ := announced_of_created inputs hcreated
  rw [hctx, ← AList.lookup_isSome, c.lookup_range] at hzone
  split_ifs at hzone with heq
  · rw [← heq]
    exact hannounced
  · cases hzone

/-- Slimes in a zone without ranges: their server starts. -/
theorem pits_in_one_zone_elsewhere :
    ∃ zone, ∀ (E : PitEngine) (P : Platform) (S : SideSort) (inputs : List Input)
      (player : Credentials) (fightingPitId : UInt32),
      .created player fightingPitId ∈
          (runServerLoop P S (ArenaServerContext.slimesIn "WS01").context inputs :
            Traced Event ServiceFault (ArenaServerService E)).log →
        AnnouncedFrom zone inputs player := by
  have hfile : ArenaServerContext.oneFile (ArenaServerContext.slimesIn "WS01")
      "zones_configuration.json" =
        some ((ArenaServerContext.slimesIn "WS01").document JsonTree.writer) := if_pos rfl
  have hserver : ArenaServerContext.parseArenaConfigFile JsonTree.reader
      (ArenaServerContext.oneFile (ArenaServerContext.slimesIn "WS01"))
      (ArenaServerContext.settingsOfArena.document JsonTree.writer "zones_configuration.json") =
        .ok ⟨ArenaServerContext.settingsOfArena, (ArenaServerContext.slimesIn "WS01").context⟩ :=
    @ArenaServerContext.parseArenaConfigFile_document JsonTree.writer
      (ArenaServerContext.oneFile (ArenaServerContext.slimesIn "WS01")) _ _ hfile _
  have hzone := pits_in_one_zone hserver
  exact hzone

/-! ## A zone without ranges -/

end ArenaServerService

end FyS.Arena
