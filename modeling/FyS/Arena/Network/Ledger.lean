import FyS.Arena.Network.Admission
import FyS.Library.Tickets

/-!
# The ledger of the lobby

What the events of a run tell about the lobby it ends in.  A registration is a
single-use ticket under its token, the players that a pit accepts are those it
was created for, and the owners of its teams are those who were admitted to it,
in order.
-/

namespace FyS.Arena

open FyS.Library.Trace FyS.Library.Tickets

def AwaitingPlayerArena.credentials (apa : AwaitingPlayerArena) : Credentials :=
  ⟨apa.namePlayer, apa.token, apa.fightingPitId⟩

theorem gen_of_createAwaitingPlayer {binary : FightingPitEncounter} {apa : AwaitingPlayerArena}
    (h : createAwaitingPlayer binary = some apa) :
    apa.gen.isSome = true ↔ apa.fightingPitId = 0 := by
  by_cases hid : binary.fightingPitId = 0
  · simp only [createAwaitingPlayer, if_pos hid, Option.bind_eq_bind, Option.bind_eq_some_iff,
      Option.some.injEq] at h
    obtain ⟨worldServerId, -, gen, rfl, userName, -, tokenAuth, -, rfl⟩ := h
    simp [hid]
  · simp only [createAwaitingPlayer, if_neg hid, Option.bind_eq_bind, Option.bind_eq_some_iff,
      Option.some.injEq] at h
    obtain ⟨gen, rfl, userName, -, tokenAuth, -, rfl⟩ := h
    simp [hid]

/-! ## What the events tell -/

def Event.deed : Event → Option (Deed Credentials)
  | .replied _ apa => some (.issued apa.credentials)
  | .created player _ => some (.used player)
  | .refused player => some (.used player)
  | .joined player => some (.used player)
  | .sent _ => none

def Event.admission : Event → Option (Credentials × UInt32)
  | .created player fightingPitId => some (player, fightingPitId)
  | .joined player => some (player, player.fightingPitId)
  | _ => none

def registrations (player : Credentials) (log : List Event) : Nat :=
  (log.filterMap Event.deed).count (.issued player)

def consumptions (player : Credentials) (log : List Event) : Nat :=
  (log.filterMap Event.deed).count (.used player)

def admissions (log : List Event) : List (Credentials × UInt32) := log.filterMap Event.admission

def admittedNames (fightingPitId : UInt32) (log : List Event) : List String :=
  ((admissions log).filter fun admitted => admitted.2 = fightingPitId).map fun admitted =>
    admitted.1.userName

theorem deeds_cons_sent {event : Event} {deed : Deed Credentials} (h : event.deed = some deed)
    (msgs : List (List String)) :
    (event :: msgs.map .sent).filterMap Event.deed = [deed] := by
  rw [List.filterMap_cons_some h, List.filterMap_map]
  simp [Event.deed]

theorem admissions_cons_sent {event : Event} {admitted : Credentials × UInt32}
    (h : event.admission = some admitted) (msgs : List (List String)) :
    admissions (event :: msgs.map .sent) = [admitted] := by
  rw [admissions, List.filterMap_cons_some h, List.filterMap_map]
  simp [Event.admission]

@[simp] theorem admissions_append (log new : List Event) :
    admissions (log ++ new) = admissions log ++ admissions new := List.filterMap_append

theorem admittedNames_append (fightingPitId : UInt32) (log new : List Event) :
    admittedNames fightingPitId (log ++ new) =
      admittedNames fightingPitId log ++ admittedNames fightingPitId new := by
  simp [admittedNames]

theorem mem_admittedNames {fightingPitId : UInt32} {log : List Event} {player : Credentials}
    (h : (player, fightingPitId) ∈ admissions log) :
    player.userName ∈ admittedNames fightingPitId log := by
  apply List.mem_map.mpr
  refine ⟨_, List.mem_filter.mpr ⟨h, ?_⟩, rfl⟩
  exact decide_eq_true rfl

theorem created_mem_admissions {fightingPitId : UInt32} {log : List Event} {player : Credentials}
    (h : .created player fightingPitId ∈ log) : (player, fightingPitId) ∈ admissions log :=
  List.mem_filterMap.mpr ⟨_, h, rfl⟩

theorem mem_admissions_iff {fightingPitId : UInt32} {log : List Event} {player : Credentials} :
    (player, fightingPitId) ∈ admissions log ↔
      .created player fightingPitId ∈ log ∨
        .joined player ∈ log ∧ player.fightingPitId = fightingPitId := by
  constructor
  · intro h
    obtain ⟨event, hmem, hadmission⟩ := List.mem_filterMap.mp h
    cases event with
    | created player' id =>
        obtain ⟨rfl, rfl⟩ := Prod.mk.inj (Option.some.inj hadmission)
        exact .inl hmem
    | joined player' =>
        obtain ⟨rfl, hid⟩ := Prod.mk.inj (Option.some.inj hadmission)
        exact .inr ⟨hmem, hid⟩
    | replied identityWs apa => cases hadmission
    | refused player' => cases hadmission
    | sent msg => cases hadmission
  · rintro (h | ⟨h, rfl⟩)
    · exact created_mem_admissions h
    · exact List.mem_filterMap.mpr ⟨_, h, rfl⟩

namespace Lobby

def tickets (l : Lobby) (token : String) : Option Credentials :=
  (l.awaiting token).map AwaitingPlayerArena.credentials

/-- An entry stands under its own token, carries what generates a pit if it
asks for one, and otherwise names a pit. -/
structure SoundEntry (l : Lobby) (token : String) (apa : AwaitingPlayerArena) : Prop where
  token : apa.token = token
  gen : apa.gen.isSome = true ↔ apa.fightingPitId = 0
  pit : apa.fightingPitId ≠ 0 → l.pits apa.fightingPitId ≠ none

def Sound (l : Lobby) : Prop :=
  ∀ token apa, l.awaiting token = some apa → l.SoundEntry token apa

def owners (l : Lobby) (fightingPitId : UInt32) : List String :=
  (l.pits fightingPitId).elim [] Prod.snd

structure Recorded (l : Lobby) (log : List Event) : Prop where
  balanced : Balanced Credentials.tokenAuth l.tickets (log.filterMap Event.deed)
  players : ∀ fightingPitId players owners, l.pits fightingPitId = some (players, owners) →
    ∀ name token, ⟨name, token⟩ ∈ players ↔ .created ⟨name, token, 0⟩ fightingPitId ∈ log
  owners : ∀ fightingPitId, l.owners fightingPitId = admittedNames fightingPitId log

/-! ## Entries stay sound -/

variable {l l' : Lobby} {input : Input} {log new : List Event}

theorem Sound.consume (h : l.Sound) (token : String) : (l.consume token).Sound := by
  intro token' apa hentry
  have hentry' : Function.update l.awaiting token none token' = some apa := hentry
  by_cases htoken : token' = token
  · rw [htoken, Function.update_self] at hentry'
    cases hentry'
  · rw [Function.update_of_ne htoken] at hentry'
    have hsound := h token' apa hentry'
    exact ⟨hsound.token, hsound.gen, hsound.pit⟩

theorem Sound.setPit (h : l.Sound) (fightingPitId : UInt32)
    (admission : List AuthenticatedPlayer × List String) :
    (l.setPit fightingPitId admission).Sound := by
  intro token apa hentry
  have hsound := h token apa hentry
  refine ⟨hsound.token, hsound.gen, ?_⟩
  intro hid hnone
  have hnone' : Function.update l.pits fightingPitId (some admission) apa.fightingPitId = none :=
    hnone
  by_cases heq : apa.fightingPitId = fightingPitId
  · rw [heq, Function.update_self] at hnone'
    cases hnone'
  · rw [Function.update_of_ne heq] at hnone'
    exact hsound.pit hid hnone'

theorem Sound.step (h : l.Sound) (hstep : l.Step input l' new) : l'.Sound := by
  cases hstep with
  | idle => exact h
  | registered identityWs binary apa hbinary hpit hfresh =>
      intro token apa' hentry
      have hentry' : Function.update l.awaiting apa.token (some apa) token = some apa' := hentry
      by_cases htoken : token = apa.token
      · rw [htoken, Function.update_self] at hentry'
        obtain rfl := Option.some.inj hentry'
        exact ⟨htoken.symm, gen_of_createAwaitingPlayer hbinary, hpit⟩
      · rw [Function.update_of_ne htoken] at hentry'
        have hsound := h token apa' hentry'
        exact ⟨hsound.token, hsound.gen, hsound.pit⟩
  | refused env identityPlayer player apa hawaits => exact h.consume _
  | created env identityPlayer player apa id msgs hawaits hgen hfresh =>
      exact (h.consume _).setPit _ _
  | joined env identityPlayer player apa players owners msgs hawaits hgen hpit =>
      exact (h.consume _).setPit _ _

/-! ## A registration is a ticket -/

theorem Awaits.credentials (h : l.Sound) {player : Credentials} {apa : AwaitingPlayerArena}
    (hawaits : l.Awaits player apa) : apa.credentials = player := by
  rw [AwaitingPlayerArena.credentials, hawaits.namePlayer, hawaits.fightingPitId,
    (h _ _ hawaits.entry).token]

theorem tickets_eq (l : Lobby) :
    l.tickets = Option.map AwaitingPlayerArena.credentials ∘ l.awaiting := rfl

theorem tickets_consume (token : String) :
    (l.consume token).tickets = Function.update l.tickets token none := by
  rw [tickets_eq, tickets_eq, consume, Function.comp_update]
  rfl

theorem tickets_register (apa : AwaitingPlayerArena) :
    tickets { l with awaiting := Function.update l.awaiting apa.token (some apa) } =
      Function.update l.tickets apa.token (some apa.credentials) := by
  rw [tickets_eq, tickets_eq, Function.comp_update]
  rfl

theorem used_step (h : l.Sound) {player : Credentials} {apa : AwaitingPlayerArena}
    (hawaits : l.Awaits player apa) :
    Library.Tickets.Step Credentials.tokenAuth l.tickets (l.consume player.tokenAuth).tickets
      [.used player] := by
  rw [tickets_consume]
  apply Library.Tickets.Step.used
  show (l.awaiting player.tokenAuth).map _ = _
  rw [hawaits.entry, Option.map_some, hawaits.credentials h]

theorem Step.tickets_step (hstep : l.Step input l' new) (h : l.Sound) :
    Library.Tickets.Step Credentials.tokenAuth l.tickets l'.tickets (new.filterMap Event.deed) := by
  cases hstep with
  | idle => exact .idle
  | registered identityWs binary apa hbinary hpit hfresh =>
      rw [tickets_register]
      apply Library.Tickets.Step.issued apa.credentials
      show (l.awaiting apa.token).map _ = none
      rw [hfresh]
      rfl
  | refused env identityPlayer player apa hawaits => exact used_step h hawaits
  | created env identityPlayer player apa id msgs hawaits hgen hfresh =>
      rw [deeds_cons_sent rfl]
      exact used_step h hawaits
  | joined env identityPlayer player apa players owners msgs hawaits hgen hpit =>
      rw [deeds_cons_sent rfl]
      exact used_step h hawaits

/-! ## The ledger is kept -/

theorem recorded_start : Recorded ⟨fun _ => none, fun _ => none⟩ [] := by
  constructor
  · exact balanced_nil
  · intro id players owners hpit
    cases hpit
  · intro id
    rfl

theorem Recorded.not_created (h : l.Recorded log) {fightingPitId : UInt32}
    (hnone : l.pits fightingPitId = none) (player : Credentials) :
    .created player fightingPitId ∉ log := by
  intro hcreated
  have howners := h.owners fightingPitId
  rw [Lobby.owners, hnone] at howners
  have hmem := mem_admittedNames (created_mem_admissions hcreated)
  rw [← howners] at hmem
  cases hmem

theorem Recorded.players_created (h : l.Recorded log) (hsound : l.Sound) {player : Credentials}
    {apa : AwaitingPlayerArena} (hawaits : l.Awaits player apa)
    (hgen : apa.hasToBeGenerated = true) {fightingPitId : UInt32}
    (hfresh : l.pits fightingPitId = none) (msgs : List (List String)) (name token : String) :
    (⟨name, token⟩ : AuthenticatedPlayer) ∈ [⟨apa.namePlayer, apa.token⟩] ↔
      .created ⟨name, token, 0⟩ fightingPitId ∈
        log ++ .created player fightingPitId :: msgs.map .sent := by
  have hzero : apa.fightingPitId = 0 := by
    rw [AwaitingPlayerArena.hasToBeGenerated, Bool.and_eq_true, beq_iff_eq] at hgen
    exact hgen.1
  have hplayer : player = ⟨apa.namePlayer, apa.token, 0⟩ := by
    rw [← hzero]
    exact (hawaits.credentials hsound).symm
  rw [hplayer]
  simp [h.not_created hfresh]

theorem Recorded.players_step (h : l.Recorded log) (hsound : l.Sound)
    (hstep : l.Step input l' new) {fightingPitId : UInt32} {players : List AuthenticatedPlayer}
    {owners : List String} (hpit : l'.pits fightingPitId = some (players, owners))
    (name token : String) :
    ⟨name, token⟩ ∈ players ↔ .created ⟨name, token, 0⟩ fightingPitId ∈ log ++ new := by
  cases hstep with
  | idle => simpa using h.players _ _ _ hpit name token
  | registered identityWs binary apa hbinary hid hfresh =>
      simpa using h.players _ _ _ hpit name token
  | refused env identityPlayer player apa hawaits =>
      simpa using h.players _ _ _ hpit name token
  | created env identityPlayer player apa id msgs hawaits hgen hfresh =>
      have hpit' : Function.update l.pits id _ fightingPitId = some (players, owners) := hpit
      by_cases hid : fightingPitId = id
      · rw [hid, Function.update_self] at hpit'
        obtain ⟨rfl, -⟩ := Prod.mk.inj (Option.some.inj hpit')
        rw [hid]
        exact h.players_created hsound hawaits hgen hfresh msgs name token
      · rw [Function.update_of_ne hid] at hpit'
        simpa [hid] using h.players _ _ _ hpit' name token
  | joined env identityPlayer player apa players' owners' msgs hawaits hgen hthere =>
      have hpit' : Function.update l.pits player.fightingPitId _ fightingPitId =
          some (players, owners) := hpit
      by_cases hid : fightingPitId = player.fightingPitId
      · rw [hid, Function.update_self] at hpit'
        obtain ⟨rfl, -⟩ := Prod.mk.inj (Option.some.inj hpit')
        rw [hid]
        simpa using h.players _ _ _ hthere name token
      · rw [Function.update_of_ne hid] at hpit'
        simpa using h.players _ _ _ hpit' name token

theorem owners_step (hstep : l.Step input l' new) (fightingPitId : UInt32) :
    l'.owners fightingPitId = l.owners fightingPitId ++ admittedNames fightingPitId new := by
  cases hstep with
  | idle => simp [admittedNames, admissions]
  | registered identityWs binary apa hbinary hid hfresh =>
      simp [admittedNames, admissions, Event.admission, Lobby.owners]
  | refused env identityPlayer player apa hawaits =>
      simp [admittedNames, admissions, Event.admission, Lobby.owners, consume]
  | created env identityPlayer player apa id msgs hawaits hgen hfresh =>
      rw [admittedNames, admissions_cons_sent rfl]
      by_cases hid : fightingPitId = id
      · simp [Lobby.owners, setPit, consume, hid, hfresh, hawaits.namePlayer]
      · simp [Lobby.owners, setPit, consume, hid, Ne.symm hid]
  | joined env identityPlayer player apa players owners msgs hawaits hgen hpit =>
      rw [admittedNames, admissions_cons_sent rfl]
      by_cases hid : fightingPitId = player.fightingPitId
      · simp [Lobby.owners, setPit, consume, hid, hpit]
      · simp [Lobby.owners, setPit, consume, hid, Ne.symm hid]

theorem Recorded.step (h : l.Recorded log) (hsound : l.Sound) (hstep : l.Step input l' new) :
    l'.Recorded (log ++ new) := by
  constructor
  · rw [List.filterMap_append]
    exact h.balanced.step (hstep.tickets_step hsound)
  · intro id players owners hpit name token
    exact h.players_step hsound hstep hpit name token
  · intro id
    rw [owners_step hstep, h.owners, admittedNames_append]

theorem Step.admissions_eq (hstep : l.Step input l' new) :
    admissions new = [] ∨
      ∃ env identityPlayer player fightingPitId,
        input = .auth env identityPlayer player.frame ∧
          admissions new = [(player, fightingPitId)] ∧ .used player ∈ new.filterMap Event.deed := by
  cases hstep with
  | idle => exact .inl rfl
  | registered identityWs binary apa hbinary hpit hfresh => exact .inl rfl
  | refused env identityPlayer player apa hawaits => exact .inl rfl
  | created env identityPlayer player apa id msgs hawaits hgen hfresh =>
      right
      refine ⟨env, identityPlayer, player, id, rfl, admissions_cons_sent rfl msgs, ?_⟩
      rw [deeds_cons_sent rfl]
      exact List.mem_singleton_self _
  | joined env identityPlayer player apa players owners msgs hawaits hgen hpit =>
      right
      refine ⟨env, identityPlayer, player, _, rfl, admissions_cons_sent rfl msgs, ?_⟩
      rw [deeds_cons_sent rfl]
      exact List.mem_singleton_self _

end Lobby

/-! ## Runs of the server -/

namespace ArenaServerService

variable {E : PitEngine} {P : Platform} {S : SideSort} {ctx : EncounterContext}

/-- Every run leaves a sound lobby, and its events are the ledger of that lobby. -/
theorem run_ledger {inputs : List Input} {log : List Event} {s : ArenaServerService E}
    (hrun : runServerLoop P S ctx inputs = ⟨log, .ok s⟩) :
    s.lobby.Sound ∧ s.lobby.Recorded log := by
  have hstart : (start : ArenaServerService E).lobby.Sound ∧
      (start : ArenaServerService E).lobby.Recorded [] := by
    constructor
    · intro token apa hentry
      cases hentry
    · exact Lobby.recorded_start
  apply runs_history (J := fun s done => s.lobby.Sound ∧ s.lobby.Recorded done) hstart _ hrun
  intro input s done t log hs h
  have hstep := handle_step h
  exact ⟨hs.1.step hstep, hs.2.step hs.1 hstep⟩

end ArenaServerService

end FyS.Arena
