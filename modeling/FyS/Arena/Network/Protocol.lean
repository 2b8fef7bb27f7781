import FyS.Arena.Network.Ledger
import FyS.Arena.Pit.Generation

/-!
# The admission protocol

Nobody is admitted who was not announced, and a registration admits once.  A
player who is not awaited is never turned down: the handler reads his entry
before it looks whether there is one.
-/

namespace FyS.Arena

open FyS.Library.Trace

theorem countP_admissions_le (player : Credentials) (log : List Event) :
    ((admissions log).countP fun admitted => admitted.1 = player) ≤ consumptions player log := by
  rw [consumptions, List.count, admissions, List.countP_filterMap, List.countP_filterMap]
  apply List.countP_mono_left
  intro event _ h
  cases event with
  | created player' id => simpa [Event.admission, Event.deed] using h
  | joined player' => simpa [Event.admission, Event.deed] using h
  | replied identityWs apa => cases h
  | refused player' => cases h
  | sent msg => cases h

theorem Lobby.Step.pits_eq {l l' : Lobby} {input : Input} {new : List Event}
    (hstep : l.Step input l' new) (hnone : admissions new = []) : l'.pits = l.pits := by
  cases hstep with
  | idle => rfl
  | registered identityWs binary apa hbinary hpit hfresh => rfl
  | refused env identityPlayer player apa hawaits => rfl
  | created env identityPlayer player apa id msgs hawaits hgen hfresh =>
      rw [admissions_cons_sent rfl] at hnone
      cases hnone
  | joined env identityPlayer player apa players owners msgs hawaits hgen hpit =>
      rw [admissions_cons_sent rfl] at hnone
      cases hnone

namespace ArenaServerService

variable {E : PitEngine} {P : Platform} {S : SideSort} {ctx : EncounterContext}

/-- What admission promises of a state and of the events that led there. -/
structure AdmissionSafe (P : Platform) (S : SideSort) (ctx : EncounterContext)
    (s : ArenaServerService E) (log : List Event) : Prop where
  /-- An entry stands under its token, carries what generates a pit if its id is
  0, and otherwise names a pit. -/
  entries : ∀ token apa, s.awaitingArena.lookup token = some apa →
    apa.token = token ∧ (apa.gen.isSome = true ↔ apa.fightingPitId = 0) ∧
      (apa.fightingPitId ≠ 0 → s.workerService.doesFightingPitExist apa.fightingPitId = true)
  /-- The next message admits a player only if it is his frame and he has a
  registration that was not used yet. -/
  caused : ∀ input t new, s.handle P S ctx input = ⟨new, .ok t⟩ →
    ∀ player fightingPitId, (player, fightingPitId) ∈ admissions new →
      (∃ env identityPlayer, input = .auth env identityPlayer player.frame) ∧
        consumptions player log < registrations player log
  /-- A message admits one player at most, and the players and teams of the pits
  change by admissions only. -/
  single : ∀ input t new, s.handle P S ctx input = ⟨new, .ok t⟩ →
    (admissions new).length ≤ 1 ∧ (admissions new = [] → t.lobby.pits = s.lobby.pits)
  /-- Nobody is admitted more often than he was registered. -/
  once : ∀ player, ((admissions log).countP fun admitted => admitted.1 = player) ≤
    registrations player log
  /-- A pit accepts those it was created for or who were admitted to it. -/
  accepted : ∀ name token fightingPitId fp,
    s.workerService.getAuthenticatedPlayerFightingPit name token fightingPitId = some fp →
      .created ⟨name, token, 0⟩ fightingPitId ∈ log ∨ .joined ⟨name, token, fightingPitId⟩ ∈ log

theorem accepted_iff {s : ArenaServerService E} {log : List Event}
    (hrecorded : s.lobby.Recorded log) (name token : String) (fightingPitId : UInt32) :
    (s.workerService.getAuthenticatedPlayerFightingPit name token fightingPitId).isSome = true ↔
      .created ⟨name, token, 0⟩ fightingPitId ∈ log := by
  cases hlookup : s.workerService.arenaInstances.lookup fightingPitId with
  | none =>
      have hpit : s.lobby.pits fightingPitId = none :=
        congrArg (Option.map ArenaInstance.admission) hlookup
      simp [WorkerService.getAuthenticatedPlayerFightingPit, hlookup,
        hrecorded.not_created hpit]
  | some fp =>
      rw [← hrecorded.players _ _ _ (pits_of_lookup hlookup), Option.isSome_iff_exists]
      constructor
      · rintro ⟨fp', h⟩
        obtain ⟨hlookup', hmem⟩ := WorkerService.authenticated_iff.mp h
        rw [hlookup] at hlookup'
        rw [Option.some.inj hlookup']
        exact hmem
      · intro hmem
        exact ⟨fp, WorkerService.authenticated_iff.mpr ⟨hlookup, hmem⟩⟩

/-- Admission is safe in every run. -/
theorem admission_safe {inputs : List Input} {s : ArenaServerService E} {log : List Event}
    (hrun : runServerLoop P S ctx inputs = ⟨log, .ok s⟩) : AdmissionSafe P S ctx s log := by
  obtain ⟨hsound, hrecorded⟩ := run_ledger hrun
  constructor
  · intro token apa hentry
    have hentrySound := hsound token apa hentry
    refine ⟨hentrySound.token, hentrySound.gen, ?_⟩
    intro hid
    apply Bool.eq_true_of_not_eq_false
    intro hgone
    exact hentrySound.pit hid (pits_eq_none_iff.mpr hgone)
  · intro input t new h player id hadmitted
    have hstep := handle_step h
    obtain hnone | ⟨env, identityPlayer, player', id', rfl, hone, hused⟩ := hstep.admissions_eq
    · rw [hnone] at hadmitted
      cases hadmitted
    · rw [hone, List.mem_singleton] at hadmitted
      obtain ⟨rfl, rfl⟩ := Prod.mk.inj hadmitted
      exact ⟨⟨env, identityPlayer, rfl⟩,
        hrecorded.balanced.used_lt_issued (hstep.tickets_step hsound) hused⟩
  · intro input t new h
    have hstep := handle_step h
    refine ⟨?_, hstep.pits_eq⟩
    obtain hnone | ⟨_, _, _, _, _, hone, _⟩ := hstep.admissions_eq
    · rw [hnone]
      exact Nat.zero_le 1
    · rw [hone]
      exact le_refl 1
  · intro player
    exact (countP_admissions_le player log).trans (hrecorded.balanced.used_le_issued player)
  · intro name token id fp h
    left
    apply (accepted_iff hrecorded name token id).mp
    rw [h]
    rfl

/-! ## A run -/

def quietEngine : PitEngine :=
  { constantChai ⟨fun _ status => status, fun _ status => status⟩ with
    createChaiInstance := ()
    evalOnPit := fun _ _ _ _ => (.ok (), ⟨fun _ status => status, fun _ status => status⟩, ()) }

def quiet : Surroundings where
  cml _ := none
  rng := ⟨fun _ rA _ => rA, fun _ rA _ h => ⟨le_refl rA, h⟩⟩
  initialSpeed _ := 1
  fuel := 100

def slimes : EncounterContext :=
  oneZone "WS00" "WS00" (1, 4) [⟨"arena:contenders:Slime.chai", 3, #v[100, 100, 100]⟩]

def comesTwice : List Input :=
  [.encounter "ws" ⟨some "user", some "first", 0, some "WS00", 0, 0, false⟩,
    .auth quiet "id" ⟨some "user", some "first", 0⟩,
    .encounter "ws" ⟨some "user", some "second", 1, none, 0, 0, false⟩,
    .auth quiet "id" ⟨some "user", some "second", 1⟩]

def slimesRun (inputs : List Input) :
    Traced Event ServiceFault (ArenaServerService quietEngine) :=
  runServerLoop (.unbounded insertionSort) insertionSideSort slimes inputs

theorem comesTwice_returns : (slimesRun comesTwice).result.isOk = true := by
  decide +kernel

theorem comesTwice_log : (slimesRun comesTwice).log =
    [.replied "ws" ⟨"user", "first", 0, some ⟨"WS00", false, 0, .EASY⟩⟩,
      .created ⟨"user", "first", 0⟩ 1, .sent ["id"],
      .replied "ws" ⟨"user", "second", 1, none⟩, .joined ⟨"user", "second", 1⟩, .sent ["id"]] := by
  decide +kernel

theorem admission_safe_comesTwice : ∃ s, slimesRun comesTwice = ⟨(slimesRun comesTwice).log, .ok s⟩ ∧
    AdmissionSafe (.unbounded insertionSort) insertionSideSort slimes s
      (slimesRun comesTwice).log := by
  obtain ⟨s, hrun⟩ := Traced.eq_of_isOk comesTwice_returns
  exact ⟨s, hrun, admission_safe hrun⟩

/-! ## Rejections -/

/-- The authentication handler returns and nothing has changed. -/
def RejectsHarmlessly (P : Platform) (S : SideSort) (ctx : EncounterContext) (env : Surroundings)
    (identityPlayer : String) (binary : ArenaServerValidateAuth) (s : ArenaServerService E) : Prop :=
  s.authenticate P S ctx env identityPlayer binary = ⟨[], .ok s⟩

/-- No message of a player who is not awaited is rejected: if it has all its
fields, then the handler reads through the end of the awaited players. -/
theorem never_rejects_harmlessly {env : Surroundings} {identityPlayer : String}
    {binary : ArenaServerValidateAuth} {s : ArenaServerService E}
    (hnot : ∀ player apa, binary = player.frame → ¬ s.lobby.Awaits player apa) :
    ¬ RejectsHarmlessly P S ctx env identityPlayer binary s ∧
      ∀ player : Credentials, binary = player.frame →
        (s.authenticate P S ctx env identityPlayer binary).result = .error .endIterator := by
  have hend (player : Credentials) (hframe : binary = player.frame) :
      (s.authenticate P S ctx env identityPlayer binary).result = .error .endIterator := by
    obtain ⟨apa, -, hawaits⟩ | ⟨hnone, -⟩ := isPlayerAwaited_cases player s
    · exact absurd hawaits (hnot player apa hframe)
    · simp only [authenticate, hframe, Credentials.frame, hnone]
  refine ⟨?_, hend⟩
  intro h
  have hok := congrArg Traced.result h
  cases htoken : binary.tokenAuth with
  | none => simp [authenticate, htoken] at hok
  | some tokenAuth =>
      cases hname : binary.userName with
      | none => simp [authenticate, htoken, hname] at hok
      | some userName =>
          rw [hend _ (binary.eq_frame htoken hname)] at hok
          cases hok

/-- A player whom nobody announced, at a server that has just started. -/
theorem never_rejects_a_stranger :
    ¬ RejectsHarmlessly (.unbounded insertionSort) insertionSideSort slimes quiet "id"
        ⟨some "user", some "first", 0⟩ (start : ArenaServerService quietEngine) ∧
      ∀ player : Credentials, ⟨some "user", some "first", 0⟩ = player.frame →
        ((start : ArenaServerService quietEngine).authenticate (.unbounded insertionSort)
          insertionSideSort slimes quiet "id" ⟨some "user", some "first", 0⟩).result =
            .error .endIterator := by
  apply never_rejects_harmlessly
  intro player apa _ hawaits
  cases hawaits.entry

theorem end_read_at_start :
    ¬ ∀ (inputs : List Input) (log : List Event) (s : ArenaServerService quietEngine),
      runServerLoop (.unbounded insertionSort) insertionSideSort slimes inputs = ⟨log, .ok s⟩ →
      ∀ (env : Surroundings) (identityPlayer : String) (binary : ArenaServerValidateAuth),
        (∀ player apa, binary = player.frame → ¬ s.lobby.Awaits player apa) →
        RejectsHarmlessly (.unbounded insertionSort) insertionSideSort slimes env identityPlayer
          binary s := by
  intro h
  have hrejected := h [] [] start rfl quiet "id" ⟨some "user", some "first", 0⟩ (by
    intro player apa _ hawaits
    cases hawaits.entry)
  cases (Traced.mk.inj hrejected).2

end ArenaServerService

end FyS.Arena
