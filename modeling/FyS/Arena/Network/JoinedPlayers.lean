import FyS.Arena.Network.Protocol

/-!
# Players who join a pit

A join puts one more team on the pit.  It does not write the player down as one
whom the pit accepts, and it does not look whether he has a team there.  What a
player is promised who is let in therefore depends on who joins.
-/

namespace FyS.Arena

open FyS.Library.Trace

def WrittenDown (log : List Event) : Prop :=
  ∀ player fightingPitId, (player, fightingPitId) ∈ admissions log →
    .created ⟨player.userName, player.tokenAuth, 0⟩ fightingPitId ∈ log

namespace Lobby

def Joins (l : Lobby) (input : Input) (player : Credentials) : Prop :=
  ∃ env identityPlayer apa, input = .auth env identityPlayer player.frame ∧
    l.Awaits player apa ∧ apa.hasToBeGenerated = false

variable {l l' : Lobby} {input : Input} {log new : List Event}

theorem Step.joins (hstep : l.Step input l' new) {player : Credentials}
    (hjoined : .joined player ∈ new) : l.Joins input player := by
  cases hstep with
  | idle => cases hjoined
  | registered identityWs binary apa hbinary hpit hfresh => simp at hjoined
  | refused env identityPlayer player' apa hawaits => simp at hjoined
  | created env identityPlayer player' apa id msgs hawaits hgen hfresh => simp at hjoined
  | joined env identityPlayer player' apa players owners msgs hawaits hgen hpit =>
      obtain rfl : player = player' := by simpa using hjoined
      exact ⟨env, identityPlayer, apa, rfl, hawaits, hgen⟩

theorem Step.created_cases (hstep : l.Step input l' new) {player : Credentials}
    {fightingPitId : UInt32} (hcreated : .created player fightingPitId ∈ new) :
    player.fightingPitId = 0 ∧ ∀ player', .joined player' ∉ new := by
  cases hstep with
  | idle => cases hcreated
  | registered identityWs binary apa hbinary hpit hfresh => simp at hcreated
  | refused env identityPlayer player' apa hawaits => simp at hcreated
  | created env identityPlayer player' apa id msgs hawaits hgen hfresh =>
      obtain ⟨rfl, rfl⟩ : player = player' ∧ fightingPitId = id := by simpa using hcreated
      rw [AwaitingPlayerArena.hasToBeGenerated, Bool.and_eq_true, beq_iff_eq] at hgen
      constructor
      · rw [← hawaits.fightingPitId]
        exact hgen.1
      · simp
  | joined env identityPlayer player' apa players owners msgs hawaits hgen hpit =>
      simp at hcreated

theorem Step.writtenDown_iff (hstep : l.Step input l' new) (h : WrittenDown log) :
    WrittenDown (log ++ new) ↔ ∀ player, .joined player ∈ new →
      .created ⟨player.userName, player.tokenAuth, 0⟩ player.fightingPitId ∈ log := by
  constructor
  · intro hall player hjoined
    have hmem := hall player player.fightingPitId
      (mem_admissions_iff.mpr (.inr ⟨List.mem_append_right log hjoined, rfl⟩))
    obtain hlog | hnew := List.mem_append.mp hmem
    · exact hlog
    · exact absurd hjoined ((hstep.created_cases hnew).2 player)
  · intro hjoins player id hadmitted
    rw [admissions_append, List.mem_append] at hadmitted
    obtain hlog | hnew := hadmitted
    · exact List.mem_append_left new (h player id hlog)
    · obtain hcreated | ⟨hjoined, rfl⟩ := mem_admissions_iff.mp hnew
      · rw [← (hstep.created_cases hcreated).1]
        exact List.mem_append_right log hcreated
      · exact List.mem_append_left new (hjoins player hjoined)

theorem Step.nodup_owners_iff (hstep : l.Step input l' new)
    (h : ∀ fightingPitId, (l.owners fightingPitId).Nodup) :
    (∀ fightingPitId, (l'.owners fightingPitId).Nodup) ↔
      ∀ player, .joined player ∈ new → player.userName ∉ l.owners player.fightingPitId := by
  have howners := owners_step hstep
  cases hstep with
  | idle => simpa using h
  | registered identityWs binary apa hbinary hpit hfresh =>
      constructor
      · simp
      · intro _
        exact h
  | refused env identityPlayer player apa hawaits =>
      constructor
      · simp
      · intro _
        exact h
  | created env identityPlayer player apa id msgs hawaits hgen hfresh =>
      constructor
      · simp
      · intro _ id'
        rw [howners, admittedNames, admissions_cons_sent rfl]
        by_cases hid : id = id'
        · simp [← hid, Lobby.owners, hfresh]
        · simpa [hid] using h id'
  | joined env identityPlayer player apa players owners msgs hawaits hgen hpit =>
      have hadmitted (id : UInt32) :
          admittedNames id (.joined player :: msgs.map .sent) =
            if player.fightingPitId = id then [player.userName] else [] := by
        rw [admittedNames, admissions_cons_sent rfl]
        by_cases hid : player.fightingPitId = id
        · simp [hid]
        · simp [hid]
      constructor
      · intro hall player' hjoined
        obtain rfl : player' = player := by simpa using hjoined
        have hnodup := hall player'.fightingPitId
        rw [howners, hadmitted, if_pos rfl, ← List.concat_eq_append, List.nodup_concat] at hnodup
        exact hnodup.1
      · intro hnot id
        rw [howners, hadmitted]
        by_cases hid : player.fightingPitId = id
        · rw [if_pos hid, ← hid, ← List.concat_eq_append, List.nodup_concat]
          exact ⟨hnot player List.mem_cons_self, h _⟩
        · rw [if_neg hid, List.append_nil]
          exact h id

end Lobby

/-! ## A join of the server -/

namespace ArenaServerService

variable {E : PitEngine} {P : Platform} {S : SideSort} {ctx : EncounterContext}

theorem isPlayerAwaited_of_awaits {s : ArenaServerService E} {player : Credentials}
    {apa : AwaitingPlayerArena} (hawaits : s.lobby.Awaits player apa) :
    s.isPlayerAwaited player.userName player.tokenAuth player.fightingPitId =
      (true, some apa) := by
  obtain ⟨apa', hfound, hawaits'⟩ | ⟨-, hnone⟩ := isPlayerAwaited_cases player s
  · have hentry := hawaits.entry
    rw [hawaits'.entry] at hentry
    rw [hfound, Option.some.inj hentry]
  · exact absurd hawaits (hnone apa)

theorem joined_iff {s t : ArenaServerService E} {input : Input} {new : List Event}
    (hsound : s.lobby.Sound) (h : s.handle P S ctx input = ⟨new, .ok t⟩) (player : Credentials) :
    .joined player ∈ new ↔ s.lobby.Joins input player := by
  constructor
  · exact (handle_step h).joins
  · rintro ⟨env, identityPlayer, apa, rfl, hawaits, hgen⟩
    have hentry := hsound _ _ hawaits.entry
    have hthere : s.workerService.doesFightingPitExist player.fightingPitId = true := by
      have hid : apa.fightingPitId ≠ 0 := by
        intro hzero
        rw [AwaitingPlayerArena.hasToBeGenerated, hzero, hentry.gen.mpr hzero] at hgen
        cases hgen
      apply Bool.eq_true_of_not_eq_false
      rw [← hawaits.fightingPitId]
      intro hgone
      exact hentry.pit hid (pits_eq_none_iff.mpr hgone)
    simp only [handle, authenticate, Credentials.frame, isPlayerAwaited_of_awaits hawaits, hgen,
      Bool.not_true, Bool.false_eq_true, if_false, logInByJoining, hthere] at h
    split at h
    · cases (Traced.mk.inj h).2
    · obtain ⟨_, _, _, hfirst, -, rfl⟩ := Traced.andThen_eq_ok.mp h
      obtain ⟨rfl, -⟩ := Traced.ok_eq_ok.mp hfirst
      exact List.mem_cons_self

/-! ## Who can play -/

/-- Every player who was let in is accepted by his pit. -/
def AcceptsAdmitted (s : ArenaServerService E) (log : List Event) : Prop :=
  ∀ player fightingPitId, (player, fightingPitId) ∈ admissions log →
    ∃ fp, s.workerService.arenaInstances.lookup fightingPitId = some fp ∧
      s.workerService.getAuthenticatedPlayerFightingPit player.userName player.tokenAuth
        fightingPitId = some fp

theorem acceptsAdmitted_iff {s : ArenaServerService E} {log : List Event}
    (hrecorded : s.lobby.Recorded log) : AcceptsAdmitted s log ↔ WrittenDown log := by
  constructor
  · intro h player id hadmitted
    obtain ⟨fp, -, haccepted⟩ := h player id hadmitted
    apply (accepted_iff hrecorded _ _ _).mp
    rw [haccepted]
    rfl
  · intro h player id hadmitted
    obtain ⟨fp, haccepted⟩ := Option.isSome_iff_exists.mp
      ((accepted_iff hrecorded _ _ _).mpr (h player id hadmitted))
    exact ⟨fp, (WorkerService.authenticated_iff.mp haccepted).1, haccepted⟩

/-- Everybody who was let in can play, all through a run, exactly when nobody
joins a pit but with the credentials that it was created for. -/
theorem admitted_can_play_iff {inputs : List Input} {t : ArenaServerService E} {log : List Event}
    (hrun : runServerLoop P S ctx inputs = ⟨log, .ok t⟩) :
    (∀ (s : ArenaServerService E) done rest,
        Passes (handle P S ctx) start inputs s done rest → AcceptsAdmitted s done) ↔
      ∀ input (s : ArenaServerService E) done rest,
        Passes (handle P S ctx) start inputs s done (input :: rest) → ∀ player, s.lobby.Joins input player →
          .created ⟨player.userName, player.tokenAuth, 0⟩ player.fightingPitId ∈ done := by
  apply runs_forall_iff hrun
  · intro player id hadmitted
    cases hadmitted
  · intro is input s done new u his hinput haccepts
    obtain ⟨hsound, hrecorded⟩ := run_ledger his
    have hstep := handle_step hinput
    rw [acceptsAdmitted_iff hrecorded] at haccepts
    rw [acceptsAdmitted_iff (hrecorded.step hsound hstep), hstep.writtenDown_iff haccepts]
    simp only [joined_iff hsound hinput]

theorem admitted_can_play_iff_comesTwice :
    (∀ s done rest, Passes (handle (.unbounded insertionSort) insertionSideSort slimes)
        (start : ArenaServerService quietEngine) comesTwice s done rest → AcceptsAdmitted s done) ↔
      ∀ input s done rest, Passes (handle (.unbounded insertionSort) insertionSideSort slimes)
        (start : ArenaServerService quietEngine) comesTwice s done (input :: rest) →
        ∀ player, s.lobby.Joins input player →
          .created ⟨player.userName, player.tokenAuth, 0⟩ player.fightingPitId ∈ done := by
  obtain ⟨t, hrun⟩ := Traced.eq_of_isOk comesTwice_returns
  exact admitted_can_play_iff hrun

/-- Who joined is not accepted. -/
theorem joined_cannot_play :
    ¬ ∀ (inputs : List Input) (log : List Event) (s : ArenaServerService quietEngine),
      runServerLoop (.unbounded insertionSort) insertionSideSort slimes inputs = ⟨log, .ok s⟩ →
      AcceptsAdmitted s log := by
  intro h
  obtain ⟨s, hrun⟩ := Traced.eq_of_isOk comesTwice_returns
  have haccepts := h comesTwice _ s hrun
  rw [acceptsAdmitted_iff (run_ledger hrun).2, comesTwice_log] at haccepts
  have hcreated := haccepts ⟨"user", "second", 1⟩ 1 (by decide)
  revert hcreated
  decide

/-! ## One team each -/

/-- On every pit a user has one team at most, and the lookups by user see every
member. -/
def OneTeamEach (s : ArenaServerService E) : Prop :=
  ∀ fightingPitId fp, s.workerService.arenaInstances.lookup fightingPitId = some fp →
    fp.partyTeams.userNames.Nodup ∧ fp.partyTeams.SeesAll

theorem owners_of_lookup {s : ArenaServerService E} {fightingPitId : UInt32}
    {fp : ArenaInstance E.toChaiScript}
    (hlookup : s.workerService.arenaInstances.lookup fightingPitId = some fp) :
    s.lobby.owners fightingPitId = fp.partyTeams.userNames := by
  rw [Lobby.owners, pits_of_lookup hlookup]
  rfl

theorem owners_of_lookup_none {s : ArenaServerService E} {fightingPitId : UInt32}
    (hlookup : s.workerService.arenaInstances.lookup fightingPitId = none) :
    s.lobby.owners fightingPitId = [] := by
  have hpit : s.lobby.pits fightingPitId = none := Option.map_eq_none_iff.mpr hlookup
  rw [Lobby.owners, hpit]
  rfl

theorem oneTeamEach_iff {s : ArenaServerService E} :
    OneTeamEach s ↔ ∀ fightingPitId, (s.lobby.owners fightingPitId).Nodup := by
  constructor
  · intro h id
    cases hlookup : s.workerService.arenaInstances.lookup id with
    | none =>
        rw [owners_of_lookup_none hlookup]
        exact List.nodup_nil
    | some fp =>
        rw [owners_of_lookup hlookup]
        exact (h id fp hlookup).1
  · intro h id fp hlookup
    have hnodup := h id
    rw [owners_of_lookup hlookup] at hnodup
    exact ⟨hnodup, AllyPartyTeams.seesAll_of_nodup hnodup⟩

/-- All through a run every user has one team at most on a pit exactly when
nobody joins a pit on which he has one. -/
theorem one_team_each_iff {inputs : List Input} {t : ArenaServerService E} {log : List Event}
    (hrun : runServerLoop P S ctx inputs = ⟨log, .ok t⟩) :
    (∀ (s : ArenaServerService E) done rest,
        Passes (handle P S ctx) start inputs s done rest → OneTeamEach s) ↔
      ∀ input (s : ArenaServerService E) done rest,
        Passes (handle P S ctx) start inputs s done (input :: rest) → ∀ player, s.lobby.Joins input player →
          ∀ fp, s.workerService.arenaInstances.lookup player.fightingPitId = some fp →
            fp.partyTeams.getPartyTeamOfPlayer player.userName = none := by
  apply runs_forall_iff (J := fun s _ => OneTeamEach s) hrun
  · rw [oneTeamEach_iff]
    intro id
    exact List.nodup_nil
  · intro is input s done new u his hinput hone
    obtain ⟨hsound, -⟩ := run_ledger his
    rw [oneTeamEach_iff] at hone
    rw [oneTeamEach_iff, (handle_step hinput).nodup_owners_iff hone]
    simp only [joined_iff hsound hinput, AllyPartyTeams.getPartyTeamOfPlayer_eq_none_iff]
    constructor
    · intro h player hjoins fp hlookup
      rw [← owners_of_lookup hlookup]
      exact h player hjoins
    · intro h player hjoins
      cases hlookup : s.workerService.arenaInstances.lookup player.fightingPitId with
      | none =>
          rw [owners_of_lookup_none hlookup]
          exact List.not_mem_nil
      | some fp =>
          rw [owners_of_lookup hlookup]
          exact h player hjoins fp hlookup

theorem one_team_each_iff_comesTwice :
    (∀ s done rest, Passes (handle (.unbounded insertionSort) insertionSideSort slimes)
        (start : ArenaServerService quietEngine) comesTwice s done rest → OneTeamEach s) ↔
      ∀ input s done rest, Passes (handle (.unbounded insertionSort) insertionSideSort slimes)
        (start : ArenaServerService quietEngine) comesTwice s done (input :: rest) →
        ∀ player, s.lobby.Joins input player →
          ∀ fp, s.workerService.arenaInstances.lookup player.fightingPitId = some fp →
            fp.partyTeams.getPartyTeamOfPlayer player.userName = none := by
  obtain ⟨t, hrun⟩ := Traced.eq_of_isOk comesTwice_returns
  exact one_team_each_iff hrun

/-- Who is announced twice has two teams on the pit. -/
theorem two_teams_of_one_user :
    ¬ ∀ (inputs : List Input) (log : List Event) (s : ArenaServerService quietEngine),
      runServerLoop (.unbounded insertionSort) insertionSideSort slimes inputs = ⟨log, .ok s⟩ →
      OneTeamEach s := by
  intro h
  obtain ⟨s, hrun⟩ := Traced.eq_of_isOk comesTwice_returns
  have howners := oneTeamEach_iff.mp (h comesTwice _ s hrun) 1
  rw [(run_ledger hrun).2.owners, comesTwice_log] at howners
  revert howners
  decide

end ArenaServerService

end FyS.Arena
