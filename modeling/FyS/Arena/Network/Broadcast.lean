import FyS.Arena.Pit.Building

/-!
# Messages to all players of a pit

`addPlayerIdentifier` and `broadcastMsg` of `network/WorkerService.cpp`.  A
message is the list of its frames; what is logged is what the router socket is
given, frames in order.
-/

namespace FyS.Arena

open FyS.Library.Trace FyS.Library.KeyedTable

namespace WorkerService

variable {C : ChaiScript}

def addPlayerIdentifier (fightingPitId : UInt32) (userName identityPlayer : String)
    (ws : WorkerService C) : WorkerService C :=
  let identifiers := (ws.arenaIdOnIdentifier.lookup fightingPitId).getD []
  { ws with
    arenaIdOnIdentifier := ws.arenaIdOnIdentifier.insert fightingPitId
      (upsert PlayerIdentifier.userName ⟨userName, identityPlayer⟩ identifiers) }

/-- The body of the loop of `broadcastMsg`.  `multipart_t::send` takes every
frame out of the message. -/
def sendTo (identifierIndex : Nat) (player : PlayerIdentifier) (msg : List String) :
    Traced (List String) ServiceFault (List String) :=
  if identifierIndex < msg.length then ⟨[msg.set identifierIndex player.identifier], .ok []⟩
  else ⟨[], .error .outOfRange⟩

def broadcastMsg (fightingPitId : UInt32) (msg : List String) (ws : WorkerService C) :
    Traced (List String) ServiceFault (List String) :=
  match ws.arenaIdOnIdentifier.lookup fightingPitId with
  | none => ⟨[], .ok msg⟩
  | some identifiers => runs (sendTo msg.length) identifiers (msg ++ [""])

/-! ## What was identified -/

/-- A call of `addPlayerIdentifier`. -/
structure Identification where
  fightingPitId : UInt32
  userName : String
  identityPlayer : String
deriving DecidableEq, Repr

def identified (calls : List Identification) : WorkerService C :=
  calls.foldl (fun ws call =>
    ws.addPlayerIdentifier call.fightingPitId call.userName call.identityPlayer) new

def givenOn (fightingPitId : UInt32) (calls : List Identification) : List PlayerIdentifier :=
  (calls.filter fun call => call.fightingPitId = fightingPitId).map fun call =>
    ⟨call.userName, call.identityPlayer⟩

def usersOn (fightingPitId : UInt32) (calls : List Identification) : List String :=
  writtenKeys PlayerIdentifier.userName (givenOn fightingPitId calls)

def latestIdentity (fightingPitId : UInt32) (userName : String) (calls : List Identification) :
    Option String :=
  (lastOf PlayerIdentifier.userName userName (givenOn fightingPitId calls)).map (·.identifier)

def addressed (fightingPitId : UInt32) (calls : List Identification) (msg : List String) :
    List (List String) :=
  (usersOn fightingPitId calls).filterMap fun userName =>
    (latestIdentity fightingPitId userName calls).map fun identity => identity :: msg

/-- The broadcast completes, and everybody on the pit is written to once. -/
def BroadcastReaches (C : ChaiScript) (calls : List Identification) (fightingPitId : UInt32)
    (msg : List String) : Prop :=
  let sent := (identified calls : WorkerService C).broadcastMsg fightingPitId msg
  (∃ rest, sent.result = .ok rest) ∧ sent.log.Perm (addressed fightingPitId calls msg)

theorem lookup_identified (fightingPitId : UInt32) (calls : List Identification) :
    (identified calls : WorkerService C).arenaIdOnIdentifier.lookup fightingPitId =
      if givenOn fightingPitId calls = [] then none
      else some (table PlayerIdentifier.userName (givenOn fightingPitId calls)) := by
  induction calls using List.reverseRecOn with
  | nil => rfl
  | append_singleton calls call ih =>
      have hstep : (identified (calls ++ [call]) : WorkerService C) =
          (identified calls).addPlayerIdentifier call.fightingPitId call.userName
            call.identityPlayer := by
        rw [identified, List.foldl_append]
        rfl
      rw [hstep, addPlayerIdentifier]
      by_cases hpit : call.fightingPitId = fightingPitId
      · have hgiven : givenOn fightingPitId (calls ++ [call]) =
            givenOn fightingPitId calls ++ [⟨call.userName, call.identityPlayer⟩] := by
          simp [givenOn, hpit]
        rw [hgiven, table_append, hpit, AList.lookup_insert, ih]
        by_cases hnone : givenOn fightingPitId calls = []
        · simp [hnone, table]
        · simp [hnone]
      · have hgiven : givenOn fightingPitId (calls ++ [call]) = givenOn fightingPitId calls := by
          simp [givenOn, hpit]
        rw [hgiven, AList.lookup_insert_ne (Ne.symm hpit), ih]

theorem append_singleton_eq_cons_iff {msg : List String} {identity : String} :
    msg ++ [identity] = identity :: msg ↔ ∀ frame ∈ msg, frame = identity := by
  induction msg with
  | nil => simp
  | cons frame msg ih =>
      rw [List.cons_append, List.cons.injEq, List.forall_mem_cons]
      constructor
      · rintro ⟨rfl, heq⟩
        exact ⟨rfl, ih.mp heq⟩
      · rintro ⟨rfl, heq⟩
        exact ⟨rfl, ih.mpr heq⟩

/-- To a single player the identity goes behind the frames. -/
theorem broadcast_single (msg : List String) (player : PlayerIdentifier) :
    runs (sendTo msg.length) [player] (msg ++ [""]) =
      ⟨[msg ++ [player.identifier]], .ok []⟩ := by
  simp [runs, Traced.andThen, sendTo]

/-- The first of several players takes the message along. -/
theorem broadcast_several (msg : List String) (first second : PlayerIdentifier)
    (others : List PlayerIdentifier) :
    (runs (sendTo msg.length) (first :: second :: others) (msg ++ [""])).result =
      .error .outOfRange := by
  simp [runs, Traced.andThen, sendTo]

theorem users_perm (fightingPitId : UInt32) (calls : List Identification) :
    ((table PlayerIdentifier.userName (givenOn fightingPitId calls)).map
      PlayerIdentifier.userName).Perm (usersOn fightingPitId calls) := keys_table_perm _

theorem usersOn_of_single {fightingPitId : UInt32} {calls : List Identification}
    {player : PlayerIdentifier}
    (htable : table PlayerIdentifier.userName (givenOn fightingPitId calls) = [player]) :
    usersOn fightingPitId calls = [player.userName] ∧
      latestIdentity fightingPitId player.userName calls = some player.identifier := by
  constructor
  · have hkeys := users_perm fightingPitId calls
    rw [htable] at hkeys
    exact List.perm_singleton.mp hkeys.symm
  · have hmem : player ∈ table PlayerIdentifier.userName (givenOn fightingPitId calls) := by
      rw [htable]
      exact List.mem_singleton_self player
    rw [latestIdentity, mem_table_iff.mp hmem]
    rfl

/-- A broadcast does what it is for exactly when nobody is identified on the
pit, or one user is and every frame of the message equals the identity. -/
theorem broadcast_reaches_iff (calls : List Identification) (fightingPitId : UInt32)
    (msg : List String) :
    BroadcastReaches C calls fightingPitId msg ↔
      usersOn fightingPitId calls = [] ∨
        ∃ userName identity, usersOn fightingPitId calls = [userName] ∧
          latestIdentity fightingPitId userName calls = some identity ∧
          ∀ frame ∈ msg, frame = identity := by
  have hkeys := users_perm fightingPitId calls
  unfold BroadcastReaches broadcastMsg
  rw [lookup_identified]
  by_cases hgiven : givenOn fightingPitId calls = []
  · have husers : usersOn fightingPitId calls = [] := by
      rw [usersOn, hgiven]
      rfl
    rw [if_pos hgiven]
    simp [addressed, husers]
  · rw [if_neg hgiven]
    cases htable : table PlayerIdentifier.userName (givenOn fightingPitId calls) with
    | nil =>
        rw [htable, List.map_nil, List.nil_perm] at hkeys
        rw [usersOn, writtenKeys, List.dedup_eq_nil, List.map_eq_nil_iff] at hkeys
        exact absurd hkeys hgiven
    | cons player others =>
        cases others with
        | nil =>
            obtain ⟨husers, hlatest⟩ := usersOn_of_single htable
            have haddressed : addressed fightingPitId calls msg =
                [player.identifier :: msg] := by
              simp [addressed, husers, hlatest]
            show (∃ rest, (runs (sendTo msg.length) [player] (msg ++ [""])).result = .ok rest) ∧
              (runs (sendTo msg.length) [player] (msg ++ [""])).log.Perm _ ↔ _
            rw [broadcast_single, haddressed, List.perm_singleton, List.singleton_inj,
              append_singleton_eq_cons_iff, husers]
            simp [hlatest]
        | cons second others =>
            have hlength := hkeys.length_eq
            rw [htable] at hlength
            show (∃ rest, (runs (sendTo msg.length) (player :: second :: others)
              (msg ++ [""])).result = .ok rest) ∧ _ ↔ _
            rw [broadcast_several]
            constructor
            · rintro ⟨⟨rest, hrest⟩, -⟩
              cases hrest
            · rintro (husers | ⟨userName, identity, husers, -⟩) <;>
                rw [husers] at hlength <;> simp at hlength

/-- Nobody but the first of two players hears of a team that arrives. -/
theorem broadcast_stops_at_the_second :
    ¬ ∀ (calls : List Identification) (fightingPitId : UInt32) (msg : List String),
      BroadcastReaches (constantChai ⟨fun _ status => status, fun _ status => status⟩)
        calls fightingPitId msg := by
  intro h
  obtain ⟨⟨rest, hrest⟩, -⟩ := h [⟨1, "first", "x"⟩, ⟨1, "second", "y"⟩] 1 []
  have hfault : ((identified [⟨1, "first", "x"⟩, ⟨1, "second", "y"⟩] :
      WorkerService (constantChai ⟨fun _ status => status, fun _ status => status⟩)).broadcastMsg
        1 []).result = .error .outOfRange := rfl
  rw [hfault] at hrest
  cases hrest

end WorkerService

end FyS.Arena
