import FyS.Arena.Pit.FightingPit
import FyS.Library.Observation
import Mathlib.Data.List.AList

/-!
# `WorkerService`

`network/WorkerService.cpp`: the registry of the fighting pits of an arena
server and the identities of the players on each of them.  An unordered map is
an association list in which no key occurs twice.
-/

namespace FyS.Arena

open FyS.Library.Trace FyS.Library.Observation

structure AuthenticatedPlayer where
  name : String
  token : String
deriving DecidableEq, Repr

/-- A `FightingPit` with the fields that only the server uses.  The constructor
leaves `_arenaId` uninitialised. -/
structure ArenaInstance (C : ChaiScript) extends FightingPit C where
  creatorUserName : String
  arenaId : Option UInt32
  authenticatedPlayers : List AuthenticatedPlayer

namespace ArenaInstance

variable {C : ChaiScript}

def new (creatorUserName : String) (levelFightingPit : Level) (chai : C.State) : ArenaInstance C where
  toFightingPit := .new levelFightingPit chai
  creatorUserName := creatorUserName
  arenaId := none
  authenticatedPlayers := []

def CREATION_ERROR : UInt32 := 0

def setArenaId (arenaId : UInt32) (fp : ArenaInstance C) : ArenaInstance C :=
  { fp with arenaId := some arenaId }

def addAuthenticatedUser (userName userToken : String) (fp : ArenaInstance C) : ArenaInstance C :=
  { fp with authenticatedPlayers := fp.authenticatedPlayers ++ [⟨userName, userToken⟩] }

def isPlayerParticipant (name token : String) (fp : ArenaInstance C) : Bool :=
  fp.authenticatedPlayers.any fun authPlayer =>
    authPlayer.name == name && authPlayer.token == token

theorem isPlayerParticipant_iff {name token : String} {fp : ArenaInstance C} :
    fp.isPlayerParticipant name token ↔ ⟨name, token⟩ ∈ fp.authenticatedPlayers := by
  rw [isPlayerParticipant, List.any_eq_true]
  constructor
  · rintro ⟨⟨n, t⟩, hmem, heq⟩
    simp only [Bool.and_eq_true, beq_iff_eq] at heq
    rw [← heq.1, ← heq.2]
    exact hmem
  · intro hmem
    exact ⟨_, hmem, by simp⟩

end ArenaInstance

structure PlayerIdentifier where
  userName : String
  identifier : String
deriving DecidableEq, Repr

/-- `while (++_currentArenaId != 0 && _arenaInstances.find(_currentArenaId) != end())`. -/
def searchArenaId {C : ChaiScript} (arenaInstances : AList fun _ : UInt32 => ArenaInstance C)
    (id : UInt32) : UInt32 :=
  if h : id + 1 ≠ 0 ∧ id + 1 ∈ arenaInstances then searchArenaId arenaInstances (id + 1)
  else id + 1
termination_by 4294967296 - id.toNat
decreasing_by
  have hlt := id.toNat_lt
  have hsucc : (id + 1).toNat ≠ 0 := by
    intro hzero
    exact h.1 (UInt32.toNat_inj.mp hzero)
  rw [UInt32.toNat_add] at *
  simp at *
  omega

/-- The registry.  Ids are handed out one after the other and no pit is ever
removed, so the keys are the ids from 1 up to the counter. -/
structure WorkerService (C : ChaiScript) where
  currentArenaId : UInt32
  arenaIdOnIdentifier : AList fun _ : UInt32 => List PlayerIdentifier
  arenaInstances : AList fun _ : UInt32 => ArenaInstance C
  mem_iff : ∀ id, id ∈ arenaInstances ↔ id ≠ 0 ∧ id ≤ currentArenaId

namespace WorkerService

variable {C : ChaiScript}

def new : WorkerService C where
  currentArenaId := 0
  arenaIdOnIdentifier := ∅
  arenaInstances := ∅
  mem_iff id := by
    have hempty : id ∉ (∅ : AList fun _ : UInt32 => ArenaInstance C) := AList.notMem_empty id
    simp [hempty]

/-! ## The registry -/

theorem length_arenaInstances (ws : WorkerService C) :
    ws.arenaInstances.entries.length = ws.currentArenaId.toNat := by
  have hperm : (ws.arenaInstances.keys.map UInt32.toNat).Perm
      (List.range' 1 ws.currentArenaId.toNat) := by
    rw [List.perm_ext_iff_of_nodup
      (ws.arenaInstances.keys_nodup.map fun _ _ => UInt32.toNat_inj.mp) List.nodup_range']
    intro n
    rw [List.mem_map, List.mem_range'_1]
    constructor
    · rintro ⟨id, hid, rfl⟩
      rw [← AList.mem_keys, ws.mem_iff, UInt32.le_iff_toNat_le, ← UInt32.toNat_inj.ne] at hid
      simp only [UInt32.toNat_zero] at hid
      omega
    · intro hn
      have hlt := ws.currentArenaId.toNat_lt
      have hto : (UInt32.ofNat n).toNat = n := UInt32.toNat_ofNat_of_lt' (by
        show n < 4294967296
        omega)
      refine ⟨UInt32.ofNat n, ?_, hto⟩
      rw [← AList.mem_keys, ws.mem_iff, UInt32.le_iff_toNat_le, ← UInt32.toNat_inj.ne, hto]
      simp only [UInt32.toNat_zero]
      omega
  have hlength := hperm.length_eq
  rw [List.length_map, List.length_range', AList.keys, List.keys, List.length_map] at hlength
  exact hlength

theorem searchArenaId_eq (ws : WorkerService C)
    (hroom : ¬ ws.arenaInstances.entries.length ≥ 4294967295) :
    (searchArenaId ws.arenaInstances ws.currentArenaId).toNat = ws.currentArenaId.toNat + 1 := by
  rw [ws.length_arenaInstances] at hroom
  have hsucc : (ws.currentArenaId + 1).toNat = ws.currentArenaId.toNat + 1 := by
    rw [UInt32.toNat_add]
    exact Nat.mod_eq_of_lt (by simp; omega)
  rw [searchArenaId, dif_neg, hsucc]
  rintro ⟨-, hmem⟩
  have hle := UInt32.le_iff_toNat_le.mp ((ws.mem_iff _).mp hmem).2
  omega

theorem mem_insert_searchArenaId (ws : WorkerService C)
    (hroom : ¬ ws.arenaInstances.entries.length ≥ 4294967295) (fp : ArenaInstance C) (id : UInt32) :
    id ∈ ws.arenaInstances.insert (searchArenaId ws.arenaInstances ws.currentArenaId) fp ↔
      id ≠ 0 ∧ id ≤ searchArenaId ws.arenaInstances ws.currentArenaId := by
  have hnext := ws.searchArenaId_eq hroom
  rw [AList.mem_insert, ws.mem_iff, ← UInt32.toNat_inj, UInt32.le_iff_toNat_le,
    UInt32.le_iff_toNat_le, ← UInt32.toNat_inj.ne, UInt32.toNat_zero]
  omega

def addFightingPit (fp : Option (ArenaInstance C)) (ws : WorkerService C) :
    UInt32 × WorkerService C :=
  match fp with
  | none => (ArenaInstance.CREATION_ERROR, ws)
  | some fp =>
    if hfull : ws.arenaInstances.entries.length ≥ 4294967295 then (ArenaInstance.CREATION_ERROR, ws)
    else
      let currentArenaId := searchArenaId ws.arenaInstances ws.currentArenaId
      (currentArenaId,
        { ws with
          currentArenaId
          arenaInstances := ws.arenaInstances.insert currentArenaId (fp.setArenaId currentArenaId)
          mem_iff := ws.mem_insert_searchArenaId hfull _ })

/-- What a call of `addFightingPit` can do. -/
theorem addFightingPit_cases (fp : Option (ArenaInstance C)) (ws : WorkerService C) :
    (fp = none ∨ ws.arenaInstances.entries.length = 4294967295) ∧
        ws.addFightingPit fp = (ArenaInstance.CREATION_ERROR, ws) ∨
      ∃ pit id, fp = some pit ∧ ws.arenaInstances.entries.length < 4294967295 ∧
        id ≠ ArenaInstance.CREATION_ERROR ∧ id ∉ ws.arenaInstances ∧
        (ws.addFightingPit fp).1 = id ∧
        (ws.addFightingPit fp).2.arenaInstances =
          ws.arenaInstances.insert id (pit.setArenaId id) ∧
        (ws.addFightingPit fp).2.arenaIdOnIdentifier = ws.arenaIdOnIdentifier := by
  have hlength := ws.length_arenaInstances
  have hcounter := ws.currentArenaId.toNat_lt
  cases fp with
  | none => exact .inl ⟨.inl rfl, rfl⟩
  | some pit =>
      by_cases hfull : ws.arenaInstances.entries.length ≥ 4294967295
      · left
        constructor
        · right
          omega
        · rw [addFightingPit, dif_pos hfull]
      · have hnext := ws.searchArenaId_eq hfull
        right
        refine ⟨pit, searchArenaId ws.arenaInstances ws.currentArenaId, rfl, ?_, ?_, ?_, ?_⟩
        · omega
        · rw [ArenaInstance.CREATION_ERROR, ← UInt32.toNat_inj.ne, UInt32.toNat_zero]
          omega
        · rw [ws.mem_iff, UInt32.le_iff_toNat_le]
          omega
        · rw [addFightingPit, dif_neg hfull]
          exact ⟨rfl, rfl, rfl⟩

theorem addFightingPit_lookup {fp : Option (ArenaInstance C)} {ws : WorkerService C} {id : UInt32}
    (hid : id ∈ ws.arenaInstances) :
    (ws.addFightingPit fp).2.arenaInstances.lookup id = ws.arenaInstances.lookup id := by
  obtain ⟨-, heq⟩ | ⟨pit, next, -, -, -, hfresh, -, hinstances, -⟩ := ws.addFightingPit_cases fp
  · rw [heq]
  · rw [hinstances]
    apply AList.lookup_insert_ne
    intro hsame
    exact hfresh (hsame ▸ hid)

theorem mem_addFightingPit {ws : WorkerService C} {id : UInt32} (fp : Option (ArenaInstance C))
    (hid : id ∈ ws.arenaInstances) : id ∈ (ws.addFightingPit fp).2.arenaInstances := by
  rw [← AList.lookup_isSome, addFightingPit_lookup hid, AList.lookup_isSome]
  exact hid

/-! ## Sequences of calls -/

def call (ws : WorkerService C) (fp : Option (ArenaInstance C)) : UInt32 × WorkerService C :=
  ws.addFightingPit fp

def successes (answers : List UInt32) : List UInt32 :=
  answers.filter (· ≠ ArenaInstance.CREATION_ERROR)

theorem lookup_after {ws : WorkerService C} {id : UInt32} (hid : id ∈ ws.arenaInstances)
    (fps : List (Option (ArenaInstance C))) :
    (after call ws fps).arenaInstances.lookup id = ws.arenaInstances.lookup id := by
  induction fps generalizing ws with
  | nil => rfl
  | cons fp fps ih =>
      have hnext := ih (mem_addFightingPit fp hid)
      exact hnext.trans (addFightingPit_lookup hid)

theorem mem_of_observed {ws : WorkerService C} {id : UInt32} {fps : List (Option (ArenaInstance C))}
    (hid : id ∈ observe call ws fps) (hne : id ≠ ArenaInstance.CREATION_ERROR) :
    id ∈ (after call ws fps).arenaInstances := by
  induction fps generalizing ws with
  | nil => cases hid
  | cons fp fps ih =>
      rcases List.mem_cons.mp hid with rfl | hid
      · have hmem : (ws.call fp).1 ∈ (ws.addFightingPit fp).2.arenaInstances := by
          obtain ⟨-, heq⟩ | ⟨pit, next, -, -, -, -, hfirst, hinstances, -⟩ :=
            ws.addFightingPit_cases fp
          · rw [call, heq] at hne
            exact absurd rfl hne
          · rw [call, hfirst, hinstances, AList.mem_insert]
            exact .inl rfl
        rw [← AList.lookup_isSome] at hmem ⊢
        rw [← lookup_after (AList.lookup_isSome.mp hmem) fps] at hmem
        exact hmem
      · exact ih hid

theorem length_after (ws : WorkerService C) (fps : List (Option (ArenaInstance C))) :
    (after call ws fps).arenaInstances.entries.length =
      ws.arenaInstances.entries.length + (successes (observe call ws fps)).length := by
  induction fps generalizing ws with
  | nil => rfl
  | cons fp fps ih =>
      have hrest := ih (ws.call fp).2
      rw [observe, successes, List.filter_cons]
      rw [successes] at hrest
      show (after call (ws.call fp).2 fps).arenaInstances.entries.length = _
      rw [hrest]
      obtain ⟨-, heq⟩ | ⟨pit, next, -, -, hne, hfresh, hfirst, hinstances, -⟩ :=
        ws.addFightingPit_cases fp
      · rw [call, heq]
        simp
      · rw [call, hfirst, hinstances, AList.insert_of_notMem hfresh, if_pos (by simpa using hne)]
        simp
        omega

/-- After any calls a further one fails, and changes nothing, exactly when it is
given no pit or all ids are taken.  Otherwise its answer is new, and the pit is
found under it, with that id set, whatever is added later. -/
theorem registry (before later : List (Option (ArenaInstance C))) (fp : Option (ArenaInstance C)) :
    let ws := after call new before
    let id := (ws.addFightingPit fp).1
    let ws' := (ws.addFightingPit fp).2
    ws.arenaInstances.entries.length = (successes (observe call new before)).length ∧
    (id = ArenaInstance.CREATION_ERROR ↔
      fp = none ∨ (successes (observe call new before)).length = 4294967295) ∧
    (id = ArenaInstance.CREATION_ERROR → ws' = ws) ∧
    (id ≠ ArenaInstance.CREATION_ERROR →
      id ∉ observe call new before ∧
      (∃ pit, fp = some pit ∧
        (after call ws' later).arenaInstances.lookup id = some (pit.setArenaId id)) ∧
      ∀ other, other ≠ id →
        ws'.arenaInstances.lookup other = ws.arenaInstances.lookup other) := by
  intro ws id ws'
  have hcount : ws.arenaInstances.entries.length =
      (successes (observe call new before)).length := by
    have hlength := length_after new before
    rw [hlength]
    exact Nat.zero_add _
  refine ⟨hcount, ?_⟩
  rw [← hcount]
  obtain ⟨hcond, heq⟩ | ⟨pit, next, hpit, hroom, hne, hfresh, hfirst, hinstances, -⟩ :=
    ws.addFightingPit_cases fp
  · have hid : id = ArenaInstance.CREATION_ERROR := congrArg Prod.fst heq
    refine ⟨iff_of_true hid hcond, fun _ => congrArg Prod.snd heq, ?_⟩
    intro hne
    exact absurd hid hne
  · have hid : id = next := hfirst
    rw [hid]
    refine ⟨iff_of_false hne ?_, fun h => absurd h hne, fun _ => ⟨?_, ⟨pit, hpit, ?_⟩, ?_⟩⟩
    · rintro (hnone | hfull)
      · rw [hnone] at hpit
        cases hpit
      · omega
    · intro hold
      exact hfresh (mem_of_observed hold hne)
    · have hlookup : ws'.arenaInstances.lookup next = some (pit.setArenaId next) := by
        show (ws.addFightingPit fp).2.arenaInstances.lookup next = _
        rw [hinstances, AList.lookup_insert]
      have hmem : next ∈ ws'.arenaInstances := by
        rw [← AList.lookup_isSome, hlookup]
        rfl
      rw [lookup_after hmem, hlookup]
    · intro other hother
      show (ws.addFightingPit fp).2.arenaInstances.lookup other = _
      rw [hinstances, AList.lookup_insert_ne hother]

end WorkerService

end FyS.Arena
