import FyS.Arena.Network.Protocol
import FyS.Arena.Pit.Encounters

/-!
# Caps on encounters

`max_encountering` is read from the configuration and by nothing after that.  A
zone keeps to its caps only if its range leaves no room for more.
-/

namespace FyS.Arena

open FyS.Common FightingPitAnnouncer ArenaServerService

namespace EncounterContext

def cap (contenders : List EncounterDesc) (key : String) : Nat :=
  ((contenders.filter fun desc => desc.key == key).map fun desc => desc.maxEncountering.toNat).sum

end EncounterContext

open EncounterContext

def countKey (rng : RandomGenerator) (boundaryMap : BoundaryMap EncounterDesc) (key : String)
    (n : Nat) : Nat :=
  (List.range n).countP fun i => (drawn rng boundaryMap i).any fun desc => desc.key == key

/-- No pit that is built in the zone has more contenders of a key than the cap says. -/
def CapsRespected (P : Platform) (S : SideSort) (ctx : EncounterContext) (wsId : String)
    (difficulty : Level) : Prop :=
  ∀ (E : PitEngine) (env : Surroundings) (fpa : FightingPitAnnouncer)
    (fp : ArenaInstance E.toChaiScript), fpa.difficulty = difficulty →
    fpa.buildFightingPit P S E env ctx wsId = .ok (some fp) →
    ∀ range contenders boundaryMap, Zone ctx wsId difficulty range contenders boundaryMap →
      ∀ key ∈ contenders.map (·.key),
        countKey env.rng boundaryMap key fp.contenders.getNumberContender ≤ cap contenders key

/-- In every zone that a pit can be built in, the range ends at or below the cap of
each contender that a draw finds. -/
def RangeWithinCaps (ctx : EncounterContext) (wsId : String) (difficulty : Level) : Prop :=
  ∀ range contenders boundaryMap, Zone ctx wsId difficulty range contenders boundaryMap →
    ∀ r : Int, 0 ≤ r → r ≤ 100 → ∀ first desc, boundaryMap.get r = some (first, desc) →
      range.2.toNat ≤ cap contenders desc.key

/-! ## A stream that always finds the same contender -/

def steady (r : Int) : RandomGenerator where
  generateInRange i rA rB := if i = 0 then rB else if rA ≤ r ∧ r ≤ rB then r else rA
  mem_range i rA rB h := by
    split_ifs <;> omega

theorem drawn_steady {boundaryMap : BoundaryMap EncounterDesc} {r first : Int}
    {desc : EncounterDesc} (hlow : 0 ≤ r) (hhigh : r ≤ 100)
    (hget : boundaryMap.get r = some (first, desc)) (i : Nat) :
    drawn (steady r) boundaryMap i = some desc := by
  have hdraw : (steady r).generateInRange (2 * i + 1) 0 100 = r := by
    show (if 2 * i + 1 = 0 then 100 else if 0 ≤ r ∧ r ≤ 100 then r else 0) = r
    rw [if_neg (by omega), if_pos ⟨hlow, hhigh⟩]
  rw [drawn, hdraw, hget]
  rfl

theorem generateEach_quietEngine {cml : String → Option String} {rng : RandomGenerator}
    {initialSpeed : Nat → Nat} {boundaryMap : BoundaryMap EncounterDesc} {is : List Nat}
    (hdrawn : ∀ i ∈ is, (drawn rng boundaryMap i).isSome = true)
    (fp : Board quietEngine.toChaiScript × List String) :
    ∃ fp', generateEach quietEngine cml rng initialSpeed boundaryMap is fp = .ok (true, fp') := by
  induction is generalizing fp with
  | nil => exact ⟨fp, rfl⟩
  | cons i is ih =>
      have hsome := hdrawn i List.mem_cons_self
      rw [drawn, Option.isSome_map] at hsome
      obtain ⟨⟨first, desc⟩, hget⟩ := Option.isSome_iff_exists.mp hsome
      have hload (cs : ContenderScripting) (script : String)
          (board : Board quietEngine.toChaiScript) :
          ∃ board', cs.loadContenderScript quietEngine script board = .ok board' := by
        unfold ContenderScripting.loadContenderScript
        split_ifs
        · exact ⟨_, rfl⟩
        · exact ⟨_, rfl⟩
      have hfirst : ∃ fp', generateContender quietEngine cml rng initialSpeed boundaryMap i fp =
          .ok (true, fp') := by
        simp only [generateContender, addDrawn, hget]
        obtain ⟨board', hboard⟩ := hload
          ⟨getNameFromKey desc.key, (rng.generateInRange (2 * i + 2) 1 10).toNat, i⟩
          (getScriptContentString cml (getNameFromKey desc.key) desc fp.2).1 fp.1
        rw [hboard]
        exact ⟨_, rfl⟩
      obtain ⟨fp', hok⟩ := hfirst
      rw [generateEach, hok]
      exact ih (fun j hj => hdrawn j (List.mem_cons_of_mem _ hj)) fp'

theorem evalErrorsOnly_quietEngine : EvalErrorsOnly quietEngine := by
  constructor
  · intro code chai heq
    cases heq
  · intro code contenders partyTeams chai heq
    cases heq

def loner (difficulty : Level) : FightingPitAnnouncer :=
  ⟨difficulty, [], "user", "token", some ⟨"user", []⟩⟩

theorem exists_full_pit (P : Platform) (S : SideSort) {ctx : EncounterContext} {wsId : String}
    {difficulty : Level} {range : UInt32 × UInt32} {contenders : List EncounterDesc}
    {boundaryMap : BoundaryMap EncounterDesc}
    (hzone : Zone ctx wsId difficulty range contenders boundaryMap) {r first : Int}
    {desc : EncounterDesc} (hlow : 0 ≤ r) (hhigh : r ≤ 100)
    (hget : boundaryMap.get r = some (first, desc)) :
    ∃ fp, (loner difficulty).buildFightingPit P S quietEngine { quiet with rng := steady r } ctx
      wsId = .ok (some fp) := by
  obtain ⟨prepared, -, hbuild⟩ := buildFightingPit_cases (P := P) (S := S)
    evalErrorsOnly_quietEngine { quiet with rng := steady r }
    (show (loner difficulty).creatorPartyTeam = some ⟨"user", []⟩ from rfl)
    (show ("user".isEmpty || "token".isEmpty) = false by decide) hzone
  have hdrawn : ∀ i ∈ List.range (numberContenders (steady r) range),
      (drawn (steady r) boundaryMap i).isSome = true := by
    intro i _
    rw [drawn_steady hlow hhigh hget]
    rfl
  obtain ⟨fp', hgenerate⟩ : ∃ fp', generateEach quietEngine quiet.cml (steady r)
      quiet.initialSpeed boundaryMap (List.range (numberContenders (steady r) range))
      (prepared.toBoard, (loner difficulty).loadedScript) = .ok (true, fp') :=
    generateEach_quietEngine hdrawn _
  rw [hgenerate] at hbuild
  exact hbuild

theorem countKey_steady {boundaryMap : BoundaryMap EncounterDesc} {r first : Int}
    {desc : EncounterDesc} (hlow : 0 ≤ r) (hhigh : r ≤ 100)
    (hget : boundaryMap.get r = some (first, desc)) (n : Nat) :
    countKey (steady r) boundaryMap desc.key n = n := by
  rw [countKey, List.countP_eq_length.mpr, List.length_range]
  intro i _
  rw [drawn_steady hlow hhigh hget]
  simp

theorem CapsRespected.range_le {P : Platform} {S : SideSort} {ctx : EncounterContext}
    {wsId : String} {difficulty : Level} (h : CapsRespected P S ctx wsId difficulty)
    {range : UInt32 × UInt32} {contenders : List EncounterDesc}
    {boundaryMap : BoundaryMap EncounterDesc}
    (hzone : Zone ctx wsId difficulty range contenders boundaryMap) {r first : Int}
    {desc : EncounterDesc} (hlow : 0 ≤ r) (hhigh : r ≤ 100)
    (hget : boundaryMap.get r = some (first, desc)) :
    range.2.toNat ≤ cap contenders desc.key := by
  obtain ⟨fp, hbuild⟩ := exists_full_pit P S hzone hlow hhigh hget
  have hcap := h _ _ _ fp rfl hbuild range contenders boundaryMap hzone desc.key
    (List.mem_map_of_mem (hzone.mem_contenders hget))
  rw [countKey_steady hlow hhigh hget, getNumberContender_buildFightingPit hbuild hzone] at hcap
  exact hcap

theorem caps_respected_iff (P : Platform) (S : SideSort) (ctx : EncounterContext) (wsId : String)
    (difficulty : Level) :
    CapsRespected P S ctx wsId difficulty ↔ RangeWithinCaps ctx wsId difficulty := by
  constructor
  · intro h range contenders boundaryMap hzone r hlow hhigh first desc hget
    exact h.range_le hzone hlow hhigh hget
  · intro h E env fpa fp hdifficulty hbuild range contenders boundaryMap hzone key hkey
    rw [← hdifficulty] at hzone
    rw [getNumberContender_buildFightingPit hbuild hzone]
    by_cases hnone : countKey env.rng boundaryMap key (numberContenders env.rng range) = 0
    · rw [hnone]
      exact Nat.zero_le _
    · obtain ⟨i, -, hi⟩ := List.countP_pos_iff.mp (Nat.pos_of_ne_zero hnone)
      obtain ⟨hlow, hhigh⟩ := env.rng.mem_range (2 * i + 1) 0 100 (by decide)
      cases hget : boundaryMap.get (env.rng.generateInRange (2 * i + 1) 0 100) with
      | none => simp [drawn, hget] at hi
      | some entry =>
          obtain ⟨first, desc⟩ := entry
          have heq : desc.key = key := by simpa [drawn, hget] using hi
          rw [hdifficulty] at hzone
          rw [← heq]
          calc countKey env.rng boundaryMap desc.key (numberContenders env.rng range)
              ≤ numberContenders env.rng range := by
                apply List.countP_le_length.trans
                rw [List.length_range]
            _ ≤ range.2.toNat := (hzone.numberContenders_le env.rng).2
            _ ≤ cap contenders desc.key := h range contenders boundaryMap hzone _ hlow hhigh _ _ hget

/-! ## The configuration that comes with the server -/

/-- `zones_configuration.json`. -/
def zonesConfiguration : EncounterContext where
  rangeEncounterPerZone := AList.singleton "WS00" #v[(1, 3), (1, 4), (2, 6)]
  contendersPerZone := AList.singleton "WS00"
    [⟨"arena:contenders:Sampy.chai", 2, #v[10, 10, 10]⟩,
      ⟨"arena:contenders:Ogre.chai", 2, #v[10, 10, 10]⟩,
      ⟨"arena:contenders:Slime.chai", 99, #v[50, 50, 50]⟩,
      ⟨"arena:contenders:Sampy.chai", 99, #v[30, 30, 30]⟩]

/-- Three ogres where two are the most. -/
theorem ogres_beyond_their_cap :
    ¬ ∀ (P : Platform) (S : SideSort) (ctx : EncounterContext) (wsId : String)
      (difficulty : Level), ctx.validateEncounterContext = true →
      CapsRespected P S ctx wsId difficulty := by
  intro h
  have hcaps := h (.unbounded insertionSort) insertionSideSort zonesConfiguration "WS00" .EASY
    (by decide)
  have hzone : ∃ boundaryMap, makeContenderRngBoundaryMap
      ((zonesConfiguration.contendersPerZone.lookup "WS00").getD []) .EASY = .ok boundaryMap ∧
        boundaryMap.get 15 =
          some (20, ⟨"arena:contenders:Ogre.chai", 2, #v[10, 10, 10]⟩) := by
    refine ⟨⟨⟨[(10, ⟨"arena:contenders:Sampy.chai", 2, #v[10, 10, 10]⟩),
      (20, ⟨"arena:contenders:Ogre.chai", 2, #v[10, 10, 10]⟩),
      (70, ⟨"arena:contenders:Slime.chai", 99, #v[50, 50, 50]⟩),
      (100, ⟨"arena:contenders:Sampy.chai", 99, #v[30, 30, 30]⟩)], by decide⟩⟩, rfl, by decide⟩
  obtain ⟨boundaryMap, hmap, hget⟩ := hzone
  have hle := hcaps.range_le ⟨rfl, by decide, rfl, hmap⟩ (by decide) (by decide) hget
  exact absurd hle (by decide)

end FyS.Arena
