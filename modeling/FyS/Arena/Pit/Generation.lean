import FyS.Arena.Pit.Announcer

/-!
# What the configuration check is worth

The contenders of a pit are drawn from a boundary map that is filled with the
running sums of the chances of a zone.  The check of the configuration compares
the sum of the chances with 100, in 32 bits, and looks at no more than the
minimum of a range.
-/

namespace FyS.Arena

open FyS.Common EncounterContext

def Level.ofSlot : Fin 3 → Level
  | 0 => .EASY
  | 1 => .MEDIUM
  | 2 => .HARD

theorem Level.index_ofSlot (i : Fin 3) : (Level.ofSlot i).index = i := by
  match i with
  | 0 => rfl
  | 1 => rfl
  | 2 => rfl

def widths (contenders : List EncounterDesc) (i : Fin 3) : List (Nat × EncounterDesc) :=
  contenders.map fun desc => ((desc.chance.get i).toNat, desc)

theorem sum_widths (contenders : List EncounterDesc) (i : Fin 3) :
    ((widths contenders i).map Prod.fst).sum = (chances contenders i).sum := by
  rw [widths, List.map_map]
  rfl

theorem addChance_eq {n : Nat} {chance : UInt32} (h : n + chance.toNat < 2147483648) :
    addChance n chance = (n + chance.toNat : Nat) := by
  have hlow : ((n : Int) % 4294967296).toNat = n := by omega
  rw [addChance, hlow, Nat.mod_eq_of_lt (by omega), FightingPit.intOfUint, if_pos h]

theorem insertChances_eq (contenders : List EncounterDesc) (i : Fin 3) {n : Nat}
    (bm : BoundaryMap EncounterDesc)
    (h : n + (chances contenders i).sum < 2147483648) :
    insertChances (.ofSlot i) contenders n bm =
      (bm.insertAll n (widths contenders i)).mapError .boundary := by
  induction contenders generalizing n bm with
  | nil => rfl
  | cons desc rest ih =>
      have hsum : (chances (desc :: rest) i).sum = desc.chance[i].toNat + (chances rest i).sum := by
        rw [chances, List.map_cons, List.sum_cons]
        rfl
      rw [hsum] at h
      have hchance : desc.chance[(Level.ofSlot i).index]? = some desc.chance[i] := by
        rw [Level.index_ofSlot]
        exact Vector.getElem?_eq_getElem i.isLt
      have hval : addChance n desc.chance[i] = (n + desc.chance[i].toNat : Nat) :=
        addChance_eq (by omega)
      rw [insertChances, hchance]
      simp only [hval]
      rw [widths, List.map_cons, BoundaryMap.insertAll, ← Int.natCast_add]
      cases hinsert : bm.insert (n + desc.chance[i].toNat : Nat) desc with
      | error fault => rfl
      | ok bm' => exact ih bm' (by omega)

/-! ## Generation -/

structure GenerationSound (ctx : EncounterContext) (wsId : String) (i : Fin 3) : Prop where
  range : ∃ range, FightingPitAnnouncer.range ctx wsId (.ofSlot i) = some range ∧ range.1 ≤ range.2
  boundary : ∃ contenders bm, ctx.contendersPerZone.lookup wsId = some contenders ∧
    (chances contenders i).sum = 100 ∧
    makeContenderRngBoundaryMap contenders (.ofSlot i) = .ok bm ∧
    ∀ r : Int, 0 ≤ r → r ≤ 100 → ∃ entry, bm.get r = some entry
  /-- no draw makes it fail; the engine may -/
  runs : ∀ (E : PitEngine) (cml : String → Option String) (rng : RandomGenerator)
    (initialSpeed : Nat → Nat) (fpa : FightingPitAnnouncer) (board : Board E.toChaiScript)
    (fault : GenerationFault), fpa.difficulty = .ofSlot i →
    fpa.generateContenders E cml rng initialSpeed ctx wsId board = .error fault → fault = .script

/-- The configuration of a zone is what the check takes it for: a range that is
not empty, chances that do not wrap, and no contender that falls on one equal
to it in the boundary map. -/
structure Consistent (ctx : EncounterContext) (wsId : String) (i : Fin 3) : Prop where
  range : ∃ ranges, ctx.rangeEncounterPerZone.lookup wsId = some ranges ∧
    (ranges.get i).1 ≤ (ranges.get i).2
  contenders : ∃ contenders, ctx.contendersPerZone.lookup wsId = some contenders ∧
    (chances contenders i).sum < 4294967296 ∧ BoundaryMap.Fits none (widths contenders i)

theorem range_ofSlot {ctx : EncounterContext} {wsId : String}
    {ranges : Vector (UInt32 × UInt32) 3}
    (h : ctx.rangeEncounterPerZone.lookup wsId = some ranges) (i : Fin 3) :
    FightingPitAnnouncer.range ctx wsId (.ofSlot i) = some (ranges.get i) := by
  rw [FightingPitAnnouncer.range, h, Level.index_ofSlot]
  exact Vector.getElem?_eq_getElem i.isLt

theorem ends_new {α : Type} : (BoundaryMap.new : BoundaryMap α).Ends 0 none := rfl

theorem boundaryMap_of_sum {contenders : List EncounterDesc} {i : Fin 3}
    (hsum : (chances contenders i).sum = 100) :
    (BoundaryMap.Fits none (widths contenders i) → ∃ bm,
      makeContenderRngBoundaryMap contenders (.ofSlot i) = .ok bm ∧
      ∀ r : Int, 0 ≤ r → r ≤ 100 → ∃ entry, bm.get r = some entry) ∧
    (¬ BoundaryMap.Fits none (widths contenders i) →
      makeContenderRngBoundaryMap contenders (.ofSlot i) = .error (.boundary .erasedIterator)) := by
  have hmap : makeContenderRngBoundaryMap contenders (.ofSlot i) =
      (BoundaryMap.new.insertAll 0 (widths contenders i)).mapError .boundary :=
    insertChances_eq (n := 0) contenders i .new (by omega)
  have hall := ends_new.insertAll (widths contenders i) (by
    rw [sum_widths, hsum]
    decide)
  rw [sum_widths, hsum] at hall
  rw [hmap]
  constructor
  · intro hfits
    obtain ⟨bm, top, hok, hends, htop⟩ := hall.1 hfits
    refine ⟨bm, by rw [hok]; rfl, ?_⟩
    have hne : widths contenders i ≠ [] := by
      intro hnil
      have hzero := sum_widths contenders i
      rw [hnil, hsum] at hzero
      cases hzero
    cases htopeq : top with
    | none => exact absurd htopeq (htop (.inr hne))
    | some top' =>
        rw [htopeq] at hends
        intro r _ hr
        exact BoundaryMap.EndsWith.get_of_le hends hr
  · intro hfits
    rw [hall.2 hfits]
    rfl

namespace FightingPitAnnouncer

variable {E : PitEngine} {cml : String → Option String} {rng : RandomGenerator}
  {initialSpeed : Nat → Nat}

theorem loadContenderScript_fault {cs : ContenderScripting} {script : String}
    {board : Board E.toChaiScript} {fault : GenerationFault}
    (h : cs.loadContenderScript E script board = .error fault) : fault = .script := by
  unfold ContenderScripting.loadContenderScript at h
  split at h
  · exact (Except.error.inj h).symm
  · split at h
    · exact (Except.error.inj h).symm
    · cases h

theorem addContender_fault {contender : FightingContender} {board : Board E.toChaiScript}
    {fault : GenerationFault} (h : board.addContender E contender = .error fault) :
    fault = .script := by
  unfold Board.addContender ContenderScripting.setupContender at h
  split at h
  · cases h
  · exact (Except.error.inj h).symm
  · cases h

theorem generateContender_fault {boundaryMap : BoundaryMap EncounterDesc}
    (hget : ∀ r : Int, 0 ≤ r → r ≤ 100 → ∃ entry, boundaryMap.get r = some entry) {i : Nat}
    {fp : Board E.toChaiScript × List String} {fault : GenerationFault}
    (h : generateContender E cml rng initialSpeed boundaryMap i fp = .error fault) :
    fault = .script := by
  obtain ⟨hlow, hhigh⟩ := rng.mem_range (2 * i + 1) 0 100 (by decide)
  obtain ⟨⟨first, desc⟩, hentry⟩ := hget _ hlow hhigh
  simp only [generateContender, addDrawn, hentry] at h
  split at h
  · rename_i hload
    rw [Except.error.inj h] at hload
    exact loadContenderScript_fault hload
  · split at h
    · rename_i hadd
      rw [Except.error.inj h] at hadd
      exact addContender_fault hadd
    · cases h
    · cases h

theorem generateEach_fault {boundaryMap : BoundaryMap EncounterDesc}
    (hget : ∀ r : Int, 0 ≤ r → r ≤ 100 → ∃ entry, boundaryMap.get r = some entry)
    (is : List Nat) {fp : Board E.toChaiScript × List String} {fault : GenerationFault}
    (h : generateEach E cml rng initialSpeed boundaryMap is fp = .error fault) :
    fault = .script := by
  induction is generalizing fp with
  | nil => cases h
  | cons i is ih =>
      rw [generateEach] at h
      split at h
      · rename_i hfirst
        rw [Except.error.inj h] at hfirst
        exact generateContender_fault hget hfirst
      · cases h
      · exact ih h

end FightingPitAnnouncer

/-- For a zone of an accepted configuration the generation of a pit finds what it
relies on exactly when the configuration of that zone is consistent. -/
theorem generation_sound_iff {ctx : EncounterContext}
    (hvalid : ctx.validateEncounterContext = true) {wsId : String}
    (hzone : ctx.zoneRegistered wsId = true) (i : Fin 3) :
    GenerationSound ctx wsId i ↔ Consistent ctx wsId i := by
  obtain ⟨contenders, hcontenders⟩ : ∃ contenders,
      ctx.contendersPerZone.lookup wsId = some contenders := by
    rw [← Option.isSome_iff_exists, AList.lookup_isSome]
    exact of_decide_eq_true hzone
  have hmod := sum_of_valid hvalid hcontenders i
  constructor
  · intro h
    obtain ⟨range, hrange, hle⟩ := h.range
    obtain ⟨contenders', bm, hcontenders', hsum, hmap, -⟩ := h.boundary
    rw [hcontenders] at hcontenders'
    obtain rfl := Option.some.inj hcontenders'
    constructor
    · cases hranges : ctx.rangeEncounterPerZone.lookup wsId with
      | none =>
          rw [FightingPitAnnouncer.range, hranges] at hrange
          cases hrange
      | some ranges =>
          rw [range_ofSlot hranges] at hrange
          rw [← Option.some.inj hrange] at hle
          exact ⟨ranges, rfl, hle⟩
    · refine ⟨contenders, hcontenders, by omega, ?_⟩
      by_contra hfits
      rw [(boundaryMap_of_sum hsum).2 hfits] at hmap
      cases hmap
  · intro h
    obtain ⟨ranges, hranges, hle⟩ := h.range
    obtain ⟨contenders', hcontenders', hlt, hfits⟩ := h.contenders
    rw [hcontenders] at hcontenders'
    obtain rfl := Option.some.inj hcontenders'
    have hsum : (chances contenders i).sum = 100 := by omega
    obtain ⟨bm, hmap, hget⟩ := (boundaryMap_of_sum hsum).1 hfits
    refine ⟨⟨_, range_ofSlot hranges i, hle⟩, ⟨contenders, bm, hcontenders, hsum, hmap, hget⟩, ?_⟩
    intro E cml rng initialSpeed fpa board fault hdifficulty hfault
    rw [FightingPitAnnouncer.generateContenders, hdifficulty, range_ofSlot hranges i] at hfault
    simp only [if_pos hle, hcontenders, hmap] at hfault
    exact FightingPitAnnouncer.generateEach_fault hget _ hfault

/-! ## Configurations -/

def oneZone (zone zone' : String) (range : UInt32 × UInt32) (contenders : List EncounterDesc) :
    EncounterContext where
  rangeEncounterPerZone := AList.singleton zone #v[range, range, range]
  contendersPerZone := AList.singleton zone' contenders

theorem generation_sound_iff_slime :
    GenerationSound (oneZone "WS00" "WS00" (1, 4) [⟨"arena:contenders:Slime.chai", 3, #v[100, 100, 100]⟩])
        "WS00" 1 ↔
      Consistent (oneZone "WS00" "WS00" (1, 4) [⟨"arena:contenders:Slime.chai", 3, #v[100, 100, 100]⟩])
        "WS00" 1 :=
  generation_sound_iff (by decide) (by decide) 1

/-- Contenders for a zone that has no range pass the check. -/
theorem unranged_zone_accepted :
    ¬ ∀ (ctx : EncounterContext), ctx.validateEncounterContext = true →
      ∀ wsId, ctx.zoneRegistered wsId = true → ∀ i, GenerationSound ctx wsId i := by
  intro h
  obtain ⟨range, hrange, -⟩ := (h
    (oneZone "WS00" "WS01" (1, 3) [⟨"arena:contenders:Slime.chai", 3, #v[100, 100, 100]⟩])
    (by decide) "WS01" (by decide) 0).range
  have hnone : FightingPitAnnouncer.range
      (oneZone "WS00" "WS01" (1, 3) [⟨"arena:contenders:Slime.chai", 3, #v[100, 100, 100]⟩])
      "WS01" (.ofSlot 0) = none := by decide
  rw [hnone] at hrange
  cases hrange

end FyS.Arena
