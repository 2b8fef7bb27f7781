import FyS.Arena.Pit.Generation
import FyS.Common.WeightedBoundaries

/-!
# The odds of an encounter

Whether a draw finds a contender as often as the configuration says.  A
contender without a chance takes part in the boundary map like any other, and
is pushed to a key that it should not have.
-/

namespace FyS.Arena

open FyS.Common EncounterContext

def chanceAt (i : Fin 3) (desc : EncounterDesc) : Nat := (desc.chance.get i).toNat

theorem chances_eq_map (contenders : List EncounterDesc) (i : Fin 3) :
    chances contenders i = contenders.map (chanceAt i) := rfl

/-- The boundary map of the contenders is their weighted choice, with the chances
as weights and the draws up to 100. -/
def OddsConfigured (contenders : List EncounterDesc) (i : Fin 3) : Prop :=
  ∃ boundaryMap, makeContenderRngBoundaryMap contenders (.ofSlot i) = .ok boundaryMap ∧
    boundaryMap.Odds (chanceAt i) contenders 100

/-- No contender without a chance is listed before one that has a chance. -/
def ZeroChancesLast (contenders : List EncounterDesc) (i : Fin 3) : Prop :=
  (chances contenders i).Pairwise fun chance later => chance = 0 → later = 0

instance (contenders : List EncounterDesc) (i : Fin 3) : Decidable (ZeroChancesLast contenders i) :=
  inferInstanceAs (Decidable (List.Pairwise _ _))

theorem boundaryMap_eq_ok_iff {contenders : List EncounterDesc} {i : Fin 3}
    (hsum : (chances contenders i).sum = 100) {boundaryMap : BoundaryMap EncounterDesc} :
    makeContenderRngBoundaryMap contenders (.ofSlot i) = .ok boundaryMap ↔
      BoundaryMap.insertAll 0 (BoundaryMap.weighed (chanceAt i) contenders) .new =
        .ok boundaryMap := by
  have hmap : makeContenderRngBoundaryMap contenders (.ofSlot i) =
      (BoundaryMap.new.insertAll 0 (widths contenders i)).mapError .boundary :=
    insertChances_eq (n := 0) contenders i .new (by omega)
  rw [hmap]
  show (BoundaryMap.new.insertAll 0 (BoundaryMap.weighed (chanceAt i) contenders)).mapError
    GenerationFault.boundary = .ok boundaryMap ↔ _
  cases BoundaryMap.new.insertAll 0 (BoundaryMap.weighed (chanceAt i) contenders) with
  | error fault => simp [Except.mapError]
  | ok bm => simp [Except.mapError]

theorem odds_configured_iff (contenders : List EncounterDesc) (i : Fin 3)
    (hsum : (chances contenders i).sum = 100) :
    OddsConfigured contenders i ↔ ZeroChancesLast contenders i := by
  have hweights : (contenders.map (chanceAt i)).sum = 100 := by
    rw [← chances_eq_map]
    exact hsum
  unfold OddsConfigured
  simp only [boundaryMap_eq_ok_iff hsum]
  exact BoundaryMap.odds_iff_zerosLast hweights (by decide) (by decide)

def withChances (chances : List (String × UInt32)) : List EncounterDesc :=
  chances.map fun (key, chance) => ⟨key, 3, #v[chance, chance, chance]⟩

theorem odds_configured_iff_announcer :
    OddsConfigured (withChances
        [("arena:contenders:Sampy.chai", 60), ("arena:contenders:Slime.chai", 40)]) 1 ↔
      ZeroChancesLast (withChances
        [("arena:contenders:Sampy.chai", 60), ("arena:contenders:Slime.chai", 40)]) 1 :=
  odds_configured_iff _ 1 (by decide)

/-- A contender without a chance between two others is found by the draw after
the first one's. -/
theorem chanceless_contender_selected :
    ¬ ∀ contenders i, (chances contenders i).sum = 100 → OddsConfigured contenders i := by
  intro h
  let contenders := withChances [("arena:contenders:Sampy.chai", 50),
    ("arena:contenders:Slime.chai", 0), ("arena:contenders:Wolf.chai", 50)]
  obtain ⟨boundaryMap, hmap, hodds⟩ := h contenders 0 (by decide)
  have hget : ((makeContenderRngBoundaryMap contenders (.ofSlot 0)).toOption.bind
      fun bm => bm.get 51) = some (51, ⟨"arena:contenders:Slime.chai", 3, #v[0, 0, 0]⟩) := by
    decide +kernel
  rw [hmap] at hget
  have hpos := hodds.never 51 (by decide) (by decide) _ _ hget
  exact absurd hpos (by decide)

end FyS.Arena
