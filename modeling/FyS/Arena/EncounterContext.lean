import FyS.Arena.Pit.FightingPit
import Mathlib.Algebra.GroupWithZero.Nat
import Mathlib.Data.List.AList
import Mathlib.Data.List.FinRange

/-!
# `EncounterContext`

The encounters that an arena server is configured with, and the check that
`ArenaServerContext` makes of them.  Numbers are unsigned and 32 bits wide.
-/

namespace FyS.Arena

/-- `EncounterContext::EncounterDesc`. -/
structure EncounterDesc where
  key : String
  maxEncountering : UInt32
  /-- one chance for each difficulty -/
  chance : Vector UInt32 3
deriving DecidableEq, Repr

def Level.index : Level → Nat
  | .EASY => 0
  | .MEDIUM => 1
  | .HARD => 2
  | .NONE => 3

/-- An ordered map is an association list in which no key occurs twice. -/
structure EncounterContext where
  rangeEncounterPerZone : AList fun _ : String => Vector (UInt32 × UInt32) 3
  contendersPerZone : AList fun _ : String => List EncounterDesc

namespace EncounterContext

def zoneRegistered (ctx : EncounterContext) (wsId : String) : Bool :=
  decide (wsId ∈ ctx.contendersPerZone)

/-- The sum that the check compares, in 32 bits. -/
def chanceTotal (contenders : List EncounterDesc) (i : Fin 3) : UInt32 :=
  contenders.foldl (fun val rhs => val + rhs.chance[i]) 0

def validateEncounterContext (ctx : EncounterContext) : Bool :=
  (ctx.rangeEncounterPerZone.entries.all fun zone =>
    (List.finRange 3).all fun i => !decide (zone.2[i].1 ≤ 0)) &&
  ctx.contendersPerZone.entries.all fun zone =>
    (List.finRange 3).all fun i => chanceTotal zone.2 i == 100

def chances (contenders : List EncounterDesc) (i : Fin 3) : List Nat :=
  contenders.map fun desc => desc.chance[i].toNat

theorem chanceTotal_toNat (contenders : List EncounterDesc) (i : Fin 3) :
    (chanceTotal contenders i).toNat = (chances contenders i).sum % 4294967296 := by
  have hfold (val : UInt32) : (contenders.foldl (fun val rhs => val + rhs.chance[i]) val).toNat =
      (val.toNat + (chances contenders i).sum) % 4294967296 := by
    induction contenders generalizing val with
    | nil =>
        have hlt := val.toNat_lt
        simp only [chances, List.foldl_nil, List.map_nil, List.sum_nil]
        omega
    | cons desc rest ih =>
        rw [List.foldl_cons, ih, UInt32.toNat_add]
        simp only [chances, List.map_cons, List.sum_cons]
        omega
  rw [chanceTotal, hfold]
  simp

theorem sum_of_valid {ctx : EncounterContext} (h : ctx.validateEncounterContext = true)
    {wsId : String} {contenders : List EncounterDesc}
    (hzone : ctx.contendersPerZone.lookup wsId = some contenders) (i : Fin 3) :
    (chances contenders i).sum % 4294967296 = 100 := by
  rw [validateEncounterContext, Bool.and_eq_true, List.all_eq_true, List.all_eq_true] at h
  have hmem : (⟨wsId, contenders⟩ : Sigma fun _ : String => List EncounterDesc) ∈
      ctx.contendersPerZone.entries := AList.mem_lookup_iff.mp hzone
  have hzone := h.2 _ hmem
  rw [List.all_eq_true] at hzone
  have htotal := hzone i (List.mem_finRange i)
  rw [← chanceTotal_toNat, eq_of_beq htotal]
  rfl

end EncounterContext

end FyS.Arena
