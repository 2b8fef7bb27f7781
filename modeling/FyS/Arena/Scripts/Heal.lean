import FyS.Arena.Scripts.Damage
import FyS.Library.ClampedShift

/-!
# `heal.chai` and `light_heal.chai`

A heal stops at the total, a damage at zero.  What any number of them do to a life, one after
the other, lies between two shifts that are cut off at bounds that do not depend on the life.
-/

namespace FyS.Arena.Scripts

open FyS.Library

/-- What is healed is a `double`. -/
structure Heal where
  heal : Rat
  heal_nonneg : 0 ≤ heal
deriving Repr

variable (R : WholeRounding)

/-- Life is a whole number, to which the sum is cut. -/
def Heal.execute (heal : Heal) (targetStatus : Status) : Status :=
  if R.round ((targetStatus.life.current : Rat) + heal.heal) ≥ targetStatus.life.total then
    { targetStatus with life := { targetStatus.life with current := targetStatus.life.total } }
  else
    { targetStatus with
      life := { targetStatus.life with
        current := ⌊R.round ((targetStatus.life.current : Rat) + heal.heal)⌋₊ } }

/-- The heal of a `light_heal` is made from the level. -/
structure LightHeal where
  heal : Heal
deriving Repr

def LightHeal.execute (lightHeal : LightHeal) (targetStatus : Status) : Status :=
  lightHeal.heal.execute R targetStatus

/-! ## Whole points -/

/-- What is healed is added, cut to whole points or one more. -/
theorem Heal.execute_between (heal : Heal) (targetStatus : Status) :
    ∃ current, heal.execute R targetStatus =
        { targetStatus with life := ⟨current, targetStatus.life.total⟩ } ∧
      min targetStatus.life.total (targetStatus.life.current + ⌊heal.heal⌋₊) ≤ current ∧
        current ≤ min targetStatus.life.total (targetStatus.life.current + ⌈heal.heal⌉₊) := by
  have hlower : ((targetStatus.life.current + ⌊heal.heal⌋₊ : ℕ) : ℚ) ≤
      R.round ((targetStatus.life.current : ℚ) + heal.heal) := by
    apply R.le_round
    rw [Nat.cast_add]
    exact add_le_add_right (Nat.floor_le heal.heal_nonneg) _
  have hupper : R.round ((targetStatus.life.current : ℚ) + heal.heal) ≤
      ((targetStatus.life.current + ⌈heal.heal⌉₊ : ℕ) : ℚ) := by
    apply R.round_le
    rw [Nat.cast_add]
    exact add_le_add_right (Nat.le_ceil _) _
  unfold execute
  split_ifs with htotal
  · refine ⟨_, rfl, min_le_left _ _, le_min le_rfl ?_⟩
    exact_mod_cast htotal.le.trans hupper
  · refine ⟨_, rfl, (min_le_right _ _).trans (Nat.le_floor hlower), le_min ?_ ?_⟩
    · exact Nat.floor_le_of_le (not_le.mp htotal).le
    · exact Nat.floor_le_of_le hupper

/-! ## One after the other -/

inductive Treatment where
  | damage (dmg : Damage)
  | heal (heal : Heal)
deriving Repr

namespace Treatment

def execute : Treatment → Status → Status
  | .damage dmg => dmg.execute R
  | .heal healing => healing.execute R

def least : Treatment → Int
  | .damage dmg => -⌈dmg.power⌉₊
  | .heal healing => ⌊healing.heal⌋₊

def most : Treatment → Int
  | .damage dmg => -⌊dmg.power⌋₊
  | .heal healing => ⌈healing.heal⌉₊

variable (worth : Treatment → Int)

/-- One action on a life of at most `total`, by what it is worth. -/
def move (total : Nat) (treatment : Treatment) : ClampedShift Int :=
  ⟨worth treatment, 0, total, Int.natCast_nonneg total⟩

theorem execute_life (treatment : Treatment) {status : Status}
    (h : status.life.current ≤ status.life.total) :
    ∃ current : Nat, treatment.execute R status =
        { status with life := ⟨current, status.life.total⟩ } ∧
      (treatment.move least status.life.total).apply status.life.current ≤ current ∧
        (current : Int) ≤ (treatment.move most status.life.total).apply status.life.current := by
  cases treatment with
  | damage dmg =>
      obtain ⟨current, hcurrent, hlower, hupper⟩ := dmg.execute_between R status
      refine ⟨current, hcurrent, ?_, ?_⟩
      · simp only [move, least, ClampedShift.apply]
        omega
      · simp only [move, most, ClampedShift.apply]
        omega
  | heal healing =>
      obtain ⟨current, hcurrent, hlower, hupper⟩ := healing.execute_between R status
      refine ⟨current, hcurrent, ?_, ?_⟩
      · simp only [move, least, ClampedShift.apply]
        omega
      · simp only [move, most, ClampedShift.apply]
        omega

def moves (total : Nat) : List Treatment → ClampedShift Int
  | [] => .within (Int.natCast_nonneg total)
  | treatment :: rest => (moves total rest).after (treatment.move worth total)

theorem moves_bounds (total : Nat) (treatments : List Treatment) :
    (moves worth total treatments).shift = (treatments.map worth).sum ∧
      0 ≤ (moves worth total treatments).lower ∧
        (moves worth total treatments).upper ≤ total := by
  induction treatments with
  | nil => exact ⟨rfl, Int.le_refl _, Int.le_refl _⟩
  | cons treatment rest ih =>
      obtain ⟨hshift, hlower, hupper⟩ := ih
      refine ⟨?_, ?_, ?_⟩
      · rw [List.map_cons, List.sum_cons, ← hshift]
        rfl
      · exact hlower.trans (ClampedShift.lower_le_apply _ _)
      · exact (ClampedShift.apply_le_upper _ _).trans hupper

theorem moves_congr {worth worth' : Treatment → Int} {treatments : List Treatment}
    (h : ∀ treatment ∈ treatments, worth treatment = worth' treatment) (total : Nat) :
    moves worth total treatments = moves worth' total treatments := by
  induction treatments with
  | nil => rfl
  | cons treatment rest ih =>
      obtain ⟨hfirst, hrest⟩ := List.forall_mem_cons.mp h
      simp only [moves, move, ih hrest, hfirst]

theorem foldl_execute {total : Nat} (treatments : List Treatment) {status : Status}
    (htotal : status.life.total = total) (h : status.life.current ≤ total) :
    ∃ current : Nat, treatments.foldl (fun status treatment => treatment.execute R status) status =
        { status with life := ⟨current, total⟩ } ∧
      (moves least total treatments).apply status.life.current ≤ current ∧
        (current : Int) ≤ (moves most total treatments).apply status.life.current := by
  induction treatments generalizing status with
  | nil =>
      have hwithin := ClampedShift.apply_within (Int.natCast_nonneg total)
        (Int.natCast_nonneg status.life.current) (by exact_mod_cast h)
      refine ⟨status.life.current, ?_, hwithin.le, hwithin.ge⟩
      rw [← htotal]
      rfl
  | cons treatment rest ih =>
      obtain ⟨next, hnext, hlow, hhigh⟩ := treatment.execute_life R (htotal.symm ▸ h)
      rw [htotal] at hnext hlow hhigh
      have hle : next ≤ total := by
        have hupper : (next : Int) ≤ total :=
          hhigh.trans ((treatment.move most total).apply_le_upper _)
        exact_mod_cast hupper
      have hlife : (treatment.execute R status).life = ⟨next, total⟩ := by
        rw [hnext]
      obtain ⟨current, hcurrent, hlower, hupper⟩ :=
        ih (congrArg Life.total hlife) (by rwa [hlife])
      rw [hlife] at hlower hupper
      refine ⟨current, ?_, ?_, ?_⟩
      · rw [List.foldl_cons, hcurrent, hnext]
      · rw [moves, ClampedShift.apply_after]
        exact ((moves least total rest).apply_mono hlow).trans hlower
      · rw [moves, ClampedShift.apply_after]
        exact hupper.trans ((moves most total rest).apply_mono hhigh)

/-- Whatever damages and heals follow one another, the life that is left lies between two
shifts, by what they are worth at least and at most, each cut off at bounds that depend on them
and on the total only.  For whole powers the two are one.  So a life that starts within its
total stays there, and nothing else of a status is changed. -/
theorem treatments_move (treatments : List Treatment) (total : Nat) :
    ∃ lower upper lower' upper' : Int,
      (0 ≤ lower ∧ lower ≤ upper ∧ upper ≤ total) ∧
      (0 ≤ lower' ∧ lower' ≤ upper' ∧ upper' ≤ total) ∧
      ((∀ treatment ∈ treatments, treatment.least = treatment.most) →
        lower = lower' ∧ upper = upper') ∧
      ∀ status : Status, status.life.total = total → status.life.current ≤ total →
        ∃ current : Nat,
          treatments.foldl (fun status treatment => treatment.execute R status) status =
              { status with life := ⟨current, total⟩ } ∧
            max lower (min upper (status.life.current + (treatments.map least).sum)) ≤ current ∧
            (current : Int) ≤
              max lower' (min upper' (status.life.current + (treatments.map most).sum)) := by
  obtain ⟨hshift, hlower, hupper⟩ := moves_bounds least total treatments
  obtain ⟨hshift', hlower', hupper'⟩ := moves_bounds most total treatments
  refine ⟨(moves least total treatments).lower, (moves least total treatments).upper,
    (moves most total treatments).lower, (moves most total treatments).upper,
    ⟨hlower, (moves least total treatments).lower_le, hupper⟩,
    ⟨hlower', (moves most total treatments).lower_le, hupper'⟩, ?_, ?_⟩
  · intro hwhole
    rw [moves_congr hwhole]
    exact ⟨rfl, rfl⟩
  · intro status htotal h
    obtain ⟨current, hcurrent, hlow, hhigh⟩ := foldl_execute R treatments htotal h
    refine ⟨current, hcurrent, ?_, ?_⟩
    · rw [← hshift]
      exact hlow
    · rw [← hshift']
      exact hhigh

end Treatment

end FyS.Arena.Scripts
