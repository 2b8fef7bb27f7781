import Mathlib.Algebra.Order.Floor.Semiring
import Mathlib.Data.Rat.Floor
import Mathlib.Tactic.Linarith
import FyS.Arena.CommonTypes
import FyS.Library.BinaryFormat
import FyS.Library.IndexedLoop

/-!
# `damage.chai` and `multi_slash.chai`

A script works on references to the statuses of characters: the memory gives the
status that is behind a reference.  What is thrown leaves the memory as it is then.
What is left of a life after a power that is a `double` is rounded; lives, and powers
that are an `int`, are exact.
-/

namespace FyS.Arena.Scripts

open FyS.Library

inductive Thrown where
  /-- the checked access of a vector -/
  | out_of_range
  /-- `eval_error`, of a variable without a value -/
  | eval_error
deriving DecidableEq, Repr

/-- What a parameter named `targetsStatus` is given. -/
inductive Targets (κ : Type) where
  | Vector (targets : List κ)
  | other (type_name : String)
deriving DecidableEq, Repr

variable {κ : Type} [DecidableEq κ] (R : WholeRounding)

/-! ## `damage` -/

structure Damage where
  power : Rat
  power_nonneg : 0 ≤ power
deriving DecidableEq, Repr

structure After (κ : Type) where
  thrown : Option Thrown
  statuses : κ → Status
  numberMax : Int

namespace Damage

/-- Life is a whole number, to which the difference is cut. -/
def execute (dmg : Damage) (targetStatus : Status) : Status :=
  if (targetStatus.life.current : Rat) > dmg.power then
    { targetStatus with
      life := { targetStatus.life with
        current := ⌊R.round ((targetStatus.life.current : Rat) - dmg.power)⌋₊ } }
  else { targetStatus with life := { targetStatus.life with current := 0 } }

def executeOn (dmg : Damage) (statuses : κ → Status) (target : κ) : κ → Status :=
  Function.update statuses target (dmg.execute R (statuses target))

def execute_multiple (dmg : Damage) (targetsStatus : Targets κ) (numberMax : Int)
    (statuses : κ → Status) : After κ :=
  match targetsStatus with
  | .Vector targets =>
    let numberMax := if numberMax = 0 then (targets.length : Int) else numberMax
    let ran := IndexedLoop.loop .out_of_range (dmg.executeOn R) targets 0 numberMax.toNat statuses
    ⟨ran.1, ran.2, numberMax⟩
  | .other _ => ⟨none, statuses, numberMax⟩

end Damage

/-! ## `multi_slash` -/

/-- What a `multi_slash` is made from. -/
inductive LevelOrStatus where
  | int (lvl : Int)
  | Status (status : FyS.Arena.Status)
  | other (type_name : String)
deriving DecidableEq, Repr

structure MultiSlash where
  dmg : Damage
  number : Int
deriving DecidableEq, Repr

/-- Division of integers cuts towards zero; an undefined level cannot be divided. -/
def multi_slash (levelOrStatus : LevelOrStatus) : Except Thrown MultiSlash := do
  let lvl ← match levelOrStatus with
    | .int lvl => .ok lvl
    | .Status _ => .ok (15 : Int)
    | .other _ => .error .eval_error
  .ok { dmg := ⟨30, by decide⟩, number := 2 + lvl.tdiv 3 }

def MultiSlash.execute (slash : MultiSlash) (targetsStatus : Targets κ) (statuses : κ → Status) :
    After κ :=
  slash.dmg.execute_multiple R targetsStatus slash.number statuses

/-! ## What is damaged -/

def targeted (size : Nat) (numberMax : Int) : Nat :=
  if numberMax = 0 then size else min numberMax.toNat size

/-- The call completes, each of the first targets is damaged once, and nothing else is changed. -/
structure DamagesFirst (dmg : Damage) (targets : List κ) (numberMax : Int)
    (statuses : κ → Status) (after : After κ) : Prop where
  completes : after.thrown = none
  first : ∀ target ∈ targets.take (targeted targets.length numberMax),
    after.statuses target = dmg.execute R (statuses target)
  others : ∀ other, other ∉ targets.take (targeted targets.length numberMax) →
    after.statuses other = statuses other

namespace Damage

variable {targets : List κ}

/-- The power is taken off, cut to whole points or one more. -/
theorem execute_between (dmg : Damage) (targetStatus : Status) :
    ∃ current, dmg.execute R targetStatus =
        { targetStatus with life := ⟨current, targetStatus.life.total⟩ } ∧
      targetStatus.life.current - ⌈dmg.power⌉₊ ≤ current ∧
        current ≤ targetStatus.life.current - ⌊dmg.power⌋₊ := by
  unfold execute
  split_ifs with hsurvives
  · refine ⟨_, rfl, ?_, ?_⟩
    · have hle : ⌈dmg.power⌉₊ ≤ targetStatus.life.current := Nat.ceil_le.mpr hsurvives.le
      apply Nat.le_floor
      apply R.le_round
      rw [Nat.cast_sub hle]
      exact sub_le_sub_left (Nat.le_ceil _) _
    · have hfloor := Nat.floor_le dmg.power_nonneg
      have hle : ⌊dmg.power⌋₊ ≤ targetStatus.life.current := by
        exact_mod_cast hfloor.trans hsurvives.le
      apply Nat.floor_le_of_le
      apply R.round_le
      rw [Nat.cast_sub hle]
      exact sub_le_sub_left hfloor _
  · have hle := Nat.le_floor (not_lt.mp hsurvives)
    refine ⟨0, rfl, ?_, Nat.zero_le _⟩
    have hceil := Nat.floor_le_ceil dmg.power
    omega

/-- The first targets are damaged in any case, and the call throws if it is to go on. -/
theorem execute_multiple_eq (dmg : Damage) (h : targets.Nodup) (numberMax : Int)
    (statuses : κ → Status) :
    (dmg.execute_multiple R (.Vector targets) numberMax statuses).thrown =
        (if numberMax ≤ targets.length then none else some .out_of_range) ∧
      (dmg.execute_multiple R (.Vector targets) numberMax statuses).statuses = fun target =>
        if target ∈ targets.take (targeted targets.length numberMax) then
          dmg.execute R (statuses target)
        else statuses target := by
  have hloop (n : Nat) := IndexedLoop.loop_eq Thrown.out_of_range (dmg.executeOn R) targets
    (Nat.zero_le targets.length) n statuses
  have hdamaged (n : Nat) : (targets.take n).foldl (dmg.executeOn R) statuses = fun target =>
      if target ∈ targets.take n then dmg.execute R (statuses target) else statuses target :=
    IndexedLoop.foldl_update (dmg.execute R) (List.Sublist.nodup (List.take_sublist n targets) h)
      statuses
  unfold execute_multiple targeted
  simp only [hloop, List.drop_zero, hdamaged]
  by_cases hzero : numberMax = 0
  · simp [hzero]
  · rw [if_neg hzero, if_neg hzero]
    have hfits : 0 + numberMax.toNat ≤ targets.length ↔ numberMax ≤ targets.length := by omega
    have htake : targets.take numberMax.toNat = targets.take (min numberMax.toNat targets.length) :=
      List.take_eq_take_min
    simp only [hfits, ← htake, and_self]

theorem damagesFirst_iff (dmg : Damage) (h : targets.Nodup) (numberMax : Int)
    (statuses : κ → Status) :
    DamagesFirst R dmg targets numberMax statuses
        (dmg.execute_multiple R (.Vector targets) numberMax statuses) ↔
      numberMax ≤ targets.length := by
  obtain ⟨hthrown, hstatuses⟩ := dmg.execute_multiple_eq R h numberMax statuses
  constructor
  · intro hfirst
    by_contra hpast
    rw [if_neg hpast] at hthrown
    exact absurd (hthrown.symm.trans hfirst.completes) (by decide)
  · intro hfits
    rw [if_pos hfits] at hthrown
    refine ⟨hthrown, ?_, ?_⟩
    · intro target htarget
      rw [hstatuses]
      exact if_pos htarget
    · intro other hother
      rw [hstatuses]
      exact if_neg hother

end Damage

/-! ## Every level -/

def LevelOrStatus.level : LevelOrStatus → Option Int
  | .int lvl => some lvl
  | .Status _ => some 15
  | .other _ => none

theorem multi_slash_eq {levelOrStatus : LevelOrStatus} {lvl : Int}
    (h : levelOrStatus.level = some lvl) :
    multi_slash levelOrStatus = .ok { dmg := ⟨30, by decide⟩, number := 2 + lvl.tdiv 3 } := by
  cases levelOrStatus with
  | int given =>
      cases h
      rfl
  | Status status =>
      cases h
      rfl
  | other type_name => cases h

namespace MultiSlash

def executions (slash : MultiSlash) : List (List κ) → (κ → Status) → Option Thrown × (κ → Status)
  | [], statuses => (none, statuses)
  | targets :: rest, statuses =>
    let after := slash.execute R (.Vector targets) statuses
    match after.thrown with
    | some thrown => (some thrown, after.statuses)
    | none => executions { slash with number := after.numberMax } rest after.statuses

theorem executions_complete_iff (slash : MultiSlash) (hnumber : slash.number ≠ 0)
    {executed : List (List κ)} (h : ∀ targets ∈ executed, targets.Nodup) (statuses : κ → Status) :
    (slash.executions R executed statuses).1 = none ↔
      ∀ targets ∈ executed, slash.number ≤ targets.length := by
  induction executed generalizing statuses with
  | nil => simp [executions]
  | cons targets rest ih =>
      rw [List.forall_mem_cons] at h ⊢
      have hkept : (slash.execute R (.Vector targets) statuses).numberMax = slash.number :=
        if_neg hnumber
      have hthrown : (slash.execute R (.Vector targets) statuses).thrown = _ :=
        (slash.dmg.execute_multiple_eq R h.1 slash.number statuses).1
      unfold executions
      simp only
      rw [hthrown]
      by_cases hfits : slash.number ≤ targets.length
      · simp only [hfits, if_true, true_and, hkept]
        exact ih h.2 _
      · simp [hfits]

end MultiSlash

/-- The first targets are damaged and nothing goes wrong exactly when no more targets are
asked for than there are: for a slash, two and one more for every three levels. -/
theorem damages_first_iff {targets : List κ} (h : targets.Nodup) (statuses : κ → Status) :
    (∀ (dmg : Damage) (numberMax : Int),
      DamagesFirst R dmg targets numberMax statuses
          (dmg.execute_multiple R (.Vector targets) numberMax statuses) ↔
        numberMax ≤ targets.length) ∧
      ∀ (levelOrStatus : LevelOrStatus) (lvl : Int), levelOrStatus.level = some lvl →
        ∃ slash, multi_slash levelOrStatus = .ok slash ∧
          (DamagesFirst R slash.dmg targets slash.number statuses
              (slash.execute R (.Vector targets) statuses) ↔
            2 + lvl.tdiv 3 ≤ targets.length) := by
  refine ⟨fun dmg numberMax => dmg.damagesFirst_iff R h numberMax statuses, ?_⟩
  intro levelOrStatus lvl hlevel
  exact ⟨_, multi_slash_eq hlevel, Damage.damagesFirst_iff R _ h _ statuses⟩

def wounded (life other : Nat) (second : Bool) : Status where
  life := ⟨if second then other else life, 153⟩
  magicPoint := ⟨100, 100⟩
  initialSpeed := 8
  alterations := []

theorem damages_first_iff_two :
    (∀ (dmg : Damage) (numberMax : Int),
      DamagesFirst binary64.wholeRounding dmg [false, true] numberMax (wounded 153 100)
          (dmg.execute_multiple binary64.wholeRounding (.Vector [false, true]) numberMax
            (wounded 153 100)) ↔
        numberMax ≤ (2 : Nat)) ∧
      ∀ (levelOrStatus : LevelOrStatus) (lvl : Int), levelOrStatus.level = some lvl →
        ∃ slash, multi_slash levelOrStatus = .ok slash ∧
          (DamagesFirst binary64.wholeRounding slash.dmg [false, true] slash.number
              (wounded 153 100)
              (slash.execute binary64.wholeRounding (.Vector [false, true]) (wounded 153 100)) ↔
            2 + lvl.tdiv 3 ≤ (2 : Nat)) :=
  damages_first_iff binary64.wholeRounding (by decide) (wounded 153 100)

/-- A slash of the first level at one target alone is thrown out of the vector. -/
theorem one_target_too_few :
    ¬ ∀ (R : WholeRounding) (targets : List Bool) (levelOrStatus : LevelOrStatus)
        (slash : MultiSlash) (statuses : Bool → Status), targets.Nodup →
      multi_slash levelOrStatus = .ok slash →
      DamagesFirst R slash.dmg targets slash.number statuses
        (slash.execute R (.Vector targets) statuses) := by
  intro h
  have hfirst := h binary64.wholeRounding [false] (.int 1) ⟨⟨30, by decide⟩, 2⟩ (wounded 153 100)
    (by decide) rfl
  have hfits := (Damage.damagesFirst_iff _ _ (by decide) _ _).mp hfirst
  exact absurd hfits (by decide)

end FyS.Arena.Scripts
