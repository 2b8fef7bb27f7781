import Mathlib.Algebra.GroupWithZero.Nat
import Mathlib.Data.List.Basic
import Mathlib.Order.Interval.Finset.Nat

/-!
# Weighted choice

Positions with weights, laid out one after the other on the numbers above zero.
A draw chooses the position on whose stretch it falls, so that each position is
chosen by as many draws as its weight says.
-/

namespace FyS.Library.WeightedChoice

def bound (weights : List Nat) (k : Nat) : Nat := (weights.take k).sum

def Chosen (weights : List Nat) (r k : Nat) : Prop :=
  bound weights k < r ∧ r ≤ bound weights (k + 1)

instance (weights : List Nat) (r k : Nat) : Decidable (Chosen weights r k) :=
  inferInstanceAs (Decidable (_ ∧ _))

variable {weights : List Nat} {r k : Nat}

@[simp] theorem bound_zero : bound weights 0 = 0 := rfl

@[simp] theorem bound_cons_succ (weight : Nat) :
    bound (weight :: weights) (k + 1) = weight + bound weights k := by
  rw [bound, List.take_succ_cons, List.sum_cons]
  rfl

theorem bound_succ {weight : Nat} (hk : weights[k]? = some weight) :
    bound weights (k + 1) = bound weights k + weight := by
  rw [bound, List.take_add_one, hk, List.sum_append]
  rfl

theorem bound_succ_of_length_le (weights : List Nat) {k : Nat} (hk : weights.length ≤ k) :
    bound weights (k + 1) = bound weights k := by
  rw [bound, bound, List.take_of_length_le hk, List.take_of_length_le (by omega)]

theorem bound_length (weights : List Nat) : bound weights weights.length = weights.sum := by
  rw [bound, List.take_length]

theorem bound_mono (weights : List Nat) {k k' : Nat} (h : k ≤ k') : bound weights k ≤ bound weights k' := by
  induction k' with
  | zero =>
      have hzero : k = 0 := by omega
      rw [hzero]
  | succ k' ih =>
      by_cases heq : k = k' + 1
      · rw [heq]
      · have hle := ih (by omega)
        cases hk' : weights[k']? with
        | some weight =>
            rw [bound_succ hk']
            omega
        | none =>
            rw [bound_succ_of_length_le weights (List.getElem?_eq_none_iff.mp hk')]
            exact hle

theorem bound_le_sum (weights : List Nat) (k : Nat) : bound weights k ≤ weights.sum := by
  by_cases hk : k ≤ weights.length
  · rw [← bound_length]
    exact bound_mono weights hk
  · rw [bound, List.take_of_length_le (by omega)]

theorem bound_lt {k' weight : Nat} (hk : weights[k']? = some weight) (hpos : 0 < weight)
    (h : k < k') : bound weights (k + 1) < bound weights (k' + 1) := by
  have hle := bound_mono weights (show k + 1 ≤ k' by omega)
  rw [bound_succ hk]
  omega

theorem Chosen.weight_pos (h : Chosen weights r k) :
    ∃ weight, weights[k]? = some weight ∧ 0 < weight := by
  unfold Chosen at h
  cases hk : weights[k]? with
  | none =>
      rw [bound_succ_of_length_le weights (List.getElem?_eq_none_iff.mp hk)] at h
      omega
  | some weight =>
      refine ⟨weight, rfl, ?_⟩
      rw [bound_succ hk] at h
      omega

theorem Chosen.unique {k' : Nat} (h : Chosen weights r k) (h' : Chosen weights r k') : k' = k := by
  unfold Chosen at h h'
  rcases Nat.lt_trichotomy k k' with hlt | heq | hlt
  · have hle := bound_mono weights (show k + 1 ≤ k' by omega)
    omega
  · exact heq.symm
  · have hle := bound_mono weights (show k' + 1 ≤ k by omega)
    omega

theorem exists_chosen (hpos : 0 < r) (hsum : r ≤ weights.sum) : ∃ k, Chosen weights r k := by
  induction weights generalizing r with
  | nil =>
      rw [List.sum_nil] at hsum
      omega
  | cons weight rest ih =>
      rw [List.sum_cons] at hsum
      by_cases hfirst : r ≤ weight
      · refine ⟨0, ?_⟩
        unfold Chosen
        rw [bound_cons_succ, bound_zero, bound_zero]
        omega
      · obtain ⟨k, hk⟩ := ih (r := r - weight) (by omega) (by omega)
        refine ⟨k + 1, ?_⟩
        unfold Chosen at hk ⊢
        rw [bound_cons_succ, bound_cons_succ]
        omega

/-- The stretch of a position is as long as its weight says. -/
theorem card_chosen {total weight : Nat} (hk : weights[k]? = some weight)
    (htotal : weights.sum ≤ total) :
    ((Finset.Icc 1 total).filter fun r => Chosen weights r k).card = weight := by
  have hsucc := bound_succ hk
  have hle := bound_le_sum weights (k + 1)
  have hstretch : ((Finset.Icc 1 total).filter fun r => Chosen weights r k) =
      Finset.Ioc (bound weights k) (bound weights (k + 1)) := by
    ext r
    rw [Finset.mem_filter, Finset.mem_Icc, Finset.mem_Ioc, Chosen]
    omega
  rw [hstretch, Nat.card_Ioc]
  omega

end FyS.Library.WeightedChoice
