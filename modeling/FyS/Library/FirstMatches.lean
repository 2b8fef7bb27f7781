import Mathlib.Data.List.Basic
import Mathlib.Order.Lattice

/-!
# First matches

The first so many elements of an ascending list that pass a test: which elements these
are, and when two tests find the same.
-/

namespace FyS.Library.FirstMatches

universe u

variable {α : Type u}

def firstMatches (p : α → Bool) (k : Nat) (l : List α) : List α := (l.filter p).take k

def scan (p : α → Bool) (k : Nat) : List α → List α → List α
  | [], found => found
  | x :: rest, found =>
    if k ≤ found.length then found else scan p k rest (if p x then found ++ [x] else found)

theorem scan_eq (p : α → Bool) (k : Nat) (l found : List α) :
    scan p k l found = found ++ firstMatches p (k - found.length) l := by
  induction l generalizing found with
  | nil => simp [scan, firstMatches]
  | cons x rest ih =>
      rw [scan]
      split_ifs with hfull hpass
      · rw [Nat.sub_eq_zero_of_le hfull, firstMatches, List.take_zero, List.append_nil]
      · rw [ih, firstMatches, firstMatches, List.filter_cons_of_pos hpass, List.length_append,
          List.length_singleton, List.append_assoc]
        obtain ⟨m, hm⟩ : ∃ m, k - found.length = m + 1 := ⟨k - found.length - 1, by omega⟩
        rw [hm, List.take_succ_cons, show k - (found.length + 1) = m by omega]
        rfl
      · rw [ih, firstMatches, firstMatches, List.filter_cons_of_neg hpass]

theorem firstMatches_cons (p : α → Bool) (k : Nat) (y : α) (rest : List α) :
    firstMatches p (k + 1) (y :: rest) =
      if p y then y :: firstMatches p k rest else firstMatches p (k + 1) rest := by
  unfold firstMatches
  split_ifs with hpass
  · rw [List.filter_cons_of_pos hpass, List.take_succ_cons]
  · rw [List.filter_cons_of_neg hpass]

theorem pass_of_mem {p : α → Bool} {k : Nat} {x : α} {l : List α} (h : x ∈ firstMatches p k l) :
    p x = true := (List.mem_filter.mp (List.mem_of_mem_take h)).2

/-! ## Two tests -/

def Agree (p q : α → Bool) (k : Nat) (l : List α) : Prop :=
  ∀ pre x post, l = pre ++ x :: post → pre.countP q < k → p x = q x

theorem agree_cons {p q : α → Bool} {k : Nat} {y : α} {rest : List α} :
    Agree p q (k + 1) (y :: rest) ↔
      p y = q y ∧ Agree p q (if q y then k else k + 1) rest := by
  have hcount (pre : List α) : (y :: pre).countP q < k + 1 ↔
      pre.countP q < if q y then k else k + 1 := by
    rw [List.countP_cons]
    split_ifs <;> omega
  constructor
  · intro h
    refine ⟨h [] y rest rfl (Nat.succ_pos k), ?_⟩
    intro pre x post hsplit hlt
    exact h (y :: pre) x post (by rw [hsplit]; rfl) ((hcount pre).mpr hlt)
  · rintro ⟨hy, hrest⟩ pre x post hsplit hlt
    cases pre with
    | nil =>
        obtain ⟨rfl, -⟩ := List.cons.inj hsplit
        exact hy
    | cons z pre =>
        obtain ⟨rfl, htail⟩ := List.cons.inj hsplit
        exact hrest pre x post htail ((hcount pre).mp hlt)

theorem firstMatches_eq_iff_agree (p q : α → Bool) (k : Nat) (l : List α) :
    firstMatches p k l = firstMatches q k l ↔ Agree p q k l := by
  induction l generalizing k with
  | nil => simp [firstMatches, Agree]
  | cons y rest ih =>
      cases k with
      | zero => simp [firstMatches, Agree]
      | succ k =>
          rw [firstMatches_cons, firstMatches_cons, agree_cons, ← ih]
          cases hp : p y with
          | true =>
              cases hq : q y with
              | true => simp
              | false =>
                  simp only [if_true, Bool.false_eq_true, if_false, Bool.true_eq_false, false_and,
                    iff_false]
                  intro heq
                  have hmem : y ∈ firstMatches q (k + 1) rest := heq ▸ List.mem_cons_self
                  rw [pass_of_mem hmem] at hq
                  cases hq
          | false =>
              cases hq : q y with
              | true =>
                  simp only [if_true, Bool.false_eq_true, if_false, false_and, iff_false]
                  intro heq
                  have hmem : y ∈ firstMatches p (k + 1) rest := heq ▸ List.mem_cons_self
                  rw [pass_of_mem hmem] at hp
                  cases hp
              | false => simp

/-! ## Ascending lists -/

variable [LinearOrder α]

def passedBelow (p : α → Bool) (l : List α) (x : α) : Nat :=
  l.countP fun y => decide (y < x) && p y

variable {p q : α → Bool} {k : Nat} {l : List α}

theorem passedBelow_split {pre post : List α} {x : α}
    (h : (pre ++ x :: post).Pairwise (· < ·)) : passedBelow p (pre ++ x :: post) x = pre.countP p := by
  rw [List.pairwise_append, List.pairwise_cons] at h
  have hpre : pre.countP (fun y => decide (y < x) && p y) = pre.countP p := by
    apply List.countP_congr
    intro y hy
    have hlt : y < x := h.2.2 y hy x List.mem_cons_self
    simp [hlt]
  have hpost : (x :: post).countP (fun y => decide (y < x) && p y) = 0 := by
    rw [List.countP_eq_zero]
    intro y hy
    have hnot : ¬ y < x := by
      rcases List.mem_cons.mp hy with rfl | hy
      · exact lt_irrefl y
      · exact lt_asymm (h.2.1.1 y hy)
    simp [hnot]
  rw [passedBelow, List.countP_append, hpre, hpost, Nat.add_zero]

theorem firstMatches_eq_iff (h : l.Pairwise (· < ·)) :
    firstMatches p k l = firstMatches q k l ↔ ∀ x ∈ l, passedBelow q l x < k → p x = q x := by
  rw [firstMatches_eq_iff_agree]
  constructor
  · intro hagree x hx hlt
    obtain ⟨pre, post, rfl⟩ := List.append_of_mem hx
    rw [passedBelow_split h] at hlt
    exact hagree pre x post rfl hlt
  · rintro hall pre x post rfl hlt
    apply hall x (by simp)
    rwa [passedBelow_split h]

theorem mem_firstMatches_iff (h : l.Pairwise (· < ·)) {x : α} :
    x ∈ firstMatches p k l ↔ x ∈ l ∧ p x = true ∧ passedBelow p l x < k := by
  constructor
  · intro hmem
    have hl : x ∈ l := List.mem_of_mem_filter (List.mem_of_mem_take hmem)
    have hpass := pass_of_mem hmem
    refine ⟨hl, hpass, ?_⟩
    obtain ⟨pre, post, rfl⟩ := List.append_of_mem hl
    rw [passedBelow_split h]
    by_contra hge
    rw [firstMatches, List.filter_append, List.take_append_of_le_length (by
      rw [← List.countP_eq_length_filter]
      exact Nat.not_lt.mp hge)] at hmem
    rw [List.pairwise_append] at h
    have hpre := List.mem_of_mem_filter (List.mem_of_mem_take hmem)
    exact lt_irrefl x (h.2.2 x hpre x List.mem_cons_self)
  · rintro ⟨hl, hpass, hlt⟩
    obtain ⟨pre, post, rfl⟩ := List.append_of_mem hl
    rw [passedBelow_split h, List.countP_eq_length_filter] at hlt
    obtain ⟨m, hm⟩ : ∃ m, k = (pre.filter p).length + (m + 1) :=
      ⟨k - (pre.filter p).length - 1, by omega⟩
    rw [firstMatches, List.filter_append, List.filter_cons_of_pos hpass, hm,
      List.take_length_add_append, List.take_succ_cons]
    exact List.mem_append_right _ List.mem_cons_self

omit [LinearOrder α] in
theorem firstMatches_of_lt (h : (firstMatches p k l).length < k) :
    firstMatches p k l = l.filter p := by
  rw [firstMatches, List.length_take] at h
  exact List.take_of_length_le (by omega)

end FyS.Library.FirstMatches
