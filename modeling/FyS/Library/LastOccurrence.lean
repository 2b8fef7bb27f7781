import Mathlib.Data.List.DropRight

/-!
# Last occurrences

What a list holds in front of the last occurrence of an element, and behind it.
-/

namespace FyS.Library.LastOccurrence

universe u

variable {α : Type u} [DecidableEq α]

def afterLast (c : α) (l : List α) : List α := l.rtakeWhile (· ≠ c)

def beforeLast (c : α) (l : List α) : List α :=
  if c ∈ l then (l.rdropWhile (· ≠ c)).dropLast else l

variable {c : α} {l front back : List α}

theorem exists_last (h : c ∈ l) : ∃ front back, l = front ++ c :: back ∧ c ∉ back := by
  induction l using List.reverseRecOn with
  | nil => cases h
  | append_singleton l d ih =>
      by_cases hd : d = c
      · exact ⟨l, [], by rw [hd], List.not_mem_nil⟩
      · have hl : c ∈ l := by
          rcases List.mem_append.mp h with hl | hlast
          · exact hl
          · exact absurd (List.mem_singleton.mp hlast).symm hd
        obtain ⟨front, back, rfl, hback⟩ := ih hl
        refine ⟨front, back ++ [d], by simp, ?_⟩
        rw [List.mem_append, List.mem_singleton]
        rintro (hmem | heq)
        · exact hback hmem
        · exact hd heq.symm

theorem rtakeWhile_last (h : c ∉ back) :
    (front ++ c :: back).rtakeWhile (· ≠ c) = back := by
  induction back using List.reverseRecOn with
  | nil => simp
  | append_singleton back d ih =>
      rw [List.mem_append, not_or] at h
      have hd : d ≠ c := by
        rintro rfl
        exact h.2 (List.mem_singleton_self d)
      rw [← List.cons_append, ← List.append_assoc,
        List.rtakeWhile_concat_pos _ _ _ (by simpa using hd), ih h.1]

theorem rdropWhile_last (h : c ∉ back) :
    (front ++ c :: back).rdropWhile (· ≠ c) = front ++ [c] := by
  have hsplit : (front ++ c :: back).rdropWhile (· ≠ c) ++
      (front ++ c :: back).rtakeWhile (· ≠ c) = front ++ c :: back :=
    List.rdropWhile_append_rtakeWhile
  rw [rtakeWhile_last h] at hsplit
  apply List.append_cancel_right
  rw [hsplit]
  simp

theorem afterLast_append (h : c ∉ back) : afterLast c (front ++ c :: back) = back :=
  rtakeWhile_last h

theorem afterLast_of_not_mem (h : c ∉ l) : afterLast c l = l := by
  rw [afterLast, List.rtakeWhile_eq_self_iff]
  intro d hd
  apply decide_eq_true
  rintro rfl
  exact h hd

theorem beforeLast_append (h : c ∉ back) : beforeLast c (front ++ c :: back) = front := by
  have hmem : c ∈ front ++ c :: back := by simp
  rw [beforeLast, if_pos hmem, rdropWhile_last h, List.dropLast_concat]

theorem beforeLast_of_not_mem (h : c ∉ l) : beforeLast c l = l := if_neg h

end FyS.Library.LastOccurrence
