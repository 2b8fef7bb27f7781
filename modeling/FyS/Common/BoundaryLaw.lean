import FyS.Common.BoundaryMap
import Mathlib.Data.List.Induction

/-!
# What a `BoundaryMap` is for

`get` should find the element of the least index that is not below the one asked
for, whatever the order of the insertions.  It does for ascending indices only: an
element that is inserted below another one goes behind that one, or its insertion
reads an erased iterator.
-/

namespace FyS.Common.BoundaryMap

open FyS.Library

variable {α : Type}

/-- What `get(r)` should designate after these insertions. -/
def Designates (writes : List (Int × α)) (r : Int) : Option (Int × α) → Prop
  | none => ∀ w ∈ writes, w.1 < r
  | some (_, element) =>
    ∃ index, (index, element) ∈ writes ∧ r ≤ index ∧ ∀ w ∈ writes, r ≤ w.1 → index ≤ w.1

variable [DecidableEq α]

/-- The calls `insert(index, element)`, one after the other. -/
def insertEach (writes : List (Int × α)) (bm : BoundaryMap α) :
    Except BoundaryFault (BoundaryMap α) :=
  writes.foldlM (fun bm w => bm.insert w.1 w.2) bm

/-- After each call, none of which fails, `get` designates what it should. -/
def Lawful (writes : List (Int × α)) : Prop :=
  ∀ calls, calls <+: writes →
    ∃ bm, insertEach calls .new = .ok bm ∧ ∀ r, Designates calls r (bm.get r)

variable {writes : List (Int × α)} {bm : BoundaryMap α}

theorem insertEach_concat {w : Int × α} :
    insertEach (writes ++ [w]) .new = insertEach writes .new >>= fun bm => bm.insert w.1 w.2 := by
  simp [insertEach, List.foldlM_append]

/-! ## Ascending indices -/

omit [DecidableEq α] in
theorem designates_of_entries (h : bm.map.entries = writes) (r : Int) :
    Designates writes r (bm.get r) := by
  cases hget : bm.get r with
  | none =>
      rw [← h]
      exact OrderedMap.lowerBound_eq_none_iff.mp hget
  | some entry =>
      obtain ⟨index, element⟩ := entry
      obtain ⟨hmem, hle, hleast⟩ := OrderedMap.lowerBound_eq_some_iff.mp hget
      rw [h] at hmem hleast
      refine ⟨index, hmem, hle, ?_⟩
      intro w hw hr
      by_cases heq : w = (index, element)
      · rw [heq]
      · exact (hleast w hw heq hr).le

theorem insert_beyond (h : bm.map.entries = writes) {w : Int × α}
    (hlt : ∀ v ∈ writes, v.1 < w.1) :
    ∃ bm', bm.insert w.1 w.2 = .ok bm' ∧ bm'.map.entries = writes ++ [w] := by
  rw [← h] at hlt ⊢
  exact ⟨_, insert_of_none (OrderedMap.lowerBound_eq_none_iff.mpr hlt),
    OrderedMap.entries_assign_of_lt hlt⟩

theorem insertEach_ascending (h : (writes.map Prod.fst).Pairwise (· < ·)) :
    ∃ bm, insertEach writes .new = .ok bm ∧ bm.map.entries = writes := by
  induction writes using List.reverseRecOn with
  | nil => exact ⟨.new, rfl, rfl⟩
  | append_singleton writes w ih =>
      rw [List.map_append, List.pairwise_append] at h
      obtain ⟨bm, hinsert, hentries⟩ := ih h.1
      have hlt : ∀ v ∈ writes, v.1 < w.1 := fun v hv =>
        h.2.2 v.1 (List.mem_map_of_mem hv) w.1 (by simp)
      rw [insertEach_concat, hinsert]
      exact insert_beyond hentries hlt

theorem lawful_of_ascending (h : (writes.map Prod.fst).Pairwise (· < ·)) : Lawful writes := by
  intro calls hcalls
  obtain ⟨bm, hinsert, hentries⟩ := insertEach_ascending (h.sublist (hcalls.map _).sublist)
  exact ⟨bm, hinsert, designates_of_entries hentries⟩

/-! ## Other indices -/

theorem not_designates_of_below (h : bm.map.entries = writes) {w v : Int × α} (hv : v ∈ writes)
    (hle : w.1 ≤ v.1) (hnew : ∀ v ∈ writes, v.1 ≠ w.1) {bm' : BoundaryMap α}
    (hinsert : bm.insert w.1 w.2 = .ok bm') :
    ¬ Designates (writes ++ [w]) w.1 (bm'.get w.1) := by
  cases hget : bm.get w.1 with
  | none =>
      rw [← h] at hv
      exact absurd (OrderedMap.lowerBound_eq_none_iff.mp hget v hv) (not_lt.mpr hle)
  | some entry =>
      obtain ⟨first, second⟩ := entry
      obtain ⟨hmem, hfirst, hleast⟩ := OrderedMap.lowerBound_eq_some_iff.mp hget
      have hsecond : w.2 ≠ second := by
        rintro heq
        rw [insert_of_eq (heq ▸ hget)] at hinsert
        cases hinsert
      have hassign : bm' = ⟨bm.map.assign (first + 1) w.2⟩ := by
        unfold BoundaryMap.insert at hinsert
        rw [hget] at hinsert
        simp only [ne_eq, hsecond, not_false_eq_true, if_true] at hinsert
        split_ifs at hinsert
        exact (Except.ok.inj hinsert).symm
      -- the element that was there is found as before
      have hget' : bm'.get w.1 = some (first, second) := by
        rw [hassign]
        apply OrderedMap.lowerBound_eq_some_iff.mpr
        refine ⟨OrderedMap.mem_assign_iff.mpr (.inr ⟨hmem, ?_⟩), hfirst, ?_⟩
        · show first ≠ first + 1
          omega
        · intro e he hne hr
          rcases OrderedMap.mem_assign_iff.mp he with rfl | ⟨he, -⟩
          · show first < first + 1
            omega
          · exact hleast e he hne hr
      rw [hget']
      rintro ⟨index, hindex, hr, hall⟩
      have hself := hall w (List.mem_append_right _ (List.mem_singleton_self w)) le_rfl
      obtain rfl : index = w.1 := le_antisymm hself hr
      rcases List.mem_append.mp hindex with hold | hlast
      · exact hnew _ hold rfl
      · exact hsecond (congrArg Prod.snd (List.mem_singleton.mp hlast)).symm

theorem Lawful.of_isPrefix {calls : List (Int × α)} (h : Lawful writes) (hcalls : calls <+: writes) :
    Lawful calls := fun first hfirst => h first (hfirst.trans hcalls)

theorem ascending_of_lawful (hdistinct : (writes.map Prod.fst).Nodup) (h : Lawful writes) :
    (writes.map Prod.fst).Pairwise (· < ·) := by
  induction writes using List.reverseRecOn with
  | nil => exact .nil
  | append_singleton writes w ih =>
      rw [List.map_append, List.nodup_append] at hdistinct
      have hascending := ih hdistinct.1 (h.of_isPrefix (List.prefix_append writes [w]))
      obtain ⟨bm, hinsert, hentries⟩ := insertEach_ascending hascending
      obtain ⟨bm', hall, hdesignates⟩ := h _ (List.prefix_refl _)
      rw [insertEach_concat, hinsert] at hall
      have hnew : ∀ v ∈ writes, v.1 ≠ w.1 := fun v hv =>
        hdistinct.2.2 v.1 (List.mem_map_of_mem hv) w.1 (by simp)
      rw [List.map_append, List.pairwise_append]
      refine ⟨hascending, List.pairwise_singleton _ _, ?_⟩
      intro i hi j hj
      obtain ⟨v, hv, rfl⟩ := List.mem_map.mp hi
      rw [List.map_singleton, List.mem_singleton] at hj
      rw [hj]
      by_contra hle
      exact not_designates_of_below hentries hv (not_lt.mp hle) hnew hall (hdesignates w.1)

/-- A map answers right exactly as long as the indices ascend. -/
theorem lawful_iff (hdistinct : (writes.map Prod.fst).Nodup) :
    Lawful writes ↔ (writes.map Prod.fst).Pairwise (· < ·) :=
  ⟨ascending_of_lawful hdistinct, lawful_of_ascending⟩

theorem lawful_iff_ascending :
    Lawful [((10 : Int), "123456"), (15, "321654"), (42, "987654")] ↔
      [(10 : Int), 15, 42].Pairwise (· < ·) := lawful_iff (by decide)

/-- The second element goes behind the first one, and is not found at its index. -/
theorem descending_not_lawful :
    ¬ ∀ writes : List (Int × String), (writes.map Prod.fst).Nodup → Lawful writes := by
  intro h
  have hlawful := h [(15, "321654"), (10, "123456")] (by decide)
  have hascending := ascending_of_lawful (by decide) hlawful
  exact absurd hascending (by decide)

end FyS.Common.BoundaryMap
