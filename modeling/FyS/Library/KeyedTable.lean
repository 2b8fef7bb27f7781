import Mathlib.Data.List.Dedup
import Mathlib.Data.List.Induction

/-!
# Tables with one row for each key

A row that is written replaces the row of its key, or is appended.  What a
sequence of writes leaves is, for each key that was written, the last row
written under it.
-/

namespace FyS.Library.KeyedTable

universe u v

variable {ρ : Type u} {κ : Type v} [DecidableEq κ]

def upsert (key : ρ → κ) (row : ρ) : List ρ → List ρ
  | [] => [row]
  | r :: rs => if key r = key row then row :: rs else r :: upsert key row rs

def table (key : ρ → κ) (writes : List ρ) : List ρ :=
  writes.foldl (fun rows row => upsert key row rows) []

def lastOf (key : ρ → κ) (k : κ) (writes : List ρ) : Option ρ :=
  writes.reverse.find? fun row => key row = k

def writtenKeys (key : ρ → κ) (writes : List ρ) : List κ := (writes.map key).dedup

variable {key : ρ → κ}

theorem table_append (writes : List ρ) (row : ρ) :
    table key (writes ++ [row]) = upsert key row (table key writes) := by
  rw [table, List.foldl_append]
  rfl

theorem lastOf_append (k : κ) (writes : List ρ) (row : ρ) :
    lastOf key k (writes ++ [row]) = if key row = k then some row else lastOf key k writes := by
  rw [lastOf, List.reverse_append, List.reverse_singleton, List.singleton_append, List.find?_cons]
  by_cases hkey : key row = k
  · simp [hkey]
  · simp [hkey, lastOf]

theorem mem_keys_upsert {row : ρ} {rows : List ρ} {k : κ} :
    k ∈ (upsert key row rows).map key ↔ k = key row ∨ k ∈ rows.map key := by
  induction rows with
  | nil => simp [upsert]
  | cons r rs ih =>
      by_cases hkey : key r = key row
      · rw [upsert, if_pos hkey, List.map_cons, List.map_cons, List.mem_cons, List.mem_cons, hkey,
          or_self_left]
      · rw [upsert, if_neg hkey, List.map_cons, List.map_cons, List.mem_cons, List.mem_cons, ih,
          or_left_comm]

theorem map_upsert {row : ρ} {rows : List ρ} :
    (upsert key row rows).map key =
      if key row ∈ rows.map key then rows.map key else rows.map key ++ [key row] := by
  induction rows with
  | nil => rfl
  | cons r rs ih =>
      by_cases hkey : key r = key row
      · rw [upsert, if_pos hkey, List.map_cons, List.map_cons, hkey,
          if_pos List.mem_cons_self]
      · have hmem : key row ∈ (r :: rs).map key ↔ key row ∈ rs.map key := by
          rw [List.map_cons, List.mem_cons, or_iff_right (Ne.symm hkey)]
        rw [upsert, if_neg hkey, List.map_cons, ih, if_congr hmem rfl rfl]
        split_ifs <;> rfl

theorem nodup_upsert {row : ρ} {rows : List ρ} (h : (rows.map key).Nodup) :
    ((upsert key row rows).map key).Nodup := by
  induction rows with
  | nil => simp [upsert]
  | cons r rs ih =>
      rw [List.map_cons, List.nodup_cons] at h
      by_cases hkey : key r = key row
      · rw [upsert, if_pos hkey, List.map_cons, List.nodup_cons, ← hkey]
        exact h
      · rw [upsert, if_neg hkey, List.map_cons, List.nodup_cons, mem_keys_upsert, not_or]
        exact ⟨⟨hkey, h.1⟩, ih h.2⟩

theorem mem_upsert_iff {row r : ρ} {rows : List ρ} (h : (rows.map key).Nodup) :
    r ∈ upsert key row rows ↔ r = row ∨ r ∈ rows ∧ key r ≠ key row := by
  induction rows with
  | nil => simp [upsert]
  | cons s rs ih =>
      rw [List.map_cons, List.nodup_cons] at h
      by_cases hkey : key s = key row
      · have hother : ∀ r ∈ rs, key r ≠ key row := by
          intro r hr heq
          apply h.1
          rw [hkey, ← heq]
          exact List.mem_map_of_mem hr
        rw [upsert, if_pos hkey, List.mem_cons, List.mem_cons]
        constructor
        · rintro (heq | hr)
          · exact .inl heq
          · exact .inr ⟨.inr hr, hother r hr⟩
        · rintro (heq | ⟨rfl | hr, hne⟩)
          · exact .inl heq
          · exact absurd hkey hne
          · exact .inr hr
      · rw [upsert, if_neg hkey, List.mem_cons, List.mem_cons, ih h.2]
        constructor
        · rintro (rfl | heq | ⟨hr, hne⟩)
          · exact .inr ⟨.inl rfl, hkey⟩
          · exact .inl heq
          · exact .inr ⟨.inr hr, hne⟩
        · rintro (heq | ⟨heq | hr, hne⟩)
          · exact .inr (.inl heq)
          · exact .inl heq
          · exact .inr (.inr ⟨hr, hne⟩)

theorem nodup_table (writes : List ρ) : ((table key writes).map key).Nodup := by
  induction writes using List.reverseRecOn with
  | nil => exact List.nodup_nil
  | append_singleton writes row ih =>
      rw [table_append]
      exact nodup_upsert ih

/-- The rows of a table are the last ones written under their keys. -/
theorem mem_table_iff {writes : List ρ} {r : ρ} :
    r ∈ table key writes ↔ lastOf key (key r) writes = some r := by
  induction writes using List.reverseRecOn with
  | nil => simp [table, lastOf]
  | append_singleton writes row ih =>
      rw [table_append, mem_upsert_iff (nodup_table writes), lastOf_append, ih]
      by_cases hkey : key row = key r
      · rw [if_pos hkey]
        constructor
        · rintro (heq | ⟨-, hne⟩)
          · rw [heq]
          · exact absurd hkey.symm hne
        · intro heq
          exact .inl (Option.some.inj heq).symm
      · rw [if_neg hkey]
        constructor
        · rintro (heq | ⟨hlast, -⟩)
          · exact absurd (congrArg key heq).symm hkey
          · exact hlast
        · intro hlast
          exact .inr ⟨hlast, fun heq => hkey heq.symm⟩

theorem keys_table_perm (writes : List ρ) :
    ((table key writes).map key).Perm (writtenKeys key writes) := by
  unfold writtenKeys
  rw [List.perm_ext_iff_of_nodup (nodup_table writes) (List.nodup_dedup _)]
  intro k
  rw [List.mem_dedup]
  induction writes using List.reverseRecOn with
  | nil => rfl
  | append_singleton writes row ih =>
      rw [table_append, mem_keys_upsert, ih, List.map_append, List.mem_append, or_comm]
      simp

theorem find_of_mem {rows : List ρ} (h : (rows.map key).Nodup) {r : ρ} (hr : r ∈ rows) :
    rows.find? (fun row => key row = key r) = some r := by
  induction rows with
  | nil => cases hr
  | cons s rs ih =>
      rw [List.map_cons, List.nodup_cons] at h
      rw [List.find?_cons]
      rcases List.mem_cons.mp hr with rfl | hr
      · simp
      · have hne : key s ≠ key r := by
          intro heq
          exact h.1 (heq ▸ List.mem_map_of_mem hr)
        simp only [hne, decide_false]
        exact ih h.2 hr

omit [DecidableEq κ] in
theorem map_key_set {rows : List ρ} {index : Nat} {r r' : ρ} (hr : rows[index]? = some r)
    (hkey : key r' = key r) : (rows.set index r').map key = rows.map key := by
  induction rows generalizing index with
  | nil => rfl
  | cons s rs ih =>
      cases index with
      | zero =>
          obtain rfl : s = r := Option.some.inj hr
          rw [List.set_cons_zero, List.map_cons, List.map_cons, hkey]
      | succ index => rw [List.set_cons_succ, List.map_cons, List.map_cons, ih hr]

theorem find_set {rows : List ρ} {index : Nat} {r r' : ρ} (h : (rows.map key).Nodup)
    (hr : rows[index]? = some r) (hkey : key r' = key r) (k : κ) :
    (rows.set index r').find? (fun row => key row = k) =
      if k = key r then some r' else rows.find? (fun row => key row = k) := by
  induction rows generalizing index with
  | nil => cases hr
  | cons s rs ih =>
      obtain ⟨hfresh, hrest⟩ := List.nodup_cons.mp (List.map_cons ▸ h)
      cases index with
      | zero =>
          obtain rfl : s = r := Option.some.inj hr
          rw [List.set_cons_zero, List.find?_cons, List.find?_cons, hkey]
          by_cases hk : k = key s
          · simp [hk]
          · simp [hk, Ne.symm hk]
      | succ index =>
          rw [List.getElem?_cons_succ] at hr
          rw [List.set_cons_succ, List.find?_cons, List.find?_cons, ih hrest hr]
          by_cases hk : key s = k
          · have hne : k ≠ key r := by
              rintro rfl
              exact hfresh (hk ▸ List.mem_map_of_mem (List.mem_of_getElem? hr))
            simp [hk, hne]
          · simp [hk]

end FyS.Library.KeyedTable
