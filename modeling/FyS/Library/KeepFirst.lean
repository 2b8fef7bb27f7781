import Mathlib.Data.List.Basic

/-!
# Insertions that keep what is there

A map as a function from keys.  An insertion under a key that is taken changes
nothing, so the map holds the first value that was inserted under each key.
-/

namespace FyS.Library.KeepFirst

universe u v

variable {κ : Type u} {ν : Type v} [DecidableEq κ]

def insert (e : κ × ν) (map : κ → Option ν) : κ → Option ν :=
  fun key => (map key).or (if key = e.1 then some e.2 else none)

def insertAll (entries : List (κ × ν)) (map : κ → Option ν) : κ → Option ν :=
  entries.foldl (fun map e => insert e map) map

variable {map : κ → Option ν} {entries wanted : List (κ × ν)} {key : κ}

theorem insertAll_append (entries rest : List (κ × ν)) (map : κ → Option ν) :
    insertAll (entries ++ rest) map = insertAll rest (insertAll entries map) :=
  List.foldl_append

theorem insertAll_eq (entries : List (κ × ν)) (map : κ → Option ν) (key : κ) :
    insertAll entries map key =
      (map key).or ((entries.find? fun e => key = e.1).map Prod.snd) := by
  induction entries generalizing map with
  | nil => simp [insertAll]
  | cons e rest ih =>
      show insertAll rest (insert e map) key = _
      rw [ih, insert, Option.or_assoc, List.find?_cons]
      by_cases hkey : key = e.1
      · simp [hkey]
      · simp [hkey]

theorem mem_of_insertAll {value : ν} (h : insertAll entries (fun _ => none) key = some value) :
    (key, value) ∈ entries := by
  rw [insertAll_eq, Option.none_or, Option.map_eq_some_iff] at h
  obtain ⟨⟨k, v⟩, hfind, rfl⟩ := h
  have hkey : key = k := by simpa using List.find?_some hfind
  rw [hkey]
  exact List.mem_of_find?_eq_some hfind

theorem exists_of_mem {e : κ × ν} (he : e ∈ entries) :
    ∃ value, insertAll entries (fun _ => none) e.1 = some value := by
  rw [insertAll_eq, Option.none_or]
  cases hfind : entries.find? fun e' => e.1 = e'.1 with
  | none => exact absurd (decide_eq_true rfl) (List.find?_eq_none.mp hfind e he)
  | some found => exact ⟨found.2, rfl⟩

/-- Of the wanted entries some were inserted.  The map holds all that are wanted
exactly when no two of them disagree and each has an entry inserted under its key. -/
theorem holds_iff (hsub : ∀ e ∈ entries, e ∈ wanted) :
    (∀ e ∈ wanted, insertAll entries (fun _ => none) e.1 = some e.2) ↔
      (∀ e ∈ wanted, ∀ e' ∈ wanted, e.1 = e'.1 → e.2 = e'.2) ∧
        ∀ e ∈ wanted, ∃ e' ∈ entries, e'.1 = e.1 := by
  constructor
  · intro h
    constructor
    · intro e he e' he' hkey
      have hvalue := h e he
      rw [hkey, h e' he'] at hvalue
      exact (Option.some.inj hvalue).symm
    · intro e he
      exact ⟨_, mem_of_insertAll (h e he), rfl⟩
  · rintro ⟨hagree, htaken⟩ e he
    obtain ⟨e', he', hkey⟩ := htaken e he
    obtain ⟨value, hvalue⟩ := exists_of_mem he'
    rw [hkey] at hvalue
    rw [hvalue, ← hagree _ (hsub _ (mem_of_insertAll hvalue)) e he rfl]

end FyS.Library.KeepFirst
