import Mathlib.Data.List.Nodup
import Mathlib.Order.Lattice

/-!
# Maps ordered by their keys

A finite map as the list of its entries in strictly increasing order of the
keys, with assignment and the search for the first key that is not below a
given one.
-/

namespace FyS.Library

universe u v

structure OrderedMap (κ : Type u) (ν : Type v) [LinearOrder κ] where
  entries : List (κ × ν)
  sorted : entries.Pairwise fun a b => a.1 < b.1

namespace OrderedMap

variable {κ : Type u} {ν : Type v} [LinearOrder κ]

def empty : OrderedMap κ ν := ⟨[], .nil⟩

theorem eq_of_mem {m : OrderedMap κ ν} {e e' : κ × ν} (he : e ∈ m.entries) (he' : e' ∈ m.entries)
    (hkey : e.1 = e'.1) : e = e' := by
  have hnodup : (m.entries.map Prod.fst).Nodup := by
    unfold List.Nodup
    rw [List.pairwise_map]
    exact m.sorted.imp fun hlt => hlt.ne
  exact List.inj_on_of_nodup_map hnodup he he' hkey

def assignIn (key : κ) (value : ν) : List (κ × ν) → List (κ × ν)
  | [] => [(key, value)]
  | e :: rest =>
    if key < e.1 then (key, value) :: e :: rest
    else if key = e.1 then (key, value) :: rest
    else e :: assignIn key value rest

theorem mem_assignIn_iff {key : κ} {value : ν} {entries : List (κ × ν)}
    (h : entries.Pairwise fun a b => a.1 < b.1) {e : κ × ν} :
    e ∈ assignIn key value entries ↔ e = (key, value) ∨ e ∈ entries ∧ e.1 ≠ key := by
  induction entries with
  | nil => simp [assignIn]
  | cons first rest ih =>
      rw [List.pairwise_cons] at h
      rw [assignIn]
      split_ifs with hlt heq
      · have hother : ∀ e ∈ first :: rest, e.1 ≠ key := by
          intro e he
          rcases List.mem_cons.mp he with rfl | he
          · exact hlt.ne'
          · exact (hlt.trans (h.1 e he)).ne'
        rw [List.mem_cons]
        constructor
        · rintro (hnew | he)
          · exact .inl hnew
          · exact .inr ⟨he, hother e he⟩
        · rintro (hnew | ⟨he, -⟩)
          · exact .inl hnew
          · exact .inr he
      · rw [List.mem_cons, List.mem_cons]
        constructor
        · rintro (hnew | he)
          · exact .inl hnew
          · exact .inr ⟨.inr he, (heq ▸ h.1 e he).ne'⟩
        · rintro (hnew | ⟨rfl | he, hne⟩)
          · exact .inl hnew
          · exact absurd heq.symm hne
          · exact .inr he
      · rw [List.mem_cons, List.mem_cons, ih h.2]
        constructor
        · rintro (rfl | hnew | ⟨he, hne⟩)
          · exact .inr ⟨.inl rfl, Ne.symm heq⟩
          · exact .inl hnew
          · exact .inr ⟨.inr he, hne⟩
        · rintro (hnew | ⟨hfirst | he, hne⟩)
          · exact .inr (.inl hnew)
          · exact .inl hfirst
          · exact .inr (.inr ⟨he, hne⟩)

theorem sorted_assignIn (key : κ) (value : ν) {entries : List (κ × ν)}
    (h : entries.Pairwise fun a b => a.1 < b.1) :
    (assignIn key value entries).Pairwise fun a b => a.1 < b.1 := by
  induction entries with
  | nil => exact List.pairwise_singleton _ _
  | cons first rest ih =>
      have hall := h
      rw [List.pairwise_cons] at h
      rw [assignIn]
      split_ifs with hlt heq
      · rw [List.pairwise_cons]
        refine ⟨?_, hall⟩
        intro e he
        rcases List.mem_cons.mp he with rfl | he
        · exact hlt
        · exact hlt.trans (h.1 e he)
      · rw [List.pairwise_cons]
        refine ⟨?_, h.2⟩
        intro e he
        exact heq ▸ h.1 e he
      · rw [List.pairwise_cons]
        refine ⟨?_, ih h.2⟩
        intro e he
        rcases (mem_assignIn_iff h.2).mp he with rfl | ⟨he, -⟩
        · exact lt_of_le_of_ne (not_lt.mp hlt) (Ne.symm heq)
        · exact h.1 e he

def assign (key : κ) (value : ν) (m : OrderedMap κ ν) : OrderedMap κ ν :=
  ⟨assignIn key value m.entries, sorted_assignIn key value m.sorted⟩

def lowerBound (key : κ) (m : OrderedMap κ ν) : Option (κ × ν) :=
  m.entries.find? fun e => key ≤ e.1

theorem mem_assign_iff {key : κ} {value : ν} {m : OrderedMap κ ν} {e : κ × ν} :
    e ∈ (m.assign key value).entries ↔ e = (key, value) ∨ e ∈ m.entries ∧ e.1 ≠ key :=
  mem_assignIn_iff m.sorted

theorem entries_assign_of_lt {key : κ} {value : ν} {m : OrderedMap κ ν}
    (h : ∀ e ∈ m.entries, e.1 < key) :
    (m.assign key value).entries = m.entries ++ [(key, value)] := by
  obtain ⟨entries, sorted⟩ := m
  show assignIn key value entries = entries ++ [(key, value)]
  change ∀ e ∈ entries, e.1 < key at h
  clear sorted
  induction entries with
  | nil => rfl
  | cons first rest ih =>
      have hfirst := h first List.mem_cons_self
      rw [assignIn, if_neg (lt_asymm hfirst), if_neg hfirst.ne',
        ih fun e he => h e (List.mem_cons_of_mem _ he)]
      rfl

theorem lowerBound_eq_none_iff {key : κ} {m : OrderedMap κ ν} :
    m.lowerBound key = none ↔ ∀ e ∈ m.entries, e.1 < key := by
  simp [lowerBound, List.find?_eq_none]

/-- The entry that is found has the least key of those not below. -/
theorem lowerBound_eq_some_iff {key : κ} {m : OrderedMap κ ν} {e : κ × ν} :
    m.lowerBound key = some e ↔
      e ∈ m.entries ∧ key ≤ e.1 ∧ ∀ e' ∈ m.entries, e' ≠ e → key ≤ e'.1 → e.1 < e'.1 := by
  obtain ⟨entries, sorted⟩ := m
  show entries.find? (fun e => decide (key ≤ e.1)) = some e ↔ e ∈ entries ∧ key ≤ e.1 ∧
    ∀ e' ∈ entries, e' ≠ e → key ≤ e'.1 → e.1 < e'.1
  induction entries with
  | nil => simp
  | cons first rest ih =>
      rw [List.pairwise_cons] at sorted
      rw [List.find?_cons]
      by_cases hfirst : key ≤ first.1
      · simp only [hfirst, decide_true]
        constructor
        · intro heq
          obtain rfl := Option.some.inj heq
          refine ⟨List.mem_cons_self, hfirst, ?_⟩
          intro e' he' hne _
          rcases List.mem_cons.mp he' with rfl | he'
          · exact absurd rfl hne
          · exact sorted.1 e' he'
        · rintro ⟨he, hle, hleast⟩
          by_cases heq : first = e
          · rw [heq]
          · have hback := hleast first List.mem_cons_self heq hfirst
            rcases List.mem_cons.mp he with rfl | he
            · exact absurd rfl heq
            · exact absurd (sorted.1 e he) (lt_asymm hback)
      · simp only [hfirst, decide_false]
        rw [ih sorted.2]
        constructor
        · rintro ⟨he, hle, hleast⟩
          refine ⟨List.mem_cons_of_mem _ he, hle, ?_⟩
          intro e' he' hne hle'
          rcases List.mem_cons.mp he' with rfl | he'
          · exact absurd hle' hfirst
          · exact hleast e' he' hne hle'
        · rintro ⟨he, hle, hleast⟩
          rcases List.mem_cons.mp he with rfl | he
          · exact absurd hle hfirst
          · refine ⟨he, hle, ?_⟩
            intro e' he'
            exact hleast e' (List.mem_cons_of_mem _ he')

end OrderedMap

end FyS.Library
