import Mathlib.Data.List.Induction

/-!
# Last writes

A run of writes, each to a place.  What a write left is there at the end as long as
no later one went to the same place, provided that writes do not disturb each other
elsewhere.
-/

namespace FyS.Library.LastWrites

universe u v w

variable {σ : Type u} {ω : Type v} {κ : Type w}

def HoldsLast (place : ω → κ) (Held : ω → σ → Prop) (writes : List ω) (s : σ) : Prop :=
  ∀ before write after, writes = before ++ write :: after →
    (∀ later ∈ after, place later ≠ place write) → Held write s

variable {place : ω → κ} {Held : ω → σ → Prop} {step : σ → ω → σ}

theorem holdsLast_nil (s : σ) : HoldsLast place Held [] s := by
  intro before write after hsplit
  simp at hsplit

theorem HoldsLast.last {writes : List ω} {write : ω} {s : σ}
    (h : HoldsLast place Held (writes ++ [write]) s) : Held write s := by
  apply h writes write [] rfl
  intro later hlater
  cases hlater

theorem HoldsLast.concat {writes : List ω} {write : ω} {s s' : σ}
    (h : HoldsLast place Held writes s) (hwrite : Held write s')
    (hframe : ∀ other, Held other s → place write ≠ place other → Held other s') :
    HoldsLast place Held (writes ++ [write]) s' := by
  intro before other after hsplit hlast
  rcases List.eq_nil_or_concat after with hafter | ⟨rest, last, hafter⟩
  · rw [hafter] at hsplit
    have hother := (List.append_inj' hsplit rfl).2
    rw [← List.singleton_inj.mp hother]
    exact hwrite
  · rw [hafter, List.concat_eq_append] at hsplit hlast
    rw [← List.cons_append, ← List.append_assoc] at hsplit
    obtain ⟨hwrites, hwriteLast⟩ := List.append_inj' hsplit rfl
    rw [List.forall_mem_append, List.forall_mem_singleton] at hlast
    rw [← List.singleton_inj.mp hwriteLast] at hlast
    exact hframe other (h before other rest hwrites hlast.1) hlast.2

/-- All along a run the last writes are to be found, exactly when each write is right after. -/
theorem runs_holdLast_iff
    (hframe : ∀ write other s, Held other s → place write ≠ place other → Held other (step s write))
    (writes : List ω) (s : σ) :
    (∀ before after, writes = before ++ after →
        HoldsLast place Held before (before.foldl step s)) ↔
      ∀ before write after, writes = before ++ write :: after →
        Held write (step (before.foldl step s) write) := by
  constructor
  · intro h before write after hsplit
    rw [← List.singleton_append, ← List.append_assoc] at hsplit
    have hlast := (h (before ++ [write]) after hsplit).last
    rw [List.foldl_append] at hlast
    exact hlast
  · intro h before
    induction before using List.reverseRecOn with
    | nil => exact fun _ _ => holdsLast_nil s
    | append_singleton before write ih =>
        intro after hsplit
        rw [List.append_assoc, List.singleton_append] at hsplit
        rw [List.foldl_append]
        exact (ih _ hsplit).concat (h before write after hsplit)
          fun other hother hne => hframe write other _ hother hne

end FyS.Library.LastWrites
