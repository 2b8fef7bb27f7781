import Mathlib.Data.List.Forall2

/-!
# Lists related element by element
-/

namespace FyS.Library.Pointwise

universe u v w

variable {α : Type u} {β : Type v} {γ : Type w} {R : α → β → Prop} {S : β → γ → Prop}
  {T : α → γ → Prop}

theorem forall₂_trans (h : ∀ a b c, R a b → S b c → T a c) {l : List α} {m : List β} {n : List γ}
    (hlm : List.Forall₂ R l m) (hmn : List.Forall₂ S m n) : List.Forall₂ T l n := by
  induction hlm generalizing n with
  | nil =>
      cases hmn
      exact .nil
  | cons hab _ ih =>
      cases hmn with
      | cons hbc hrest => exact .cons (h _ _ _ hab hbc) (ih hrest)

theorem exists_of_mem_left {l : List α} {m : List β} (h : List.Forall₂ R l m) {a : α}
    (ha : a ∈ l) : ∃ b ∈ m, R a b := by
  induction h with
  | nil => cases ha
  | cons hab _ ih =>
      rcases List.mem_cons.mp ha with rfl | ha
      · exact ⟨_, List.mem_cons_self, hab⟩
      · obtain ⟨b, hb, hrel⟩ := ih ha
        exact ⟨b, List.mem_cons_of_mem _ hb, hrel⟩

theorem exists_of_mem_right {l : List α} {m : List β} (h : List.Forall₂ R l m) {b : β}
    (hb : b ∈ m) : ∃ a ∈ l, R a b := exists_of_mem_left h.flip hb

theorem forall₂_map {R : α → α → Prop} {f : α → α} {l : List α} (h : ∀ a ∈ l, R a (f a)) :
    List.Forall₂ R l (l.map f) := by
  rw [List.forall₂_map_right_iff, List.forall₂_same]
  exact h

end FyS.Library.Pointwise
