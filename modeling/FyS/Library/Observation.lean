import Mathlib.Data.List.Basic

/-!
# What a machine lets its environment see

A machine answers each input.  Two machines related by a simulation answer
alike; where the relation breaks at certain inputs only, and their answers then
differ, they answer alike exactly along the sequences that avoid such inputs.
-/

namespace FyS.Library.Observation

universe u v w x

variable {ι : Type u} {ο : Type v} {σ : Type w} {τ : Type x}

def observe (step : σ → ι → ο × σ) : σ → List ι → List ο
  | _, [] => []
  | s, i :: is => (step s i).1 :: observe step (step s i).2 is

def after (step : σ → ι → ο × σ) (s : σ) (is : List ι) : σ :=
  is.foldl (fun s i => (step s i).2) s

def Along (step : σ → ι → ο × σ) (ok : σ → ι → Prop) : σ → List ι → Prop
  | _, [] => True
  | s, i :: is => ok s i ∧ Along step ok (step s i).2 is

theorem along_append {step : σ → ι → ο × σ} {ok : σ → ι → Prop} {s : σ} {is js : List ι} :
    Along step ok s (is ++ js) ↔ Along step ok s is ∧ Along step ok (after step s is) js := by
  induction is generalizing s with
  | nil => simp [Along, after]
  | cons i is ih =>
      rw [List.cons_append, Along, Along, ih, and_assoc]
      rfl

variable {step : σ → ι → ο × σ} {step' : τ → ι → ο × τ} {R : σ → τ → Prop} {ok : τ → ι → Prop}

/-- Along sequences of the domain, answers agree exactly along the allowed ones. -/
theorem observe_eq_iff_of_along (dom : τ → ι → Prop)
    (hsame : ∀ s t i, R s t → dom t i → ok t i →
      (step s i).1 = (step' t i).1 ∧ R (step s i).2 (step' t i).2)
    (hdiff : ∀ s t i, R s t → dom t i → ¬ ok t i → (step s i).1 ≠ (step' t i).1) {s : σ} {t : τ}
    (h : R s t) (is : List ι) (hdom : Along step' dom t is) :
    observe step s is = observe step' t is ↔ Along step' ok t is := by
  induction is generalizing s t with
  | nil => simp [observe, Along]
  | cons i is ih =>
      obtain ⟨hfirst, hrest⟩ := hdom
      rw [observe, observe, Along, List.cons.injEq]
      by_cases hok : ok t i
      · obtain ⟨hanswer, hnext⟩ := hsame s t i h hfirst hok
        rw [ih hnext hrest]
        simp [hanswer, hok]
      · constructor
        · rintro ⟨hanswer, -⟩
          exact absurd hanswer (hdiff s t i h hfirst hok)
        · rintro ⟨hok', -⟩
          exact absurd hok' hok

theorem along_true {s : σ} (is : List ι) : Along step (fun _ _ => True) s is := by
  induction is generalizing s with
  | nil => trivial
  | cons i is ih => exact ⟨trivial, ih⟩

theorem observe_eq_iff
    (hsame : ∀ s t i, R s t → ok t i →
      (step s i).1 = (step' t i).1 ∧ R (step s i).2 (step' t i).2)
    (hdiff : ∀ s t i, R s t → ¬ ok t i → (step s i).1 ≠ (step' t i).1) {s : σ} {t : τ}
    (h : R s t) (is : List ι) :
    observe step s is = observe step' t is ↔ Along step' ok t is := by
  apply observe_eq_iff_of_along (fun _ _ => True) (R := R)
  · intro s t i hR _
    exact hsame s t i hR
  · intro s t i hR _
    exact hdiff s t i hR
  · exact h
  · exact along_true is

/-- Under a simulation all answers agree. -/
theorem observe_eq
    (hsame : ∀ s t i, R s t → (step s i).1 = (step' t i).1 ∧ R (step s i).2 (step' t i).2)
    {s : σ} {t : τ} (h : R s t) (is : List ι) : observe step s is = observe step' t is := by
  induction is generalizing s t with
  | nil => rfl
  | cons i is ih =>
      obtain ⟨hanswer, hnext⟩ := hsame s t i h
      rw [observe, observe, hanswer, ih hnext]

theorem after_rel
    (hsame : ∀ s t i, R s t → (step s i).1 = (step' t i).1 ∧ R (step s i).2 (step' t i).2)
    {s : σ} {t : τ} (h : R s t) (is : List ι) : R (after step s is) (after step' t is) := by
  induction is generalizing s t with
  | nil => exact h
  | cons i is ih => exact ih (hsame s t i h).2

theorem after_append (step : σ → ι → ο × σ) (s : σ) (is js : List ι) :
    after step s (is ++ js) = after step (after step s is) js := List.foldl_append

theorem after_keeps {step : σ → ι → ο × σ} {I : σ → Prop} (hstep : ∀ s i, I s → I (step s i).2)
    {s : σ} (h : I s) (is : List ι) : I (after step s is) := by
  induction is generalizing s with
  | nil => exact h
  | cons i is ih => exact ih (hstep s i h)

end FyS.Library.Observation
