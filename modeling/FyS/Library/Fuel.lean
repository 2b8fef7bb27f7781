import Mathlib.Logic.Basic
import Mathlib.Order.Basic

/-!
# Fuelled recursions

A recursion with no syntactic measure is embedded as a function of a fuel
counter whose base case answers a distinguished error.  `Returns` is what
"the call returns" means for such a function, and `Stable` is the only fact
about the counter the other modules use: extra fuel never changes an answer.
-/

namespace FyS.Library.Fuel

universe u v

variable {ε : Type v} {α β : Type u} {out : ε}

@[simp] theorem ok_bind (a : α) (f : α → Except ε β) : (Except.ok a >>= f) = f a := rfl

@[simp] theorem error_bind (e : ε) (f : α → Except ε β) :
    (Except.error e >>= f) = .error e := rfl

theorem bind_eq_ok {x : Except ε α} {f : α → Except ε β} {b : β} :
    x >>= f = .ok b ↔ ∃ a, x = .ok a ∧ f a = .ok b := by
  cases x with
  | error e => simp
  | ok a => simp

theorem foldlM_keeps {σ : Type u} {f : σ → α → Except ε σ} {P : σ → Prop}
    (hstep : ∀ s a s', f s a = .ok s' → P s → P s') {l : List α} {s s' : σ}
    (h : l.foldlM f s = .ok s') (hs : P s) : P s' := by
  induction l generalizing s with
  | nil =>
      rw [← Except.ok.inj h]
      exact hs
  | cons a rest ih =>
      rw [List.foldlM_cons] at h
      obtain ⟨next, hfirst, hrest⟩ := bind_eq_ok.mp h
      exact ih hrest (hstep s a next hfirst hs)

/-- Any answer other than running out is kept by every larger amount of fuel. -/
def Stable (out : ε) (f : Nat → Except ε α) : Prop :=
  ∀ n m, n ≤ m → f n ≠ .error out → f m = f n

def Returns (f : Nat → Except ε α) (r : α) : Prop := ∃ n, f n = .ok r

/-- A recursion is stable when its answers rely on no more than those with less fuel. -/
theorem stable_of_succ {σ : Type u} {f : σ → Nat → Except ε α} (hzero : ∀ s, f s 0 = .error out)
    (hsucc : ∀ n s, (∀ t m, n ≤ m → f t n ≠ .error out → f t m = f t n) → ∀ m, n ≤ m →
      f s (n + 1) ≠ .error out → f s (m + 1) = f s (n + 1)) (s : σ) : Stable out (f s) := by
  intro n
  induction n generalizing s with
  | zero => exact fun m _ hne => absurd (hzero s) hne
  | succ n ih =>
      intro m hnm hne
      cases m with
      | zero => omega
      | succ m => exact hsucc n s ih m (by omega) hne

theorem Stable.const (r : Except ε α) : Stable out (fun _ => r) :=
  fun _ _ _ _ => rfl

theorem Stable.ok_mono {f : Nat → Except ε α} (hf : Stable out f) {n m : Nat} {r : α}
    (hnm : n ≤ m) (hr : f n = .ok r) : f m = .ok r := by
  rw [hf n m hnm (by rw [hr]; exact fun h => nomatch h), hr]

/-- With more fuel for a stable call and for what follows it, the answer of
the sequence stays, unless it had run out. -/
theorem Stable.bind_le {f : Nat → Except ε α} {g g' : α → Except ε β}
    (hf : Stable out f) {n m : Nat} (hnm : n ≤ m)
    (hg : ∀ a, g a ≠ .error out → g' a = g a) (hne : f n >>= g ≠ .error out) :
    f m >>= g' = f n >>= g := by
  cases hn : f n with
  | error e =>
      have he : e ≠ out := by
        rintro rfl
        exact hne (by simp [hn])
      have hm : f m = .error e := by
        rw [hf n m hnm (by rw [hn]; exact fun h => he (Except.error.inj h)), hn]
      simp [hm]
  | ok a =>
      rw [hn] at hne
      rw [hf.ok_mono hnm hn]
      exact hg a hne

theorem Stable.bind {f : Nat → Except ε α} {g : α → Nat → Except ε β}
    (hf : Stable out f) (hg : ∀ a, Stable out (g a)) :
    Stable out (fun n => f n >>= fun a => g a n) :=
  fun n m hnm hne => hf.bind_le hnm (fun a => hg a n m hnm) hne

/-- A stable call returns at most one value. -/
theorem Returns.unique {f : Nat → Except ε α} (hf : Stable out f) {a b : α}
    (ha : Returns f a) (hb : Returns f b) : a = b := by
  obtain ⟨n, hn⟩ := ha
  obtain ⟨m, hm⟩ := hb
  have hn' := hf.ok_mono (Nat.le_max_left n m) hn
  have hm' := hf.ok_mono (Nat.le_max_right n m) hm
  exact Except.ok.inj (hn'.symm.trans hm')

theorem Returns.error_eq {f : Nat → Except ε α} (hf : Stable out f) {r : α}
    (hr : Returns f r) {n : Nat} {e : ε} (hn : f n = .error e) : e = out := by
  by_contra he
  obtain ⟨m, hm⟩ := hr
  have hmax := hf.ok_mono (Nat.le_max_right n m) hm
  have hkeep := hf n (max n m) (Nat.le_max_left n m)
    (by rw [hn]; exact fun h => he (Except.error.inj h))
  rw [hn, hmax] at hkeep
  exact nomatch hkeep

/-- A sequence of two calls returns exactly when both calls do. -/
theorem Returns.bind_iff {f : Nat → Except ε α} {g : α → Nat → Except ε β}
    (hf : Stable out f) (hg : ∀ a, Stable out (g a)) {b : β} :
    Returns (fun n => f n >>= fun a => g a n) b ↔
      ∃ a, Returns f a ∧ Returns (g a) b := by
  constructor
  · rintro ⟨n, hn⟩
    obtain ⟨a, ha, hb⟩ := bind_eq_ok.mp hn
    exact ⟨a, ⟨n, ha⟩, ⟨n, hb⟩⟩
  · rintro ⟨a, ⟨n, hn⟩, ⟨m, hm⟩⟩
    refine ⟨max n m, bind_eq_ok.mpr ⟨a, ?_, ?_⟩⟩
    · exact hf.ok_mono (Nat.le_max_left n m) hn
    · exact (hg a).ok_mono (Nat.le_max_right n m) hm

end FyS.Library.Fuel
