import Mathlib.Algebra.Order.Ring.Abs
import Mathlib.Algebra.Order.Ring.Rat
import Mathlib.Tactic.Linarith

/-!
# Floating-point numbers

What a floating-point variable holds, the operations without rounding, and a rounding after
them.  A rounded result compares with a value of the format as the exact one does, unless it
is that value.
-/

namespace FyS.Library

/-- A number, an infinity or NaN.  The two zeros are equal and not told apart. -/
inductive Value where
  | negInf
  | number (q : ℚ)
  | posInf
  | nan
deriving Repr, DecidableEq

namespace Value

def lt : Value → Value → Bool
  | number p, number q => decide (p < q)
  | negInf, number _ => true
  | negInf, posInf => true
  | number _, posInf => true
  | _, _ => false

instance : LT Value := ⟨fun a b => a.lt b = true⟩

instance : DecidableLT Value := fun a b => inferInstanceAs (Decidable (a.lt b = true))

def neg : Value → Value
  | negInf => posInf
  | number q => number (-q)
  | posInf => negInf
  | nan => nan

def abs : Value → Value
  | negInf => posInf
  | number q => number |q|
  | posInf => posInf
  | nan => nan

def add : Value → Value → Value
  | number p, number q => number (p + q)
  | nan, _ => nan
  | _, nan => nan
  | negInf, posInf => nan
  | posInf, negInf => nan
  | negInf, _ => negInf
  | _, negInf => negInf
  | posInf, _ => posInf
  | _, posInf => posInf

def sub (a b : Value) : Value := a.add b.neg

def infinite (q : ℚ) : Value := if q < 0 then negInf else if 0 < q then posInf else nan

def mul : Value → Value → Value
  | number p, number q => number (p * q)
  | nan, _ => nan
  | _, nan => nan
  | number p, posInf => infinite p
  | number p, negInf => infinite (-p)
  | posInf, number q => infinite q
  | negInf, number q => infinite (-q)
  | posInf, posInf => posInf
  | negInf, negInf => posInf
  | posInf, negInf => negInf
  | negInf, posInf => negInf

@[simp] theorem number_lt_number {p q : ℚ} : number p < number q ↔ p < q := decide_eq_true_iff

theorem lt_irrefl (a : Value) : ¬ a < a := by
  cases a with
  | number q => simp
  | negInf => exact Bool.false_ne_true
  | posInf => exact Bool.false_ne_true
  | nan => exact Bool.false_ne_true

theorem not_lt_negInf (a : Value) : ¬ a < negInf := by
  cases a <;> exact Bool.false_ne_true

theorem not_posInf_lt (a : Value) : ¬ posInf < a := by
  cases a <;> exact Bool.false_ne_true

theorem not_nan_lt (a : Value) : ¬ nan < a := by
  cases a <;> exact Bool.false_ne_true

theorem not_lt_nan (a : Value) : ¬ a < nan := by
  cases a <;> exact Bool.false_ne_true

theorem lt_of_not_lt {a b : Value} (ha : a ≠ nan) (hb : b ≠ nan) (hne : a ≠ b) (h : ¬ b < a) :
    a < b := by
  cases a with
  | nan => exact absurd rfl ha
  | negInf =>
      cases b with
      | negInf => exact absurd rfl hne
      | nan => exact absurd rfl hb
      | number q => rfl
      | posInf => rfl
  | posInf =>
      cases b with
      | posInf => exact absurd rfl hne
      | nan => exact absurd rfl hb
      | number q => exact absurd rfl h
      | negInf => exact absurd rfl h
  | number p =>
      cases b with
      | negInf => exact absurd rfl h
      | nan => exact absurd rfl hb
      | posInf => rfl
      | number q =>
          rw [number_lt_number] at h ⊢
          exact lt_of_le_of_ne (not_lt.mp h) fun heq => hne (congrArg number heq)

theorem abs_sub_lt_iff (a b d : Value) : (a.sub b).abs < d ↔ b.sub d < a ∧ a < b.add d := by
  cases a with
  | number p =>
      cases b with
      | number q =>
          cases d with
          | number r =>
              change number |p + -q| < number r ↔
                number (q + -r) < number p ∧ number p < number (q + r)
              rw [number_lt_number, number_lt_number, number_lt_number, abs_lt]
              constructor
              · rintro ⟨hleft, hright⟩
                exact ⟨by linarith, by linarith⟩
              · rintro ⟨hleft, hright⟩
                exact ⟨by linarith, by linarith⟩
          | _ => simp [LT.lt, lt, sub, neg, add, abs]
      | _ => cases d <;> simp [LT.lt, lt, sub, neg, add, abs]
  | _ => cases b <;> cases d <;> simp [LT.lt, lt, sub, neg, add, abs]

theorem abs_sub_symm (a b : Value) : (a.sub b).abs = (b.sub a).abs := by
  cases a with
  | number p =>
      cases b with
      | number q =>
          change number |p + -q| = number |q + -p|
          rw [← sub_eq_add_neg, ← sub_eq_add_neg, abs_sub_comm]
      | _ => rfl
  | _ => cases b <;> rfl

theorem sub_lt_self_iff (a d : Value) : a.sub d < a ↔ a < a.add d := by
  cases a with
  | number p =>
      cases d with
      | number r =>
          change number (p + -r) < number p ↔ number p < number (p + r)
          rw [number_lt_number, number_lt_number]
          constructor <;> intro h <;> linarith
      | _ => simp [LT.lt, lt, sub, neg, add]
  | _ => cases d <;> simp [LT.lt, lt, sub, neg, add]

end Value

/-! ## Roundings -/

/-- How exact results become values of a format: in their order, and the numbers of the format
stay what they are.  Zero and one are such numbers, and with each its negative is. -/
structure Rounding where
  round : ℚ → Value
  round_ne_nan : ∀ q, round q ≠ .nan
  mono : ∀ {p q}, p ≤ q → ¬ round q < round p
  round_round : ∀ {q g}, round q = .number g → round g = .number g
  round_neg : ∀ {q}, round q = .number q → round (-q) = .number (-q)
  round_zero : round 0 = .number 0
  round_one : round 1 = .number 1

namespace Rounding

variable (R : Rounding)

def fl : Value → Value
  | .number q => R.round q
  | v => v

theorem fl_fl (v : Value) : R.fl (R.fl v) = R.fl v := by
  cases v with
  | number q =>
      have hround : R.fl (.number q) = R.round q := rfl
      rw [hround]
      cases h : R.round q with
      | number g => exact R.round_round h
      | _ => rfl
  | _ => rfl

variable {R}

/-- Rounding keeps a result on its side of a value of the format, or moves it there. -/
theorem fl_lt_iff {a x : Value} (hx : R.fl x = x) : R.fl a < x ↔ a < x ∧ R.fl a ≠ x := by
  have hself (b : Value) : b < x ↔ b < x ∧ b ≠ x :=
    ⟨fun h => ⟨h, fun heq => x.lt_irrefl (heq ▸ h)⟩, And.left⟩
  cases a with
  | negInf => exact hself _
  | posInf => exact hself _
  | nan => exact hself _
  | number p =>
      change R.round p < x ↔ Value.number p < x ∧ R.round p ≠ x
      rw [hself (R.round p)]
      refine and_congr_left fun hne => ?_
      cases x with
      | negInf => exact iff_of_false (Value.not_lt_negInf _) (Value.not_lt_negInf _)
      | nan => exact iff_of_false (Value.not_lt_nan _) (Value.not_lt_nan _)
      | posInf =>
          exact iff_of_true (Value.lt_of_not_lt (R.round_ne_nan p) nofun hne nofun) rfl
      | number q =>
          have hq : R.round q = .number q := hx
          rw [Value.number_lt_number]
          constructor
          · intro hlt
            by_contra hle
            have hmono := R.mono (not_lt.mp hle)
            rw [hq] at hmono
            exact hmono hlt
          · intro hlt
            have hmono := R.mono hlt.le
            rw [hq] at hmono
            exact Value.lt_of_not_lt (R.round_ne_nan p) nofun hne hmono

theorem lt_fl_iff {a x : Value} (hx : R.fl x = x) : x < R.fl a ↔ x < a ∧ R.fl a ≠ x := by
  have hself (b : Value) : x < b ↔ x < b ∧ b ≠ x :=
    ⟨fun h => ⟨h, fun heq => x.lt_irrefl (heq ▸ h)⟩, And.left⟩
  cases a with
  | negInf => exact hself _
  | posInf => exact hself _
  | nan => exact hself _
  | number p =>
      change x < R.round p ↔ x < Value.number p ∧ R.round p ≠ x
      rw [hself (R.round p)]
      refine and_congr_left fun hne => ?_
      cases x with
      | posInf => exact iff_of_false (Value.not_posInf_lt _) (Value.not_posInf_lt _)
      | nan => exact iff_of_false (Value.not_nan_lt _) (Value.not_nan_lt _)
      | negInf =>
          exact iff_of_true (Value.lt_of_not_lt nofun (R.round_ne_nan p) hne.symm
            (Value.not_lt_negInf _)) rfl
      | number q =>
          have hq : R.round q = .number q := hx
          rw [Value.number_lt_number]
          constructor
          · intro hlt
            by_contra hle
            have hmono := R.mono (not_lt.mp hle)
            rw [hq] at hmono
            exact hmono hlt
          · intro hlt
            have hmono := R.mono hlt.le
            rw [hq] at hmono
            exact Value.lt_of_not_lt nofun (R.round_ne_nan p) hne.symm hmono

theorem round_between {p q r : ℚ} (hp : R.round p = .number p) (hr : R.round r = .number r)
    (hpq : p ≤ q) (hqr : q ≤ r) : ∃ g, R.round q = .number g ∧ p ≤ g ∧ g ≤ r := by
  have hlow := R.mono hpq
  have hhigh := R.mono hqr
  rw [hp] at hlow
  rw [hr] at hhigh
  cases hq : R.round q with
  | nan => exact absurd hq (R.round_ne_nan q)
  | negInf =>
      rw [hq] at hlow
      exact absurd rfl hlow
  | posInf =>
      rw [hq] at hhigh
      exact absurd rfl hhigh
  | number g =>
      rw [hq, Value.number_lt_number, not_lt] at hlow
      rw [hq, Value.number_lt_number, not_lt] at hhigh
      exact ⟨g, rfl, hlow, hhigh⟩

theorem round_mul {p c : ℚ} (hp : R.round p = .number p) (hc : |c| ≤ 1) :
    ∃ g, R.round (p * c) = .number g ∧ |g| ≤ |p| := by
  have hle : |p * c| ≤ |p| := by
    rw [abs_mul]
    exact mul_le_of_le_one_right (abs_nonneg p) hc
  have habs : R.round |p| = .number |p| := by
    rcases abs_choice p with heq | heq
    · rw [heq, hp]
    · rw [heq, R.round_neg hp]
  obtain ⟨hlow, hhigh⟩ := abs_le.mp hle
  obtain ⟨g, hg, hglow, hghigh⟩ := R.round_between (R.round_neg habs) habs hlow hhigh
  exact ⟨g, hg, abs_le.mpr ⟨hglow, hghigh⟩⟩

end Rounding

/-- A rounding of numbers of which the whole ones are exact. -/
structure WholeRounding where
  round : ℚ → ℚ
  mono : Monotone round
  round_natCast : ∀ n : ℕ, round n = n

namespace WholeRounding

variable (R : WholeRounding) {q : ℚ} {n : ℕ}

theorem le_round (h : (n : ℚ) ≤ q) : (n : ℚ) ≤ R.round q := by
  rw [← R.round_natCast n]
  exact R.mono h

theorem round_le (h : q ≤ n) : R.round q ≤ n := by
  rw [← R.round_natCast n]
  exact R.mono h

end WholeRounding

/-! ## Values of a format -/

structure Floating (R : Rounding) where
  value : Value
  fits : R.fl value = value
deriving DecidableEq

namespace Floating

variable {R : Rounding}

def rounded (v : Value) : Floating R := ⟨R.fl v, R.fl_fl v⟩

instance : Repr (Floating R) := ⟨fun a => reprPrec a.value⟩

instance : Add (Floating R) := ⟨fun a b => rounded (a.value.add b.value)⟩

instance : Sub (Floating R) := ⟨fun a b => rounded (a.value.sub b.value)⟩

instance : Mul (Floating R) := ⟨fun a b => rounded (a.value.mul b.value)⟩

instance : NatCast (Floating R) := ⟨fun n => rounded (.number n)⟩

instance : LT (Floating R) := ⟨fun a b => a.value < b.value⟩

instance : DecidableLT (Floating R) := fun a b => inferInstanceAs (Decidable (a.value < b.value))

variable {a b x : Floating R}

theorem value_inj : a.value = b.value ↔ a = b :=
  ⟨fun h => by cases a; cases b; cases h; rfl, congrArg value⟩

/-- A rounded difference is below a value exactly when the exact one is, unless it is rounded
to that value. -/
theorem sub_lt_iff : a - b < x ↔ a.value.sub b.value < x.value ∧ a - b ≠ x := by
  rw [Ne, ← value_inj]
  exact Rounding.fl_lt_iff x.fits

theorem lt_add_iff : x < a + b ↔ x.value < a.value.add b.value ∧ a + b ≠ x := by
  rw [Ne, ← value_inj]
  exact Rounding.lt_fl_iff x.fits

theorem natCast_one_mul (a : Floating R) : ((1 : ℕ) : Floating R) * a = a := by
  rw [← value_inj]
  have hone : R.fl (.number ((1 : ℕ) : ℚ)) = .number 1 := by
    rw [Nat.cast_one]
    exact R.round_one
  change R.fl ((R.fl (.number ((1 : ℕ) : ℚ))).mul a.value) = a.value
  rw [hone, ← a.fits, a.fits]
  cases h : a.value with
  | number q =>
      change R.fl (.number (1 * q)) = .number q
      rw [one_mul, ← h]
      exact a.fits
  | _ => rfl

theorem mul_natCast_one (a : Floating R) : a * ((1 : ℕ) : Floating R) = a := by
  rw [← value_inj]
  have hone : R.fl (.number ((1 : ℕ) : ℚ)) = .number 1 := by
    rw [Nat.cast_one]
    exact R.round_one
  change R.fl (a.value.mul (R.fl (.number ((1 : ℕ) : ℚ)))) = a.value
  rw [hone, ← a.fits, a.fits]
  cases h : a.value with
  | number q =>
      change R.fl (.number (q * 1)) = .number q
      rw [mul_one, ← h]
      exact a.fits
  | _ => rfl

def AtMostOne (c : Floating R) : Prop := c.value = .nan ∨ ∃ q, c.value = .number q ∧ |q| ≤ 1

theorem AtMostOne.le_one {c : Floating R} (hc : c.AtMostOne) {q : ℚ} (hq : c.value = .number q) :
    q ≤ 1 := by
  obtain ⟨q', hq', hle⟩ := hc.resolve_left (by rw [hq]; exact nofun)
  rw [Value.number.inj (hq.symm.trans hq')]
  exact (abs_le.mp hle).2

theorem AtMostOne.mul_value {a c : Floating R} (hc : c.AtMostOne) (hne : c.value ≠ .nan) {p : ℚ}
    (ha : a.value = .number p) : ∃ g, (a * c).value = .number g ∧ |g| ≤ |p| := by
  rcases hc with hnan | ⟨q, hq, hle⟩
  · exact absurd hnan hne
  · have hfits := a.fits
    rw [ha] at hfits
    change ∃ g, R.fl (a.value.mul c.value) = .number g ∧ |g| ≤ |p|
    rw [ha, hq]
    exact R.round_mul hfits hle

theorem mul_between {a c : Floating R} {p q : ℚ} (ha : a.value = .number p)
    (hc : c.value = .number q) (hq : 0 ≤ q) (hq' : q ≤ 1) :
    ∃ g, (a * c).value = .number g ∧ min 0 p ≤ g ∧ g ≤ max 0 p := by
  have hfits := a.fits
  rw [ha] at hfits
  have hmin : R.round (min 0 p) = .number (min 0 p) := by
    rcases min_choice 0 p with h | h
    · rw [h, R.round_zero]
    · rw [h]
      exact hfits
  have hmax : R.round (max 0 p) = .number (max 0 p) := by
    rcases max_choice 0 p with h | h
    · rw [h, R.round_zero]
    · rw [h]
      exact hfits
  change ∃ g, R.fl (a.value.mul c.value) = .number g ∧ min 0 p ≤ g ∧ g ≤ max 0 p
  rw [ha, hc]
  refine R.round_between hmin hmax ?_ ?_
  · rcases le_total 0 p with hp | hp
    · rw [min_eq_left hp]
      exact mul_nonneg hp hq
    · rw [min_eq_right hp]
      nlinarith
  · rcases le_total 0 p with hp | hp
    · rw [max_eq_right hp]
      nlinarith
    · rw [max_eq_left hp]
      exact mul_nonpos_of_nonpos_of_nonneg hp hq

theorem AtMostOne.mul_number {a c : Floating R} (hc : c.AtMostOne) {g : ℚ}
    (h : (a * c).value = .number g) : ∃ p, a.value = .number p ∧ |g| ≤ |p| := by
  by_cases hne : c.value = .nan
  · change R.fl (a.value.mul c.value) = .number g at h
    rw [hne] at h
    cases ha : a.value <;> rw [ha] at h <;> cases h
  · obtain ⟨q, hq, -⟩ := hc.resolve_left hne
    cases ha : a.value with
    | number p =>
        obtain ⟨g', hg, hle⟩ := hc.mul_value hne ha
        rw [Value.number.inj (h.symm.trans hg)]
        exact ⟨p, rfl, hle⟩
    | nan =>
        change R.fl (a.value.mul c.value) = .number g at h
        rw [ha] at h
        cases h
    | posInf =>
        change R.fl (a.value.mul c.value) = .number g at h
        rw [ha, hq] at h
        change R.fl (Value.infinite q) = .number g at h
        unfold Value.infinite at h
        split_ifs at h <;> cases h
    | negInf =>
        change R.fl (a.value.mul c.value) = .number g at h
        rw [ha, hq] at h
        change R.fl (Value.infinite (-q)) = .number g at h
        unfold Value.infinite at h
        split_ifs at h <;> cases h

end Floating

end FyS.Library
