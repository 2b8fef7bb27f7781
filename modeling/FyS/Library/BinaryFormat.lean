import Mathlib.Algebra.Order.Round
import Mathlib.Data.Int.ConditionallyCompleteOrder
import Mathlib.Data.Int.Log
import Mathlib.Data.Rat.Floor
import FyS.Library.FloatingPoint

/-!
# Binary formats

The numbers of a binary format are the whole multiples of a power of two, which grows with the
number.  Results are rounded to the nearest of them, and of two to the even one.
-/

namespace FyS.Library

/-! ## The nearest whole number -/

def nearestEven (q : ℚ) : ℤ :=
  if q - ⌊q⌋ < 1 / 2 then ⌊q⌋
  else if 1 / 2 < q - ⌊q⌋ then ⌊q⌋ + 1
  else if ⌊q⌋ % 2 = 0 then ⌊q⌋
  else ⌊q⌋ + 1

theorem floor_le_nearestEven (q : ℚ) : ⌊q⌋ ≤ nearestEven q := by
  unfold nearestEven
  split_ifs <;> omega

theorem nearestEven_le_floor (q : ℚ) : nearestEven q ≤ ⌊q⌋ + 1 := by
  unfold nearestEven
  split_ifs <;> omega

@[simp] theorem nearestEven_intCast (n : ℤ) : nearestEven n = n := by
  unfold nearestEven
  rw [Int.floor_intCast, sub_self, if_pos (by norm_num)]

theorem nearestEven_mono : Monotone nearestEven := by
  intro p q h
  rcases (Int.floor_mono h).lt_or_eq with hlt | heq
  · calc nearestEven p ≤ ⌊p⌋ + 1 := nearestEven_le_floor p
      _ ≤ ⌊q⌋ := hlt
      _ ≤ nearestEven q := floor_le_nearestEven q
  · unfold nearestEven
    rw [heq]
    have hparts : p - (⌊q⌋ : ℚ) ≤ q - ⌊q⌋ := by linarith
    split_ifs <;> first | omega | (exfalso; linarith)

theorem nearestEven_neg (q : ℚ) : nearestEven (-q) = -nearestEven q := by
  by_cases hwhole : (⌊q⌋ : ℚ) = q
  · rw [← hwhole, ← Int.cast_neg, nearestEven_intCast, nearestEven_intCast]
  · have hlow : (⌊q⌋ : ℚ) < q := lt_of_le_of_ne (Int.floor_le q) hwhole
    have hhigh := Int.lt_floor_add_one q
    have hfloor : ⌊-q⌋ = -⌊q⌋ - 1 := by
      rw [Int.floor_eq_iff]
      push_cast
      constructor <;> linarith
    unfold nearestEven
    rw [hfloor]
    push_cast
    split_ifs <;> first | omega | (exfalso; linarith)

/-! ## Formats -/

/-- A binary format: how many bits a significand has, the exponent of the least numbers, and
the exponent of the numbers that are too large.  One is neither too small nor too large. -/
structure BinaryFormat where
  precision : ℕ
  minExponent : ℤ
  maxExponent : ℤ
  precision_pos : 0 < precision
  minExponent_nonpos : minExponent ≤ 0
  maxExponent_pos : 0 < maxExponent

namespace BinaryFormat

variable (F : BinaryFormat)

def exponent (q : ℚ) : ℤ := max (Int.log 2 |q| + 1 - F.precision) F.minExponent

def unit (q : ℚ) : ℚ := 2 ^ F.exponent q

def nearest (q : ℚ) : ℚ := nearestEven (q / F.unit q) * F.unit q

def round (q : ℚ) : Value :=
  if F.nearest q ≤ -2 ^ F.maxExponent then .negInf
  else if 2 ^ F.maxExponent ≤ F.nearest q then .posInf
  else .number (F.nearest q)

theorem unit_pos (q : ℚ) : 0 < F.unit q := zpow_pos two_pos _

theorem exponent_neg (q : ℚ) : F.exponent (-q) = F.exponent q := by
  unfold exponent
  rw [abs_neg]

theorem nearest_neg (q : ℚ) : F.nearest (-q) = -F.nearest q := by
  unfold nearest unit
  rw [exponent_neg, neg_div, nearestEven_neg, Int.cast_neg, neg_mul]

theorem abs_lt_units (q : ℚ) : |q| < 2 ^ F.precision * F.unit q := by
  have hlog : |q| < (2 : ℚ) ^ (Int.log 2 |q| + 1) := Int.lt_zpow_succ_log_self one_lt_two |q|
  have hle : Int.log 2 |q| + 1 ≤ F.precision + F.exponent q := by
    have := le_max_left (Int.log 2 |q| + 1 - F.precision) F.minExponent
    unfold exponent
    omega
  calc |q| < (2 : ℚ) ^ (Int.log 2 |q| + 1) := hlog
    _ ≤ 2 ^ ((F.precision : ℤ) + F.exponent q) := zpow_le_zpow_right₀ one_le_two hle
    _ = 2 ^ F.precision * F.unit q := by
        rw [zpow_add₀ two_ne_zero, zpow_natCast]
        rfl

theorem units_le_abs {q : ℚ} (hq : q ≠ 0) (h : F.minExponent < F.exponent q) :
    2 ^ (F.precision - 1) * F.unit q ≤ |q| := by
  have hlog : (2 : ℚ) ^ Int.log 2 |q| ≤ |q| := Int.zpow_log_le_self one_lt_two (abs_pos.mpr hq)
  have hexponent : F.exponent q = Int.log 2 |q| + 1 - F.precision := by
    unfold exponent at h ⊢
    omega
  calc 2 ^ (F.precision - 1) * F.unit q
      = 2 ^ (((F.precision - 1 : ℕ) : ℤ) + F.exponent q) := by
        rw [zpow_add₀ two_ne_zero, zpow_natCast]
        rfl
    _ = 2 ^ Int.log 2 |q| := by
        have := F.precision_pos
        rw [hexponent]
        congr 1
        omega
    _ ≤ |q| := hlog

theorem exponent_mono {p q : ℚ} (hp : p ≠ 0) (h : |p| ≤ |q|) : F.exponent p ≤ F.exponent q := by
  have := Int.log_mono_right (b := 2) (abs_pos.mpr hp) h
  unfold exponent
  omega

/-! ## Rounding keeps the order -/

theorem nearest_zero : F.nearest 0 = 0 := by
  unfold nearest
  rw [zero_div, show nearestEven 0 = 0 from nearestEven_intCast 0, Int.cast_zero, zero_mul]

theorem nearest_le_of_le {q : ℚ} {n : ℤ} (h : q ≤ n * F.unit q) : F.nearest q ≤ n * F.unit q := by
  have hunit := F.unit_pos q
  have hmono := nearestEven_mono ((div_le_iff₀ hunit).mpr h)
  rw [nearestEven_intCast] at hmono
  exact mul_le_mul_of_nonneg_right (by exact_mod_cast hmono) hunit.le

theorem le_nearest_of_le {q : ℚ} {n : ℤ} (h : n * F.unit q ≤ q) : n * F.unit q ≤ F.nearest q := by
  have hunit := F.unit_pos q
  have hmono := nearestEven_mono ((le_div_iff₀ hunit).mpr h)
  rw [nearestEven_intCast] at hmono
  exact mul_le_mul_of_nonneg_right (by exact_mod_cast hmono) hunit.le

theorem nearest_nonneg {q : ℚ} (h : 0 ≤ q) : 0 ≤ F.nearest q := by
  have := F.le_nearest_of_le (n := 0) (q := q) (by simpa using h)
  simpa using this

/-- Where the units change, what is below has been rounded up to the change at most. -/
theorem nearest_le_of_unit_lt {p q : ℚ} (hp : 0 < p) (hq : 0 < q)
    (h : F.exponent p < F.exponent q) : F.nearest p ≤ F.nearest q := by
  have hmin : F.minExponent < F.exponent q := lt_of_le_of_lt (le_max_right _ _) h
  have hbelow : p ≤ ((2 ^ F.precision : ℕ) : ℤ) * F.unit p := by
    have := F.abs_lt_units p
    rw [abs_of_pos hp] at this
    push_cast
    exact this.le
  have habove : ((2 ^ (F.precision - 1) : ℕ) : ℤ) * F.unit q ≤ q := by
    have := F.units_le_abs hq.ne' hmin
    rw [abs_of_pos hq] at this
    push_cast
    exact this
  have hunits : 2 * F.unit p ≤ F.unit q := by
    calc 2 * F.unit p = 2 ^ (F.exponent p + 1) := by
          rw [zpow_add_one₀ two_ne_zero, mul_comm]
          rfl
      _ ≤ F.unit q := zpow_le_zpow_right₀ one_le_two h
  have hpower : (2 : ℚ) ^ F.precision = 2 ^ (F.precision - 1) * 2 := by
    rw [← pow_succ, Nat.sub_add_cancel F.precision_pos]
  have hlow := F.nearest_le_of_le hbelow
  have hhigh := F.le_nearest_of_le habove
  push_cast at hlow hhigh
  calc F.nearest p ≤ 2 ^ F.precision * F.unit p := hlow
    _ = 2 ^ (F.precision - 1) * (2 * F.unit p) := by rw [hpower, mul_assoc]
    _ ≤ 2 ^ (F.precision - 1) * F.unit q := mul_le_mul_of_nonneg_left hunits (by positivity)
    _ ≤ F.nearest q := hhigh

theorem nearest_mono_pos {p q : ℚ} (hp : 0 < p) (h : p ≤ q) : F.nearest p ≤ F.nearest q := by
  have hq : 0 < q := hp.trans_le h
  have hexponent : F.exponent p ≤ F.exponent q :=
    F.exponent_mono hp.ne' (by rwa [abs_of_pos hp, abs_of_pos hq])
  rcases hexponent.lt_or_eq with hlt | heq
  · exact F.nearest_le_of_unit_lt hp hq hlt
  · have hunit : F.unit p = F.unit q := by
      unfold unit
      rw [heq]
    have hpos := F.unit_pos q
    unfold nearest
    rw [hunit]
    have hmono := nearestEven_mono (div_le_div_of_nonneg_right h hpos.le)
    exact mul_le_mul_of_nonneg_right (by exact_mod_cast hmono) hpos.le

theorem nearest_mono : Monotone F.nearest := by
  have hnonneg {p q : ℚ} (hp : 0 ≤ p) (h : p ≤ q) : F.nearest p ≤ F.nearest q := by
    rcases hp.lt_or_eq with hlt | heq
    · exact F.nearest_mono_pos hlt h
    · rw [← heq, nearest_zero]
      exact F.nearest_nonneg (hp.trans h)
  intro p q h
  rcases le_total 0 p with hp | hp
  · exact hnonneg hp h
  · rcases le_total 0 q with hq | hq
    · have hneg := F.nearest_nonneg (neg_nonneg.mpr hp)
      rw [nearest_neg] at hneg
      exact (neg_nonneg.mp hneg).trans (F.nearest_nonneg hq)
    · have hneg := hnonneg (neg_nonneg.mpr hq) (neg_le_neg h)
      rw [nearest_neg, nearest_neg] at hneg
      exact neg_le_neg_iff.mp hneg

/-! ## Numbers of the format stay -/

theorem nearest_eq_self {g : ℚ} {m e : ℤ} (hg : g = m * 2 ^ e) (he : F.exponent g ≤ e) :
    F.nearest g = g := by
  obtain ⟨k, hk⟩ := Int.le.dest he
  have hunits : g = ((m * 2 ^ k : ℤ) : ℚ) * F.unit g := by
    calc g = m * 2 ^ (F.exponent g + k) := by rw [hk, ← hg]
      _ = m * (2 ^ F.exponent g * 2 ^ k) := by rw [zpow_add₀ two_ne_zero, zpow_natCast]
      _ = ((m * 2 ^ k : ℤ) : ℚ) * F.unit g := by
          unfold unit
          push_cast
          ring
  apply le_antisymm
  · exact (F.nearest_le_of_le hunits.le).trans hunits.ge
  · exact hunits.le.trans (F.le_nearest_of_le hunits.ge)

theorem abs_nearest_le (q : ℚ) : |F.nearest q| ≤ 2 ^ F.precision * F.unit q := by
  have hlt := F.abs_lt_units q
  have hhigh := F.nearest_le_of_le (q := q) (n := 2 ^ F.precision) (by
    push_cast
    exact (le_abs_self q).trans hlt.le)
  have hlow := F.le_nearest_of_le (q := q) (n := -2 ^ F.precision) (by
    push_cast
    linarith [neg_abs_le q])
  push_cast at hhigh hlow
  rw [abs_le]
  constructor <;> linarith

theorem nearest_nearest (q : ℚ) : F.nearest (F.nearest q) = F.nearest q := by
  by_cases hzero : F.nearest q = 0
  · rw [hzero, nearest_zero]
  · have hpos := abs_pos.mpr hzero
    have hmin : F.minExponent ≤ F.exponent q := le_max_right _ _
    have hunits : 2 ^ F.precision * F.unit q = (2 : ℚ) ^ (F.precision + F.exponent q) := by
      rw [zpow_add₀ two_ne_zero, zpow_natCast]
      rfl
    have hle := F.abs_nearest_le q
    rw [hunits] at hle
    rcases hle.lt_or_eq with hlt | heq
    · have hlog := (Int.lt_zpow_iff_log_lt one_lt_two hpos).mp hlt
      refine F.nearest_eq_self (m := nearestEven (q / F.unit q)) (e := F.exponent q) rfl ?_
      unfold exponent at hmin hlog ⊢
      omega
    · -- it was rounded up to the next power of two
      have hlog : Int.log 2 |F.nearest q| = F.precision + F.exponent q := by
        rw [heq]
        exact Int.log_zpow one_lt_two _
      have hcoarse : F.exponent (F.nearest q) ≤ F.precision + F.exponent q := by
        have := F.precision_pos
        rw [exponent.eq_1 F (F.nearest q), hlog]
        omega
      rcases abs_choice (F.nearest q) with habs | habs
      · exact F.nearest_eq_self (m := 1) (by rw [Int.cast_one, one_mul, ← heq, habs]) hcoarse
      · exact F.nearest_eq_self (m := -1) (by rw [Int.cast_neg, Int.cast_one, ← heq, habs]; ring)
          hcoarse

theorem round_eq_number {q g : ℚ} :
    F.round q = .number g ↔
      -2 ^ F.maxExponent < F.nearest q ∧ F.nearest q < 2 ^ F.maxExponent ∧ F.nearest q = g := by
  unfold round
  by_cases hlow : F.nearest q ≤ -2 ^ F.maxExponent
  · rw [if_pos hlow]
    exact iff_of_false nofun fun h => absurd hlow (not_le.mpr h.1)
  · rw [if_neg hlow]
    by_cases hhigh : 2 ^ F.maxExponent ≤ F.nearest q
    · rw [if_pos hhigh]
      exact iff_of_false nofun fun h => absurd hhigh (not_le.mpr h.2.1)
    · rw [if_neg hhigh, Value.number.injEq]
      exact ⟨fun h => ⟨not_le.mp hlow, not_le.mp hhigh, h⟩, fun h => h.2.2⟩

def rounding : Rounding where
  round := F.round
  round_ne_nan q := by
    unfold round
    split_ifs <;> exact nofun
  mono {p q} h := by
    have hmono := F.nearest_mono h
    unfold round
    by_cases hplow : F.nearest p ≤ -2 ^ F.maxExponent
    · rw [if_pos hplow]
      exact Value.not_lt_negInf _
    · have hqlow : ¬ F.nearest q ≤ -2 ^ F.maxExponent := fun hle => hplow (hmono.trans hle)
      rw [if_neg hplow, if_neg hqlow]
      by_cases hqhigh : 2 ^ F.maxExponent ≤ F.nearest q
      · rw [if_pos hqhigh]
        exact Value.not_posInf_lt _
      · have hphigh : ¬ 2 ^ F.maxExponent ≤ F.nearest p := fun hle => hqhigh (hle.trans hmono)
        rw [if_neg hqhigh, if_neg hphigh, Value.number_lt_number, not_lt]
        exact hmono
  round_round {q g} h := by
    obtain ⟨hlow, hhigh, rfl⟩ := F.round_eq_number.mp h
    rw [F.round_eq_number, nearest_nearest]
    exact ⟨hlow, hhigh, rfl⟩
  round_neg {q} h := by
    obtain ⟨hlow, hhigh, hq⟩ := F.round_eq_number.mp h
    rw [F.round_eq_number, nearest_neg]
    exact ⟨by linarith, by linarith, by rw [hq]⟩
  round_zero := by
    have hpower : (0 : ℚ) < 2 ^ F.maxExponent := zpow_pos two_pos _
    rw [F.round_eq_number, nearest_zero]
    exact ⟨by linarith, hpower, rfl⟩
  round_one := by
    have hone : F.nearest 1 = 1 := by
      have := F.precision_pos
      have := F.minExponent_nonpos
      refine F.nearest_eq_self (m := 1) (e := 0) (by norm_num) ?_
      unfold exponent
      rw [abs_one, Int.log_one_right]
      omega
    have hpower : (1 : ℚ) < 2 ^ F.maxExponent := one_lt_zpow₀ one_lt_two F.maxExponent_pos
    rw [F.round_eq_number, hone]
    exact ⟨by linarith, hpower, rfl⟩

/-! ## Whole numbers -/

theorem exponent_le_zero {q : ℚ} (h : |q| < 2 ^ F.precision) : F.exponent q ≤ 0 := by
  have hmin := F.minExponent_nonpos
  have hprecision := F.precision_pos
  have hlog : Int.log 2 |q| < F.precision := by
    rcases (abs_nonneg q).eq_or_lt with hzero | hpos
    · rw [← hzero, Int.log_zero_right]
      omega
    · rw [← Int.lt_zpow_iff_log_lt one_lt_two hpos]
      exact_mod_cast h
  unfold exponent
  omega

/-- A whole number that the significand can count is exact. -/
theorem nearest_intCast {n : ℤ} (h : |(n : ℚ)| < 2 ^ F.precision) : F.nearest n = n :=
  F.nearest_eq_self (m := n) (e := 0) (by simp) (F.exponent_le_zero h)

theorem nearest_two_pow : F.nearest (2 ^ F.precision) = 2 ^ F.precision := by
  have hmin := F.minExponent_nonpos
  have hprecision := F.precision_pos
  refine F.nearest_eq_self (m := 1) (e := F.precision) (by simp) ?_
  have hlog : Int.log 2 |(2 : ℚ) ^ F.precision| = F.precision := by
    rw [abs_of_pos (by positivity), ← zpow_natCast]
    exact Int.log_zpow one_lt_two _
  unfold exponent
  omega

theorem abs_nearest_le_two_pow {q : ℚ} (h : |q| < 2 ^ F.precision) :
    |F.nearest q| ≤ 2 ^ F.precision := by
  obtain ⟨hlow, hhigh⟩ := abs_lt.mp h
  have hupper := F.nearest_mono hhigh.le
  have hlower := F.nearest_mono hlow.le
  rw [nearest_neg, nearest_two_pow] at hlower
  rw [nearest_two_pow] at hupper
  exact abs_le.mpr ⟨hlower, hupper⟩

def wholeRounding : WholeRounding where
  round q := if |q| < 2 ^ F.precision then F.nearest q else q
  mono p q h := by
    simp only
    split_ifs with hp hq hq
    · exact F.nearest_mono h
    · have hle := (abs_le.mp (F.abs_nearest_le_two_pow hp)).2
      rw [abs_lt, not_and_or, not_lt, not_lt] at hq
      have hlow := (abs_lt.mp hp).1
      rcases hq with hq | hq <;> linarith
    · have hle := (abs_le.mp (F.abs_nearest_le_two_pow hq)).1
      rw [abs_lt, not_and_or, not_lt, not_lt] at hp
      have hhigh := (abs_lt.mp hq).2
      rcases hp with hp | hp <;> linarith
    · exact h
  round_natCast n := by
    split_ifs with hn
    · exact F.nearest_intCast (n := n) hn
    · rfl

end BinaryFormat

def binary64 : BinaryFormat := ⟨53, -1074, 1024, by decide, by decide, by decide⟩

abbrev Double : Type := Floating binary64.rounding

example : binary64.round (1 / 10) = .number (3602879701896397 / 36028797018963968) := by
  decide +kernel

end FyS.Library
