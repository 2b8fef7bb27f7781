import Mathlib.Algebra.Order.Group.Defs
import Mathlib.Order.MinMax

/-!
# Shifts that are cut off

A quantity that is moved by a shift and kept between two bounds.  One such move after another
is again one: the shifts add up, and the bounds of the first are moved by the second.
-/

namespace FyS.Library

universe u

structure ClampedShift (α : Type u) [LE α] where
  shift : α
  lower : α
  upper : α
  lower_le : lower ≤ upper

namespace ClampedShift

variable {α : Type u} [AddCommGroup α] [LinearOrder α]

def apply (c : ClampedShift α) (x : α) : α := max c.lower (min c.upper (x + c.shift))

def within {lower upper : α} (h : lower ≤ upper) : ClampedShift α := ⟨0, lower, upper, h⟩

variable (c d : ClampedShift α)

theorem lower_le_apply (x : α) : c.lower ≤ c.apply x := le_max_left _ _

theorem apply_le_upper (x : α) : c.apply x ≤ c.upper := max_le c.lower_le (min_le_left _ _)

theorem apply_within {lower upper x : α} (h : lower ≤ upper) (hlower : lower ≤ x)
    (hupper : x ≤ upper) : (within h).apply x = x := by
  rw [apply, within, add_zero, min_eq_right hupper, max_eq_right hlower]

variable [IsOrderedAddMonoid α]

theorem apply_mono : Monotone c.apply := by
  intro x y h
  exact max_le_max le_rfl (min_le_min le_rfl (add_le_add_left h _))

def after : ClampedShift α where
  shift := d.shift + c.shift
  lower := c.apply d.lower
  upper := c.apply d.upper
  lower_le := c.apply_mono d.lower_le

theorem apply_after (x : α) : (c.after d).apply x = c.apply (d.apply x) := by
  have hlower := c.lower_le_apply d.lower
  have hupper := c.apply_le_upper d.upper
  calc (c.after d).apply x
      = max (c.apply d.lower) (min (c.apply d.upper) (x + d.shift + c.shift)) := by
        rw [apply, after, add_assoc]
    _ = max (c.apply d.lower) (min (c.apply d.upper) (c.apply (x + d.shift))) := by
        rw [apply.eq_1 c (x + d.shift), min_max_distrib_left, ← min_assoc, min_eq_left hupper,
          ← max_assoc, max_eq_left ((min_le_right _ _).trans hlower)]
    _ = c.apply (d.apply x) := by
        rw [← c.apply_mono.map_min, ← c.apply_mono.map_max]
        rfl

end ClampedShift

end FyS.Library
