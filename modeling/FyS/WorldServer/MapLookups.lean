import Mathlib.Tactic.Linarith
import FyS.WorldServer.Collisions

/-!
# Look-ups and the grid

`canMoveTo` tests a position against the boundaries of the configuration, which
are in pixels, and then reads the grid at that position, whose rows and columns are
tiles.  The boundaries and the map are read from two files.
-/

namespace FyS.WorldServer

open FyS.Library

theorem LoadedMap.ofSize {built : Statics × MapElems} {map : LoadedMap} {statics : Statics}
    (h : buildMapFromTmx map statics = .ok built) : OfSize map.tileCount built.2 := by
  unfold buildMapFromTmx at h
  rw [addLayers_eq] at h
  have hstep (built : Statics × MapElems) (object : FloatRect) (built' : Statics × MapElems)
      (hadd : addObject map.tileSize built object = .ok built') :
      OfSize map.tileCount built.2 → OfSize map.tileCount built'.2 :=
    OfSize.addObject hadd
  exact Fuel.foldlM_keeps hstep h (ofSize_replicate map.tileCount)

/-! ## One look-up -/

namespace CollisionMap

variable (map : CollisionMap)

/-- Whatever the level, nothing fails but the test of a level that no element has. -/
def StaysInside (x y : Value) : Prop :=
  ∀ level fault, map.canMoveTo x y level = .error fault → fault = .badLevel

def ContainedIn (width height : Nat) : Prop :=
  ∀ x y : Rat, map.Passes (.number x) (.number y) → (0 ≤ x ∧ x ≤ width) ∧ 0 ≤ y ∧ y ≤ height

variable {map}

theorem staysInside_of_not_passes {x y : Value} (h : ¬ map.Passes x y) : map.StaysInside x y := by
  intro level fault hfault
  rw [canMoveTo_of_not_passes h] at hfault
  cases hfault

theorem not_passes_of_infinite {x y : Value}
    (h : x = .negInf ∨ x = .posInf ∨ y = .negInf ∨ y = .posInf) : ¬ map.Passes x y := by
  unfold Passes
  rw [not_not]
  rcases h with rfl | rfl | rfl | rfl
  · exact .inl rfl
  · exact .inr (.inl rfl)
  · exact .inr (.inr (.inl rfl))
  · exact .inr (.inr (.inr rfl))

theorem canMoveTo_of_nan {x y : Value} (h : map.Passes x y) (hnan : x = .nan ∨ y = .nan)
    (level : Nat) : map.canMoveTo x y level = .error .badCast := by
  unfold canMoveTo
  rw [if_neg h]
  cases x with
  | number x =>
      cases y with
      | number y => rcases hnan with hnan | hnan <;> cases hnan
      | _ => rfl
  | _ => rfl

end CollisionMap

theorem MapElement.fault_of_canGoThrough {elem : MapElement} {x y : Rat} {level : Nat}
    {fault : Fault} (h : elem.canGoThrough x y level = .error fault) : fault = .badLevel := by
  unfold canGoThrough at h
  cases hlevel : elem.canGoToLevel level with
  | error levelFault =>
      rw [hlevel, Fuel.error_bind] at h
      unfold canGoToLevel at hlevel
      split_ifs at hlevel
      exact (Except.error.inj h).symm.trans (Except.error.inj hlevel).symm
  | ok canGoThrough =>
      rw [hlevel, Fuel.ok_bind] at h
      split_ifs at h

def LoadedMap.Covers (map : LoadedMap) (lookup : CollisionMap) : Prop :=
  lookup.ContainedIn (map.tileCount.x * map.tileSize.x) (map.tileCount.y * map.tileSize.y)

section Lookup

variable {map : LoadedMap} {statics : Statics} {built : Statics × MapElems}
  {boundaryX boundaryY : Rat × Rat} {x y : Rat}

/-- A position that passes is read as a row and a column, in pixels. -/
theorem staysInside_iff_of_passes (hbuilt : buildMapFromTmx map statics = .ok built)
    (hcovers : map.Covers ⟨boundaryX, boundaryY, built.2⟩)
    (hpasses : (CollisionMap.mk boundaryX boundaryY built.2).Passes (.number x) (.number y)) :
    (CollisionMap.mk boundaryX boundaryY built.2).StaysInside (.number x) (.number y) ↔
      x < map.tileCount.y ∧ y < map.tileCount.x := by
  obtain ⟨⟨hx, hxle⟩, hy, hyle⟩ := hcovers x y hpasses
  have hi : toUnsignedLong x = some ⌊x⌋₊ :=
    toUnsignedLong_of_le map.tileCount.x_lt map.tileSize.x_lt hx (by exact_mod_cast hxle)
  have hj : toUnsignedLong y = some ⌊y⌋₊ :=
    toUnsignedLong_of_le map.tileCount.y_lt map.tileSize.y_lt hy (by exact_mod_cast hyle)
  have hgrid : (Grid.cell built.2 ⌊x⌋₊ ⌊y⌋₊).isSome ↔ x < map.tileCount.y ∧ y < map.tileCount.x := by
    rw [LoadedMap.ofSize hbuilt ⌊x⌋₊ ⌊y⌋₊, Nat.floor_lt hx, Nat.floor_lt hy]
  rw [← hgrid]
  unfold CollisionMap.StaysInside
  simp only [CollisionMap.canMoveTo_of_passes hpasses, CollisionMap.elemAt, hi, hj]
  cases Grid.cell built.2 ⌊x⌋₊ ⌊y⌋₊ with
  | none =>
      constructor
      · intro hstays
        exact absurd (hstays 0 .outOfRange rfl) (by decide)
      · intro hsome
        cases hsome
  | some elem =>
      constructor
      · intro _
        rfl
      · intro _ level fault hfault
        exact MapElement.fault_of_canGoThrough hfault

/-- The coordinates are numbers, and in the grid when they are read as numbers of tiles with
the axes exchanged. -/
def LoadedMap.Holds (map : LoadedMap) (x y : Value) : Prop :=
  ∃ p q : Rat, x = .number p ∧ y = .number q ∧ p < map.tileCount.y ∧ q < map.tileCount.x

/-- What passes the test stays inside exactly when the map holds it. -/
theorem staysInside_iff_holds (hbuilt : buildMapFromTmx map statics = .ok built)
    (hcovers : map.Covers ⟨boundaryX, boundaryY, built.2⟩) {x y : Value}
    (hpasses : (CollisionMap.mk boundaryX boundaryY built.2).Passes x y) :
    (CollisionMap.mk boundaryX boundaryY built.2).StaysInside x y ↔ map.Holds x y := by
  have hfinite := mt CollisionMap.not_passes_of_infinite (not_not.mpr hpasses)
  simp only [not_or] at hfinite
  by_cases hnan : x = .nan ∨ y = .nan
  · constructor
    · intro hstays
      have hcast := CollisionMap.canMoveTo_of_nan hpasses hnan 0
      exact absurd (hstays 0 .badCast hcast) (by decide)
    · rintro ⟨p, q, rfl, rfl, -⟩
      rcases hnan with hnan | hnan <;> cases hnan
  · cases x with
    | number p =>
        cases y with
        | number q =>
            rw [staysInside_iff_of_passes hbuilt hcovers hpasses]
            constructor
            · intro hlt
              exact ⟨p, q, rfl, rfl, hlt⟩
            · rintro ⟨p', q', hp, hq, hlt⟩
              rwa [Value.number.inj hp, Value.number.inj hq]
        | negInf => exact absurd rfl hfinite.2.2.1
        | posInf => exact absurd rfl hfinite.2.2.2
        | nan => exact absurd (.inr rfl) hnan
    | negInf => exact absurd rfl hfinite.1
    | posInf => exact absurd rfl hfinite.2.1
    | nan => exact absurd (.inl rfl) hnan

/-- The ends of the boundaries decide for all positions. -/
theorem all_stayInside_iff (hbuilt : buildMapFromTmx map statics = .ok built)
    (hcovers : map.Covers ⟨boundaryX, boundaryY, built.2⟩) :
    (∀ x y : Rat,
        (CollisionMap.mk boundaryX boundaryY built.2).StaysInside (.number x) (.number y)) ↔
      (boundaryX.1 ≤ boundaryX.2 ∧ boundaryY.1 ≤ boundaryY.2 →
        boundaryX.2 < map.tileCount.y ∧ boundaryY.2 < map.tileCount.x) := by
  constructor
  · rintro hstays ⟨hx, hy⟩
    have hpasses : (CollisionMap.mk boundaryX boundaryY built.2).Passes (.number boundaryX.2)
        (.number boundaryY.2) :=
      CollisionMap.passes_number_iff.mpr ⟨⟨hx, le_rfl⟩, hy, le_rfl⟩
    exact (staysInside_iff_of_passes hbuilt hcovers hpasses).mp
      (hstays boundaryX.2 boundaryY.2)
  · intro hends x y
    by_cases hpasses : (CollisionMap.mk boundaryX boundaryY built.2).Passes (.number x)
        (.number y)
    · obtain ⟨⟨hxlow, hxhigh⟩, hylow, hyhigh⟩ := CollisionMap.passes_number_iff.mp hpasses
      obtain ⟨hrow, hcolumn⟩ := hends ⟨hxlow.trans hxhigh, hylow.trans hyhigh⟩
      rw [staysInside_iff_of_passes hbuilt hcovers hpasses]
      exact ⟨hxhigh.trans_lt hrow, hyhigh.trans_lt hcolumn⟩
    · exact CollisionMap.staysInside_of_not_passes hpasses

/-- The look-up of a position stays inside of the grid exactly when the position fails the test
or the map holds it.  All positions of numbers stay inside exactly when none passes, or the
boundaries, read as numbers of tiles with the axes exchanged, end in the map. -/
theorem lookups_stay_inside_iff (hbuilt : buildMapFromTmx map statics = .ok built)
    (hcovers : map.Covers ⟨boundaryX, boundaryY, built.2⟩) :
    (∀ x y : Value, (CollisionMap.mk boundaryX boundaryY built.2).StaysInside x y ↔
        ((CollisionMap.mk boundaryX boundaryY built.2).Passes x y → map.Holds x y)) ∧
      ((∀ x y : Rat,
          (CollisionMap.mk boundaryX boundaryY built.2).StaysInside (.number x) (.number y)) ↔
        (boundaryX.1 ≤ boundaryX.2 ∧ boundaryY.1 ≤ boundaryY.2 →
          boundaryX.2 < map.tileCount.y ∧ boundaryY.2 < map.tileCount.x)) := by
  refine ⟨fun x y => ?_, all_stayInside_iff hbuilt hcovers⟩
  by_cases hpasses : (CollisionMap.mk boundaryX boundaryY built.2).Passes x y
  · rw [forall_prop_of_true hpasses]
    exact staysInside_iff_holds hbuilt hcovers hpasses
  · exact iff_of_true (CollisionMap.staysInside_of_not_passes hpasses)
      fun h => absurd h hpasses

end Lookup

def field (columns rows : Nat) (hcolumns : columns < 4294967296) (hrows : rows < 4294967296) :
    LoadedMap where
  tileCount := ⟨columns, rows, hcolumns, hrows⟩
  tileSize := ⟨16, 16, by decide, by decide⟩
  layers := []
  tileSize_pos := by decide

theorem covers_field {columns rows : Nat} (hcolumns : columns < 4294967296)
    (hrows : rows < 4294967296) (mapElems : MapElems) :
    (field columns rows hcolumns hrows).Covers
      ⟨(0, (columns * 16 : Nat)), (0, (rows * 16 : Nat)), mapElems⟩ := by
  intro x y hpasses
  exact CollisionMap.passes_number_iff.mp hpasses

def fieldLookup : CollisionMap :=
  ⟨(0, (10 * 16 : Nat)), (0, (10 * 16 : Nat)), List.replicate 10 (List.replicate 10 .new)⟩

theorem lookups_stay_inside_iff_field :
    (∀ x y : Value, fieldLookup.StaysInside x y ↔
        (fieldLookup.Passes x y → (field 10 10 (by decide) (by decide)).Holds x y)) ∧
      ((∀ x y : Rat, fieldLookup.StaysInside (.number x) (.number y)) ↔
        ((0 : Rat) ≤ (10 * 16 : Nat) ∧ (0 : Rat) ≤ (10 * 16 : Nat) →
          ((10 * 16 : Nat) : Rat) < (10 : Nat) ∧ ((10 * 16 : Nat) : Rat) < (10 : Nat))) := by
  have hbuilt : buildMapFromTmx (field 10 10 (by decide) (by decide)) .unset =
      .ok (.unset, List.replicate 10 (List.replicate 10 .new)) := rfl
  exact lookups_stay_inside_iff hbuilt (covers_field (by decide) (by decide) _)

/-- The middle of a field of ten by ten tiles is past its last row. -/
theorem middle_of_field_outside :
    ¬ ∀ (map : LoadedMap) (statics : Statics) (built : Statics × MapElems)
        (boundaryX boundaryY : Rat × Rat) (x y : Value), buildMapFromTmx map statics = .ok built →
      map.Covers ⟨boundaryX, boundaryY, built.2⟩ →
        (CollisionMap.mk boundaryX boundaryY built.2).StaysInside x y := by
  intro h
  have hstays := h (field 10 10 (by decide) (by decide)) .unset
    (.unset, List.replicate 10 (List.replicate 10 .new)) (0, (10 * 16 : Nat)) (0, (10 * 16 : Nat))
    (.number 80) (.number 80) rfl (covers_field (by decide) (by decide) _)
  have hpast : fieldLookup.canMoveTo (.number 80) (.number 80) 0 = .error .outOfRange := by
    decide +kernel
  exact absurd (hstays 0 .outOfRange hpast) (by decide)

-- A position without numbers passes the test of the boundaries, and is read nowhere.
example : fieldLookup.Passes .nan .nan ∧
    fieldLookup.canMoveTo .nan .nan 0 = .error .badCast := by
  decide +kernel

end FyS.WorldServer
