import FyS.WorldServer.Rasterised

/-!
# Collisions

A position is looked up by its pixels, `x` as the row and `y` as the column, in a
grid of tiles.  What has to hold of maps and position for the answer to be right.
-/

namespace FyS.WorldServer

open FyS.Library

/-! ## One map after the other -/

def buildMaps (maps : List TmxMap) (statics : Statics) : Except Fault Statics :=
  maps.foldlM (fun statics map => (buildMapFromTmx map.toLoadedMap statics).map Prod.fst) statics

def Statics.unset : Statics := ⟨none, none⟩

def EachFits : List TmxMap → Statics → Prop
  | [], _ => True
  | map :: rest, statics => AllFit statics map ∧ EachFits rest (statics.after map)

theorem buildMaps_isOk_iff {maps : List TmxMap} {statics : Statics} :
    (∃ built, buildMaps maps statics = .ok built) ↔ EachFits maps statics := by
  induction maps generalizing statics with
  | nil => exact ⟨fun _ => trivial, fun _ => ⟨statics, rfl⟩⟩
  | cons map rest ih =>
      unfold buildMaps at ih ⊢
      rw [List.foldlM_cons, EachFits, ← buildMapFromTmx_isOk_iff]
      cases hfirst : buildMapFromTmx map.toLoadedMap statics with
      | error fault => simp [Except.map]
      | ok built =>
          rw [← (buildMapFromTmx_spec hfirst).1, ← ih]
          constructor
          · intro h
            exact ⟨⟨_, rfl⟩, h⟩
          · intro h
            exact h.2

theorem buildMaps_eq {maps : List TmxMap} {statics built : Statics}
    (h : buildMaps maps statics = .ok built) : built = maps.foldl Statics.after statics := by
  induction maps generalizing statics with
  | nil => exact (Except.ok.inj h).symm
  | cons map rest ih =>
      unfold buildMaps at ih h
      rw [List.foldlM_cons] at h
      obtain ⟨statics₁, hfirst, hrest⟩ := Fuel.bind_eq_ok.mp h
      rw [List.foldl_cons, ih hrest]
      cases hbuild : buildMapFromTmx map.toLoadedMap statics with
      | error fault =>
          rw [hbuild] at hfirst
          cases hfirst
      | ok built₁ =>
          rw [hbuild] at hfirst
          rw [← (buildMapFromTmx_spec hbuild).1, ← Except.ok.inj hfirst]

/-! ## One element -/

namespace MapElement

theorem listing_eq (objects : List FloatRect) (elem : MapElement) :
    elem.listing objects =
      if objects = [] then elem
      else { elem with type := .BLOCK, collisions := elem.collisions ++ objects } := by
  induction objects generalizing elem with
  | nil => rfl
  | cons object rest ih =>
      have hcons : elem.listing (object :: rest) = (elem.block object).listing rest := rfl
      rw [hcons, ih, if_neg (List.cons_ne_nil object rest)]
      split_ifs with hrest
      · rw [hrest]
        rfl
      · simp [block, setType, addCollision]

theorem canGoThrough_listing (objects : List FloatRect) (x y : Rat) :
    (new.listing objects).canGoThrough x y 0 =
      .ok (!objects.any fun aabb => decide (aabb.Contains x y)) := by
  rw [listing_eq]
  split_ifs with hnil
  · rw [hnil]
    rfl
  · unfold canGoThrough canGoToLevel new
    simp

end MapElement

/-! ## Positions -/

structure Boundaries (map : TmxMap) where
  x : Rat × Rat
  y : Rat × Rat
  x_inside : 0 < x.1 ∧ x.2 < map.tileCount.x * map.tileSize.x
  y_inside : 0 < y.1 ∧ y.2 < map.tileCount.y * map.tileSize.y

namespace Boundaries

variable {map : TmxMap} (boundaries : Boundaries map)

def Within (x y : Rat) : Prop :=
  boundaries.x.1 ≤ x ∧ x ≤ boundaries.x.2 ∧ boundaries.y.1 ≤ y ∧ y ≤ boundaries.y.2

instance (x y : Rat) : Decidable (boundaries.Within x y) :=
  inferInstanceAs (Decidable (_ ∧ _))

end Boundaries

theorem toUnsignedLong_of_le {x : Rat} {count size : Nat} (hcount : count < 4294967296)
    (hsize : size < 4294967296) (hx : 0 ≤ x) (hle : x ≤ count * size) :
    toUnsignedLong x = some ⌊x⌋₊ := by
  have harea : count * size < 18446744073709551616 :=
    calc
      count * size ≤ 4294967295 * 4294967295 :=
        Nat.mul_le_mul (Nat.le_of_lt_succ hcount) (Nat.le_of_lt_succ hsize)
      _ < 18446744073709551616 := by norm_num
  have hlow : -1 < x := lt_of_lt_of_le (by norm_num) hx
  have hhigh : x < 18446744073709551616 := lt_of_le_of_lt hle (by exact_mod_cast harea)
  exact if_pos ⟨hlow, hhigh⟩

namespace CollisionMap

variable {map : CollisionMap}

def Passes (map : CollisionMap) (x y : Value) : Prop :=
  ¬ (x < .number map.boundaryX.1 ∨ x > .number map.boundaryX.2 ∨
    y < .number map.boundaryY.1 ∨ y > .number map.boundaryY.2)

instance (x y : Value) : Decidable (map.Passes x y) := inferInstanceAs (Decidable (¬ _))

theorem passes_number_iff {x y : Rat} :
    map.Passes (.number x) (.number y) ↔
      (map.boundaryX.1 ≤ x ∧ x ≤ map.boundaryX.2) ∧ map.boundaryY.1 ≤ y ∧ y ≤ map.boundaryY.2 := by
  unfold Passes
  simp only [gt_iff_lt, Value.number_lt_number, not_or, not_lt, and_assoc]

theorem canMoveTo_of_not_passes {x y : Value} (h : ¬ map.Passes x y) (level : Nat) :
    map.canMoveTo x y level = .ok false :=
  if_pos (not_not.mp h)

theorem canMoveTo_of_passes {x y : Rat} (h : map.Passes (.number x) (.number y)) {level : Nat} :
    map.canMoveTo (.number x) (.number y) level = map.elemAt x y level :=
  if_neg h

end CollisionMap

def answer (before : List TmxMap) (map : TmxMap) (boundaries : Boundaries map) (x y : Rat) :
    Except Fault Bool := do
  let statics ← buildMaps before .unset
  let built ← buildMapFromTmx map.toLoadedMap statics
  (CollisionMap.mk boundaries.x boundaries.y built.2).canMoveTo (.number x) (.number y) 0

/-- An interior point of a rectangle is refused, a point of no rectangle is not. -/
def AnsweredRightly (before : List TmxMap) (map : TmxMap) (boundaries : Boundaries map)
    (x y : Rat) : Prop :=
  ∃ b, answer before map boundaries x y = .ok b ∧
    ((∃ aabb ∈ collisions map.layers, aabb.Interior x y) → b = false) ∧
    ((∀ aabb ∈ collisions map.layers, ¬ aabb.Contains x y) → b = true)

/-- The maps can be built, and the position, read as a row and a column, is in the
grid and comes upon a rectangle around it if it is inside of one. -/
structure Answerable (before : List TmxMap) (map : TmxMap) (x y : Rat) : Prop where
  fits : EachFits before .unset
  fitsLast : AllFit (before.foldl Statics.after .unset) map
  row_lt : ⌊x⌋₊ < map.tileCount.y
  column_lt : ⌊y⌋₊ < map.tileCount.x
  listed : (∃ aabb ∈ collisions map.layers, aabb.Interior x y) →
    ∃ aabb ∈ collisions map.layers, aabb.Contains x y ∧
      (before.foldl Statics.after .unset).Lists map.tileSize aabb ⌊x⌋₊ ⌊y⌋₊

theorem FloatRect.Interior.contains {aabb : FloatRect} {x y : Rat} (h : aabb.Interior x y) :
    aabb.Contains x y := by
  obtain ⟨hleft, hright, htop, hbottom⟩ := h
  exact ⟨hleft.le, hright.le, htop.le, hbottom.le⟩

theorem canMoveTo_eq {map : TmxMap} {boundaries : Boundaries map} {x y : Rat}
    (hwithin : boundaries.Within x y) {statics : Statics} {built : Statics × MapElems}
    (hbuild : buildMapFromTmx map.toLoadedMap statics = .ok built) :
    (CollisionMap.mk boundaries.x boundaries.y built.2).canMoveTo (.number x) (.number y) 0 =
      if ⌊x⌋₊ < map.tileCount.y ∧ ⌊y⌋₊ < map.tileCount.x then
        .ok (!((collisions map.layers).filter (statics.Lists map.tileSize · ⌊x⌋₊ ⌊y⌋₊)).any
          fun aabb => decide (aabb.Contains x y))
      else .error .outOfRange := by
  obtain ⟨hxlow, hxhigh, hylow, hyhigh⟩ := hwithin
  have hx : toUnsignedLong x = some ⌊x⌋₊ :=
    toUnsignedLong_of_le map.tileCount.x_lt map.tileSize.x_lt
      (boundaries.x_inside.1.trans_le hxlow).le (hxhigh.trans boundaries.x_inside.2.le)
  have hy : toUnsignedLong y = some ⌊y⌋₊ :=
    toUnsignedLong_of_le map.tileCount.y_lt map.tileSize.y_lt
      (boundaries.y_inside.1.trans_le hylow).le (hyhigh.trans boundaries.y_inside.2.le)
  have hbounds : (CollisionMap.mk boundaries.x boundaries.y built.2).Passes (.number x)
      (.number y) := CollisionMap.passes_number_iff.mpr ⟨⟨hxlow, hxhigh⟩, hylow, hyhigh⟩
  rw [CollisionMap.canMoveTo_of_passes hbounds]
  unfold CollisionMap.elemAt
  rw [hx, hy]
  dsimp only
  rw [(buildMapFromTmx_spec hbuild).2]
  split_ifs
  · exact MapElement.canGoThrough_listing _ x y
  · rfl

/-- The server answers rightly exactly when the position is answerable. -/
theorem answeredRightly_iff {before : List TmxMap} {map : TmxMap} {boundaries : Boundaries map}
    {x y : Rat} (hwithin : boundaries.Within x y) :
    AnsweredRightly before map boundaries x y ↔ Answerable before map x y := by
  constructor
  · rintro ⟨b, hanswer, hinterior, -⟩
    obtain ⟨statics, hbefore, hrest⟩ := Fuel.bind_eq_ok.mp hanswer
    obtain ⟨built, hbuild, hmove⟩ := Fuel.bind_eq_ok.mp hrest
    rw [canMoveTo_eq hwithin hbuild] at hmove
    split_ifs at hmove with hgrid
    have hstatics := buildMaps_eq hbefore
    rw [hstatics] at hbuild hmove
    refine ⟨buildMaps_isOk_iff.mp ⟨statics, hbefore⟩, buildMapFromTmx_isOk_iff.mp ⟨built, hbuild⟩,
      hgrid.1, hgrid.2, ?_⟩
    intro hinside
    rw [hinterior hinside] at hmove
    have hany := Except.ok.inj hmove
    rw [Bool.not_eq_false', List.any_eq_true] at hany
    obtain ⟨aabb, haabb, hcontains⟩ := hany
    obtain ⟨hmem, hlists⟩ := List.mem_filter.mp haabb
    exact ⟨aabb, hmem, of_decide_eq_true hcontains, of_decide_eq_true hlists⟩
  · rintro ⟨hfits, hlast, hrow, hcolumn, hlisted⟩
    obtain ⟨statics, hbefore⟩ := buildMaps_isOk_iff.mpr hfits
    rw [← buildMaps_eq hbefore] at hlast hlisted
    obtain ⟨built, hbuild⟩ := buildMapFromTmx_isOk_iff.mpr hlast
    have hmove := canMoveTo_eq hwithin hbuild
    rw [if_pos ⟨hrow, hcolumn⟩] at hmove
    have hanswer : answer before map boundaries x y = .ok _ :=
      Fuel.bind_eq_ok.mpr ⟨statics, hbefore, Fuel.bind_eq_ok.mpr ⟨built, hbuild, hmove⟩⟩
    refine ⟨_, hanswer, ?_, ?_⟩
    · intro hinside
      obtain ⟨aabb, hmem, hcontains, hlists⟩ := hlisted hinside
      rw [Bool.not_eq_false', List.any_eq_true]
      exact ⟨aabb, List.mem_filter.mpr ⟨hmem, decide_eq_true hlists⟩, decide_eq_true hcontains⟩
    · intro houtside
      rw [Bool.not_eq_true', List.any_eq_false]
      intro aabb haabb hcontains
      exact houtside aabb (List.mem_filter.mp haabb).1 (of_decide_eq_true hcontains)

def meadow (size : Nat) (hpos : 0 < size) (hsize : size < 4294967296) : TmxMap where
  tileCount := ⟨4, 4, by decide, by decide⟩
  tileSize := ⟨size, size, hsize, hsize⟩
  layers := [⟨.Object, ["collision"], [⟨0, 0, 2 * size, 2 * size⟩]⟩]
  tileSize_pos := ⟨hpos, hpos⟩
  inside := by
    have hcollisions : collisions [⟨.Object, ["collision"], [⟨0, 0, 2 * size, 2 * size⟩]⟩] =
        [⟨0, 0, 2 * size, 2 * size⟩] := rfl
    have hsize : (0 : Rat) ≤ size := Nat.cast_nonneg size
    rw [hcollisions]
    intro aabb haabb
    rw [List.mem_singleton.mp haabb]
    constructor <;> simp <;> linarith

theorem three_lt {size : Nat} (hpos : 0 < size) : (0 : Rat) < 1 ∧ (3 : Rat) < (4 : Nat) * size := by
  have hsize : (1 : Rat) ≤ size := by exact_mod_cast hpos
  constructor
  · norm_num
  · push_cast
    linarith

def middle (size : Nat) (hpos : 0 < size) (hsize : size < 4294967296) :
    Boundaries (meadow size hpos hsize) where
  x := (1, 3)
  y := (1, 3)
  x_inside := three_lt hpos
  y_inside := three_lt hpos

/-- On tiles of one pixel rows and columns are pixels. -/
theorem answeredRightly_iff_pixels :
    AnsweredRightly [] (meadow 1 (by decide) (by decide)) (middle 1 (by decide) (by decide))
        (3 / 2) (3 / 2) ↔
      Answerable [] (meadow 1 (by decide) (by decide)) (3 / 2) (3 / 2) :=
  answeredRightly_iff ⟨by norm_num [middle], by norm_num [middle], by norm_num [middle],
    by norm_num [middle]⟩

/-- On larger tiles they are not: a position in the blocked corner is free. -/
theorem blocked_corner_entered :
    ¬ ∀ (before : List TmxMap) (map : TmxMap) (boundaries : Boundaries map) (x y : Rat),
      boundaries.Within x y → AnsweredRightly before map boundaries x y := by
  intro h
  have hwithin : (middle 16 (by decide) (by decide)).Within 3 3 := by decide +kernel
  obtain ⟨b, hanswer, hinterior, -⟩ := h [] (meadow 16 (by decide) (by decide))
    (middle 16 (by decide) (by decide)) 3 3 hwithin
  have hfree : answer [] (meadow 16 (by decide) (by decide)) (middle 16 (by decide) (by decide))
      3 3 = .ok true := by decide +kernel
  rw [hfree] at hanswer
  have hblocked := hinterior (by decide +kernel)
  rw [hblocked] at hanswer
  cases hanswer

end FyS.WorldServer
