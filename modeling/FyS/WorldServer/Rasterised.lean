import Mathlib.Data.List.Nodup
import Mathlib.Data.List.ProdSigma
import FyS.Library.Fuel
import FyS.WorldServer.CollisionMap

/-!
# What the rasterised map holds

A rectangle is listed in whole rows and columns of tiles, of the sizes that the
process knows by then, and a map is built exactly when all of these are in its grid.
-/

namespace FyS.WorldServer

open FyS.Library

namespace FloatRect

def InRows (aabb : FloatRect) (size i : Nat) : Prop :=
  ⌊aabb.top⌋₊ / size ≤ i ∧ i < ⌊aabb.top + aabb.height⌋₊ / size

instance (aabb : FloatRect) (size i : Nat) : Decidable (aabb.InRows size i) :=
  inferInstanceAs (Decidable (_ ∧ _))

def InColumns (aabb : FloatRect) (size j : Nat) : Prop :=
  ⌊aabb.left⌋₊ / size ≤ j ∧ j < ⌊aabb.left + aabb.width⌋₊ / size

instance (aabb : FloatRect) (size j : Nat) : Decidable (aabb.InColumns size j) :=
  inferInstanceAs (Decidable (_ ∧ _))

def rows (aabb : FloatRect) (size : Nat) : List Nat :=
  List.range' (⌊aabb.top⌋₊ / size) (⌊aabb.top + aabb.height⌋₊ / size - ⌊aabb.top⌋₊ / size)

def columns (aabb : FloatRect) (size : Nat) : List Nat :=
  List.range' (⌊aabb.left⌋₊ / size) (⌊aabb.left + aabb.width⌋₊ / size - ⌊aabb.left⌋₊ / size)

theorem mem_rows {aabb : FloatRect} {size i : Nat} : i ∈ aabb.rows size ↔ aabb.InRows size i := by
  unfold rows InRows
  rw [List.mem_range'_1]
  omega

theorem mem_columns {aabb : FloatRect} {size j : Nat} :
    j ∈ aabb.columns size ↔ aabb.InColumns size j := by
  unfold columns InColumns
  rw [List.mem_range'_1]
  omega

end FloatRect

/-! ## Tile sizes of the process -/

namespace Statics

variable (statics : Statics) (tileMapSize : Vector2u)

def rowSize : Nat := statics.gTileSizeX.getD tileMapSize.y

def columnSize : Nat := statics.gTileSizeY.getD tileMapSize.x

def advance (aabb : FloatRect) : Statics where
  gTileSizeX := some (statics.rowSize tileMapSize)
  gTileSizeY :=
    if aabb.rows (statics.rowSize tileMapSize) = [] then statics.gTileSizeY
    else some (statics.columnSize tileMapSize)

def Lists (aabb : FloatRect) (i j : Nat) : Prop :=
  aabb.InRows (statics.rowSize tileMapSize) i ∧ aabb.InColumns (statics.columnSize tileMapSize) j

instance (aabb : FloatRect) (i j : Nat) : Decidable (statics.Lists tileMapSize aabb i j) :=
  inferInstanceAs (Decidable (_ ∧ _))

@[simp] theorem rowSize_advance (aabb : FloatRect) :
    (statics.advance tileMapSize aabb).rowSize tileMapSize = statics.rowSize tileMapSize := rfl

@[simp] theorem columnSize_advance (aabb : FloatRect) :
    (statics.advance tileMapSize aabb).columnSize tileMapSize =
      statics.columnSize tileMapSize := by
  unfold columnSize advance
  simp only
  split_ifs
  · rfl
  · rfl

def cells (aabb : FloatRect) : List (Nat × Nat) :=
  aabb.rows (statics.rowSize tileMapSize) ×ˢ aabb.columns (statics.columnSize tileMapSize)

theorem mem_cells {aabb : FloatRect} {place : Nat × Nat} :
    place ∈ statics.cells tileMapSize aabb ↔ statics.Lists tileMapSize aabb place.1 place.2 := by
  obtain ⟨i, j⟩ := place
  unfold cells Lists
  rw [List.mem_product, FloatRect.mem_rows, FloatRect.mem_columns]

theorem nodup_cells (aabb : FloatRect) : (statics.cells tileMapSize aabb).Nodup :=
  List.Nodup.product List.nodup_range' List.nodup_range'

end Statics

/-! ## One rectangle -/

structure Fits (statics : Statics) (tileSize tileCount : Vector2u) (aabb : FloatRect) : Prop where
  bottom_lt : aabb.top + aabb.height < 4294967296
  right_lt : ∀ i, aabb.InRows (statics.rowSize tileSize) i →
    aabb.left + aabb.width < 4294967296
  inGrid : ∀ i j, statics.Lists tileSize aabb i j → i < tileCount.y ∧ j < tileCount.x

theorem toUnsigned_eq {x : Rat} (hx : 0 ≤ x) :
    toUnsigned x = if x < 4294967296 then some ⌊x⌋₊ else none := by
  unfold toUnsigned
  have hlow : -1 < x := lt_of_lt_of_le (by norm_num) hx
  simp only [hlow, true_and]

theorem getX_eq {x : Rat} (hx : 0 ≤ x) (tileMapSize : Vector2u) (statics : Statics) :
    getX x tileMapSize.y statics =
      if x < 4294967296 then
        .ok (⌊x⌋₊ / statics.rowSize tileMapSize,
          { statics with gTileSizeX := some (statics.rowSize tileMapSize) })
      else .error .badCast := by
  unfold getX
  rw [toUnsigned_eq hx]
  split_ifs
  · rfl
  · rfl

theorem getY_eq {y : Rat} (hy : 0 ≤ y) (tileMapSize : Vector2u) (statics : Statics) :
    getY y tileMapSize.x statics =
      if y < 4294967296 then
        .ok (⌊y⌋₊ / statics.columnSize tileMapSize,
          { statics with gTileSizeY := some (statics.columnSize tileMapSize) })
      else .error .badCast := by
  unfold getY
  rw [toUnsigned_eq hy]
  split_ifs
  · rfl
  · rfl

def MapElement.block (object : FloatRect) (elem : MapElement) : MapElement :=
  (elem.setType .BLOCK).addCollision object

variable {tileMapSize : Vector2u} {aabb : FloatRect} {statics : Statics} {mapElems : MapElems}

theorem foldlM_blockElem (y : Nat) (xs : List Nat) (mapElems : MapElems) :
    xs.foldlM (blockElem aabb y) mapElems =
      Grid.writeAll .outOfRange (MapElement.block aabb) (xs.map (y, ·)) mapElems := by
  unfold Grid.writeAll
  rw [List.foldlM_map]
  rfl

@[simp] theorem columnSize_set (gTileSizeX : Option Nat) (size : Nat) :
    (Statics.mk gTileSizeX (some size)).columnSize tileMapSize = size := rfl

@[simp] theorem rowSize_set (gTileSizeY : Option Nat) (size : Nat) :
    (Statics.mk (some size) gTileSizeY).rowSize tileMapSize = size := rfl

theorem addRows_eq (hleft : 0 ≤ aabb.left) (hwidth : 0 ≤ aabb.width)
    (hright : aabb.left + aabb.width < 4294967296) (ys : List Nat) (statics : Statics)
    (mapElems : MapElems) :
    addRows tileMapSize aabb ys (statics, mapElems) =
      (Grid.writeAll .outOfRange (MapElement.block aabb)
        (ys ×ˢ aabb.columns (statics.columnSize tileMapSize)) mapElems).map fun mapElems =>
          (if ys = [] then statics
            else { statics with gTileSizeY := some (statics.columnSize tileMapSize) }, mapElems) := by
  induction ys generalizing statics mapElems with
  | nil => rfl
  | cons y ys ih =>
      have hleft_lt : aabb.left < 4294967296 := lt_of_le_of_lt (le_add_of_nonneg_right hwidth) hright
      have hnext := ih { statics with gTileSizeY := some (statics.columnSize tileMapSize) }
      rw [addRows, getY_eq hleft, if_pos hleft_lt, List.product_cons, Grid.writeAll_append]
      simp only [Fuel.ok_bind]
      rw [getY_eq (add_nonneg hleft hwidth), if_pos hright]
      simp only [Fuel.ok_bind]
      rw [foldlM_blockElem]
      have hcolumns : List.range' (⌊aabb.left⌋₊ / statics.columnSize tileMapSize)
          (⌊aabb.left + aabb.width⌋₊ / statics.columnSize tileMapSize -
            ⌊aabb.left⌋₊ / statics.columnSize tileMapSize) =
          aabb.columns (statics.columnSize tileMapSize) := rfl
      simp only [columnSize_set, hcolumns] at hnext ⊢
      cases Grid.writeAll Fault.outOfRange (MapElement.block aabb)
          ((aabb.columns (statics.columnSize tileMapSize)).map (y, ·)) mapElems with
      | error fault => rfl
      | ok written =>
          rw [Fuel.ok_bind, hnext]
          simp only [Except.bind, ite_self, reduceCtorEq, if_false]

theorem addRows_badCast (hleft : 0 ≤ aabb.left) (hwidth : 0 ≤ aabb.width)
    (hright : ¬ aabb.left + aabb.width < 4294967296) (y : Nat) (ys : List Nat) (statics : Statics)
    (mapElems : MapElems) :
    addRows tileMapSize aabb (y :: ys) (statics, mapElems) = .error .badCast := by
  rw [addRows, getY_eq hleft]
  split_ifs
  · simp only [Fuel.ok_bind]
    rw [getY_eq (add_nonneg hleft hwidth), if_neg hright]
    rfl
  · rfl

/-- A rectangle is added by writing all of its elements, once its edges convert. -/
theorem addObject_eq {width height : Nat} (hin : aabb.Inside width height) (statics : Statics)
    (mapElems : MapElems) :
    addObject tileMapSize (statics, mapElems) aabb =
      if aabb.top + aabb.height < 4294967296 ∧
          (aabb.rows (statics.rowSize tileMapSize) ≠ [] →
            aabb.left + aabb.width < 4294967296) then
        (Grid.writeAll .outOfRange (MapElement.block aabb) (statics.cells tileMapSize aabb)
          mapElems).map fun mapElems => (statics.advance tileMapSize aabb, mapElems)
      else .error .badCast := by
  unfold addObject
  rw [getX_eq hin.top_nonneg]
  by_cases hbottom : aabb.top + aabb.height < 4294967296
  · have htop : aabb.top < 4294967296 :=
      lt_of_le_of_lt (le_add_of_nonneg_right hin.height_nonneg) hbottom
    rw [if_pos htop]
    simp only [Fuel.ok_bind]
    rw [getX_eq (add_nonneg hin.top_nonneg hin.height_nonneg), if_pos hbottom]
    simp only [Fuel.ok_bind, rowSize_set]
    have hrows : List.range' (⌊aabb.top⌋₊ / statics.rowSize tileMapSize)
        (⌊aabb.top + aabb.height⌋₊ / statics.rowSize tileMapSize -
          ⌊aabb.top⌋₊ / statics.rowSize tileMapSize) =
        aabb.rows (statics.rowSize tileMapSize) := rfl
    rw [hrows]
    unfold Statics.cells Statics.advance
    cases hys : aabb.rows (statics.rowSize tileMapSize) with
    | nil =>
        have hconverts : aabb.top + aabb.height < 4294967296 ∧
            (([] : List Nat) ≠ [] → aabb.left + aabb.width < 4294967296) :=
          ⟨hbottom, fun h => absurd rfl h⟩
        rw [if_pos hconverts, if_pos rfl]
        rfl
    | cons y ys =>
        by_cases hright : aabb.left + aabb.width < 4294967296
        · have hconverts : aabb.top + aabb.height < 4294967296 ∧
              (y :: ys ≠ [] → aabb.left + aabb.width < 4294967296) := ⟨hbottom, fun _ => hright⟩
          rw [addRows_eq hin.left_nonneg hin.width_nonneg hright, if_pos hconverts]
          rfl
        · have hfails : ¬ (aabb.top + aabb.height < 4294967296 ∧
              (y :: ys ≠ [] → aabb.left + aabb.width < 4294967296)) :=
            fun h => hright (h.2 (List.cons_ne_nil y ys))
          rw [addRows_badCast hin.left_nonneg hin.width_nonneg hright, if_neg hfails]
  · have hfails : ¬ (aabb.top + aabb.height < 4294967296 ∧
        (aabb.rows (statics.rowSize tileMapSize) ≠ [] →
          aabb.left + aabb.width < 4294967296)) := fun h => hbottom h.1
    rw [if_neg hfails]
    split_ifs
    · simp only [Fuel.ok_bind]
      rw [getX_eq (add_nonneg hin.top_nonneg hin.height_nonneg), if_neg hbottom]
      rfl
    · rfl

def OfSize (tileCount : Vector2u) (mapElems : MapElems) : Prop :=
  ∀ i j, (Grid.cell mapElems i j).isSome ↔ i < tileCount.y ∧ j < tileCount.x

section Shape

variable {tileCount tileMapSize : Vector2u} {built built' : Statics × MapElems}

theorem OfSize.blockElem {object : FloatRect} {y x : Nat} {mapElems mapElems' : MapElems}
    (h : blockElem object y mapElems x = .ok mapElems') (hsize : OfSize tileCount mapElems) :
    OfSize tileCount mapElems' := by
  intro i j
  rw [Grid.isSome_cell_write h]
  exact hsize i j

theorem OfSize.addRows {object : FloatRect} {ys : List Nat}
    (h : addRows tileMapSize object ys built = .ok built') (hsize : OfSize tileCount built.2) :
    OfSize tileCount built'.2 := by
  induction ys generalizing built with
  | nil =>
      rw [← Except.ok.inj h]
      exact hsize
  | cons y ys ih =>
      obtain ⟨⟨first, statics₁⟩, -, hfirst⟩ := Fuel.bind_eq_ok.mp h
      obtain ⟨⟨last, statics₂⟩, -, hlast⟩ := Fuel.bind_eq_ok.mp hfirst
      obtain ⟨mapElems, hrow, hrest⟩ := Fuel.bind_eq_ok.mp hlast
      have hblocked : OfSize tileCount mapElems :=
        Fuel.foldlM_keeps (fun _ _ _ hblock => OfSize.blockElem hblock) hrow hsize
      exact ih hrest hblocked

theorem OfSize.addObject {object : FloatRect}
    (h : FyS.WorldServer.addObject tileMapSize built object = .ok built')
    (hsize : OfSize tileCount built.2) : OfSize tileCount built'.2 := by
  obtain ⟨⟨first, statics₁⟩, -, hfirst⟩ := Fuel.bind_eq_ok.mp h
  obtain ⟨⟨last, statics₂⟩, -, hrows⟩ := Fuel.bind_eq_ok.mp hfirst
  exact OfSize.addRows hrows hsize

end Shape

theorem rows_ne_nil_iff {size : Nat} : aabb.rows size ≠ [] ↔ ∃ i, aabb.InRows size i := by
  constructor
  · intro hne
    obtain ⟨i, hi⟩ := List.exists_mem_of_ne_nil _ hne
    exact ⟨i, FloatRect.mem_rows.mp hi⟩
  · rintro ⟨i, hi⟩
    exact List.ne_nil_of_mem (FloatRect.mem_rows.mpr hi)

theorem addObject_isOk_iff {width height : Nat} {tileCount : Vector2u}
    (hin : aabb.Inside width height) (hsize : OfSize tileCount mapElems) :
    (∃ built, addObject tileMapSize (statics, mapElems) aabb = .ok built) ↔
      Fits statics tileMapSize tileCount aabb := by
  have hcells : (∀ place ∈ statics.cells tileMapSize aabb,
      (Grid.cell mapElems place.1 place.2).isSome) ↔
        ∀ i j, statics.Lists tileMapSize aabb i j → i < tileCount.y ∧ j < tileCount.x := by
    simp only [hsize _ _, Statics.mem_cells, Prod.forall]
  rw [addObject_eq hin]
  constructor
  · rintro ⟨built, hbuilt⟩
    split_ifs at hbuilt with hconverts
    refine ⟨hconverts.1, ?_, hcells.mp ?_⟩
    · intro i hi
      exact hconverts.2 (rows_ne_nil_iff.mpr ⟨i, hi⟩)
    · rw [← Grid.writeAll_isOk_iff Fault.outOfRange (MapElement.block aabb)]
      cases hwrite : Grid.writeAll Fault.outOfRange (MapElement.block aabb)
          (statics.cells tileMapSize aabb) mapElems with
      | error fault =>
          rw [hwrite] at hbuilt
          cases hbuilt
      | ok written => exact ⟨written, rfl⟩
  · intro h
    have hright (hrows : aabb.rows (statics.rowSize tileMapSize) ≠ []) :
        aabb.left + aabb.width < 4294967296 := by
      obtain ⟨i, hi⟩ := rows_ne_nil_iff.mp hrows
      exact h.right_lt i hi
    obtain ⟨written, hwrite⟩ := (Grid.writeAll_isOk_iff Fault.outOfRange
      (MapElement.block aabb)).mpr (hcells.mpr h.inGrid)
    rw [if_pos ⟨h.bottom_lt, hright⟩, hwrite]
    exact ⟨_, rfl⟩

theorem addObject_spec {width height : Nat} {built : Statics × MapElems}
    (hin : aabb.Inside width height)
    (h : addObject tileMapSize (statics, mapElems) aabb = .ok built) :
    built.1 = statics.advance tileMapSize aabb ∧ ∀ i j, Grid.cell built.2 i j =
      if statics.Lists tileMapSize aabb i j then
        (Grid.cell mapElems i j).map (MapElement.block aabb)
      else Grid.cell mapElems i j := by
  rw [addObject_eq hin] at h
  split_ifs at h
  cases hwrite : Grid.writeAll Fault.outOfRange (MapElement.block aabb)
      (statics.cells tileMapSize aabb) mapElems with
  | error fault =>
      rw [hwrite] at h
      cases h
  | ok written =>
      rw [hwrite] at h
      rw [← Except.ok.inj h]
      refine ⟨rfl, ?_⟩
      intro i j
      simp only
      rw [Grid.cell_writeAll hwrite (statics.nodup_cells tileMapSize aabb)]
      simp only [Statics.mem_cells]

/-! ## All rectangles of a map -/

def MapElement.listing (objects : List FloatRect) (elem : MapElement) : MapElement :=
  objects.foldl (fun elem object => elem.block object) elem

theorem fits_advance {tileSize tileCount : Vector2u} {object : FloatRect} :
    Fits (statics.advance tileSize aabb) tileSize tileCount object ↔
      Fits statics tileSize tileCount object := by
  constructor
  · rintro ⟨hbottom, hright, hgrid⟩
    simp only [Statics.Lists, Statics.rowSize_advance, Statics.columnSize_advance] at hright hgrid
    exact ⟨hbottom, hright, hgrid⟩
  · rintro ⟨hbottom, hright, hgrid⟩
    constructor
    · exact hbottom
    · simpa only [Statics.rowSize_advance] using hright
    · simpa only [Statics.Lists, Statics.rowSize_advance, Statics.columnSize_advance] using hgrid

theorem addObjects_isOk_iff {width height : Nat} {tileCount : Vector2u} {objects : List FloatRect}
    (hin : ∀ aabb ∈ objects, aabb.Inside width height) (hsize : OfSize tileCount mapElems) :
    (∃ built, objects.foldlM (addObject tileMapSize) (statics, mapElems) = .ok built) ↔
      ∀ aabb ∈ objects, Fits statics tileMapSize tileCount aabb := by
  induction objects generalizing statics mapElems with
  | nil => simp [pure, Except.pure]
  | cons object rest ih =>
      rw [List.forall_mem_cons] at hin ⊢
      rw [List.foldlM_cons, ← addObject_isOk_iff hin.1 hsize]
      cases hfirst : addObject tileMapSize (statics, mapElems) object with
      | error fault => simp
      | ok built =>
          obtain ⟨statics₁, mapElems₁⟩ := built
          have hstatics : statics₁ = statics.advance tileMapSize object :=
            (addObject_spec hin.1 hfirst).1
          have hrest : (∃ built, rest.foldlM (addObject tileMapSize) (statics₁, mapElems₁) =
              .ok built) ↔ ∀ aabb ∈ rest, Fits statics₁ tileMapSize tileCount aabb :=
            ih hin.2 (OfSize.addObject hfirst hsize)
          simp only [hstatics, fits_advance] at hrest
          rw [hstatics, Fuel.ok_bind, hrest]
          constructor
          · intro h
            exact ⟨⟨_, rfl⟩, h⟩
          · intro h
            exact h.2

theorem cell_addObjects {width height : Nat} {objects : List FloatRect}
    {built : Statics × MapElems} (hin : ∀ aabb ∈ objects, aabb.Inside width height)
    (h : objects.foldlM (addObject tileMapSize) (statics, mapElems) = .ok built) :
    built.1 = objects.foldl (Statics.advance · tileMapSize ·) statics ∧
      ∀ i j, Grid.cell built.2 i j = (Grid.cell mapElems i j).map
        (MapElement.listing (objects.filter (statics.Lists tileMapSize · i j))) := by
  induction objects generalizing statics mapElems with
  | nil =>
      rw [← Except.ok.inj h]
      refine ⟨rfl, ?_⟩
      intro i j
      have hid : MapElement.listing [] = id := rfl
      rw [List.filter_nil, hid, Option.map_id]
      rfl
  | cons object rest ih =>
      rw [List.forall_mem_cons] at hin
      rw [List.foldlM_cons] at h
      obtain ⟨⟨statics₁, mapElems₁⟩, hfirst, hrest⟩ := Fuel.bind_eq_ok.mp h
      obtain ⟨hstatics, hcell⟩ := addObject_spec hin.1 hfirst
      simp only at hstatics hcell
      obtain ⟨hafter, hcells⟩ := ih hin.2 hrest
      rw [hstatics] at hafter hcells
      refine ⟨hafter, ?_⟩
      intro i j
      rw [hcells, hcell]
      have hlists (aabb : FloatRect) : (statics.advance tileMapSize object).Lists tileMapSize aabb i j ↔
          statics.Lists tileMapSize aabb i j := by
        unfold Statics.Lists
        rw [Statics.rowSize_advance, Statics.columnSize_advance]
      simp only [hlists, List.filter_cons, decide_eq_true_eq]
      split_ifs
      · rw [Option.map_map]
        rfl
      · rfl

/-! ## Whole maps -/

theorem collisions_append (layers rest : List Layer) :
    collisions (layers ++ rest) = collisions layers ++ collisions rest := by
  unfold collisions
  rw [List.filter_append, List.flatMap_append]

theorem addLayer_eq (built : Statics × MapElems) (layer : Layer) :
    addLayer tileMapSize built layer =
      (collisions [layer]).foldlM (addObject tileMapSize) built := by
  unfold addLayer addCollisionInMap addTriggerInMap collisions
  by_cases htype : layer.type = .Object
  · cases hcollision : isCollisionLayer layer with
    | true => simp [htype, hcollision]
    | false => simp [htype, hcollision, pure, Except.pure]
  · simp [htype, pure, Except.pure]

theorem addLayers_eq (layers : List Layer) (built : Statics × MapElems) :
    layers.foldlM (addLayer tileMapSize) built =
      (collisions layers).foldlM (addObject tileMapSize) built := by
  induction layers generalizing built with
  | nil => rfl
  | cons layer rest ih =>
      have hcons : collisions (layer :: rest) = collisions [layer] ++ collisions rest :=
        collisions_append [layer] rest
      rw [List.foldlM_cons, addLayer_eq, hcons, List.foldlM_append]
      apply congrArg
      ext1 built
      exact ih built

theorem ofSize_replicate (tileCount : Vector2u) :
    OfSize tileCount (List.replicate tileCount.y (List.replicate tileCount.x MapElement.new)) := by
  intro i j
  rw [Grid.cell_replicate]
  split_ifs with h
  · simp [h]
  · simp [h]

def AllFit (statics : Statics) (map : TmxMap) : Prop :=
  ∀ aabb ∈ collisions map.layers, Fits statics map.tileSize map.tileCount aabb

def Statics.after (statics : Statics) (map : TmxMap) : Statics :=
  (collisions map.layers).foldl (Statics.advance · map.tileSize ·) statics

theorem buildMapFromTmx_isOk_iff {map : TmxMap} {statics : Statics} :
    (∃ built, buildMapFromTmx map.toLoadedMap statics = .ok built) ↔ AllFit statics map := by
  unfold buildMapFromTmx
  rw [addLayers_eq]
  exact addObjects_isOk_iff map.inside (ofSize_replicate map.tileCount)

/-- The element of a map in that row and column. -/
theorem buildMapFromTmx_spec {map : TmxMap} {statics : Statics} {built : Statics × MapElems}
    (h : buildMapFromTmx map.toLoadedMap statics = .ok built) :
    built.1 = statics.after map ∧ ∀ i j, Grid.cell built.2 i j =
      if i < map.tileCount.y ∧ j < map.tileCount.x then
        some (MapElement.new.listing
          ((collisions map.layers).filter (statics.Lists map.tileSize · i j)))
      else none := by
  unfold buildMapFromTmx at h
  rw [addLayers_eq] at h
  obtain ⟨hstatics, hcells⟩ := cell_addObjects map.inside h
  refine ⟨hstatics, ?_⟩
  intro i j
  rw [hcells, Grid.cell_replicate]
  split_ifs
  · rfl
  · rfl

end FyS.WorldServer
