import Mathlib.Algebra.Order.Floor.Semiring
import Mathlib.Data.List.Infix
import Mathlib.Data.Rat.Floor
import FyS.Library.FloatingPoint
import FyS.Library.Grid

/-!
# `CollisionMap`

`engine/CollisionMap.cpp`: a TMX map is rasterised into a grid of elements, and a
position is looked up in it.  The map is made of rational numbers, in pixels, and a
position is whatever two variables of type `double` hold; the tile sizes that `getX` and
`getY` keep in static variables are the state of the process.
-/

namespace FyS.WorldServer

open FyS.Library

/-! ## TMX maps -/

structure Vector2u where
  x : Nat
  y : Nat
  x_lt : x < 4294967296
  y_lt : y < 4294967296
deriving DecidableEq, Repr

structure FloatRect where
  left : Rat
  top : Rat
  width : Rat
  height : Rat
deriving DecidableEq, Repr

namespace FloatRect

def Contains (aabb : FloatRect) (x y : Rat) : Prop :=
  x ≥ aabb.left ∧ x ≤ aabb.left + aabb.width ∧ y ≥ aabb.top ∧ y ≤ aabb.top + aabb.height

instance (aabb : FloatRect) (x y : Rat) : Decidable (aabb.Contains x y) :=
  inferInstanceAs (Decidable (_ ∧ _))

def Interior (aabb : FloatRect) (x y : Rat) : Prop :=
  x > aabb.left ∧ x < aabb.left + aabb.width ∧ y > aabb.top ∧ y < aabb.top + aabb.height

instance (aabb : FloatRect) (x y : Rat) : Decidable (aabb.Interior x y) :=
  inferInstanceAs (Decidable (_ ∧ _))

structure Inside (aabb : FloatRect) (width height : Nat) : Prop where
  left_nonneg : 0 ≤ aabb.left
  width_nonneg : 0 ≤ aabb.width
  right_le : aabb.left + aabb.width ≤ width
  top_nonneg : 0 ≤ aabb.top
  height_nonneg : 0 ≤ aabb.height
  bottom_le : aabb.top + aabb.height ≤ height

end FloatRect

/-- `tmx::Layer::Type`. -/
inductive LayerType where
  | Tile
  | Object
  | Image
  | Group
deriving DecidableEq, Repr

structure Layer where
  type : LayerType
  properties : List String
  objects : List FloatRect
deriving DecidableEq, Repr

/-- `std::string::find`, as a test. -/
def finds (text name : String) : Bool := decide (text.toList <:+: name.toList)

def isCollisionLayer (layer : Layer) : Bool := layer.properties.any (finds "collision")

def isTriggerLayer (layer : Layer) : Bool := layer.properties.any (finds "trigger")

def collisions (layers : List Layer) : List FloatRect :=
  (layers.filter fun layer => decide (layer.type = .Object) && isCollisionLayer layer).flatMap
    (·.objects)

/-- A map that `tmx::Map::load` accepts, wherever its rectangles lie. -/
structure LoadedMap where
  tileCount : Vector2u
  tileSize : Vector2u
  layers : List Layer
  tileSize_pos : 0 < tileSize.x ∧ 0 < tileSize.y

/-- A loaded map with its collision rectangles inside of it. -/
structure TmxMap extends LoadedMap where
  inside : ∀ aabb ∈ collisions layers,
    aabb.Inside (tileCount.x * tileSize.x) (tileCount.y * tileSize.y)

/-! ## Elements -/

inductive EElementType where
  | BLOCK
  | TRIGGER
  | TP_TRIGGER
  | NONE
deriving DecidableEq, Repr

inductive Fault where
  /-- a conversion of a floating point number that does not fit -/
  | badCast
  /-- an index past the end of a vector -/
  | outOfRange
  /-- `std::bitset::test` past its size -/
  | badLevel
  /-- a table that a message lacks -/
  | nullTable
deriving DecidableEq, Repr

structure MapElement where
  level : BitVec 4
  changeLevel : BitVec 4
  type : EElementType
  collisions : List FloatRect
deriving DecidableEq, Repr

namespace MapElement

def new : MapElement := ⟨0, 0, .NONE, []⟩

def setType (type : EElementType) (elem : MapElement) : MapElement := { elem with type }

def addCollision (object : FloatRect) (elem : MapElement) : MapElement :=
  { elem with collisions := elem.collisions ++ [object] }

def canGoToLevel (goLevel : Nat) (elem : MapElement) : Except Fault Bool :=
  if goLevel = 0 then .ok true
  else if 4 ≤ goLevel then .error .badLevel
  else .ok (elem.level.getLsbD goLevel || elem.changeLevel.getLsbD goLevel)

def canGoThrough (x y : Rat) (level : Nat) (elem : MapElement) : Except Fault Bool := do
  let canGoThrough ← elem.canGoToLevel level
  if canGoThrough && decide (elem.type = .BLOCK) then
    .ok (!elem.collisions.any fun aabb => decide (aabb.Contains x y))
  else .ok canGoThrough

end MapElement

/-! ## Building -/

abbrev MapElems := List (List MapElement)

/-- The static variables of `getX` and `getY`, which their first calls set. -/
structure Statics where
  gTileSizeX : Option Nat
  gTileSizeY : Option Nat
deriving DecidableEq, Repr

/-- `static_cast<unsigned>`. -/
def toUnsigned (x : Rat) : Option Nat := if -1 < x ∧ x < 4294967296 then some ⌊x⌋₊ else none

/-- `static_cast<unsigned long>`. -/
def toUnsignedLong (x : Rat) : Option Nat :=
  if -1 < x ∧ x < 18446744073709551616 then some ⌊x⌋₊ else none

def getX (x : Rat) (tileSizeX : Nat) (statics : Statics) : Except Fault (Nat × Statics) :=
  let gTileSizeX := statics.gTileSizeX.getD tileSizeX
  match toUnsigned x with
  | none => .error .badCast
  | some n => .ok (n / gTileSizeX, { statics with gTileSizeX := some gTileSizeX })

def getY (y : Rat) (tileSizeY : Nat) (statics : Statics) : Except Fault (Nat × Statics) :=
  let gTileSizeY := statics.gTileSizeY.getD tileSizeY
  match toUnsigned y with
  | none => .error .badCast
  | some n => .ok (n / gTileSizeY, { statics with gTileSizeY := some gTileSizeY })

def blockElem (object : FloatRect) (y : Nat) (mapElems : MapElems) (x : Nat) :
    Except Fault MapElems :=
  Grid.write .outOfRange (fun elem => (elem.setType .BLOCK).addCollision object) mapElems (y, x)

def addRows (tileMapSize : Vector2u) (object : FloatRect) :
    List Nat → Statics × MapElems → Except Fault (Statics × MapElems)
  | [], built => .ok built
  | y :: ys, (statics, mapElems) => do
    let (first, statics) ← getY object.left tileMapSize.x statics
    let (last, statics) ← getY (object.left + object.width) tileMapSize.x statics
    let mapElems ← (List.range' first (last - first)).foldlM (blockElem object y) mapElems
    addRows tileMapSize object ys (statics, mapElems)

def addObject (tileMapSize : Vector2u) (built : Statics × MapElems) (object : FloatRect) :
    Except Fault (Statics × MapElems) := do
  let (first, statics) ← getX object.top tileMapSize.y built.1
  let (last, statics) ← getX (object.top + object.height) tileMapSize.y statics
  addRows tileMapSize object (List.range' first (last - first)) (statics, built.2)

def addCollisionInMap (tileMapSize : Vector2u) (collisionLayer : Layer)
    (built : Statics × MapElems) : Except Fault (Statics × MapElems) :=
  collisionLayer.objects.foldlM (addObject tileMapSize) built

def addTriggerInMap (_triggerLayer : Layer) (built : Statics × MapElems) : Statics × MapElems :=
  built

def addLayer (tileMapSize : Vector2u) (built : Statics × MapElems) (layer : Layer) :
    Except Fault (Statics × MapElems) :=
  if layer.type = .Object then
    if isCollisionLayer layer then addCollisionInMap tileMapSize layer built
    else if isTriggerLayer layer then .ok (addTriggerInMap layer built)
    else .ok built
  else .ok built

def buildMapFromTmx (map : LoadedMap) (statics : Statics) : Except Fault (Statics × MapElems) :=
  map.layers.foldlM (addLayer map.tileSize)
    (statics, List.replicate map.tileCount.y (List.replicate map.tileCount.x .new))

/-! ## Queries -/

structure CollisionMap where
  boundaryX : Rat × Rat
  boundaryY : Rat × Rat
  mapElems : MapElems
deriving DecidableEq, Repr

def CollisionMap.elemAt (x y : Rat) (level : Nat) (map : CollisionMap) : Except Fault Bool :=
  match toUnsignedLong x, toUnsignedLong y with
  | some i, some j =>
    match Grid.cell map.mapElems i j with
    | none => .error .outOfRange
    | some elem => elem.canGoThrough x y level
  | _, _ => .error .badCast

/-- What passes the test of the boundaries without being a number is not cast to any index. -/
def CollisionMap.canMoveTo (x y : Value) (level : Nat) (map : CollisionMap) :
    Except Fault Bool :=
  if x < .number map.boundaryX.1 ∨ x > .number map.boundaryX.2 ∨
      y < .number map.boundaryY.1 ∨ y > .number map.boundaryY.2 then .ok false
  else
    match x, y with
    | .number x, .number y => map.elemAt x y level
    | _, _ => .error .badCast

end FyS.WorldServer
