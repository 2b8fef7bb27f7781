import FyS.Arena.HexagonSide
import FyS.Library.HexGrid

/-!
# `FightingPitLayout`

The moves of a `HexagonSide` and what `FightingPitLayout` makes of them: characters are
placed once and then move along the sides of the three hexagons of a pit.
-/

namespace FyS.Arena

open FyS.Library FyS.Library.HexGrid FyS.Library.Observation

namespace HexagonSide

/-! ## `HexagonSide` -/

def orientations : List Orientation :=
  [.A_N, .A_NE, .A_SE, .A_S, .A_SW, .A_NW,
    .B_N, .B_NE, .B_SE, .B_S, .B_SW, .B_NW,
    .C_N, .C_NE, .C_SE, .C_S, .C_SW, .C_NW, .NONE]

/-- `static_cast<int>`. -/
def toInt (side : Orientation) : Int := orientations.idxOf side

/-- `static_cast<Orientation>`; a value without an enumerator is `none`. -/
def ofInt (value : Int) : Option Orientation :=
  if value < 0 then none else orientations[value.toNat]?

def changeSide (destination : Orientation) (hs : HexagonSide) : HexagonSide :=
  match destination with
  | .A_N | .A_NE | .A_NW | .A_S | .A_SE | .A_SW => ⟨.A, destination⟩
  | .B_N | .B_NE | .B_NW | .B_S | .B_SE | .B_SW => ⟨.B, destination⟩
  | .C_N | .C_NE | .C_NW | .C_S | .C_SE | .C_SW => ⟨.C, destination⟩
  | .NONE => { hs with side := destination }

def isAmbushSide (hs : HexagonSide) : Bool :=
  hs.side == .A_NE || hs.side == .A_SE || hs.side == .B_S || hs.side == .B_SW ||
    hs.side == .C_N || hs.side == .C_NW

def move (destinationSide : Orientation) (forceMovement : Bool) (hs : HexagonSide) :
    Bool × HexagonSide :=
  if forceMovement || destinationSide != .NONE && hs.canMove destinationSide then
    (true, hs.changeSide destinationSide)
  else (false, hs)

def findLeft (hs : HexagonSide) : Option Orientation :=
  if hs.side = .A_N then some .A_NW
  else if hs.side = .B_N then some .B_NW
  else if hs.side = .C_N then some .C_NW
  else ofInt (toInt hs.side - 1)

def findRight (hs : HexagonSide) : Option Orientation :=
  if hs.side = .A_NW then some .A_N
  else if hs.side = .B_NW then some .B_N
  else if hs.side = .C_NW then some .C_N
  else ofInt (toInt hs.side + 1)

def findBack (hs : HexagonSide) : Orientation :=
  if !hs.isAmbushSide then .NONE
  else
    match hs.side with
    | .B_S => .C_N
    | .C_N => .B_S
    | .A_NE => .B_SW
    | .B_SW => .A_NE
    | .C_NW => .A_SE
    | .A_SE => .C_NW
    | _ => .NONE

/-- An unforced `move` to what was found; no side can be left for a value without an
enumerator. -/
def moveTo (found : Option Orientation) (hs : HexagonSide) : Bool × HexagonSide :=
  match found with
  | none => (false, hs)
  | some destinationSide => hs.move destinationSide false

def moveLeft (hs : HexagonSide) : Bool × HexagonSide := hs.moveTo hs.findLeft

def moveRight (hs : HexagonSide) : Bool × HexagonSide := hs.moveTo hs.findRight

def moveBack (hs : HexagonSide) : Bool × HexagonSide := hs.move hs.findBack false

/-- `HexagonSide(Orientation)`. -/
def new (orientation : Orientation) : HexagonSide := (move orientation true ⟨.A, .NONE⟩).2

end HexagonSide

open HexagonSide

/-! ## `FightingPitLayout` -/

inductive MoveDirection where
  | BACK
  | RIGHT
  | LEFT
deriving DecidableEq, Repr

namespace FightingPitLayout

def move (side : HexagonSide) (directionToMove : MoveDirection) : Bool × HexagonSide :=
  match directionToMove with
  | .RIGHT => side.moveRight
  | .LEFT => side.moveLeft
  | .BACK => side.moveBack

/-- `setContenderInitiatePosition` and `setAllyMoveInitiatePosition`, on the side of the
character. -/
def setInitiatePosition (characterSide : HexagonSide) (side : Orientation) : HexagonSide :=
  if characterSide.side ≠ .NONE then characterSide else (characterSide.move side true).2

end FightingPitLayout

/-! ## The board -/

namespace HexagonSide

def Hexagon.cell : Hexagon → Int × Int
  | .A => (0, 0)
  | .B => (1, -1)
  | .C => (1, 0)

def Board (cell : Int × Int) : Prop := cell ∈ [Hexagon.A.cell, Hexagon.B.cell, Hexagon.C.cell]

instance : DecidablePred Board := fun _ => inferInstanceAs (Decidable (_ ∈ _))

def place : Orientation → Option (Hexagon × Direction)
  | .A_N => some (.A, .N)
  | .A_NE => some (.A, .NE)
  | .A_SE => some (.A, .SE)
  | .A_S => some (.A, .S)
  | .A_SW => some (.A, .SW)
  | .A_NW => some (.A, .NW)
  | .B_N => some (.B, .N)
  | .B_NE => some (.B, .NE)
  | .B_SE => some (.B, .SE)
  | .B_S => some (.B, .S)
  | .B_SW => some (.B, .SW)
  | .B_NW => some (.B, .NW)
  | .C_N => some (.C, .N)
  | .C_NE => some (.C, .NE)
  | .C_SE => some (.C, .SE)
  | .C_S => some (.C, .S)
  | .C_SW => some (.C, .SW)
  | .C_NW => some (.C, .NW)
  | .NONE => none

def locate (side : Orientation) : Option Side :=
  (place side).map fun (hexagon, direction) => ⟨hexagon.cell, direction⟩

def Placed (hs : HexagonSide) : Prop := (place hs.side).map Prod.fst = some hs.hexagon

instance (hs : HexagonSide) : Decidable hs.Placed := inferInstanceAs (Decidable (_ = _))

end HexagonSide

end FyS.Arena
