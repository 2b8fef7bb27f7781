import Mathlib.Data.List.Basic

/-!
# `HexagonSide`

The 18 sides of the three hexagons of a pit, and the place of a character.
-/

namespace FyS.Arena

namespace HexagonSide

inductive Hexagon where
  | A
  | B
  | C
deriving DecidableEq, Repr

inductive Orientation where
  | A_N
  | A_NE
  | A_SE
  | A_S
  | A_SW
  | A_NW
  | B_N
  | B_NE
  | B_SE
  | B_S
  | B_SW
  | B_NW
  | C_N
  | C_NE
  | C_SE
  | C_S
  | C_SW
  | C_NW
  | NONE
deriving DecidableEq, Repr

/-- The destinations of `HexaSideOrient<HexaA, _>`. -/
def hexaA : Orientation → List Orientation
  | .A_N => [.A_NE, .A_NW]
  | .A_S => [.A_SE, .A_SW, .C_NW, .C_SW]
  | .A_NE => [.A_N, .A_SE, .B_S, .B_NW, .B_SW, .C_N, .C_NW]
  | .A_NW => [.A_N, .A_SW]
  | .A_SE => [.A_NE, .A_S, .B_S, .B_SW, .C_N, .C_NW, .C_SW]
  | .A_SW => [.A_NW, .A_S]
  | _ => []

/-- The destinations of `HexaSideOrient<HexaB, _>`. -/
def hexaB : Orientation → List Orientation
  | .B_N => [.B_NW, .B_NE]
  | .B_NE => [.B_N, .B_SE]
  | .B_NW => [.B_N, .B_SW, .A_N, .A_NE]
  | .B_S => [.B_SW, .B_SE, .C_N, .C_NE, .C_NW, .A_NE, .A_SE]
  | .B_SE => [.B_S, .B_NE, .C_N, .C_NE]
  | .B_SW => [.B_NW, .B_S, .C_N, .C_NW, .A_NE, .A_SE, .A_N]
  | _ => []

/-- The destinations of `HexaSideOrient<HexaC, _>`. -/
def hexaC : Orientation → List Orientation
  | .C_N => [.C_NE, .C_NW, .B_S, .B_SE, .B_SW, .A_NE, .A_SE]
  | .C_NE => [.C_N, .C_SE, .B_S, .B_SE]
  | .C_NW => [.C_N, .C_SW, .A_SE, .A_S, .A_NE, .B_S, .B_SW]
  | .C_S => [.C_SW, .C_SE]
  | .C_SW => [.C_S, .C_NW, .A_S, .A_SE]
  | .C_SE => [.C_S, .C_NE]
  | _ => []

end HexagonSide

structure HexagonSide where
  hexagon : HexagonSide.Hexagon
  side : HexagonSide.Orientation
deriving DecidableEq, Repr

namespace HexagonSide

/-- `HexaSide<Hexa>::isMoveable`. -/
def isMoveable (destinations : Orientation → List Orientation) (origin dest : Orientation) :
    Bool :=
  if origin = dest then false else (destinations origin).contains dest

def canMove (hs : HexagonSide) (destinationSide : Orientation) : Bool :=
  match hs.hexagon with
  | .A => isMoveable hexaA hs.side destinationSide
  | .B => isMoveable hexaB hs.side destinationSide
  | .C => isMoveable hexaC hs.side destinationSide

end HexagonSide

end FyS.Arena
