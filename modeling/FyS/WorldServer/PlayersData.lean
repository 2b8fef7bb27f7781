import FyS.Library.FirstMatches
import Mathlib.Algebra.Order.Field.Basic
import Mathlib.Data.List.FinRange
import Mathlib.Logic.Function.Basic

/-!
# `PlayersData` and `WorldServerEngine`

`engine/PlayersData` and `engine/WorldServerEngine`: the table of the players of a world
server and the rounds in which they move.  Coordinates are of any type with the operations
of `double`, with or without its rounding, and the map is what it accepts.
-/

namespace FyS.WorldServer

/-! ## `PlayersData` -/

def DEFAULT_DISTANCE {K : Type} [NatCast K] : K := (30 : Nat)

def LIMIT_NOTIFICATIONS_MOVE : Nat := 50

structure PlayerInfo (K : Type) where
  x : K
  y : K
  angle : K
deriving DecidableEq, Repr

inductive PlayerStatus where
  | FIGHTING
  | MOVING
  | STANDING
deriving DecidableEq, Repr

structure PlayersData (K : Type) (n : Nat) where
  positions : Fin n → PlayerInfo K
  status : Fin n → PlayerStatus
  identities : Fin n → String

variable {K : Type} {n : Nat}

namespace PlayersData

def setPlayerMoveAction (index : Fin n) (direction : K) (data : PlayersData K n) :
    PlayersData K n :=
  { data with
    positions :=
      Function.update data.positions index { data.positions index with angle := direction }
    status := Function.update data.status index .MOVING }

def stopPlayerMove (index : Fin n) (data : PlayersData K n) : PlayersData K n :=
  { data with status := Function.update data.status index .STANDING }

def setPlayerArena (index : Fin n) (data : PlayersData K n) : PlayersData K n :=
  { data with status := Function.update data.status index .FIGHTING }

def setPlace (index : Fin n) (x y : K) (data : PlayersData K n) : PlayersData K n :=
  { data with
    positions := Function.update data.positions index { data.positions index with x, y } }

def executeOnPlayers {σ : Type} (actionToExecute : Fin n → σ → σ) (s : σ) : σ :=
  (List.finRange n).foldl (fun s i => actionToExecute i s) s

section Arround

variable [Add K] [Sub K] [NatCast K] [LT K] [DecidableLT K]

def isArround (position other : PlayerInfo K) (distance : K) : Bool :=
  let minimumPos : PlayerInfo K := ⟨other.x - distance, other.y - distance, (0 : Nat)⟩
  let maximumPos : PlayerInfo K := ⟨other.x + distance, other.y + distance, (0 : Nat)⟩
  (decide (position.x > minimumPos.x) && decide (position.x < maximumPos.x)) &&
    (decide (position.y > minimumPos.y) && decide (position.x < maximumPos.y))

def arroundLoop (position : PlayerInfo K) (distance : K) (ignoreIndex : Nat)
    (data : PlayersData K n) : List (Fin n) → List (Fin n) → List (Fin n)
  | [], playerIdts => playerIdts
  | i :: rest, playerIdts =>
    if playerIdts.length ≥ LIMIT_NOTIFICATIONS_MOVE then playerIdts
    else if i = ignoreIndex then arroundLoop position distance ignoreIndex data rest playerIdts
    else if isArround position (data.positions i) distance then
      arroundLoop position distance ignoreIndex data rest (playerIdts ++ [i])
    else arroundLoop position distance ignoreIndex data rest playerIdts

def getPlayerIdtsArroundPos (position : PlayerInfo K) (distance : K) (ignoreIndex : Nat)
    (data : PlayersData K n) : List (Fin n) :=
  arroundLoop position distance ignoreIndex data (List.finRange n) []

def getPlayerIdtsArroundPlayer (indexPlayer : Fin n) (position : Option (PlayerInfo K))
    (distance : K) (data : PlayersData K n) : List (Fin n) :=
  match position with
  | some position => data.getPlayerIdtsArroundPos position distance indexPlayer
  | none => data.getPlayerIdtsArroundPos (data.positions indexPlayer) distance indexPlayer

end Arround

end PlayersData

/-! ## `WorldServerEngine` -/

/-- `std::cos` and `std::sin`. -/
structure Trigonometry (K : Type) where
  cos : K → K
  sin : K → K

def Trigonometry.straight {K : Type} [NatCast K] : Trigonometry K where
  cos _ := (1 : Nat)
  sin _ := (0 : Nat)

structure IdealTrigonometry (K : Type) [Field K] extends Trigonometry K where
  sq_add_sq : ∀ angle, cos angle ^ 2 + sin angle ^ 2 = 1

def IdealTrigonometry.straight {K : Type} [Field K] : IdealTrigonometry K where
  toTrigonometry := .straight
  sq_add_sq _ := by
    rw [Trigonometry.straight, Nat.cast_one, Nat.cast_zero, one_pow, zero_pow two_ne_zero, add_zero]

namespace WorldServerEngine

variable [Mul K] [NatCast K] (trig : Trigonometry K) (canMoveTo : K → K → Nat → Bool)

def velocity : K := (1 : Nat)

def futurePos (pi : PlayerInfo K) : PlayerInfo K :=
  ⟨pi.x * (velocity * trig.cos pi.angle), pi.y * (velocity * trig.sin pi.angle), (0 : Nat)⟩

variable [Add K] [Sub K] [LT K] [DecidableLT K]

def movePlayerAction (indexPlayer : Fin n) (data : PlayersData K n) :
    PlayersData K n × List (List (Fin n)) :=
  let futurePos := futurePos trig (data.positions indexPlayer)
  if canMoveTo futurePos.x futurePos.y 0 then
    let data := data.setPlace indexPlayer futurePos.x futurePos.y
    let clientsToNotify := data.getPlayerIdtsArroundPos (data.positions indexPlayer)
      DEFAULT_DISTANCE LIMIT_NOTIFICATIONS_MOVE
    (data, if clientsToNotify.isEmpty then [] else [clientsToNotify])
  else (data, [])

def executePendingActions (data : PlayersData K n) : PlayersData K n × List (List (Fin n)) :=
  PlayersData.executeOnPlayers (fun indexPlayer round =>
    if round.1.status indexPlayer = .MOVING then
      let moved := movePlayerAction trig canMoveTo indexPlayer round.1
      (moved.1, round.2 ++ moved.2)
    else round) (data, [])

end WorldServerEngine

end FyS.WorldServer
