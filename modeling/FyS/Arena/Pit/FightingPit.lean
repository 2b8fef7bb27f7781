import FyS.Arena.Pit.Scripting
import FyS.Library.Trace

/-!
# `FightingPit`

`fightingPit/SideBattle.cpp`, `fightingPit/FightingPitLayout.cpp` and
`fightingPit/FightingPit.cpp`: the 18 side battles, their initialisation, the
arrival of a party team, and one tick of the game loop.  Times are
milliseconds.
-/

namespace FyS.Arena

open FyS.Library.Trace HexagonSide

/-! ## `SideBattle` -/

namespace PriorityOrderList

/-- `PriorityOrderList::empty`. -/
def isEmpty (s : PriorityOrderList) : Bool := s.baseSpeed.isEmpty

def getCurrent (s : PriorityOrderList) : PriorityElem := s.currentPrio

end PriorityOrderList

structure SideBattle where
  priorityOrderList : PriorityOrderList
  side : Orientation
  started : Bool
  endCurrentTurn : Int
deriving DecidableEq, Repr

namespace SideBattle

variable (P : Platform)

def new (side : Orientation) : SideBattle := ⟨.empty, side, false, 0⟩

def empty (sb : SideBattle) : Bool := sb.priorityOrderList.isEmpty

def addParticipantInList (fuel : Nat) (id : Nat) (speed : Int) (isContender : Bool)
    (sb : SideBattle) : Except Fault SideBattle := do
  let priorityOrderList ← sb.priorityOrderList.addParticipantInList P fuel id speed isContender
  .ok { sb with priorityOrderList }

def start (now timerInterlude : Int) (sb : SideBattle) : SideBattle :=
  if sb.started then sb else { sb with endCurrentTurn := now + timerInterlude, started := true }

def getCurrentParticipantTurn (fuel : Nat) (now timerInterlude : Int) (sb : SideBattle) :
    Except Fault (PriorityElem × SideBattle) :=
  let sb := sb.start now timerInterlude
  if now < sb.endCurrentTurn then .ok (sb.priorityOrderList.getCurrent, sb)
  else do
    let (elem, priorityOrderList) ← sb.priorityOrderList.getNext P fuel
    .ok (elem, { sb with endCurrentTurn := now + timerInterlude, priorityOrderList })

end SideBattle

/-- What the standard promises of `std::sort` of the side battles under a
comparison of counts. -/
structure SideSort where
  run : (SideBattle → Nat) → List SideBattle → List SideBattle
  perm : ∀ count l, (run count l).Perm l
  ascending : ∀ count l, (run count l).Pairwise fun lhs rhs => count lhs ≤ count rhs

def insertionSideSort : SideSort where
  run count := List.insertionSort fun lhs rhs => count lhs ≤ count rhs
  perm count := List.perm_insertionSort _
  ascending count l := by
    have : Std.Total fun lhs rhs : SideBattle => count lhs ≤ count rhs := ⟨fun _ _ => Nat.le_total _ _⟩
    have : IsTrans SideBattle fun lhs rhs => count lhs ≤ count rhs := ⟨fun _ _ _ => Nat.le_trans⟩
    exact List.pairwise_insertionSort _ l

/-! ## `FightingPit` -/

inductive Ending where
  | ON_HOLD
  | NOT_FINISHED
  | CONTENDER_WIN
  | ALLY_WIN
deriving DecidableEq, Repr

inductive Level where
  | EASY
  | MEDIUM
  | HARD
  | NONE
deriving DecidableEq, Repr

def retrieveTimeInterludeFromLevelDegree : Level → Int
  | .EASY => 20000
  | .MEDIUM => 10000
  | .HARD => 5000
  | .NONE => 0

structure FightingPit (C : ChaiScript) extends Board C where
  ending : Ending
  levelFightingPit : Level
  timeInterlude : Int
  sideBattles : List SideBattle

/-- One turn that a side hands out during a tick: the side before it was asked,
the element it answered, and the board on which the turn is then played. -/
structure Turn (C : ChaiScript) where
  now : Int
  timeInterlude : Int
  battle : SideBattle
  currentParticipant : PriorityElem
  board : Board C

namespace FightingPit

variable (P : Platform) {C : ChaiScript}

/-- The constructor; the engine starts in the state that `createChaiInstance` leaves. -/
def new (levelFightingPit : Level) (chai : C.State) : FightingPit C where
  contenders := ⟨[], []⟩
  partyTeams := .empty
  chai := chai
  ending := .ON_HOLD
  levelFightingPit := levelFightingPit
  timeInterlude := retrieveTimeInterludeFromLevelDegree levelFightingPit
  sideBattles := []

def checkEndStatusFightingPit (fp : FightingPit C) : Bool :=
  match fp.ending with
  | .NOT_FINISHED => true
  | .ON_HOLD => false
  | .ALLY_WIN => false
  | .CONTENDER_WIN => false

/-- The body of the loop of `continueBattle` for the side battle at `index`.  The
turn is logged for the statements about runs; the source keeps no log. -/
def playSide (fuel : Nat) (now : Int) (index : Nat) (fp : FightingPit C) :
    Traced (Turn C) PitFault (FightingPit C) :=
  match fp.sideBattles[index]? with
  | none => ⟨[], .ok fp⟩
  | some battle =>
    if battle.empty then ⟨[], .ok fp⟩
    else
      match battle.getCurrentParticipantTurn P fuel now fp.timeInterlude with
      | .error fault => ⟨[], .error (.scheduler fault)⟩
      | .ok (currentParticipant, battle') =>
        let board :=
          if currentParticipant.isContender then
            fp.toBoard.executeContenderAction currentParticipant
          else fp.toBoard.executeAllyAction currentParticipant
        ⟨[⟨now, fp.timeInterlude, battle, currentParticipant, fp.toBoard⟩],
          board.map fun board =>
            { fp with toBoard := board, sideBattles := fp.sideBattles.set index battle' }⟩

def continueBattle (fuel : Nat) (now : Int) (fp : FightingPit C) :
    Traced (Turn C) PitFault (FightingPit C) :=
  if !fp.checkEndStatusFightingPit then ⟨[], .ok fp⟩
  else runs (playSide P fuel now) (List.range fp.sideBattles.length) fp

def activeCharactersOnSide (fp : FightingPit C) (side : Orientation) : Nat :=
  fp.contenders.contenderOnSide side + fp.partyTeams.allyNumberOnSide side

def addPartyTeamAndRegisterActions (S : SideSort) (cml : String → Option String) (pt : PartyTeam)
    (fp : FightingPit C) : Except PitFault (FightingPit C) := do
  let (_, chai) ← ChaiRegister.loadAndRegisterAction cml pt fp.chai
  let fp := { fp with chai, partyTeams := fp.partyTeams.addPartyTeam pt }
  .ok { fp with
    sideBattles := S.run (fun sb => fp.activeCharactersOnSide sb.side) fp.sideBattles }

/-- The sides in the order in which `initializeSideBattles` creates their battles. -/
def sides : List Orientation :=
  [.A_N, .A_NE, .A_NW, .A_S, .A_SE, .A_SW,
    .B_N, .B_NE, .B_NW, .B_S, .B_SE, .B_SW,
    .C_N, .C_NE, .C_NW, .C_S, .C_SE, .C_SW]

/-- The conversion of `initialSpeed`, a `uint`, to the parameter `int speed`. -/
def intOfUint (n : Nat) : Int := if n < 2147483648 then n else n - 4294967296

/-- The body of the loop of `initializePriorityListInSidesBattle`. -/
def initializePriorityList (fuel : Nat) (fp : FightingPit C) (sb : SideBattle) :
    Except Fault SideBattle :=
  let memberBySide := fp.partyTeams.getMembersBySide sb.side
  let contenderBySide := fp.contenders.getContenderOnSide sb.side
  do
    let sb ← memberBySide.foldlM (fun sb member =>
      sb.addParticipantInList P fuel member.id (intOfUint member.status.initialSpeed) false) sb
    contenderBySide.zipIdx.foldlM (fun sb (contender, i) =>
      sb.addParticipantInList P fuel i (intOfUint contender.status.initialSpeed) true) sb

def initializePriorityListInSidesBattle (fuel : Nat) (fp : FightingPit C) :
    Except Fault (FightingPit C) := do
  let sideBattles ← fp.sideBattles.mapM (initializePriorityList P fuel fp)
  .ok { fp with sideBattles }

def initializeSideBattles (fuel : Nat) (fp : FightingPit C) : Except Fault (FightingPit C) :=
  initializePriorityListInSidesBattle P fuel
    { fp with sideBattles := fp.sideBattles ++ sides.map SideBattle.new }

end FightingPit

end FyS.Arena
