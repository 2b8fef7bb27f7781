import FyS.Arena.CommonTypes
import Mathlib.Data.List.Perm.Basic
import Mathlib.Data.List.Sort

/-!
# `PriorityOrderList`

The turn scheduler of one side of a fighting pit, as
`fightingPit/PriorityOrderList.cpp` computes it.  `calculatePriority` and
`getNext` call themselves without a syntactic measure, so both take fuel and
answer `Fault.outOfFuel` when it is spent; `back()` of an empty vector and an
`int` result outside the range of the target are faults as well.
-/

namespace FyS.Arena

/-- Ascending in the order of `PriorityElem::operator<`. -/
def Ascending (l : List PriorityElem) : Prop := l.Pairwise fun a b => a.speed ≤ b.speed

/-- What the standard promises of `std::sort` under `PriorityElem::operator<`:
some ascending permutation, ties in any order. -/
structure StdSort where
  run : List PriorityElem → List PriorityElem
  perm : ∀ l, (run l).Perm l
  ascending : ∀ l, Ascending (run l)

/-- Insertion sort, which `std::sort` amounts to on a short list. -/
def insertionSort : StdSort where
  run := List.insertionSort fun a b => a.speed ≤ b.speed
  perm := List.perm_insertionSort _
  ascending l := by
    have : Std.Total fun a b : PriorityElem => a.speed ≤ b.speed := ⟨fun a b => Int.le_total _ _⟩
    have : IsTrans PriorityElem fun a b => a.speed ≤ b.speed := ⟨fun _ _ _ => Int.le_trans⟩
    exact List.pairwise_insertionSort _ l

def shuffledSort (shuffle : List PriorityElem → List PriorityElem)
    (hperm : ∀ l, (shuffle l).Perm l) : StdSort where
  run l := insertionSort.run (shuffle l)
  perm l := (insertionSort.perm _).trans (hperm l)
  ascending _ := insertionSort.ascending _

/-- The parts of the target the scheduler depends on: its `std::sort`, the
values an `int` can hold, and how a `uint` counts on. -/
structure Platform where
  sort : StdSort
  fits : Int → Bool
  uint : Nat → Nat
  uint_succ_ne : ∀ n, uint (n + 1) ≠ n

inductive Fault where
  | outOfFuel
  | emptyBack
  | overflow
deriving DecidableEq, Repr

def Platform.int (P : Platform) (v : Int) : Except Fault Int :=
  if P.fits v then .ok v else .error .overflow

def Platform.unbounded (sort : StdSort) : Platform where
  sort := sort
  fits _ := true
  uint n := n
  uint_succ_ne := Nat.succ_ne_self

/-- Thirty-two bit two's complement `int` and a wrapping `uint` of the same width. -/
def Platform.int32 (sort : StdSort) : Platform where
  sort := sort
  fits v := decide (-2147483648 ≤ v ∧ v ≤ 2147483647)
  uint n := n % 4294967296
  uint_succ_ne n := by omega

structure PriorityOrderList where
  baseSpeed : List PriorityElem
  priorityList : List PriorityElem
  analyzedList : List PriorityElem
  currentPrio : PriorityElem
  currentTurn : Nat
deriving DecidableEq, Repr

namespace PriorityOrderList

variable (P : Platform)

def empty : PriorityOrderList := ⟨[], [], [], ⟨0, 0, false⟩, 0⟩

def getFastestBaseSpeed (s : PriorityOrderList) : Int :=
  (s.baseSpeed.getLast?.map (·.speed)).getD 0

def isPlayerSlowest (s : PriorityOrderList) (id : Nat) : Bool :=
  s.baseSpeed.head?.any (·.id == id)

/-! ## `customSort` -/

/-- `std::adjacent_find`: the index of the first element that satisfies `p`
together with its successor. -/
def adjacentFind (p : PriorityElem → PriorityElem → Bool) : List PriorityElem → Option Nat
  | e :: e2 :: l => if p e e2 then some 0 else (adjacentFind p (e2 :: l)).map (· + 1)
  | _ => none

/-- `std::reverse(begin + first, begin + last)`; an empty or inverted range is
left alone. -/
def reverseRange (l : List PriorityElem) (first last : Nat) : List PriorityElem :=
  l.take first ++ ((l.take last).drop first).reverse ++ l.drop (max first last)

/-- The loop over `_baseSpeed` in the comparator of `customSort`: the base
speed of the last match as a `uint`, 0 without a match. -/
def baseSpeedOf (baseSpeed : List PriorityElem) (id : Nat) : Nat :=
  baseSpeed.foldl (fun acc b => if b.id = id then (b.speed % 4294967296).toNat else acc) 0

def customSort (s : PriorityOrderList) : PriorityOrderList :=
  let sorted := P.sort.run s.analyzedList
  match adjacentFind (fun e e2 => e.speed == e2.speed &&
      decide (baseSpeedOf s.baseSpeed e.id > baseSpeedOf s.baseSpeed e2.id)) sorted with
  | none => { s with analyzedList := sorted }
  | some found =>
    match adjacentFind (fun e e2 => e.speed != e2.speed) sorted with
    | none => { s with analyzedList := sorted }
    | some toSwap => { s with analyzedList := reverseRange sorted found (toSwap + 1) }

/-! ## One turn -/

/-- `it->speed ? it->speed : 1`. -/
def orOne (speed : Int) : Int := if speed = 0 then 1 else speed

/-- The loop of `getComputedSpeed` over what is left of `_baseSpeed`;
`idNextInLine` is the id that stands before its first element. -/
def computedSpeedFrom (analyzedList : List PriorityElem) (id : Nat) :
    Nat → List PriorityElem → Int
  | _, [] => 1
  | idNextInLine, b :: rest =>
    if b.id = id then
      match analyzedList.find? (·.id == idNextInLine) with
      | some it => orOne it.speed
      | none => computedSpeedFrom analyzedList id b.id rest
    else computedSpeedFrom analyzedList id b.id rest

/-- The first base element looks at `_baseSpeed.back()`, the others at their
predecessor. -/
def getComputedSpeed (s : PriorityOrderList) (elemToCompute : PriorityElem) : Int :=
  computedSpeedFrom s.analyzedList elemToCompute.id
    ((s.baseSpeed.getLast?.map (·.id)).getD 0) s.baseSpeed

/-- `it->speed += baseSpeedElem.speed + getFastestBaseSpeed()` on the first
analyzed element with the id of `baseSpeedElem`, if there is one. -/
def payFirst (fastest : Int) (analyzedList : List PriorityElem) (baseSpeedElem : PriorityElem) :
    Except Fault (List PriorityElem) :=
  match analyzedList with
  | [] => .ok []
  | it :: rest =>
    if it.id = baseSpeedElem.id then do
      let bonus ← P.int (baseSpeedElem.speed + fastest)
      let speed ← P.int (it.speed + bonus)
      .ok ({ it with speed } :: rest)
    else do
      let rest ← payFirst fastest rest baseSpeedElem
      .ok (it :: rest)

def endTurnRoutine (s : PriorityOrderList) : Except Fault PriorityOrderList :=
  let s := { s with currentTurn := P.uint (s.currentTurn + 1) }
  if s.baseSpeed.length ≤ 1 then .ok s
  else do
    let analyzedList ← s.baseSpeed.foldlM (payFirst P s.getFastestBaseSpeed) s.analyzedList
    let s := customSort P { s with analyzedList }
    .ok { s with priorityList := s.priorityList.reverse }

/-- The body of `calculatePriority` up to its recursive call. -/
def pick (s : PriorityOrderList) : Except Fault PriorityOrderList :=
  let s := customSort P s
  match s.analyzedList.getLast? with
  | none => .error .emptyBack
  | some fastest => do
    let speed ←
      if s.analyzedList.length > 1 then P.int (fastest.speed - getComputedSpeed s fastest)
      else .ok fastest.speed
    let fastest := { fastest with speed }
    let s := { s with
      analyzedList := s.analyzedList.dropLast ++ [fastest]
      priorityList := s.priorityList ++ [fastest] }
    if isPlayerSlowest s fastest.id then endTurnRoutine P s else .ok s

def calculatePriority (turn : Nat) : Nat → PriorityOrderList → Except Fault PriorityOrderList
  | 0, _ => .error .outOfFuel
  | fuel + 1, s =>
    if s.currentTurn ≠ turn then .ok s
    else pick P s >>= calculatePriority turn fuel

def sortBaseAndCalculatePriority (fuel : Nat) (s : PriorityOrderList) :
    Except Fault PriorityOrderList :=
  if s.baseSpeed.isEmpty then .ok s
  else
    let s := { s with baseSpeed := P.sort.run s.baseSpeed }
    if s.currentTurn = 0 then
      .ok { s with
        analyzedList := s.baseSpeed
        priorityList := s.baseSpeed
        currentTurn := P.uint (s.currentTurn + 1) }
    else calculatePriority P s.currentTurn fuel s

/-! ## The public operations -/

/-- `PriorityOrderList(std::vector<PriorityElem>)`.  `_priorityList` starts
with four default elements for each participant. -/
def ofBaseSpeed (fuel : Nat) (baseSpeed : List PriorityElem) :
    Except Fault PriorityOrderList :=
  sortBaseAndCalculatePriority P fuel
    ⟨baseSpeed, List.replicate (baseSpeed.length * 4) ⟨0, 0, false⟩, [], ⟨0, 0, false⟩, 0⟩

def addParticipantInList (fuel : Nat) (id : Nat) (speed : Int) (isContender : Bool)
    (s : PriorityOrderList) : Except Fault PriorityOrderList :=
  if s.baseSpeed.any (fun prioElem => prioElem.id == id && prioElem.isContender == isContender) then
    .ok s
  else do
    let s := { s with baseSpeed := s.baseSpeed ++ [PriorityElem.mk id speed isContender] }
    let speed ← if s.currentTurn > 0 then P.int (speed + s.getFastestBaseSpeed) else .ok speed
    let s := { s with
      analyzedList := s.analyzedList ++ [PriorityElem.mk id speed isContender]
      priorityList := [] }
    let turn := s.currentTurn
    let s ← sortBaseAndCalculatePriority P fuel s
    .ok { s with currentTurn := turn }

def removeParticipantFromList (idParticipant : Nat) (s : PriorityOrderList) :
    PriorityOrderList :=
  { s with
    baseSpeed := s.baseSpeed.filter (·.id != idParticipant)
    priorityList := s.priorityList.filter (·.id != idParticipant)
    analyzedList := s.analyzedList.filter (·.id != idParticipant) }

def getNext : Nat → PriorityOrderList → Except Fault (PriorityElem × PriorityOrderList)
  | 0, _ => .error .outOfFuel
  | fuel + 1, s =>
    if s.baseSpeed.isEmpty then .ok (⟨0, 0, false⟩, s)
    else
      match s.priorityList.getLast? with
      | none => sortBaseAndCalculatePriority P fuel s >>= getNext fuel
      | some prio =>
        .ok (prio, { s with currentPrio := prio, priorityList := s.priorityList.dropLast })

end PriorityOrderList

end FyS.Arena
