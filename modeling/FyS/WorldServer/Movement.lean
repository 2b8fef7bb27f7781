import FyS.WorldServer.PlayersData
import Mathlib.Algebra.Order.Ring.Rat
import Mathlib.Tactic.Linarith
import Mathlib.Tactic.NormNum
import Mathlib.Tactic.Ring

/-!
# Rounds of movements

A player that moves should be displaced by his velocity along his angle.  The engine
multiplies his coordinates instead.  A round works out only where the map cannot tell,
or the products happen to be the displaced coordinates.
-/

namespace FyS.WorldServer

variable {K : Type} {n : Nat}

namespace WorldServerEngine

section Rounds

variable [Add K] [Sub K] [Mul K] [NatCast K] [LT K] [DecidableLT K]

variable (trig : Trigonometry K) (canMoveTo : K → K → Nat → Bool)

/-! ## What a round does -/

def moved (pi : PlayerInfo K) : PlayerInfo K :=
  if canMoveTo (futurePos trig pi).x (futurePos trig pi).y 0 then
    { pi with x := (futurePos trig pi).x, y := (futurePos trig pi).y }
  else pi

variable {trig canMoveTo}

theorem movePlayerAction_data (index : Fin n) (data : PlayersData K n) :
    (movePlayerAction trig canMoveTo index data).1 =
      { data with
        positions := Function.update data.positions index
          (moved trig canMoveTo (data.positions index)) } := by
  unfold movePlayerAction moved
  by_cases hcan : canMoveTo (futurePos trig (data.positions index)).x
    (futurePos trig (data.positions index)).y 0 = true
  · simp only [hcan, if_true]
    rfl
  · simp only [hcan, Bool.false_eq_true, if_false, Function.update_eq_self]

def turn (trig : Trigonometry K) (canMoveTo : K → K → Nat → Bool) (index : Fin n)
    (round : PlayersData K n × List (List (Fin n))) : PlayersData K n × List (List (Fin n)) :=
  if round.1.status index = .MOVING then
    ((movePlayerAction trig canMoveTo index round.1).1,
      round.2 ++ (movePlayerAction trig canMoveTo index round.1).2)
  else round

theorem turn_data (index : Fin n) (round : PlayersData K n × List (List (Fin n))) :
    (turn trig canMoveTo index round).1 =
      { round.1 with
        positions := Function.update round.1.positions index
          (if round.1.status index = .MOVING then
            moved trig canMoveTo (round.1.positions index) else round.1.positions index) } := by
  unfold turn
  split_ifs
  · exact movePlayerAction_data index round.1
  · rw [Function.update_eq_self]

theorem turns_status (indices : List (Fin n)) (round : PlayersData K n × List (List (Fin n))) :
    (indices.foldl (fun s i => turn trig canMoveTo i s) round).1.status = round.1.status ∧
      (indices.foldl (fun s i => turn trig canMoveTo i s) round).1.identities =
        round.1.identities := by
  induction indices generalizing round with
  | nil => exact ⟨rfl, rfl⟩
  | cons i rest ih =>
      rw [List.foldl_cons, (ih _).1, (ih _).2, turn_data]
      exact ⟨rfl, rfl⟩

theorem turns_positions {indices : List (Fin n)} (h : indices.Nodup)
    (round : PlayersData K n × List (List (Fin n))) (j : Fin n) :
    (indices.foldl (fun s i => turn trig canMoveTo i s) round).1.positions j =
      if j ∈ indices ∧ round.1.status j = .MOVING then
        moved trig canMoveTo (round.1.positions j)
      else round.1.positions j := by
  induction indices generalizing round with
  | nil => simp
  | cons i rest ih =>
      rw [List.nodup_cons] at h
      rw [List.foldl_cons, ih h.2, turn_data]
      by_cases hj : j = i
      · rw [hj, if_neg (fun hin => h.1 hin.1)]
        simp
      · simp [hj]

theorem executePendingActions_data (data : PlayersData K n) :
    (executePendingActions trig canMoveTo data).1 =
      { data with
        positions := fun i =>
          if data.status i = .MOVING then moved trig canMoveTo (data.positions i)
          else data.positions i } := by
  have hturns : executePendingActions trig canMoveTo data =
      (List.finRange n).foldl (fun s i => turn trig canMoveTo i s) (data, []) := rfl
  have hpositions : (executePendingActions trig canMoveTo data).1.positions = fun i =>
      if data.status i = .MOVING then moved trig canMoveTo (data.positions i)
      else data.positions i := by
    funext j
    rw [hturns, turns_positions (List.nodup_finRange n)]
    simp
  rw [← hpositions]
  obtain ⟨hstatus, hidentities⟩ : (executePendingActions trig canMoveTo data).1.status = data.status ∧
      (executePendingActions trig canMoveTo data).1.identities = data.identities :=
    turns_status (List.finRange n) (data, [])
  rw [← hstatus, ← hidentities]

end Rounds

/-! ## What a round should do -/

variable [Field K] [LinearOrder K] (trig : IdealTrigonometry K) (canMoveTo : K → K → Nat → Bool)

def displaced (pi : PlayerInfo K) : PlayerInfo K :=
  ⟨pi.x + velocity * trig.cos pi.angle, pi.y + velocity * trig.sin pi.angle, pi.angle⟩

/-- Who moves is displaced where the map allows it and stays otherwise, and nobody else moves. -/
structure RoundMoves (data after : PlayersData K n) : Prop where
  moving : ∀ i, data.status i = .MOVING → after.positions i =
    if canMoveTo (displaced trig (data.positions i)).x (displaced trig (data.positions i)).y 0 then
      displaced trig (data.positions i)
    else data.positions i
  others : ∀ i, data.status i ≠ .MOVING → after.positions i = data.positions i

/-- Where the map allows the sums they are the products; where it refuses them it refuses
the products as well, or they are where the player stands. -/
def StepFits (pi : PlayerInfo K) : Prop :=
  if canMoveTo (pi.x + trig.cos pi.angle) (pi.y + trig.sin pi.angle) 0 then
    pi.x * trig.cos pi.angle = pi.x + trig.cos pi.angle ∧
      pi.y * trig.sin pi.angle = pi.y + trig.sin pi.angle
  else
    canMoveTo (pi.x * trig.cos pi.angle) (pi.y * trig.sin pi.angle) 0 = false ∨
      pi.x * trig.cos pi.angle = pi.x ∧ pi.y * trig.sin pi.angle = pi.y

variable {trig canMoveTo}

omit [LinearOrder K] in
theorem displaced_ne (pi : PlayerInfo K) :
    ¬ (pi.x + trig.cos pi.angle = pi.x ∧ pi.y + trig.sin pi.angle = pi.y) := by
  rintro ⟨hx, hy⟩
  have hone := trig.sq_add_sq pi.angle
  rw [add_eq_left.mp hx, add_eq_left.mp hy] at hone
  simp at hone

omit [LinearOrder K] in
theorem moved_eq_iff (pi : PlayerInfo K) :
    moved trig.toTrigonometry canMoveTo pi =
        (if canMoveTo (displaced trig pi).x (displaced trig pi).y 0 then displaced trig pi
        else pi) ↔ StepFits trig canMoveTo pi := by
  obtain ⟨x, y, angle⟩ := pi
  unfold moved displaced futurePos velocity StepFits
  simp only [Nat.cast_one, one_mul]
  by_cases hsum : canMoveTo (x + trig.cos angle) (y + trig.sin angle) 0 = true
  · rw [if_pos hsum, if_pos hsum]
    split_ifs with hproduct
    · simp
    · have hne : ¬ (x + trig.cos angle = x ∧ y + trig.sin angle = y) := displaced_ne ⟨x, y, angle⟩
      simp only [PlayerInfo.mk.injEq, and_true]
      constructor
      · rintro ⟨hx, hy⟩
        exact absurd ⟨hx.symm, hy.symm⟩ hne
      · rintro ⟨hx, hy⟩
        rw [hx, hy] at hproduct
        exact absurd hsum hproduct
  · rw [if_neg hsum, if_neg hsum]
    split_ifs with hproduct
    · simp [hproduct]
    · simp [hproduct]

theorem roundMoves_iff (data : PlayersData K n) :
    RoundMoves trig canMoveTo data (executePendingActions trig.toTrigonometry canMoveTo data).1 ↔
      ∀ i, data.status i = .MOVING → StepFits trig canMoveTo (data.positions i) := by
  rw [executePendingActions_data]
  constructor
  · intro h i hi
    have hmoving := h.moving i hi
    simp only [hi, if_true] at hmoving
    exact (moved_eq_iff _).mp hmoving
  · intro h
    constructor
    · intro i hi
      simp only [hi, if_true]
      exact (moved_eq_iff _).mpr (h i hi)
    · intro i hi
      simp only [hi, if_false]

/-! ## Runs -/

inductive Event (K : Type) (n : Nat) where
  | executePendingActions
  | setPlayerMoveAction (index : Fin n) (direction : K)
  | stopPlayerMove (index : Fin n)
  | setPlayerArena (index : Fin n)
deriving DecidableEq, Repr

variable (trig canMoveTo)

def happen (data : PlayersData K n) : Event K n → PlayersData K n
  | .executePendingActions => (executePendingActions trig.toTrigonometry canMoveTo data).1
  | .setPlayerMoveAction index direction => data.setPlayerMoveAction index direction
  | .stopPlayerMove index => data.stopPlayerMove index
  | .setPlayerArena index => data.setPlayerArena index

def run (events : List (Event K n)) (data : PlayersData K n) : PlayersData K n :=
  events.foldl (happen trig canMoveTo) data

/-- All rounds of a run are right exactly when all steps in them fit. -/
theorem rounds_move_iff (data : PlayersData K n) (events : List (Event K n)) :
    (∀ before after, events = before ++ .executePendingActions :: after →
        RoundMoves trig canMoveTo (run trig canMoveTo before data)
          (run trig canMoveTo (before ++ [.executePendingActions]) data)) ↔
      ∀ before after, events = before ++ .executePendingActions :: after →
        ∀ i, (run trig canMoveTo before data).status i = .MOVING →
          StepFits trig canMoveTo ((run trig canMoveTo before data).positions i) := by
  have hround (before : List (Event K n)) :
      run trig canMoveTo (before ++ [.executePendingActions]) data =
        (executePendingActions trig.toTrigonometry canMoveTo (run trig canMoveTo before data)).1 := by
    rw [run, List.foldl_append]
    rfl
  constructor
  · intro h before after hsplit
    have hmoves := h before after hsplit
    rw [hround] at hmoves
    exact (roundMoves_iff _).mp hmoves
  · intro h before after hsplit
    rw [hround]
    exact (roundMoves_iff _).mpr (h before after hsplit)

/-- On a map that allows everything a player at the origin stays there. -/
theorem stuck_at_origin :
    ¬ ∀ (trig : IdealTrigonometry Rat) (canMoveTo : Rat → Rat → Nat → Bool)
      (data : PlayersData Rat 1),
      RoundMoves trig canMoveTo data (executePendingActions trig.toTrigonometry canMoveTo data).1 := by
  intro h
  have hmoves := h .straight (fun _ _ _ => true) ⟨fun _ => ⟨0, 0, 0⟩, fun _ => .MOVING, fun _ => ""⟩
  have hfits := (roundMoves_iff _).mp hmoves 0 rfl
  simp [StepFits, IdealTrigonometry.straight, Trigonometry.straight] at hfits

end WorldServerEngine

end FyS.WorldServer
