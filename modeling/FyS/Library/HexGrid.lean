import Mathlib.Algebra.Group.Int.Defs
import Mathlib.Algebra.Group.Prod
import Mathlib.Logic.Relation
import FyS.Library.Observation

/-!
# Walks along the sides of hexagons

A plane of hexagons with flat tops, in axial coordinates.  A side is seen from inside its
hexagon, so that two sides lie back to back between neighbours.  A walker on a board of
hexagons turns to the side on the left or on the right, or crosses to the side at the back of
his own.
-/

namespace FyS.Library.HexGrid

open FyS.Library.Observation

inductive Direction where
  | N
  | NE
  | SE
  | S
  | SW
  | NW
deriving DecidableEq, Repr

namespace Direction

def right : Direction → Direction
  | .N => .NE
  | .NE => .SE
  | .SE => .S
  | .S => .SW
  | .SW => .NW
  | .NW => .N

def left : Direction → Direction
  | .N => .NW
  | .NW => .SW
  | .SW => .S
  | .S => .SE
  | .SE => .NE
  | .NE => .N

def opposite (d : Direction) : Direction := d.right.right.right

def offset : Direction → Int × Int
  | .N => (0, -1)
  | .NE => (1, -1)
  | .SE => (1, 0)
  | .S => (0, 1)
  | .SW => (-1, 1)
  | .NW => (-1, 0)

@[simp] theorem right_left (d : Direction) : d.left.right = d := by
  cases d <;> rfl

@[simp] theorem left_right (d : Direction) : d.right.left = d := by
  cases d <;> rfl

@[simp] theorem opposite_opposite (d : Direction) : d.opposite.opposite = d := by
  cases d <;> rfl

@[simp] theorem offset_opposite (d : Direction) : d.opposite.offset = -d.offset := by
  cases d <;> rfl

theorem exists_turns (d e : Direction) : ∃ n, Direction.right^[n] d = e := by
  have hnorth (e : Direction) : ∃ n, Direction.right^[n] .N = e := by
    cases e with
    | N => exact ⟨0, rfl⟩
    | NE => exact ⟨1, rfl⟩
    | SE => exact ⟨2, rfl⟩
    | S => exact ⟨3, rfl⟩
    | SW => exact ⟨4, rfl⟩
    | NW => exact ⟨5, rfl⟩
  have hback : ∃ n, Direction.right^[n] d = .N := by
    cases d with
    | N => exact ⟨0, rfl⟩
    | NE => exact ⟨5, rfl⟩
    | SE => exact ⟨4, rfl⟩
    | S => exact ⟨3, rfl⟩
    | SW => exact ⟨2, rfl⟩
    | NW => exact ⟨1, rfl⟩
  obtain ⟨m, hm⟩ := hback
  obtain ⟨n, hn⟩ := hnorth e
  refine ⟨n + m, ?_⟩
  rw [Function.iterate_add_apply, hm, hn]

end Direction

structure Side where
  cell : Int × Int
  direction : Direction
deriving DecidableEq, Repr

namespace Side

def left (s : Side) : Side := { s with direction := s.direction.left }

def right (s : Side) : Side := { s with direction := s.direction.right }

def across (s : Side) : Side := ⟨s.cell + s.direction.offset, s.direction.opposite⟩

/-- Three hexagons meet in a corner: it is the sum of their centres. -/
def leftCorner (s : Side) : Int × Int :=
  s.cell + (s.cell + s.direction.offset) + (s.cell + s.direction.left.offset)

def rightCorner (s : Side) : Int × Int :=
  s.cell + (s.cell + s.direction.offset) + (s.cell + s.direction.right.offset)

def Touch (s t : Side) : Prop :=
  s.leftCorner = t.leftCorner ∨ s.leftCorner = t.rightCorner ∨
    s.rightCorner = t.leftCorner ∨ s.rightCorner = t.rightCorner

instance (s t : Side) : Decidable (s.Touch t) :=
  inferInstanceAs (Decidable (_ ∨ _ ∨ _ ∨ _))

@[simp] theorem across_across (s : Side) : s.across.across = s := by
  obtain ⟨cell, d⟩ := s
  simp [across]

theorem Touch.symm {s t : Side} (h : s.Touch t) : t.Touch s := by
  rcases h with h | h | h | h
  · exact .inl h.symm
  · exact .inr (.inr (.inl h.symm))
  · exact .inr (.inl h.symm)
  · exact .inr (.inr (.inr h.symm))

end Side

/-! ## Walks -/

inductive Move where
  | left
  | right
  | across
deriving DecidableEq, Repr

def Move.undo : Move → Move
  | .left => .right
  | .right => .left
  | .across => .across

section Board

variable (board : Int × Int → Prop) [DecidablePred board]

def step (s : Side) : Move → Bool × Side
  | .left => (true, s.left)
  | .right => (true, s.right)
  | .across => if board s.across.cell then (true, s.across) else (false, s)

variable {board}

theorem step_cell {s : Side} (h : board s.cell) (m : Move) : board (step board s m).2.cell := by
  cases m with
  | left => exact h
  | right => exact h
  | across =>
      by_cases hback : board s.across.cell
      · simpa only [step, if_pos hback] using hback
      · simpa only [step, if_neg hback] using h

theorem step_undo {s : Side} (h : board s.cell) (m : Move) :
    (step board (step board s m).2 m.undo).2 = s := by
  cases m with
  | left => simp [step, Move.undo, Side.left, Side.right]
  | right => simp [step, Move.undo, Side.left, Side.right]
  | across =>
      by_cases hback : board s.across.cell
      · simp [step, Move.undo, hback, h]
      · simp [step, Move.undo, hback]

/-- The way back: the moves undone one by one, from the last to the first. -/
theorem after_undo {s : Side} (h : board s.cell) (moves : List Move) :
    after (step board) (after (step board) s moves) (moves.reverse.map Move.undo) = s := by
  induction moves generalizing s with
  | nil => rfl
  | cons m moves ih =>
      have hrest := ih (step_cell h m)
      rw [List.reverse_cons, List.map_append, after_append]
      show (step board (after (step board) (after (step board) (step board s m).2 moves)
        (moves.reverse.map Move.undo)) m.undo).2 = s
      rw [hrest, step_undo h]

/-! ## What can be reached -/

theorem after_turns (s : Side) (n : Nat) :
    after (step board) s (List.replicate n .right) =
      { s with direction := Direction.right^[n] s.direction } := by
  induction n generalizing s with
  | zero => rfl
  | succ n ih =>
      rw [List.replicate_succ, after, List.foldl_cons]
      exact ih s.right

theorem exists_turns (s : Side) (d : Direction) :
    ∃ moves, after (step board) s moves = { s with direction := d } := by
  obtain ⟨n, hn⟩ := Direction.exists_turns s.direction d
  refine ⟨List.replicate n .right, ?_⟩
  rw [after_turns, hn]

def Neighbour (board : Int × Int → Prop) (c d : Int × Int) : Prop :=
  board d ∧ ∃ direction : Direction, d = c + direction.offset

theorem exists_walk {s t : Side} (h : Relation.ReflTransGen (Neighbour board) s.cell t.cell) :
    ∃ moves, after (step board) s moves = t := by
  obtain ⟨target, direction⟩ := t
  change Relation.ReflTransGen (Neighbour board) s.cell target at h
  induction h generalizing direction with
  | refl => exact exists_turns s direction
  | @tail between _ _ hnext ih =>
      obtain ⟨hboard, d, rfl⟩ := hnext
      obtain ⟨there, hthere⟩ := ih d
      have hcross : after (step board) ⟨between, d⟩ [.across] = ⟨between + d.offset, d.opposite⟩ :=
        congrArg Prod.snd (if_pos hboard)
      obtain ⟨turns, hturns⟩ : ∃ turns, after (step board) ⟨between + d.offset, d.opposite⟩ turns =
          ⟨between + d.offset, direction⟩ := exists_turns _ direction
      refine ⟨there ++ [.across] ++ turns, ?_⟩
      rw [after_append, after_append, hthere, hcross, hturns]

end Board

end FyS.Library.HexGrid
