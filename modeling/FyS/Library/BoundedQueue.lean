import FyS.Library.Observation

/-!
# Bounded queues

A queue of at most `capacity` elements: a push is refused when it is full, a
pop gives the oldest element.  `Tallied` counts besides how many elements were
accepted since the queue was last found empty, which no answer depends on.
-/

namespace FyS.Library.BoundedQueue

open FyS.Library.Observation

universe u

inductive Op (α : Type u) where
  | push (a : α)
  | pop
deriving DecidableEq, Repr

inductive Answer (α : Type u) where
  | pushed (accepted : Bool)
  | popped (a : Option α)
deriving DecidableEq, Repr

structure Fifo (α : Type u) (capacity : Nat) where
  items : List α
  length_le : items.length ≤ capacity

variable {α : Type u} {capacity : Nat}

namespace Fifo

def empty : Fifo α capacity := ⟨[], Nat.zero_le _⟩

def push (a : α) (q : Fifo α capacity) : Bool × Fifo α capacity :=
  if h : q.items.length < capacity then
    (true, ⟨q.items ++ [a], by rw [List.length_append]; exact h⟩)
  else (false, q)

def pop (q : Fifo α capacity) : Option α × Fifo α capacity :=
  (q.items.head?, ⟨q.items.tail, by
    rw [List.length_tail]
    exact Nat.le_trans (Nat.sub_le _ _) q.length_le⟩)

def step (q : Fifo α capacity) : Op α → (Answer α × Nat) × Fifo α capacity
  | .push a => ((.pushed (q.push a).1, (q.push a).2.items.length), (q.push a).2)
  | .pop => ((.popped q.pop.1, q.pop.2.items.length), q.pop.2)

end Fifo

structure Tallied (α : Type u) (capacity : Nat) where
  queue : Fifo α capacity
  accepted : Nat

namespace Tallied

def empty : Tallied α capacity := ⟨.empty, 0⟩

def tally (t : Tallied α capacity) : Op α → Nat
  | .push _ => if t.queue.items.length < capacity then t.accepted + 1 else t.accepted
  | .pop => if t.queue.items.isEmpty then 0 else t.accepted

def step (t : Tallied α capacity) (op : Op α) : (Answer α × Nat) × Tallied α capacity :=
  ((t.queue.step op).1, ⟨(t.queue.step op).2, t.tally op⟩)

theorem observe_empty (ops : List (Op α)) :
    observe step (empty : Tallied α capacity) ops =
      observe Fifo.step (.empty : Fifo α capacity) ops := by
  apply observe_eq (R := fun t q => t.queue = q)
  · rintro t _ op rfl
    exact ⟨rfl, rfl⟩
  · rfl

end Tallied

end FyS.Library.BoundedQueue
