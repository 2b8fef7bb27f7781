import Mathlib.Data.List.Basic

/-!
# `SizedQueue`

The bounded queue of `services/common/include/SizedQueue.hh`: an array and two
32 bit counters, which only a `pop` from the empty queue takes back.
-/

namespace FyS.Common

structure SizedQueue (α : Type) (sizeQueue : Nat) where
  tail : Nat
  head : Nat
  queue : List α
  length_queue : queue.length = sizeQueue
deriving DecidableEq, Repr

namespace SizedQueue

variable {α : Type} [Inhabited α] {sizeQueue : Nat}

def new : SizedQueue α sizeQueue :=
  ⟨0, 0, List.replicate sizeQueue default, List.length_replicate⟩

def getIndex (_ : SizedQueue α sizeQueue) (index : Nat) : Nat := index % sizeQueue

/-- `_tail - _head` as a `uint`. -/
def size (q : SizedQueue α sizeQueue) : Nat := (q.tail + 4294967296 - q.head) % 4294967296

def pop (q : SizedQueue α sizeQueue) : Option α × SizedQueue α sizeQueue :=
  if q.head < q.tail then
    (some (q.queue.getD (q.getIndex q.head) default), { q with head := (q.head + 1) % 4294967296 })
  else (none, { q with head := 0, tail := 0 })

def push (elem : α) (q : SizedQueue α sizeQueue) : Bool × SizedQueue α sizeQueue :=
  if q.size ≥ sizeQueue then (false, q)
  else (true, { q with
    queue := q.queue.set (q.getIndex q.tail) elem
    length_queue := by rw [List.length_set, q.length_queue]
    tail := (q.tail + 1) % 4294967296 })

end SizedQueue

end FyS.Common
