import FyS.Common.SizedQueue
import FyS.Library.BoundedQueue
import Mathlib.Data.Nat.ModEq

/-!
# `SizedQueue` as a bounded queue

The counters of a `SizedQueue` say how many elements were accepted and popped
since it was last found empty, in 32 bits.  Until the first of them wraps the
array holds the stored elements in order; once it has, `pop` takes the queue
for empty and forgets it.
-/

namespace FyS.Common.SizedQueue

open FyS.Library.BoundedQueue FyS.Library.Observation

variable {α : Type} [Inhabited α] {sizeQueue : Nat}

/-- An operation answers, and `size()` is looked at after it. -/
def step (q : SizedQueue α sizeQueue) : Op α → (Answer α × Nat) × SizedQueue α sizeQueue
  | .push elem => ((.pushed (q.push elem).1, (q.push elem).2.size), (q.push elem).2)
  | .pop => ((.popped q.pop.1, q.pop.2.size), q.pop.2)

/-- The element that stands at `index`, counted without end. -/
def cell (q : SizedQueue α sizeQueue) (index : Nat) : α :=
  q.queue.getD (q.getIndex index) default

structure Lays (q : SizedQueue α sizeQueue) (t : Tallied α sizeQueue) : Prop where
  head : q.head + t.queue.items.length = t.accepted
  head_lt : q.head < 4294967296
  tail : q.tail = t.accepted % 4294967296
  cells : t.accepted < 4294967296 →
    ∀ i (h : i < t.queue.items.length), q.cell (q.head + i) = t.queue.items[i]

theorem lays_new : Lays (new : SizedQueue α sizeQueue) .empty where
  head := rfl
  head_lt := Nat.zero_lt_succ _
  tail := rfl
  cells _ i h := absurd h (Nat.not_lt_zero i)

/-- A pop is sound as long as the counters have not wrapped. -/
def Unwrapped (t : Tallied α sizeQueue) (op : Op α) : Prop :=
  op = .pop → t.accepted < 4294967296

namespace Lays

variable {q : SizedQueue α sizeQueue} {t : Tallied α sizeQueue}

theorem size_eq (h : Lays q t) (hsize : sizeQueue < 4294967295) :
    q.size = t.queue.items.length := by
  have hhead := h.head
  have hhead_lt := h.head_lt
  have hlength := t.queue.length_le
  unfold size
  rw [h.tail]
  omega

theorem push_of_full (h : Lays q t) (hsize : sizeQueue < 4294967295)
    (hfull : ¬ t.queue.items.length < sizeQueue) (elem : α) : q.push elem = (false, q) := by
  rw [push, if_pos]
  rw [h.size_eq hsize]
  exact Nat.not_lt.mp hfull

theorem push_of_room (h : Lays q t) (hsize : sizeQueue < 4294967295)
    (hroom : t.queue.items.length < sizeQueue) (elem : α) :
    (q.push elem).1 = true ∧ Lays (q.push elem).2
      ⟨⟨t.queue.items ++ [elem], by rw [List.length_append]; exact hroom⟩, t.accepted + 1⟩ := by
  have hhead := h.head
  have htail := h.tail
  have hpush : q.push elem = (true, { q with
      queue := q.queue.set (q.getIndex q.tail) elem
      length_queue := by rw [List.length_set, q.length_queue]
      tail := (q.tail + 1) % 4294967296 }) := by
    rw [push, if_neg]
    rw [h.size_eq hsize]
    exact Nat.not_le.mpr hroom
  rw [hpush]
  refine ⟨rfl, ?_, h.head_lt, ?_, ?_⟩
  · show q.head + (t.queue.items ++ [elem]).length = t.accepted + 1
    rw [List.length_append, List.length_singleton]
    omega
  · show (q.tail + 1) % 4294967296 = (t.accepted + 1) % 4294967296
    omega
  · intro hlt i hi
    have hi : i < t.queue.items.length + 1 := by simpa using hi
    have hlt : t.accepted + 1 < 4294967296 := hlt
    have htail' : q.tail = t.accepted := htail.trans (Nat.mod_eq_of_lt (by omega))
    show (q.queue.set (q.tail % sizeQueue) elem).getD ((q.head + i) % sizeQueue) default = _
    rw [htail', List.getD_eq_getElem?_getD, List.getElem?_set,
      List.getElem_append]
    by_cases hlast : i < t.queue.items.length
    · -- an older element stands in another cell
      have hother : t.accepted % sizeQueue ≠ (q.head + i) % sizeQueue := by
        intro heq
        have hzero := Nat.sub_mod_eq_zero_of_mod_eq heq
        rw [Nat.mod_eq_of_lt (by omega)] at hzero
        omega
      rw [if_neg hother, dif_pos hlast, ← List.getD_eq_getElem?_getD]
      exact h.cells (by omega) i hlast
    · obtain rfl : i = t.queue.items.length := by omega
      have hcell : t.accepted % sizeQueue < q.queue.length := by
        rw [q.length_queue]
        exact Nat.mod_lt _ (by omega)
      rw [hhead, if_pos rfl, if_pos hcell, dif_neg hlast]
      simp

theorem pop_of_empty (h : Lays q t) (hempty : t.queue.items = [])
    (hlt : t.accepted < 4294967296) :
    q.pop.1 = none ∧ Lays q.pop.2 ⟨t.queue, 0⟩ := by
  have hhead := h.head
  have hpop : q.pop = (none, { q with head := 0, tail := 0 }) := by
    rw [pop, if_neg]
    rw [h.tail, Nat.mod_eq_of_lt hlt]
    rw [hempty] at hhead
    exact Nat.not_lt.mpr (Nat.le_of_eq hhead.symm)
  rw [hpop]
  refine ⟨rfl, ?_, Nat.zero_lt_succ _, rfl, ?_⟩
  · show 0 + t.queue.items.length = 0
    rw [hempty]
    rfl
  · intro _ i hi
    rw [hempty] at hi
    exact absurd hi (Nat.not_lt_zero i)

theorem pop_of_cons (h : Lays q t) {a : α} {rest : List α} (hitems : t.queue.items = a :: rest)
    (hlt : t.accepted < 4294967296) :
    q.pop.1 = some a ∧ Lays q.pop.2 ⟨t.queue.pop.2, t.accepted⟩ := by
  have hhead := h.head
  have hlength : t.queue.items.length = rest.length + 1 := by rw [hitems, List.length_cons]
  have hpop : q.pop = (some (q.cell q.head), { q with head := (q.head + 1) % 4294967296 }) := by
    rw [pop, if_pos]
    · rfl
    · rw [h.tail, Nat.mod_eq_of_lt hlt]
      omega
  have hoccupied : (q.head + 1) % 4294967296 = q.head + 1 := Nat.mod_eq_of_lt (by omega)
  have hcell (i : Nat) (hi : i < rest.length + 1) : q.cell (q.head + i) = (a :: rest)[i] := by
    have hcells := h.cells hlt i (by omega)
    simpa only [hitems] using hcells
  rw [hpop]
  refine ⟨?_, ?_, ?_, h.tail, ?_⟩
  · exact congrArg some (hcell 0 (Nat.zero_lt_succ _))
  · show (q.head + 1) % 4294967296 + t.queue.items.tail.length = t.accepted
    rw [hoccupied, hitems, List.tail_cons]
    omega
  · show (q.head + 1) % 4294967296 < 4294967296
    omega
  · intro _ i hi
    have hi : i < rest.length := by simpa [Fifo.pop, hitems] using hi
    show q.cell ((q.head + 1) % 4294967296 + i) = t.queue.items.tail[i]
    have hnext := hcell (i + 1) (by omega)
    rw [List.getElem_cons_succ] at hnext
    simp only [hoccupied, hitems, List.tail_cons, Nat.add_assoc, Nat.add_comm 1 i]
    exact hnext

/-- Once a counter has wrapped, a pop finds nothing although something is stored. -/
theorem pop_of_wrapped (h : Lays q t) (hsize : sizeQueue < 4294967295)
    (hwrap : 4294967296 ≤ t.accepted) : q.pop.1 = none ∧ t.queue.items ≠ [] := by
  have hhead := h.head
  have hhead_lt := h.head_lt
  have hlength := t.queue.length_le
  constructor
  · have hbehind : ¬ q.head < q.tail := by
      rw [h.tail]
      omega
    rw [pop, if_neg hbehind]
  · intro hnil
    rw [hnil, List.length_nil] at hhead
    omega

/-- While no counter has wrapped under a pop, every operation answers as the
reference queue does. -/
theorem step (h : Lays q t) (hsize : sizeQueue < 4294967295) {op : Op α}
    (hop : Unwrapped t op) :
    (q.step op).1 = (t.step op).1 ∧ Lays (q.step op).2 (t.step op).2 := by
  cases op with
  | push elem =>
      by_cases hroom : t.queue.items.length < sizeQueue
      · obtain ⟨haccepted, hnext⟩ := h.push_of_room hsize hroom elem
        have hstep : t.step (.push elem) = ((.pushed true, (t.queue.items ++ [elem]).length),
            ⟨⟨t.queue.items ++ [elem], by rw [List.length_append]; exact hroom⟩,
              t.accepted + 1⟩) := by
          simp [Tallied.step, Tallied.tally, Fifo.step, Fifo.push, hroom]
        rw [hstep, SizedQueue.step]
        refine ⟨?_, hnext⟩
        rw [haccepted, hnext.size_eq hsize]
      · have hstep : t.step (.push elem) = ((.pushed false, t.queue.items.length), t) := by
          simp [Tallied.step, Tallied.tally, Fifo.step, Fifo.push, hroom]
        rw [hstep, SizedQueue.step, h.push_of_full hsize hroom]
        exact ⟨by rw [h.size_eq hsize], h⟩
  | pop =>
      have hlt := hop rfl
      cases hitems : t.queue.items with
      | nil =>
          obtain ⟨hanswer, hnext⟩ := h.pop_of_empty hitems hlt
          have hsame : t.queue.pop.2 = t.queue := by
            obtain ⟨⟨items, hlength⟩, accepted⟩ := t
            subst hitems
            rfl
          have hstep : t.step .pop = ((.popped none, t.queue.items.length), ⟨t.queue, 0⟩) := by
            simp [Tallied.step, Tallied.tally, Fifo.step, hsame, hitems]
            simp [Fifo.pop, hitems]
          rw [hstep, SizedQueue.step]
          refine ⟨?_, hnext⟩
          rw [hanswer, hnext.size_eq hsize]
      | cons a rest =>
          obtain ⟨hanswer, hnext⟩ := h.pop_of_cons hitems hlt
          have hstep : t.step .pop =
              ((.popped (some a), t.queue.pop.2.items.length), ⟨t.queue.pop.2, t.accepted⟩) := by
            simp [Tallied.step, Tallied.tally, Fifo.step, Fifo.pop, hitems]
          rw [hstep, SizedQueue.step]
          refine ⟨?_, hnext⟩
          rw [hanswer, hnext.size_eq hsize]

theorem step_ne (h : Lays q t) (hsize : sizeQueue < 4294967295) {op : Op α}
    (hop : ¬ Unwrapped t op) : (q.step op).1 ≠ (t.step op).1 := by
  obtain ⟨rfl, hwrap⟩ : op = .pop ∧ 4294967296 ≤ t.accepted := by
    rw [Unwrapped, Classical.not_imp, Nat.not_lt] at hop
    exact hop
  obtain ⟨hnone, hne⟩ := h.pop_of_wrapped hsize hwrap
  intro heq
  have hpopped : Answer.popped q.pop.1 = Answer.popped t.queue.items.head? :=
    congrArg Prod.fst heq
  rw [hnone] at hpopped
  exact hne (List.head?_eq_none_iff.mp (Answer.popped.inj hpopped).symm)

end Lays

/-- Along a sequence of operations a queue answers as a bounded queue does,
sizes included, exactly when no pop comes after 2^32 or more elements were
accepted since the queue was created or last popped when it was empty. -/
theorem bounded_fifo_iff (hsize : sizeQueue < 4294967295) (ops : List (Op α)) :
    observe step (new : SizedQueue α sizeQueue) ops = observe Fifo.step (.empty : Fifo α sizeQueue) ops ↔
      Along Tallied.step Unwrapped (.empty : Tallied α sizeQueue) ops := by
  rw [← Tallied.observe_empty]
  apply observe_eq_iff (R := Lays)
  · intro q t op h hop
    exact h.step hsize hop
  · intro q t op h hop
    exact h.step_ne hsize hop
  · exact lays_new

theorem bounded_fifo_iff_seven :
    observe step (new : SizedQueue Nat 7) [.push 1, .push 2, .pop, .pop, .pop] =
        observe Fifo.step (.empty : Fifo Nat 7) [.push 1, .push 2, .pop, .pop, .pop] ↔
      Along Tallied.step Unwrapped (.empty : Tallied Nat 7) [.push 1, .push 2, .pop, .pop, .pop] :=
  bounded_fifo_iff (by decide) _

/-! ## A queue of one element, filled and emptied again and again -/

def turnover (n : Nat) : List (Op Nat) := (List.replicate n [.push 0, .pop]).flatten

theorem after_turnover (n k : Nat) :
    after Tallied.step (⟨.empty, k⟩ : Tallied Nat 1) (turnover n) = ⟨.empty, k + n⟩ := by
  induction n generalizing k with
  | zero => rfl
  | succ n ih =>
      have hnext : after Tallied.step (⟨.empty, k⟩ : Tallied Nat 1) (turnover (n + 1)) =
          after Tallied.step (⟨.empty, k + 1⟩ : Tallied Nat 1) (turnover n) := by
        rw [turnover, List.replicate_succ, List.flatten_cons]
        rfl
      rw [hnext, ih, Nat.add_assoc, Nat.add_comm 1 n]

/-- After 2^32 elements the one that is stored is lost. -/
theorem element_lost_after_wrap :
    ¬ ∀ (sizeQueue : Nat), sizeQueue < 4294967295 → ∀ ops : List (Op Nat),
      observe step (new : SizedQueue Nat sizeQueue) ops =
        observe Fifo.step (.empty : Fifo Nat sizeQueue) ops := by
  intro h
  have hsize : 1 < 4294967295 := by decide
  have hsame := h 1 hsize (turnover 4294967295 ++ [.push 0, .pop])
  rw [← Tallied.observe_empty] at hsame
  have hallowed : Along Tallied.step Unwrapped (.empty : Tallied Nat 1)
      (turnover 4294967295 ++ [.push 0, .pop]) := by
    refine (observe_eq_iff (R := Lays) ?_ ?_ lays_new _).mp hsame
    · intro q t op hq hop
      exact hq.step hsize hop
    · intro q t op hq hop
      exact hq.step_ne hsize hop
  have hlast := (along_append.mp hallowed).2
  rw [Tallied.empty, after_turnover] at hlast
  exact absurd (hlast.2.1 rfl) (by decide)

end FyS.Common.SizedQueue
