import FyS.Library.OrderedMap
import Mathlib.Algebra.GroupWithZero.Nat
import Mathlib.Data.Int.Order.Basic

/-!
# `BoundaryMap`

`BoundaryMap.hh`: a map that answers with the first key not below the one that
is asked for.  The only user of `insert` gives it ascending indices, so what an
insertion meets is decided by the last two entries.
-/

namespace FyS.Common

open FyS.Library

/-- Ways `insert` can fail: the next key is no `int`, or an iterator is read
after its entry was erased. -/
inductive BoundaryFault where
  | overflow
  | erasedIterator
deriving DecidableEq, Repr

structure BoundaryMap (α : Type) where
  map : OrderedMap Int α

namespace BoundaryMap

variable {α : Type}

def new : BoundaryMap α := ⟨.empty⟩

/-- `lower_bound`; `none` is `end()`. -/
def get (index : Int) (bm : BoundaryMap α) : Option (Int × α) := bm.map.lowerBound index

def insert [DecidableEq α] (index : Int) (element : α) (bm : BoundaryMap α) :
    Except BoundaryFault (BoundaryMap α) :=
  match bm.get index with
  | none => .ok ⟨bm.map.assign index element⟩
  | some (first, second) =>
    if element ≠ second then
      if first + 1 ≤ 2147483647 then .ok ⟨bm.map.assign (first + 1) element⟩
      else .error .overflow
    else
      -- `_map.erase(it)` stands before `_map[it->first]`
      .error .erasedIterator

/-! ## The end of a map -/

/-- The end of a map that was filled up to `index`: an entry there, and
possibly one on the next key, but none beyond. -/
structure EndsWith (bm : BoundaryMap α) (index : Int) (here : α) (above : Option α) : Prop where
  mem_here : (index, here) ∈ bm.map.entries
  mem_above : ∀ a, above = some a → (index + 1, a) ∈ bm.map.entries
  above_eq : ∀ e ∈ bm.map.entries, index < e.1 → e.1 = index + 1 ∧ above = some e.2

namespace EndsWith

variable {bm : BoundaryMap α} {index : Int} {here element : α} {above : Option α}

theorem le (h : bm.EndsWith index here above) {e : Int × α} (he : e ∈ bm.map.entries) :
    e.1 ≤ index + 1 := by
  by_cases hlt : index < e.1
  · exact (h.above_eq e he hlt).1.le
  · omega

theorem get_of_le (h : bm.EndsWith index here above) {r : Int} (hr : r ≤ index) :
    ∃ e, bm.get r = some e := by
  cases hget : bm.get r with
  | none =>
      have hlt := OrderedMap.lowerBound_eq_none_iff.mp hget _ h.mem_here
      omega
  | some e => exact ⟨e, rfl⟩

theorem get_here (h : bm.EndsWith index here above) : bm.get index = some (index, here) := by
  apply OrderedMap.lowerBound_eq_some_iff.mpr
  refine ⟨h.mem_here, le_refl index, ?_⟩
  intro e he hne hle
  apply lt_of_le_of_ne hle
  intro heq
  exact hne (OrderedMap.eq_of_mem he h.mem_here heq.symm)

theorem get_next (h : bm.EndsWith index here above) :
    bm.get (index + 1) = above.map (index + 1, ·) := by
  cases above with
  | none =>
      apply OrderedMap.lowerBound_eq_none_iff.mpr
      intro e he
      by_contra hle
      obtain ⟨-, hnone⟩ := h.above_eq e he (by omega)
      cases hnone
  | some a =>
      apply OrderedMap.lowerBound_eq_some_iff.mpr
      refine ⟨h.mem_above a rfl, le_refl _, ?_⟩
      intro e he hne hle
      have heq : e.1 = index + 1 := le_antisymm (h.le he) hle
      exact absurd (OrderedMap.eq_of_mem he (h.mem_above a rfl) heq) hne

theorem get_beyond (h : bm.EndsWith index here above) {i : Int} (hi : index + 1 < i) :
    bm.get i = none := by
  apply OrderedMap.lowerBound_eq_none_iff.mpr
  intro e he
  exact lt_of_le_of_lt (h.le he) hi

theorem of_assign {i : Int} (hnone : bm.get i = none) (element : α) :
    EndsWith ⟨bm.map.assign i element⟩ i element none := by
  have hlt := OrderedMap.lowerBound_eq_none_iff.mp hnone
  constructor
  · rw [OrderedMap.mem_assign_iff]
    exact .inl rfl
  · intro a ha
    cases ha
  · intro e he hi
    rcases OrderedMap.mem_assign_iff.mp he with rfl | ⟨he, -⟩
    · exact absurd hi (lt_irrefl _)
    · exact absurd (hlt e he) (lt_asymm hi)

theorem assign_next (h : bm.EndsWith index here above) (element : α) :
    EndsWith ⟨bm.map.assign (index + 1) element⟩ index here (some element) := by
  constructor
  · rw [OrderedMap.mem_assign_iff]
    refine .inr ⟨h.mem_here, ?_⟩
    show index ≠ index + 1
    omega
  · intro a ha
    rw [OrderedMap.mem_assign_iff, Option.some.inj ha]
    exact .inl rfl
  · intro e he hlt
    rcases OrderedMap.mem_assign_iff.mp he with rfl | ⟨he, hne⟩
    · exact ⟨rfl, rfl⟩
    · exact absurd (h.above_eq e he hlt).1 hne

theorem next (h : bm.EndsWith index here (some element)) : bm.EndsWith (index + 1) element none := by
  constructor
  · exact h.mem_above element rfl
  · intro a ha
    cases ha
  · intro e he hlt
    exact absurd (h.le he) (not_le.mpr hlt)

end EndsWith

/-! ## Ascending indices -/

variable [DecidableEq α]

/-- Elements inserted one after the other, each `width` above the last index. -/
def insertAll (index : Int) : List (Nat × α) → BoundaryMap α → Except BoundaryFault (BoundaryMap α)
  | [], bm => .ok bm
  | (width, element) :: rest, bm =>
    match bm.insert (index + width) element with
    | .error fault => .error fault
    | .ok bm => insertAll (index + width) rest bm

def Ends (bm : BoundaryMap α) (index : Int) : Option (α × Option α) → Prop
  | none => bm.map.entries = []
  | some (here, above) => bm.EndsWith index here above

/-- The end of the map after one more element, unless the element meets an equal
one: one of width 0 meets the last entry, one of width 1 what was pushed above it. -/
def settle (width : Nat) (element : α) : Option (α × Option α) → Option (α × Option α)
  | none => some (element, none)
  | some (here, above) =>
    if width = 0 then if element = here then none else some (here, some element)
    else if width = 1 then
      match above with
      | none => some (element, none)
      | some a => if element = a then none else some (a, some element)
    else some (element, none)

def Fits : Option (α × Option α) → List (Nat × α) → Prop
  | _, [] => True
  | top, (width, element) :: rest =>
    ∃ next, settle width element top = some next ∧ Fits (some next) rest

variable {bm : BoundaryMap α} {index : Int}

theorem insert_of_none {element : α} (h : bm.get index = none) :
    bm.insert index element = .ok ⟨bm.map.assign index element⟩ := by
  rw [insert, h]

theorem insert_of_ne {element second : α} {first : Int} (h : bm.get index = some (first, second))
    (hne : element ≠ second) (hfirst : first + 1 ≤ 2147483647) :
    bm.insert index element = .ok ⟨bm.map.assign (first + 1) element⟩ := by
  rw [insert, h]
  simp [hne, hfirst]

theorem insert_of_eq {element : α} {first : Int} (h : bm.get index = some (first, element)) :
    bm.insert index element = .error .erasedIterator := by
  rw [insert, h]
  simp

def Inserted (r : Except BoundaryFault (BoundaryMap α)) (index : Int) :
    Option (α × Option α) → Prop
  | none => r = .error .erasedIterator
  | some top => ∃ bm, r = .ok bm ∧ bm.Ends index (some top)

omit [DecidableEq α] in
theorem Ends.get_of_none (h : bm.Ends index none) (i : Int) : bm.get i = none := by
  apply OrderedMap.lowerBound_eq_none_iff.mpr
  intro e he
  rw [show bm.map.entries = [] from h] at he
  cases he

theorem inserted_of_none {element : α} {i : Int} (h : bm.get i = none) :
    Inserted (bm.insert i element) i (some (element, none)) :=
  ⟨_, insert_of_none h, .of_assign h element⟩

theorem EndsWith.inserted_zero {here element : α} {above : Option α}
    (h : bm.EndsWith index here above) (hindex : index + 1 ≤ 2147483647) :
    Inserted (bm.insert index element) index (settle 0 element (some (here, above))) := by
  show Inserted _ _ (if element = here then none else some (here, some element))
  split_ifs with heq
  · rw [heq]
    exact insert_of_eq h.get_here
  · exact ⟨_, insert_of_ne h.get_here heq hindex, h.assign_next element⟩

theorem EndsWith.inserted_one {here element : α} {above : Option α}
    (h : bm.EndsWith index here above) (hindex : index + 1 + 1 ≤ 2147483647) :
    Inserted (bm.insert (index + 1) element) (index + 1)
      (settle 1 element (some (here, above))) := by
  cases above with
  | none => exact inserted_of_none h.get_next
  | some a =>
      show Inserted _ _ (if element = a then none else some (a, some element))
      have hget : bm.get (index + 1) = some (index + 1, a) := h.get_next
      split_ifs with heq
      · rw [heq]
        exact insert_of_eq hget
      · exact ⟨_, insert_of_ne hget heq hindex, h.next.assign_next element⟩

/-- An insertion at an ascending index fails where the element meets an equal
one, and else moves the end on. -/
theorem Ends.inserted {top : Option (α × Option α)} (h : bm.Ends index top) (width : Nat)
    (element : α) (hindex : index + width + 1 ≤ 2147483647) :
    Inserted (bm.insert (index + width) element) (index + width) (settle width element top) := by
  cases top with
  | none => exact inserted_of_none (h.get_of_none _)
  | some top =>
      obtain ⟨here, above⟩ := top
      have h : bm.EndsWith index here above := h
      match width with
      | 0 =>
          rw [Int.natCast_zero, Int.add_zero] at hindex ⊢
          exact h.inserted_zero hindex
      | 1 => exact h.inserted_one hindex
      | n + 2 => exact inserted_of_none (h.get_beyond (by omega))

/-- All elements go in exactly when none meets an equal one. -/
theorem Ends.insertAll {top : Option (α × Option α)} (h : bm.Ends index top)
    (elements : List (Nat × α))
    (hindex : index + (elements.map Prod.fst).sum + 1 ≤ 2147483647) :
    (Fits top elements → ∃ bm' top', insertAll index elements bm = .ok bm' ∧
      bm'.Ends (index + (elements.map Prod.fst).sum) top' ∧ (top ≠ none ∨ elements ≠ [] → top' ≠ none)) ∧
    (¬ Fits top elements → insertAll index elements bm = .error .erasedIterator) := by
  induction elements generalizing bm index top with
  | nil =>
      constructor
      · intro _
        refine ⟨bm, top, rfl, ?_, ?_⟩
        · rw [List.map_nil, List.sum_nil, Int.natCast_zero, Int.add_zero]
          exact h
        · rintro (hne | hne)
          · exact hne
          · exact absurd rfl hne
      · intro hfits
        exact absurd trivial hfits
  | cons e rest ih =>
      obtain ⟨width, element⟩ := e
      have hsum : (((width, element) :: rest).map Prod.fst).sum =
          width + (rest.map Prod.fst).sum := by simp
      rw [hsum] at hindex ⊢
      have hfirst := h.inserted width element (by omega)
      rw [BoundaryMap.insertAll]
      cases hsettle : settle width element top with
      | none =>
          rw [hsettle] at hfirst
          rw [show bm.insert (index + width) element = _ from hfirst]
          constructor
          · rintro ⟨next, hnext, -⟩
            rw [hsettle] at hnext
            cases hnext
          · intro _
            rfl
      | some next =>
          rw [hsettle] at hfirst
          obtain ⟨bm', hinsert, hends⟩ := hfirst
          have hrest := ih hends (by omega)
          have hfits : Fits top ((width, element) :: rest) ↔ Fits (some next) rest := by
            rw [Fits, hsettle]
            simp
          rw [hinsert, hfits]
          refine ⟨?_, hrest.2⟩
          intro h'
          obtain ⟨bm'', top', hall, hends', htop⟩ := hrest.1 h'
          refine ⟨bm'', top', hall, ?_, fun _ => htop (.inl (Option.some_ne_none next))⟩
          rw [Int.natCast_add, ← Int.add_assoc]
          exact hends'

end BoundaryMap

end FyS.Common
