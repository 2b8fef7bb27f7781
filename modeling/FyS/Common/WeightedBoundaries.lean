import FyS.Common.BoundaryMap
import FyS.Library.WeightedChoice
import Mathlib.Data.List.Forall2

/-!
# A boundary map as a weighted choice

Elements that are inserted under the running sums of their weights.  An element
with a weight stands where its stretch ends; one without a weight falls on what
stands there, and is pushed to the next key.
-/

namespace FyS.Common.BoundaryMap

open FyS.Library

variable {α : Type} {bm : BoundaryMap α} {index : Int}

theorem get_of_mem {e : Int × α} (he : e ∈ bm.map.entries) : bm.get e.1 = some e := by
  apply OrderedMap.lowerBound_eq_some_iff.mpr
  refine ⟨he, le_refl _, ?_⟩
  intro e' he' hne hle
  apply lt_of_le_of_ne hle
  intro heq
  exact hne (OrderedMap.eq_of_mem he' he heq.symm)

def stacked {α : Type} (index : Int) : List (Nat × α) → List (Int × α)
  | [] => []
  | (width, element) :: rest => (index + width, element) :: stacked (index + width) rest

theorem mem_stacked_iff {elements : List (Nat × α)} {e : Int × α} :
    e ∈ stacked index elements ↔ ∃ k, ∃ element, elements[k]? = some element ∧
      e = (index + WeightedChoice.bound (elements.map Prod.fst) (k + 1), element.2) := by
  induction elements generalizing index with
  | nil => simp [stacked]
  | cons first rest ih =>
      obtain ⟨width, element⟩ := first
      rw [stacked, List.mem_cons, ih]
      constructor
      · rintro (rfl | ⟨k, other, hother, rfl⟩)
        · refine ⟨0, (width, element), rfl, ?_⟩
          simp
        · refine ⟨k + 1, other, hother, ?_⟩
          simp [Int.add_assoc]
      · rintro ⟨k, other, hother, rfl⟩
        match k with
        | 0 =>
            obtain rfl := Option.some.inj hother
            left
            simp
        | k + 1 =>
            refine .inr ⟨k, other, hother, ?_⟩
            simp [Int.add_assoc]

variable [DecidableEq α]

theorem mem_insert_of_le {bm' : BoundaryMap α} {element : α} {e : Int × α}
    (h : bm.insert index element = .ok bm') (he : e ∈ bm.map.entries) (hle : e.1 ≤ index) :
    e ∈ bm'.map.entries := by
  unfold insert at h
  split at h
  · rename_i hget
    rw [← Except.ok.inj h, OrderedMap.mem_assign_iff]
    have hlt := OrderedMap.lowerBound_eq_none_iff.mp hget e he
    exact .inr ⟨he, hlt.ne⟩
  · rename_i first second hget
    have hfirst := (OrderedMap.lowerBound_eq_some_iff.mp hget).2.1
    split_ifs at h
    · rw [← Except.ok.inj h, OrderedMap.mem_assign_iff]
      refine .inr ⟨he, ?_⟩
      have hfirst : index ≤ first := hfirst
      show e.1 ≠ first + 1
      omega

/-- An insertion at the end puts the element on its index or on the next key. -/
theorem exists_mem_insert {bm' : BoundaryMap α} {element : α}
    (hbelow : ∀ e ∈ bm.map.entries, e.1 ≤ index) (h : bm.insert index element = .ok bm') :
    ∃ key, index ≤ key ∧ key ≤ index + 1 ∧ (key, element) ∈ bm'.map.entries := by
  unfold insert at h
  split at h
  · rw [← Except.ok.inj h]
    refine ⟨index, by omega, by omega, ?_⟩
    exact OrderedMap.mem_assign_iff.mpr (.inl rfl)
  · rename_i first second hget
    obtain ⟨hmem, hfirst, -⟩ := OrderedMap.lowerBound_eq_some_iff.mp hget
    have hle : first ≤ index := hbelow _ hmem
    have hfirst : index ≤ first := hfirst
    split_ifs at h
    · rw [← Except.ok.inj h]
      refine ⟨first + 1, by omega, by omega, ?_⟩
      exact OrderedMap.mem_assign_iff.mpr (.inl rfl)

theorem insertAll_append (elements rest : List (Nat × α)) :
    insertAll index (elements ++ rest) bm =
      (insertAll index elements bm).bind
        (insertAll (index + (elements.map Prod.fst).sum) rest) := by
  induction elements generalizing bm index with
  | nil =>
      rw [List.map_nil, List.sum_nil, Int.natCast_zero, Int.add_zero]
      rfl
  | cons first others ih =>
      obtain ⟨width, element⟩ := first
      rw [List.cons_append, insertAll, insertAll]
      cases bm.insert (index + width) element with
      | error fault => rfl
      | ok bm' =>
          show insertAll (index + width) (others ++ rest) bm' = _
          rw [ih, List.map_cons, List.sum_cons, Int.natCast_add, ← Int.add_assoc]

theorem insertAll_of_pos {elements : List (Nat × α)} (hbelow : ∀ e ∈ bm.map.entries, e.1 ≤ index)
    (hpos : ∀ element ∈ elements, 0 < element.1) :
    ∃ bm', insertAll index elements bm = .ok bm' ∧
      bm'.map.entries = bm.map.entries ++ stacked index elements := by
  induction elements generalizing bm index with
  | nil => exact ⟨bm, rfl, (List.append_nil _).symm⟩
  | cons first rest ih =>
      obtain ⟨width, element⟩ := first
      have hwidth : 0 < width := hpos _ List.mem_cons_self
      have hlt : ∀ e ∈ bm.map.entries, e.1 < index + width := by
        intro e he
        have hle := hbelow e he
        omega
      have hnew : (bm.map.assign (index + width) element).entries =
          bm.map.entries ++ [(index + width, element)] := OrderedMap.entries_assign_of_lt hlt
      have hbelow' : ∀ e ∈ (bm.map.assign (index + width) element).entries,
          e.1 ≤ index + width := by
        intro e he
        rcases OrderedMap.mem_assign_iff.mp he with rfl | ⟨he, -⟩
        · exact le_refl _
        · exact (hlt e he).le
      obtain ⟨bm', hall, hentries⟩ := @ih ⟨bm.map.assign (index + width) element⟩ _ hbelow'
        fun other hother => hpos other (List.mem_cons_of_mem _ hother)
      refine ⟨bm', ?_, ?_⟩
      · rw [insertAll, insert_of_none (OrderedMap.lowerBound_eq_none_iff.mpr hlt)]
        exact hall
      · rw [hentries, hnew, stacked, List.append_assoc]
        rfl

/-! ## Elements without a weight -/

section

variable (weight : α → Nat)

def weighed (xs : List α) : List (Nat × α) := xs.map fun x => (weight x, x)

variable {weight} {xs : List α}

omit [DecidableEq α] in
@[simp] theorem map_fst_weighed : (weighed weight xs).map Prod.fst = xs.map weight := by
  rw [weighed, List.map_map]
  rfl

omit [DecidableEq α] in
theorem weighed_append (xs ys : List α) :
    weighed weight (xs ++ ys) = weighed weight xs ++ weighed weight ys :=
  List.map_append

theorem insertAll_of_heads (hpos : ∀ x ∈ xs, 0 < weight x) :
    ∃ bm, insertAll 0 (weighed weight xs) .new = .ok bm ∧
      bm.map.entries = stacked 0 (weighed weight xs) := by
  apply insertAll_of_pos
  · intro e he
    cases he
  · intro element helement
    obtain ⟨x, hx, rfl⟩ := List.mem_map.mp helement
    exact hpos x hx

/-- Elements without a weight leave the entries up to the last index alone, where
an element with a weight stands. -/
theorem insertAll_of_zero {here : α} {above : Option α} (h : bm.EndsWith index here above)
    (hhere : 0 < weight here) (hindex : index + 1 ≤ 2147483647)
    (hzero : ∀ x ∈ xs, weight x = 0) :
    ∃ bm', insertAll index (weighed weight xs) bm = .ok bm' ∧
      ∀ e, e.1 ≤ index → (e ∈ bm'.map.entries ↔ e ∈ bm.map.entries) := by
  induction xs generalizing bm above with
  | nil => exact ⟨bm, rfl, fun _ _ => Iff.rfl⟩
  | cons x rest ih =>
      have hx : weight x = 0 := hzero x List.mem_cons_self
      have hne : x ≠ here := by
        intro heq
        rw [← heq] at hhere
        omega
      obtain ⟨bm', hall, hentries⟩ := ih (h.assign_next x)
        fun y hy => hzero y (List.mem_cons_of_mem _ hy)
      refine ⟨bm', ?_, ?_⟩
      · rw [weighed, List.map_cons, insertAll, hx, Int.natCast_zero, Int.add_zero,
          insert_of_ne h.get_here hne hindex]
        exact hall
      · intro e he
        rw [hentries e he, OrderedMap.mem_assign_iff]
        constructor
        · rintro (rfl | ⟨hold, -⟩)
          · have he : index + 1 ≤ index := he
            omega
          · exact hold
        · intro hold
          refine .inr ⟨hold, ?_⟩
          omega

theorem zero_mem_insert {bm' : BoundaryMap α} {key : Int} {x : α}
    (hinsert : bm.insert (index + weight x) x = .ok bm') (hkey : key ≤ index + 1)
    (hmem : ∃ z, (key, z) ∈ bm.map.entries ∧ weight z = 0) :
    ∃ z, (key, z) ∈ bm'.map.entries ∧ weight z = 0 := by
  obtain ⟨z, hz, hweight⟩ := hmem
  by_cases hle : key ≤ index + weight x
  · exact ⟨z, mem_insert_of_le hinsert hz hle, hweight⟩
  · have hx : weight x = 0 := by omega
    unfold insert at hinsert
    split at hinsert
    · rename_i hget
      have hlt : key < index + weight x := OrderedMap.lowerBound_eq_none_iff.mp hget _ hz
      exact ⟨z, by omega, hweight⟩
    · rename_i first second hget
      split_ifs at hinsert
      · rw [← Except.ok.inj hinsert]
        by_cases heq : first + 1 = key
        · refine ⟨x, ?_, hx⟩
          rw [OrderedMap.mem_assign_iff, heq]
          exact .inl rfl
        · refine ⟨z, ?_, hweight⟩
          rw [OrderedMap.mem_assign_iff]
          exact .inr ⟨hz, Ne.symm heq⟩

theorem zero_mem_insertAll {bm' : BoundaryMap α} {key : Int}
    (hall : insertAll index (weighed weight xs) bm = .ok bm') (hkey : key ≤ index + 1)
    (hmem : ∃ z, (key, z) ∈ bm.map.entries ∧ weight z = 0) :
    ∃ z, (key, z) ∈ bm'.map.entries ∧ weight z = 0 := by
  induction xs generalizing bm index with
  | nil =>
      rw [← Except.ok.inj hall]
      exact hmem
  | cons x rest ih =>
      rw [weighed, List.map_cons, insertAll] at hall
      cases hinsert : bm.insert (index + weight x) x with
      | error fault =>
          rw [hinsert] at hall
          cases hall
      | ok bm'' =>
          rw [hinsert] at hall
          exact ih hall (by omega) (zero_mem_insert hinsert hkey hmem)

end

/-! ## The odds -/

variable (weight : α → Nat)

/-- No element without a weight stands before one with a weight. -/
def ZerosLast (xs : List α) : Prop :=
  (xs.map weight).Pairwise fun here later => here = 0 → later = 0

/-- The map is the weighted choice of the elements: a draw finds the element on
whose stretch it falls, each element is found by as many draws as its weight
says, and one without a weight by none, not even by zero. -/
structure Odds (xs : List α) (total : Nat) (bm : BoundaryMap α) : Prop where
  selected : ∀ r : Nat, 1 ≤ r → r ≤ total →
    ∃ k, (∀ k', WeightedChoice.Chosen (xs.map weight) r k' ↔ k' = k) ∧
      ∃ x, xs[k]? = some x ∧ bm.get r = some (↑(WeightedChoice.bound (xs.map weight) (k + 1)), x)
  share : ∀ k x, xs[k]? = some x →
    ((Finset.Icc 1 total).filter fun r : Nat =>
      bm.get r = some (↑(WeightedChoice.bound (xs.map weight) (k + 1)), x)).card = weight x
  never : ∀ r : Int, 0 ≤ r → r ≤ total → ∀ key x, bm.get r = some (key, x) → 0 < weight x

omit [DecidableEq α] in
theorem exists_split (xs : List α) :
    ∃ heads rest, xs = heads ++ rest ∧ (∀ x ∈ heads, 0 < weight x) ∧
      ∀ z zs, rest = z :: zs → weight z = 0 := by
  induction xs with
  | nil =>
      refine ⟨[], [], rfl, ?_, ?_⟩
      · intro x hx
        cases hx
      · intro z zs heq
        cases heq
  | cons x others ih =>
      by_cases hx : weight x = 0
      · refine ⟨[], x :: others, rfl, ?_, ?_⟩
        · intro y hy
          cases hy
        · intro z zs heq
          rw [← (List.cons.inj heq).1]
          exact hx
      · obtain ⟨heads, rest, heq, hheads, hrest⟩ := ih
        refine ⟨x :: heads, rest, by rw [heq]; rfl, ?_, hrest⟩
        intro y hy
        rcases List.mem_cons.mp hy with rfl | hy
        · omega
        · exact hheads y hy

variable {weight} {xs : List α} {total : Nat}

omit [DecidableEq α] in
theorem zerosLast_append_iff {heads rest : List α} (hheads : ∀ x ∈ heads, 0 < weight x)
    (hrest : ∀ z zs, rest = z :: zs → weight z = 0) :
    ZerosLast weight (heads ++ rest) ↔ ∀ x ∈ rest, weight x = 0 := by
  unfold ZerosLast
  rw [List.pairwise_map, List.pairwise_append]
  constructor
  · rintro ⟨-, hpair, -⟩ x hx
    match rest with
    | [] => cases hx
    | z :: zs =>
        have hz := hrest z zs rfl
        rcases List.mem_cons.mp hx with rfl | hx
        · exact hz
        · exact (List.pairwise_cons.mp hpair).1 x hx hz
  · intro hzero
    refine ⟨?_, ?_, ?_⟩
    · apply List.pairwise_of_forall_mem_list
      intro x hx y _ hxzero
      have hxpos := hheads x hx
      omega
    · apply List.pairwise_of_forall_mem_list
      intro x _ y hy _
      exact hzero y hy
    · intro x hx y hy _
      exact hzero y hy

def Standing (weight : α → Nat) (xs : List α) (total : Nat) (bm : BoundaryMap α) : Prop :=
  ∀ e, e.1 ≤ (total : Int) → (e ∈ bm.map.entries ↔
    ∃ k x, xs[k]? = some x ∧ 0 < weight x ∧
      e = (↑(WeightedChoice.bound (xs.map weight) (k + 1)), x))

omit [DecidableEq α] in
theorem endsWith_of_stacked (hpos : ∀ x ∈ xs, 0 < weight x) (hne : xs ≠ [])
    (hentries : bm.map.entries = stacked 0 (weighed weight xs)) :
    ∃ here, 0 < weight here ∧ bm.EndsWith (xs.map weight).sum here none := by
  have hlength := List.length_pos_iff.mpr hne
  have hlast : xs[xs.length - 1]? = some (xs.getLast hne) := by
    rw [← List.getLast?_eq_getElem?, List.getLast?_eq_some_getLast hne]
  refine ⟨xs.getLast hne, hpos _ (List.getLast_mem hne), ?_⟩
  constructor
  · rw [hentries, mem_stacked_iff]
    refine ⟨xs.length - 1, (weight (xs.getLast hne), xs.getLast hne), ?_, ?_⟩
    · rw [weighed, List.getElem?_map, hlast]
      rfl
    · rw [map_fst_weighed, Nat.sub_add_cancel hlength, Int.zero_add,
        ← List.length_map weight, WeightedChoice.bound_length]
  · intro a ha
    cases ha
  · intro e he hlt
    rw [hentries, mem_stacked_iff] at he
    obtain ⟨k, element, -, rfl⟩ := he
    rw [map_fst_weighed] at hlt
    have hle := WeightedChoice.bound_le_sum (xs.map weight) (k + 1)
    have hlt : ((xs.map weight).sum : Int) <
      0 + (WeightedChoice.bound (xs.map weight) (k + 1) : Nat) := hlt
    omega

omit [DecidableEq α] in
theorem mem_stacked_weighed_iff {heads rest : List α} (hheads : ∀ x ∈ heads, 0 < weight x)
    (hzero : ∀ x ∈ rest, weight x = 0) {e : Int × α} :
    e ∈ stacked 0 (weighed weight heads) ↔
      ∃ k x, (heads ++ rest)[k]? = some x ∧ 0 < weight x ∧
        e = (↑(WeightedChoice.bound ((heads ++ rest).map weight) (k + 1)), x) := by
  rw [mem_stacked_iff, map_fst_weighed]
  have hbound (k : Nat) (hk : k < heads.length) :
      WeightedChoice.bound (heads.map weight) (k + 1) =
        WeightedChoice.bound ((heads ++ rest).map weight) (k + 1) := by
    rw [WeightedChoice.bound, WeightedChoice.bound, List.map_append,
      List.take_append_of_le_length (by rw [List.length_map]; omega)]
  constructor
  · rintro ⟨k, element, helement, rfl⟩
    rw [weighed, List.getElem?_map, Option.map_eq_some_iff] at helement
    obtain ⟨x, hx, rfl⟩ := helement
    have hk : k < heads.length := (List.getElem?_eq_some_iff.mp hx).1
    refine ⟨k, x, ?_, hheads x (List.mem_of_getElem? hx), ?_⟩
    · rw [List.getElem?_append_left hk]
      exact hx
    · rw [hbound k hk, Int.zero_add]
  · rintro ⟨k, x, hx, hweight, rfl⟩
    have hk : k < heads.length := by
      by_contra hk
      rw [List.getElem?_append_right (by omega)] at hx
      have hxzero := hzero x (List.mem_of_getElem? hx)
      omega
    rw [List.getElem?_append_left hk] at hx
    refine ⟨k, (weight x, x), ?_, ?_⟩
    · rw [weighed, List.getElem?_map, hx]
      rfl
    · rw [hbound k hk, Int.zero_add]

/-- With the elements without a weight last, the others stand where they should. -/
theorem standing_of_zerosLast (hzeros : ZerosLast weight xs) (hsum : (xs.map weight).sum = total)
    (hpos : 0 < total) (htotal : total < 2147483647) :
    ∃ bm, insertAll 0 (weighed weight xs) .new = .ok bm ∧ bm.Standing weight xs total := by
  obtain ⟨heads, rest, rfl, hheads, hrest⟩ := exists_split weight xs
  have hzero := (zerosLast_append_iff hheads hrest).mp hzeros
  have hrestsum : (rest.map weight).sum = 0 := by
    rw [List.sum_eq_zero_iff_forall_eq_nat]
    intro w hw
    obtain ⟨x, hx, rfl⟩ := List.mem_map.mp hw
    exact hzero x hx
  have hheadsum : (heads.map weight).sum = total := by
    rw [List.map_append, List.sum_append, hrestsum] at hsum
    exact hsum
  have hne : heads ≠ [] := by
    rintro rfl
    rw [List.map_nil, List.sum_nil] at hheadsum
    omega
  obtain ⟨filled, hfilled, hentries⟩ := insertAll_of_heads hheads
  obtain ⟨here, hhere, hends⟩ := endsWith_of_stacked hheads hne hentries
  rw [hheadsum] at hends
  obtain ⟨bm, hall, hsame⟩ := insertAll_of_zero hends hhere (by omega) hzero
  refine ⟨bm, ?_, ?_⟩
  · rw [weighed_append, insertAll_append, hfilled, map_fst_weighed, hheadsum, Int.zero_add]
    exact hall
  · intro e he
    rw [hsame e he, hentries]
    exact mem_stacked_weighed_iff hheads hzero

section

omit [DecidableEq α]

theorem getElem?_weights {k : Nat} {x : α} (hx : xs[k]? = some x) :
    (xs.map weight)[k]? = some (weight x) := by
  rw [List.getElem?_map, hx]
  rfl

theorem Standing.get_of_chosen (h : bm.Standing weight xs total)
    (hsum : (xs.map weight).sum = total) {r k : Nat} {x : α}
    (hchosen : WeightedChoice.Chosen (xs.map weight) r k) (hx : xs[k]? = some x)
    (hweight : 0 < weight x) :
    bm.get r = some (↑(WeightedChoice.bound (xs.map weight) (k + 1)), x) := by
  have hle := WeightedChoice.bound_le_sum (xs.map weight) (k + 1)
  unfold WeightedChoice.Chosen at hchosen
  apply OrderedMap.lowerBound_eq_some_iff.mpr
  refine ⟨?_, ?_, ?_⟩
  · apply (h _ (by show (_ : Int) ≤ _; omega)).mpr
    exact ⟨k, x, hx, hweight, rfl⟩
  · show (r : Int) ≤ WeightedChoice.bound (xs.map weight) (k + 1)
    omega
  · intro e he hne hre
    by_cases hbeyond : e.1 ≤ (total : Int)
    · obtain ⟨k', x', hx', hweight', rfl⟩ := (h e hbeyond).mp he
      have hre : (r : Int) ≤ WeightedChoice.bound (xs.map weight) (k' + 1) := hre
      rcases Nat.lt_trichotomy k k' with hlt | rfl | hlt
      · have hbound := WeightedChoice.bound_lt (getElem?_weights hx') hweight' hlt
        show (_ : Int) < _
        omega
      · rw [hx'] at hx
        rw [Option.some.inj hx] at hne
        exact absurd rfl hne
      · have hmono := WeightedChoice.bound_mono (xs.map weight) (show k' + 1 ≤ k by omega)
        omega
    · show (WeightedChoice.bound (xs.map weight) (k + 1) : Int) < e.1
      omega

theorem exists_element {r : Nat} (hpos : 1 ≤ r) (hr : r ≤ (xs.map weight).sum) :
    ∃ k x, WeightedChoice.Chosen (xs.map weight) r k ∧ xs[k]? = some x ∧ 0 < weight x := by
  obtain ⟨k, hk⟩ := WeightedChoice.exists_chosen hpos hr
  obtain ⟨w, hw, hwpos⟩ := hk.weight_pos
  rw [List.getElem?_map, Option.map_eq_some_iff] at hw
  obtain ⟨x, hx, rfl⟩ := hw
  exact ⟨k, x, hk, hx, hwpos⟩

theorem position_unique {k k' : Nat} {x x' : α} (hx : xs[k]? = some x) (hx' : xs[k']? = some x')
    (hweight : 0 < weight x) (hweight' : 0 < weight x')
    (heq : WeightedChoice.bound (xs.map weight) (k + 1) =
      WeightedChoice.bound (xs.map weight) (k' + 1)) : k = k' := by
  rcases Nat.lt_trichotomy k k' with hlt | hkk | hlt
  · have hbound := WeightedChoice.bound_lt (getElem?_weights hx') hweight' hlt
    omega
  · exact hkk
  · have hbound := WeightedChoice.bound_lt (getElem?_weights hx) hweight hlt
    omega

end

theorem Standing.odds (h : bm.Standing weight xs total) (hsum : (xs.map weight).sum = total)
    (hpos : 0 < total) : bm.Odds weight xs total := by
  constructor
  · intro r hr htotal
    have hle : r ≤ (xs.map weight).sum := by omega
    obtain ⟨k, x, hk, hx, hweight⟩ := exists_element hr hle
    refine ⟨k, ?_, x, hx, h.get_of_chosen hsum hk hx hweight⟩
    intro k'
    constructor
    · exact hk.unique
    · rintro rfl
      exact hk
  · intro k x hx
    rw [← WeightedChoice.card_chosen (getElem?_weights hx) hsum.le]
    congr 1
    apply Finset.filter_congr
    intro r hr
    rw [Finset.mem_Icc] at hr
    have hle : r ≤ (xs.map weight).sum := by omega
    obtain ⟨k', x', hk', hx', hweight'⟩ := exists_element hr.1 hle
    have hget := h.get_of_chosen hsum hk' hx' hweight'
    constructor
    · intro hfound
      rw [hget, Option.some.injEq, Prod.mk.injEq] at hfound
      obtain ⟨hkey, rfl⟩ := hfound
      rw [← position_unique hx' hx hweight' hweight' (by exact_mod_cast hkey)]
      exact hk'
    · intro hchosen
      obtain rfl := hk'.unique hchosen
      rw [hx] at hx'
      rw [hget, Option.some.inj hx']
  · intro r _ htotal key x hget
    obtain ⟨hmem, -, hleast⟩ := OrderedMap.lowerBound_eq_some_iff.mp hget
    obtain ⟨k, y, hk, hy, hweight⟩ := exists_element hpos hsum.ge
    have hlast := OrderedMap.lowerBound_eq_some_iff.mp (h.get_of_chosen hsum hk hy hweight)
    have hbound : WeightedChoice.bound (xs.map weight) (k + 1) = total := by
      have hle := WeightedChoice.bound_le_sum (xs.map weight) (k + 1)
      unfold WeightedChoice.Chosen at hk
      omega
    rw [hbound] at hlast
    have hkey : key ≤ total := by
      by_cases heq : ((total : Int), y) = (key, x)
      · rw [← (Prod.mk.inj heq).1]
      · exact (hleast _ hlast.1 heq htotal).le
    obtain ⟨k', x', -, hweight', heq⟩ := (h _ hkey).mp hmem
    rw [(Prod.mk.inj heq).2]
    exact hweight'

/-- An element without a weight before one with a weight is found by a draw. -/
theorem exists_zero_of_not_zerosLast (hzeros : ¬ ZerosLast weight xs)
    (hall : insertAll 0 (weighed weight xs) .new = .ok bm) :
    ∃ r : Int, 0 ≤ r ∧ r ≤ (xs.map weight).sum ∧
      ∃ z, bm.get r = some (r, z) ∧ weight z = 0 := by
  obtain ⟨heads, rest, rfl, hheads, hrest⟩ := exists_split weight xs
  rw [zerosLast_append_iff hheads hrest] at hzeros
  obtain ⟨filled, hfilled, hentries⟩ := insertAll_of_heads hheads
  rw [weighed_append, insertAll_append, hfilled, map_fst_weighed, Int.zero_add] at hall
  match rest with
  | [] =>
      exfalso
      apply hzeros
      intro x hx
      cases hx
  | z :: zs =>
      have hz := hrest z zs rfl
      -- an element that comes later has a weight, so that the key after the heads is a draw
      have hlater : 0 < (zs.map weight).sum := by
        by_contra hsum
        apply hzeros
        intro x hx
        rcases List.mem_cons.mp hx with rfl | hx
        · exact hz
        · exact List.sum_eq_zero_iff_forall_eq_nat.mp (by omega) _ (List.mem_map_of_mem hx)
      have hall : insertAll (heads.map weight).sum (weighed weight (z :: zs)) filled = .ok bm := hall
      rw [weighed, List.map_cons, insertAll, hz, Int.natCast_zero, Int.add_zero] at hall
      cases hinsert : filled.insert ((heads.map weight).sum : Nat) z with
      | error fault =>
          rw [hinsert] at hall
          cases hall
      | ok pushed =>
          rw [hinsert] at hall
          have hbelow : ∀ e ∈ filled.map.entries, e.1 ≤ ((heads.map weight).sum : Nat) := by
            intro e he
            rw [hentries, mem_stacked_iff] at he
            obtain ⟨k, element, -, rfl⟩ := he
            rw [map_fst_weighed]
            have hle := WeightedChoice.bound_le_sum (heads.map weight) (k + 1)
            show (_ : Int) ≤ _
            omega
          obtain ⟨key, hlow, hhigh, hmem⟩ := exists_mem_insert hbelow hinsert
          obtain ⟨z', hz', hweight⟩ := zero_mem_insertAll hall hhigh ⟨z, hmem, hz⟩
          refine ⟨key, by omega, ?_, z', get_of_mem hz', hweight⟩
          rw [List.map_append, List.sum_append, List.map_cons, List.sum_cons]
          omega

/-- A boundary map is the weighted choice of its elements exactly when those
without a weight come last. -/
theorem odds_iff_zerosLast (hsum : (xs.map weight).sum = total) (hpos : 0 < total)
    (htotal : total < 2147483647) :
    (∃ bm, insertAll 0 (weighed weight xs) .new = .ok bm ∧ bm.Odds weight xs total) ↔
      ZerosLast weight xs := by
  constructor
  · rintro ⟨bm, hall, hodds⟩
    by_contra hzeros
    obtain ⟨r, hr, hle, z, hget, hweight⟩ := exists_zero_of_not_zerosLast hzeros hall
    have hpositive := hodds.never r hr (hsum ▸ hle) r z hget
    omega
  · intro hzeros
    obtain ⟨bm, hall, hstanding⟩ := standing_of_zerosLast hzeros hsum hpos htotal
    exact ⟨bm, hall, hstanding.odds hsum hpos⟩

end FyS.Common.BoundaryMap
