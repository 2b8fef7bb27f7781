import FyS.Common.Algorithm

/-!
# The position that `find_most_suitable` returns

The scan of `algorithm.hh` over the iterators of a range.  Among elements that are
equally suitable the comparator decides which one it ends at: the first one when it
asks for a better element, the last one when it asks for one as good.
-/

namespace FyS.Common

open FyS.Library.RunningBest

variable {α : Type}

/-- The iterators from `first` to `last` of a container, as positions. -/
structure IteratorRange (α : Type) where
  container : List α
  first : Nat
  last : Nat
  first_le : first ≤ last
  last_le : last ≤ container.length

namespace IteratorRange

/-- The loop, `count` iterators before the end; `none` where an iterator is read that
points past the end of the container. -/
def scan (comp : α → α → Bool) (container : List α) : Nat → Nat → Nat → Option Nat
  | 0, _, suitable => some suitable
  | count + 1, first, suitable =>
    match container[suitable]?, container[first]? with
    | some current, some next =>
      scan comp container count (first + 1) (if comp current next then first else suitable)
    | _, _ => none

variable (range : IteratorRange α) (comp : α → α → Bool)

/-- `find_most_suitable(first, last, comp, start)`. -/
def findMostSuitableFrom (start : Nat) : Option Nat :=
  scan comp range.container (range.last - range.first) range.first start

/-- `find_most_suitable(first, last, comp)`. -/
def findMostSuitable : Option Nat := range.findMostSuitableFrom comp range.first

def elements : List α := (range.container.take range.last).drop range.first

/-! ## The scan as a running best -/

def placed (range : IteratorRange α) : List (α × Nat) :=
  (range.container.zipIdx.take range.last).drop range.first

theorem elements_eq : range.elements = range.placed.map Prod.fst := by
  rw [placed, List.map_drop, List.map_take, List.zipIdx_map_fst]
  rfl

theorem placed_getElem? {k : Nat} {e : α × Nat} (h : range.placed[k]? = some e) :
    e.2 = range.first + k ∧ range.container[e.2]? = some e.1 := by
  rw [placed, List.getElem?_drop, List.getElem?_take] at h
  split_ifs at h
  obtain ⟨a, ha, rfl⟩ := Option.map_eq_some_iff.mp (List.getElem?_zipIdx ▸ h)
  simp only [Nat.zero_add, true_and]
  exact ha

variable {range comp}

def placedComp (comp : α → α → Bool) (current next : α × Nat) : Bool := comp current.1 next.1

theorem scan_eq {container : List α} {count first suitable : Nat} {current : α}
    (hsuitable : container[suitable]? = some current) (hcount : first + count ≤ container.length) :
    scan comp container count first suitable =
      some (best (placedComp comp) (current, suitable)
        ((container.zipIdx.drop first).take count)).2 := by
  induction count generalizing first suitable current with
  | zero => rfl
  | succ count ih =>
      have hlt : first < container.length := by omega
      have hnext : container[first]? = some container[first] := List.getElem?_eq_getElem hlt
      have hdrop : container.zipIdx.drop first =
          (container[first], first) :: container.zipIdx.drop (first + 1) := by
        rw [List.drop_eq_getElem_cons (by rwa [List.length_zipIdx]), List.getElem_zipIdx,
          Nat.zero_add]
      rw [scan, hsuitable, hnext, hdrop, List.take_succ_cons]
      by_cases htaken : comp current container[first] = true
      · simp only [htaken, if_true]
        rw [ih hnext (by omega)]
        simp [best, placedComp, htaken]
      · simp only [htaken, Bool.false_eq_true, if_false]
        rw [ih hsuitable (by omega)]
        simp [best, placedComp, htaken]

theorem findMostSuitable_eq (comp : α → α → Bool) (h : range.first < range.last) : ∃ start rest,
    range.placed = start :: rest ∧
      range.findMostSuitable comp = some (best (placedComp comp) start rest).2 := by
  have hlast := range.last_le
  have hlt : range.first < range.container.length := by omega
  have hplaced : range.placed =
      (range.container.zipIdx.drop range.first).take (range.last - range.first) := List.drop_take
  have hdrop : range.container.zipIdx.drop range.first =
      (range.container[range.first], range.first) ::
        range.container.zipIdx.drop (range.first + 1) := by
    rw [List.drop_eq_getElem_cons (by rwa [List.length_zipIdx]), List.getElem_zipIdx, Nat.zero_add]
  obtain ⟨count, hcount⟩ : ∃ count, range.last - range.first = count + 1 :=
    ⟨range.last - range.first - 1, by omega⟩
  rw [hdrop, hcount, List.take_succ_cons] at hplaced
  refine ⟨_, _, hplaced, ?_⟩
  rw [findMostSuitable, findMostSuitableFrom,
    scan_eq (List.getElem?_eq_getElem hlt) (by omega), hdrop, hcount, List.take_succ_cons]
  -- the first element is compared with itself
  rw [best, List.foldl_cons, ite_self]
  rfl

/-! ## Which one it is -/

def FirstUnbeaten (better : α → α → Prop) (range : IteratorRange α) (i : Nat) : Prop :=
  ∃ pre found post, range.elements = pre ++ found :: post ∧ i = range.first + pre.length ∧
    (∀ x ∈ range.elements, ¬ better found x) ∧ ∀ x ∈ pre, ∃ y ∈ range.elements, better x y

/-- The position of the last element of the range that all others are at most as good as. -/
def LastOfBest (le : α → α → Prop) (range : IteratorRange α) (i : Nat) : Prop :=
  ∃ pre found post, range.elements = pre ++ found :: post ∧ i = range.first + pre.length ∧
    (∀ x ∈ range.elements, le x found) ∧ ∀ x ∈ post, ∃ y ∈ range.elements, ¬ le y x

theorem elements_of_placed {pre post : List (α × Nat)} {found : α × Nat}
    (h : range.placed = pre ++ found :: post) :
    range.elements = pre.map Prod.fst ++ found.1 :: post.map Prod.fst ∧
      found.2 = range.first + (pre.map Prod.fst).length := by
  constructor
  · rw [elements_eq, h, List.map_append, List.map_cons]
  · rw [List.length_map]
    have hat : range.placed[pre.length]? = some found := by
      rw [h, List.getElem?_append_right (Nat.le_refl _), Nat.sub_self]
      rfl
    exact (placed_getElem? range hat).1

theorem findMostSuitable_first {better : α → α → Prop} [IsStrictWeakOrder α better]
    (hcomp : ∀ current next, comp current next = true ↔ better current next)
    (h : range.first < range.last) :
    ∃ i, range.findMostSuitable comp = some i ∧ range.FirstUnbeaten better i := by
  obtain ⟨start, rest, hplaced, hfound⟩ := findMostSuitable_eq comp h
  have hon (a b : α × Nat) : placedComp comp a b = true ↔ (Function.onFun better Prod.fst) a b :=
    hcomp a.1 b.1
  obtain ⟨pre, post, hsplit, hpre⟩ := first_best hon start rest
  have hunbeaten := unbeaten_best (.inl hon) start rest
  obtain ⟨helements, hat⟩ := elements_of_placed (hplaced.trans hsplit)
  refine ⟨_, hfound, _, _, _, helements, hat, ?_, ?_⟩
  · rw [elements_eq, hplaced, List.forall_mem_map]
    exact hunbeaten
  · rw [List.forall_mem_map]
    intro e he
    refine ⟨_, ?_, hpre e he⟩
    rw [helements]
    exact List.mem_append_right _ List.mem_cons_self

theorem findMostSuitable_last {le : α → α → Prop} [IsTrans α le] [Std.Total le]
    (hcomp : ∀ current next, comp current next = true ↔ le current next)
    (h : range.first < range.last) :
    ∃ i, range.findMostSuitable comp = some i ∧ range.LastOfBest le i := by
  obtain ⟨start, rest, hplaced, hfound⟩ := findMostSuitable_eq comp h
  have : IsStrictWeakOrder α fun a b => ¬ le b a := isStrictWeakOrder_not
  have hon (a b : α × Nat) : placedComp comp a b = true ↔
      ¬ (Function.onFun (fun a b => ¬ le b a) Prod.fst) b a :=
    (hcomp a.1 b.1).trans not_not.symm
  obtain ⟨pre, post, hsplit, hpost⟩ := last_best hon start rest
  have hunbeaten := unbeaten_best (.inr hon) start rest
  obtain ⟨helements, hat⟩ := elements_of_placed (hplaced.trans hsplit)
  refine ⟨_, hfound, _, _, _, helements, hat, ?_, ?_⟩
  · rw [elements_eq, hplaced, List.forall_mem_map]
    exact fun e he => not_not.mp (hunbeaten e he)
  · rw [List.forall_mem_map]
    intro e he
    refine ⟨_, ?_, hpost e he⟩
    rw [helements]
    exact List.mem_append_right _ List.mem_cons_self

theorem findMostSuitable_empty (h : range.first = range.last) :
    range.findMostSuitable comp = some range.last := by
  rw [findMostSuitable, findMostSuitableFrom, h, Nat.sub_self]
  rfl

/-- The end of an empty range; in another one the first of the best elements for a
comparator that asks for more, the last of them for one that asks for as much. -/
theorem most_suitable (range : IteratorRange α) :
    (range.first = range.last → ∀ comp, range.findMostSuitable comp = some range.last) ∧
      (range.first < range.last →
        (∀ (better : α → α → Prop) [IsStrictWeakOrder α better] (comp : α → α → Bool),
          (∀ current next, comp current next = true ↔ better current next) →
            ∃ i, range.findMostSuitable comp = some i ∧ range.FirstUnbeaten better i) ∧
        ∀ (le : α → α → Prop) [IsTrans α le] [Std.Total le] (comp : α → α → Bool),
          (∀ current next, comp current next = true ↔ le current next) →
            ∃ i, range.findMostSuitable comp = some i ∧ range.LastOfBest le i) := by
  refine ⟨fun h comp => findMostSuitable_empty h, fun h => ⟨?_, ?_⟩⟩
  · intro better _ comp hcomp
    exact findMostSuitable_first hcomp h
  · intro le _ _ comp hcomp
    exact findMostSuitable_last hcomp h

/-- Two fives in `[2, 5, 1, 5]`: the strict comparator finds one, the reflexive one the other. -/
theorem most_suitable_fives :
    ∃ i j, (IteratorRange.mk [2, 5, 1, 5] 0 4 (by decide) (by decide)).findMostSuitable
        (fun current next => decide (current < next)) = some i ∧ i = 1 ∧
      (IteratorRange.mk [2, 5, 1, 5] 0 4 (by decide) (by decide)).findMostSuitable
        (fun current next => decide (current ≤ next)) = some j ∧ j = 3 ∧
      (IteratorRange.mk [2, 5, 1, 5] 0 4 (by decide) (by decide)).FirstUnbeaten (· < ·) i ∧
      (IteratorRange.mk [2, 5, 1, 5] 0 4 (by decide) (by decide)).LastOfBest (· ≤ ·) j := by
  have hrange := (most_suitable (IteratorRange.mk [2, 5, 1, 5] 0 4 (by decide) (by decide))).2
    (by decide)
  have : IsStrictWeakOrder Nat (· < ·) :=
    { irrefl := Nat.lt_irrefl
      trans := fun _ _ _ => Nat.lt_trans
      incomp_trans := fun a b c _ _ => by omega }
  obtain ⟨i, hi, hfirst⟩ := hrange.1 (· < ·) (fun current next => decide (current < next))
    (fun _ _ => decide_eq_true_iff)
  obtain ⟨j, hj, hlast⟩ := hrange.2 (· ≤ ·) (fun current next => decide (current ≤ next))
    (fun _ _ => decide_eq_true_iff)
  have hone := hi.symm.trans (show _ = some 1 by decide)
  have hthree := hj.symm.trans (show _ = some 3 by decide)
  exact ⟨i, j, hi, Option.some.inj hone, hj, Option.some.inj hthree, hfirst, hlast⟩

end IteratorRange

end FyS.Common
