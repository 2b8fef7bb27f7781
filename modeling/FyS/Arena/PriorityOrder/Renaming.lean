import FyS.Arena.PriorityOrder.Construction
import FyS.Arena.PriorityOrder.Termination

/-!
# Renaming ids

Every lookup of the scheduler compares ids, so an injective renaming of ids
goes through it: each method commutes with it, and a renamed list serves the
renamed elements.
-/

namespace FyS.Arena.PriorityOrderList

open FyS.Library.Fuel

variable {P : Platform}

/-- `std::sort` under `PriorityElem::operator<` reads nothing but speeds. -/
def SortsBySpeed (sort : StdSort) : Prop :=
  ∀ (f : PriorityElem → PriorityElem) (l : List PriorityElem),
    (∀ e, (f e).speed = e.speed) → sort.run (l.map f) = (sort.run l).map f

theorem insertionSort_sortsBySpeed : SortsBySpeed insertionSort := by
  intro f l hf
  symm
  apply List.map_insertionSort
  intro a _ b _
  rw [hf, hf]

def withId (ρ : Nat → Nat) (e : PriorityElem) : PriorityElem := { e with id := ρ e.id }

@[simp] theorem withId_id (ρ : Nat → Nat) (e : PriorityElem) : (withId ρ e).id = ρ e.id := rfl

@[simp] theorem withId_speed (ρ : Nat → Nat) (e : PriorityElem) :
    (withId ρ e).speed = e.speed := rfl

/-- `s` with all ids renamed; what `getCurrent` reads is left to the caller. -/
def renamed (ρ : Nat → Nat) (currentPrio : PriorityElem) (s : PriorityOrderList) :
    PriorityOrderList :=
  ⟨s.baseSpeed.map (withId ρ), s.priorityList.map (withId ρ), s.analyzedList.map (withId ρ),
    currentPrio, s.currentTurn⟩

/-! ## The tie reordering -/

theorem adjacentFind_map (p : PriorityElem → PriorityElem → Bool)
    (f : PriorityElem → PriorityElem) (l : List PriorityElem) :
    adjacentFind p (l.map f) = adjacentFind (fun e e2 => p (f e) (f e2)) l := by
  induction l with
  | nil => rfl
  | cons e l ih =>
      cases l with
      | nil => rfl
      | cons e2 l =>
          simp only [List.map_cons, adjacentFind] at ih ⊢
          rw [ih]

theorem reverseRange_map (f : PriorityElem → PriorityElem) (l : List PriorityElem)
    (first last : Nat) : reverseRange (l.map f) first last = (reverseRange l first last).map f := by
  simp [reverseRange, List.map_take, List.map_drop]

section Injective

variable {ρ : Nat → Nat} (hρ : Function.Injective ρ)
include hρ

theorem baseSpeedOf_map (base : List PriorityElem) (id : Nat) :
    baseSpeedOf (base.map (withId ρ)) (ρ id) = baseSpeedOf base id := by
  simp only [baseSpeedOf, List.foldl_map, withId_id, withId_speed, hρ.eq_iff]

theorem customSort_renamed (hsort : SortsBySpeed P.sort) (c : PriorityElem)
    (s : PriorityOrderList) : customSort P (renamed ρ c s) = renamed ρ c (customSort P s) := by
  have hrun : P.sort.run (renamed ρ c s).analyzedList =
      (P.sort.run s.analyzedList).map (withId ρ) := hsort _ _ fun _ => rfl
  have hbase (id : Nat) : baseSpeedOf (renamed ρ c s).baseSpeed (ρ id) =
      baseSpeedOf s.baseSpeed id := baseSpeedOf_map hρ s.baseSpeed id
  unfold customSort
  simp only [hrun, adjacentFind_map, withId_id, withId_speed, hbase]
  split
  · rfl
  · split
    · rfl
    · simp only [reverseRange_map]
      rfl

/-! ## The fee and the wages -/

theorem find?_map_withId (l : List PriorityElem) (id : Nat) :
    (l.map (withId ρ)).find? (·.id == ρ id) = (l.find? (·.id == id)).map (withId ρ) := by
  rw [List.find?_map]
  congr 2
  funext e
  simp [hρ.eq_iff]

theorem computedSpeedFrom_map (analyzed base : List PriorityElem) (id before : Nat) :
    computedSpeedFrom (analyzed.map (withId ρ)) (ρ id) (ρ before) (base.map (withId ρ)) =
      computedSpeedFrom analyzed id before base := by
  induction base generalizing before with
  | nil => rfl
  | cons b rest ih =>
      rw [List.map_cons, computedSpeedFrom, computedSpeedFrom, withId_id,
        find?_map_withId hρ, ih b.id]
      simp only [hρ.eq_iff]
      cases analyzed.find? (·.id == before) <;> rfl

theorem getComputedSpeed_renamed (c : PriorityElem) (s : PriorityOrderList) (e : PriorityElem) :
    getComputedSpeed (renamed ρ c s) (withId ρ e) = getComputedSpeed s e := by
  rcases List.eq_nil_or_concat s.baseSpeed with hnil | ⟨l, b, hconcat⟩
  · simp [getComputedSpeed, renamed, hnil, computedSpeedFrom]
  · have hlast : ((renamed ρ c s).baseSpeed.getLast?.map (·.id)).getD 0 =
        ρ ((s.baseSpeed.getLast?.map (·.id)).getD 0) := by
      simp [renamed, hconcat]
    rw [getComputedSpeed, getComputedSpeed, hlast]
    exact computedSpeedFrom_map hρ s.analyzedList s.baseSpeed e.id _

theorem isPlayerSlowest_renamed (c : PriorityElem) (s : PriorityOrderList) (id : Nat) :
    isPlayerSlowest (renamed ρ c s) (ρ id) = isPlayerSlowest s id := by
  unfold isPlayerSlowest renamed
  cases s.baseSpeed with
  | nil => rfl
  | cons b rest => simp [hρ.eq_iff]

omit hρ in
theorem getFastestBaseSpeed_renamed (c : PriorityElem) (s : PriorityOrderList) :
    getFastestBaseSpeed (renamed ρ c s) = getFastestBaseSpeed s := by
  simp only [getFastestBaseSpeed, renamed, List.getLast?_map, Option.map_map]
  rfl

theorem payFirst_map (fastest : Int) (l : List PriorityElem) (b : PriorityElem) :
    payFirst P fastest (l.map (withId ρ)) (withId ρ b) =
      List.map (withId ρ) <$> payFirst P fastest l b := by
  induction l with
  | nil => rfl
  | cons it rest ih =>
      rw [List.map_cons, payFirst, payFirst]
      simp only [withId_id, withId_speed, hρ.eq_iff]
      split
      · cases P.int (b.speed + fastest) with
        | error e => rfl
        | ok bonus =>
            simp only [ok_bind]
            cases P.int (it.speed + bonus) <;> rfl
      · rw [ih]
        cases payFirst P fastest rest b <;> rfl

theorem foldlM_payFirst_map (fastest : Int) (base l : List PriorityElem) :
    (base.map (withId ρ)).foldlM (payFirst P fastest) (l.map (withId ρ)) =
      List.map (withId ρ) <$> base.foldlM (payFirst P fastest) l := by
  induction base generalizing l with
  | nil => rfl
  | cons b rest ih =>
      rw [List.map_cons, List.foldlM_cons, List.foldlM_cons, payFirst_map hρ]
      cases payFirst P fastest l b with
      | error e => rfl
      | ok l' => exact ih l'

/-! ## The recursion -/

theorem endTurnRoutine_renamed (hsort : SortsBySpeed P.sort) (c : PriorityElem)
    (s : PriorityOrderList) :
    endTurnRoutine P (renamed ρ c s) = renamed ρ c <$> endTurnRoutine P s := by
  have hpay := foldlM_payFirst_map (P := P) hρ s.getFastestBaseSpeed s.baseSpeed s.analyzedList
  have hlen : (renamed ρ c s).baseSpeed.length = s.baseSpeed.length := List.length_map _
  rw [endTurnRoutine, endTurnRoutine]
  simp only [hlen]
  split
  · rfl
  · have hfast : getFastestBaseSpeed
        { renamed ρ c s with currentTurn := P.uint (s.currentTurn + 1) } =
          s.getFastestBaseSpeed := getFastestBaseSpeed_renamed c s
    have hfast' : getFastestBaseSpeed { s with currentTurn := P.uint (s.currentTurn + 1) } =
        s.getFastestBaseSpeed := rfl
    simp only [renamed] at hfast ⊢
    rw [hfast, hfast', hpay]
    cases s.baseSpeed.foldlM (payFirst P s.getFastestBaseSpeed) s.analyzedList with
    | error e => rfl
    | ok l =>
        have hcustom := customSort_renamed (P := P) hρ hsort c
          { s with analyzedList := l, currentTurn := P.uint (s.currentTurn + 1) }
        simp only [renamed] at hcustom
        simp only [Except.map_ok, ok_bind, hcustom, renamed, List.map_reverse]

theorem pick_renamed (hsort : SortsBySpeed P.sort) (c : PriorityElem) (s : PriorityOrderList) :
    pick P (renamed ρ c s) = renamed ρ c <$> pick P s := by
  have hcustom := customSort_renamed hρ hsort c s
  rcases List.eq_nil_or_concat (customSort P s).analyzedList with hnil | ⟨l, e, hl⟩
  · have hnil' : (customSort P (renamed ρ c s)).analyzedList = [] := by
      rw [hcustom]
      simp [renamed, hnil]
    simp [pick, hnil, hnil']
  · rw [List.concat_eq_append] at hl
    have hl' : (customSort P (renamed ρ c s)).analyzedList =
        l.map (withId ρ) ++ [withId ρ e] := by
      rw [hcustom]
      simp [renamed, hl]
    have hfee : fee P (renamed ρ c s) (l.map (withId ρ)) (withId ρ e) = fee P s l e := by
      simp only [fee, List.map_eq_nil_iff, hcustom, getComputedSpeed_renamed hρ]
    have hslow : isPlayerSlowest (renamed ρ c s) (withId ρ e).id = isPlayerSlowest s e.id :=
      isPlayerSlowest_renamed hρ c s e.id
    have hpicked (speed : Int) : withPicked (renamed ρ c s) (l.map (withId ρ))
        { withId ρ e with speed } = renamed ρ c (withPicked s l { e with speed }) := by
      simp [withPicked, renamed, withId]
    rw [pick_eq hl, pick_eq hl', hslow, hfee]
    simp only [List.map_eq_nil_iff, hpicked, withId_speed,
      endTurnRoutine_renamed hρ hsort]
    cases (if l = [] then Except.ok e.speed else P.int (e.speed - fee P s l e)) with
    | error e => rfl
    | ok speed =>
        simp only [ok_bind]
        split <;> rfl

theorem calculatePriority_renamed (hsort : SortsBySpeed P.sort) (c : PriorityElem) (turn fuel : Nat)
    (s : PriorityOrderList) :
    calculatePriority P turn fuel (renamed ρ c s) =
      renamed ρ c <$> calculatePriority P turn fuel s := by
  induction fuel generalizing s with
  | zero => rfl
  | succ fuel ih =>
      rw [calculatePriority, calculatePriority]
      have hturn : (renamed ρ c s).currentTurn = s.currentTurn := rfl
      rw [hturn, pick_renamed hρ hsort]
      split
      · rfl
      · cases pick P s with
        | error e => rfl
        | ok t => exact ih t

theorem sortBaseAndCalculatePriority_renamed (hsort : SortsBySpeed P.sort) (c : PriorityElem)
    (fuel : Nat) (s : PriorityOrderList) :
    sortBaseAndCalculatePriority P fuel (renamed ρ c s) =
      renamed ρ c <$> sortBaseAndCalculatePriority P fuel s := by
  have hrun : P.sort.run (s.baseSpeed.map (withId ρ)) =
      (P.sort.run s.baseSpeed).map (withId ρ) := hsort _ _ fun _ => rfl
  have hcalc := calculatePriority_renamed hρ hsort c s.currentTurn fuel
    { s with baseSpeed := P.sort.run s.baseSpeed }
  simp only [renamed] at hcalc
  simp only [sortBaseAndCalculatePriority, renamed, List.isEmpty_map, hrun, hcalc]
  split
  · rfl
  · split <;> rfl

theorem getNext_renamed (hsort : SortsBySpeed P.sort) (c : PriorityElem) (fuel : Nat)
    {s t : PriorityOrderList} {e : PriorityElem} (hbase : s.baseSpeed ≠ [])
    (h : getNext P fuel s = .ok (e, t)) :
    ∃ c', getNext P fuel (renamed ρ c s) = .ok (withId ρ e, renamed ρ c' t) := by
  induction fuel generalizing s with
  | zero => exact nomatch h
  | succ fuel ih =>
      have hempty : s.baseSpeed.isEmpty = false := by simpa using hbase
      have hempty' : (renamed ρ c s).baseSpeed.isEmpty = false := by simpa [renamed] using hbase
      simp only [getNext, hempty, hempty', Bool.false_eq_true, if_false] at h ⊢
      have hlast : (renamed ρ c s).priorityList.getLast? =
          s.priorityList.getLast?.map (withId ρ) := List.getLast?_map
      rw [hlast]
      cases hprio : s.priorityList.getLast? with
      | none =>
          rw [hprio] at h
          obtain ⟨u, hu, hnext⟩ := bind_eq_ok.mp h
          obtain ⟨c', hc'⟩ := ih (sortBaseAndCalculatePriority_ne_nil hbase hu) hnext
          refine ⟨c', ?_⟩
          simp only [Option.map_none, sortBaseAndCalculatePriority_renamed hρ hsort, hu]
          exact hc'
      | some prio =>
          rw [hprio] at h
          obtain ⟨rfl, rfl⟩ := Prod.mk.inj (Except.ok.inj h)
          refine ⟨withId ρ prio, ?_⟩
          simp [renamed, List.map_dropLast]

theorem Serves.renamed (hsort : SortsBySpeed P.sort) (c : PriorityElem)
    {s t : PriorityOrderList} {es : List PriorityElem} (h : Serves P s es t)
    (hbase : s.baseSpeed ≠ []) :
    ∃ c', Serves P (renamed ρ c s) (es.map (withId ρ)) (renamed ρ c' t) := by
  induction h generalizing c with
  | nil => exact ⟨c, .nil⟩
  | @cons s t u e es head _ ih =>
      obtain ⟨fuel, hfuel⟩ := head
      obtain ⟨c', hnext⟩ := getNext_renamed hρ hsort c fuel hbase hfuel
      obtain ⟨c'', hserves⟩ := ih c' (getNext_ne_nil hbase hfuel)
      exact ⟨c'', .cons ⟨fuel, hnext⟩ hserves⟩

end Injective

end FyS.Arena.PriorityOrderList
