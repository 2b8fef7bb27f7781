import FyS.Arena.PriorityOrder.Model
import FyS.Library.Fuel

/-!
# What one step of the scheduler does

One specification lemma for each private method of `PriorityOrderList`, and
the stability of the fuelled ones.  The later modules use these and do not
unfold the methods again.
-/

namespace FyS.Arena.PriorityOrderList

open FyS.Library.Fuel

variable {P : Platform}

/-! ## `customSort` -/

theorem adjacentFind_succ_lt {p : PriorityElem → PriorityElem → Bool}
    {l : List PriorityElem} {i : Nat} (h : adjacentFind p l = some i) :
    i + 1 < l.length := by
  induction l generalizing i with
  | nil => simp [adjacentFind] at h
  | cons e l ih =>
      cases l with
      | nil => simp [adjacentFind] at h
      | cons e2 l =>
          rw [adjacentFind] at h
          split at h
          · obtain rfl : 0 = i := Option.some.inj h
            simp
          · obtain ⟨j, hj, rfl⟩ := Option.map_eq_some_iff.mp h
            have := ih hj
            simp only [List.length_cons] at this ⊢
            omega

/-- Up to and including the first element that differs in speed from its
successor, all speeds are the same. -/
theorem speed_of_mem_take_adjacentFind {l : List PriorityElem} {i : Nat}
    (h : adjacentFind (fun e e2 => e.speed != e2.speed) l = some i) :
    ∃ v, ∀ e ∈ l.take (i + 1), e.speed = v := by
  induction l generalizing i with
  | nil => simp [adjacentFind] at h
  | cons e l ih =>
      cases l with
      | nil => simp [adjacentFind] at h
      | cons e2 l =>
          rw [adjacentFind] at h
          split at h
          · obtain rfl : 0 = i := Option.some.inj h
            exact ⟨e.speed, by simp⟩
          · rename_i hne
            obtain ⟨j, hj, rfl⟩ := Option.map_eq_some_iff.mp h
            obtain ⟨v, hv⟩ := ih hj
            have he2 : e2.speed = v := hv e2 (by simp)
            have he : e.speed = e2.speed := by simpa using hne
            refine ⟨v, fun x hx => ?_⟩
            rw [List.take_succ_cons, List.mem_cons] at hx
            rcases hx with rfl | hx
            · rw [he, he2]
            · exact hv x hx

theorem reverseRange_of_le {l : List PriorityElem} {first last : Nat} (h : last ≤ first) :
    reverseRange l first last = l := by
  rw [reverseRange, Nat.max_eq_left h, List.drop_take, Nat.sub_eq_zero_of_le h]
  simp

theorem take_append_range {l : List PriorityElem} {first last : Nat} (h : first ≤ last) :
    l.take first ++ (l.take last).drop first ++ l.drop last = l := by
  have hsplit : l.take first ++ (l.take last).drop first = l.take last := by
    conv_rhs => rw [← List.take_append_drop first (l.take last)]
    rw [List.take_take, Nat.min_eq_left h]
  rw [hsplit, List.take_append_drop]

theorem reverseRange_perm (l : List PriorityElem) (first last : Nat) :
    (reverseRange l first last).Perm l := by
  rcases Nat.le_total last first with hle | hle
  · rw [reverseRange_of_le hle]
  · rw [reverseRange, Nat.max_eq_right hle]
    conv_rhs => rw [← take_append_range (l := l) hle]
    exact ((List.reverse_perm _).append_left _).append_right _

theorem map_speed_reverseRange {l : List PriorityElem} {first last : Nat} {v : Int}
    (hv : ∀ e ∈ l.take last, e.speed = v) :
    (reverseRange l first last).map (·.speed) = l.map (·.speed) := by
  rcases Nat.le_total last first with hle | hle
  · rw [reverseRange_of_le hle]
  · have hmid : ((l.take last).drop first).map (·.speed) =
        List.replicate ((l.take last).drop first).length v := by
      rw [List.eq_replicate_iff]
      refine ⟨by simp, fun x hx => ?_⟩
      obtain ⟨e, he, rfl⟩ := List.mem_map.mp hx
      exact hv e (List.mem_of_mem_drop he)
    rw [reverseRange, Nat.max_eq_right hle]
    conv_rhs => rw [← take_append_range (l := l) hle]
    simp only [List.map_append, List.map_reverse, hmid, List.reverse_replicate]

theorem ascending_iff_map {l : List PriorityElem} :
    Ascending l ↔ (l.map (·.speed)).Pairwise (· ≤ ·) :=
  List.pairwise_map.symm

/-- The tie reordering of `customSort`, whichever branch it takes, only moves
elements of equal speed. -/
theorem customSort_spec (P : Platform) (s : PriorityOrderList) :
    ∃ l, customSort P s = { s with analyzedList := l } ∧ l.Perm s.analyzedList ∧
      Ascending l := by
  have hperm := P.sort.perm s.analyzedList
  have hasc := P.sort.ascending s.analyzedList
  unfold customSort
  simp only
  split
  · exact ⟨_, rfl, hperm, hasc⟩
  · split
    · exact ⟨_, rfl, hperm, hasc⟩
    · rename_i toSwap hswap
      obtain ⟨v, hv⟩ := speed_of_mem_take_adjacentFind hswap
      refine ⟨_, rfl, (reverseRange_perm _ _ _).trans hperm, ?_⟩
      rw [ascending_iff_map, map_speed_reverseRange hv, ← ascending_iff_map]
      exact hasc

theorem getLast?_reverseRange {l : List PriorityElem} {first last : Nat}
    (hfirst : first < l.length) (hlast : last < l.length) :
    (reverseRange l first last).getLast? = l.getLast? := by
  have hdrop : l.drop (max first last) ≠ [] := by
    rw [Ne, List.drop_eq_nil_iff]
    omega
  have hsplit : l.getLast? = (l.drop (max first last)).getLast? := by
    conv_lhs => rw [← List.take_append_drop (max first last) l]
    exact List.getLast?_append_of_ne_nil _ hdrop
  rw [reverseRange, List.getLast?_append_of_ne_nil _ hdrop, hsplit]

/-- The tie reordering leaves the back to `std::sort`. -/
theorem customSort_getLast? (P : Platform) (s : PriorityOrderList) :
    (customSort P s).analyzedList.getLast? = (P.sort.run s.analyzedList).getLast? := by
  unfold customSort
  simp only
  split
  · rfl
  · rename_i found hfound
    split
    · rfl
    · rename_i toSwap hswap
      exact getLast?_reverseRange (Nat.lt_of_succ_lt (adjacentFind_succ_lt hfound))
        (adjacentFind_succ_lt hswap)

section Projections

variable (P : Platform) (s : PriorityOrderList)

@[simp] theorem customSort_baseSpeed : (customSort P s).baseSpeed = s.baseSpeed := by
  obtain ⟨l, hl, -⟩ := customSort_spec P s
  rw [hl]

@[simp] theorem customSort_priorityList :
    (customSort P s).priorityList = s.priorityList := by
  obtain ⟨l, hl, -⟩ := customSort_spec P s
  rw [hl]

@[simp] theorem customSort_currentTurn :
    (customSort P s).currentTurn = s.currentTurn := by
  obtain ⟨l, hl, -⟩ := customSort_spec P s
  rw [hl]

theorem customSort_perm : (customSort P s).analyzedList.Perm s.analyzedList := by
  obtain ⟨l, hl, hperm, -⟩ := customSort_spec P s
  rw [hl]
  exact hperm

theorem customSort_ascending : Ascending (customSort P s).analyzedList := by
  obtain ⟨l, hl, -, hasc⟩ := customSort_spec P s
  rw [hl]
  exact hasc

end Projections

theorem speed_le_back {s : PriorityOrderList} {l : List PriorityElem} {e : PriorityElem}
    (h : (customSort P s).analyzedList = l ++ [e]) {x : PriorityElem}
    (hx : x ∈ s.analyzedList) : x.speed ≤ e.speed := by
  have hmem : x ∈ l ++ [e] := h ▸ (customSort_perm P s).mem_iff.mpr hx
  have hasc := h ▸ customSort_ascending P s
  rcases List.mem_append.mp hmem with hl | he
  · exact (List.pairwise_append.mp hasc).2.2 x hl e (by simp)
  · obtain rfl := List.mem_singleton.mp he
    exact Int.le_refl _

/-! ## `endTurnRoutine` -/

/-- What `payFirst` makes of the list when no addition overflows. -/
def paid (fastest : Int) (b : PriorityElem) : List PriorityElem → List PriorityElem
  | [] => []
  | it :: rest =>
    if it.id = b.id then { it with speed := it.speed + (b.speed + fastest) } :: rest
    else it :: paid fastest b rest

theorem int_eq_ok {v w : Int} (h : P.int v = .ok w) : w = v := by
  unfold Platform.int at h
  split at h
  · exact (Except.ok.inj h).symm
  · exact nomatch h

theorem int_of_fits {v : Int} (h : P.fits v = true) : P.int v = .ok v := by
  rw [Platform.int, if_pos h]

theorem payFirst_eq_ok {fastest : Int} {l l' : List PriorityElem} {b : PriorityElem}
    (h : payFirst P fastest l b = .ok l') : l' = paid fastest b l := by
  induction l generalizing l' with
  | nil => exact (Except.ok.inj h).symm
  | cons it rest ih =>
      rw [payFirst] at h
      rw [paid]
      split at h
      · obtain ⟨bonus, hbonus, h⟩ := bind_eq_ok.mp h
        obtain ⟨speed, hspeed, h⟩ := bind_eq_ok.mp h
        obtain rfl := int_eq_ok hbonus
        obtain rfl := int_eq_ok hspeed
        rw [if_pos ‹_›]
        exact (Except.ok.inj h).symm
      · obtain ⟨rest', hrest, h⟩ := bind_eq_ok.mp h
        obtain rfl := ih hrest
        rw [if_neg ‹_›]
        exact (Except.ok.inj h).symm

theorem payFirst_of_fits {fastest : Int} {l : List PriorityElem} {b : PriorityElem}
    (hfits : ∀ it ∈ l, it.id = b.id → P.fits (b.speed + fastest) = true ∧
      P.fits (it.speed + (b.speed + fastest)) = true) :
    payFirst P fastest l b = .ok (paid fastest b l) := by
  induction l with
  | nil => rfl
  | cons it rest ih =>
      rw [payFirst, paid]
      split
      · obtain ⟨hbonus, hspeed⟩ := hfits it List.mem_cons_self ‹_›
        rw [int_of_fits hbonus, ok_bind, int_of_fits hspeed]
        rfl
      · rw [ih fun x hx => hfits x (List.mem_cons_of_mem _ hx)]
        rfl

/-- What the loop of `endTurnRoutine` makes of the list when no addition overflows. -/
def paidAll (fastest : Int) (l : List PriorityElem) (baseSpeed : List PriorityElem) :
    List PriorityElem :=
  baseSpeed.foldl (fun l b => paid fastest b l) l

theorem foldlM_payFirst_eq_ok {fastest : Int} {baseSpeed l l' : List PriorityElem}
    (h : baseSpeed.foldlM (payFirst P fastest) l = .ok l') :
    l' = paidAll fastest l baseSpeed := by
  induction baseSpeed generalizing l with
  | nil => exact (Except.ok.inj h).symm
  | cons b rest ih =>
      rw [List.foldlM_cons] at h
      obtain ⟨l₁, hb, h⟩ := bind_eq_ok.mp h
      obtain rfl := payFirst_eq_ok hb
      exact ih h

/-- The end of a turn counts it and, with two participants or more, pays
everybody, sorts, and turns the priority list over. -/
theorem endTurnRoutine_cases {s s' : PriorityOrderList} (h : endTurnRoutine P s = .ok s') :
    (s.baseSpeed.length ≤ 1 ∧ s' = { s with currentTurn := P.uint (s.currentTurn + 1) }) ∨
    (1 < s.baseSpeed.length ∧ ∃ l,
      l.Perm (paidAll s.getFastestBaseSpeed s.analyzedList s.baseSpeed) ∧
      s' = { s with
        analyzedList := l
        priorityList := s.priorityList.reverse
        currentTurn := P.uint (s.currentTurn + 1) }) := by
  rw [endTurnRoutine] at h
  simp only at h
  split at h
  · exact .inl ⟨‹_›, (Except.ok.inj h).symm⟩
  · obtain ⟨l, hpay, h⟩ := bind_eq_ok.mp h
    have hl : l = paidAll s.getFastestBaseSpeed s.analyzedList s.baseSpeed :=
      foldlM_payFirst_eq_ok hpay
    obtain ⟨l', hsorted, hperm, -⟩ := customSort_spec P
      { s with analyzedList := l, currentTurn := P.uint (s.currentTurn + 1) }
    rw [hsorted] at h
    exact .inr ⟨by omega, l', hl ▸ hperm, (Except.ok.inj h).symm⟩

theorem endTurnRoutine_baseSpeed {s t : PriorityOrderList} (h : endTurnRoutine P s = .ok t) :
    t.baseSpeed = s.baseSpeed := by
  rcases endTurnRoutine_cases h with ⟨-, rfl⟩ | ⟨-, l, -, rfl⟩ <;> rfl

theorem endTurnRoutine_currentTurn {s t : PriorityOrderList} (h : endTurnRoutine P s = .ok t) :
    t.currentTurn = P.uint (s.currentTurn + 1) := by
  rcases endTurnRoutine_cases h with ⟨-, rfl⟩ | ⟨-, l, -, rfl⟩ <;> rfl

/-! ## `pick` -/

def withPicked (s : PriorityOrderList) (l : List PriorityElem) (fastest : PriorityElem) :
    PriorityOrderList :=
  { s with analyzedList := l ++ [fastest], priorityList := s.priorityList ++ [fastest] }

def fee (P : Platform) (s : PriorityOrderList) (l : List PriorityElem) (e : PriorityElem) : Int :=
  if l = [] then 0 else getComputedSpeed (customSort P s) e

theorem pick_eq {s : PriorityOrderList} {l : List PriorityElem} {e : PriorityElem}
    (h : (customSort P s).analyzedList = l ++ [e]) :
    pick P s = (if l = [] then .ok e.speed else P.int (e.speed - fee P s l e)) >>= fun speed =>
      if isPlayerSlowest s e.id then endTurnRoutine P (withPicked s l { e with speed })
      else .ok (withPicked s l { e with speed }) := by
  obtain ⟨l', hsorted, -⟩ := customSort_spec P s
  obtain rfl : l' = l ++ [e] := by rw [← h, hsorted]
  rw [pick, fee, hsorted]
  by_cases hl : l = []
  · subst hl
    simp [withPicked, isPlayerSlowest]
    rfl
  · have hlen : 1 < l.length + 1 := by
      have := List.length_pos_iff.mpr hl
      omega
    simp [withPicked, isPlayerSlowest, hl, hlen]
    rfl

theorem pick_cases {s s' : PriorityOrderList} (h : pick P s = .ok s') :
    ∃ l e, (customSort P s).analyzedList = l ++ [e] ∧
      ((isPlayerSlowest s e.id = false ∧
          s' = withPicked s l { e with speed := e.speed - fee P s l e }) ∨
        (isPlayerSlowest s e.id = true ∧
          endTurnRoutine P (withPicked s l { e with speed := e.speed - fee P s l e }) =
            .ok s')) := by
  rcases List.eq_nil_or_concat (customSort P s).analyzedList with hnil | ⟨l, e, hl⟩
  · rw [pick] at h
    simp [hnil] at h
  · rw [List.concat_eq_append] at hl
    refine ⟨l, e, hl, ?_⟩
    rw [pick_eq hl] at h
    obtain ⟨speed, hspeed, h⟩ := bind_eq_ok.mp h
    have hv : speed = e.speed - fee P s l e := by
      split at hspeed
      · simp [fee, ‹l = []›, ← Except.ok.inj hspeed]
      · exact int_eq_ok hspeed
    subst hv
    split at h
    · exact .inr ⟨‹_›, h⟩
    · exact .inl ⟨(Bool.not_eq_true _).mp ‹_›, (Except.ok.inj h).symm⟩

theorem pick_cases_of_sorted {s s' : PriorityOrderList} {l : List PriorityElem} {e : PriorityElem}
    (hsorted : (customSort P s).analyzedList = l ++ [e]) (h : pick P s = .ok s') :
    (isPlayerSlowest s e.id = false ∧
        s' = withPicked s l { e with speed := e.speed - fee P s l e }) ∨
      (isPlayerSlowest s e.id = true ∧
        endTurnRoutine P (withPicked s l { e with speed := e.speed - fee P s l e }) = .ok s') := by
  obtain ⟨l', e', hsorted', hcases⟩ := pick_cases h
  obtain ⟨rfl, he⟩ := List.append_inj' (hsorted'.symm.trans hsorted) rfl
  obtain rfl := List.singleton_injective he
  exact hcases

/-! ## `calculatePriority` -/

theorem calculatePriority_succ (fuel : Nat) (s : PriorityOrderList) :
    calculatePriority P s.currentTurn (fuel + 1) s =
      pick P s >>= calculatePriority P s.currentTurn fuel := by
  rw [calculatePriority]
  exact if_neg (not_not_intro rfl)

theorem calculatePriority_picks {fuel : Nat} {s t : PriorityOrderList}
    (h : calculatePriority P s.currentTurn fuel s = .ok t) :
    ∃ fuel u, pick P s = .ok u ∧ calculatePriority P s.currentTurn fuel u = .ok t := by
  cases fuel with
  | zero => exact nomatch h
  | succ fuel =>
      rw [calculatePriority_succ] at h
      obtain ⟨u, hpick, hrest⟩ := bind_eq_ok.mp h
      exact ⟨fuel, u, hpick, hrest⟩

theorem returns_iff_of_pick {s t u : PriorityOrderList} (hpick : pick P s = .ok u) :
    Returns (fun fuel => calculatePriority P s.currentTurn fuel s) t ↔
      Returns (fun fuel => calculatePriority P s.currentTurn fuel u) t := by
  constructor
  · rintro ⟨fuel, h⟩
    obtain ⟨fuel, v, hv, hrest⟩ := calculatePriority_picks h
    obtain rfl : u = v := Except.ok.inj (hpick.symm.trans hv)
    exact ⟨fuel, hrest⟩
  · rintro ⟨fuel, h⟩
    refine ⟨fuel + 1, (calculatePriority_succ fuel s).trans ?_⟩
    rw [hpick]
    exact h

theorem calculatePriority_stop {turn : Nat} {s : PriorityOrderList} (hturn : s.currentTurn ≠ turn)
    (fuel : Nat) : calculatePriority P turn (fuel + 1) s = .ok s := by
  rw [calculatePriority, if_pos hturn]

theorem calculatePriority_ended {turn fuel : Nat} {s t : PriorityOrderList}
    (hturn : s.currentTurn ≠ turn) (h : calculatePriority P turn fuel s = .ok t) : t = s := by
  cases fuel with
  | zero => exact nomatch h
  | succ fuel => exact (Except.ok.inj ((calculatePriority_stop hturn fuel).symm.trans h)).symm

theorem calculatePriority_keeps (Inv : PriorityOrderList → Prop)
    (hpick : ∀ s t, Inv s → pick P s = .ok t → Inv t) {turn fuel : Nat} {s t : PriorityOrderList}
    (hs : Inv s) (h : calculatePriority P turn fuel s = .ok t) : Inv t := by
  induction fuel generalizing s with
  | zero => exact nomatch h
  | succ fuel ih =>
      rw [calculatePriority] at h
      split at h
      · obtain rfl : s = t := Except.ok.inj h
        exact hs
      · obtain ⟨u, hu, hrest⟩ := bind_eq_ok.mp h
        exact ih (hpick s u hs hu) hrest

/-! ## The base order is left alone -/

theorem pick_baseSpeed {s t : PriorityOrderList} (h : pick P s = .ok t) :
    t.baseSpeed = s.baseSpeed := by
  obtain ⟨l, e, -, ⟨-, rfl⟩ | ⟨-, hend⟩⟩ := pick_cases h
  · rfl
  · rw [endTurnRoutine_baseSpeed hend]
    rfl

theorem calculatePriority_baseSpeed {turn fuel : Nat} {s t : PriorityOrderList}
    (h : calculatePriority P turn fuel s = .ok t) : t.baseSpeed = s.baseSpeed := by
  refine calculatePriority_keeps (fun u => u.baseSpeed = s.baseSpeed) ?_ rfl h
  intro u v hu hpick
  exact (pick_baseSpeed hpick).trans hu

theorem endTurnRoutine_currentPrio {s t : PriorityOrderList} (h : endTurnRoutine P s = .ok t) :
    t.currentPrio = s.currentPrio := by
  rcases endTurnRoutine_cases h with ⟨-, rfl⟩ | ⟨-, l, -, rfl⟩ <;> rfl

theorem pick_currentPrio {s t : PriorityOrderList} (h : pick P s = .ok t) :
    t.currentPrio = s.currentPrio := by
  obtain ⟨l, e, -, ⟨-, rfl⟩ | ⟨-, hend⟩⟩ := pick_cases h
  · rfl
  · rw [endTurnRoutine_currentPrio hend]
    rfl

theorem calculatePriority_currentPrio {turn fuel : Nat} {s t : PriorityOrderList}
    (h : calculatePriority P turn fuel s = .ok t) : t.currentPrio = s.currentPrio := by
  refine calculatePriority_keeps (fun u => u.currentPrio = s.currentPrio) ?_ rfl h
  intro u v hu hpick
  exact (pick_currentPrio hpick).trans hu

theorem sortBaseAndCalculatePriority_spec {fuel : Nat} {s t : PriorityOrderList}
    (h : sortBaseAndCalculatePriority P fuel s = .ok t) :
    (t.baseSpeed = s.baseSpeed ∨ t.baseSpeed = P.sort.run s.baseSpeed) ∧
      t.currentPrio = s.currentPrio := by
  unfold sortBaseAndCalculatePriority at h
  simp only at h
  split at h
  · rw [Except.ok.inj h]
    exact ⟨.inl rfl, rfl⟩
  · split at h
    · rw [← Except.ok.inj h]
      exact ⟨.inr rfl, rfl⟩
    · rw [calculatePriority_baseSpeed h, calculatePriority_currentPrio h]
      exact ⟨.inr rfl, rfl⟩

theorem sortBaseAndCalculatePriority_perm {fuel : Nat} {s t : PriorityOrderList}
    (h : sortBaseAndCalculatePriority P fuel s = .ok t) : t.baseSpeed.Perm s.baseSpeed := by
  rcases (sortBaseAndCalculatePriority_spec h).1 with hbase | hbase
  · rw [hbase]
  · rw [hbase]
    exact P.sort.perm _

theorem sortBaseAndCalculatePriority_currentPrio {fuel : Nat} {s t : PriorityOrderList}
    (h : sortBaseAndCalculatePriority P fuel s = .ok t) : t.currentPrio = s.currentPrio :=
  (sortBaseAndCalculatePriority_spec h).2

theorem sortBaseAndCalculatePriority_ne_nil {fuel : Nat} {s t : PriorityOrderList}
    (hbase : s.baseSpeed ≠ []) (h : sortBaseAndCalculatePriority P fuel s = .ok t) :
    t.baseSpeed ≠ [] := by
  intro hnil
  have hperm := sortBaseAndCalculatePriority_perm h
  rw [hnil] at hperm
  exact hbase (List.nil_perm.mp hperm)

/-! ## Fuel -/

theorem calculatePriority_stable (turn : Nat) (s : PriorityOrderList) :
    Stable .outOfFuel (fun fuel => calculatePriority P turn fuel s) := by
  refine stable_of_succ (f := fun s fuel => calculatePriority P turn fuel s) (fun _ => rfl) ?_ s
  intro n s ih m hnm hne
  simp only [calculatePriority] at hne ⊢
  split
  · rfl
  · rename_i hturn
    rw [if_neg hturn] at hne
    cases hpick : pick P s with
    | error e => rfl
    | ok t =>
        rw [hpick] at hne
        exact ih t m hnm hne

theorem sortBaseAndCalculatePriority_stable (s : PriorityOrderList) :
    Stable .outOfFuel (fun fuel => sortBaseAndCalculatePriority P fuel s) := by
  unfold sortBaseAndCalculatePriority
  simp only
  split
  · exact Stable.const _
  · split
    · exact Stable.const _
    · exact calculatePriority_stable _ _

theorem addParticipantInList_stable (id : Nat) (speed : Int) (isContender : Bool)
    (s : PriorityOrderList) :
    Stable .outOfFuel (fun fuel => addParticipantInList P fuel id speed isContender s) := by
  unfold addParticipantInList
  split
  · exact Stable.const _
  · simp only
    split
    · exact (Stable.const _).bind fun _ =>
        (sortBaseAndCalculatePriority_stable _).bind fun _ => Stable.const _
    · exact (sortBaseAndCalculatePriority_stable _).bind fun _ => Stable.const _

theorem getNext_stable (s : PriorityOrderList) :
    Stable .outOfFuel (fun fuel => getNext P fuel s) := by
  refine stable_of_succ (f := fun s fuel => getNext P fuel s) (fun _ => rfl) ?_ s
  intro n s ih m hnm hne
  simp only [getNext] at hne ⊢
  split
  · rfl
  · rename_i hbase
    rw [if_neg hbase] at hne
    split
    · rename_i hprio
      rw [hprio] at hne
      exact (sortBaseAndCalculatePriority_stable s).bind_le hnm (fun t => ih t m hnm) hne
    · rfl

end FyS.Arena.PriorityOrderList
