import FyS.Arena.PriorityOrder.Agreement
import FyS.Arena.PriorityOrder.Renaming

/-!
# When ids collide

A contender and a team member may share an id.  If they are the slowest and by
far the fastest of a list, the lookups by id take one for the other: the
fastest one ends the first turn after one pick and is not paid for it.  With
an id of its own it would have been picked twice in a row.
-/

namespace FyS.Arena.PriorityOrderList

open FyS.Library.Fuel

variable {P : Platform}

/-! ## The first picks of a turn -/

/-- A batch begins with somebody whom nobody outruns at the start of the turn. -/
theorem calculatePriority_first {fuel : Nat} {s t : PriorityOrderList}
    (hlen : 1 < s.baseSpeed.length) (h : calculatePriority P s.currentTurn fuel s = .ok t) :
    ∃ e ∈ s.analyzedList, (∀ x ∈ s.analyzedList, x.speed ≤ e.speed) ∧
      ∃ speed picks, t.priorityList = (s.priorityList ++ { e with speed } :: picks).reverse := by
  induction fuel generalizing s with
  | zero => exact nomatch h
  | succ fuel ih =>
      rw [calculatePriority_succ] at h
      obtain ⟨u, hpick, hrest⟩ := bind_eq_ok.mp h
      obtain ⟨l, e, hsorted, hcases⟩ := pick_cases hpick
      have he : e ∈ s.analyzedList := (customSort_perm P s).mem_iff.mp (by rw [hsorted]; simp)
      refine ⟨e, he, fun x hx => speed_le_back hsorted hx, e.speed - fee P s l e, ?_⟩
      rcases hcases with ⟨-, rfl⟩ | ⟨-, hend⟩
      · obtain ⟨e', -, -, speed, picks, hprio⟩ := ih (s := s.withPicked l _) hlen hrest
        refine ⟨{ e' with speed } :: picks, ?_⟩
        rw [hprio, withPicked, List.append_assoc, List.singleton_append]
      · rcases endTurnRoutine_cases hend with ⟨hle, -⟩ | ⟨-, l', -, rfl⟩
        · exact absurd hlen (Nat.not_lt.mpr hle)
        · obtain rfl := calculatePriority_ended (P.uint_succ_ne s.currentTurn) hrest
          exact ⟨[], rfl⟩

theorem calculatePriority_open {fuel : Nat} {s t : PriorityOrderList} {l : List PriorityElem}
    {e : PriorityElem} (hsorted : (customSort P s).analyzedList = l ++ [e])
    (hopen : isPlayerSlowest s e.id = false)
    (h : calculatePriority P s.currentTurn fuel s = .ok t) :
    ∃ fuel, calculatePriority P s.currentTurn fuel
      (s.withPicked l { e with speed := e.speed - fee P s l e }) = .ok t := by
  obtain ⟨fuel, u, hpick, hrest⟩ := calculatePriority_picks h
  rcases pick_cases_of_sorted hsorted hpick with ⟨-, rfl⟩ | ⟨hclose, -⟩
  · exact ⟨fuel, hrest⟩
  · exact absurd hclose (by simp [hopen])

theorem calculatePriority_closed {fuel : Nat} {s t : PriorityOrderList} {l : List PriorityElem}
    {e : PriorityElem} (hsorted : (customSort P s).analyzedList = l ++ [e])
    (hclose : isPlayerSlowest s e.id = true) (hlen : 1 < s.baseSpeed.length)
    (h : calculatePriority P s.currentTurn fuel s = .ok t) :
    ∃ l', l'.Perm (paidAll s.getFastestBaseSpeed
        (l ++ [{ e with speed := e.speed - fee P s l e }]) s.baseSpeed) ∧
      t = { s with
        analyzedList := l'
        priorityList := (s.priorityList ++ [{ e with speed := e.speed - fee P s l e }]).reverse
        currentTurn := P.uint (s.currentTurn + 1) } := by
  obtain ⟨fuel, u, hpick, hrest⟩ := calculatePriority_picks h
  rcases pick_cases_of_sorted hsorted hpick with ⟨hopen, -⟩ | ⟨-, hend⟩
  · exact absurd hclose (by simp [hopen])
  · rcases endTurnRoutine_cases hend with ⟨hle, -⟩ | ⟨-, paid, hpaid, rfl⟩
    · exact absurd hlen (Nat.not_lt.mpr hle)
    · obtain rfl := calculatePriority_ended (P.uint_succ_ne s.currentTurn) hrest
      exact ⟨paid, hpaid, rfl⟩

theorem Gives.of_batch {u t : PriorityOrderList} {e e' : PriorityElem} {l : List PriorityElem}
    (hbase : u.baseSpeed ≠ []) (hprio : u.priorityList = (e :: l).reverse)
    (h : Gives P u e' t) : e' = e ∧ t = u.served e l.reverse :=
  (gives_of_priority hbase (by rw [hprio, List.reverse_cons])).mp h

theorem Gives.turn {s t : PriorityOrderList} {e : PriorityElem} (hbase : s.baseSpeed ≠ [])
    (hprio : s.priorityList = []) (hturn : s.currentTurn ≠ 0) (h : Gives P s e t) :
    ∃ u fuel, calculatePriority P s.currentTurn fuel (resorted P s) = .ok u ∧ Gives P u e t := by
  obtain ⟨u, hrefill, hgives⟩ := (gives_of_refill hbase hprio).mp h
  obtain ⟨fuel, hfuel⟩ := (((refills_iff hbase).mp hrefill).resolve_left
    fun hzero => hturn hzero.1).2
  exact ⟨u, fuel, hfuel, hgives⟩

theorem Gives.first {s t : PriorityOrderList} {e : PriorityElem} (hlen : 1 < s.baseSpeed.length)
    (hprio : s.priorityList = []) (hturn : s.currentTurn ≠ 0) (h : Gives P s e t) :
    ∃ x ∈ s.analyzedList, (∀ z ∈ s.analyzedList, z.speed ≤ x.speed) ∧ e.key = x.key := by
  have hbase : s.baseSpeed ≠ [] := List.ne_nil_of_length_pos (Nat.lt_of_succ_lt hlen)
  obtain ⟨u, fuel, hfuel, hgives⟩ := h.turn hbase hprio hturn
  have hlen' : 1 < (resorted P s).baseSpeed.length := by
    rw [(resorted_perm P s).length_eq]
    exact hlen
  obtain ⟨x, hx, hmax, speed, picks, hpriou⟩ :=
    calculatePriority_first (s := resorted P s) hlen' hfuel
  have hbaseu : u.baseSpeed ≠ [] := by
    rw [calculatePriority_baseSpeed hfuel]
    exact resorted_ne_nil hbase
  have hpriou' : u.priorityList = ({ x with speed } :: picks).reverse := by
    rw [hpriou, show (resorted P s).priorityList = [] from hprio, List.nil_append]
  obtain ⟨rfl, -⟩ := hgives.of_batch hbaseu hpriou'
  exact ⟨x, hx, hmax, rfl⟩

/-! ## The slowest and by far the fastest -/

structure Outpaced (x : PriorityElem) (mid : List PriorityElem) (y : PriorityElem) : Prop where
  keys_nodup : (keys (x :: mid ++ [y])).Nodup
  ascending : Ascending (x :: mid ++ [y])
  speeds : ((x :: mid ++ [y]).map (·.speed)).Nodup
  pos : 1 ≤ x.speed
  gap : ∀ z ∈ x :: mid, 2 * z.speed < y.speed

def opening (base : List PriorityElem) : PriorityOrderList := (unplayed base 1).drained

section Outpaced

variable {sort : StdSort} {x y : PriorityElem} {mid : List PriorityElem}

namespace Outpaced

theorem sorted (h : Outpaced x mid y) {l : List PriorityElem} (hasc : Ascending l)
    (hperm : l.Perm (x :: mid ++ [y])) : l = x :: mid ++ [y] :=
  eq_of_distinct_speeds h.speeds h.ascending hasc hperm

theorem resorted_opening (h : Outpaced x mid y) :
    resorted (.unbounded sort) (opening (x :: mid ++ [y])) = opening (x :: mid ++ [y]) := by
  have hsort := h.sorted (sort.ascending _) (sort.perm (x :: mid ++ [y]))
  show { opening (x :: mid ++ [y]) with baseSpeed := sort.run (x :: mid ++ [y]) } = _
  rw [hsort]
  rfl

theorem customSort_opening (h : Outpaced x mid y) :
    (customSort (.unbounded sort) (opening (x :: mid ++ [y]))).analyzedList = x :: mid ++ [y] :=
  h.sorted (customSort_ascending _ _) (customSort_perm _ _)

theorem speed_pos (h : Outpaced x mid y) {z : PriorityElem} (hz : z ∈ x :: mid ++ [y]) :
    1 ≤ z.speed := by
  rcases List.mem_cons.mp hz with rfl | hz
  · exact h.pos
  · exact h.pos.trans ((List.pairwise_cons.mp h.ascending).1 z hz)

/-- The last two of `base.length + 2` served elements are the first of the
first computed turn. -/
theorem serves_two (h : Outpaced x mid y) {es : List PriorityElem} {t : PriorityOrderList}
    (hs : Serves (.unbounded sort) (unplayed (x :: mid ++ [y]) 1) es t)
    (hlen : es.length = (x :: mid ++ [y]).length + 2) :
    ∃ es₀ e₁ e₂ u t₁ t₂ fuel, es = es₀ ++ [e₁, e₂] ∧
      calculatePriority (.unbounded sort) 1 fuel (opening (x :: mid ++ [y])) = .ok u ∧
      Gives (.unbounded sort) u e₁ t₁ ∧ Gives (.unbounded sort) t₁ e₂ t₂ := by
  have hne : x :: mid ++ [y] ≠ [] := by simp
  obtain ⟨rest, rfl, hrest⟩ := (serves_drained (s := unplayed _ 1) hne).prefix_of_le hs (by
    rw [List.length_reverse, hlen]
    exact Nat.le_add_right _ 2)
  have hrest2 : rest.length = 2 := by
    rw [List.length_append, List.length_reverse] at hlen
    exact Nat.add_left_cancel hlen
  obtain ⟨e₁, e₂, rfl⟩ := List.length_eq_two.mp hrest2
  cases hrest with
  | cons head tail =>
      cases tail with
      | cons head' _ =>
          obtain ⟨u, fuel, hfuel, hgives⟩ := Gives.turn (s := opening _) hne rfl Nat.one_ne_zero head
          rw [h.resorted_opening] at hfuel
          exact ⟨_, e₁, e₂, u, _, _, fuel, rfl, hfuel, hgives, head'⟩

end Outpaced

/-! ### One id for both -/

theorem mem_paid_of_ne {fastest : Int} {b e : PriorityElem} {l : List PriorityElem} (he : e ∈ l)
    (hid : e.id ≠ b.id) : e ∈ paid fastest b l := by
  induction l with
  | nil => exact nomatch he
  | cons it rest ih =>
      rw [paid]
      rcases List.mem_cons.mp he with rfl | he
      · rw [if_neg hid]
        exact List.mem_cons_self
      · split
        · exact List.mem_cons_of_mem _ he
        · exact List.mem_cons_of_mem _ (ih he)

/-- Behind an element of the same id nobody is ever paid. -/
theorem mem_paidAll_behind (fastest : Int) {e : PriorityElem} (baseSpeed : List PriorityElem)
    {l : List PriorityElem} (h : ∃ it rest, l = it :: rest ∧ it.id = e.id ∧ e ∈ rest) :
    e ∈ paidAll fastest l baseSpeed := by
  induction baseSpeed generalizing l with
  | nil =>
      obtain ⟨it, rest, rfl, -, he⟩ := h
      exact List.mem_cons_of_mem _ he
  | cons b baseSpeed ih =>
      obtain ⟨it, rest, rfl, hid, he⟩ := h
      show e ∈ paidAll fastest (paid fastest b (it :: rest)) baseSpeed
      apply ih
      rw [paid]
      split
      · exact ⟨_, rest, rfl, hid, he⟩
      · rename_i hne
        exact ⟨it, _, rfl, hid, mem_paid_of_ne he (hid ▸ hne)⟩

namespace Outpaced

/-- The lookup of the neighbour of `y` starts at the id of `y` and finds `x`. -/
theorem fee_of_shared_id (h : Outpaced x mid y) (hid : x.id = y.id) :
    fee (.unbounded sort) (opening (x :: mid ++ [y])) (x :: mid) y = x.speed := by
  have hlast : ((opening (x :: mid ++ [y])).baseSpeed.getLast?.map (·.id)).getD 0 = y.id := by
    show (((x :: mid ++ [y]).getLast?).map (·.id)).getD 0 = y.id
    rw [List.getLast?_concat]
    rfl
  rw [fee, if_neg (List.cons_ne_nil _ _), getComputedSpeed, customSort_baseSpeed,
    h.customSort_opening, hlast]
  show computedSpeedFrom (x :: mid ++ [y]) y.id y.id (x :: (mid ++ [y])) = x.speed
  rw [computedSpeedFrom, if_pos hid, List.cons_append, List.find?_cons_of_pos (by simpa using hid)]
  exact if_neg fun hzero => absurd (hzero ▸ h.pos) (by decide)

/-- `x` stands in front of `y` and takes the wages of both, so `y` stays behind. -/
theorem outrun_after_payment (h : Outpaced x mid y) (hid : x.id = y.id) {l : List PriorityElem}
    (hpaid : l.Perm (paidAll y.speed (x :: mid ++ [{ y with speed := y.speed - x.speed }])
      (x :: mid ++ [y])))
    {z : PriorityElem} (hz : z ∈ l) (hkey : z.key = y.key) : ∃ e ∈ l, z.speed < e.speed := by
  have hpos := h.pos
  have hgap := h.gap x List.mem_cons_self
  have hwage : ∀ b ∈ x :: mid ++ [y], 0 ≤ b.speed + y.speed := by
    intro b hb
    have := h.speed_pos hb
    omega
  have hstored : ∀ e ∈ x :: mid ++ [{ y with speed := y.speed - x.speed }], 0 ≤ e.speed := by
    intro e he
    rcases List.mem_append.mp he with he | he
    · have := h.speed_pos (List.mem_append_left _ he)
      omega
    · rw [List.mem_singleton.mp he]
      show 0 ≤ y.speed - x.speed
      omega
  have hy := mem_paidAll_behind y.speed (x :: mid ++ [y])
    (e := { y with speed := y.speed - x.speed })
    ⟨x, mid ++ [{ y with speed := y.speed - x.speed }], rfl, hid, by simp⟩
  have hnodup : (keys l).Nodup := by
    rw [(keys_perm hpaid).nodup_iff, (paidAll_raised hwage _).keys_eq, keys_append]
    exact keys_append (x :: mid) [y] ▸ h.keys_nodup
  obtain rfl : z = { y with speed := y.speed - x.speed } :=
    List.inj_on_of_nodup_map hnodup hz (hpaid.mem_iff.mpr hy) hkey
  obtain ⟨e, he, -, hpaidx⟩ := exists_paidAll hwage hstored (b := x) (by simp) ⟨x, by simp, rfl⟩
  refine ⟨e, hpaid.mem_iff.mpr he, ?_⟩
  show y.speed - x.speed < e.speed
  omega

theorem shared_id (h : Outpaced x mid y) (hid : x.id = y.id) {es : List PriorityElem}
    {t : PriorityOrderList} (hs : Serves (.unbounded sort) (unplayed (x :: mid ++ [y]) 1) es t)
    (hlen : es.length = (x :: mid ++ [y]).length + 2) :
    ∃ es₀ e, es = es₀ ++ [e] ∧ e.key ≠ y.key := by
  obtain ⟨es₀, e₁, e₂, u, t₁, t₂, fuel, rfl, hfuel, hgives₁, hgives₂⟩ := h.serves_two hs hlen
  refine ⟨es₀ ++ [e₁], e₂, by simp, fun hkey => ?_⟩
  have hne : x :: mid ++ [y] ≠ [] := by simp
  have hlen1 : 1 < (x :: mid ++ [y]).length := by simp
  have hslow : isPlayerSlowest (opening (x :: mid ++ [y])) y.id = true :=
    isPlayerSlowest_iff.mpr ⟨x, mid ++ [y], rfl, hid⟩
  have hfast : (opening (x :: mid ++ [y])).getFastestBaseSpeed = y.speed := by
    show (((x :: mid ++ [y]).getLast?).map (·.speed)).getD 0 = y.speed
    rw [List.getLast?_concat]
    rfl
  obtain ⟨l, hpaid, hu⟩ := calculatePriority_closed (s := opening _) h.customSort_opening hslow
    hlen1 hfuel
  rw [h.fee_of_shared_id hid] at hpaid hu
  rw [hfast] at hpaid
  obtain ⟨-, ht₁⟩ := hgives₁.of_batch (l := []) (by rw [hu]; exact hne) (by rw [hu]; rfl)
  obtain ⟨z, hz, hmax, hkeyz⟩ := hgives₂.first (by rw [ht₁, hu]; exact hlen1) (by rw [ht₁]; rfl)
    (by rw [ht₁, hu]; exact Nat.succ_ne_zero 1)
  have hanalyzed : t₁.analyzedList = l := by
    rw [ht₁, hu]
    rfl
  rw [hanalyzed] at hz hmax
  obtain ⟨e, he, hlt⟩ := h.outrun_after_payment hid hpaid hz (hkeyz.symm.trans hkey)
  exact absurd (hmax e he) (Int.not_le.mpr hlt)

end Outpaced

/-! ### Two ids -/

theorem computedSpeedFrom_neighbour {l base : List PriorityElem} {id before : Nat}
    (hbefore : before ≠ id) (hfound : ∀ i ∈ before :: ids base, i ∈ ids l) :
    computedSpeedFrom l id before base = 1 ∨
      ∃ it ∈ l, it.id ≠ id ∧ computedSpeedFrom l id before base = orOne it.speed := by
  induction base generalizing before with
  | nil => exact .inl rfl
  | cons b rest ih =>
      rw [computedSpeedFrom]
      split
      · obtain ⟨e, he, hide⟩ := List.mem_map.mp (hfound before List.mem_cons_self)
        cases hfind : l.find? (·.id == before) with
        | none => exact absurd (beq_iff_eq.mpr hide) (List.find?_eq_none.mp hfind e he)
        | some it =>
            have hit : it.id = before := by simpa using List.find?_some hfind
            exact .inr ⟨it, List.mem_of_find?_eq_some hfind, hit ▸ hbefore, rfl⟩
      · rename_i hne
        exact ih hne fun i hi => hfound i (List.mem_cons_of_mem _ hi)

namespace Outpaced

theorem outruns_after_fee (h : Outpaced x mid y) (hid : x.id ≠ y.id) {z : PriorityElem}
    (hz : z ∈ x :: mid) :
    z.speed < y.speed - fee (.unbounded sort) (opening (x :: mid ++ [y])) (x :: mid) y := by
  have hgap := h.gap z hz
  have hgapx := h.gap x List.mem_cons_self
  have hpos := h.pos
  rw [fee, if_neg (List.cons_ne_nil _ _), getComputedSpeed, customSort_baseSpeed,
    h.customSort_opening]
  show z.speed < y.speed - computedSpeedFrom (x :: mid ++ [y]) y.id _ (x :: (mid ++ [y]))
  rw [computedSpeedFrom, if_neg hid]
  obtain h1 | ⟨it, hit, hne, h1⟩ :
      computedSpeedFrom (x :: mid ++ [y]) y.id x.id (mid ++ [y]) = 1 ∨
        ∃ it ∈ x :: mid ++ [y], it.id ≠ y.id ∧
          computedSpeedFrom (x :: mid ++ [y]) y.id x.id (mid ++ [y]) = orOne it.speed :=
    computedSpeedFrom_neighbour hid fun _ hi => hi
  · omega
  · rcases List.mem_append.mp hit with hit' | hit'
    · have hgapit := h.gap it hit'
      have hpositive := h.speed_pos hit
      rw [orOne, if_neg (by omega)] at h1
      omega
    · exact absurd (List.mem_singleton.mp hit' ▸ rfl) hne

theorem own_id (h : Outpaced x mid y) (hid : x.id ≠ y.id) {es : List PriorityElem}
    {t : PriorityOrderList} (hs : Serves (.unbounded sort) (unplayed (x :: mid ++ [y]) 1) es t)
    (hlen : es.length = (x :: mid ++ [y]).length + 2) :
    ∃ es₀ e, es = es₀ ++ [e] ∧ e.key = y.key := by
  obtain ⟨es₀, e₁, e₂, u, t₁, t₂, fuel, rfl, hfuel, hgives₁, hgives₂⟩ := h.serves_two hs hlen
  refine ⟨es₀ ++ [e₁], e₂, by simp, ?_⟩
  have hne : x :: mid ++ [y] ≠ [] := by simp
  have hlen1 : 1 < (x :: mid ++ [y]).length := by simp
  have hopen : isPlayerSlowest (opening (x :: mid ++ [y])) y.id = false := by
    simpa [isPlayerSlowest, opening, unplayed, drained] using hid
  obtain ⟨fuel', hfuel'⟩ := calculatePriority_open (s := opening _) h.customSort_opening hopen hfuel
  obtain ⟨e, he, hmax, speed, picks, hprio⟩ := calculatePriority_first
    (s := withPicked (opening (x :: mid ++ [y])) _ _) hlen1 hfuel'
  have hkey : e.key = y.key := by
    rcases List.mem_append.mp he with he | he
    · exact absurd (hmax _ (List.mem_append_right _ (List.mem_singleton.mpr rfl)))
        (Int.not_le.mpr (h.outruns_after_fee hid he))
    · rw [List.mem_singleton.mp he]
      rfl
  have hbase : u.baseSpeed = x :: mid ++ [y] := calculatePriority_baseSpeed hfuel
  have hneu : u.baseSpeed ≠ [] := hbase ▸ hne
  obtain ⟨-, ht₁⟩ := hgives₁.of_batch hneu hprio
  obtain ⟨rfl, -⟩ := hgives₂.of_batch (by rw [ht₁]; exact hneu) (by rw [ht₁]; rfl)
  exact hkey

theorem last_served_iff (h : Outpaced x mid y) {es : List PriorityElem} {t : PriorityOrderList}
    (hs : Serves (.unbounded sort) (unplayed (x :: mid ++ [y]) 1) es t)
    (hlen : es.length = (x :: mid ++ [y]).length + 2) :
    ∃ es₀ e, es = es₀ ++ [e] ∧ (e.key = y.key ↔ x.id ≠ y.id) := by
  by_cases hid : x.id = y.id
  · obtain ⟨es₀, e, hes, hne⟩ := h.shared_id hid hs hlen
    exact ⟨es₀, e, hes, iff_of_false hne (not_not_intro hid)⟩
  · obtain ⟨es₀, e, hes, heq⟩ := h.own_id hid hs hlen
    exact ⟨es₀, e, hes, iff_of_true heq hid⟩

theorem returns_unplayed (h : Outpaced x mid y) :
    Returns (fun fuel => ofBaseSpeed (.unbounded sort) fuel (x :: mid ++ [y]))
      (unplayed (x :: mid ++ [y]) 1) := by
  have hrun : (Platform.unbounded sort).sort.run (x :: mid ++ [y]) = x :: mid ++ [y] :=
    h.sorted (sort.ascending _) (sort.perm _)
  refine ⟨0, (ofBaseSpeed_eq 0 _).trans ?_⟩
  rw [initial_eq_unplayed, hrun]
  rfl

end Outpaced

end Outpaced

/-! ## Exactly when a renaming is respected -/

def rekey (ks : Finset (Nat × Bool)) (r : Nat × Bool → Nat) (e : PriorityElem) : PriorityElem :=
  if e.key ∈ ks then { e with id := r e.key } else e

def ServesAs (P : Platform) (f : PriorityElem → PriorityElem) (s s' : PriorityOrderList) : Prop :=
  ∀ k, ∃ es t t', es.length = k ∧ Serves P s es t ∧ Serves P s' (es.map f) t'

/-- Built in either of the two ways, the list of the renamed participants serves
the renamed elements. -/
def RenamingRespected (P : Platform) (f : PriorityElem → PriorityElem) (l : List PriorityElem) :
    Prop :=
  (∀ s s', Returns (fun fuel => ofBaseSpeed P fuel l) s →
    Returns (fun fuel => ofBaseSpeed P fuel (l.map f)) s' → ServesAs P f s s') ∧
  (∀ s s', Returns (fun fuel => addAll P fuel l empty) s →
    Returns (fun fuel => addAll P fuel (l.map f) empty) s' → ServesAs P f s s')

def Follows (P : Platform) (f : PriorityElem → PriorityElem) (s s' : PriorityOrderList) : Prop :=
  ∀ es t, Serves P s es t → ∃ t', Serves P s' (es.map f) t'

def RenamingFollowed (P : Platform) (f : PriorityElem → PriorityElem) (l : List PriorityElem) :
    Prop :=
  (∀ s s', Returns (fun fuel => ofBaseSpeed P fuel l) s →
    Returns (fun fuel => ofBaseSpeed P fuel (l.map f)) s' → Follows P f s s') ∧
  (∀ s s', Returns (fun fuel => addAll P fuel l empty) s →
    Returns (fun fuel => addAll P fuel (l.map f) empty) s' → Follows P f s s')

section Rekey

variable {ks : Finset (Nat × Bool)} {r : Nat × Bool → Nat}

@[simp] theorem rekey_speed (e : PriorityElem) : (rekey ks r e).speed = e.speed := by
  unfold rekey
  split <;> rfl

theorem rekey_key {e : PriorityElem} (he : e.key ∈ ks) :
    (rekey ks r e).key = (r e.key, e.key.2) := by
  rw [rekey, if_pos he]
  rfl

theorem keys_rekey {l : List PriorityElem} (hl : ∀ e ∈ l, e.key ∈ ks) :
    keys (l.map (rekey ks r)) = (keys l).map fun k => (r k, k.2) := by
  rw [keys, keys, List.map_map, List.map_map]
  exact List.map_congr_left fun e he => rekey_key (hl e he)

theorem keys_rekey_nodup (hr : Set.InjOn (fun k => (r k, k.2)) ks) {l : List PriorityElem}
    (hkeys : (keys l).Nodup) (hl : ∀ e ∈ l, e.key ∈ ks) :
    (keys (l.map (rekey ks r))).Nodup := by
  rw [keys_rekey hl]
  refine hkeys.map_on fun k hk k' hk' h => hr ?_ ?_ h
  · obtain ⟨e, he, rfl⟩ := List.mem_map.mp hk
    exact hl e he
  · obtain ⟨e, he, rfl⟩ := List.mem_map.mp hk'
    exact hl e he

/-! ### A renaming that keeps ids apart and together -/

theorem exists_injective_extension (h : ∀ p ∈ ks, ∀ q ∈ ks, p.1 = q.1 ↔ r p = r q) :
    ∃ ρ : Nat → Nat, Function.Injective ρ ∧ ∀ k ∈ ks, ρ k.1 = r k := by
  have hfactors : Function.FactorsThrough (fun k : ks => r k) (fun k : ks => k.1.1) :=
    fun p q hpq => (h p p.2 q q.2).mp hpq
  obtain ⟨g, hg⟩ := (Function.factorsThrough_iff _).mp hfactors
  have hgr (k : Nat × Bool) (hk : k ∈ ks) : g k.1 = r k := (congrFun hg ⟨k, hk⟩).symm
  have hbound (k : Nat × Bool) (hk : k ∈ ks) : r k ≤ ks.sup r := Finset.le_sup hk
  -- ids that nobody has move above all the new ones
  refine ⟨fun i => if i ∈ ks.image Prod.fst then g i else i + (ks.sup r + 1), fun i j hij => ?_,
    fun k hk => ?_⟩
  · simp only [Finset.mem_image] at hij
    split at hij <;> split at hij
    · obtain ⟨p, hp, rfl⟩ := ‹∃ a ∈ ks, a.1 = i›
      obtain ⟨q, hq, rfl⟩ := ‹∃ a ∈ ks, a.1 = j›
      rw [hgr p hp, hgr q hq] at hij
      exact (h p hp q hq).mpr hij
    · obtain ⟨p, hp, rfl⟩ := ‹∃ a ∈ ks, a.1 = i›
      have := hbound p hp
      rw [hgr p hp] at hij
      omega
    · obtain ⟨q, hq, rfl⟩ := ‹∃ a ∈ ks, a.1 = j›
      have := hbound q hq
      rw [hgr q hq] at hij
      omega
    · omega
  · simp only [Finset.mem_image_of_mem _ hk, if_true, hgr k hk]

theorem rekey_eq_withId {ρ : Nat → Nat} (hρr : ∀ k ∈ ks, ρ k.1 = r k) {e : PriorityElem}
    (he : e.key ∈ ks) : rekey ks r e = withId ρ e := by
  rw [rekey, if_pos he, withId, ← hρr e.key he]
  rfl

theorem follows_unplayed (hsort : SortsBySpeed P.sort) {ρ : Nat → Nat}
    (hρ : Function.Injective ρ) (hρr : ∀ k ∈ ks, ρ k.1 = r k) {base : List PriorityElem}
    (hkeys : (keys base).toFinset = ks) (hpos : ∀ b ∈ base, 1 ≤ b.speed) (turn : Nat) :
    Follows P (rekey ks r) (unplayed base turn) (unplayed (base.map (withId ρ)) turn) := by
  intro es t hserves
  by_cases hbase : base = []
  · subst hbase
    have hid : es.map (rekey ks r) = es := by
      have hnone (e : PriorityElem) : rekey ks r e = e := if_neg (by simp [← hkeys])
      rw [List.map_congr_left fun e _ => hnone e, List.map_id']
    exact ⟨t, hid.symm ▸ hserves⟩
  · have hstep : InStep (unplayed base turn) := inStep_of_base (s := unplayed base turn) hpos rfl rfl
    obtain ⟨c, hserves'⟩ := hserves.renamed hρ hsort ⟨0, 0, false⟩ hbase
    have hmap : es.map (rekey ks r) = es.map (withId ρ) := by
      apply List.map_congr_left
      intro e he
      apply rekey_eq_withId hρr
      rw [← hkeys, List.mem_toFinset]
      exact hstep.serves_keys hbase hserves e he
    exact ⟨_, hmap ▸ hserves'⟩

theorem Follows.servesAs {f : PriorityElem → PriorityElem} {s s' : PriorityOrderList}
    (h : Follows P f s s') (hs : AlwaysServes P s) : ServesAs P f s s' := by
  intro k
  obtain ⟨es, t, hlen, hserves⟩ := hs k
  obtain ⟨t', hserves'⟩ := h es t hserves
  exact ⟨es, t, t', hlen, hserves, hserves'⟩

theorem alwaysServes_unplayed (hP : ∀ v, P.fits v = true) {base : List PriorityElem}
    (hpos : ∀ b ∈ base, 1 ≤ b.speed) (turn : Nat) : AlwaysServes P (unplayed base turn) := by
  by_cases hbase : base = []
  · exact alwaysServes_of_empty hbase
  · exact InStep.alwaysServes hP (inStep_of_base (s := unplayed base turn) hpos rfl rfl) hbase

section SamePattern

variable {ρ : Nat → Nat} {l : List PriorityElem}

theorem keys_withId_nodup (hρ : Function.Injective ρ) (hkeys : (keys l).Nodup) :
    (keys (l.map (withId ρ))).Nodup := by
  have hmap : keys (l.map (withId ρ)) = (keys l).map (Prod.map ρ id) := by
    rw [keys, keys, List.map_map, List.map_map]
    rfl
  rw [hmap]
  exact hkeys.map (hρ.prodMap Function.injective_id)

theorem ascending_withId (hspeeds : (l.map (·.speed)).Nodup) {base base' : List PriorityElem}
    (hperm : base.Perm l) (hasc : Ascending base) (hperm' : base'.Perm (l.map (withId ρ)))
    (hasc' : Ascending base') : base' = base.map (withId ρ) := by
  apply eq_of_distinct_speeds _ _ hasc' (hperm'.trans (hperm.map _).symm)
  · rw [List.map_map]
    exact (hperm.map _).nodup_iff.mpr hspeeds
  · rw [ascending_iff_map, List.map_map]
    exact ascending_iff_map.mp hasc

theorem built_withId {R : PriorityOrderList → PriorityOrderList → Prop}
    (hρ : Function.Injective ρ) (hkeys : (keys l).Nodup) (hspeeds : (l.map (·.speed)).Nodup)
    (h : ∀ base turn, base.Perm l → R (unplayed base turn) (unplayed (base.map (withId ρ)) turn)) :
    (∀ s s', Returns (fun fuel => ofBaseSpeed P fuel l) s →
      Returns (fun fuel => ofBaseSpeed P fuel (l.map (withId ρ))) s' → R s s') ∧
    (∀ s s', Returns (fun fuel => addAll P fuel l empty) s →
      Returns (fun fuel => addAll P fuel (l.map (withId ρ)) empty) s' → R s s') := by
  constructor
  · rintro s s' ⟨fuel, hs⟩ ⟨fuel', hs'⟩
    obtain rfl : s = initial P l := Except.ok.inj (hs.symm.trans (ofBaseSpeed_eq fuel l))
    obtain rfl : s' = initial P (l.map (withId ρ)) :=
      Except.ok.inj (hs'.symm.trans (ofBaseSpeed_eq fuel' _))
    have hrun : P.sort.run (l.map (withId ρ)) = (P.sort.run l).map (withId ρ) :=
      ascending_withId hspeeds (P.sort.perm l) (P.sort.ascending l) (P.sort.perm _)
        (P.sort.ascending _)
    rw [initial_eq_unplayed, initial_eq_unplayed, hrun]
    simp only [List.map_eq_nil_iff]
    exact h _ _ (P.sort.perm l)
  · rintro s s' ⟨fuel, hs⟩ ⟨fuel', hs'⟩
    obtain ⟨base, hperm, hasc, hruns⟩ := addAll_unplayed (P := P) (List.nil_append l ▸ hkeys) .nil
    obtain ⟨base', hperm', hasc', hruns'⟩ := addAll_unplayed (P := P)
      (List.nil_append (l.map (withId ρ)) ▸ keys_withId_nodup hρ hkeys) .nil
    obtain rfl : s = unplayed base 0 := Except.ok.inj (hs.symm.trans (hruns fuel))
    obtain rfl : s' = unplayed base' 0 := Except.ok.inj (hs'.symm.trans (hruns' fuel'))
    rw [List.nil_append] at hperm hperm'
    rw [ascending_withId hspeeds hperm hasc hperm' hasc']
    exact h _ 0 hperm

theorem map_rekey_eq_withId (hρr : ∀ k ∈ ks, ρ k.1 = r k) (hks : (keys l).toFinset = ks) :
    l.map (rekey ks r) = l.map (withId ρ) := by
  apply List.map_congr_left
  intro b hb
  apply rekey_eq_withId hρr
  rw [← hks, List.mem_toFinset]
  exact key_mem hb

theorem RenamingFollowed.of_same_pattern (hsort : SortsBySpeed P.sort)
    (h : ∀ p ∈ ks, ∀ q ∈ ks, p.1 = q.1 ↔ r p = r q) (hkeys : (keys l).Nodup)
    (hks : (keys l).toFinset = ks) (hpos : ∀ b ∈ l, 1 ≤ b.speed)
    (hspeeds : (l.map (·.speed)).Nodup) : RenamingFollowed P (rekey ks r) l := by
  obtain ⟨ρ, hρ, hρr⟩ := exists_injective_extension h
  rw [RenamingFollowed, map_rekey_eq_withId hρr hks]
  refine built_withId hρ hkeys hspeeds fun base turn hperm => ?_
  refine follows_unplayed hsort hρ hρr ?_ (fun b hb => hpos b (hperm.mem_iff.mp hb)) turn
  rw [← hks]
  exact List.toFinset_eq_of_perm _ _ (keys_perm hperm)

theorem RenamingRespected.of_same_pattern (hsort : SortsBySpeed P.sort)
    (hP : ∀ v, P.fits v = true) (h : ∀ p ∈ ks, ∀ q ∈ ks, p.1 = q.1 ↔ r p = r q)
    (hkeys : (keys l).Nodup) (hks : (keys l).toFinset = ks) (hpos : ∀ b ∈ l, 1 ≤ b.speed)
    (hspeeds : (l.map (·.speed)).Nodup) : RenamingRespected P (rekey ks r) l := by
  obtain ⟨ρ, hρ, hρr⟩ := exists_injective_extension h
  rw [RenamingRespected, map_rekey_eq_withId hρr hks]
  refine built_withId hρ hkeys hspeeds fun base turn hperm => ?_
  have hpos' : ∀ b ∈ base, 1 ≤ b.speed := fun b hb => hpos b (hperm.mem_iff.mp hb)
  refine (follows_unplayed hsort hρ hρr ?_ hpos' turn).servesAs (alwaysServes_unplayed hP hpos' turn)
  rw [← hks]
  exact List.toFinset_eq_of_perm _ _ (keys_perm hperm)

end SamePattern

/-! ### A renaming that does not -/

theorem Outpaced.map {x y : PriorityElem} {mid : List PriorityElem} (h : Outpaced x mid y)
    (hr : Set.InjOn (fun k => (r k, k.2)) ks) (hks : ∀ e ∈ x :: mid ++ [y], e.key ∈ ks) :
    Outpaced (rekey ks r x) (mid.map (rekey ks r)) (rekey ks r y) where
  keys_nodup := by
    have hnodup := keys_rekey_nodup hr h.keys_nodup hks
    rwa [List.map_append] at hnodup
  ascending := by
    have hasc := ascending_iff_map.mp h.ascending
    rw [ascending_iff_map]
    simpa [Function.comp_def] using hasc
  speeds := by
    have hspeeds := h.speeds
    simpa [Function.comp_def] using hspeeds
  pos := by
    rw [rekey_speed]
    exact h.pos
  gap := by
    rw [← List.map_cons]
    intro z' hz'
    obtain ⟨z, hz, rfl⟩ := List.mem_map.mp hz'
    rw [rekey_speed, rekey_speed]
    exact h.gap z hz

def ramp (rest : List (Nat × Bool)) : List PriorityElem :=
  rest.mapIdx fun i k => ⟨k.1, i + 2, k.2⟩

@[simp] theorem keys_ramp (rest : List (Nat × Bool)) : keys (ramp rest) = rest := by
  apply List.ext_getElem
  · simp [ramp, keys]
  · intro i _ _
    simp [ramp, keys, PriorityElem.key]

theorem speed_of_mem_ramp {rest : List (Nat × Bool)} {z : PriorityElem} (hz : z ∈ ramp rest) :
    2 ≤ z.speed ∧ z.speed ≤ rest.length + 1 := by
  obtain ⟨i, hi, rfl⟩ := List.mem_iff_getElem.mp hz
  simp only [ramp, List.length_mapIdx] at hi
  simp only [ramp, List.getElem_mapIdx]
  omega

theorem ramp_strict (rest : List (Nat × Bool)) :
    (ramp rest).Pairwise fun a b => a.speed < b.speed := by
  rw [List.pairwise_iff_getElem]
  intro i j hi hj hij
  simp only [ramp, List.getElem_mapIdx]
  omega

theorem outpaced_ramp {p q : Nat × Bool} {l : List (Nat × Bool)}
    (h : (p :: l ++ [q]).Nodup) :
    Outpaced ⟨p.1, 1, p.2⟩ (ramp l) ⟨q.1, 2 * l.length + 3, q.2⟩ := by
  have hstrict : (PriorityElem.mk p.1 1 p.2 :: ramp l ++
      [PriorityElem.mk q.1 (2 * l.length + 3) q.2]).Pairwise
        fun a b : PriorityElem => a.speed < b.speed := by
    rw [List.cons_append, List.pairwise_cons, List.pairwise_append]
    refine ⟨fun z hz => ?_, ramp_strict l, List.pairwise_singleton _ _, fun z hz y hy => ?_⟩
    · show 1 < z.speed
      rcases List.mem_append.mp hz with hz | hz
      · have := speed_of_mem_ramp hz
        omega
      · rw [List.mem_singleton.mp hz]
        show (1 : Int) < 2 * l.length + 3
        omega
    · have := speed_of_mem_ramp hz
      rw [List.mem_singleton.mp hy]
      show z.speed < 2 * l.length + 3
      omega
  refine ⟨?_, hstrict.imp Int.le_of_lt, List.pairwise_map.mpr (hstrict.imp Int.ne_of_lt),
    Int.le_refl 1, fun z hz => ?_⟩
  · rw [keys_append, keys_cons, keys_ramp]
    exact h
  · show 2 * z.speed < 2 * l.length + 3
    rcases List.mem_cons.mp hz with rfl | hz
    · show (2 * 1 : Int) < 2 * l.length + 3
      omega
    · have := speed_of_mem_ramp hz
      omega

theorem exists_outpaced {p q : Nat × Bool} (hp : p ∈ ks) (hq : q ∈ ks) (hpq : p ≠ q) :
    ∃ x mid y, Outpaced x mid y ∧ x.key = p ∧ y.key = q ∧
      (keys (x :: mid ++ [y])).toFinset = ks := by
  have hrest (k : Nat × Bool) : k ∈ ((ks.erase p).erase q).toList ↔ k ≠ q ∧ k ≠ p ∧ k ∈ ks := by
    simp
  refine ⟨_, _, _, outpaced_ramp (p := p) (q := q) (l := ((ks.erase p).erase q).toList) ?_,
    rfl, rfl, ?_⟩
  · rw [List.cons_append, List.nodup_cons, List.nodup_append]
    refine ⟨fun hmem => ?_, Finset.nodup_toList _, List.nodup_singleton q, fun k hk k' hk' => ?_⟩
    · rcases List.mem_append.mp hmem with hmem | hmem
      · exact ((hrest p).mp hmem).2.1 rfl
      · exact hpq (List.mem_singleton.mp hmem)
    · rw [List.mem_singleton.mp hk']
      exact ((hrest k).mp hk).1
  · ext k
    rw [keys_append, keys_cons, keys_ramp]
    simp only [List.cons_append, List.mem_toFinset, List.mem_cons, List.mem_append, hrest]
    constructor
    · rintro (rfl | ⟨-, -, hk⟩ | hk)
      · exact hp
      · exact hk
      · rw [List.mem_singleton.mp hk]
        exact hq
    · intro hk
      by_cases hkp : k = p
      · exact .inl hkp
      · by_cases hkq : k = q
        · exact .inr (.inr (hkq ▸ List.mem_singleton.mpr rfl))
        · exact .inr (.inl ⟨hkq, hkp, hk⟩)

theorem RenamingRespected.outpaced {sort : StdSort} {x y : PriorityElem} {mid : List PriorityElem}
    (h : Outpaced x mid y) (hks : ∀ e ∈ x :: mid ++ [y], e.key ∈ ks)
    (hr : Set.InjOn (fun k => (r k, k.2)) ks)
    (hrespected : RenamingRespected (.unbounded sort) (rekey ks r) (x :: mid ++ [y])) :
    x.id = y.id ↔ (rekey ks r x).id = (rekey ks r y).id := by
  have hmap : (x :: mid ++ [y]).map (rekey ks r) =
      rekey ks r x :: mid.map (rekey ks r) ++ [rekey ks r y] := by
    simp
  have h' := h.map hr hks
  obtain ⟨es, t, t', hlen, hserves, hserves'⟩ := hrespected.1 _ _ h.returns_unplayed
    (hmap ▸ h'.returns_unplayed) ((x :: mid ++ [y]).length + 2)
  rw [hmap] at hserves'
  have hlen' : (es.map (rekey ks r)).length =
      (rekey ks r x :: mid.map (rekey ks r) ++ [rekey ks r y]).length + 2 := by
    simpa using hlen
  obtain ⟨es₀, e, rfl, hlast⟩ := h.last_served_iff hserves hlen
  obtain ⟨es₁, e', hes, hlast'⟩ := h'.last_served_iff hserves' hlen'
  rw [List.map_append, List.map_singleton] at hes
  obtain rfl := List.singleton_injective (List.append_inj' hes rfl).2
  -- the last element is the fastest in both schedules or in none
  have hstep : InStep (unplayed (x :: mid ++ [y]) 1) :=
    inStep_of_base (s := unplayed (x :: mid ++ [y]) 1) (fun b hb => h.speed_pos hb) rfl rfl
  have he : e.key ∈ ks := by
    obtain ⟨b, hb, hbe⟩ := List.mem_map.mp
      (hstep.serves_keys (by simp [unplayed]) hserves e (by simp))
    rw [← hbe]
    exact hks b hb
  have hsame : (rekey ks r e).key = (rekey ks r y).key ↔ e.key = y.key := by
    rw [rekey_key he, rekey_key (hks y (by simp))]
    constructor
    · exact fun heq => hr he (hks y (by simp)) heq
    · exact fun heq => by rw [heq]
  apply not_iff_not.mp
  calc
    x.id ≠ y.id ↔ e.key = y.key := hlast.symm
    _ ↔ (rekey ks r e).key = (rekey ks r y).key := hsame.symm
    _ ↔ (rekey ks r x).id ≠ (rekey ks r y).id := hlast'

end Rekey

/-- For every set of participants and every renaming of their ids that keeps the
pairs distinct: whatever the distinct positive speeds are, the renamed list
serves the renamed elements, exactly when the renaming neither gives one id to
two participants with different ids nor tells two with the same id apart.  Then
it also follows the other list as far as that serves, whatever an `int` holds. -/
theorem renaming_respected_iff (sort : StdSort) (hsort : SortsBySpeed sort)
    (ks : Finset (Nat × Bool)) (r : Nat × Bool → Nat)
    (hr : Set.InjOn (fun k => (r k, k.2)) ks) :
    ((∀ l, (keys l).Nodup → (keys l).toFinset = ks → (∀ b ∈ l, 1 ≤ b.speed) →
        (l.map (·.speed)).Nodup → RenamingRespected (.unbounded sort) (rekey ks r) l) ↔
      ∀ p ∈ ks, ∀ q ∈ ks, p.1 = q.1 ↔ r p = r q) ∧
    ((∀ p ∈ ks, ∀ q ∈ ks, p.1 = q.1 ↔ r p = r q) → ∀ P : Platform, P.sort = sort →
      ∀ l, (keys l).Nodup → (keys l).toFinset = ks → (∀ b ∈ l, 1 ≤ b.speed) →
        (l.map (·.speed)).Nodup → RenamingFollowed P (rekey ks r) l) := by
  constructor
  · constructor
    · intro hall p hp q hq
      by_cases hpq : p = q
      · simp [hpq]
      · obtain ⟨x, mid, y, hout, rfl, rfl, hks⟩ := exists_outpaced hp hq hpq
        have hmem : ∀ e ∈ x :: mid ++ [y], e.key ∈ ks := fun e he =>
          hks ▸ List.mem_toFinset.mpr (key_mem he)
        have hrespected := hall _ hout.keys_nodup hks (fun b hb => hout.speed_pos hb) hout.speeds
        have hiff := RenamingRespected.outpaced hout hmem hr hrespected
        rwa [← PriorityElem.key_fst (rekey ks r x), ← PriorityElem.key_fst (rekey ks r y),
          rekey_key hp, rekey_key hq] at hiff
    · intro hpattern l hkeys hks hpos hspeeds
      exact .of_same_pattern hsort (fun _ => rfl) hpattern hkeys hks hpos hspeeds
  · rintro hpattern P rfl l hkeys hks hpos hspeeds
    exact .of_same_pattern hsort hpattern hkeys hks hpos hspeeds

theorem renaming_respected_iff_swap :
    (∀ l, (keys l).Nodup → (keys l).toFinset = {(0, true), (1, false)} →
        (∀ b ∈ l, 1 ≤ b.speed) → (l.map (·.speed)).Nodup →
          RenamingRespected (.unbounded insertionSort)
            (rekey {(0, true), (1, false)} fun k => 1 - k.1) l) ↔
      ∀ p ∈ ({(0, true), (1, false)} : Finset (Nat × Bool)),
        ∀ q ∈ ({(0, true), (1, false)} : Finset (Nat × Bool)),
          p.1 = q.1 ↔ 1 - p.1 = 1 - q.1 :=
  (renaming_respected_iff insertionSort insertionSort_sortsBySpeed _ (fun k => 1 - k.1)
    (by simp [Set.InjOn])).1

/-- Contender 1 and team member 1 with the speeds 1 and 2: after the base order
the member is served once, then the contender.  Under the ids 1 and 2 the
member is served twice. -/
theorem renaming_not_respected :
    ¬ ∀ (l : List PriorityElem) (r : Nat × Bool → Nat), (keys l).Nodup →
      (∀ b ∈ l, 1 ≤ b.speed) → (l.map (·.speed)).Nodup →
        Set.InjOn (fun k => (r k, k.2)) (keys l).toFinset →
          RenamingRespected (.unbounded insertionSort) (rekey (keys l).toFinset r) l := by
  intro h
  have hrespected := h [⟨1, 1, true⟩, ⟨1, 2, false⟩] (fun k => if k.2 then 1 else 2) (by decide)
    (by decide) (by decide) (by simp [Set.InjOn, keys, PriorityElem.key])
  obtain ⟨es, t, t', hlen, hserves, hserves'⟩ := hrespected.1
    (unplayed [⟨1, 1, true⟩, ⟨1, 2, false⟩] 1) (unplayed [⟨1, 1, true⟩, ⟨2, 2, false⟩] 1)
    ⟨0, rfl⟩ ⟨0, rfl⟩ 4
  obtain ⟨u, hu⟩ : ∃ u, serve (.unbounded insertionSort) 9 4
      (unplayed [⟨1, 1, true⟩, ⟨1, 2, false⟩] 1) =
        .ok ([⟨1, 2, false⟩, ⟨1, 1, true⟩, ⟨1, 1, false⟩, ⟨1, 7, true⟩], u) := ⟨_, rfl⟩
  obtain ⟨u', hu'⟩ : ∃ u', serve (.unbounded insertionSort) 9 4
      (unplayed [⟨1, 1, true⟩, ⟨2, 2, false⟩] 1) =
        .ok ([⟨2, 2, false⟩, ⟨1, 1, true⟩, ⟨2, 1, false⟩, ⟨2, 0, false⟩], u') := ⟨_, rfl⟩
  obtain ⟨rfl, -⟩ := (serves_of_serve hu).unique hserves hlen.symm
  exact absurd ((serves_of_serve hu').unique hserves' rfl).1 (by decide)

end FyS.Arena.PriorityOrderList
