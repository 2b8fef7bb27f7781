import FyS.Arena.PriorityOrder.Termination

/-!
# Where the recursion of `calculatePriority` does not end

A base speed of 0 lets stored speeds run down to 0 and below.  From there the
order in which `std::sort` leaves equal speeds decides.
-/

namespace FyS.Arena.PriorityOrderList

open FyS.Library.Fuel FyS.Library.CreditRound

variable {P : Platform}

/-! ## Single picks -/

def Opens (P : Platform) (s t : PriorityOrderList) : Prop :=
  pick P s = .ok t ∧ t.currentTurn = s.currentTurn

def TurnEnds (P : Platform) (s : PriorityOrderList) : Prop :=
  ∃ t, Returns (fun fuel => calculatePriority P s.currentTurn fuel s) t

theorem Opens.returns {s t u : PriorityOrderList} (h : Opens P s t)
    (hs : Returns (fun fuel => calculatePriority P s.currentTurn fuel s) u) :
    Returns (fun fuel => calculatePriority P t.currentTurn fuel t) u := by
  rw [h.2]
  exact (returns_iff_of_pick h.1).mp hs

theorem Opens.turnEnds {s t : PriorityOrderList} (h : Opens P s t) (hs : TurnEnds P s) :
    TurnEnds P t := by
  obtain ⟨u, hu⟩ := hs
  exact ⟨u, h.returns hu⟩

theorem AlwaysServes.turn {s : PriorityOrderList} (h : AlwaysServes P s)
    (hbase : s.baseSpeed ≠ []) (hturn : s.currentTurn ≠ 0) :
    ∃ t, AlwaysServes P t ∧ Returns (fun fuel => calculatePriority P s.currentTurn fuel
      (resorted P s.drained)) t := by
  obtain ⟨t, hrefill, ht⟩ := h.refills hbase
  exact ⟨t, ht, (((refills_iff (s := s.drained) hbase).mp hrefill).resolve_left
    fun hzero => hturn hzero.1).2⟩

section Base

variable {s : PriorityOrderList} {base : List PriorityElem} {a : Nat → Int}

/-- The element that `std::sort` puts at the back is picked, and the turn stays
open unless it is the slowest one. -/
theorem Holds.opens (hP : ∀ v, P.fits v = true) (h : Holds base a s.analyzedList)
    (hb : s.baseSpeed = base) (hids : (ids base).Nodup) (hlen : 1 < base.length)
    (hbase : base ≠ []) {e : PriorityElem}
    (hback : (P.sort.run s.analyzedList).getLast? = some e)
    (hopen : e.id ≠ (table base hbase).closer) :
    ∃ t, Opens P s t ∧ t.baseSpeed = base ∧ (table base hbase).Leads a e.id ∧
      Holds base ((table base hbase).charge a e.id) t.analyzedList := by
  subst hb
  rw [← customSort_getLast?] at hback
  obtain ⟨l, hl⟩ := List.getLast?_eq_some_iff.mp hback
  have hf := h.fastest hids hlen hbase hl
  have hslow : isPlayerSlowest s e.id ≠ true := mt (isPlayerSlowest_eq_closer hbase).mp hopen
  have hspeed : (if l = [] then Except.ok e.speed else P.int (e.speed - fee P s l e)) =
      (.ok (e.speed - fee P s l e) : Except Fault Int) := by
    split
    · simp [fee, *]
    · exact int_of_fits (hP _)
  have hpick := pick_eq hl
  rw [hspeed, ok_bind, if_neg hslow] at hpick
  exact ⟨_, ⟨hpick, rfl⟩, rfl, hf.leads, hf.holds⟩

theorem TurnEnds.round (hends : TurnEnds P s) (h : Holds base a s.analyzedList)
    (hb : s.baseSpeed = base) (hids : (ids base).Nodup) (hlen : 1 < base.length)
    (hbase : base ≠ []) : ∃ picks b, (table base hbase).Round a picks b := by
  subst hb
  obtain ⟨t, fuel, hfuel⟩ := hends
  obtain ⟨picks, b, hturnOf⟩ := h.turnOf hids hlen hbase hfuel
  exact ⟨picks, b, hturnOf.round⟩

theorem Holds.exists_back (h : Holds base a s.analyzedList) (hbase : base ≠ []) :
    ∃ e, (P.sort.run s.analyzedList).getLast? = some e ∧ e ∈ s.analyzedList := by
  have hne : P.sort.run s.analyzedList ≠ [] := by
    rw [Ne, sort_eq_nil, ← List.length_eq_zero_iff, h.length_eq, List.length_eq_zero_iff]
    exact hbase
  exact ⟨_, List.getLast?_eq_getLast_of_ne_nil hne,
    (P.sort.perm _).mem_iff.mp (List.getLast_mem hne)⟩

/-- With nothing left to the slowest participant, a turn that ends passes
through a state in which nobody has anything left. -/
theorem Holds.runs_down (hP : ∀ v, P.fits v = true) (h : Holds base a s.analyzedList)
    (hb : s.baseSpeed = base) (hids : (ids base).Nodup) (hlen : 1 < base.length)
    (hbase : base ≠ []) (hnonneg : ∀ i ∈ (table base hbase).seats, 0 ≤ a i)
    (hcloser : a (table base hbase).closer = 0) (hends : TurnEnds P s) :
    ∃ t, TurnEnds P t ∧ t.baseSpeed = base ∧ Holds base (fun _ => 0) t.analyzedList := by
  induction hn : (table base hbase).funds a using Nat.strongRecOn generalizing s a with
  | ind n ih =>
      by_cases hzero : ∀ i ∈ ids base, a i = 0
      · exact ⟨s, hends, hb, h.congr hzero⟩
      · -- somebody has something left, so somebody other than the slowest is picked
        simp only [not_forall] at hzero
        obtain ⟨j, hj, hja⟩ := hzero
        obtain ⟨e, hback, he⟩ := h.exists_back (P := P) hbase
        have hlead : 1 ≤ a e.id := by
          obtain ⟨x, hx, rfl⟩ := h.exists_mem hj
          have hle : x.speed ≤ e.speed := by
            rw [← customSort_getLast?] at hback
            obtain ⟨l, hl⟩ := List.getLast?_eq_some_iff.mp hback
            exact speed_le_back hl hx
          have := hnonneg x.id (List.mem_toFinset.mpr hj)
          rw [h.speed_eq hx, h.speed_eq he] at hle
          omega
        have hopen : e.id ≠ (table base hbase).closer := by
          intro heq
          rw [heq, hcloser] at hlead
          omega
        obtain ⟨t, hopens, hbt, hleads, hholds⟩ := h.opens hP hb hids hlen hbase hback hopen
        refine ih _ (hn ▸ hleads.funds_lt hnonneg hlead) hholds hbt
          (fun i hi => (hleads.charge_bounds hnonneg hlead hi).1) ?_ (hopens.turnEnds hends) rfl
        rw [Table.charge_of_ne _ _ (Ne.symm hopen)]
        exact hcloser

end Base

/-! ## A debt next to a leader -/

def rankOf (first second i : Nat) : Nat := if i = first then 2 else if i = second then 1 else 0

theorem eq_first_of_rank_le {first second j : Nat}
    (h : rankOf first second first ≤ rankOf first second j) : j = first := by
  by_contra hne
  rw [rankOf, rankOf, if_pos rfl, if_neg hne] at h
  split at h <;> omega

theorem eq_second_of_rank_le {first second j : Nat} (hne : second ≠ first) (hj : j ≠ first)
    (h : rankOf first second second ≤ rankOf first second j) : j = second := by
  by_contra hjs
  rw [rankOf, rankOf, if_neg hne, if_pos rfl, if_neg hj, if_neg hjs] at h
  omega

def RankLe (first second : Nat) (a b : PriorityElem) : Prop :=
  a.speed < b.speed ∨ (a.speed = b.speed ∧ rankOf first second a.id ≤ rankOf first second b.id)

instance (first second : Nat) : DecidableRel (RankLe first second) :=
  fun _ _ => inferInstanceAs (Decidable (_ ∨ _))

instance (first second : Nat) : Std.Total (RankLe first second) :=
  ⟨fun a b => by unfold RankLe; omega⟩

instance (first second : Nat) : IsTrans PriorityElem (RankLe first second) :=
  ⟨fun a b c hab hbc => by unfold RankLe at *; omega⟩

def lowSort (first second : Nat) : StdSort where
  run l := if ∀ e ∈ l, e.speed ≤ 0 then l.insertionSort (RankLe first second)
    else insertionSort.run l
  perm l := by
    split
    · exact List.perm_insertionSort _ l
    · exact insertionSort.perm l
  ascending l := by
    split
    · refine (List.pairwise_insertionSort (RankLe first second) l).imp fun h => ?_
      exact h.elim Int.le_of_lt fun h => Int.le_of_eq h.1
    · exact insertionSort.ascending l

theorem lowSort_back {first second : Nat} {l : List PriorityElem} {e x : PriorityElem}
    (hl : ∀ e ∈ l, e.speed ≤ 0) (hback : ((lowSort first second).run l).getLast? = some e)
    (hx : x ∈ l) : RankLe first second x e := by
  have hrun : (lowSort first second).run l = l.insertionSort (RankLe first second) := if_pos hl
  rw [hrun] at hback
  obtain ⟨l', hl'⟩ := List.getLast?_eq_some_iff.mp hback
  have hsorted := hl' ▸ List.pairwise_insertionSort (RankLe first second) l
  have hmem : x ∈ l' ++ [e] := hl' ▸ (List.mem_insertionSort _).mpr hx
  rcases List.mem_append.mp hmem with hx | hx
  · exact (List.pairwise_append.mp hsorted).2.2 x hx e (by simp)
  · rw [List.mem_singleton.mp hx]
    exact .inr ⟨rfl, Nat.le_refl _⟩

theorem Holds.opens_ranked {s : PriorityOrderList} {base : List PriorityElem} {a : Nat → Int}
    (h : Holds base a s.analyzedList) (first second : Nat)
    (hb : s.baseSpeed = base) (hids : (ids base).Nodup) (hlen : 1 < base.length)
    (hbase : base ≠ []) {i : Nat} (hi : i ∈ ids base) (hopen : i ≠ (table base hbase).closer)
    (hlow : ∀ j, a j ≤ 0) (hzero : a i = 0)
    (hrank : ∀ j, a j = 0 → rankOf first second i ≤ rankOf first second j → j = i) :
    ∃ t, Opens (.unbounded (lowSort first second)) s t ∧ t.baseSpeed = base ∧
      Holds base ((table base hbase).charge a i) t.analyzedList := by
  obtain ⟨e, hback, he⟩ := h.exists_back (P := .unbounded (lowSort first second)) hbase
  obtain ⟨x, hx, hxi⟩ := h.exists_mem hi
  have hle := lowSort_back (fun e he => (h.speed_eq he).trans_le (hlow _)) hback hx
  have hei : e.id = i := by
    have := hlow e.id
    rw [RankLe, h.speed_eq hx, h.speed_eq he, hxi, hzero] at hle
    exact hrank _ (by omega) (by omega)
  subst hei
  obtain ⟨t, hopens, hbt, -, hholds⟩ := h.opens (fun _ => rfl) hb hids hlen hbase hback hopen
  exact ⟨t, hopens, hbt, hholds⟩

/-- When nobody has anything left and two neighbours besides the slowest come
last among equals, the first of them runs into debt and the second, paying it,
gains for ever. -/
theorem not_turnEnds_of_zero {s : PriorityOrderList} {x y z : PriorityElem}
    {rest : List PriorityElem} (hb : s.baseSpeed = x :: y :: z :: rest)
    (hids : (ids (x :: y :: z :: rest)).Nodup)
    (h : Holds (x :: y :: z :: rest) (fun _ => 0) s.analyzedList) :
    ¬ TurnEnds (.unbounded (lowSort y.id z.id)) s := by
  intro hends
  have hne : x :: y :: z :: rest ≠ [] := by simp
  have hlen : 1 < (x :: y :: z :: rest).length := by simp
  obtain ⟨hxy, hxz, hyz⟩ : x.id ≠ y.id ∧ x.id ≠ z.id ∧ y.id ≠ z.id := by
    simp only [ids_cons, List.nodup_cons, List.mem_cons, not_or] at hids
    exact ⟨hids.1.1, hids.1.2.1, hids.2.1.1⟩
  have hprevz : (table _ hne).prev z.id = y.id := by
    simp [table, neighbour, neighbourFrom, hxz, hyz]
  have hdebt : (table _ hne).charge (fun _ => 0) y.id y.id = -1 := by
    rw [Table.charge_self]
    rfl
  have hkeep {i : Nat} (hi : i ≠ y.id) : (table _ hne).charge (fun _ => 0) y.id i = 0 :=
    Table.charge_of_ne _ _ hi
  have hlow (i : Nat) : (table _ hne).charge (fun _ => 0) y.id i ≤ 0 := by
    by_cases hi : i = y.id
    · rw [hi, hdebt]
      decide
    · rw [hkeep hi]
  obtain ⟨s₁, hopens₁, hb₁, hholds₁⟩ := h.opens_ranked y.id z.id hb hids hlen hne
    (i := y.id) (by simp) (Ne.symm hxy) (fun _ => le_rfl) rfl fun _ _ => eq_first_of_rank_le
  obtain ⟨s₂, hopens₂, hb₂, hholds₂⟩ := hholds₁.opens_ranked y.id z.id hb₁ hids hlen hne
    (i := z.id) (by simp) (Ne.symm hxz) hlow (hkeep (Ne.symm hyz)) fun j hj => by
      refine eq_second_of_rank_le (Ne.symm hyz) ?_
      rintro rfl
      rw [hdebt] at hj
      omega
  obtain ⟨picks, b, hround⟩ :=
    (hopens₂.turnEnds (hopens₁.turnEnds hends)).round hholds₂ hb₂ hids hlen hne
  -- now `z` leads and pays the debt of `y`
  have hz : (table _ hne).charge ((table _ hne).charge (fun _ => 0) y.id) z.id z.id = 1 := by
    rw [Table.charge_self, hprevz, hdebt, hkeep (Ne.symm hyz)]
    rfl
  refine Table.Round.not_of_debt (i := z.id) (List.mem_toFinset.mpr (by simp)) (Ne.symm hxz)
    (hprevz ▸ hyz) (fun j _ hj => ?_) ?_ hround
  · rw [hz, Table.charge_of_ne _ _ hj]
    exact (hlow j).trans_lt (by decide)
  · rw [hprevz, Table.charge_of_ne _ _ hyz, hdebt]
    decide

theorem insertionSort_eq_self {l : List PriorityElem} (h : Ascending l) :
    insertionSort.run l = l := List.Pairwise.insertionSort_eq h

theorem lowSort_run_of_pos (first second : Nat) {l : List PriorityElem}
    (hpos : ∃ b ∈ l, 1 ≤ b.speed) : (lowSort first second).run l = insertionSort.run l := by
  obtain ⟨b, hb, hspeed⟩ := hpos
  apply if_neg
  intro hall
  have := hall b hb
  omega

theorem speedOf_nonneg {base : List PriorityElem} (hids : (ids base).Nodup)
    (hnonneg : ∀ b ∈ base, 0 ≤ b.speed) {i : Nat} (hi : i ∈ ids base) : 0 ≤ speedOf base i := by
  obtain ⟨b, hb, rfl⟩ := List.mem_map.mp hi
  rw [speedOf_eq hids hb]
  exact hnonneg b hb

theorem speedOf_head_zero {x : PriorityElem} {rest : List PriorityElem}
    (hids : (ids (x :: rest)).Nodup) (hasc : Ascending (x :: rest))
    (hnonneg : ∀ b ∈ x :: rest, 0 ≤ b.speed) (hzero : ∃ b ∈ x :: rest, b.speed = 0) :
    speedOf (x :: rest) x.id = 0 := by
  obtain ⟨b, hb, hb0⟩ := hzero
  have hle : x.speed ≤ b.speed := by
    rcases List.mem_cons.mp hb with rfl | hb
    · exact le_rfl
    · exact (List.pairwise_cons.mp hasc).1 b hb
  rw [speedOf_eq hids List.mem_cons_self]
  exact Int.le_antisymm (hb0 ▸ hle) (hnonneg x List.mem_cons_self)

theorem exists_cons_three {α : Type} {l : List α} (h : 3 ≤ l.length) :
    ∃ x y z rest, l = x :: y :: z :: rest := by
  match l, h with
  | x :: y :: z :: rest, _ => exact ⟨x, y, z, rest, rfl⟩

theorem not_alwaysServes_of_slowest_zero {l : List PriorityElem} (hids : (ids l).Nodup)
    (hnonneg : ∀ b ∈ l, 0 ≤ b.speed) (hlen : 3 ≤ l.length) (hzero : ∃ b ∈ l, b.speed = 0)
    (hpos : ∃ b ∈ l, 1 ≤ b.speed) :
    ∃ sort s, Built (.unbounded sort) l s ∧ ¬ AlwaysServes (.unbounded sort) s := by
  have hperm := insertionSort.perm l
  have hasc := insertionSort.ascending l
  obtain ⟨x, y, z, rest, hsorted⟩ := exists_cons_three (hperm.length_eq.symm ▸ hlen)
  rw [hsorted] at hperm hasc
  have hids' : (ids (x :: y :: z :: rest)).Nodup := (ids_perm hperm).nodup_iff.mpr hids
  have hne : x :: y :: z :: rest ≠ [] := List.cons_ne_nil _ _
  -- the base order holds a positive speed, so that its ties are not ranked
  have hrun : (Platform.unbounded (lowSort y.id z.id)).sort.run l = x :: y :: z :: rest :=
    (lowSort_run_of_pos y.id z.id hpos).trans hsorted
  have hrun' : (Platform.unbounded (lowSort y.id z.id)).sort.run (x :: y :: z :: rest) =
      x :: y :: z :: rest := by
    rw [show (Platform.unbounded (lowSort y.id z.id)).sort = lowSort y.id z.id from rfl,
      lowSort_run_of_pos y.id z.id (by simpa only [hperm.mem_iff] using hpos)]
    exact insertionSort_eq_self hasc
  refine ⟨lowSort y.id z.id, _, .ofBaseSpeed ⟨0, ofBaseSpeed_eq 0 l⟩, fun halways => ?_⟩
  rw [initial_eq_unplayed, hrun, if_neg (List.ne_nil_of_length_pos (by omega))] at halways
  obtain ⟨t, -, ht⟩ := halways.turn (by simp [unplayed]) (by simp [unplayed, Platform.unbounded])
  have hnonneg' : ∀ b ∈ x :: y :: z :: rest, 0 ≤ b.speed := by
    simpa only [hperm.mem_iff] using hnonneg
  have hslow : speedOf (x :: y :: z :: rest) x.id = 0 :=
    speedOf_head_zero hids' hasc hnonneg' (by simpa only [hperm.mem_iff] using hzero)
  obtain ⟨u, hends, hbu, hholds⟩ := Holds.runs_down
    (P := .unbounded (lowSort y.id z.id)) (fun _ => rfl)
    (s := resorted (.unbounded (lowSort y.id z.id)) (unplayed (x :: y :: z :: rest) 1).drained)
    (holds_of_keys hids' (List.Perm.refl _)) hrun' hids' (by simp) hne
    (fun i hi => speedOf_nonneg hids' hnonneg' (List.mem_toFinset.mp hi)) hslow ⟨t, ht⟩
  exact not_turnEnds_of_zero hbu hids' hholds hends

/-! ## Nobody has a speed -/

def backFirstSort : StdSort :=
  shuffledSort (fun l => l.getLast?.toList ++ l.dropLast) fun l => by
    rcases List.eq_nil_or_concat l with rfl | ⟨l, e, rfl⟩
    · exact .nil
    · simpa using (List.perm_append_singleton e l).symm

theorem backFirstSort_run {l : List PriorityElem} {e : PriorityElem}
    (h : ∀ b ∈ l ++ [e], b.speed = 0) : backFirstSort.run (l ++ [e]) = e :: l := by
  have hshuffle : backFirstSort.run (l ++ [e]) = insertionSort.run (e :: l) := by
    simp [backFirstSort, shuffledSort]
  rw [hshuffle]
  refine insertionSort_eq_self (List.pairwise_of_forall_mem_list fun b hb b' hb' => ?_)
  rw [h b (by simpa [or_comm] using hb), h b' (by simpa [or_comm] using hb')]

section Zero

variable {x e : PriorityElem} {m : List PriorityElem}

theorem ids_first_ne_last (hids : (ids (x :: m ++ [e])).Nodup) : x.id ≠ e.id := by
  intro heq
  simp only [List.cons_append, ids_cons, ids_append, ids_nil, List.nodup_cons, heq] at hids
  exact hids.1 (by simp)

theorem round_of_zero (hids : (ids (x :: m ++ [e])).Nodup) {hne : x :: m ++ [e] ≠ []}
    {picks : List Nat} {b : Nat → Int}
    (hround : (table (x :: m ++ [e]) hne).Round
      ((table (x :: m ++ [e]) hne).charge (fun _ => 0) e.id) picks b) :
    b e.id = -1 ∧ b x.id = 1 := by
  have hxe := ids_first_ne_last hids
  have hprev : (table (x :: m ++ [e]) hne).prev x.id = e.id := by
    rw [show (table (x :: m ++ [e]) hne).prev x.id = _ from neighbour_head]
    simp
  have hdebt : (table _ hne).charge (fun _ => 0) e.id e.id = -1 := by
    rw [Table.charge_self]
    rfl
  have hcloser : (table _ hne).charge (fun _ => 0) e.id (table _ hne).closer = 0 :=
    Table.charge_of_ne _ _ hxe
  have hlast : b e.id = -1 := by
    rw [← hdebt]
    apply hround.unpicked
    apply hround.not_picked_of_lt
    rw [hdebt, hcloser]
    decide
  refine ⟨hlast, ?_⟩
  have hpaid : b (table _ hne).closer = _ := hround.closer_eq (by
    show (table _ hne).prev x.id ≠ x.id
    rw [hprev]
    exact Ne.symm hxe)
  have hneighbour : b ((table _ hne).prev (table _ hne).closer) = -1 :=
    (congrArg b hprev).trans hlast
  rw [hneighbour, hcloser] at hpaid
  exact hpaid

theorem wage_eq_zero {s : PriorityOrderList} (hids : (ids s.baseSpeed).Nodup)
    (hzero : ∀ b ∈ s.baseSpeed, b.speed = 0) {i : Nat} (hi : i ∈ ids s.baseSpeed) :
    wage s i = 0 := by
  obtain ⟨c, hc, rfl⟩ := List.mem_map.mp hi
  have hfast : s.getFastestBaseSpeed = 0 := by
    have hne : s.baseSpeed ≠ [] := List.ne_nil_of_mem hc
    rw [getFastestBaseSpeed, List.getLast?_eq_getLast_of_ne_nil hne]
    exact hzero _ (List.getLast_mem hne)
  rw [wage, hfast, PriorityOrderList.speedOf_eq hids hc, hzero c hc]
  rfl

theorem Holds.zero_turn (hP : ∀ v, P.fits v = true) {s t : PriorityOrderList}
    (h : Holds (x :: m ++ [e]) (fun _ => 0) s.analyzedList) (hb : s.baseSpeed = x :: m ++ [e])
    (hids : (ids (x :: m ++ [e])).Nodup) (hzero : ∀ b ∈ x :: m ++ [e], b.speed = 0)
    (hback : (P.sort.run s.analyzedList).getLast? = some e)
    (ht : Returns (fun fuel => calculatePriority P s.currentTurn fuel s) t) :
    ∃ a, t.baseSpeed = x :: m ++ [e] ∧ t.currentTurn = P.uint (s.currentTurn + 1) ∧
      Holds (x :: m ++ [e]) a t.analyzedList ∧ a e.id = -1 ∧ a x.id = 1 := by
  have hne : x :: m ++ [e] ≠ [] := by simp
  obtain ⟨u, hopens, hbu, -, hu⟩ :=
    h.opens hP hb hids (by simp) hne hback (Ne.symm (ids_first_ne_last hids))
  obtain ⟨fuel, hfuel⟩ := hopens.returns ht
  have hturn := hopens.2
  obtain ⟨base, prio, analyzed, current, turn⟩ := u
  simp only at hbu hu
  subst hbu
  obtain ⟨picks, b, hturnOf⟩ := Holds.turnOf
    (s := ⟨x :: m ++ [e], prio, analyzed, current, turn⟩) hu hids (by simp) hne hfuel
  obtain ⟨hlast, hfirst⟩ := round_of_zero hids hturnOf.round
  refine ⟨b, hturnOf.base, hturn ▸ hturnOf.turn, hturnOf.holds.congr ?_, hlast, hfirst⟩
  intro i hi
  rw [wage_eq_zero hids hzero hi]
  exact Int.add_zero _

/-- The next turn starts with the last participant as the slowest, next to one
that holds more, and does not end. -/
theorem not_turnEnds_of_debt {s : PriorityOrderList} {a : Nat → Int}
    (h : Holds (x :: m ++ [e]) a s.analyzedList) (hb : s.baseSpeed = e :: x :: m)
    (hids : (ids (x :: m ++ [e])).Nodup) (he : a e.id = -1) (hx : a x.id = 1) :
    ¬ TurnEnds P s := by
  intro hends
  have hxe := ids_first_ne_last hids
  have hperm : (x :: m ++ [e]).Perm (e :: x :: m) := List.perm_append_singleton e (x :: m)
  have hne : e :: x :: m ≠ [] := by simp
  obtain ⟨picks, b, hround⟩ := hends.round (h.trans (hperm.map _)) hb
    ((ids_perm hperm).nodup_iff.mp hids) (by simp) hne
  refine Table.Round.not_of_closer_debt (i := x.id) (List.mem_toFinset.mpr (by simp)) ?_ ?_ ?_
    hround
  · simp [table, neighbour, neighbourFrom, Ne.symm hxe]
  · exact he.trans_lt (by decide)
  · exact (he.trans_lt (by decide)).trans_eq hx.symm

end Zero

theorem not_alwaysServes_of_all_zero {l : List PriorityElem} (hids : (ids l).Nodup)
    (hlen : 2 ≤ l.length) (hzero : ∀ b ∈ l, b.speed = 0) :
    ∃ sort s, Built (.unbounded sort) l s ∧ ¬ AlwaysServes (.unbounded sort) s := by
  let P := Platform.unbounded backFirstSort
  refine ⟨backFirstSort, _, .ofBaseSpeed ⟨0, ofBaseSpeed_eq 0 l⟩, fun halways => ?_⟩
  have hl : l ≠ [] := List.ne_nil_of_length_pos (by omega)
  have hl' : P.sort.run l ≠ [] := mt sort_eq_nil.mp hl
  rw [initial_eq_unplayed, if_neg hl] at halways
  have hperm : (P.sort.run (P.sort.run l)).Perm l := (P.sort.perm _).trans (P.sort.perm l)
  obtain ⟨x, m, e, hbase⟩ : ∃ x m e, P.sort.run (P.sort.run l) = x :: m ++ [e] := by
    have hlen' := hperm.length_eq ▸ hlen
    rcases List.eq_nil_or_concat (P.sort.run (P.sort.run l)) with hnil | ⟨l', e, hl'⟩
    · rw [hnil] at hlen'
      exact absurd hlen' (by decide)
    · cases l' with
      | nil =>
          rw [hl'] at hlen'
          exact absurd hlen' (by simp)
      | cons x m => exact ⟨x, m, e, by simpa using hl'⟩
  rw [hbase] at hperm
  have hids' : (ids (x :: m ++ [e])).Nodup := (ids_perm hperm).nodup_iff.mpr hids
  have hzero' : ∀ b ∈ x :: m ++ [e], b.speed = 0 := fun b hb => hzero b (hperm.mem_iff.mp hb)
  have hstart : Holds (x :: m ++ [e]) (fun _ => 0) (P.sort.run l) := by
    have hself : stored (x :: m ++ [e]) (fun _ => 0) = x :: m ++ [e] := by
      refine (List.map_congr_left fun b hb => ?_).trans (List.map_id _)
      rw [← hzero' b hb]
      rfl
    rw [Holds, hself]
    exact (P.sort.perm l).trans hperm.symm
  obtain ⟨t, ht, hturn⟩ := halways.turn hl' (P.uint_succ_ne 0)
  obtain ⟨a, hbt, hturnt, hholds, hlast, hfirst⟩ := Holds.zero_turn (P := P) (fun _ => rfl)
    (s := resorted P (unplayed (P.sort.run l) (P.uint 1)).drained) hstart hbase hids' hzero'
    (by
      show (P.sort.run (P.sort.run l)).getLast? = some e
      rw [hbase, List.getLast?_concat]) hturn
  obtain ⟨u, -, hu⟩ := ht.turn (by rw [hbt]; simp) (by rw [hturnt]; exact Nat.succ_ne_zero _)
  refine not_turnEnds_of_debt (P := P) (s := resorted P t.drained) hholds ?_ hids' hlast hfirst
    ⟨u, hu⟩
  show P.sort.run t.baseSpeed = e :: x :: m
  rw [hbt]
  exact backFirstSort_run hzero'

/-! ## Exactly when every call returns -/

theorem exists_not_alwaysServes {l : List PriorityElem} (hids : (ids l).Nodup)
    (hnonneg : ∀ b ∈ l, 0 ≤ b.speed) (hlen : 1 < l.length) (hslow : ¬ ∀ b ∈ l, 1 ≤ b.speed)
    (hpair : l.length = 2 → ¬ ∃ b ∈ l, 1 ≤ b.speed) :
    ∃ sort s, Built (.unbounded sort) l s ∧ ¬ AlwaysServes (.unbounded sort) s := by
  by_cases hpos : ∃ b ∈ l, 1 ≤ b.speed
  · apply not_alwaysServes_of_slowest_zero hids hnonneg _ _ hpos
    · have : l.length ≠ 2 := fun h => hpair h hpos
      omega
    · simp only [not_forall, not_le] at hslow
      obtain ⟨b, hb, hlt⟩ := hslow
      have := hnonneg b hb
      exact ⟨b, hb, by omega⟩
  · apply not_alwaysServes_of_all_zero hids hlen
    intro b hb
    have h0 := hnonneg b hb
    have h1 : ¬ 1 ≤ b.speed := fun h => hpos ⟨b, hb, h⟩
    omega

theorem unplayed_pair_alwaysServes {sort : StdSort} {x y : PriorityElem}
    (hids : (ids [x, y]).Nodup) (hx : x.speed = 0) (hy : 1 ≤ y.speed) (turn : Nat) :
    AlwaysServes (.unbounded sort) (unplayed [x, y] turn) := by
  have hxy : x.id ≠ y.id := by simpa using hids
  apply Paired.alwaysServes (fun _ => rfl) hxy (by omega) (by omega)
  refine ⟨rfl, speedOf [x, y], holds_of_keys hids (List.Perm.refl _), ?_, ?_⟩
  · rw [PriorityOrderList.speedOf_eq hids (by simp)]
    exact hx.ge
  · rw [PriorityOrderList.speedOf_eq hids (by simp)]
    omega

theorem unplayed_alwaysServes {sort : StdSort} {base : List PriorityElem}
    (hids : (ids base).Nodup) (hasc : Ascending base) (hnonneg : ∀ b ∈ base, 0 ≤ b.speed)
    (hcond : base.length ≤ 1 ∨ (∀ b ∈ base, 1 ≤ b.speed) ∨
      (base.length = 2 ∧ ∃ b ∈ base, 1 ≤ b.speed)) (turn : Nat) :
    AlwaysServes (.unbounded sort) (unplayed base turn) := by
  by_cases hpos : base ≠ [] ∧ ∀ b ∈ base, 1 ≤ b.speed
  · have hstep : InStep (unplayed base turn) :=
      inStep_of_base (s := unplayed base turn) hpos.2 rfl rfl
    exact hstep.alwaysServes (fun _ => rfl) hpos.1
  · match base with
    | [] => exact alwaysServes_of_empty rfl
    | [b] => exact Alone.alwaysServes ⟨b, b, rfl, rfl, rfl⟩
    | [x, y] =>
        have hle : x.speed ≤ y.speed := by simpa [Ascending] using hasc
        have hx := hnonneg x (by simp)
        have hsome : 1 ≤ x.speed ∨ 1 ≤ y.speed := by
          simpa using (hcond.resolve_left (by simp)).elim (fun h => ⟨x, by simp, h x (by simp)⟩)
            fun h => h.2
        have hnot : ¬ (1 ≤ x.speed ∧ 1 ≤ y.speed) := by simpa using hpos
        exact unplayed_pair_alwaysServes hids (by omega) (by omega) turn
    | x :: y :: z :: rest =>
        rcases hcond with hlen | hall | ⟨hlen, -⟩
        · exact absurd hlen (by simp)
        · exact absurd ⟨List.cons_ne_nil _ _, hall⟩ hpos
        · exact absurd hlen (by simp)

/-- Whatever order `std::sort` gives to ties, every call of `getNext` returns,
exactly for at most one participant, base speeds of at least 1, or two
participants of which one has a base speed of at least 1. -/
theorem turn_generation_terminates_iff {l : List PriorityElem} (hids : (ids l).Nodup)
    (hnonneg : ∀ b ∈ l, 0 ≤ b.speed) :
    (∀ sort s, Built (.unbounded sort) l s → AlwaysServes (.unbounded sort) s) ↔
      l.length ≤ 1 ∨ (∀ b ∈ l, 1 ≤ b.speed) ∨ (l.length = 2 ∧ ∃ b ∈ l, 1 ≤ b.speed) := by
  constructor
  · intro halways
    by_contra hcond
    simp only [not_or, not_and, not_le] at hcond
    obtain ⟨hlen, hslow, hpair⟩ := hcond
    obtain ⟨sort, s, hbuilt, hnot⟩ := exists_not_alwaysServes hids hnonneg hlen hslow hpair
    exact hnot (halways sort s hbuilt)
  · intro hcond sort s hbuilt
    obtain ⟨base, turn, hperm, hasc, rfl⟩ := hbuilt.eq_unplayed (keys_nodup hids)
    rw [← hperm.length_eq] at hcond
    simp only [← hperm.mem_iff] at hcond hnonneg
    have hids' : (ids base).Nodup := (ids_perm hperm).nodup_iff.mpr hids
    exact unplayed_alwaysServes hids' hasc hnonneg hcond turn

theorem turn_generation_terminates_iff_pair :
    (∀ sort s, Built (.unbounded sort) [⟨1, 0, false⟩, ⟨2, 3, false⟩] s →
        AlwaysServes (.unbounded sort) s) ↔
      (2 ≤ 1 ∨ (∀ b ∈ [(⟨1, 0, false⟩ : PriorityElem), ⟨2, 3, false⟩], 1 ≤ b.speed) ∨
        (2 = 2 ∧ ∃ b ∈ [(⟨1, 0, false⟩ : PriorityElem), ⟨2, 3, false⟩], 1 ≤ b.speed)) :=
  turn_generation_terminates_iff (l := [⟨1, 0, false⟩, ⟨2, 3, false⟩]) (by decide) (by decide)

/-- Base speeds 0, 1 and 1: the fourth call of `getNext` does not return, even
with a sort that keeps equal speeds in place. -/
theorem turn_generation_diverges :
    ¬ ∀ (l : List PriorityElem), (ids l).Nodup → (∀ b ∈ l, 0 ≤ b.speed) →
      ∀ s, Built (.unbounded insertionSort) l s → AlwaysServes (.unbounded insertionSort) s := by
  intro h
  have halways := h [⟨1, 0, false⟩, ⟨2, 1, false⟩, ⟨3, 1, false⟩] (by decide) (by decide) _
    (.ofBaseSpeed ⟨0, ofBaseSpeed_eq 0 _⟩)
  obtain ⟨t, -, hturn⟩ := halways.turn (by decide) (by decide)
  let run (prio analyzed : List PriorityElem) : PriorityOrderList :=
    ⟨[⟨1, 0, false⟩, ⟨2, 1, false⟩, ⟨3, 1, false⟩], prio, analyzed, ⟨1, 0, false⟩, 1⟩
  have hpick₁ : Opens (.unbounded insertionSort)
      (run [] [⟨1, 0, false⟩, ⟨2, 1, false⟩, ⟨3, 1, false⟩])
      (run [⟨3, 0, false⟩] [⟨1, 0, false⟩, ⟨2, 1, false⟩, ⟨3, 0, false⟩]) := ⟨rfl, rfl⟩
  have hpick₂ : Opens (.unbounded insertionSort)
      (run [⟨3, 0, false⟩] [⟨1, 0, false⟩, ⟨2, 1, false⟩, ⟨3, 0, false⟩])
      (run [⟨3, 0, false⟩, ⟨2, 0, false⟩] [⟨1, 0, false⟩, ⟨3, 0, false⟩, ⟨2, 0, false⟩]) :=
    ⟨rfl, rfl⟩
  have hpick₃ : Opens (.unbounded insertionSort)
      (run [⟨3, 0, false⟩, ⟨2, 0, false⟩] [⟨1, 0, false⟩, ⟨3, 0, false⟩, ⟨2, 0, false⟩])
      (run [⟨3, 0, false⟩, ⟨2, 0, false⟩, ⟨2, -1, false⟩]
        [⟨1, 0, false⟩, ⟨3, 0, false⟩, ⟨2, -1, false⟩]) := ⟨rfl, rfl⟩
  have hpick₄ : Opens (.unbounded insertionSort)
      (run [⟨3, 0, false⟩, ⟨2, 0, false⟩, ⟨2, -1, false⟩]
        [⟨1, 0, false⟩, ⟨3, 0, false⟩, ⟨2, -1, false⟩])
      (run [⟨3, 0, false⟩, ⟨2, 0, false⟩, ⟨2, -1, false⟩, ⟨3, 1, false⟩]
        [⟨2, -1, false⟩, ⟨1, 0, false⟩, ⟨3, 1, false⟩]) := ⟨rfl, rfl⟩
  have hends := hpick₄.turnEnds (hpick₃.turnEnds (hpick₂.turnEnds (hpick₁.turnEnds ⟨t, hturn⟩)))
  obtain ⟨picks, b, hround⟩ := hends.round (holds_of_keys (by decide) (by decide)) rfl (by decide)
    (by decide) (by decide)
  exact Table.Round.not_of_debt (i := 3) (by decide) (by decide) (by decide) (by decide) (by decide)
    hround

end FyS.Arena.PriorityOrderList
