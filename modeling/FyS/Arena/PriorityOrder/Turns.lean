import FyS.Arena.PriorityOrder.Credits

/-!
# Turns as credit rounds

A turn of `calculatePriority` is a round of the table of its base order,
whichever way `std::sort` orders equal speeds, and a refill of a started list
is one turn.
-/

namespace FyS.Arena.PriorityOrderList

open FyS.Library.Fuel FyS.Library.CreditRound

variable {P : Platform}

/-! ## A turn -/

/-- `t` is what the turn of `s` leaves: the ids `picks` were picked, their
credits became `b`, and everybody was paid. -/
structure TurnOf (P : Platform) (s : PriorityOrderList) (hbase : s.baseSpeed ≠ [])
    (a : Nat → Int) (picks : List Nat) (b : Nat → Int) (t : PriorityOrderList) : Prop where
  round : (table s.baseSpeed hbase).Round a picks b
  holds : Holds s.baseSpeed (fun i => b i + wage s i) t.analyzedList
  base : t.baseSpeed = s.baseSpeed
  priority : ids t.priorityList = (ids s.priorityList ++ picks).reverse
  current : t.currentPrio = s.currentPrio
  turn : t.currentTurn = P.uint (s.currentTurn + 1)

theorem TurnOf.priority_ne_nil {s t : PriorityOrderList} {hbase : s.baseSpeed ≠ []}
    {a b : Nat → Int} {picks : List Nat} (h : TurnOf P s hbase a picks b t) :
    t.priorityList ≠ [] := by
  intro hnil
  have hpriority := h.priority
  rw [hnil] at hpriority
  have hclosed := h.round.closer_mem_picks
  rw [show picks = [] from (List.append_eq_nil_iff.mp
    (List.reverse_eq_nil_iff.mp hpriority.symm)).2] at hclosed
  exact nomatch hclosed

/-- Whatever a call of `calculatePriority` returns is a round of the table. -/
theorem Holds.turnOf {s t : PriorityOrderList} {a : Nat → Int}
    (h : Holds s.baseSpeed a s.analyzedList) (hids : (ids s.baseSpeed).Nodup)
    (hlen : 1 < s.baseSpeed.length) (hbase : s.baseSpeed ≠ []) {fuel : Nat}
    (hcalc : calculatePriority P s.currentTurn fuel s = .ok t) :
    ∃ picks b, TurnOf P s hbase a picks b t := by
  induction fuel generalizing s a with
  | zero => exact nomatch hcalc
  | succ fuel ih =>
      rw [calculatePriority_succ] at hcalc
      obtain ⟨u, hpick, hrest⟩ := bind_eq_ok.mp hcalc
      obtain ⟨l, e, hsorted, hcases⟩ := pick_cases hpick
      have hf := h.fastest hids hlen hbase hsorted
      rcases hcases with ⟨hopen, rfl⟩ | ⟨hclose, hend⟩
      · have hne : e.id ≠ (table s.baseSpeed hbase).closer :=
          mt (isPlayerSlowest_eq_closer hbase).mpr (by simp [hopen])
        obtain ⟨picks, b, hturn⟩ := ih (s := s.withPicked l _) hf.holds hids hlen hbase hrest
        refine ⟨e.id :: picks, b, .pick hf.leads hne hturn.round, hturn.holds, hturn.base, ?_,
          hturn.current, hturn.turn⟩
        rw [hturn.priority]
        simp [withPicked]
      · have hcloser := (isPlayerSlowest_eq_closer hbase).mp hclose
        have hholds := hf.holds
        obtain ⟨hpaid, hb, hprio, hcur, hturn⟩ :=
          Holds.endTurn (s := s.withPicked l _) hholds hids hlen hend
        have hround : (table s.baseSpeed hbase).Round a [e.id]
            ((table s.baseSpeed hbase).charge a e.id) := by
          rw [hcloser]
          exact .close (hcloser ▸ hf.leads)
        have hturn' : u.currentTurn ≠ s.currentTurn := by
          rw [hturn]
          exact P.uint_succ_ne _
        obtain rfl := calculatePriority_ended hturn' hrest
        refine ⟨[e.id], _, hround, hpaid, hb, ?_, hcur, hturn⟩
        rw [hprio]
        simp [withPicked, ids]

/-- What makes every pick of a turn possible and the turn end: an invariant of
the credits, a measure that the open picks lower, and room for each result. -/
structure Runs (P : Platform) (T : Table Nat) (w : Nat → Int) (I : (Nat → Int) → Prop)
    (measure : (Nat → Int) → Nat) : Prop where
  step : ∀ a i, I a → T.Leads a i → i ≠ T.closer → I (T.charge a i)
  lt : ∀ a i, I a → T.Leads a i → i ≠ T.closer → measure (T.charge a i) < measure a
  fits : ∀ a i, I a → T.Leads a i → P.fits (a i - toll (a (T.prev i))) = true
  pays : ∀ a i, I a → T.Leads a i → i = T.closer → ∀ j ∈ T.seats,
    P.fits (w j) = true ∧ P.fits (T.charge a i j + w j) = true

theorem Holds.turn_returns {s : PriorityOrderList} {a : Nat → Int}
    (h : Holds s.baseSpeed a s.analyzedList) (hids : (ids s.baseSpeed).Nodup)
    (hlen : 1 < s.baseSpeed.length) (hbase : s.baseSpeed ≠ []) {I : (Nat → Int) → Prop}
    {measure : (Nat → Int) → Nat}
    (hruns : Runs P (table s.baseSpeed hbase) (wage s) I measure) (ha : I a) :
    ∃ t, Returns (fun fuel => calculatePriority P s.currentTurn fuel s) t := by
  induction hn : measure a using Nat.strongRecOn generalizing s a with
  | ind n ih =>
      rcases List.eq_nil_or_concat (customSort P s).analyzedList with hnil | ⟨l, e, hl⟩
      · have hlength := (hnil ▸ (customSort_perm P s).length_eq).trans h.length_eq
        simp only [List.length_nil] at hlength
        omega
      · rw [List.concat_eq_append] at hl
        have hf := h.fastest hids hlen hbase hl
        have hspeed : (if l = [] then Except.ok e.speed else P.int (e.speed - fee P s l e)) =
            (.ok (e.speed - fee P s l e) : Except Fault Int) := by
          split
          · simp [fee, *]
          · rw [hf.speed, int_of_fits (hruns.fits a e.id ha hf.leads)]
        have hpick := pick_eq hl
        rw [hspeed, ok_bind] at hpick
        by_cases hslow : isPlayerSlowest s e.id = true
        · have hcloser := (isPlayerSlowest_eq_closer hbase).mp hslow
          obtain ⟨u, hu⟩ := Holds.endTurn_returns (s := s.withPicked l _) hf.holds hids
            fun i hi => hruns.pays a e.id ha hf.leads hcloser i (List.mem_toFinset.mpr hi)
          have hturn : u.currentTurn ≠ s.currentTurn := by
            rw [endTurnRoutine_currentTurn hu]
            exact P.uint_succ_ne _
          rw [if_pos hslow, hu] at hpick
          exact ⟨u, (returns_iff_of_pick hpick).mpr ⟨1, calculatePriority_stop hturn 0⟩⟩
        · have hne : e.id ≠ (table s.baseSpeed hbase).closer :=
            mt (isPlayerSlowest_eq_closer hbase).mpr hslow
          obtain ⟨t, hreturns⟩ := ih _ (hn ▸ hruns.lt a e.id ha hf.leads hne)
            (s := s.withPicked l _) hf.holds hids hlen hbase hruns
            (hruns.step a e.id ha hf.leads hne) rfl
          rw [if_neg hslow] at hpick
          exact ⟨t, (returns_iff_of_pick hpick).mpr hreturns⟩

/-! ## A list of one -/

theorem refills_single {s : PriorityOrderList} {b e : PriorityElem} (hbase : s.baseSpeed = [b])
    (hanalyzed : s.analyzedList = [e]) (hid : e.id = b.id) (hturn : s.currentTurn ≠ 0) :
    Refills P s { s with
      priorityList := s.priorityList ++ [e]
      currentTurn := P.uint (s.currentTurn + 1) } := by
  have hsort : P.sort.run s.baseSpeed = s.baseSpeed := by
    rw [hbase]
    exact List.perm_singleton.mp (P.sort.perm [b])
  have hsorted : (customSort P s).analyzedList = [] ++ [e] :=
    List.perm_singleton.mp (hanalyzed ▸ customSort_perm P s)
  have hslow : isPlayerSlowest s e.id = true :=
    isPlayerSlowest_iff.mpr ⟨b, [], hbase, hid.symm⟩
  have hwith : s.withPicked [] { e with speed := e.speed } =
      { s with priorityList := s.priorityList ++ [e] } := by
    simp [withPicked, hanalyzed]
  have hend : endTurnRoutine P { s with priorityList := s.priorityList ++ [e] } = .ok { s with
      priorityList := s.priorityList ++ [e]
      currentTurn := P.uint (s.currentTurn + 1) } := by
    simp [endTurnRoutine, hbase]
  have hpick := pick_eq hsorted
  rw [if_pos rfl, ok_bind, if_pos hslow, hwith, hend] at hpick
  refine (refills_iff (by simp [hbase])).mpr (.inr ⟨hturn, 2, ?_⟩)
  simp only [hsort]
  simp [calculatePriority, hpick, P.uint_succ_ne]

/-! ## Credits of a state in step -/

theorem ids_eq_map_keys (l : List PriorityElem) : ids l = (keys l).map Prod.fst := by
  rw [keys, List.map_map]
  rfl

theorem perm_ids_of_keys {l l' : List PriorityElem} (h : (keys l).Perm (keys l')) :
    (ids l).Perm (ids l') := by
  rw [ids_eq_map_keys, ids_eq_map_keys]
  exact h.map _

theorem keys_nodup {l : List PriorityElem} (h : (ids l).Nodup) : (keys l).Nodup :=
  List.Nodup.of_map _ (ids_eq_map_keys l ▸ h)

theorem stored_eq_map_keys (base : List PriorityElem) (a : Nat → Int) :
    stored base a = (keys base).map fun k => ⟨k.1, a k.1, k.2⟩ := by
  rw [keys, List.map_map]
  rfl

theorem holds_of_keys {base l : List PriorityElem} (hids : (ids base).Nodup)
    (h : (keys l).Perm (keys base)) : Holds base (speedOf l) l := by
  have hl : (ids l).Nodup := (perm_ids_of_keys h).nodup_iff.mpr hids
  have hself : stored l (speedOf l) = l := by
    refine (List.map_congr_left fun e he => ?_).trans (List.map_id l)
    rw [speedOf_eq hl he]
    rfl
  have hperm : (stored l (speedOf l)).Perm (stored base (speedOf l)) := by
    rw [stored_eq_map_keys, stored_eq_map_keys]
    exact h.map _
  rwa [hself] at hperm

theorem Holds.speedOf_eq {base l : List PriorityElem} {a : Nat → Int} (h : Holds base a l)
    (hids : (ids base).Nodup) {i : Nat} (hi : i ∈ ids base) : speedOf l i = a i := by
  obtain ⟨e, he, rfl⟩ := h.exists_mem hi
  rw [PriorityOrderList.speedOf_eq (h.nodup hids) he, h.speed_eq he]

theorem InStep.solvent {s : PriorityOrderList} (h : InStep s) (hids : (ids s.baseSpeed).Nodup)
    (hbase : s.baseSpeed ≠ []) :
    (table s.baseSpeed hbase).Solvent (speedOf s.analyzedList) := by
  have hholds := holds_of_keys hids h.analyzed
  constructor
  · intro i hi
    obtain ⟨e, he, rfl⟩ := hholds.exists_mem (List.mem_toFinset.mp hi)
    rw [← hholds.speed_eq he]
    exact h.nonneg e he
  · obtain ⟨e, he, hid, hpos⟩ := h.funded _ (List.head_mem hbase)
    show 1 ≤ speedOf s.analyzedList (s.baseSpeed.head hbase).id
    rw [← hid, ← hholds.speed_eq he]
    exact hpos

/-! ## Refills -/

def resorted (P : Platform) (s : PriorityOrderList) : PriorityOrderList :=
  { s with baseSpeed := P.sort.run s.baseSpeed }

theorem resorted_perm (P : Platform) (s : PriorityOrderList) :
    (resorted P s).baseSpeed.Perm s.baseSpeed := P.sort.perm _

theorem resorted_ne_nil {s : PriorityOrderList} (h : s.baseSpeed ≠ []) :
    (resorted P s).baseSpeed ≠ [] := mt sort_eq_nil.mp h

theorem resorted_nodup {s : PriorityOrderList} (h : (ids s.baseSpeed).Nodup) :
    (ids (resorted P s).baseSpeed).Nodup := (ids_perm (resorted_perm P s)).nodup_iff.mpr h

theorem InStep.refill_turn (hP : ∀ v, P.fits v = true) {s : PriorityOrderList} (h : InStep s)
    (hids : (ids s.baseSpeed).Nodup) (hlen : 1 < s.baseSpeed.length) (hbase : s.baseSpeed ≠ [])
    (hturn : s.currentTurn ≠ 0) :
    ∃ t picks b, Refills P s t ∧ InStep t ∧
      TurnOf P (resorted P s) (resorted_ne_nil hbase) (speedOf s.analyzedList) picks b t := by
  obtain ⟨t, hrefill, hstep, -⟩ := h.refills hP hbase
  obtain ⟨hzero, -⟩ | ⟨-, fuel, hfuel⟩ := (refills_iff hbase).mp hrefill
  · exact absurd hzero hturn
  · have hholds : Holds (resorted P s).baseSpeed (speedOf s.analyzedList) s.analyzedList :=
      holds_of_keys (resorted_nodup hids) (h.of_base_perm (resorted_perm P s)).analyzed
    obtain ⟨picks, b, hturnOf⟩ := Holds.turnOf (s := resorted P s) hholds (resorted_nodup hids)
      (by rwa [(resorted_perm P s).length_eq]) (resorted_ne_nil hbase) hfuel
    exact ⟨t, picks, b, hrefill, hstep, hturnOf⟩

end FyS.Arena.PriorityOrderList
