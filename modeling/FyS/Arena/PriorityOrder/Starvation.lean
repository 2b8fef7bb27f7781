import FyS.Arena.PriorityOrder.Turns

/-!
# No participant starves

A turn may pass a participant over.  Each time it does, the backlog of the
participant shrinks: the slowest one pays at least 1 at the end of every turn
and nobody that earns no more than the participant gains on it.
-/

namespace FyS.Arena.PriorityOrderList

open FyS.Library.Fuel FyS.Library.CreditRound

variable {P : Platform}

/-! ## The backlog -/

theorem wage_closer_le {s : PriorityOrderList} (hids : (ids s.baseSpeed).Nodup)
    (hasc : Ascending s.baseSpeed) (hbase : s.baseSpeed ≠ []) {i : Nat}
    (hi : i ∈ ids s.baseSpeed) : wage s (table s.baseSpeed hbase).closer ≤ wage s i := by
  obtain ⟨b, hb, rfl⟩ := List.mem_map.mp hi
  have hhead : (s.baseSpeed.head hbase).speed ≤ b.speed := by
    obtain ⟨x, rest, hcons⟩ := List.exists_cons_of_ne_nil hbase
    simp only [hcons, List.head_cons] at hb hasc ⊢
    rcases List.mem_cons.mp hb with rfl | hb
    · exact Int.le_refl _
    · exact (List.pairwise_cons.mp hasc).1 b hb
  show wage s (s.baseSpeed.head hbase).id ≤ wage s b.id
  rw [wage, wage, PriorityOrderList.speedOf_eq hids (List.head_mem hbase),
    PriorityOrderList.speedOf_eq hids hb]
  omega

def backlogOf (P : Platform) (s : PriorityOrderList) (p : Nat) : Nat :=
  Table.backlog (ids s.baseSpeed).toFinset (wage (resorted P s)) p (speedOf s.analyzedList)

/-- A turn that passes `p` over shrinks its backlog. -/
theorem TurnOf.backlog_lt {s t : PriorityOrderList} (hs : InStep s)
    (hids : (ids s.baseSpeed).Nodup) (hlen : 1 < s.baseSpeed.length) (hbase : s.baseSpeed ≠ [])
    {picks : List Nat} {b : Nat → Int}
    (h : TurnOf P (resorted P s) (resorted_ne_nil hbase) (speedOf s.analyzedList) picks b t)
    {p : Nat} (hp : p ∈ ids s.baseSpeed) (hpassed : p ∉ picks) :
    backlogOf P t p < backlogOf P s p := by
  have hperm := resorted_perm P s
  have hids' := resorted_nodup (P := P) hids
  have hp' : p ∈ ids (resorted P s).baseSpeed := (ids_perm hperm).mem_iff.mpr hp
  have hlen' : 1 < (resorted P s).baseSpeed.length := by rwa [hperm.length_eq]
  have hturn : (table _ (resorted_ne_nil hbase)).Turn (wage (resorted P s))
      (speedOf s.analyzedList) picks (speedOf t.analyzedList) :=
    ⟨b, h.round, fun i hi => h.holds.speedOf_eq hids' (List.mem_toFinset.mp hi)⟩
  have hsolvent : (table _ (resorted_ne_nil (P := P) hbase)).Solvent (speedOf s.analyzedList) :=
    (hs.of_base_perm hperm).solvent hids' _
  have hlt := hturn.backlog_lt hsolvent (List.mem_toFinset.mpr hp') hpassed
    (wage_closer_le hids' (P.sort.ascending _) _ hp')
    (neighbour_ne hids' hlen' (id_mem (List.head_mem _)))
  have hseats : (ids s.baseSpeed).toFinset = (ids (resorted P s).baseSpeed).toFinset :=
    (List.toFinset_eq_of_perm _ _ (ids_perm hperm)).symm
  have hwage : wage (resorted P t) = wage (resorted P s) := by
    have hpermt : (resorted P t).baseSpeed.Perm (resorted P s).baseSpeed :=
      h.base ▸ resorted_perm P t
    exact wage_congr ((ids_perm hpermt).nodup_iff.mpr hids') (P.sort.ascending _)
      (P.sort.ascending _) hpermt
  rw [backlogOf, backlogOf, hwage, h.base, hseats]
  exact hlt

/-! ## Every participant is served -/

theorem key_eq_of_id_eq {base : List PriorityElem} (hids : (ids base).Nodup)
    {e p : PriorityElem} (he : e.key ∈ keys base) (hp : p ∈ base) (h : e.id = p.id) :
    e.key = p.key := by
  obtain ⟨b, hb, hbe⟩ := List.mem_map.mp he
  have hid : b.id = e.id := congrArg Prod.fst hbe
  rw [← hbe, eq_of_id_eq hids hb hp (hid.trans h)]

theorem InStep.found_in_batch {s t : PriorityOrderList} (ht : InStep t)
    (hids : (ids t.baseSpeed).Nodup) (hbatch : Serves P s t.priorityList.reverse t.drained)
    {e p : PriorityElem} (he : e ∈ t.priorityList) (hp : p ∈ t.baseSpeed) (hid : e.id = p.id) :
    ∃ es e t, Serves P s (es ++ [e]) t ∧ e.key = p.key := by
  obtain ⟨es, u, hserves⟩ := hbatch.prefix_of_mem (List.mem_reverse.mpr he)
  exact ⟨es, e, u, hserves, key_eq_of_id_eq hids (ht.priority e he) hp hid⟩

theorem InStep.id_eq_of_single {t : PriorityOrderList} (ht : InStep t)
    (hlen : t.baseSpeed.length ≤ 1) {e p : PriorityElem} (he : e ∈ t.priorityList)
    (hp : p ∈ t.baseSpeed) : e.id = p.id := by
  obtain ⟨x, hx⟩ := List.length_eq_one_iff.mp
    (Nat.le_antisymm hlen (List.length_pos_of_mem hp))
  have hkey := ht.priority e he
  rw [hx, keys_cons, keys_nil, List.mem_singleton] at hkey
  rw [hx, List.mem_singleton] at hp
  rw [← e.key_fst, hkey, hp, x.key_fst]

/-- From a refill on, by induction on the backlog of `p`. -/
theorem InStep.eventually_served (hP : ∀ v, P.fits v = true) {s : PriorityOrderList}
    (h : InStep s) (hids : (ids s.baseSpeed).Nodup) (hprio : s.priorityList = [])
    {p : PriorityElem} (hp : p ∈ s.baseSpeed) :
    ∃ es e t, Serves P s (es ++ [e]) t ∧ e.key = p.key := by
  induction hn : backlogOf P s p.id using Nat.strongRecOn generalizing s with
  | ind n ih =>
      have hbase : s.baseSpeed ≠ [] := List.ne_nil_of_mem hp
      obtain ⟨t, hrefill, ht, hperm, hne⟩ := h.refills hP hbase
      have hidst : (ids t.baseSpeed).Nodup := (ids_perm hperm).nodup_iff.mpr hids
      have hpt : p ∈ t.baseSpeed := hperm.mem_iff.mpr hp
      have hbatch : Serves P s t.priorityList.reverse t.drained := by
        apply hrefill.serves hbase hprio (serves_drained (List.ne_nil_of_mem hpt))
        simpa using hne
      by_cases hlen : s.baseSpeed.length ≤ 1
      · -- alone in the list
        obtain ⟨e, he⟩ := List.exists_mem_of_ne_nil _ hne
        exact ht.found_in_batch hidst hbatch he hpt
          (ht.id_eq_of_single (hperm.length_eq ▸ hlen) he hpt)
      · by_cases hturn : s.currentTurn = 0
        · -- the first batch is the base order
          obtain ⟨-, rfl⟩ | ⟨hpos, -⟩ := (refills_iff hbase).mp hrefill
          · exact ht.found_in_batch hidst hbatch (hperm.mem_iff.mpr hp) hpt rfl
          · exact absurd hturn hpos
        · obtain ⟨t', picks, b, hrefill', -, hturnOf⟩ :=
            h.refill_turn hP hids (by omega) hbase hturn
          obtain rfl := hrefill.unique (sortBaseAndCalculatePriority_stable s) hrefill'
          by_cases hpicked : p.id ∈ picks
          · have hmem : p.id ∈ ids t.priorityList := by
              simp [hturnOf.priority, hpicked]
            obtain ⟨e, he, hid⟩ := List.mem_map.mp hmem
            exact ht.found_in_batch hidst hbatch he hpt hid
          · have hlt := hturnOf.backlog_lt h hids (by omega) hbase (id_mem hp) hpicked
            obtain ⟨es, e, u, hserves, hkey⟩ :=
              ih _ (hn ▸ hlt) (s := t.drained) ht.drained hidst rfl hpt rfl
            refine ⟨t.priorityList.reverse ++ es, e, u, ?_, hkey⟩
            rw [List.append_assoc]
            exact hbatch.append hserves

/-- No id is asked for under both kinds, and no base speed is below 1. -/
def DistinctPos (s : PriorityOrderList) (op : ListOp) : Prop :=
  PosSpeed s op ∧ ∀ b ∈ op.added, ∀ b' ∈ s.baseSpeed, b'.id = b.id → b'.key = b.key

theorem nodup_registered {s : PriorityOrderList} {op : ListOp} (hop : DistinctPos s op)
    (h : (ids s.baseSpeed).Nodup) : (ids (op.registered s.baseSpeed)).Nodup := by
  cases op with
  | addParticipantInList id speed isContender =>
      rw [ListOp.registered]
      split
      · exact h
      · rename_i hnew
        have hfresh : id ∉ ids s.baseSpeed := fun hmem => by
          obtain ⟨b, hb, hid⟩ := List.mem_map.mp hmem
          refine hnew ?_
          rw [← PriorityElem.key_mk id speed isContender, ← hop.2 _ rfl b hb hid]
          exact key_mem hb
        rw [ids_append, ids_cons, ids_nil, List.nodup_append]
        refine ⟨h, List.nodup_singleton _, fun i hi j hj hij => hfresh ?_⟩
        rwa [hij, List.mem_singleton.mp hj] at hi
  | removeParticipantFromList id => exact h.sublist (List.filter_sublist.map _)
  | getNext => exact h

theorem Constructed.inStep_nodup {s : PriorityOrderList}
    (h : Constructed P (fun l => (ids l).Nodup ∧ ∀ b ∈ l, 1 ≤ b.speed) s) :
    InStep s ∧ (ids s.baseSpeed).Nodup := by
  cases h with
  | empty => exact ⟨(Constructed.empty (P := P)).inStep, List.nodup_nil⟩
  | @ofBaseSpeed l _ hl hret =>
      constructor
      · exact (Constructed.ofBaseSpeed hl.2 hret).inStep
      · obtain ⟨fuel, hfuel⟩ := hret
        rw [show s = initial P l from Except.ok.inj (hfuel.symm.trans (ofBaseSpeed_eq fuel l))]
        exact (ids_perm (P.sort.perm l)).nodup_iff.mpr hl.1

/-- Whatever operations came before, every registered participant is served
after finitely many more calls of `getNext`. -/
theorem no_participant_starves (sort : StdSort) {s₀ s : PriorityOrderList} {p : PriorityElem}
    (hs₀ : Constructed (.unbounded sort)
      (fun l => (ids l).Nodup ∧ ∀ b ∈ l, 1 ≤ b.speed) s₀)
    (hs : Reaches (.unbounded sort) DistinctPos s₀ s) (hp : p ∈ s.baseSpeed) :
    ∃ es e t, Serves (.unbounded sort) s (es ++ [e]) t ∧ e.key = p.key := by
  have hP (v : Int) : (Platform.unbounded sort).fits v = true := rfl
  obtain ⟨hstart, hids₀⟩ := hs₀.inStep_nodup
  obtain ⟨h, hids⟩ := hstart.reaches (R := fun l => (ids l).Nodup) (fun _ _ hop => hop.1)
    (fun _ _ hperm => (ids_perm hperm).nodup_iff.mp) (fun _ _ => nodup_registered) hids₀ hs
  have hbase : s.baseSpeed ≠ [] := List.ne_nil_of_mem hp
  obtain ⟨es, e, t, hserves, hkey⟩ := h.drained.eventually_served hP hids rfl hp
  refine ⟨s.priorityList.reverse ++ es, e, t, ?_, hkey⟩
  rw [List.append_assoc]
  exact (serves_drained hbase).append hserves

/-- The slowest of two, after a third one left. -/
theorem no_participant_starves_slowest :
    ∃ es e t, Serves (.unbounded insertionSort)
      ((initial (.unbounded insertionSort)
        [⟨1, 1, false⟩, ⟨2, 5, true⟩, ⟨3, 7, true⟩]).removeParticipantFromList 3) (es ++ [e]) t ∧
      e.key = (1, false) :=
  no_participant_starves insertionSort (p := ⟨1, 1, false⟩)
    (.ofBaseSpeed (l := [⟨1, 1, false⟩, ⟨2, 5, true⟩, ⟨3, 7, true⟩]) ⟨by decide, by decide⟩
      ⟨0, ofBaseSpeed_eq 0 _⟩)
    (.single ⟨.removeParticipantFromList 3, by simp [DistinctPos, PosSpeed, ListOp.added], 0, rfl⟩)
    (by decide)

end FyS.Arena.PriorityOrderList
