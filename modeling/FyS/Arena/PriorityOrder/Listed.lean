import FyS.Arena.PriorityOrder.Membership

/-!
# Nobody else is served

Whatever the speeds are, the elements that a list computes with and serves are
registered ones.  This needs none of the conditions under which the scheduler
returns.
-/

namespace FyS.Arena.PriorityOrderList

open FyS.Library.Fuel

variable {P : Platform}

structure Listed (K : List (Nat × Bool)) (s : PriorityOrderList) : Prop where
  base : ∀ e ∈ s.baseSpeed, e.key ∈ K
  analyzed : ∀ e ∈ s.analyzedList, e.key ∈ K
  priority : ∀ e ∈ s.priorityList, e.key ∈ K

theorem keys_paid (fastest : Int) (b : PriorityElem) (l : List PriorityElem) :
    keys (paid fastest b l) = keys l := by
  induction l with
  | nil => rfl
  | cons it rest ih =>
      rw [paid]
      split
      · rfl
      · rw [keys_cons, keys_cons, ih]

theorem keys_paidAll (fastest : Int) (l baseSpeed : List PriorityElem) :
    keys (paidAll fastest l baseSpeed) = keys l := by
  induction baseSpeed generalizing l with
  | nil => rfl
  | cons b rest ih => exact (ih _).trans (keys_paid fastest b l)

theorem forall_key_mem_iff {K : List (Nat × Bool)} {l : List PriorityElem} :
    (∀ e ∈ l, e.key ∈ K) ↔ keys l ⊆ K := by
  simp [keys, List.subset_def]

namespace Listed

variable {K : List (Nat × Bool)} {s t : PriorityOrderList}

theorem endTurnRoutine (h : Listed K s) (hend : endTurnRoutine P s = .ok t) : Listed K t := by
  rcases endTurnRoutine_cases hend with ⟨-, rfl⟩ | ⟨-, l, hperm, rfl⟩
  · exact ⟨h.base, h.analyzed, h.priority⟩
  · refine ⟨h.base, ?_, fun e he => h.priority e (List.mem_reverse.mp he)⟩
    rw [forall_key_mem_iff]
    calc
      keys l ⊆ keys (paidAll s.getFastestBaseSpeed s.analyzedList s.baseSpeed) :=
        (keys_perm hperm).subset
      _ = keys s.analyzedList := keys_paidAll _ _ _
      _ ⊆ K := forall_key_mem_iff.mp h.analyzed

theorem pick (h : Listed K s) (hpick : pick P s = .ok t) : Listed K t := by
  obtain ⟨l, e, hsorted, hcases⟩ := pick_cases hpick
  have hmem (x : PriorityElem) (hx : x ∈ l ++ [e]) : x.key ∈ K := by
    rw [← hsorted] at hx
    exact h.analyzed x ((customSort_perm P s).mem_iff.mp hx)
  have hfastest : ({ e with speed := e.speed - fee P s l e } : PriorityElem).key ∈ K :=
    hmem e (by simp)
  have hpicked : Listed K (s.withPicked l { e with speed := e.speed - fee P s l e }) := by
    refine ⟨h.base, fun x hx => ?_, fun x hx => ?_⟩
    · rcases List.mem_append.mp hx with hx | hx
      · exact hmem x (List.mem_append_left _ hx)
      · rw [List.mem_singleton.mp hx]
        exact hfastest
    · rcases List.mem_append.mp hx with hx | hx
      · exact h.priority x hx
      · rw [List.mem_singleton.mp hx]
        exact hfastest
  rcases hcases with ⟨-, rfl⟩ | ⟨-, hend⟩
  · exact hpicked
  · exact hpicked.endTurnRoutine hend

theorem calculatePriority {turn fuel : Nat} (h : Listed K s)
    (hcalc : calculatePriority P turn fuel s = .ok t) : Listed K t :=
  calculatePriority_keeps (Listed K) (fun _ _ hu hpick => hu.pick hpick) h hcalc

theorem sortBase {fuel : Nat} (h : Listed K s)
    (hsort : sortBaseAndCalculatePriority P fuel s = .ok t) : Listed K t := by
  have hbase (e : PriorityElem) (he : e ∈ P.sort.run s.baseSpeed) : e.key ∈ K :=
    h.base e ((P.sort.perm _).mem_iff.mp he)
  unfold sortBaseAndCalculatePriority at hsort
  simp only at hsort
  split at hsort
  · rw [← Except.ok.inj hsort]
    exact h
  · split at hsort
    · rw [← Except.ok.inj hsort]
      exact ⟨hbase, hbase, hbase⟩
    · have hsorted : Listed K { s with baseSpeed := P.sort.run s.baseSpeed } :=
        ⟨hbase, h.analyzed, h.priority⟩
      exact hsorted.calculatePriority hsort

theorem getNext {fuel : Nat} {e : PriorityElem} (h : Listed K s) (hbase : s.baseSpeed ≠ [])
    (hnext : getNext P fuel s = .ok (e, t)) :
    Listed K t ∧ e.key ∈ K ∧ t.currentPrio = e := by
  have hkept : ∀ u v : PriorityOrderList, Listed K u → Refills P u v → Listed K v := by
    rintro u v hu ⟨fuel, hfuel⟩
    exact hu.sortBase hfuel
  obtain ⟨u, l, hu, hl, rfl⟩ := getNext_served hkept h hbase hnext
  have hback (x : PriorityElem) (hx : x ∈ l ++ [e]) : x.key ∈ K := hu.priority x (hl ▸ hx)
  refine ⟨⟨hu.base, hu.analyzed, ?_⟩, hback e (by simp), rfl⟩
  exact fun x hx => hback x (List.mem_append_left _ hx)

theorem serves {es : List PriorityElem} (h : Listed K s) (hbase : s.baseSpeed ≠ [])
    (hserves : Serves P s es t) : Listed K t ∧ ∀ e ∈ es, e.key ∈ K := by
  induction hserves with
  | nil => exact ⟨h, List.forall_mem_nil _⟩
  | cons head _ ih =>
      obtain ⟨fuel, hnext⟩ := head
      obtain ⟨hlisted, hserved, -⟩ := h.getNext hbase hnext
      obtain ⟨hend, hrest⟩ := ih hlisted fun hnil =>
        hbase (List.nil_perm.mp (hnil ▸ getNext_perm hnext))
      exact ⟨hend, List.forall_mem_cons.mpr ⟨hserved, hrest⟩⟩

end Listed

end FyS.Arena.PriorityOrderList
