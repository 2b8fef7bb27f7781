import FyS.Arena.PriorityOrder.Listed
import FyS.Arena.PriorityOrder.Newcomer
import FyS.Arena.PriorityOrder.Starvation

/-!
# The batch of a turn

What `getNext` serves between two refills: the picks of `calculatePriority`, in
the order they were made, up to the one of the slowest participant.  Nothing is
assumed about overflow, a refill that returns is described as it is.
-/

namespace FyS.Arena.PriorityOrderList

open FyS.Library.Fuel

variable {P : Platform}

/-! ## The picks of a turn -/

/-- The states in which `calculatePriority` makes a pick, up to the state it returns. -/
inductive Picks (P : Platform) (turn : Nat) :
    PriorityOrderList → List PriorityOrderList → PriorityOrderList → Prop
  | stop {s} (hturn : s.currentTurn ≠ turn) : Picks P turn s [] s
  | next {s u states t} (hturn : s.currentTurn = turn) (hpick : pick P s = .ok u)
      (rest : Picks P turn u states t) : Picks P turn s (s :: states) t

theorem returns_iff_picks {turn : Nat} {s t : PriorityOrderList} :
    Returns (fun fuel => calculatePriority P turn fuel s) t ↔ ∃ states, Picks P turn s states t := by
  constructor
  · rintro ⟨fuel, h⟩
    induction fuel generalizing s with
    | zero => cases h
    | succ fuel ih =>
        simp only [calculatePriority] at h
        split at h
        · rename_i hturn
          rw [← Except.ok.inj h]
          exact ⟨[], .stop hturn⟩
        · rename_i hturn
          obtain ⟨u, hpick, hrest⟩ := bind_eq_ok.mp h
          obtain ⟨states, hstates⟩ := ih hrest
          exact ⟨s :: states, .next (not_not.mp hturn) hpick hstates⟩
  · rintro ⟨states, h⟩
    induction h with
    | stop hturn => exact ⟨1, calculatePriority_stop hturn 0⟩
    | next hturn hpick _ ih =>
        rw [← hturn] at ih ⊢
        exact (returns_iff_of_pick hpick).mpr ih

/-- A pick in `s` takes a participant of the highest stored speed, of several the
one that the sort puts last, and hands out `e`. -/
def Takes (P : Platform) (s : PriorityOrderList) (e : PriorityElem) : Prop :=
  ∃ l fastest, (customSort P s).analyzedList = l ++ [fastest] ∧ fastest ∈ s.analyzedList ∧
    (∀ x ∈ s.analyzedList, x.speed ≤ fastest.speed) ∧
    e = { fastest with speed := fastest.speed - fee P s l fastest }

section Takes

variable {s : PriorityOrderList} {l : List PriorityElem} {e : PriorityElem}

theorem mem_of_sorted (h : (customSort P s).analyzedList = l ++ [e]) : e ∈ s.analyzedList := by
  apply (customSort_perm P s).mem_iff.mp
  simp [h]

theorem takes_of_sorted (h : (customSort P s).analyzedList = l ++ [e]) :
    Takes P s { e with speed := e.speed - fee P s l e } :=
  ⟨l, e, h, mem_of_sorted h, fun _ hx => speed_le_back h hx, rfl⟩

end Takes

/-! ## Who is computed with -/

/-- The participants with a stored speed are the registered ones. -/
def SameKeys (s : PriorityOrderList) : Prop := (keys s.analyzedList).Perm (keys s.baseSpeed)

theorem keys_picked {s : PriorityOrderList} {l : List PriorityElem} {e : PriorityElem}
    (h : (customSort P s).analyzedList = l ++ [e]) (speed : Int) :
    (keys (l ++ [{ e with speed }])).Perm (keys s.analyzedList) := by
  have hsame : keys (l ++ [{ e with speed }]) = keys (l ++ [e]) := by
    rw [keys_append, keys_append]
    rfl
  rw [hsame, ← h]
  exact keys_perm (customSort_perm P s)

namespace SameKeys

variable {s t : PriorityOrderList}

theorem endTurnRoutine (h : SameKeys s) (hend : endTurnRoutine P s = .ok t) : SameKeys t := by
  rcases endTurnRoutine_cases hend with ⟨-, rfl⟩ | ⟨-, l, hperm, rfl⟩
  · exact h
  · show (keys l).Perm (keys s.baseSpeed)
    apply (keys_perm hperm).trans
    rw [keys_paidAll]
    exact h

theorem pick (h : SameKeys s) (hpick : pick P s = .ok t) : SameKeys t := by
  obtain ⟨l, e, hsorted, hcases⟩ := pick_cases hpick
  have hpicked : SameKeys (s.withPicked l { e with speed := e.speed - fee P s l e }) :=
    (keys_picked hsorted _).trans h
  rcases hcases with ⟨-, rfl⟩ | ⟨-, hend⟩
  · exact hpicked
  · exact hpicked.endTurnRoutine hend

theorem picks {turn : Nat} {states : List PriorityOrderList} (h : SameKeys s)
    (hpicks : Picks P turn s states t) : SameKeys t := by
  induction hpicks with
  | stop => exact h
  | next _ hpick _ ih => exact ih (h.pick hpick)

theorem resorted (h : SameKeys s) : SameKeys (resorted P s) :=
  h.trans (keys_perm (resorted_perm P s)).symm

end SameKeys

/-! ## A turn -/

theorem SameKeys.slowest_of_single {s : PriorityOrderList} (h : SameKeys s)
    (hbase : s.baseSpeed ≠ []) (hlen : s.baseSpeed.length ≤ 1) {e : PriorityElem}
    (he : e ∈ s.analyzedList) : isPlayerSlowest s e.id = true := by
  obtain ⟨b, rest, hcons⟩ := List.exists_cons_of_ne_nil hbase
  have hrest : rest = [] := by
    rw [hcons] at hlen
    apply List.eq_nil_of_length_eq_zero
    simpa using hlen
  have hkey : e.key ∈ keys s.baseSpeed := h.mem_iff.mp (key_mem he)
  rw [hcons, hrest] at hkey
  have hid : e.key.1 = b.key.1 := congrArg Prod.fst (List.mem_singleton.mp hkey)
  exact isPlayerSlowest_iff.mpr ⟨b, rest, hcons, hid.symm⟩

/-- What the picks of a turn leave in the priority list: what each of them hands
out, the slowest participant last, in reverse. -/
theorem Picks.batch {turn : Nat} {s t : PriorityOrderList} {states : List PriorityOrderList}
    (h : Picks P turn s states t) (hturn : s.currentTurn = turn) (hkeys : SameKeys s)
    (hbase : s.baseSpeed ≠ []) (hsingle : s.baseSpeed.length ≤ 1 → s.priorityList = []) :
    ∃ before last, List.Forall₂ (Takes P) states (before ++ [last]) ∧
      last.key ∈ keys s.baseSpeed ∧ isPlayerSlowest s last.id = true ∧
      (∀ e ∈ before, isPlayerSlowest s e.id = false) ∧
      t.baseSpeed = s.baseSpeed ∧
      t.priorityList = (s.priorityList ++ (before ++ [last])).reverse := by
  induction h with
  | stop hne => exact absurd hturn hne
  | @next s u states t _ hpick rest ih =>
      obtain ⟨l, e, hsorted, hcases⟩ := pick_cases hpick
      have htakes := takes_of_sorted hsorted
      rcases hcases with ⟨hopen, rfl⟩ | ⟨hclose, hend⟩
      · have hmany : ¬ s.baseSpeed.length ≤ 1 := by
          intro hlen
          rw [hkeys.slowest_of_single hbase hlen (mem_of_sorted hsorted)] at hopen
          cases hopen
        obtain ⟨before, last, hall, hkey, hlast, hbefore, hsame, hprio⟩ := ih hturn
          (hkeys.pick hpick) hbase fun hlen => absurd hlen hmany
        refine ⟨_ :: before, last, .cons htakes hall, hkey, hlast, ?_, hsame, ?_⟩
        · intro x hx
          rcases List.mem_cons.mp hx with rfl | hx
          · exact hopen
          · exact hbefore x hx
        · rw [hprio]
          simp [withPicked]
      · have hcounted : u.currentTurn ≠ turn := by
          rw [endTurnRoutine_currentTurn hend, ← hturn]
          exact P.uint_succ_ne _
        cases rest with
        | next hopen => exact absurd hopen hcounted
        | stop =>
            have hkey : e.key ∈ keys s.baseSpeed :=
              hkeys.mem_iff.mp (key_mem (mem_of_sorted hsorted))
            refine ⟨[], _, .cons htakes .nil, hkey, hclose, by simp, ?_, ?_⟩
            · exact (endTurnRoutine_baseSpeed hend).trans rfl
            · rcases endTurnRoutine_cases hend with ⟨hlen, rfl⟩ | ⟨-, l', -, rfl⟩
              · have hnil := hsingle hlen
                simp [withPicked, hnil]
              · simp [withPicked]

/-! ## The batch of a refill -/

/-- The batch that a refill of `s` to `t` has served: what the picks of the turn
took, in their order, the slowest participant once and last. -/
structure Batch (P : Platform) (s t : PriorityOrderList) (served : List PriorityElem) : Prop where
  picks : ∃ states, Picks P s.currentTurn (resorted P s) states t ∧
    List.Forall₂ (Takes P) states served
  queued : t.priorityList = served.reverse
  sorted : t.baseSpeed = P.sort.run s.baseSpeed
  slowest : ∃ slowest before last, t.baseSpeed.head? = some slowest ∧
    (∀ b ∈ t.baseSpeed, slowest.speed ≤ b.speed) ∧ served = before ++ [last] ∧
    last.key = slowest.key ∧ ∀ e ∈ before, e.id ≠ slowest.id

theorem head_le_of_ascending {b : PriorityElem} {rest : List PriorityElem}
    (hasc : Ascending (b :: rest)) : ∀ x ∈ b :: rest, b.speed ≤ x.speed := by
  intro x hx
  rcases List.mem_cons.mp hx with rfl | hx
  · exact Int.le_refl _
  · exact (List.pairwise_cons.mp hasc).1 x hx

theorem Refills.batch {s t : PriorityOrderList} (hrefill : Refills P s t) (hkeys : SameKeys s)
    (hids : (ids s.baseSpeed).Nodup) (hbase : s.baseSpeed ≠ []) (hprio : s.priorityList = [])
    (hturn : s.currentTurn ≠ 0) : ∃ served, Serves P s served t.drained ∧ Batch P s t served := by
  obtain ⟨states, hpicks⟩ : ∃ states, Picks P s.currentTurn (resorted P s) states t := by
    rcases (refills_iff hbase).mp hrefill with ⟨hzero, -⟩ | ⟨-, hcalc⟩
    · exact absurd hzero hturn
    · exact returns_iff_picks.mp hcalc
  obtain ⟨before, last, hall, hkey, hlast, hbefore, hsame, hqueue⟩ :=
    hpicks.batch rfl hkeys.resorted (resorted_ne_nil hbase) fun _ => hprio
  have hqueued : t.priorityList = (before ++ [last]).reverse := by
    rw [hqueue]
    show (s.priorityList ++ _).reverse = _
    rw [hprio, List.nil_append]
  refine ⟨before ++ [last], ?_, ⟨states, hpicks, hall⟩, hqueued, hsame, ?_⟩
  · have hserves := serves_drained (P := P) (hrefill.ne_nil hbase)
    rw [hqueued, List.reverse_reverse] at hserves
    exact hrefill.serves hbase hprio hserves (by simp)
  · obtain ⟨b, rest, hcons⟩ := List.exists_cons_of_ne_nil (resorted_ne_nil (P := P) hbase)
    have hasc : Ascending (b :: rest) := hcons ▸ P.sort.ascending s.baseSpeed
    have hslow (e : PriorityElem) : isPlayerSlowest (resorted P s) e.id = true ↔ e.id = b.id := by
      rw [isPlayerSlowest_eq_closer (resorted_ne_nil hbase)]
      simp only [table, hcons, List.head_cons]
    have hb : b ∈ (resorted P s).baseSpeed := by
      rw [hcons]
      exact List.mem_cons_self
    refine ⟨b, before, last, ?_, ?_, rfl, ?_, ?_⟩
    · rw [hsame, hcons, List.head?_cons]
    · rw [hsame, hcons]
      exact head_le_of_ascending hasc
    · exact key_eq_of_id_eq (resorted_nodup hids) hkey hb ((hslow last).mp hlast)
    · intro e he hid
      have hfalse := hbefore e he
      rw [(hslow e).mpr hid] at hfalse
      cases hfalse

/-- Whenever `getNext` refills an empty priority list after the first turn, the
batch that it then serves is the picks of `calculatePriority` in their order, and
ends with the slowest participant, who is in it once.  On unbounded integers the
refill returns. -/
theorem batch_of_turn (P : Platform) {s₀ s : PriorityOrderList}
    (hs₀ : Constructed P (fun l => (ids l).Nodup ∧ ∀ b ∈ l, 1 ≤ b.speed) s₀)
    (hs : Reaches P DistinctPos s₀ s) (hbase : s.baseSpeed ≠ []) (hprio : s.priorityList = [])
    (hturn : 1 ≤ s.currentTurn) :
    (∀ t, Refills P s t → ∃ served, Serves P s served t.drained ∧ Batch P s t served) ∧
      ((∀ v, P.fits v = true) → ∃ t, Refills P s t) := by
  obtain ⟨hstart, hids₀⟩ := hs₀.inStep_nodup
  obtain ⟨hstep, hids⟩ := hstart.reaches (R := fun l => (ids l).Nodup) (fun _ _ hop => hop.1)
    (fun _ _ hperm => (ids_perm hperm).nodup_iff.mp) (fun _ _ => nodup_registered) hids₀ hs
  constructor
  · intro t hrefill
    exact hrefill.batch hstep.analyzed hids hbase hprio (by omega)
  · intro hP
    obtain ⟨t, hrefill, -⟩ := hstep.refills hP hbase
    exact ⟨t, hrefill⟩

def playedPair : PriorityOrderList :=
  (initial (.unbounded insertionSort) [⟨1, 1, false⟩, ⟨2, 5, true⟩]).drained

theorem reaches_playedPair :
    Reaches (.unbounded insertionSort) DistinctPos
      (initial (.unbounded insertionSort) [⟨1, 1, false⟩, ⟨2, 5, true⟩]) playedPair := by
  have hadm (s : PriorityOrderList) : DistinctPos s .getNext := by
    simp [DistinctPos, PosSpeed, ListOp.added]
  have hfirst : Step (.unbounded insertionSort) DistinctPos
      (initial (.unbounded insertionSort) [⟨1, 1, false⟩, ⟨2, 5, true⟩])
      ((initial (.unbounded insertionSort) [⟨1, 1, false⟩, ⟨2, 5, true⟩]).served ⟨2, 5, true⟩
        [⟨1, 1, false⟩]) := ⟨.getNext, hadm _, 1, rfl⟩
  exact (Relation.ReflTransGen.single hfirst).tail ⟨.getNext, hadm _, 1, rfl⟩

theorem batch_of_turn_playedPair :
    ∃ t served, Refills (.unbounded insertionSort) playedPair t ∧
      Serves (.unbounded insertionSort) playedPair served t.drained ∧
      Batch (.unbounded insertionSort) playedPair t served := by
  have hbatch := batch_of_turn (.unbounded insertionSort) (s := playedPair)
    (.ofBaseSpeed (l := [⟨1, 1, false⟩, ⟨2, 5, true⟩]) ⟨by decide, by decide⟩
      ⟨0, ofBaseSpeed_eq 0 _⟩)
    reaches_playedPair (by decide) rfl (by decide)
  obtain ⟨t, hrefill⟩ := hbatch.2 fun _ => rfl
  obtain ⟨served, hserved⟩ := hbatch.1 t hrefill
  exact ⟨t, served, hrefill, hserved⟩

end FyS.Arena.PriorityOrderList
