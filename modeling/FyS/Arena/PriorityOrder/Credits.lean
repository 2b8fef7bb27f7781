import FyS.Arena.PriorityOrder.Membership
import FyS.Library.CreditRound
import FyS.Library.KeyedTable

/-!
# Stored speeds as credits

With pairwise distinct ids the stored speeds are a credit for each id, a pick
is a charge on the table where every participant pays the one before it in the
base order, the slowest the fastest, and the end of a turn pays the wages.
-/

namespace FyS.Arena.PriorityOrderList

open FyS.Library.Fuel FyS.Library.CreditRound

variable {P : Platform}

def ids (l : List PriorityElem) : List Nat := l.map (·.id)

@[simp] theorem ids_nil : ids [] = [] := rfl

@[simp] theorem ids_cons (e : PriorityElem) (l : List PriorityElem) :
    ids (e :: l) = e.id :: ids l := rfl

@[simp] theorem ids_append (l l' : List PriorityElem) : ids (l ++ l') = ids l ++ ids l' :=
  List.map_append

theorem id_mem {l : List PriorityElem} {e : PriorityElem} (h : e ∈ l) : e.id ∈ ids l :=
  List.mem_map_of_mem h

theorem ids_perm {l l' : List PriorityElem} (h : l.Perm l') : (ids l).Perm (ids l') :=
  h.map _

theorem eq_of_id_eq {l : List PriorityElem} (hids : (ids l).Nodup) {b b' : PriorityElem}
    (hb : b ∈ l) (hb' : b' ∈ l) (h : b.id = b'.id) : b = b' :=
  List.inj_on_of_nodup_map hids hb hb' h

theorem speed_le_last {l : List PriorityElem} (hasc : Ascending l) (hl : l ≠ [])
    {b : PriorityElem} (hb : b ∈ l) : b.speed ≤ (l.getLast hl).speed := by
  have hsplit := List.dropLast_append_getLast hl
  rw [← hsplit] at hasc hb
  rcases List.mem_append.mp hb with hb | hb
  · exact (List.pairwise_append.mp hasc).2.2 b hb _ (by simp)
  · rw [List.mem_singleton.mp hb]

/-! ## Neighbours -/

/-- The id that stands before `id` in a list that `before` precedes. -/
def neighbourFrom (id : Nat) : Nat → List Nat → Nat
  | before, [] => before
  | before, i :: rest => if i = id then before else neighbourFrom id i rest

def neighbour (base : List PriorityElem) (id : Nat) : Nat :=
  neighbourFrom id ((base.getLast?.map (·.id)).getD 0) (ids base)

theorem neighbourFrom_mem (id before : Nat) (l : List Nat) :
    neighbourFrom id before l ∈ before :: l := by
  induction l generalizing before with
  | nil => simp [neighbourFrom]
  | cons i rest ih =>
      rw [neighbourFrom]
      split
      · exact List.mem_cons_self
      · exact List.mem_cons_of_mem _ (ih i)

theorem neighbourFrom_ne {id before : Nat} {l : List Nat} (hl : l.Nodup) (hid : id ∈ l)
    (hbefore : before ≠ id ∨ l.head? ≠ some id) : neighbourFrom id before l ≠ id := by
  induction l generalizing before with
  | nil => exact nomatch hid
  | cons i rest ih =>
      obtain ⟨hi, hrest⟩ := List.nodup_cons.mp hl
      rw [neighbourFrom]
      split
      · rename_i heq
        exact hbefore.resolve_right fun h => h (by simp [heq])
      · rename_i hne
        exact ih hrest (by simpa [Ne.symm hne] using hid) (.inl hne)

theorem getLast_id_mem {base : List PriorityElem} (hbase : base ≠ []) :
    (base.getLast?.map (·.id)).getD 0 ∈ ids base := by
  rw [List.getLast?_eq_getLast_of_ne_nil hbase]
  exact id_mem (List.getLast_mem hbase)

theorem neighbour_mem {base : List PriorityElem} (hbase : base ≠ []) (id : Nat) :
    neighbour base id ∈ ids base := by
  rcases List.mem_cons.mp
    (neighbourFrom_mem id ((base.getLast?.map (·.id)).getD 0) (ids base)) with h | h
  · rw [neighbour, h]
    exact getLast_id_mem hbase
  · exact h

theorem neighbour_ne {base : List PriorityElem} (hids : (ids base).Nodup)
    (hlen : 1 < base.length) {id : Nat} (hid : id ∈ ids base) : neighbour base id ≠ id := by
  refine neighbourFrom_ne hids hid ?_
  rw [← not_and_or]
  rintro ⟨hlast, hhead⟩
  obtain ⟨b, rest, rfl⟩ := List.exists_cons_of_length_pos (Nat.lt_of_succ_lt hlen)
  have hrest : rest ≠ [] := List.ne_nil_of_length_pos (by simpa using hlen)
  obtain rfl : b.id = id := by simpa using hhead
  rw [List.getLast?_eq_getLast_of_ne_nil (by simp), List.getLast_cons hrest] at hlast
  have hmem : (rest.getLast hrest).id ∈ ids rest := id_mem (List.getLast_mem hrest)
  rw [show (rest.getLast hrest).id = b.id from hlast] at hmem
  exact (List.nodup_cons.mp hids).1 hmem

theorem neighbour_head {b : PriorityElem} {rest : List PriorityElem} :
    neighbour (b :: rest) b.id = ((b :: rest).getLast (by simp)).id := by
  rw [neighbour, ids_cons, neighbourFrom, if_pos rfl,
    List.getLast?_eq_getLast_of_ne_nil (by simp)]
  rfl

def table (base : List PriorityElem) (hbase : base ≠ []) : Table Nat where
  seats := (ids base).toFinset
  closer := (base.head hbase).id
  prev := neighbour base
  closer_mem := List.mem_toFinset.mpr (id_mem (List.head_mem hbase))
  prev_mem i _ := List.mem_toFinset.mpr (neighbour_mem hbase i)

/-! ## Stored speeds -/

/-- The participants of `base` with the credits `a`. -/
def stored (base : List PriorityElem) (a : Nat → Int) : List PriorityElem :=
  base.map fun b => { b with speed := a b.id }

/-- The stored speeds of `l` are the credits `a` of the participants of `base`. -/
def Holds (base : List PriorityElem) (a : Nat → Int) (l : List PriorityElem) : Prop :=
  l.Perm (stored base a)

@[simp] theorem ids_stored (base : List PriorityElem) (a : Nat → Int) :
    ids (stored base a) = ids base := by
  simp [ids, stored]

theorem stored_congr {base : List PriorityElem} {a a' : Nat → Int}
    (h : ∀ i ∈ ids base, a i = a' i) : stored base a = stored base a' :=
  List.map_congr_left fun b hb => by rw [h b.id (id_mem hb)]

namespace Holds

variable {base l : List PriorityElem} {a a' : Nat → Int}

theorem perm_ids (h : Holds base a l) : (ids l).Perm (ids base) :=
  ids_stored base a ▸ ids_perm h

theorem nodup (h : Holds base a l) (hids : (ids base).Nodup) : (ids l).Nodup :=
  h.perm_ids.nodup_iff.mpr hids

theorem length_eq (h : Holds base a l) : l.length = base.length := by
  simpa [stored] using List.Perm.length_eq h

theorem speed_eq (h : Holds base a l) {e : PriorityElem} (he : e ∈ l) : e.speed = a e.id := by
  obtain ⟨b, -, rfl⟩ := List.mem_map.mp (h.mem_iff.mp he)
  rfl

theorem exists_mem (h : Holds base a l) {i : Nat} (hi : i ∈ ids base) :
    ∃ e ∈ l, e.id = i :=
  List.mem_map.mp (h.perm_ids.mem_iff.mpr hi)

theorem perm (h : Holds base a l) {l' : List PriorityElem} (hl : l'.Perm l) : Holds base a l' :=
  hl.trans h

theorem congr (h : Holds base a l) (ha : ∀ i ∈ ids base, a i = a' i) : Holds base a' l := by
  rw [Holds, ← stored_congr ha]
  exact h

theorem update (h : Holds base a l) (i : Nat) (v : Int) :
    Holds base (Function.update a i v)
      (l.map fun e => if e.id = i then { e with speed := v } else e) := by
  refine (List.Perm.map _ h).trans (List.Perm.of_eq ?_)
  rw [stored, stored, List.map_map]
  refine List.map_congr_left fun b _ => ?_
  by_cases hb : b.id = i <;> simp [hb]

theorem map_update_of_not_mem {l : List PriorityElem} {i : Nat} (hi : i ∉ ids l) (v : Int) :
    (l.map fun e => if e.id = i then { e with speed := v } else e) = l := by
  refine (List.map_congr_left fun e he => ?_).trans (List.map_id l)
  rw [if_neg fun h : e.id = i => hi (h ▸ id_mem he)]
  rfl

theorem update_back {e : PriorityElem} (h : Holds base a (l ++ [e])) (hids : (ids base).Nodup)
    (v : Int) : Holds base (Function.update a e.id v) (l ++ [{ e with speed := v }]) := by
  have hnodup := h.nodup hids
  have hnot : e.id ∉ ids l := by
    rw [ids_append, List.nodup_append] at hnodup
    exact fun hmem => hnodup.2.2 _ hmem _ (by simp) rfl
  have hupdate := h.update e.id v
  rwa [List.map_append, map_update_of_not_mem hnot, List.map_singleton, if_pos rfl] at hupdate

end Holds

/-! ## A pick -/

theorem computedSpeedFrom_eq {base l : List PriorityElem} {a : Nat → Int} (h : Holds base a l)
    {id before : Nat} {rest : List PriorityElem} (hid : id ∈ ids rest)
    (hmem : neighbourFrom id before (ids rest) ∈ ids base) :
    computedSpeedFrom l id before rest = toll (a (neighbourFrom id before (ids rest))) := by
  induction rest generalizing before with
  | nil => exact nomatch hid
  | cons b rest ih =>
      rw [ids_cons, neighbourFrom] at hmem ⊢
      rw [computedSpeedFrom]
      split
      · rw [if_pos ‹_›] at hmem
        obtain ⟨e, he, hide⟩ := h.exists_mem hmem
        cases hfind : l.find? (·.id == before) with
        | none => exact absurd (beq_iff_eq.mpr hide) (List.find?_eq_none.mp hfind e he)
        | some it =>
            have hit : it.id = before := by simpa using List.find?_some hfind
            rw [← hit, ← h.speed_eq (List.mem_of_find?_eq_some hfind)]
            rfl
      · rename_i hne
        rw [if_neg hne] at hmem
        exact ih (by simpa [Ne.symm hne] using hid) hmem

theorem isPlayerSlowest_eq_closer {s : PriorityOrderList} (hbase : s.baseSpeed ≠ []) {id : Nat} :
    isPlayerSlowest s id = true ↔ id = (table s.baseSpeed hbase).closer := by
  rw [isPlayerSlowest_iff]
  obtain ⟨b, rest, hcons⟩ := List.exists_cons_of_ne_nil hbase
  simp [table, hcons, eq_comm]

structure Fastest (P : Platform) (s : PriorityOrderList) (hbase : s.baseSpeed ≠ [])
    (a : Nat → Int) (l : List PriorityElem) (e : PriorityElem) : Prop where
  sorted : (customSort P s).analyzedList = l ++ [e]
  leads : (table s.baseSpeed hbase).Leads a e.id
  speed : e.speed - fee P s l e = a e.id - toll (a ((table s.baseSpeed hbase).prev e.id))
  holds : Holds s.baseSpeed ((table s.baseSpeed hbase).charge a e.id)
    (l ++ [{ e with speed := e.speed - fee P s l e }])

theorem Holds.fastest {s : PriorityOrderList} {a : Nat → Int}
    (h : Holds s.baseSpeed a s.analyzedList) (hids : (ids s.baseSpeed).Nodup)
    (hlen : 1 < s.baseSpeed.length) (hbase : s.baseSpeed ≠ []) {l : List PriorityElem}
    {e : PriorityElem} (hsorted : (customSort P s).analyzedList = l ++ [e]) :
    Fastest P s hbase a l e := by
  have hholds : Holds s.baseSpeed a (l ++ [e]) := h.perm (hsorted ▸ customSort_perm P s)
  have hmem : e ∈ l ++ [e] := by simp
  have hid : e.id ∈ ids s.baseSpeed := hholds.perm_ids.mem_iff.mp (id_mem hmem)
  have hl : l ≠ [] := by
    rintro rfl
    have := hholds.length_eq
    simp only [List.nil_append, List.length_singleton] at this
    omega
  have hspeed : e.speed - fee P s l e = a e.id - toll (a (neighbour s.baseSpeed e.id)) := by
    rw [fee, if_neg hl, getComputedSpeed, customSort_baseSpeed, hsorted,
      computedSpeedFrom_eq hholds hid (neighbour_mem hbase e.id), hholds.speed_eq hmem]
    rfl
  refine ⟨hsorted, ⟨List.mem_toFinset.mpr hid, fun j hj => ?_⟩, hspeed, ?_⟩
  · obtain ⟨x, hx, rfl⟩ := h.exists_mem (List.mem_toFinset.mp hj)
    rw [← h.speed_eq hx, ← hholds.speed_eq hmem]
    exact speed_le_back hsorted hx
  · rw [hspeed]
    exact hholds.update_back hids _

/-! ## The wages -/

def speedOf (base : List PriorityElem) (id : Nat) : Int :=
  ((base.find? (·.id == id)).map (·.speed)).getD 0

def wage (s : PriorityOrderList) (id : Nat) : Int :=
  speedOf s.baseSpeed id + s.getFastestBaseSpeed

theorem speedOf_eq {base : List PriorityElem} (hids : (ids base).Nodup) {b : PriorityElem}
    (hb : b ∈ base) : speedOf base b.id = b.speed := by
  have hfind : base.find? (·.id == b.id) = some b :=
    FyS.Library.KeyedTable.find_of_mem hids hb
  rw [speedOf, hfind]
  rfl

theorem speedOf_perm {l l' : List PriorityElem} (hl : (ids l).Nodup) (h : l.Perm l') :
    speedOf l = speedOf l' := by
  funext i
  have hl' : (ids l').Nodup := (ids_perm h).nodup_iff.mp hl
  by_cases hi : i ∈ ids l
  · obtain ⟨b, hb, rfl⟩ := List.mem_map.mp hi
    rw [speedOf_eq hl hb, speedOf_eq hl' (h.mem_iff.mp hb)]
  · have hnone {l : List PriorityElem} (hi : i ∉ ids l) : l.find? (·.id == i) = none :=
      List.find?_eq_none.mpr fun b hb hbi => hi (beq_iff_eq.mp hbi ▸ id_mem hb)
    rw [speedOf, speedOf, hnone hi, hnone (mt (ids_perm h).mem_iff.mpr hi)]

theorem map_speed_eq {l l' : List PriorityElem} (hl : Ascending l) (hl' : Ascending l')
    (h : l.Perm l') : l.map (·.speed) = l'.map (·.speed) :=
  List.Perm.eq_of_pairwise (fun _ _ _ _ => Int.le_antisymm) (ascending_iff_map.mp hl)
    (ascending_iff_map.mp hl') (h.map _)

theorem fastest_congr {s t : PriorityOrderList} (hs : Ascending s.baseSpeed)
    (ht : Ascending t.baseSpeed) (h : s.baseSpeed.Perm t.baseSpeed) :
    s.getFastestBaseSpeed = t.getFastestBaseSpeed := by
  rw [getFastestBaseSpeed, getFastestBaseSpeed, ← List.getLast?_map, ← List.getLast?_map,
    map_speed_eq hs ht h]

theorem wage_congr {s t : PriorityOrderList} (hids : (ids s.baseSpeed).Nodup)
    (hs : Ascending s.baseSpeed) (ht : Ascending t.baseSpeed)
    (h : s.baseSpeed.Perm t.baseSpeed) : wage s = wage t := by
  funext i
  rw [wage, wage, speedOf_perm hids h, fastest_congr hs ht h]

theorem Holds.paid {base l : List PriorityElem} {a : Nat → Int} (h : Holds base a l)
    (hids : (ids base).Nodup) (fastest : Int) (b : PriorityElem) :
    Holds base (Function.update a b.id (a b.id + (b.speed + fastest))) (paid fastest b l) := by
  have hpaid (l : List PriorityElem) (hl : (ids l).Nodup) (hspeed : ∀ e ∈ l, e.speed = a e.id) :
      PriorityOrderList.paid fastest b l = l.map fun e =>
        if e.id = b.id then { e with speed := a b.id + (b.speed + fastest) } else e := by
    induction l with
    | nil => rfl
    | cons it rest ih =>
        obtain ⟨hit, hrest⟩ := List.nodup_cons.mp hl
        rw [PriorityOrderList.paid, List.map_cons]
        split
        · rename_i heq
          rw [Holds.map_update_of_not_mem (heq ▸ hit), hspeed it List.mem_cons_self, heq]
        · rw [ih hrest fun e he => hspeed e (List.mem_cons_of_mem _ he)]
  rw [hpaid l (h.nodup hids) fun e => h.speed_eq]
  exact h.update b.id _

/-- The loop of `endTurnRoutine` pays each participant once, and overflows
nowhere if each of the payments fits. -/
theorem Holds.paidAll {base l : List PriorityElem} {a : Nat → Int} (h : Holds base a l)
    (hids : (ids base).Nodup) (fastest : Int) {rest : List PriorityElem}
    (hrest : (ids rest).Nodup) :
    ∃ a', Holds base a' (paidAll fastest l rest) ∧
      (∀ b ∈ rest, a' b.id = a b.id + (b.speed + fastest)) ∧
      (∀ i, i ∉ ids rest → a' i = a i) ∧
      ((∀ b ∈ rest, P.fits (b.speed + fastest) = true ∧
          P.fits (a b.id + (b.speed + fastest)) = true) →
        rest.foldlM (payFirst P fastest) l = .ok (paidAll fastest l rest)) := by
  induction rest generalizing a l with
  | nil => exact ⟨a, h, by simp, fun _ _ => rfl, fun _ => rfl⟩
  | cons b rest ih =>
      obtain ⟨hb, hrest⟩ := List.nodup_cons.mp hrest
      obtain ⟨a', hholds, hpaid, hkept, hruns⟩ := ih (h.paid hids fastest b) hrest
      have hother {b' : PriorityElem} (hb' : b' ∈ rest) : b'.id ≠ b.id :=
        fun heq => hb (show b.id ∈ ids rest from heq ▸ id_mem hb')
      refine ⟨a', hholds, fun b' hb' => ?_, fun i hi => ?_, fun hfits => ?_⟩
      · rcases List.mem_cons.mp hb' with rfl | hb'
        · rw [hkept _ hb, Function.update_self]
        · rw [hpaid b' hb', Function.update_of_ne (hother hb')]
      · simp only [ids_cons, List.mem_cons, not_or] at hi
        rw [hkept i hi.2, Function.update_of_ne hi.1]
      · have hhead := hfits b List.mem_cons_self
        rw [List.foldlM_cons, payFirst_of_fits fun it hit hid => ?_]
        · refine hruns fun b' hb' => ?_
          rw [Function.update_of_ne (hother hb')]
          exact hfits b' (List.mem_cons_of_mem _ hb')
        · rw [h.speed_eq hit, hid]
          exact hhead

theorem Holds.endTurn {s s' : PriorityOrderList} {a : Nat → Int}
    (h : Holds s.baseSpeed a s.analyzedList) (hids : (ids s.baseSpeed).Nodup)
    (hlen : 1 < s.baseSpeed.length) (hend : endTurnRoutine P s = .ok s') :
    Holds s.baseSpeed (fun i => a i + wage s i) s'.analyzedList ∧
      s'.baseSpeed = s.baseSpeed ∧ s'.priorityList = s.priorityList.reverse ∧
      s'.currentPrio = s.currentPrio ∧ s'.currentTurn = P.uint (s.currentTurn + 1) := by
  rcases endTurnRoutine_cases hend with ⟨hle, -⟩ | ⟨-, l, hl, rfl⟩
  · omega
  · obtain ⟨a', hholds, hpaid, -⟩ := h.paidAll (P := P) hids s.getFastestBaseSpeed hids
    refine ⟨(hholds.perm hl).congr fun i hi => ?_, rfl, rfl, rfl, rfl⟩
    obtain ⟨b, hb, rfl⟩ := List.mem_map.mp hi
    rw [hpaid b hb, wage, speedOf_eq hids hb]

theorem Holds.endTurn_returns {s : PriorityOrderList} {a : Nat → Int}
    (h : Holds s.baseSpeed a s.analyzedList) (hids : (ids s.baseSpeed).Nodup)
    (hfits : ∀ i ∈ ids s.baseSpeed, P.fits (wage s i) = true ∧
      P.fits (a i + wage s i) = true) : ∃ s', endTurnRoutine P s = .ok s' := by
  obtain ⟨a', -, -, -, hruns⟩ := h.paidAll (P := P) hids s.getFastestBaseSpeed hids
  rw [endTurnRoutine]
  simp only
  split
  · exact ⟨_, rfl⟩
  · have hall : ∀ b ∈ s.baseSpeed, P.fits (b.speed + s.getFastestBaseSpeed) = true ∧
        P.fits (a b.id + (b.speed + s.getFastestBaseSpeed)) = true := fun b hb => by
      have := hfits b.id (id_mem hb)
      rwa [wage, speedOf_eq hids hb] at this
    exact ⟨_, congrArg (· >>= _) (hruns hall)⟩

end FyS.Arena.PriorityOrderList
