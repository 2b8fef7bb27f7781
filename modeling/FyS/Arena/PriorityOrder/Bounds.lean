import FyS.Arena.PriorityOrder.Turns

/-!
# Stored speeds stay bounded

Between two turns no stored speed exceeds nine times the fastest base speed,
for ever and for any number of participants, as long as sorting the base order
again leaves it as it is.  Where equal base speeds may change places from turn
to turn, the slowest participant and the one it pays change too, and the bound
is lost.
-/

namespace FyS.Arena.PriorityOrderList

open FyS.Library.Fuel FyS.Library.CreditRound

variable {P : Platform} {base : List PriorityElem} {F : Int}

/-- A base order that sorting keeps, with speeds from 1 to `F`, on a platform
whose `int` holds `20 * F`. -/
structure Roster (P : Platform) (base : List PriorityElem) (F : Int) : Prop where
  ne_nil : base ≠ []
  nodup : (ids base).Nodup
  sorted : P.sort.run base = base
  bounds : ∀ b ∈ base, 1 ≤ b.speed ∧ b.speed ≤ F
  fastest : ∃ b ∈ base, b.speed = F
  fits : ∀ v, 0 ≤ v → v ≤ 20 * F → P.fits v = true

namespace Roster

theorem ascending (h : Roster P base F) : Ascending base := h.sorted ▸ P.sort.ascending base

theorem pos (h : Roster P base F) : 1 ≤ F := by
  obtain ⟨b, hb, rfl⟩ := h.fastest
  exact (h.bounds b hb).1

theorem last_speed (h : Roster P base F) : (base.getLast h.ne_nil).speed = F := by
  obtain ⟨b, hb, hF⟩ := h.fastest
  have hle := (h.bounds _ (List.getLast_mem h.ne_nil)).2
  have hge := speed_le_last h.ascending h.ne_nil hb
  omega

theorem wage_eq (h : Roster P base F) {s : PriorityOrderList} (hs : s.baseSpeed = base)
    {b : PriorityElem} (hb : b ∈ base) : wage s b.id = b.speed + F := by
  rw [wage, hs, speedOf_eq h.nodup hb, getFastestBaseSpeed, hs,
    List.getLast?_eq_getLast_of_ne_nil h.ne_nil]
  exact congrArg (b.speed + ·) h.last_speed

theorem payroll (h : Roster P base F) (hlen : 1 < base.length) {s : PriorityOrderList}
    (hs : s.baseSpeed = base) : Table.Payroll (table base h.ne_nil) (wage s) F := by
  have hF := h.pos
  have hseat {i : Nat} (hi : i ∈ (table base h.ne_nil).seats) :
      ∃ b ∈ base, b.id = i ∧ wage s i = b.speed + F := by
    obtain ⟨b, hb, rfl⟩ := List.mem_map.mp (List.mem_toFinset.mp hi)
    exact ⟨b, hb, rfl, h.wage_eq hs hb⟩
  have hprev : (table base h.ne_nil).prev (table base h.ne_nil).closer =
      (base.getLast h.ne_nil).id := by
    obtain ⟨b, rest, rfl⟩ := List.exists_cons_of_ne_nil h.ne_nil
    exact neighbour_head
  refine ⟨fun i hi => ?_, fun i hi => ?_, ?_, ?_⟩
  · obtain ⟨b, hb, -, hw⟩ := hseat hi
    have := (h.bounds b hb).1
    omega
  · obtain ⟨b, hb, -, hw⟩ := hseat hi
    have := (h.bounds b hb).2
    omega
  · exact neighbour_ne h.nodup hlen (id_mem (List.head_mem h.ne_nil))
  · rw [hprev, h.wage_eq hs (List.getLast_mem h.ne_nil), h.last_speed]
    omega

theorem runs (h : Roster P base F) (hlen : 1 < base.length) {s : PriorityOrderList}
    (hs : s.baseSpeed = base) :
    Runs P (table base h.ne_nil) (wage s)
      (fun a => (table base h.ne_nil).Solvent a ∧
        ∀ i ∈ (table base h.ne_nil).seats, a i ≤ 9 * F)
      (table base h.ne_nil).funds where
  step a i ha hlead hne :=
    ⟨hlead.charge_solvent ha.1 hne, fun j hj =>
      (hlead.charge_bounds ha.1.nonneg (hlead.pos ha.1) hj).2.trans (ha.2 j hj)⟩
  lt a i ha hlead _ := hlead.funds_lt ha.1.nonneg (hlead.pos ha.1)
  fits a i ha hlead := by
    have hcharge := hlead.charge_bounds ha.1.nonneg (hlead.pos ha.1) hlead.1
    have hle := ha.2 i hlead.1
    have hF := h.pos
    rw [Table.charge_self] at hcharge
    exact h.fits _ hcharge.1 (by omega)
  pays a i ha hlead _ j hj := by
    have hcharge := hlead.charge_bounds ha.1.nonneg (hlead.pos ha.1) hj
    have hle := ha.2 j hj
    have hF := h.pos
    have hpos := (h.payroll hlen hs).pos j hj
    have hw := (h.payroll hlen hs).le j hj
    exact ⟨h.fits _ (by omega) (by omega), h.fits _ (by omega) (by omega)⟩

end Roster

/-! ## The invariant -/

structure Capped (base : List PriorityElem) (hbase : base ≠ []) (F : Int)
    (s : PriorityOrderList) : Prop where
  base_eq : s.baseSpeed = base
  credits : ∃ a, Holds base a s.analyzedList ∧ (∀ i ∈ ids base, 0 ≤ a i ∧ a i ≤ 9 * F) ∧
    (1 < base.length → Table.Bounded (table base hbase) F a)

theorem Capped.speed_bounds {hbase : base ≠ []} {s : PriorityOrderList}
    (h : Capped base hbase F s) {e : PriorityElem} (he : e ∈ s.analyzedList) :
    0 ≤ e.speed ∧ e.speed ≤ 9 * F := by
  obtain ⟨a, hholds, ha, -⟩ := h.credits
  rw [hholds.speed_eq he]
  exact ha _ (hholds.perm_ids.mem_iff.mp (id_mem he))

theorem Roster.capped_of_bounded (h : Roster P base F) {s : PriorityOrderList}
    (hs : s.baseSpeed = base) {a : Nat → Int} (hholds : Holds base a s.analyzedList)
    (ha : Table.Bounded (table base h.ne_nil) F a) : Capped base h.ne_nil F s :=
  ⟨hs, a, hholds, fun i hi => ⟨ha.solvent.nonneg i (List.mem_toFinset.mpr hi),
    ha.le i (List.mem_toFinset.mpr hi)⟩, fun _ => ha⟩

theorem Roster.bounded (h : Roster P base F) :
    Table.Bounded (table base h.ne_nil) F (speedOf base) := by
  have hF := h.pos
  have hspeed {i : Nat} (hi : i ∈ (table base h.ne_nil).seats) :
      1 ≤ speedOf base i ∧ speedOf base i ≤ F := by
    obtain ⟨b, hb, rfl⟩ := List.mem_map.mp (List.mem_toFinset.mp hi)
    rw [speedOf_eq h.nodup hb]
    exact h.bounds b hb
  have hcloser := hspeed (table base h.ne_nil).closer_mem
  refine ⟨⟨fun i hi => ?_, hcloser.1⟩, .inl ?_, fun i hi => ?_⟩
  · have := hspeed hi
    omega
  · omega
  · have := hspeed hi
    omega

theorem Roster.capped (h : Roster P base F) {s : PriorityOrderList} (hs : s.baseSpeed = base)
    (hanalyzed : s.analyzedList = base) : Capped base h.ne_nil F s :=
  h.capped_of_bounded hs (hanalyzed.symm ▸ holds_of_keys h.nodup (List.Perm.refl _)) h.bounded

/-- A refill of a started list is a turn of the table, after which the credits
are bounded again. -/
theorem Roster.refill_turn (h : Roster P base F) {s : PriorityOrderList}
    (hs : s.baseSpeed = base) (hlen : 1 < base.length) (hturn : s.currentTurn ≠ 0)
    {a : Nat → Int} (hholds : Holds base a s.analyzedList)
    (ha : Table.Bounded (table base h.ne_nil) F a) :
    ∃ t picks a', Refills P s t ∧ (table base h.ne_nil).Turn (wage s) a picks a' ∧
      t.baseSpeed = base ∧ Holds base a' t.analyzedList ∧
      Table.Bounded (table base h.ne_nil) F a' ∧
      ids t.priorityList = (ids s.priorityList ++ picks).reverse ∧
      t.currentTurn = P.uint (s.currentTurn + 1) := by
  subst hs
  have hsame : { s with baseSpeed := P.sort.run s.baseSpeed } = s := by
    rw [h.sorted]
  obtain ⟨t, fuel, hfuel⟩ := hholds.turn_returns h.nodup hlen h.ne_nil (h.runs hlen rfl)
    ⟨ha.solvent, ha.le⟩
  obtain ⟨picks, b, hturnOf⟩ := hholds.turnOf h.nodup hlen h.ne_nil hfuel
  have hplayed : (table s.baseSpeed h.ne_nil).Turn (wage s) a picks fun i => b i + wage s i :=
    ⟨b, hturnOf.round, fun _ _ => rfl⟩
  exact ⟨t, picks, _, (refills_iff h.ne_nil).mpr (.inr ⟨hturn, fuel, by rw [hsame]; exact hfuel⟩),
    hplayed, hturnOf.base, hturnOf.holds, hplayed.bounded (h.payroll hlen rfl) ha,
    hturnOf.priority, hturnOf.turn⟩

theorem Capped.refills (h : Roster P base F) {s : PriorityOrderList}
    (hs : Capped base h.ne_nil F s) :
    ∃ t, Refills P s t ∧ Capped base h.ne_nil F t ∧ t.priorityList ≠ [] := by
  obtain ⟨hbase, a, hholds, hbounds, hbounded⟩ := hs
  have hne : s.baseSpeed ≠ [] := hbase ▸ h.ne_nil
  by_cases hturn : s.currentTurn = 0
  · refine ⟨_, (refills_iff hne).mpr (.inl ⟨hturn, rfl⟩), h.capped ?_ ?_, ?_⟩
    · rw [hbase, h.sorted]
    · rw [hbase, h.sorted]
    · rw [hbase, h.sorted]
      exact h.ne_nil
  · by_cases hlen : 1 < base.length
    · obtain ⟨t, picks, a', hrefill, hplayed, hbaset, hholdst, hbounded', hpriority, -⟩ :=
        h.refill_turn hbase hlen hturn hholds (hbounded hlen)
      obtain ⟨b, hround, -⟩ := hplayed
      refine ⟨t, hrefill, h.capped_of_bounded hbaset hholdst hbounded', fun hnil => ?_⟩
      have hpicks : picks = [] ∧ ids s.priorityList = [] := by simpa [hnil] using hpriority
      exact List.not_mem_nil (hpicks.1 ▸ hround.closer_mem_picks)
    · -- a single participant
      obtain ⟨b, hb⟩ := List.length_eq_one_iff.mp
        (Nat.le_antisymm (Nat.not_lt.mp hlen) (List.length_pos_iff.mpr h.ne_nil))
      obtain ⟨e, he⟩ := List.length_eq_one_iff.mp
        ((hholds.length_eq).trans (by rw [hb]; rfl))
      have hid : e.id = b.id := by
        simpa [he, hb] using hholds.perm_ids
      refine ⟨_, refills_single (hbase.trans hb) he hid hturn,
        ⟨hbase, a, hholds, hbounds, fun hlt => absurd hlt hlen⟩, by simp⟩

theorem Capped.serves (h : Roster P base F) {s : PriorityOrderList}
    (hs : Capped base h.ne_nil F s) (k : Nat) :
    ∃ es t, es.length = k ∧ Serves P s es t ∧ Capped base h.ne_nil F t :=
  serves_forever (I := Capped base h.ne_nil F) (fun _ hs => hs.base_eq ▸ h.ne_nil)
    (fun _ _ _ hs _ => ⟨hs.base_eq, hs.credits⟩) (fun _ hs _ => hs.refills h) hs k

/-! ## From the constructor on -/

theorem roster_of_sorted {l : List PriorityElem} (hids : (ids l).Nodup)
    (hbounds : ∀ b ∈ l, 1 ≤ b.speed ∧ b.speed ≤ F) (hfastest : ∃ b ∈ l, b.speed = F)
    (hsort : (∀ l', Ascending l' → P.sort.run l' = l') ∨ (l.map (·.speed)).Nodup)
    (hfits : ∀ v, 0 ≤ v → v ≤ 20 * F → P.fits v = true) :
    Roster P (P.sort.run l) F := by
  have hperm := P.sort.perm l
  obtain ⟨b, hb, hF⟩ := hfastest
  refine ⟨List.ne_nil_of_mem (hperm.mem_iff.mpr hb), (ids_perm hperm).nodup_iff.mpr hids, ?_,
    fun b hb => hbounds b (hperm.mem_iff.mp hb), ⟨b, hperm.mem_iff.mpr hb, hF⟩, hfits⟩
  rcases hsort with hkeep | hdistinct
  · exact hkeep _ (P.sort.ascending l)
  · refine List.Perm.eq_of_pairwise (fun a b ha hb hab hba => ?_) (P.sort.ascending _)
      (P.sort.ascending l) (P.sort.perm _)
    exact List.inj_on_of_nodup_map hdistinct (hperm.mem_iff.mp ((P.sort.perm _).mem_iff.mp ha))
      (hperm.mem_iff.mp hb) (Int.le_antisymm hab hba)

/-- From participants with distinct ids and base speeds between 1 and `F`, if
`std::sort` keeps ascending lists or the speeds are distinct, every number of
calls of `getNext` leaves the stored speeds between 0 and `20 * F`; and a 32 bit
`int` is never left when it holds `20 * F`. -/
theorem stored_speeds_bounded (sort : StdSort) {l : List PriorityElem} {F : Int}
    (hids : (ids l).Nodup) (hbounds : ∀ b ∈ l, 1 ≤ b.speed ∧ b.speed ≤ F)
    (hfastest : ∃ b ∈ l, b.speed = F)
    (hsort : (∀ l', Ascending l' → sort.run l' = l') ∨ (l.map (·.speed)).Nodup) :
    (∀ s, Returns (fun fuel => ofBaseSpeed (.unbounded sort) fuel l) s → ∀ k, ∃ es t,
        es.length = k ∧ Serves (.unbounded sort) s es t ∧
          ∀ e ∈ t.analyzedList, 0 ≤ e.speed ∧ e.speed ≤ 20 * F) ∧
      (20 * F ≤ 2147483647 →
        ∀ s, Returns (fun fuel => ofBaseSpeed (.int32 sort) fuel l) s → ∀ k, ∃ es t,
          es.length = k ∧ Serves (.int32 sort) s es t ∧
            ∀ e ∈ t.analyzedList, 0 ≤ e.speed ∧ e.speed ≤ 20 * F) := by
  have from_start (P : Platform) (hP : P.sort = sort)
      (hfits : ∀ v, 0 ≤ v → v ≤ 20 * F → P.fits v = true) (s : PriorityOrderList)
      (hs : Returns (fun fuel => ofBaseSpeed P fuel l) s) (k : Nat) : ∃ es t,
        es.length = k ∧ Serves P s es t ∧
          ∀ e ∈ t.analyzedList, 0 ≤ e.speed ∧ e.speed ≤ 20 * F := by
    subst hP
    have hroster := roster_of_sorted hids hbounds hfastest hsort hfits
    obtain ⟨fuel, hfuel⟩ := hs
    obtain rfl : s = initial P l := Except.ok.inj (hfuel.symm.trans (ofBaseSpeed_eq fuel l))
    obtain ⟨es, t, hlen, hserves, hcapped⟩ :=
      (hroster.capped (s := initial P l) rfl rfl).serves hroster k
    refine ⟨es, t, hlen, hserves, fun e he => ?_⟩
    have := hcapped.speed_bounds he
    omega
  refine ⟨from_start _ rfl fun _ _ _ => rfl, fun hF => from_start _ rfl fun v hv hvF => ?_⟩
  exact decide_eq_true (by omega)

theorem stored_speeds_bounded_two :
    ∃ es t, es.length = 100 ∧
      Serves (.int32 insertionSort) (initial (.int32 insertionSort) [⟨1, 3, false⟩, ⟨2, 5, true⟩])
        es t ∧ ∀ e ∈ t.analyzedList, 0 ≤ e.speed ∧ e.speed ≤ 100 :=
  (stored_speeds_bounded insertionSort (l := [⟨1, 3, false⟩, ⟨2, 5, true⟩]) (F := 5) (by decide)
    (by decide) (by decide) (.inr (by decide))).2 (by decide) _ ⟨0, ofBaseSpeed_eq 0 _⟩ 100

/-! ## Ties that change places -/

def frontLastSort : StdSort :=
  shuffledSort (fun l => l.drop 1 ++ l.take 1) fun l =>
    List.perm_append_comm.trans (List.Perm.of_eq (List.take_append_drop 1 l))

def equals (n : Nat) : List PriorityElem := (List.range n).map fun i => ⟨i, 1, false⟩

/-- The stored speeds after so many calls of `getNext` have passed 20. -/
def highAfter (n calls fuel : Nat) : Bool :=
  match serve (.unbounded frontLastSort) fuel calls
    (initial (.unbounded frontLastSort) (equals n)) with
  | .ok r => r.2.analyzedList.any (20 < ·.speed)
  | .error _ => false

/-- With ties in any order the bound fails: 28 participants of speed 1. -/
theorem stored_speeds_unbounded_under_ties :
    ¬ ∀ (sort : StdSort) (l : List PriorityElem) (F : Int) (s : PriorityOrderList),
      (ids l).Nodup → (∀ b ∈ l, 1 ≤ b.speed ∧ b.speed ≤ F) → (∃ b ∈ l, b.speed = F) →
        Returns (fun fuel => ofBaseSpeed (.unbounded sort) fuel l) s →
          ∀ es t, Serves (.unbounded sort) s es t →
            ∀ e ∈ t.analyzedList, 0 ≤ e.speed ∧ e.speed ≤ 20 * F := by
  intro h
  have hhigh : highAfter 28 86 40 = true := by decide +kernel
  unfold highAfter at hhigh
  split at hhigh
  · rename_i r hr
    obtain ⟨e, he, hspeed⟩ := List.any_eq_true.mp hhigh
    have hle := (h frontLastSort (equals 28) 1 _ (by decide) (by decide) ⟨⟨0, 1, false⟩, by decide⟩
      ⟨0, ofBaseSpeed_eq 0 _⟩ r.1 r.2 (serves_of_serve hr) e he).2
    have : 20 < e.speed := by simpa using hspeed
    omega
  · exact nomatch hhigh

end FyS.Arena.PriorityOrderList
