import FyS.Arena.PriorityOrder.Bounds
import FyS.Arena.PriorityOrder.Construction
import FyS.Arena.PriorityOrder.Starvation

/-!
# How long a participant can wait

Stored speeds that stay bounded bound the batches, and the batches that pass a participant
over.  So there is a number of calls of `getNext` in which everybody is served, whenever one
starts to count.
-/

namespace FyS.Arena.PriorityOrderList

open FyS.Library.Fuel FyS.Library.CreditRound

variable {P : Platform} {base : List PriorityElem} {F : Int}

def batchBound (n : Nat) (F : Int) : Nat := n * (9 * F).toNat

/-- No participant waits for more calls. -/
def waitBound (n : Nat) (F : Int) : Nat := batchBound n F * (n * (9 * F + 1).toNat + 2)

structure Credits (base : List PriorityElem) (hbase : base ≠ []) (F : Int) (a : Nat → Int)
    (s : PriorityOrderList) : Prop where
  base_eq : s.baseSpeed = base
  holds : Holds base a s.analyzedList
  le : ∀ i ∈ ids base, 0 ≤ a i ∧ a i ≤ 9 * F
  bounded : 1 < base.length → Table.Bounded (table base hbase) F a

theorem wage_of_baseSpeed {s t : PriorityOrderList} (h : s.baseSpeed = t.baseSpeed) :
    wage s = wage t := by
  funext id
  rw [wage, wage, getFastestBaseSpeed, getFastestBaseSpeed, h]

theorem card_seats (h : Roster P base F) : (table base h.ne_nil).seats.card = base.length := by
  show (ids base).toFinset.card = base.length
  rw [List.toFinset_card_of_nodup h.nodup, ids, List.length_map]

theorem length_le_batchBound (h : Roster P base F) : base.length ≤ batchBound base.length F := by
  have hF := h.pos
  have hone : 1 ≤ (9 * F).toNat := by omega
  calc base.length = base.length * 1 := (Nat.mul_one _).symm
    _ ≤ base.length * (9 * F).toNat := Nat.mul_le_mul_left _ hone

namespace Credits

variable {a : Nat → Int} {s u : PriorityOrderList}

theorem backlog_le (h : Roster P base F) (hs : Credits base h.ne_nil F a s) {p : Nat}
    (hp : p ∈ ids base) : Table.backlog (table base h.ne_nil).seats (wage s) p a ≤
      base.length * (9 * F + 1).toNat := by
  rw [← card_seats h]
  apply Table.backlog_le
  intro q hq
  have hq := hs.le q (List.mem_toFinset.mp hq)
  have hp := hs.le p hp
  omega

/-- A batch is not longer than the bound, and who is not in it has come closer. -/
theorem refills (h : Roster P base F) (hs : Credits base h.ne_nil F a s)
    (hprio : s.priorityList = []) (hrefill : Refills P s u) :
    u.priorityList ≠ [] ∧ u.priorityList.length ≤ batchBound base.length F ∧
      ∃ a', Credits base h.ne_nil F a' u ∧ ∀ p ∈ ids base, p ∈ ids u.priorityList ∨
        Table.backlog (table base h.ne_nil).seats (wage u) p a' <
          Table.backlog (table base h.ne_nil).seats (wage s) p a := by
  have hne : s.baseSpeed ≠ [] := hs.base_eq ▸ h.ne_nil
  have hunique {v : PriorityOrderList} (hv : Refills P s v) : u = v :=
    hrefill.unique (sortBaseAndCalculatePriority_stable s) hv
  by_cases hturn : s.currentTurn = 0
  · -- the first batch is the base order
    have hfirst := hunique ((refills_iff hne).mpr (.inl ⟨hturn, rfl⟩))
    rw [hs.base_eq, h.sorted] at hfirst
    subst hfirst
    have hbounded := h.bounded
    refine ⟨h.ne_nil, length_le_batchBound h, speedOf base,
      ⟨rfl, holds_of_keys h.nodup (List.Perm.refl _), ?_, fun _ => hbounded⟩, fun p hp => .inl hp⟩
    intro i hi
    have hi := List.mem_toFinset.mpr hi
    exact ⟨hbounded.solvent.nonneg i hi, hbounded.le i hi⟩
  · by_cases hlen : 1 < base.length
    · have hbounded := hs.bounded hlen
      obtain ⟨t, picks, a', hrefill', hplayed, hbaset, hholds, hbounded', hpriority, -⟩ :=
        h.refill_turn hs.base_eq hlen hturn hs.holds hbounded
      obtain rfl := hunique hrefill'
      rw [hprio, ids_nil, List.nil_append] at hpriority
      have hlength : u.priorityList.length = picks.length := by
        have hids := congrArg List.length hpriority
        rwa [ids, List.length_map, List.length_reverse] at hids
      obtain ⟨b, hround, -⟩ := id hplayed
      refine ⟨?_, ?_, a', ⟨hbaset, hholds, ?_, fun _ => hbounded'⟩, ?_⟩
      · rw [← List.length_pos_iff, hlength]
        exact List.length_pos_of_mem hround.closer_mem_picks
      · rw [hlength, batchBound, ← card_seats h]
        exact (hround.length_le_funds hbounded.solvent).trans (Table.funds_le hbounded.le)
      · intro i hi
        have hi := List.mem_toFinset.mpr hi
        exact ⟨hbounded'.solvent.nonneg i hi, hbounded'.le i hi⟩
      · intro p hp
        by_cases hpicked : p ∈ picks
        · left
          rw [hpriority, List.mem_reverse]
          exact hpicked
        · right
          rw [wage_of_baseSpeed (hbaset.trans hs.base_eq.symm)]
          refine hplayed.backlog_lt hbounded.solvent (List.mem_toFinset.mpr hp) hpicked ?_
            (h.payroll hlen hs.base_eq).prev_ne
          obtain ⟨hbase, -⟩ := hs
          subst hbase
          exact wage_closer_le h.nodup h.ascending h.ne_nil hp
    · obtain ⟨b, hb⟩ := List.length_eq_one_iff.mp
        (Nat.le_antisymm (Nat.not_lt.mp hlen) (List.length_pos_iff.mpr h.ne_nil))
      obtain ⟨e, he⟩ := List.length_eq_one_iff.mp (hs.holds.length_eq.trans (by rw [hb]; rfl))
      have hid : e.id = b.id := by
        simpa [he, hb] using hs.holds.perm_ids
      obtain rfl := hunique (refills_single (hs.base_eq.trans hb) he hid hturn)
      have hlist : s.priorityList ++ [e] = [e] := by rw [hprio, List.nil_append]
      refine ⟨?_, ?_, a, ⟨hs.base_eq, hs.holds, hs.le, hs.bounded⟩, ?_⟩
      · simp
      · show (s.priorityList ++ [e]).length ≤ _
        rw [hlist]
        have hpos := List.length_pos_iff.mpr h.ne_nil
        exact (Nat.succ_le_of_lt hpos).trans (length_le_batchBound h)
      · intro p hp
        left
        show p ∈ ids (s.priorityList ++ [e])
        rw [hb] at hp
        rw [hlist]
        simpa [hid] using hp

end Credits

/-! ## Single calls -/

theorem gives_cases {s t : PriorityOrderList} {e : PriorityElem} (hbase : s.baseSpeed ≠ [])
    (hrefills : ∀ u, s.priorityList = [] → Refills P s u →
      u.baseSpeed ≠ [] ∧ u.priorityList ≠ [])
    (h : Gives P s e t) :
    ∃ u l, (u = s ∨ s.priorityList = [] ∧ Refills P s u) ∧ u.priorityList = l ++ [e] ∧
      t = u.served e l := by
  have hback {u : PriorityOrderList} (hu : u.baseSpeed ≠ []) (hprio : u.priorityList ≠ [])
      (hgives : Gives P u e t) : ∃ l, u.priorityList = l ++ [e] ∧ t = u.served e l := by
    obtain ⟨l, e', hl⟩ := List.eq_nil_or_concat' u.priorityList |>.resolve_left hprio
    obtain ⟨rfl, rfl⟩ := (gives_of_priority hu hl).mp hgives
    exact ⟨l, hl, rfl⟩
  by_cases hprio : s.priorityList = []
  · obtain ⟨u, hrefill, hgives⟩ := (gives_of_refill hbase hprio).mp h
    obtain ⟨hu, hne⟩ := hrefills u hprio hrefill
    obtain ⟨l, hl, ht⟩ := hback hu hne hgives
    exact ⟨u, l, .inr ⟨hprio, hrefill⟩, hl, ht⟩
  · obtain ⟨l, hl, ht⟩ := hback hbase hprio h
    exact ⟨s, l, .inl rfl, hl, ht⟩

def Queued (h : Roster P base F) (s : PriorityOrderList) : Prop :=
  s.priorityList.length ≤ batchBound base.length F ∧ ∃ a, Credits base h.ne_nil F a s

def Waits (h : Roster P base F) (p m : Nat) (s : PriorityOrderList) : Prop :=
  ∃ a, Credits base h.ne_nil F a s ∧ (p ∈ ids s.priorityList ∧ s.priorityList.length ≤ m ∨
    s.priorityList.length + batchBound base.length F *
      (Table.backlog (table base h.ne_nil).seats (wage s) p a + 1) ≤ m)

section

variable {h : Roster P base F} {p m : Nat} {s t u : PriorityOrderList} {e : PriorityElem}

theorem Credits.served {hbase : base ≠ []} {a : Nat → Int} (hs : Credits base hbase F a s)
    (l : List PriorityElem) : Credits base hbase F a (s.served e l) :=
  ⟨hs.base_eq, hs.holds, hs.le, hs.bounded⟩

theorem Credits.gives_cases (h : Roster P base F) {a : Nat → Int}
    (hs : Credits base h.ne_nil F a s) (hgives : Gives P s e t) :
    ∃ u l, (u = s ∨ s.priorityList = [] ∧ Refills P s u) ∧ u.priorityList = l ++ [e] ∧
      t = u.served e l := by
  have hbase : s.baseSpeed ≠ [] := hs.base_eq ▸ h.ne_nil
  refine PriorityOrderList.gives_cases hbase ?_ hgives
  intro u hprio hrefill
  exact ⟨hrefill.ne_nil hbase, (hs.refills h hprio hrefill).1⟩

theorem Queued.gives (hs : Queued h s) (hgives : Gives P s e t) : Queued h t := by
  obtain ⟨hlength, a, hcredits⟩ := hs
  obtain ⟨u, l, hu, hl, rfl⟩ := hcredits.gives_cases h hgives
  have hqueued : Queued h u := by
    rcases hu with rfl | ⟨hprio, hrefill⟩
    · exact ⟨hlength, a, hcredits⟩
    · obtain ⟨-, hbatch, a', hcredits', -⟩ := hcredits.refills h hprio hrefill
      exact ⟨hbatch, a', hcredits'⟩
  obtain ⟨hrest, a', hcredits'⟩ := hqueued
  rw [hl, List.length_append] at hrest
  exact ⟨Nat.le_of_add_right_le hrest, a', hcredits'.served l⟩

theorem Queued.serves {es : List PriorityElem} (hserves : Serves P s es t) (hs : Queued h s) :
    Queued h t := by
  induction hserves with
  | nil => exact hs
  | cons head _ ih => exact ih (hs.gives head)

theorem Queued.waits (hs : Queued h s) (hp : p ∈ ids base) :
    Waits h p (waitBound base.length F) s := by
  obtain ⟨hlength, a, hcredits⟩ := hs
  refine ⟨a, hcredits, .inr ?_⟩
  have hbacklog := hcredits.backlog_le h hp
  calc s.priorityList.length + batchBound base.length F *
        (Table.backlog (table base h.ne_nil).seats (wage s) p a + 1)
      ≤ batchBound base.length F + batchBound base.length F *
        (base.length * (9 * F + 1).toNat + 1) :=
        Nat.add_le_add hlength (Nat.mul_le_mul_left _ (Nat.succ_le_succ hbacklog))
    _ = waitBound base.length F := by rw [waitBound, Nat.mul_succ _ (_ + 1), Nat.add_comm]

/-- A refill brings nobody further away. -/
theorem Waits.refills (hs : Waits h p m s) (hp : p ∈ ids base) (hprio : s.priorityList = [])
    (hrefill : Refills P s u) : Waits h p m u := by
  obtain ⟨a, hcredits, hwaits⟩ := hs
  obtain ⟨-, hbatch, a', hcredits', hcloser⟩ := hcredits.refills h hprio hrefill
  rw [hprio, ids_nil, List.length_nil, Nat.zero_add] at hwaits
  have hwaits : batchBound base.length F *
      (Table.backlog (table base h.ne_nil).seats (wage s) p a + 1) ≤ m :=
    hwaits.resolve_left fun hmem => List.not_mem_nil hmem.1
  rw [Nat.mul_succ] at hwaits
  refine ⟨a', hcredits', ?_⟩
  rcases hcloser p hp with hmem | hlt
  · exact .inl ⟨hmem, hbatch.trans (Nat.le_of_add_left_le hwaits)⟩
  · right
    have hmul := Nat.mul_le_mul_left (batchBound base.length F) (Nat.succ_le_of_lt hlt)
    rw [Nat.succ_eq_add_one] at hmul
    omega

theorem Waits.gives (hs : Waits h p m s) (hp : p ∈ ids base) (hgives : Gives P s e t)
    (hother : e.id ≠ p) : ∃ n, m = n + 1 ∧ Waits h p n t := by
  obtain ⟨u, l, hu, hl, rfl⟩ : ∃ u l, (u = s ∨ s.priorityList = [] ∧ Refills P s u) ∧
      u.priorityList = l ++ [e] ∧ t = u.served e l := by
    obtain ⟨a, hcredits, -⟩ := hs
    exact hcredits.gives_cases h hgives
  have hwaits : Waits h p m u := by
    rcases hu with rfl | ⟨hprio, hrefill⟩
    · exact hs
    · exact hs.refills hp hprio hrefill
  obtain ⟨a, hcredits, hm⟩ := hwaits
  rw [hl, List.length_append, List.length_singleton] at hm
  obtain ⟨n, rfl⟩ : ∃ n, m = n + 1 := Nat.exists_eq_add_one.mpr (by omega)
  refine ⟨n, rfl, a, hcredits.served l, ?_⟩
  rcases hm with ⟨hmem, hle⟩ | hle
  · left
    rw [ids_append, List.mem_append, ids_cons, ids_nil, List.mem_singleton] at hmem
    exact ⟨hmem.resolve_right (Ne.symm hother), Nat.le_of_succ_le_succ hle⟩
  · right
    show l.length + batchBound base.length F *
      (Table.backlog (table base h.ne_nil).seats (wage u) p a + 1) ≤ n
    omega

theorem Waits.serves {es : List PriorityElem} (hserves : Serves P s es t) (hs : Waits h p m s)
    (hp : p ∈ ids base) (hnever : p ∉ ids es) : es.length ≤ m := by
  induction hserves generalizing m with
  | nil => exact Nat.zero_le _
  | cons head _ ih =>
      rw [ids_cons, List.mem_cons, not_or] at hnever
      obtain ⟨n, rfl, hn⟩ := hs.gives hp head (Ne.symm hnever.1)
      exact Nat.succ_le_succ (ih hn hnever.2)

theorem Queued.everybody_served {es : List PriorityElem} (hs : Queued h s)
    (hserves : Serves P s es t) (hlong : waitBound base.length F < es.length)
    (hp : p ∈ ids base) : p ∈ ids es := by
  by_contra hnever
  exact absurd hlong (Nat.not_lt.mpr ((hs.waits hp).serves hserves hp hnever))

end

/-! ## Lists that were not played -/

theorem Roster.queued_unplayed (h : Roster P base F) (turn : Nat) :
    Queued h (unplayed base turn) := by
  have hbounded := h.bounded
  refine ⟨length_le_batchBound h, speedOf base, rfl, holds_of_keys h.nodup (List.Perm.refl _), ?_,
    fun _ => hbounded⟩
  intro i hi
  have hi := List.mem_toFinset.mpr hi
  exact ⟨hbounded.solvent.nonneg i hi, hbounded.le i hi⟩

theorem sort_run_of_ascending (hasc : Ascending base)
    (hsort : (∀ l, Ascending l → P.sort.run l = l) ∨ (base.map (·.speed)).Nodup) :
    P.sort.run base = base := by
  rcases hsort with hkeep | hdistinct
  · exact hkeep base hasc
  · refine List.Perm.eq_of_pairwise ?_ (P.sort.ascending base) hasc (P.sort.perm base)
    intro b c hb hc hbc hcb
    exact List.inj_on_of_nodup_map hdistinct ((P.sort.perm base).mem_iff.mp hb) hc
      (Int.le_antisymm hbc hcb)

theorem roster_of_perm {l : List PriorityElem} (hperm : base.Perm l) (hasc : Ascending base)
    (hids : (ids l).Nodup) (hbounds : ∀ b ∈ l, 1 ≤ b.speed ∧ b.speed ≤ F)
    (hfastest : ∃ b ∈ l, b.speed = F)
    (hsort : (∀ l', Ascending l' → P.sort.run l' = l') ∨ (l.map (·.speed)).Nodup)
    (hfits : ∀ v, 0 ≤ v → v ≤ 20 * F → P.fits v = true) : Roster P base F := by
  obtain ⟨b, hb, hF⟩ := hfastest
  refine ⟨List.ne_nil_of_mem (hperm.mem_iff.mpr hb), (ids_perm hperm).nodup_iff.mpr hids, ?_,
    fun b hb => hbounds b (hperm.mem_iff.mp hb), ⟨b, hperm.mem_iff.mpr hb, hF⟩, hfits⟩
  exact sort_run_of_ascending hasc (hsort.imp_right (hperm.map (·.speed)).nodup_iff.mpr)

/-- From participants with distinct ids and base speeds between 1 and `F`, at once or one by
one, if `std::sort` keeps ascending lists or the speeds are distinct, and `int` holds `20 * F`:
whenever one starts to count, more calls of `getNext` than the bound serve every participant. -/
theorem everybody_within_bound {l : List PriorityElem} (hids : (ids l).Nodup)
    (hbounds : ∀ b ∈ l, 1 ≤ b.speed ∧ b.speed ≤ F) (hfastest : ∃ b ∈ l, b.speed = F)
    (hsort : (∀ l', Ascending l' → P.sort.run l' = l') ∨ (l.map (·.speed)).Nodup)
    (hfits : ∀ v, 0 ≤ v → v ≤ 20 * F → P.fits v = true) {s t u : PriorityOrderList}
    (hs : Built P l s) {before es : List PriorityElem} (hbefore : Serves P s before t)
    (hes : Serves P t es u) (hlong : waitBound l.length F < es.length) :
    ∀ p ∈ l, p.id ∈ ids es := by
  intro p hp
  have hkeys : (keys l).Nodup := by
    refine List.Nodup.of_map Prod.fst ?_
    rw [← ids_eq_map_keys]
    exact hids
  obtain ⟨base, turn, hperm, hasc, rfl⟩ := hs.eq_unplayed hkeys
  have hroster := roster_of_perm hperm hasc hids hbounds hfastest hsort hfits
  rw [← hperm.length_eq] at hlong
  have hmem : p.id ∈ ids base := (ids_perm hperm).mem_iff.mpr (id_mem hp)
  exact ((hroster.queued_unplayed turn).serves hbefore).everybody_served hes hlong hmem

theorem everybody_within_bound_two : ∃ es u, es.length = 1441 ∧
    Serves (.int32 insertionSort) (initial (.int32 insertionSort) [⟨1, 1, false⟩, ⟨2, 2, true⟩])
      es u ∧ ∀ p ∈ [(⟨1, 1, false⟩ : PriorityElem), ⟨2, 2, true⟩], p.id ∈ ids es := by
  have hids : (ids [⟨1, 1, false⟩, ⟨2, 2, true⟩]).Nodup := by decide
  have hsort : ([⟨1, 1, false⟩, ⟨2, 2, true⟩].map PriorityElem.speed).Nodup := by decide
  have hfits : ∀ v, 0 ≤ v → v ≤ 20 * 2 → (Platform.int32 insertionSort).fits v = true := by
    intro v hlow hhigh
    exact decide_eq_true (by omega)
  have hroster : Roster (.int32 insertionSort) [⟨1, 1, false⟩, ⟨2, 2, true⟩] 2 :=
    roster_of_sorted hids (by decide) (by decide) (.inr hsort) hfits
  obtain ⟨es, u, hlength, hserves, -⟩ := (hroster.capped
    (s := initial (.int32 insertionSort) [⟨1, 1, false⟩, ⟨2, 2, true⟩]) rfl rfl).serves hroster 1441
  refine ⟨es, u, hlength, hserves, everybody_within_bound hids (by decide) (by decide) (.inr hsort)
    hfits (.ofBaseSpeed ⟨0, ofBaseSpeed_eq 0 _⟩) .nil hserves ?_⟩
  rw [hlength]
  decide

end FyS.Arena.PriorityOrderList
