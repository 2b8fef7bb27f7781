import FyS.Arena.PriorityOrder.Construction
import FyS.Arena.PriorityOrder.Turns

/-!
# When the recursion of `calculatePriority` ends

With base speeds of at least 1 every turn ends, and so it does when a single
participant or two with one positive base speed take part.  In every other
list some order of the ties puts a participant next to one in debt: picking it
makes it richer, and the slowest participant is never reached.
-/

namespace FyS.Arena.PriorityOrderList

open FyS.Library.Fuel FyS.Library.CreditRound

variable {P : Platform}

/-! ## Lists that serve for ever -/

theorem alwaysServes_of_empty {s : PriorityOrderList} (h : s.baseSpeed = []) :
    AlwaysServes P s := by
  intro k
  induction k with
  | zero => exact ⟨[], s, rfl, .nil⟩
  | succ k ih =>
      obtain ⟨es, t, hlen, hserves⟩ := ih
      exact ⟨⟨0, 0, false⟩ :: es, t, by simp [hlen],
        .cons ((gives_of_empty h).mpr ⟨rfl, rfl⟩) hserves⟩

theorem InStep.alwaysServes (hP : ∀ v, P.fits v = true) {s : PriorityOrderList} (h : InStep s)
    (hbase : s.baseSpeed ≠ []) : AlwaysServes P s := by
  refine alwaysServes_of_invariant (I := fun s => InStep s ∧ s.baseSpeed ≠ []) (fun _ hs => hs.2)
    (fun s e l hs hl => ?_) (fun s hs _ => ?_) ⟨h, hbase⟩
  · exact ⟨hs.1.served hl, hs.2⟩
  · obtain ⟨t, hrefill, ht, -, hne⟩ := hs.1.refills hP hs.2
    exact ⟨t, hrefill, ⟨ht, hrefill.ne_nil hs.2⟩, hne⟩

def Alone (s : PriorityOrderList) : Prop :=
  ∃ b e, s.baseSpeed = [b] ∧ s.analyzedList = [e] ∧ e.id = b.id

theorem Alone.alwaysServes {s : PriorityOrderList} (h : Alone s) : AlwaysServes P s := by
  have hne (s : PriorityOrderList) (hs : Alone s) : s.baseSpeed ≠ [] := by
    obtain ⟨b, -, hb, -⟩ := hs
    simp [hb]
  refine alwaysServes_of_invariant (I := Alone) hne (fun _ _ _ hs _ => hs)
    (fun s hs _ => ?_) h
  have hbase := hne s hs
  obtain ⟨b, e, hb, he, hid⟩ := hs
  have hsort : P.sort.run s.baseSpeed = [b] := by
    rw [hb]
    exact List.perm_singleton.mp (P.sort.perm [b])
  by_cases hturn : s.currentTurn = 0
  · exact ⟨_, (refills_iff hbase).mpr (.inl ⟨hturn, rfl⟩), ⟨b, b, hsort, hsort, rfl⟩,
      by simp [hsort]⟩
  · exact ⟨_, refills_single hb he hid hturn, ⟨b, e, hb, he, hid⟩, by simp⟩

/-! ### Two participants, one of base speed 0 -/

def Paired (x y : PriorityElem) (s : PriorityOrderList) : Prop :=
  s.baseSpeed = [x, y] ∧ ∃ a, Holds [x, y] a s.analyzedList ∧ 0 ≤ a x.id ∧ 1 ≤ a y.id

section Pair

variable {x y : PriorityElem} {hne : [x, y] ≠ []} {a : Nat → Int}

theorem pair_prev (hxy : x.id ≠ y.id) : (table [x, y] hne).prev x.id = y.id ∧
    (table [x, y] hne).prev y.id = x.id := by
  simp [table, neighbour, neighbourFrom, hxy]

theorem pair_seats {i : Nat} : i ∈ (table [x, y] hne).seats ↔ i = x.id ∨ i = y.id := by
  simp [table]

/-- Where the credits of the pair stand in the middle of a turn: `v` is what
the slower one holds until it is picked. -/
def PairMidTurn (x y : PriorityElem) (v : Int) (a : Nat → Int) : Prop :=
  a x.id = v ∧ -1 ≤ a y.id ∧ (1 ≤ v → 0 ≤ a y.id)

theorem pair_step (hxy : x.id ≠ y.id) {v : Int} (hv : 0 ≤ v) {i : Nat}
    (ha : PairMidTurn x y v a) (hlead : (table [x, y] hne).Leads a i)
    (hi : i ≠ (table [x, y] hne).closer) :
    PairMidTurn x y v ((table [x, y] hne).charge a i) ∧
      ((table [x, y] hne).charge a i y.id + 1).toNat < (a y.id + 1).toNat := by
  obtain rfl : i = y.id := (pair_seats.mp hlead.1).resolve_left hi
  obtain ⟨hx, hy, hsolvent⟩ := ha
  have hle := hlead.2 x.id (pair_seats.mpr (.inl rfl))
  have hcharge := Table.charge_self (table [x, y] hne) a y.id
  have hkeep := Table.charge_of_ne (table [x, y] hne) a hxy
  rw [(pair_prev hxy).2] at hcharge
  have htoll := toll_pos (hx ▸ hv)
  have htoll' : toll (a x.id) ≤ max 1 (a x.id) := by
    unfold toll
    split <;> omega
  refine ⟨⟨hkeep.trans hx, ?_, ?_⟩, ?_⟩ <;> omega

theorem pair_after (hxy : x.id ≠ y.id) {v : Int} (hv : 0 ≤ v) {picks : List Nat} {b : Nat → Int}
    (ha : PairMidTurn x y v a) (hround : (table [x, y] hne).Round a picks b) :
    -1 ≤ b x.id ∧ (1 ≤ v → 0 ≤ b x.id) ∧ -1 ≤ b y.id := by
  obtain ⟨c, ⟨hx, hy, hsolvent⟩, hlead, rfl⟩ := hround.before_close
    (fun a i ha hlead hi => (pair_step hxy hv ha hlead hi).1) ha
  have hcloser : (table [x, y] hne).closer = x.id := rfl
  rw [hcloser] at hlead ⊢
  have hle := hlead.2 y.id (pair_seats.mpr (.inr rfl))
  have hcharge := Table.charge_self (table [x, y] hne) c x.id
  have hkeep := Table.charge_of_ne (table [x, y] hne) c (Ne.symm hxy)
  rw [(pair_prev hxy).1] at hcharge
  have htoll : toll (c y.id) ≤ max 1 (c y.id) := by
    unfold toll
    split <;> omega
  refine ⟨?_, fun hpos => ?_, ?_⟩ <;> omega

end Pair

/-- A pair sorts in one way only. -/
theorem sort_pair {x y : PriorityElem} (hlt : x.speed < y.speed) :
    P.sort.run [x, y] = [x, y] := by
  refine List.Perm.eq_of_pairwise (fun b b' hb hb' hle hge => ?_) (P.sort.ascending _)
    (by simpa using hlt.le) (P.sort.perm _)
  have hmem := (P.sort.perm _).mem_iff.mp hb
  simp only [List.mem_cons, List.not_mem_nil, or_false] at hmem hb'
  rcases hmem with rfl | rfl <;> rcases hb' with rfl | rfl <;> first | rfl | omega

theorem Paired.of_base {x y : PriorityElem} (hxy : x.id ≠ y.id) (hx : x.speed = 0)
    (hy : 1 ≤ y.speed) {s : PriorityOrderList} (hbase : s.baseSpeed = [x, y])
    (hanalyzed : s.analyzedList = [x, y]) : Paired x y s := by
  have hids : (ids [x, y]).Nodup := by simpa using hxy
  refine ⟨hbase, speedOf [x, y], ?_, ?_, ?_⟩
  · rw [hanalyzed]
    exact holds_of_keys hids (List.Perm.refl _)
  · rw [speedOf_eq hids (by simp), hx]
  · rw [speedOf_eq hids (by simp)]
    exact hy

theorem pair_wages {x y : PriorityElem} (hxy : x.id ≠ y.id) {s : PriorityOrderList}
    (hbase : s.baseSpeed = [x, y]) :
    wage s x.id = x.speed + y.speed ∧ wage s y.id = y.speed + y.speed := by
  have hids : (ids [x, y]).Nodup := by simpa using hxy
  have hfastest : s.getFastestBaseSpeed = y.speed := by simp [getFastestBaseSpeed, hbase]
  constructor <;> rw [wage, hfastest, hbase, speedOf_eq hids (by simp)]

theorem Paired.turn (hP : ∀ v, P.fits v = true) {x y : PriorityElem} (hxy : x.id ≠ y.id)
    (hx : x.speed = 0) (hy : 1 ≤ y.speed) {s : PriorityOrderList} (h : Paired x y s) :
    ∃ t, Returns (fun fuel => calculatePriority P s.currentTurn fuel s) t ∧ Paired x y t ∧
      t.priorityList ≠ [] := by
  obtain ⟨base, prio, analyzed, current, turn⟩ := s
  obtain ⟨rfl, a, hholds, hax, hay⟩ := h
  have hne : [x, y] ≠ [] := by simp
  have hids : (ids [x, y]).Nodup := by simpa using hxy
  have hruns : Runs P (table [x, y] hne) (wage ⟨[x, y], prio, analyzed, current, turn⟩)
      (PairMidTurn x y (a x.id)) fun a => (a y.id + 1).toNat := by
    constructor
    · exact fun _ _ ha hlead hi => (pair_step hxy hax ha hlead hi).1
    · exact fun _ _ ha hlead hi => (pair_step hxy hax ha hlead hi).2
    · exact fun _ _ _ _ => hP _
    · exact fun _ _ _ _ _ _ _ => ⟨hP _, hP _⟩
  have hmid : PairMidTurn x y (a x.id) a := ⟨rfl, by omega, fun _ => by omega⟩
  obtain ⟨t, fuel, hfuel⟩ := Holds.turn_returns
    (s := ⟨[x, y], prio, analyzed, current, turn⟩) hholds hids (by simp) hne hruns hmid
  obtain ⟨picks, b, hturnOf⟩ := Holds.turnOf
    (s := ⟨[x, y], prio, analyzed, current, turn⟩) hholds hids (by simp) hne hfuel
  obtain ⟨hbx, hbx', hby⟩ := pair_after hxy hax hmid hturnOf.round
  obtain ⟨hwx, hwy⟩ := pair_wages hxy (s := ⟨[x, y], prio, analyzed, current, turn⟩) rfl
  refine ⟨t, ⟨fuel, hfuel⟩, ⟨hturnOf.base, _, hturnOf.holds, ?_, ?_⟩, hturnOf.priority_ne_nil⟩
  · rw [hwx]
    omega
  · rw [hwy]
    omega

theorem Paired.refills (hP : ∀ v, P.fits v = true) {x y : PriorityElem} (hxy : x.id ≠ y.id)
    (hx : x.speed = 0) (hy : 1 ≤ y.speed) {s : PriorityOrderList} (h : Paired x y s) :
    ∃ t, Refills P s t ∧ Paired x y t ∧ t.priorityList ≠ [] := by
  have hbase : s.baseSpeed ≠ [] := by simp [h.1]
  have hsort : P.sort.run s.baseSpeed = [x, y] := by
    rw [h.1]
    exact sort_pair (by omega)
  by_cases hturn : s.currentTurn = 0
  · refine ⟨_, (refills_iff hbase).mpr (.inl ⟨hturn, rfl⟩), .of_base hxy hx hy hsort hsort, ?_⟩
    simp [hsort]
  · have hpaired : Paired x y (resorted P s) := ⟨hsort, h.2⟩
    obtain ⟨t, hreturns, ht, hne⟩ := hpaired.turn hP hxy hx hy
    exact ⟨t, (refills_iff hbase).mpr (.inr ⟨hturn, hreturns⟩), ht, hne⟩

theorem Paired.alwaysServes (hP : ∀ v, P.fits v = true) {x y : PriorityElem}
    (hxy : x.id ≠ y.id) (hx : x.speed = 0) (hy : 1 ≤ y.speed) {s : PriorityOrderList}
    (h : Paired x y s) : AlwaysServes P s :=
  alwaysServes_of_invariant (I := Paired x y) (fun s hs => by simp [hs.1]) (fun _ _ _ hs _ => hs)
    (fun _ hs _ => hs.refills hP hxy hx hy) h

end FyS.Arena.PriorityOrderList
