import FyS.Arena.PriorityOrder.Credits

/-!
# The repair of ties in `customSort`

After the sort, `customSort` reverses one range: from the first of two neighbours
of equal speed that stand in the wrong order to the end of the lowest group of
equal speeds.  That repairs one participant of the lowest group that stands too
early, and nothing else: groups further up are left as they are, behind an empty
or an inverted range.
-/

namespace FyS.Arena.PriorityOrderList

variable {P : Platform}

/-! ## `std::adjacent_find` -/

section AdjacentFind

variable {p : PriorityElem → PriorityElem → Bool} {l : List PriorityElem}

theorem adjacentFind_eq_some {i : Nat} (h : adjacentFind p l = some i) :
    ∃ before e e2 after, l = before ++ e :: e2 :: after ∧ before.length = i ∧ p e e2 = true := by
  induction l generalizing i with
  | nil => cases h
  | cons e l ih =>
      cases l with
      | nil => cases h
      | cons e2 l =>
          rw [adjacentFind] at h
          split at h
          · rename_i hp
            exact ⟨[], e, e2, l, rfl, Option.some.inj h, hp⟩
          · obtain ⟨j, hj, hij⟩ := Option.map_eq_some_iff.mp h
            obtain ⟨before, x, y, after, hl, hlen, hp⟩ := ih hj
            refine ⟨e :: before, x, y, after, ?_, ?_, hp⟩
            · rw [hl, List.cons_append]
            · rw [List.length_cons, hlen, hij]

theorem adjacentFind_none {before after : List PriorityElem} {e e2 : PriorityElem}
    (h : adjacentFind p (before ++ e :: e2 :: after) = none) : p e e2 = false := by
  induction before with
  | nil =>
      rw [List.nil_append, adjacentFind] at h
      split at h
      · cases h
      · simpa using ‹¬ p e e2 = true›
  | cons x before ih =>
      apply ih
      cases before with
      | nil =>
          rw [List.cons_append, List.nil_append, adjacentFind] at h
          split at h
          · cases h
          · simpa using h
      | cons y before =>
          rw [List.cons_append, List.cons_append, adjacentFind] at h
          split at h
          · cases h
          · simpa using h

theorem adjacentFind_eq_none (h : ∀ x ∈ l, ∀ y ∈ l, p x y = false) : adjacentFind p l = none := by
  cases hfind : adjacentFind p l with
  | none => rfl
  | some i =>
      obtain ⟨before, e, e2, after, rfl, -, hp⟩ := adjacentFind_eq_some hfind
      rw [h e (by simp) e2 (by simp)] at hp
      cases hp

def differ (e e2 : PriorityElem) : Bool := e.speed != e2.speed

/-- The second search finds the end of the lowest group. -/
theorem adjacentFind_differ {low up : List PriorityElem} {v : Int} (hlow : low ≠ [])
    (heq : ∀ e ∈ low, e.speed = v) (hup : up ≠ []) (hne : ∀ e ∈ up, e.speed ≠ v) :
    ∃ toSwap, adjacentFind differ (low ++ up) = some toSwap ∧ toSwap + 1 = low.length := by
  induction low with
  | nil => exact absurd rfl hlow
  | cons e low ih =>
      have he : e.speed = v := heq e List.mem_cons_self
      cases low with
      | nil =>
          obtain ⟨u, up, rfl⟩ := List.exists_cons_of_ne_nil hup
          have hdiffer : differ e u = true := by
            have := hne u List.mem_cons_self
            simp only [differ, bne_iff_ne, he]
            exact Ne.symm this
          refine ⟨0, ?_, rfl⟩
          rw [List.cons_append, List.nil_append, adjacentFind, if_pos hdiffer]
      | cons e2 low =>
          obtain ⟨toSwap, hfind, hlen⟩ := ih (by simp) fun x hx => heq x (List.mem_cons_of_mem _ hx)
          have hsame : differ e e2 = false := by
            simp [differ, he, heq e2 (by simp)]
          refine ⟨toSwap + 1, ?_, ?_⟩
          · rw [List.cons_append] at hfind
            rw [List.cons_append, List.cons_append, adjacentFind, hsame, hfind]
            rfl
          · rw [List.length_cons, hlen]

end AdjacentFind

/-! ## The repair -/

/-- The predicate of the first search: of two neighbours of equal speed the first
has the faster base speed, as a `uint`. -/
def offends (base : List PriorityElem) (e e2 : PriorityElem) : Bool :=
  e.speed == e2.speed && decide (baseSpeedOf base e.id > baseSpeedOf base e2.id)

/-- What `customSort` makes of the sorted list. -/
def repaired (base sorted : List PriorityElem) : List PriorityElem :=
  match adjacentFind (offends base) sorted with
  | none => sorted
  | some found =>
    match adjacentFind differ sorted with
    | none => sorted
    | some toSwap => reverseRange sorted found (toSwap + 1)

section Repaired

variable {base sorted : List PriorityElem}

theorem repaired_of_none (h : adjacentFind (offends base) sorted = none) :
    repaired base sorted = sorted := by
  rw [repaired, h]

theorem repaired_of_level (h : adjacentFind differ sorted = none) :
    repaired base sorted = sorted := by
  rw [repaired, h]
  split <;> rfl

theorem repaired_perm : (repaired base sorted).Perm sorted := by
  unfold repaired
  split
  · exact List.Perm.refl _
  · split
    · exact List.Perm.refl _
    · exact reverseRange_perm _ _ _

theorem repaired_of_found {found toSwap : Nat} (hfound : adjacentFind (offends base) sorted = some found)
    (hswap : adjacentFind differ sorted = some toSwap) :
    repaired base sorted = reverseRange sorted found (toSwap + 1) := by
  rw [repaired, hfound, hswap]

theorem customSort_eq (P : Platform) (s : PriorityOrderList) :
    customSort P s =
      { s with analyzedList := repaired s.baseSpeed (P.sort.run s.analyzedList) } := by
  unfold customSort
  simp only
  split
  · rename_i hfound
    have hnone : adjacentFind (offends s.baseSpeed) (P.sort.run s.analyzedList) = none := hfound
    rw [repaired_of_none hnone]
  · rename_i found hfound
    have hsome : adjacentFind (offends s.baseSpeed) (P.sort.run s.analyzedList) = some found := hfound
    split
    · rename_i hswap
      have hlevel : adjacentFind differ (P.sort.run s.analyzedList) = none := hswap
      rw [repaired_of_level hlevel]
    · rename_i toSwap hswap
      have hend : adjacentFind differ (P.sort.run s.analyzedList) = some toSwap := hswap
      rw [repaired_of_found hsome hend]

theorem drop_reverseRange (l : List PriorityElem) (first last : Nat) (hlast : last ≤ l.length) :
    (reverseRange l first last).drop last = l.drop last := by
  rcases Nat.le_total last first with hle | hle
  · rw [reverseRange_of_le hle]
  · rw [reverseRange, Nat.max_eq_right hle]
    have hlen : (l.take first ++ ((l.take last).drop first).reverse).length = last := by
      simp only [List.length_append, List.length_take, List.length_reverse, List.length_drop]
      omega
    exact List.drop_left' hlen

theorem reverseRange_append (before range after : List PriorityElem) :
    reverseRange (before ++ range ++ after) before.length (before ++ range).length =
      before ++ range.reverse ++ after := by
  have hle : before.length ≤ (before ++ range).length := by simp
  have htake : (before ++ range ++ after).take before.length = before := by
    rw [List.append_assoc, List.take_left']
    rfl
  rw [reverseRange, Nat.max_eq_right hle, htake, List.take_left' rfl, List.drop_left' rfl,
    List.drop_left' rfl]

theorem drop_repaired {toSwap : Nat} (hswap : adjacentFind differ sorted = some toSwap) :
    (repaired base sorted).drop (toSwap + 1) = sorted.drop (toSwap + 1) := by
  cases hfound : adjacentFind (offends base) sorted with
  | none => rw [repaired_of_none hfound]
  | some found =>
      rw [repaired_of_found hfound hswap]
      exact drop_reverseRange _ _ _ (Nat.le_of_lt (adjacentFind_succ_lt hswap))

/-- The front of a repaired list is the front of the sorted one, or the back of
its lowest group. -/
theorem repaired_front {e : PriorityElem} {low up : List PriorityElem} {toSwap : Nat}
    (hsorted : sorted = e :: low ++ up) (hswap : adjacentFind differ sorted = some toSwap)
    (hlen : toSwap + 1 = (e :: low).length) :
    (∃ rest, repaired base sorted = e :: rest) ∨
      (adjacentFind (offends base) sorted = some 0 ∧
        repaired base sorted = (e :: low).reverse ++ up) := by
  cases hfound : adjacentFind (offends base) sorted with
  | none => exact .inl ⟨low ++ up, by rw [repaired_of_none hfound, hsorted, List.cons_append]⟩
  | some found =>
      rw [repaired_of_found hfound hswap, hlen, hsorted]
      cases found with
      | zero =>
          refine .inr ⟨rfl, ?_⟩
          simp [reverseRange]
      | succ found =>
          rw [reverseRange, List.cons_append, List.take_succ_cons, List.cons_append, List.cons_append]
          exact .inl ⟨_, rfl⟩

end Repaired

/-! ## Base speeds -/

theorem foldl_baseSpeed_of_not_mem {base : List PriorityElem} {id : Nat} (hid : id ∉ ids base)
    (acc : Nat) :
    base.foldl (fun acc b => if b.id = id then (b.speed % 4294967296).toNat else acc) acc = acc := by
  induction base generalizing acc with
  | nil => rfl
  | cons b base ih =>
      simp only [ids_cons, List.mem_cons, not_or] at hid
      rw [List.foldl_cons, if_neg (Ne.symm hid.1)]
      exact ih hid.2 acc

theorem baseSpeedOf_eq {base : List PriorityElem} (hids : (ids base).Nodup) (id : Nat) :
    baseSpeedOf base id = (speedOf base id % 4294967296).toNat := by
  have hfold (base : List PriorityElem) (hids : (ids base).Nodup) (hmem : id ∈ ids base) (acc : Nat) :
      base.foldl (fun acc b => if b.id = id then (b.speed % 4294967296).toNat else acc) acc =
        (speedOf base id % 4294967296).toNat := by
    induction base generalizing acc with
    | nil => cases hmem
    | cons b base ih =>
        obtain ⟨hb, hrest⟩ := List.nodup_cons.mp hids
        rw [List.foldl_cons]
        by_cases hid : b.id = id
        · have hspeed := PriorityOrderList.speedOf_eq hids (List.mem_cons_self (a := b))
          have hnot : id ∉ ids base := hid ▸ hb
          rw [hid] at hspeed
          rw [if_pos hid, foldl_baseSpeed_of_not_mem hnot, hspeed]
        · have hmem' : id ∈ ids base := by simpa [Ne.symm hid] using hmem
          rw [if_neg hid, ih hrest hmem', speedOf, speedOf, List.find?_cons_of_neg (by simpa using hid)]
  by_cases hmem : id ∈ ids base
  · exact hfold base hids hmem 0
  · have hnone : base.find? (·.id == id) = none :=
      List.find?_eq_none.mpr fun b hb hbid => hmem (beq_iff_eq.mp hbid ▸ id_mem hb)
    rw [baseSpeedOf, foldl_baseSpeed_of_not_mem hmem, speedOf, hnone]
    rfl

/-! ## Which ties are repaired -/

def TiesOrdered (base l : List PriorityElem) : Prop :=
  l.Pairwise fun x y => x.speed = y.speed → speedOf base x.id ≤ speedOf base y.id

/-- What `customSort` is there for. -/
structure OrdersTies (P : Platform) (s : PriorityOrderList) : Prop where
  /-- The range handed to `std::reverse` is one. -/
  valid : ∀ found toSwap,
    adjacentFind (offends s.baseSpeed) (P.sort.run s.analyzedList) = some found →
      adjacentFind differ (P.sort.run s.analyzedList) = some toSwap → found ≤ toSwap + 1
  perm : (customSort P s).analyzedList.Perm s.analyzedList
  ascending : Ascending (customSort P s).analyzedList
  ties : TiesOrdered s.baseSpeed (customSort P s).analyzedList

def LevelTies (base analyzed : List PriorityElem) : Prop :=
  ∀ x ∈ analyzed, ∀ y ∈ analyzed, x.speed = y.speed → speedOf base x.id = speedOf base y.id

/-- `d` is in the lowest group of ties, which is not all, and faster at base than
the others there, as an `int` and as a `uint`.  Else ties are level. -/
structure Outlier (base analyzed : List PriorityElem) (d : PriorityElem) : Prop where
  mem : d ∈ analyzed
  lowest : ∀ x ∈ analyzed, d.speed ≤ x.speed
  above : ∃ x ∈ analyzed, d.speed < x.speed
  faster : ∀ x ∈ analyzed, x.speed = d.speed → x ≠ d →
    speedOf base x.id < speedOf base d.id ∧ baseSpeedOf base x.id < baseSpeedOf base d.id
  level : ∀ x ∈ analyzed, ∀ y ∈ analyzed, x ≠ d → y ≠ d → x.speed = y.speed →
    speedOf base x.id = speedOf base y.id

theorem offends_iff {base : List PriorityElem} {e e2 : PriorityElem} :
    offends base e e2 = true ↔
      e.speed = e2.speed ∧ baseSpeedOf base e2.id < baseSpeedOf base e.id := by
  simp [offends]

theorem not_offends_of_level {base : List PriorityElem} (hids : (ids base).Nodup)
    {e e2 : PriorityElem} (h : e.speed = e2.speed → speedOf base e.id = speedOf base e2.id) :
    offends base e e2 = false := by
  rw [← Bool.not_eq_true, offends_iff]
  intro ⟨htie, hlt⟩
  rw [baseSpeedOf_eq hids, baseSpeedOf_eq hids, h htie] at hlt
  exact lt_irrefl _ hlt

section Sufficient

variable {s : PriorityOrderList}

theorem ordersTies_of_repaired
    (hvalid : ∀ found toSwap,
      adjacentFind (offends s.baseSpeed) (P.sort.run s.analyzedList) = some found →
        adjacentFind differ (P.sort.run s.analyzedList) = some toSwap → found ≤ toSwap + 1)
    (hties : TiesOrdered s.baseSpeed (repaired s.baseSpeed (P.sort.run s.analyzedList))) :
    OrdersTies P s := by
  refine ⟨hvalid, customSort_perm P s, customSort_ascending P s, ?_⟩
  rw [customSort_eq]
  exact hties

theorem LevelTies.ordersTies (h : LevelTies s.baseSpeed s.analyzedList)
    (hids : (ids s.baseSpeed).Nodup) (P : Platform) : OrdersTies P s := by
  have hmem (x : PriorityElem) (hx : x ∈ P.sort.run s.analyzedList) : x ∈ s.analyzedList :=
    (P.sort.perm _).mem_iff.mp hx
  have hnone : adjacentFind (offends s.baseSpeed) (P.sort.run s.analyzedList) = none := by
    apply adjacentFind_eq_none
    intro x hx y hy
    exact not_offends_of_level hids (h x (hmem x hx) y (hmem y hy))
  apply ordersTies_of_repaired
  · intro found toSwap hfound
    rw [hnone] at hfound
    cases hfound
  · rw [repaired_of_none hnone]
    apply List.pairwise_of_forall_mem_list
    intro x hx y hy htie
    exact (h x (hmem x hx) y (hmem y hy) htie).le

theorem split_lowest {l : List PriorityElem} {d : PriorityElem} (hasc : Ascending l) (hd : d ∈ l)
    (hlowest : ∀ x ∈ l, d.speed ≤ x.speed) :
    ∃ before behind up, l = before ++ d :: behind ++ up ∧
      (∀ e ∈ before ++ d :: behind, e.speed = d.speed) ∧ ∀ e ∈ up, d.speed < e.speed := by
  obtain ⟨before, after, rfl⟩ := List.append_of_mem hd
  obtain ⟨-, hafter, hcross⟩ := List.pairwise_append.mp hasc
  obtain ⟨hle, hafter⟩ := List.pairwise_cons.mp hafter
  let p (e : PriorityElem) : Bool := e.speed == d.speed
  refine ⟨before, after.takeWhile p, after.dropWhile p, ?_, ?_, ?_⟩
  · rw [List.append_assoc, List.cons_append, List.takeWhile_append_dropWhile]
  · intro e he
    rcases List.mem_append.mp he with he | he
    · have hlow := hlowest e (List.mem_append_left _ he)
      have hhigh := hcross e he d List.mem_cons_self
      omega
    · rcases List.mem_cons.mp he with rfl | he
      · rfl
      · simpa [p] using List.all_eq_true.mp List.all_takeWhile e he
  · intro e he
    cases hup : after.dropWhile p with
    | nil =>
        rw [hup] at he
        cases he
    | cons u up =>
        have hu : ¬ p u = true := by
          have := List.head_dropWhile_not p (l := after) (by simp [hup])
          simpa [hup] using this
        have hdrop : Ascending (u :: up) := by
          rw [← hup]
          exact hafter.sublist (List.dropWhile_sublist p)
        have humem : u ∈ after := (List.dropWhile_sublist p).subset (by simp [hup])
        have hdu := hle u humem
        have hne : u.speed ≠ d.speed := by simpa [p] using hu
        rw [hup] at he
        rcases List.mem_cons.mp he with rfl | he
        · omega
        · have := (List.pairwise_cons.mp hdrop).1 e he
          omega

theorem Outlier.tiesOrdered {base before behind up : List PriorityElem} {d : PriorityElem}
    (h : Outlier base (before ++ d :: behind ++ up) d) (hnodup : (before ++ d :: behind ++ up).Nodup)
    (hlow : ∀ e ∈ before ++ d :: behind, e.speed = d.speed) (hup : ∀ e ∈ up, d.speed < e.speed) :
    TiesOrdered base (before ++ (d :: behind).reverse ++ up) := by
  have hothers : ∀ x ∈ before ++ behind.reverse,
      x ∈ before ++ d :: behind ++ up ∧ x.speed = d.speed ∧ x ≠ d := by
    intro x hx
    have hmem : x ∈ before ++ d :: behind := by
      rcases List.mem_append.mp hx with hx | hx
      · exact List.mem_append_left _ hx
      · exact List.mem_append_right _ (List.mem_cons_of_mem _ (List.mem_reverse.mp hx))
    refine ⟨List.mem_append_left _ hmem, hlow x hmem, ?_⟩
    intro hxd
    have hsplit := (List.nodup_append.mp hnodup).1
    rw [hxd] at hx
    have hnot := (List.nodup_middle.mp hsplit).notMem
    apply hnot
    simpa using hx
  have hfaster : ∀ x ∈ up, x ∈ before ++ d :: behind ++ up ∧ x ≠ d := by
    intro x hx
    refine ⟨List.mem_append_right _ hx, ?_⟩
    intro hxd
    have := hup x hx
    rw [hxd] at this
    exact lt_irrefl _ this
  have hrange : before ++ (d :: behind).reverse ++ up = (before ++ behind.reverse) ++ d :: up := by
    simp
  unfold TiesOrdered
  rw [hrange, List.pairwise_append, List.pairwise_cons]
  refine ⟨?_, ⟨?_, ?_⟩, ?_⟩
  · apply List.pairwise_of_forall_mem_list
    intro x hx y hy htie
    have hx := hothers x hx
    have hy := hothers y hy
    exact (h.level x hx.1 y hy.1 hx.2.2 hy.2.2 htie).le
  · intro y hy htie
    have := hup y hy
    omega
  · apply List.pairwise_of_forall_mem_list
    intro x hx y hy htie
    have hx := hfaster x hx
    have hy := hfaster y hy
    exact (h.level x hx.1 y hy.1 hx.2 hy.2 htie).le
  · intro x hx y hy htie
    have hx := hothers x hx
    rcases List.mem_cons.mp hy with rfl | hy
    · exact (h.faster x hx.1 hx.2.1 hx.2.2).1.le
    · have := hup y hy
      omega

theorem nodup_of_ids {l : List PriorityElem} (h : (ids l).Nodup) : l.Nodup := List.Nodup.of_map _ h

theorem Outlier.perm {base l l' : List PriorityElem} {d : PriorityElem} (h : Outlier base l d)
    (hperm : l'.Perm l) : Outlier base l' d where
  mem := hperm.mem_iff.mpr h.mem
  lowest x hx := h.lowest x (hperm.mem_iff.mp hx)
  above := by
    obtain ⟨x, hx, hlt⟩ := h.above
    exact ⟨x, hperm.mem_iff.mpr hx, hlt⟩
  faster x hx := h.faster x (hperm.mem_iff.mp hx)
  level x hx y hy := h.level x (hperm.mem_iff.mp hx) y (hperm.mem_iff.mp hy)

theorem Outlier.eq_of_offends {base l : List PriorityElem} {d : PriorityElem} (h : Outlier base l d)
    (hids : (ids base).Nodup) {e e2 : PriorityElem} (he : e ∈ l) (he2 : e2 ∈ l)
    (hoffends : offends base e e2 = true) : e = d := by
  by_contra hed
  by_cases hed2 : e2 = d
  · obtain ⟨htie, hlt⟩ := offends_iff.mp hoffends
    have := (h.faster e he (hed2 ▸ htie) hed).2
    rw [hed2] at hlt
    omega
  · rw [not_offends_of_level hids (h.level e he e2 he2 hed hed2)] at hoffends
    cases hoffends

theorem length_eq_of_split {l r l' r' : List PriorityElem} {d : PriorityElem}
    (hnodup : (l ++ d :: r).Nodup) (h : l ++ d :: r = l' ++ d :: r') : l.length = l'.length := by
  have hidx : ∀ {l r : List PriorityElem}, (l ++ d :: r).Nodup →
      (l ++ d :: r).idxOf d = l.length := by
    intro l r hl
    have hnot : d ∉ l := fun hd =>
      (List.nodup_middle.mp hl).notMem (List.mem_append_left _ hd)
    rw [List.idxOf_append_of_notMem hnot, List.idxOf_cons_self, Nat.add_zero]
  calc
    l.length = (l ++ d :: r).idxOf d := (hidx hnodup).symm
    _ = (l' ++ d :: r').idxOf d := by rw [h]
    _ = l'.length := hidx (h ▸ hnodup)

section Split

variable {base l before behind up : List PriorityElem} {d : PriorityElem}

/-- Where the first search stops, it stops at the outlier. -/
theorem Outlier.found_eq (h : Outlier base l d) (hids : (ids base).Nodup) (hnodup : l.Nodup)
    (hsplit : l = before ++ d :: behind ++ up) {found : Nat}
    (hfound : adjacentFind (offends base) l = some found) : found = before.length := by
  obtain ⟨before', e, e2, after, hl, hlen, hoffends⟩ := adjacentFind_eq_some hfound
  have he : e ∈ l := by simp [hl]
  have he2 : e2 ∈ l := by simp [hl]
  have hed := h.eq_of_offends hids he he2 hoffends
  rw [hl, hed] at hsplit hnodup
  rw [List.append_assoc, List.cons_append] at hsplit
  rw [← hlen, length_eq_of_split hnodup hsplit]

theorem Outlier.last_of_none (h : Outlier base l d) (hnodup : l.Nodup)
    (hsplit : l = before ++ d :: behind ++ up) (hlow : ∀ e ∈ before ++ d :: behind, e.speed = d.speed)
    (hnone : adjacentFind (offends base) l = none) : behind = [] := by
  cases behind with
  | nil => rfl
  | cons e behind =>
      have he : e.speed = d.speed := hlow e (by simp)
      have hed : e ≠ d := by
        intro hed
        rw [hsplit, hed, List.append_assoc] at hnodup
        have htail := (List.nodup_append.mp hnodup).2.1
        exact (List.nodup_cons.mp htail).1 List.mem_cons_self
      have hlt := (h.faster e (by simp [hsplit]) he hed).2
      rw [hsplit, List.append_assoc, List.cons_append, List.cons_append] at hnone
      have hnot := adjacentFind_none hnone
      rw [offends_iff.mpr ⟨he.symm, hlt⟩] at hnot
      cases hnot

end Split

theorem Outlier.ordersTies {d : PriorityElem} (h : Outlier s.baseSpeed s.analyzedList d)
    (hids : (ids s.baseSpeed).Nodup) (hanalyzed : (ids s.analyzedList).Nodup) (P : Platform) :
    OrdersTies P s := by
  have hperm := P.sort.perm s.analyzedList
  have hsorted := h.perm hperm
  have hnodup : (P.sort.run s.analyzedList).Nodup :=
    nodup_of_ids ((ids_perm hperm).nodup_iff.mpr hanalyzed)
  obtain ⟨before, behind, up, hsplit, hlow, hup⟩ :=
    split_lowest (P.sort.ascending _) hsorted.mem hsorted.lowest
  have hne : up ≠ [] := by
    obtain ⟨z, hz, hdz⟩ := hsorted.above
    intro hnil
    rw [hsplit, hnil, List.append_nil] at hz
    have := hlow z hz
    omega
  have hlowne : before ++ d :: behind ≠ [] := by simp
  obtain ⟨swap, hswap, hlen⟩ := adjacentFind_differ hlowne hlow hne fun e he => (hup e he).ne'
  rw [← hsplit] at hswap
  have hties := (hsplit ▸ hsorted).tiesOrdered (hsplit ▸ hnodup) hlow hup
  apply ordersTies_of_repaired
  · intro found toSwap hfound hswap'
    rw [hswap] at hswap'
    rw [hsorted.found_eq hids hnodup hsplit hfound, ← Option.some.inj hswap', hlen]
    simp
  · cases hfound : adjacentFind (offends s.baseSpeed) (P.sort.run s.analyzedList) with
    | some found =>
        have hplace := hsorted.found_eq hids hnodup hsplit hfound
        rw [repaired_of_found hfound hswap, hplace, hlen, hsplit, reverseRange_append]
        exact hties
    | none =>
        have hbehind := hsorted.last_of_none hnodup hsplit hlow hfound
        rw [repaired_of_none hfound, hsplit]
        rw [hbehind] at hties ⊢
        exact hties

end Sufficient

/-! ## Which are not -/

/-- A sort that puts `analyzed` in the order of `sorted`. -/
def answering (analyzed sorted : List PriorityElem) (hperm : sorted.Perm analyzed)
    (hasc : Ascending sorted) : StdSort where
  run l := if l = analyzed then sorted else insertionSort.run l
  perm l := by
    split
    · rename_i h
      rw [h]
      exact hperm
    · exact insertionSort.perm l
  ascending l := by
    split
    · exact hasc
    · exact insertionSort.ascending l

/-- The repair puts the ties in order whichever way the sort left them. -/
def RepairsAll (base analyzed : List PriorityElem) : Prop :=
  ∀ sorted, sorted.Perm analyzed → Ascending sorted → TiesOrdered base (repaired base sorted)

theorem repairsAll_of_ordersTies {s : PriorityOrderList} (h : ∀ P, OrdersTies P s) :
    RepairsAll s.baseSpeed s.analyzedList := by
  intro sorted hperm hasc
  have hties := (h (.unbounded (answering s.analyzedList sorted hperm hasc))).ties
  rw [customSort_eq] at hties
  simpa [Platform.unbounded, answering] using hties

theorem exists_perm_pair {l : List PriorityElem} {u w : PriorityElem} (hu : u ∈ l) (hw : w ∈ l)
    (hne : u ≠ w) : ∃ rest, (u :: w :: rest).Perm l := by
  have hw' : w ∈ l.erase u := (List.mem_erase_of_ne (Ne.symm hne)).mpr hw
  exact ⟨_, ((List.perm_cons_erase hw').symm.cons u).trans (List.perm_cons_erase hu).symm⟩

def tied (analyzed : List PriorityElem) (v : Int) : List PriorityElem :=
  analyzed.filter fun e => decide (e.speed = v)

theorem mem_tied {analyzed : List PriorityElem} {v : Int} {e : PriorityElem} :
    e ∈ tied analyzed v ↔ e ∈ analyzed ∧ e.speed = v := by
  simp [tied]

def layered (analyzed : List PriorityElem) (v : Int) (order : List PriorityElem) :
    List PriorityElem :=
  insertionSort.run (analyzed.filter fun e => decide (e.speed < v)) ++
    (order ++ insertionSort.run (analyzed.filter fun e => decide (v < e.speed)))

section Layered

variable {analyzed order : List PriorityElem} {v : Int} {e : PriorityElem}

theorem mem_slower : e ∈ insertionSort.run (analyzed.filter fun e => decide (e.speed < v)) ↔
    e ∈ analyzed ∧ e.speed < v := by
  rw [(insertionSort.perm _).mem_iff]
  simp

theorem mem_faster : e ∈ insertionSort.run (analyzed.filter fun e => decide (v < e.speed)) ↔
    e ∈ analyzed ∧ v < e.speed := by
  rw [(insertionSort.perm _).mem_iff]
  simp

theorem layered_perm (horder : order.Perm (tied analyzed v)) :
    (layered analyzed v order).Perm analyzed := by
  let rest := analyzed.filter fun e => !decide (e.speed < v)
  have htied : rest.filter (fun e => decide (e.speed = v)) = tied analyzed v := by
    simp only [rest, tied, List.filter_filter]
    apply List.filter_congr
    intro e _
    by_cases hv : e.speed = v <;> simp [hv]
  have hfaster : rest.filter (fun e => !decide (e.speed = v)) =
      analyzed.filter fun e => decide (v < e.speed) := by
    simp only [rest, List.filter_filter]
    apply List.filter_congr
    intro e _
    rw [Bool.eq_iff_iff]
    simp only [Bool.and_eq_true, Bool.not_eq_true', decide_eq_false_iff_not, decide_eq_true_eq]
    omega
  have hrest : (tied analyzed v ++ analyzed.filter fun e => decide (v < e.speed)).Perm rest := by
    rw [← htied, ← hfaster]
    exact List.filter_append_perm _ rest
  have hsorts : (layered analyzed v order).Perm ((analyzed.filter fun e => decide (e.speed < v)) ++
      (tied analyzed v ++ analyzed.filter fun e => decide (v < e.speed))) :=
    (insertionSort.perm _).append (horder.append (insertionSort.perm _))
  exact (hsorts.trans (hrest.append_left _)).trans (List.filter_append_perm _ analyzed)

theorem layered_ascending (horder : order.Perm (tied analyzed v)) :
    Ascending (layered analyzed v order) := by
  have hspeed (e : PriorityElem) (he : e ∈ order) : e.speed = v :=
    (mem_tied.mp (horder.mem_iff.mp he)).2
  unfold Ascending layered
  rw [List.pairwise_append, List.pairwise_append]
  refine ⟨insertionSort.ascending _, ⟨?_, insertionSort.ascending _, ?_⟩, ?_⟩
  · apply List.pairwise_of_forall_mem_list
    intro x hx y hy
    rw [hspeed x hx, hspeed y hy]
  · intro x hx y hy
    have := hspeed x hx
    have := (mem_faster.mp hy).2
    omega
  · intro x hx y hy
    have := (mem_slower.mp hx).2
    rcases List.mem_append.mp hy with hy | hy
    · have := hspeed y hy
      omega
    · have := (mem_faster.mp hy).2
      omega

/-- With nobody below a group, it stands in front. -/
theorem layered_of_lowest (hlowest : ∀ z ∈ analyzed, v ≤ z.speed) : layered analyzed v order =
      order ++ insertionSort.run (analyzed.filter fun e => decide (v < e.speed)) := by
  have hnil : insertionSort.run (analyzed.filter fun e => decide (e.speed < v)) = [] := by
    apply List.eq_nil_iff_forall_not_mem.mpr
    intro e he
    obtain ⟨he, hlt⟩ := mem_slower.mp he
    have := hlowest e he
    omega
  rw [layered, hnil, List.nil_append]

end Layered

theorem toSwap_lt {before after : List PriorityElem} {x z : PriorityElem} {toSwap : Nat}
    (h : adjacentFind differ (before ++ x :: after) = some toSwap) (hz : z ∈ before)
    (hne : z.speed ≠ x.speed) : toSwap + 1 ≤ before.length := by
  by_contra hlen
  obtain ⟨v, hv⟩ := speed_of_mem_take_adjacentFind h
  have htake : (before ++ [x]) <+: (before ++ x :: after).take (toSwap + 1) := by
    rw [List.prefix_take_iff]
    constructor
    · exact ⟨after, by simp⟩
    · simp only [List.length_append, List.length_singleton]
      omega
  have hzv := hv z (htake.subset (List.mem_append_left _ hz))
  have hxv := hv x (htake.subset (by simp))
  omega

theorem le_of_drop_eq {base before after l : List PriorityElem} {x y : PriorityElem} {k : Nat}
    (hties : TiesOrdered base l) (hk : k ≤ before.length)
    (hdrop : l.drop k = (before ++ x :: y :: after).drop k) (htie : x.speed = y.speed) :
    speedOf base x.id ≤ speedOf base y.id := by
  have hpairs := hties.sublist (List.drop_sublist k l)
  rw [hdrop, List.drop_append_of_le_length hk] at hpairs
  have htail := (List.pairwise_append.mp hpairs).2.1
  exact (List.pairwise_cons.mp htail).1 y List.mem_cons_self htie

theorem le_of_front {base analyzed l rest : List PriorityElem} {v : Int} {e : PriorityElem}
    (hties : TiesOrdered base l) (hl : l.Perm analyzed) (hfront : l = e :: rest) (he : e.speed = v) :
    ∀ y ∈ tied analyzed v, speedOf base e.id ≤ speedOf base y.id := by
  intro y hy
  obtain ⟨hmem, hyv⟩ := mem_tied.mp hy
  have hyl : y ∈ e :: rest := by
    rw [← hfront]
    exact hl.mem_iff.mpr hmem
  rw [hfront] at hties
  rcases List.mem_cons.mp hyl with rfl | hy
  · exact le_rfl
  · exact (List.pairwise_cons.mp hties).1 y hy (he.trans hyv.symm)

namespace RepairsAll

variable {base analyzed : List PriorityElem} {x y : PriorityElem}

theorem tiesOrdered (h : RepairsAll base analyzed) {order : List PriorityElem} {v : Int}
    (horder : order.Perm (tied analyzed v)) :
    TiesOrdered base (repaired base (layered analyzed v order)) :=
  h _ (layered_perm horder) (layered_ascending horder)

/-- Ties that are not level are in the lowest group, and that is not all. -/
theorem lowest (h : RepairsAll base analyzed) (hx : x ∈ analyzed) (hy : y ∈ analyzed)
    (htie : x.speed = y.speed) (hlt : speedOf base y.id < speedOf base x.id) :
    (∀ z ∈ analyzed, x.speed ≤ z.speed) ∧ ∃ z ∈ analyzed, x.speed < z.speed := by
  have hne : x ≠ y := by
    rintro rfl
    exact lt_irrefl _ hlt
  -- the sort may leave the faster of the two in front
  obtain ⟨rest, hrest⟩ := exists_perm_pair (mem_tied.mpr ⟨hx, rfl⟩) (mem_tied.mpr ⟨hy, htie.symm⟩) hne
  have hties := h.tiesOrdered hrest
  have hlowest : ∀ z ∈ analyzed, x.speed ≤ z.speed := by
    intro z hz
    by_contra hslow
    have hzslower := mem_slower.mpr ⟨hz, Int.not_le.mp hslow⟩
    cases hswap : adjacentFind differ (layered analyzed x.speed (x :: y :: rest)) with
    | none =>
        rw [repaired_of_level hswap] at hties
        have := le_of_drop_eq hties (Nat.zero_le _) rfl htie
        omega
    | some toSwap =>
        have hlen := toSwap_lt hswap hzslower (by omega)
        have := le_of_drop_eq hties hlen (drop_repaired hswap) htie
        omega
  refine ⟨hlowest, ?_⟩
  by_contra hfast
  have hlevel : ∀ z ∈ layered analyzed x.speed (x :: y :: rest), z.speed = x.speed := by
    intro z hz
    have hmem := (layered_perm hrest).mem_iff.mp hz
    have hlow := hlowest z hmem
    by_contra hne
    exact hfast ⟨z, hmem, by omega⟩
  have hnone : adjacentFind differ (layered analyzed x.speed (x :: y :: rest)) = none := by
    apply adjacentFind_eq_none
    intro z hz z' hz'
    simp [differ, hlevel z hz, hlevel z' hz']
  rw [repaired_of_level hnone] at hties
  have := le_of_drop_eq hties (Nat.zero_le _) rfl htie
  omega

theorem front (h : RepairsAll base analyzed) {v : Int} (hlowest : ∀ z ∈ analyzed, v ≤ z.speed)
    (habove : ∃ z ∈ analyzed, v < z.speed) {u w : PriorityElem} {l : List PriorityElem}
    (horder : (u :: w :: l).Perm (tied analyzed v)) :
    (∀ y ∈ tied analyzed v, speedOf base u.id ≤ speedOf base y.id) ∨
      (offends base u w = true ∧ ∀ last ∈ (w :: l).getLast?,
        ∀ y ∈ tied analyzed v, speedOf base last.id ≤ speedOf base y.id) := by
  have hties := h.tiesOrdered horder
  have hperm : (repaired base (layered analyzed v (u :: w :: l))).Perm analyzed :=
    repaired_perm.trans (layered_perm horder)
  rw [layered_of_lowest hlowest] at hties hperm
  have hup : insertionSort.run (analyzed.filter fun e => decide (v < e.speed)) ≠ [] := by
    obtain ⟨z, hz, hlt⟩ := habove
    exact List.ne_nil_of_mem (mem_faster.mpr ⟨hz, hlt⟩)
  have hspeed : ∀ e ∈ u :: w :: l, e.speed = v := fun e he =>
    (mem_tied.mp (horder.mem_iff.mp he)).2
  obtain ⟨toSwap, hswap, hlen⟩ := adjacentFind_differ (List.cons_ne_nil u (w :: l)) hspeed hup
    fun e he => (mem_faster.mp he).2.ne'
  rcases repaired_front rfl hswap hlen with ⟨rest, hrest⟩ | ⟨hzero, hrest⟩
  · exact .inl (le_of_front hties hperm hrest (hspeed u List.mem_cons_self))
  · refine .inr ⟨?_, ?_⟩
    · obtain ⟨before, e, e2, after, hsplit, hbefore, hoffends⟩ := adjacentFind_eq_some hzero
      rw [List.eq_nil_of_length_eq_zero hbefore] at hsplit
      obtain ⟨hu, htail⟩ := List.cons.inj hsplit
      have hw : w = e2 := (List.cons.inj htail).1
      rw [hu, hw]
      exact hoffends
    · intro last hlast
      obtain ⟨init, hinit⟩ := List.getLast?_eq_some_iff.mp hlast
      have hlastspeed : last.speed = v := by
        apply hspeed
        rw [hinit]
        simp
      have hreverse : (u :: w :: l).reverse = last :: (init.reverse ++ [u]) := by
        rw [List.reverse_cons, hinit, List.reverse_concat, List.cons_append]
      rw [hreverse, List.cons_append] at hrest
      exact le_of_front hties hperm hrest hlastspeed

theorem ends (h : RepairsAll base analyzed) {v : Int} (hlowest : ∀ z ∈ analyzed, v ≤ z.speed)
    (habove : ∃ z ∈ analyzed, v < z.speed) {u w : PriorityElem} (hu : u ∈ tied analyzed v)
    (hw : w ∈ tied analyzed v) (hne : u ≠ w) :
    (∀ y ∈ tied analyzed v, speedOf base u.id ≤ speedOf base y.id) ∨
      ∀ y ∈ tied analyzed v, speedOf base w.id ≤ speedOf base y.id := by
  obtain ⟨rest, hrest⟩ := exists_perm_pair hu hw hne
  cases rest with
  | nil => exact (h.front hlowest habove hrest).imp_right fun hback => hback.2 w rfl
  | cons z rest =>
      have horder : (u :: z :: (rest ++ [w])).Perm (tied analyzed v) := by
        apply List.Perm.trans _ hrest
        rw [← List.cons_append]
        exact (List.perm_append_singleton w (z :: rest)).cons u
      apply (h.front hlowest habove horder).imp_right
      intro hback
      apply hback.2 w
      rw [← List.cons_append, List.getLast?_append]
      rfl

/-- Whoever ties with a slower one at base is the outlier. -/
theorem outlier (h : RepairsAll base analyzed) (hx : x ∈ analyzed) (hy : y ∈ analyzed)
    (htie : x.speed = y.speed) (hlt : speedOf base y.id < speedOf base x.id) :
    Outlier base analyzed x := by
  obtain ⟨hlowest, habove⟩ := h.lowest hx hy htie hlt
  have hxt : x ∈ tied analyzed x.speed := mem_tied.mpr ⟨hx, rfl⟩
  have hyt : y ∈ tied analyzed x.speed := mem_tied.mpr ⟨hy, htie.symm⟩
  have hslower : ∀ w ∈ tied analyzed x.speed, w ≠ x → speedOf base w.id < speedOf base x.id := by
    intro w hw hwx
    by_contra hfast
    rcases h.ends hlowest habove hxt hw (Ne.symm hwx) with hfirst | hlast
    · have := hfirst y hyt
      omega
    · have := hlast y hyt
      omega
  have hlevel : ∀ u ∈ analyzed, ∀ w ∈ analyzed, u ≠ x → w ≠ x → u.speed = w.speed →
      ¬ speedOf base w.id < speedOf base u.id := by
    intro u hu w hw hux hwx huw hless
    have hulow := (h.lowest hu hw huw hless).1 x hx
    have hxlow := hlowest u hu
    have hut : u ∈ tied analyzed x.speed := mem_tied.mpr ⟨hu, by omega⟩
    have hwt : w ∈ tied analyzed x.speed := mem_tied.mpr ⟨hw, by omega⟩
    have hwslow := hslower w hwt hwx
    rcases h.ends hlowest habove hxt hut (Ne.symm hux) with hfirst | hlast
    · have := hfirst w hwt
      omega
    · have := hlast w hwt
      omega
  refine ⟨hx, hlowest, habove, ?_, ?_⟩
  · intro w hw hwx hne
    have hwt : w ∈ tied analyzed x.speed := mem_tied.mpr ⟨hw, hwx⟩
    have hwslow := hslower w hwt hne
    obtain ⟨rest, hrest⟩ := exists_perm_pair hxt hwt (Ne.symm hne)
    rcases h.front hlowest habove hrest with hfirst | ⟨hoffends, -⟩
    · have := hfirst w hwt
      omega
    · exact ⟨hwslow, (offends_iff.mp hoffends).2⟩
  · intro u hu w hw hux hwx huw
    have := hlevel u hu w hw hux hwx huw
    have := hlevel w hw u hu hwx hux huw.symm
    omega

end RepairsAll

/-- Whatever ascending permutation the sort produced, `customSort` reverses a valid
range and leaves the list ascending with its ties in the order of the base speeds,
exactly if ties are level, but for one outlier at most. -/
theorem customSort_orders_ties_iff {s : PriorityOrderList} (hanalyzed : (ids s.analyzedList).Nodup)
    (hbase : (ids s.baseSpeed).Nodup) :
    (∀ P, OrdersTies P s) ↔
      LevelTies s.baseSpeed s.analyzedList ∨ ∃ d, Outlier s.baseSpeed s.analyzedList d := by
  constructor
  · intro h
    have hrepairs := repairsAll_of_ordersTies h
    by_cases hlevel : LevelTies s.baseSpeed s.analyzedList
    · exact .inl hlevel
    · simp only [LevelTies, not_forall] at hlevel
      obtain ⟨x, hx, y, hy, htie, hne⟩ := hlevel
      rcases lt_or_gt_of_ne hne with hlt | hlt
      · exact .inr ⟨y, hrepairs.outlier hy hx htie.symm hlt⟩
      · exact .inr ⟨x, hrepairs.outlier hx hy htie hlt⟩
  · intro h P
    rcases h with hlevel | ⟨d, hd⟩
    · exact hlevel.ordersTies hbase P
    · exact hd.ordersTies hbase hanalyzed P

def tiedAbove : PriorityOrderList where
  baseSpeed := [⟨1, 1, false⟩, ⟨2, 2, false⟩, ⟨4, 3, true⟩, ⟨3, 4, true⟩]
  priorityList := []
  analyzedList := [⟨1, 5, false⟩, ⟨2, 9, false⟩, ⟨3, 9, true⟩, ⟨4, 9, true⟩]
  currentPrio := ⟨0, 0, false⟩
  currentTurn := 1

theorem customSort_orders_ties_iff_tiedAbove :
    (∀ P, OrdersTies P tiedAbove) ↔
      LevelTies tiedAbove.baseSpeed tiedAbove.analyzedList ∨
        ∃ d, Outlier tiedAbove.baseSpeed tiedAbove.analyzedList d :=
  customSort_orders_ties_iff (s := tiedAbove) (by decide) (by decide)

/-- The range to reverse starts at participant 3 and ends behind participant 1. -/
theorem ties_above_reversed_backwards :
    ¬ ∀ s : PriorityOrderList, (ids s.analyzedList).Nodup → (ids s.baseSpeed).Nodup →
      ∀ P, OrdersTies P s := by
  intro h
  have hvalid := (h tiedAbove (by decide) (by decide) (.unbounded insertionSort)).valid 2 0
  exact absurd (hvalid (by decide) (by decide)) (by decide)

end FyS.Arena.PriorityOrderList
