import FyS.Arena.PriorityOrder.Bounds
import FyS.Arena.PriorityOrder.Termination

/-!
# Do the two ways to build a list agree?

A list built by arrivals keeps its turn counter at 0 and serves the base order
twice before its first turn.  It would serve what the constructed list serves
only if every later turn repeated the base order, which no bounded credits do.
-/

namespace FyS.Arena.PriorityOrderList

open FyS.Library.Fuel FyS.Library.CreditRound

variable {P : Platform}

def ServeAlike (P : Platform) (s s' : PriorityOrderList) : Prop :=
  ∀ k, ∃ es es' t t', es.length = k ∧ es'.length = k ∧ Serves P s es t ∧ Serves P s' es' t' ∧
    keys es = keys es'

theorem ServeAlike.keys_eq {s s' t t' : PriorityOrderList} {es es' : List PriorityElem}
    (h : ServeAlike P s s') (hs : Serves P s es t) (hs' : Serves P s' es' t')
    (hlen : es.length = es'.length) : keys es = keys es' := by
  obtain ⟨fs, fs', u, u', hfs, hfs', hserves, hserves', hkeys⟩ := h es.length
  obtain ⟨rfl, -⟩ := hs.unique hserves hfs.symm
  obtain ⟨rfl, -⟩ := hs'.unique hserves' (hlen ▸ hfs').symm
  exact hkeys

/-! ## At most one participant -/

theorem InStep.serves_keys {s t : PriorityOrderList} {es : List PriorityElem} (h : InStep s)
    (hbase : s.baseSpeed ≠ []) (hs : Serves P s es t) : ∀ e ∈ es, e.key ∈ keys s.baseSpeed := by
  induction hs with
  | nil => exact List.forall_mem_nil _
  | cons head _ ih =>
      obtain ⟨fuel, hfuel⟩ := head
      obtain ⟨ht, hperm, -, hkey⟩ := (h.getNext_sound fuel).of_eq hfuel
      refine List.forall_mem_cons.mpr ⟨hkey hbase, fun x hx => ?_⟩
      exact (keys_perm hperm).mem_iff.mp (ih ht (getNext_ne_nil hbase hfuel) x hx)

theorem keys_of_single {b : PriorityElem} {es : List PriorityElem}
    (h : ∀ e ∈ es, e.key ∈ keys [b]) : keys es = List.replicate es.length b.key := by
  rw [List.eq_replicate_iff]
  refine ⟨by simp [keys], fun k hk => ?_⟩
  obtain ⟨e, he, rfl⟩ := List.mem_map.mp hk
  simpa using h e he

theorem Serves.keys_of_empty {s t : PriorityOrderList} {es : List PriorityElem}
    (h : Serves P s es t) (hbase : s.baseSpeed = []) :
    keys es = List.replicate es.length (0, false) := by
  induction h with
  | nil => rfl
  | cons head _ ih =>
      obtain ⟨rfl, rfl⟩ := (gives_of_empty hbase).mp head
      rw [keys_cons, ih hbase]
      rfl

/-! ## The repeated base order -/

/-- From `s` on the ids `round` are served over and over. -/
def Repeats (P : Platform) (s : PriorityOrderList) (round : List Nat) : Prop :=
  ∀ m es t, Serves P s es t → es.length = m * round.length →
    ids es = (List.replicate m round).flatten

theorem ids_length (l : List PriorityElem) : (ids l).length = l.length := List.length_map _

theorem ids_reverse (l : List PriorityElem) : ids l.reverse = (ids l).reverse := List.map_reverse

/-- If `s'` serves one batch more than `s` before it stands where `s` does, what
follows repeats the batch. -/
theorem ServeAlike.repeats {s s' d : PriorityOrderList} {batch : List PriorityElem}
    (h : ServeAlike P s s') (hs : Serves P s batch d) (hs' : Serves P s' (batch ++ batch) d) :
    Repeats P d (ids batch) := by
  intro m
  induction m with
  | zero =>
      intro es t _ hlen
      obtain rfl : es = [] := List.eq_nil_of_length_eq_zero (by simpa using hlen)
      rfl
  | succ m ih =>
      intro es t hes hlen
      rw [ids_length] at hlen
      obtain ⟨fs, gs, u, -, hfs, -, hserves, -⟩ := h (batch.length + m * batch.length)
      obtain ⟨es₁, rfl, hes₁⟩ := hs.prefix_of_le hserves (by omega)
      have hlen₁ : es₁.length = m * batch.length := by simpa using hfs
      have hkeys := h.keys_eq (hs.append hes) (hs'.append hes₁) (by
        simp only [List.length_append, hlen, hlen₁, Nat.succ_mul]
        omega)
      rw [keys_append, keys_append, keys_append, List.append_assoc] at hkeys
      have hids := congrArg (List.map Prod.fst) (List.append_cancel_left hkeys)
      rw [List.map_append, ← ids_eq_map_keys, ← ids_eq_map_keys, ← ids_eq_map_keys] at hids
      rw [hids, ih es₁ u hes₁ (by rw [ids_length, hlen₁]), List.replicate_succ, List.flatten_cons]

theorem eq_of_append_cons_eq {c : Nat} {l l' m m' : List Nat} (hl : c ∉ l) (hl' : c ∉ l')
    (h : l ++ c :: m = l' ++ c :: m') : l = l' := by
  induction l generalizing l' with
  | nil =>
      cases l' with
      | nil => rfl
      | cons x l' => exact absurd (List.cons.inj h).1 (fun hx => hl' (by simp [hx]))
  | cons x l ih =>
      cases l' with
      | nil => exact absurd (List.cons.inj h).1 (fun hx => hl (by simp [hx]))
      | cons y l' =>
          rw [List.cons_append, List.cons_append] at h
          obtain ⟨rfl, htail⟩ := List.cons.inj h
          rw [ih (fun hm => hl (List.mem_cons_of_mem _ hm))
            (fun hm => hl' (List.mem_cons_of_mem _ hm)) htail]

theorem Repeats.after {s t : PriorityOrderList} {batch : List PriorityElem} {round : List Nat}
    (h : Repeats P s round) (hs : Serves P s batch t) (hbatch : ids batch = round) :
    Repeats P t round := by
  intro m es u hes hlen
  have hids := h (m + 1) _ _ (hs.append hes) (by
    rw [List.length_append, ← ids_length batch, hbatch, hlen, Nat.succ_mul, Nat.add_comm])
  rw [ids_append, hbatch, List.replicate_succ, List.flatten_cons] at hids
  exact List.append_cancel_left hids

/-- A batch that ends like the round and nowhere contains its end before is the
round, as long as the list goes on serving. -/
theorem Repeats.batch_eq {s t u : PriorityOrderList} {front picks : List Nat} {c : Nat}
    (h : Repeats P s (front ++ [c])) (hfront : c ∉ front) (hpicks : c ∉ picks)
    {batch es : List PriorityElem} (hs : Serves P s batch t) (hbatch : ids batch = picks ++ [c])
    (hes : Serves P s es u) (hlen : es.length = batch.length * (front ++ [c]).length) :
    picks = front := by
  obtain ⟨es', rfl, -⟩ := hs.prefix_of_le hes (by
    rw [hlen]
    exact Nat.le_mul_of_pos_right _ (by simp))
  have hids := h _ _ _ hes hlen
  obtain ⟨n, hn⟩ : ∃ n, batch.length = n + 1 := by
    refine ⟨picks.length, ?_⟩
    rw [← ids_length, hbatch, List.length_append]
    rfl
  rw [ids_append, hbatch, hn, List.replicate_succ, List.flatten_cons, List.append_assoc,
    List.append_assoc] at hids
  exact eq_of_append_cons_eq hpicks hfront hids

section Loop

variable {base : List PriorityElem} {F : Int}

structure Loops (P : Platform) (base : List PriorityElem) (hbase : base ≠ []) (F : Int)
    (a : Nat → Int) (s : PriorityOrderList) : Prop where
  base_eq : s.baseSpeed = base
  priority : s.priorityList = []
  started : s.currentTurn ≠ 0
  holds : Holds base a s.analyzedList
  bounded : Table.Bounded (table base hbase) F a
  repeats : Repeats P s (ids base.reverse)

def wageOf (base : List PriorityElem) : Nat → Int := wage (unplayed base 0)

theorem Loops.turn (h : Roster P base F) (hlen : 1 < base.length)
    (hcount : ∀ n, P.uint (n + 1) ≠ 0) {a : Nat → Int} {s : PriorityOrderList}
    (hs : Loops P base h.ne_nil F a s) :
    ∃ a' t, Loops P base h.ne_nil F a' t ∧
      (table base h.ne_nil).Turn (wageOf base) a (ids base.reverse) a' := by
  obtain ⟨t, picks, a', hrefill, hplayed, hbaset, hholds, hbounded, hpriority, hturn⟩ :=
    h.refill_turn hs.base_eq hlen hs.started hs.holds hs.bounded
  obtain ⟨b, hround, hpay⟩ := hplayed
  obtain ⟨front, hpicks, hclosed⟩ := hround.closer_last
  have hbatch : ids t.priorityList.reverse = picks := by
    rw [ids_reverse, hpriority, hs.priority]
    simp
  have hserves : Serves P s t.priorityList.reverse t.drained := by
    apply hrefill.serves (hs.base_eq ▸ h.ne_nil) hs.priority
      (serves_drained (hbaset ▸ h.ne_nil))
    intro hnil
    rw [hnil] at hbatch
    simp [hpicks] at hbatch
  have hpicks_eq : picks = ids base.reverse := by
    obtain ⟨x, rest, hcons⟩ := List.exists_cons_of_ne_nil h.ne_nil
    have hcloser : (table base h.ne_nil).closer = x.id := by simp [table, hcons]
    have hround_eq : ids base.reverse = (ids rest).reverse ++ [x.id] := by
      simp [ids_reverse, hcons]
    have hnodup := h.nodup
    rw [hcons, ids_cons, List.nodup_cons] at hnodup
    rw [hcloser] at hpicks hclosed
    obtain ⟨es, u, hes, hserves', -⟩ :=
      (h.capped_of_bounded hs.base_eq hs.holds hs.bounded).serves h
        (t.priorityList.reverse.length * ((ids rest).reverse ++ [x.id]).length)
    have hfront := (hround_eq ▸ hs.repeats).batch_eq (by simpa using hnodup.1) hclosed hserves
      (hbatch.trans hpicks) hserves' hes
    rw [hpicks, hfront, hround_eq]
  refine ⟨a', t.drained, ⟨hbaset, rfl, ?_, hholds, hbounded, ?_⟩, b, hpicks_eq ▸ hround,
    fun i hi => ?_⟩
  · show t.currentTurn ≠ 0
    rw [hturn]
    exact hcount _
  · exact hs.repeats.after hserves (hbatch.trans hpicks_eq)
  · rw [hpay i hi, wageOf, wage, wage, hs.base_eq]
    simp [unplayed, getFastestBaseSpeed, hs.base_eq]

theorem Roster.not_repeats (h : Roster P base F) (hlen : 1 < base.length)
    (hcount : ∀ n, P.uint (n + 1) ≠ 0) {s : PriorityOrderList} (hbase : s.baseSpeed = base)
    (hanalyzed : s.analyzedList = base) (hprio : s.priorityList = []) (hturn : s.currentTurn ≠ 0) :
    ¬ Repeats P s (ids base.reverse) := by
  intro hrepeats
  have hstart : Loops P base h.ne_nil F (speedOf base) s :=
    ⟨hbase, hprio, hturn, hanalyzed.symm ▸ holds_of_keys h.nodup (List.Perm.refl _), h.bounded,
      hrepeats⟩
  have hseat : (base.head h.ne_nil).id ∈ (table base h.ne_nil).seats :=
    (table base h.ne_nil).closer_mem
  refine Table.not_invariant_same_picks (I := fun a => ∃ s, Loops P base h.ne_nil F a s)
    (B := 9 * F) (w := wageOf base) (l := ids base.reverse)
    (fun i hi => neighbour_ne h.nodup hlen (List.mem_toFinset.mp hi))
    (fun a ⟨s, hs⟩ => ?_) (fun a ⟨s, hs⟩ => hs.bounded.solvent) (fun a ⟨s, hs⟩ => hs.bounded.le)
    ⟨s, hstart⟩ hseat ?_
  · obtain ⟨a', t, ht, hplayed⟩ := hs.turn h hlen hcount
    exact ⟨a', ⟨t, ht⟩, hplayed⟩
  · have hF := h.pos
    have hhead := List.head_mem h.ne_nil
    have hwage := h.wage_eq (s := unplayed base 0) rfl hhead
    rw [wageOf, hwage, speedOf_eq h.nodup hhead]
    omega

end Loop

/-! ## Exactly when the two ways agree -/

theorem eq_of_distinct_speeds {l l' : List PriorityElem} (hspeeds : (l.map (·.speed)).Nodup)
    (hl : Ascending l) (hl' : Ascending l') (hperm : l'.Perm l) : l' = l :=
  List.Perm.eq_of_pairwise (fun _ _ ha hb hle hge =>
    List.inj_on_of_nodup_map hspeeds (hperm.mem_iff.mp ha) hb (Int.le_antisymm hle hge)) hl' hl hperm

/-- Built by arrivals, a list stands after two base orders where the constructed
list stands after one. -/
theorem serves_base_twice {base : List PriorityElem} (hne : base ≠ [])
    (hsorted : P.sort.run base = base) :
    Serves P (unplayed base 0) (base.reverse ++ base.reverse) (unplayed base (P.uint 1)).drained := by
  refine (serves_drained (s := unplayed base 0) hne).append ?_
  have hrefill : Refills P (unplayed base 0).drained
      { (unplayed base 0).drained with
        baseSpeed := P.sort.run base
        analyzedList := P.sort.run base
        priorityList := P.sort.run base
        currentTurn := P.uint 1 } :=
    (refills_iff (s := (unplayed base 0).drained) hne).mpr (.inl ⟨rfl, rfl⟩)
  rw [hsorted] at hrefill
  refine hrefill.serves hne rfl ?_ (by simpa using hne)
  obtain ⟨b, rest, rfl⟩ := List.exists_cons_of_ne_nil hne
  exact serves_drained (P := P) (s := ⟨b :: rest, b :: rest, b :: rest, b, P.uint 1⟩) hne

theorem serveAlike_of_single {b : PriorityElem} {turn turn' : Nat} (hb : 1 ≤ b.speed) :
    ServeAlike P (unplayed [b] turn) (unplayed [b] turn') := by
  have hstep (turn : Nat) : InStep (unplayed [b] turn) :=
    inStep_of_base (s := unplayed [b] turn) (by simpa [unplayed] using hb) rfl rfl
  have halone (turn : Nat) : Alone (unplayed [b] turn) := ⟨b, b, rfl, rfl, rfl⟩
  have hne (turn : Nat) : (unplayed [b] turn).baseSpeed ≠ [] := List.cons_ne_nil _ _
  intro k
  obtain ⟨es, t, hes, hserves⟩ := (halone turn).alwaysServes (P := P) k
  obtain ⟨es', t', hes', hserves'⟩ := (halone turn').alwaysServes (P := P) k
  refine ⟨es, es', t, t', hes, hes', hserves, hserves', ?_⟩
  rw [keys_of_single ((hstep turn).serves_keys (hne turn) hserves),
    keys_of_single ((hstep turn').serves_keys (hne turn') hserves'), hes, hes']

theorem serveAlike_of_length_le_one {base : List PriorityElem} (hlen : base.length ≤ 1)
    (hpos : ∀ b ∈ base, 1 ≤ b.speed) (turn turn' : Nat) :
    ServeAlike P (unplayed base turn) (unplayed base turn') := by
  rcases base with _ | ⟨b, _ | ⟨y, rest⟩⟩
  · intro k
    obtain ⟨es, t, hes, hserves⟩ :=
      alwaysServes_of_empty (P := P) (s := unplayed [] turn) rfl k
    obtain ⟨es', t', hes', hserves'⟩ :=
      alwaysServes_of_empty (P := P) (s := unplayed [] turn') rfl k
    exact ⟨es, es', t, t', hes, hes', hserves, hserves',
      by rw [hserves.keys_of_empty rfl, hserves'.keys_of_empty rfl, hes, hes']⟩
  · exact serveAlike_of_single (hpos b List.mem_cons_self)
  · simp at hlen

/-- With distinct ids and distinct positive speeds, and in every order of
insertion, the list built by arrivals serves what the constructed one serves
if at most one participant takes part; on unbounded integers only then. -/
theorem both_ways_agree_iff (P : Platform) {l l' : List PriorityElem} (hids : (ids l).Nodup)
    (hspeeds : (l.map (·.speed)).Nodup) (hpos : ∀ b ∈ l, 1 ≤ b.speed) (hperm : l'.Perm l)
    {s s' : PriorityOrderList} (hs : Returns (fun fuel => ofBaseSpeed P fuel l) s)
    (hs' : Returns (fun fuel => addAll P fuel l' empty) s') :
    (l.length ≤ 1 → ServeAlike P s s') ∧
      ((∀ v, P.fits v = true) → (∀ n, P.uint (n + 1) ≠ 0) →
        (ServeAlike P s s' ↔ l.length ≤ 1)) := by
  have hperm' : (P.sort.run l).Perm l := P.sort.perm l
  have hspeeds' : ((P.sort.run l).map (·.speed)).Nodup := (hperm'.map _).nodup_iff.mpr hspeeds
  obtain rfl : s' = unplayed (P.sort.run l) 0 := by
    obtain ⟨base, hbase, hasc, hruns⟩ := addAll_unplayed (P := P)
      (List.nil_append l' ▸ keys_nodup ((ids_perm hperm).nodup_iff.mpr hids)) .nil
    obtain ⟨fuel, hfuel⟩ := hs'
    rw [← eq_of_distinct_speeds hspeeds' (P.sort.ascending l) hasc
      ((hbase.trans hperm).trans hperm'.symm)]
    exact Except.ok.inj (hfuel.symm.trans (hruns fuel))
  obtain rfl : s = unplayed (P.sort.run l) (if l = [] then 0 else P.uint 1) := by
    obtain ⟨fuel, hfuel⟩ := hs
    exact Except.ok.inj (hfuel.symm.trans (ofBaseSpeed_eq fuel l))
  have hfew (hlen : l.length ≤ 1) : ServeAlike P
      (unplayed (P.sort.run l) (if l = [] then 0 else P.uint 1)) (unplayed (P.sort.run l) 0) :=
    serveAlike_of_length_le_one (hperm'.length_eq.trans_le hlen)
      (fun b hb => hpos b (hperm'.mem_iff.mp hb)) _ _
  refine ⟨hfew, fun hP hcount => ⟨fun halike => ?_, hfew⟩⟩
  by_contra hmany
  have hlen : 1 < (P.sort.run l).length := by
    rw [hperm'.length_eq]
    omega
  have hl : l ≠ [] := List.ne_nil_of_length_pos (by omega)
  have hne : P.sort.run l ≠ [] := List.ne_nil_of_length_pos (by omega)
  have hlast := hperm'.mem_iff.mp (List.getLast_mem hne)
  have hroster : Roster P (P.sort.run l) ((P.sort.run l).getLast hne).speed :=
    roster_of_sorted hids
      (fun b hb => ⟨hpos b hb, speed_le_last (P.sort.ascending _) hne (hperm'.mem_iff.mpr hb)⟩)
      ⟨_, hlast, rfl⟩ (.inr hspeeds) fun v _ _ => hP v
  rw [if_neg hl] at halike
  have hrepeats := halike.repeats (serves_drained (s := unplayed _ (P.uint 1)) hne)
    (serves_base_twice hne hroster.sorted)
  exact hroster.not_repeats hlen hcount rfl rfl rfl (hcount 0) hrepeats

theorem both_ways_agree_iff_two :
    ServeAlike (.unbounded insertionSort) (unplayed [⟨1, 1, false⟩, ⟨2, 2, true⟩] 1)
      (unplayed [⟨1, 1, false⟩, ⟨2, 2, true⟩] 0) ↔
      [(⟨1, 1, false⟩ : PriorityElem), ⟨2, 2, true⟩].length ≤ 1 :=
  (both_ways_agree_iff (.unbounded insertionSort) (l := [⟨1, 1, false⟩, ⟨2, 2, true⟩])
    (by decide) (by decide) (by decide) (List.Perm.swap _ _ []) ⟨0, rfl⟩ ⟨0, rfl⟩).2
    (fun _ => rfl) (fun _ => Nat.succ_ne_zero _)

/-- Speeds 1 and 2: the constructed list serves the faster one twice in its
first turn, the other list serves the base order once more. -/
theorem both_ways_disagree :
    ¬ ∀ (l l' : List PriorityElem) (s s' : PriorityOrderList), (ids l).Nodup →
      (l.map (·.speed)).Nodup → (∀ b ∈ l, 1 ≤ b.speed) → l'.Perm l →
        Returns (fun fuel => ofBaseSpeed (.unbounded insertionSort) fuel l) s →
          Returns (fun fuel => addAll (.unbounded insertionSort) fuel l' empty) s' →
            ServeAlike (.unbounded insertionSort) s s' := by
  intro h
  have halike := h [⟨1, 1, false⟩, ⟨2, 2, true⟩] _ (unplayed [⟨1, 1, false⟩, ⟨2, 2, true⟩] 1)
    (unplayed [⟨1, 1, false⟩, ⟨2, 2, true⟩] 0) (by decide) (by decide) (by decide)
    (List.Perm.refl _) ⟨0, rfl⟩ ⟨0, rfl⟩
  obtain ⟨t, ht⟩ : ∃ t, serve (.unbounded insertionSort) 9 4
      (unplayed [⟨1, 1, false⟩, ⟨2, 2, true⟩] 1) =
        .ok ([⟨2, 2, true⟩, ⟨1, 1, false⟩, ⟨2, 1, true⟩, ⟨2, 0, true⟩], t) := ⟨_, rfl⟩
  obtain ⟨t', ht'⟩ : ∃ t', serve (.unbounded insertionSort) 9 4
      (unplayed [⟨1, 1, false⟩, ⟨2, 2, true⟩] 0) =
        .ok ([⟨2, 2, true⟩, ⟨1, 1, false⟩, ⟨2, 2, true⟩, ⟨1, 1, false⟩], t') := ⟨_, rfl⟩
  exact absurd (halike.keys_eq (serves_of_serve ht) (serves_of_serve ht') rfl) (by decide)

end FyS.Arena.PriorityOrderList
