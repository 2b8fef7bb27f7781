import FyS.Arena.Pit.Schedule
import FyS.Arena.Pit.TurnTiming
import FyS.Arena.PriorityOrder.WaitingTime

/-!
# A turn for everybody

A side that is asked from time to time, however often in between, hands out a turn at least
once in an interlude.  With the bound on the calls of `getNext` that a participant waits for,
everybody on a side gets a turn within a bounded number of interludes.
-/

namespace FyS.Arena

open FyS.Library.Fuel FyS.Library.Interleaving FyS.Library.Trace HexagonSide PriorityOrderList

variable {P : Platform} {C : ChaiScript} {fuel : Nat}

namespace SideBattle

variable {timerInterlude t now : Int} {sb sb' : SideBattle} {calls : List (Int × PriorityElem)}

def Armed (timerInterlude t : Int) (sb : SideBattle) : Prop :=
  sb.started = true → sb.endCurrentTurn ≤ t + timerInterlude

theorem deadline_of_started (h : sb.started = true) :
    sb.deadline now timerInterlude = sb.endCurrentTurn := by
  rw [deadline, start, if_pos h]

theorem deadline_of_not_started (h : sb.started ≠ true) :
    sb.deadline now timerInterlude = now + timerInterlude := by
  rw [deadline, start, if_neg h]

theorem Armed.deadline_le (h : Armed timerInterlude t sb) (ht : t ≤ now) :
    sb.deadline now timerInterlude ≤ now + timerInterlude := by
  by_cases hstarted : sb.started = true
  · have hends := h hstarted
    rw [deadline_of_started hstarted]
    omega
  · rw [deadline_of_not_started hstarted]

theorem Armed.asked {e : PriorityElem} (hsb : Armed timerInterlude t sb) (ht : t ≤ now)
    (h : Returns (fun fuel => sb.getCurrentParticipantTurn P fuel now timerInterlude) (e, sb')) :
    sb'.started = true ∧ sb'.endCurrentTurn ≤ now + timerInterlude := by
  have hstarted : (sb.start now timerInterlude).started = true := by
    unfold start
    split
    · assumption
    · rfl
  rcases asked_iff.mp h with ⟨-, -, rfl⟩ | ⟨-, s, -, rfl⟩
  · exact ⟨hstarted, hsb.deadline_le ht⟩
  · exact ⟨hstarted, Int.le_refl _⟩

theorem Asks.armed (h : Asks P timerInterlude sb calls sb') (hsb : Armed timerInterlude t sb)
    (ht : ∀ call ∈ calls, call.1 ≤ t) : Armed timerInterlude t sb' := by
  induction h with
  | nil => exact hsb
  | @cons sb sb₁ sb' now e calls head tail ih =>
      have hnow : now ≤ t := ht _ List.mem_cons_self
      refine ih ?_ fun call hcall => ht call (List.mem_cons_of_mem _ hcall)
      intro _
      rcases asked_iff.mp head with ⟨-, -, rfl⟩ | ⟨-, s, -, rfl⟩
      · show sb.deadline now timerInterlude ≤ t + timerInterlude
        by_cases hstarted : sb.started = true
        · rw [deadline_of_started hstarted]
          exact hsb hstarted
        · rw [deadline_of_not_started hstarted]
          omega
      · show now + timerInterlude ≤ t + timerInterlude
        omega

theorem spaced_tail {times spaced : List Int} (hlater : ∀ later ∈ times, now ≤ later)
    (hspaced : spaced.Sublist (now :: times))
    (hapart : spaced.Pairwise fun now later => now + timerInterlude ≤ later) :
    spaced.tail.Sublist times ∧
      (spaced.tail.Pairwise fun now later => now + timerInterlude ≤ later) ∧
        (∀ later ∈ spaced.tail, now + timerInterlude ≤ later) ∧
          spaced.length ≤ spaced.tail.length + 1 := by
  cases spaced with
  | nil => exact ⟨List.nil_sublist _, .nil, List.forall_mem_nil _, Nat.zero_le _⟩
  | cons first rest =>
      obtain ⟨hfirst, hapart⟩ := List.pairwise_cons.mp hapart
      have hnow : now ≤ first := by
        rcases List.mem_cons.mp (hspaced.subset List.mem_cons_self) with rfl | hmem
        · exact Int.le_refl _
        · exact hlater first hmem
      refine ⟨hspaced.tail, hapart, ?_, Nat.le_refl _⟩
      intro later hmem
      exact Int.le_trans (Int.add_le_add_right hnow _) (hfirst later hmem)

theorem Asks.serves_spaced (h : Asks P timerInterlude sb calls sb')
    (hstarted : sb.started = true) (hends : sb.endCurrentTurn ≤ t + timerInterlude)
    (hclock : (calls.map Prod.fst).Pairwise (· ≤ ·)) {spaced : List Int}
    (hspaced : spaced.Sublist (calls.map Prod.fst))
    (hapart : spaced.Pairwise fun now later => now + timerInterlude ≤ later)
    (hafter : ∀ now ∈ spaced, t + timerInterlude ≤ now) :
    ∃ es, Serves P sb.priorityOrderList es sb'.priorityOrderList ∧
      es.Sublist (calls.map Prod.snd) ∧ spaced.length ≤ es.length := by
  induction h generalizing t spaced with
  | nil => exact ⟨[], .nil, List.Sublist.refl _, hspaced.length_le⟩
  | @cons sb sb₁ sb' now e calls head tail ih =>
      rw [List.map_cons, List.pairwise_cons] at hclock
      rw [List.map_cons] at hspaced
      obtain ⟨hlater, hclock⟩ := hclock
      rcases asked_iff.mp head with ⟨hearly, -, rfl⟩ | ⟨-, s, hgives, rfl⟩
      · rw [deadline_of_started hstarted] at hearly
        have hsame : sb.start now timerInterlude = sb := by rw [start, if_pos hstarted]
        have hrest : spaced.Sublist (calls.map Prod.fst) := by
          rcases List.sublist_cons_iff.mp hspaced with hrest | ⟨rest, rfl, -⟩
          · exact hrest
          · have := hafter now List.mem_cons_self
            omega
        rw [hsame] at ih
        obtain ⟨es, hserves, hsub, hlength⟩ := ih hstarted hends hclock hrest hapart hafter
        exact ⟨es, hserves, hsub.cons _, hlength⟩
      · have hstarted₁ : (sb.start now timerInterlude).started = true := by
          rw [start, if_pos hstarted]
          exact hstarted
        obtain ⟨hrest, hapart', hafter', hlength⟩ := spaced_tail hlater hspaced hapart
        obtain ⟨es, hserves, hsub, hle⟩ :=
          ih hstarted₁ (Int.le_refl (now + timerInterlude)) hclock hrest hapart' hafter'
        refine ⟨e :: es, .cons hgives hserves, hsub.cons_cons _, hlength.trans ?_⟩
        rw [List.length_cons]
        omega

theorem Asks.serves_from_first (h : Asks P timerInterlude sb calls sb')
    (hsb : ∀ t ∈ (calls.map Prod.fst).head?, Armed timerInterlude t sb)
    (hclock : (calls.map Prod.fst).Pairwise (· ≤ ·)) {spaced : List Int}
    (hspaced : spaced.Sublist (calls.map Prod.fst))
    (hapart : spaced.Pairwise fun now later => now + timerInterlude ≤ later) :
    ∃ es, Serves P sb.priorityOrderList es sb'.priorityOrderList ∧
      es.Sublist (calls.map Prod.snd) ∧ spaced.length ≤ es.length + 1 := by
  cases h with
  | nil => exact ⟨[], .nil, List.Sublist.refl _, Nat.le_succ_of_le hspaced.length_le⟩
  | @cons _ sb₁ _ now e calls head tail =>
      rw [List.map_cons, List.pairwise_cons] at hclock
      rw [List.map_cons] at hspaced hsb
      have harmed : Armed timerInterlude now sb := hsb now rfl
      obtain ⟨hstarted, hends⟩ := harmed.asked (Int.le_refl now) head
      obtain ⟨hrest, hapart', hafter, hlength⟩ := spaced_tail hclock.1 hspaced hapart
      obtain ⟨es, hserves, hsub, hle⟩ :=
        tail.serves_spaced hstarted hends hclock.2 hrest hapart' hafter
      rcases asked_iff.mp head with ⟨-, -, rfl⟩ | ⟨-, s, hgives, rfl⟩
      · rw [start_priorityOrderList] at hserves
        exact ⟨es, hserves, hsub.cons _, hlength.trans (Nat.succ_le_succ hle)⟩
      · refine ⟨e :: es, .cons hgives hserves, hsub.cons_cons _, ?_⟩
        rw [List.length_cons]
        omega

theorem asks_of_runs {nows : List Int} (hbase : sb.priorityOrderList.baseSpeed ≠ [])
    (h : runs (play P fuel timerInterlude) nows sb = ⟨calls, .ok sb'⟩) :
    Asks P timerInterlude sb calls sb' ∧ calls.map Prod.fst = nows := by
  induction nows generalizing sb calls with
  | nil =>
      obtain ⟨rfl, rfl⟩ := Traced.ok_eq_ok.mp h
      exact ⟨.nil, rfl⟩
  | cons now nows ih =>
      obtain ⟨log₁, next, log₂, hfirst, hrest, rfl⟩ := Traced.andThen_eq_ok.mp h
      have hsome : ¬ sb.empty = true := fun hempty => hbase (List.isEmpty_iff.mp hempty)
      unfold play at hfirst
      rw [if_neg hsome] at hfirst
      cases hasked : sb.getCurrentParticipantTurn P fuel now timerInterlude with
      | error fault =>
          rw [hasked] at hfirst
          cases (Traced.mk.inj hfirst).2
      | ok answer =>
          obtain ⟨currentParticipant, sb₁⟩ := answer
          rw [hasked] at hfirst
          obtain ⟨rfl, rfl⟩ := Traced.ok_eq_ok.mp hfirst
          have hhead : Returns (fun fuel => sb.getCurrentParticipantTurn P fuel now timerInterlude)
              (currentParticipant, sb₁) := ⟨fuel, hasked⟩
          obtain ⟨hasks, htimes⟩ := ih
            (fun hnil => hbase (List.nil_perm.mp (hnil ▸ asked_perm hhead))) hrest
          exact ⟨.cons hhead hasks, congrArg (now :: ·) htimes⟩

/-- On a side that was not played before, in a stretch of ticks with more times an interlude
apart than the bound, everybody is handed a turn. -/
theorem everybody_asked {base : List PriorityElem} {F : Int} (h : Roster P base F)
    {side : Orientation} {sb₁ sb₂ : SideBattle} {before nows spaced : List Int}
    {done log : List (Int × PriorityElem)}
    (hbefore : runs (play P fuel timerInterlude) before (FightingPit.unplayedBattle base side) =
      ⟨done, .ok sb₁⟩)
    (hrun : runs (play P fuel timerInterlude) nows sb₁ = ⟨log, .ok sb₂⟩)
    (hclock : (before ++ nows).Pairwise (· ≤ ·)) (hspaced : spaced.Sublist nows)
    (hapart : spaced.Pairwise fun now later => now + timerInterlude ≤ later)
    (hlong : waitBound base.length F + 1 < spaced.length) :
    ∀ e ∈ base, ∃ call ∈ log, call.2.key = e.key := by
  obtain ⟨hclock₁, hclock₂, hacross⟩ := List.pairwise_append.mp hclock
  have harmed (t : Int) : Armed timerInterlude t (FightingPit.unplayedBattle base side) := by
    intro hstarted
    cases hstarted
  -- the first stretch
  obtain ⟨hasks₁, rfl⟩ := asks_of_runs h.ne_nil hbefore
  obtain ⟨es₁, hserves₁, -, -⟩ := hasks₁.serves_from_first (fun t _ => harmed t) hclock₁
    (List.nil_sublist _) .nil
  have hqueued : Queued h sb₁.priorityOrderList := (h.queued_unplayed 0).serves hserves₁
  obtain ⟨-, a, hcredits⟩ := id hqueued
  -- the second one
  have hbase₁ : sb₁.priorityOrderList.baseSpeed ≠ [] := hcredits.base_eq ▸ h.ne_nil
  obtain ⟨hasks₂, rfl⟩ := asks_of_runs hbase₁ hrun
  obtain ⟨es, hserves, hsub, hlength⟩ := hasks₂.serves_from_first
    (fun t ht => hasks₁.armed (harmed t) fun call hcall =>
      hacross _ (List.mem_map_of_mem hcall) t (List.mem_of_mem_head? ht)) hclock₂ hspaced hapart
  intro e he
  have hmem : e.id ∈ ids es :=
    hqueued.everybody_served hserves (by omega) (id_mem he)
  obtain ⟨served, hserved, hid⟩ := List.mem_map.mp hmem
  obtain ⟨call, hcall, rfl⟩ := List.mem_map.mp (hsub.subset hserved)
  have hlisted : Listed (keys base) (unplayed base 0) :=
    ⟨fun _ => key_mem, fun _ => key_mem, fun _ => key_mem⟩
  have hkeys := ((hlisted.serves h.ne_nil hserves₁).1.serves hbase₁ hserves).2 _ hserved
  exact ⟨call, hcall, key_eq_of_id_eq h.nodup hkeys he hid⟩

end SideBattle

namespace FightingPit

/-- On a side whose participants have distinct ids and base speeds between 1 and `F`, if
`std::sort` keeps ascending lists or the speeds are distinct, and `int` holds `20 * F`: in every
stretch of a battle with more times an interlude apart than the bound, each of them gets a
turn. -/
theorem everybody_gets_a_turn {F : Int} {fp fp₀ fp₁ fp₂ : FightingPit C} {side : Orientation}
    (hside : side ≠ .NONE) (hfresh : fp.sideBattles = []) (hrunning : fp.ending = .NOT_FINISHED)
    (hinit : Returns (fun fuel => initializeSideBattles P fuel fp) fp₀)
    (hids : (ids (fp.entries side)).Nodup)
    (hbounds : ∀ e ∈ fp.entries side, 1 ≤ e.speed ∧ e.speed ≤ F)
    (hfastest : ∃ e ∈ fp.entries side, e.speed = F)
    (hsort : (∀ l, Ascending l → P.sort.run l = l) ∨ ((fp.entries side).map (·.speed)).Nodup)
    (hfits : ∀ v, 0 ≤ v → v ≤ 20 * F → P.fits v = true) {before nows spaced : List Int}
    {done log : List (Turn C)} (hbefore : battle P fuel before fp₀ = ⟨done, .ok fp₁⟩)
    (hrun : battle P fuel nows fp₁ = ⟨log, .ok fp₂⟩) (hclock : (before ++ nows).Pairwise (· ≤ ·))
    (hspaced : spaced.Sublist nows)
    (hapart : spaced.Pairwise fun now later => now + fp.timeInterlude ≤ later)
    (hlong : waitBound (fp.entries side).length F + 1 < spaced.length) :
    ∀ e ∈ fp.entries side, ∃ turn ∈ log,
      turn.battle.side = side ∧ turn.currentParticipant.key = e.key := by
  intro e he
  obtain ⟨base, hbase, hruns⟩ := initializeSideBattles_sorted P hfresh
  obtain ⟨fuel₀, hfuel₀⟩ := hinit
  have hfp₀ := Except.ok.inj (hfuel₀.symm.trans (hruns fuel₀))
  obtain ⟨hperm, hasc⟩ := hbase side
  have hroster := roster_of_perm hperm hasc hids hbounds hfastest hsort hfits
  have hbattles : fp₀.sideBattles = sides.map fun side => unplayedBattle (base side) side :=
    congrArg FightingPit.sideBattles hfp₀
  have hending : fp₀.ending = .NOT_FINISHED := by
    rw [hfp₀]
    exact hrunning
  have hinterlude : fp₀.timeInterlude = fp.timeInterlude := by
    rw [hfp₀]
  have hnames : fp₀.sideBattles.map (·.side) = sides := by
    rw [hbattles, List.map_map]
    exact List.map_id _
  have hsides : (fp₀.sideBattles.map (·.side)).Nodup := by
    rw [hnames]
    decide
  have hsb : unplayedBattle (base side) side ∈ fp₀.sideBattles :=
    hbattles ▸ List.mem_map_of_mem (mem_sides.mpr hside)
  have hfound : fp₀.battles side = some (unplayedBattle (base side) side) :=
    FyS.Library.KeyedTable.find_of_mem hsides hsb
  -- the side before, between and after the two stretches
  obtain ⟨hending₁, hinterlude₁, hsides₁, -⟩ := battle_schedules hsides hending hbefore
  have hbefore := battle_component hsides hending hbefore side
  have hrun := battle_component (hsides₁ ▸ hsides) hending₁ hrun side
  rw [hfound, hinterlude] at hbefore
  obtain ⟨sb₁, hsb₁, hbefore⟩ := hbefore
  rw [hsb₁, hinterlude₁, hinterlude] at hrun
  obtain ⟨sb₂, -, hrun⟩ := hrun
  rw [← hperm.length_eq] at hlong
  obtain ⟨call, hcall, hkey⟩ := SideBattle.everybody_asked hroster hbefore hrun hclock hspaced
    hapart hlong e (hperm.mem_iff.mpr he)
  obtain ⟨turn, hturn, hside, rfl⟩ := mem_turnsOn.mp hcall
  exact ⟨turn, hturn, hside, hkey⟩

def standoff : FightingPit (constantChai harmless) :=
  assembled harmless [monster 0 .A_N 1] [recruit "first" .A_N 1]

def longRun : List Int := (List.range 398).map fun n : Nat => 10000 * (n : Int)

theorem everybody_gets_a_turn_standoff : ∃ log fp',
    battle (.unbounded insertionSort) 5 longRun (arranged standoff) = ⟨log, .ok fp'⟩ ∧
      ∀ e ∈ standoff.entries .A_N, ∃ turn ∈ log,
        turn.battle.side = .A_N ∧ turn.currentParticipant.key = e.key := by
  have hends : (battle (.unbounded insertionSort) 5 longRun (arranged standoff)).result.isOk =
      true := by decide +kernel
  obtain ⟨fp', hrun⟩ := Traced.eq_of_isOk hends
  have hapart : longRun.Pairwise fun now later => now + 10000 ≤ later := by
    rw [longRun, List.pairwise_map]
    refine List.pairwise_lt_range.imp ?_
    intro n m h
    omega
  have hclock : longRun.Pairwise (· ≤ ·) := hapart.imp fun h => by omega
  have hlong : waitBound (standoff.entries .A_N).length 1 + 1 < longRun.length := by
    rw [longRun, List.length_map, List.length_range]
    decide
  have hbefore : battle (.unbounded insertionSort) 5 [] (arranged standoff) =
      ⟨[], .ok (arranged standoff)⟩ := rfl
  exact ⟨_, fp', hrun, everybody_gets_a_turn (F := 1) (by decide) rfl rfl ⟨0, rfl⟩ (by decide)
    (by decide) (by decide) (.inl fun l hl => List.Pairwise.insertionSort_eq hl) (fun _ _ _ => rfl)
    hbefore hrun hclock (List.Sublist.refl _) hapart hlong⟩

end FightingPit

end FyS.Arena
