import FyS.Arena.Pit.Initial
import FyS.Arena.Pit.Runs
import FyS.Arena.PriorityOrder.Listed

/-!
# What a side battle answers

A side answers with the element it served last, or asks its list for the next
one.  Everything in a list is registered, but the element served last starts as
the default value, and a side whose timer runs for the first time has served
nobody.
-/

namespace FyS.Arena

open FyS.Library.Fuel HexagonSide PriorityOrderList

variable {P : Platform}

namespace SideBattle

/-! ## Registered elements -/

structure Registered (sb : SideBattle) : Prop where
  listed : Listed (keys sb.priorityOrderList.baseSpeed) sb.priorityOrderList
  current : sb.priorityOrderList.currentPrio.key ∈ keys sb.priorityOrderList.baseSpeed ∨
    sb.priorityOrderList.currentPrio = ⟨0, 0, false⟩

theorem Registered.asked {sb sb' : SideBattle} {fuel : Nat} {now timerInterlude : Int}
    {e : PriorityElem} (h : sb.Registered) (hbase : sb.priorityOrderList.baseSpeed ≠ [])
    (hnext : sb.getCurrentParticipantTurn P fuel now timerInterlude = .ok (e, sb')) :
    (e.key ∈ keys sb.priorityOrderList.baseSpeed ∨ e = ⟨0, 0, false⟩) ∧ sb'.Registered := by
  rcases getCurrentParticipantTurn_cases hnext with
    ⟨-, rfl, rfl⟩ | ⟨-, priorityOrderList, hgives, rfl⟩
  · refine ⟨h.current, ?_, ?_⟩
    · rw [start_priorityOrderList]
      exact h.listed
    · rw [start_priorityOrderList]
      exact h.current
  · obtain ⟨hlisted, hserved, hcurrent⟩ := h.listed.getNext hbase hgives
    have hsame : ∀ k, k ∈ keys priorityOrderList.baseSpeed ↔
        k ∈ keys sb.priorityOrderList.baseSpeed := fun k => (keys_perm (getNext_perm hgives)).mem_iff
    refine ⟨.inl hserved, ⟨?_, ?_, ?_⟩, .inl ?_⟩
    · exact fun e he => (hsame _).mpr (hlisted.base e he)
    · exact fun e he => (hsame _).mpr (hlisted.analyzed e he)
    · exact fun e he => (hsame _).mpr (hlisted.priority e he)
    · show priorityOrderList.currentPrio.key ∈ _
      rw [hcurrent]
      exact (hsame _).mpr hserved

theorem registered_unplayedBattle (base : List PriorityElem) (side : Orientation) :
    (FightingPit.unplayedBattle base side).Registered :=
  ⟨⟨fun _ => key_mem, fun _ => key_mem, fun _ => key_mem⟩, .inr rfl⟩

/-! ## The states of a side -/

inductive Used (P : Platform) : SideBattle → Prop
  | new (side : Orientation) : Used P (.new side)
  | added {sb sb'} (id : Nat) (speed : Int) (isContender : Bool) (hsb : Used P sb)
      (h : Returns (fun fuel => sb.addParticipantInList P fuel id speed isContender) sb') :
      Used P sb'
  | asked {sb sb' e} (now timerInterlude : Int) (hsb : Used P sb)
      (h : Returns (fun fuel => sb.getCurrentParticipantTurn P fuel now timerInterlude) (e, sb')) :
      Used P sb'

theorem added_iff {sb sb' : SideBattle} {id : Nat} {speed : Int} {isContender : Bool} :
    Returns (fun fuel => sb.addParticipantInList P fuel id speed isContender) sb' ↔
      ∃ s, Returns (fun fuel =>
          sb.priorityOrderList.addParticipantInList P fuel id speed isContender) s ∧
        sb' = { sb with priorityOrderList := s } := by
  have hbind := Returns.bind_iff (b := sb')
    (addParticipantInList_stable (P := P) id speed isContender sb.priorityOrderList)
    (g := fun s _ => .ok { sb with priorityOrderList := s }) fun _ => Stable.const _
  refine Iff.trans hbind ?_
  simp [Returns, eq_comm]

theorem asked_iff {sb sb' : SideBattle} {now timerInterlude : Int} {e : PriorityElem} :
    Returns (fun fuel => sb.getCurrentParticipantTurn P fuel now timerInterlude) (e, sb') ↔
      (now < sb.deadline now timerInterlude ∧ e = sb.priorityOrderList.currentPrio ∧
          sb' = sb.start now timerInterlude) ∨
        (sb.deadline now timerInterlude ≤ now ∧ ∃ s, Gives P sb.priorityOrderList e s ∧
          sb' = { sb.start now timerInterlude with
            endCurrentTurn := now + timerInterlude, priorityOrderList := s }) := by
  constructor
  · rintro ⟨fuel, hfuel⟩
    rcases getCurrentParticipantTurn_cases hfuel with h | ⟨hlate, s, hnext, hsb'⟩
    · exact .inl h
    · exact .inr ⟨hlate, s, ⟨fuel, hnext⟩, hsb'⟩
  · rintro (⟨hearly, rfl, rfl⟩ | ⟨hlate, s, ⟨fuel, hnext⟩, rfl⟩)
    · unfold deadline at hearly
      refine ⟨0, ?_⟩
      simp only [getCurrentParticipantTurn]
      rw [if_pos hearly, getCurrent, start_priorityOrderList]
    · unfold deadline at hlate
      refine ⟨fuel, ?_⟩
      simp only [getCurrentParticipantTurn]
      rw [if_neg (Int.not_lt.mpr hlate), start_priorityOrderList]
      exact bind_eq_ok.mpr ⟨(e, s), hnext, rfl⟩

theorem getCurrentParticipantTurn_stable (sb : SideBattle) (now timerInterlude : Int) :
    Stable .outOfFuel fun fuel => sb.getCurrentParticipantTurn P fuel now timerInterlude := by
  simp only [getCurrentParticipantTurn]
  split
  · exact Stable.const _
  · exact (getNext_stable _).bind fun _ => Stable.const _

theorem asked_perm {sb sb' : SideBattle} {now timerInterlude : Int} {e : PriorityElem}
    (h : Returns (fun fuel => sb.getCurrentParticipantTurn P fuel now timerInterlude) (e, sb')) :
    sb'.priorityOrderList.baseSpeed.Perm sb.priorityOrderList.baseSpeed := by
  rcases asked_iff.mp h with ⟨-, -, rfl⟩ | ⟨-, s, ⟨fuel, hnext⟩, rfl⟩
  · rw [start_priorityOrderList]
  · exact getNext_perm hnext

theorem Registered.added {sb : SideBattle} (h : sb.Registered) {s : PriorityOrderList} {id : Nat}
    {speed : Int} {isContender : Bool} (hadd : Returns (fun fuel =>
      sb.priorityOrderList.addParticipantInList P fuel id speed isContender) s) :
    Registered { sb with priorityOrderList := s } := by
  rcases adds_iff.mp hadd with ⟨-, rfl⟩ | ⟨-, stored, -, u, ⟨fuel, hrefill⟩, rfl⟩
  · exact h
  · let welcomed := sb.priorityOrderList.welcomed ⟨id, speed, isContender⟩ stored
    have hkeys : ∀ k, k ∈ keys u.baseSpeed ↔ k ∈ keys welcomed.baseSpeed :=
      fun k => (keys_perm (sortBaseAndCalculatePriority_perm hrefill)).mem_iff
    have hwelcomed : ∀ k ∈ keys sb.priorityOrderList.baseSpeed, k ∈ keys welcomed.baseSpeed := by
      intro k hk
      show k ∈ keys (_ ++ _)
      rw [keys_append]
      exact List.mem_append_left _ hk
    have hlisted : Listed (keys welcomed.baseSpeed) u := by
      apply Listed.sortBase _ hrefill
      constructor
      · exact fun _ => key_mem
      · intro e he
        rcases List.mem_append.mp he with he | he
        · exact hwelcomed _ (h.listed.analyzed e he)
        · rw [List.mem_singleton.mp he]
          show _ ∈ keys (_ ++ _)
          rw [keys_append]
          exact List.mem_append_right _ (List.mem_singleton_self _)
      · exact List.forall_mem_nil _
    constructor
    · constructor
      · exact fun e he => (hkeys _).mpr (hlisted.base e he)
      · exact fun e he => (hkeys _).mpr (hlisted.analyzed e he)
      · exact fun e he => (hkeys _).mpr (hlisted.priority e he)
    · show u.currentPrio.key ∈ keys u.baseSpeed ∨ u.currentPrio = ⟨0, 0, false⟩
      rw [sortBaseAndCalculatePriority_currentPrio hrefill, hkeys]
      exact h.current.imp_left (hwelcomed _)

theorem Used.registered {sb : SideBattle} (h : Used P sb) : sb.Registered := by
  induction h with
  | new side => exact registered_unplayedBattle [] side
  | added id speed isContender _ h ih =>
      obtain ⟨s, hadd, rfl⟩ := added_iff.mp h
      exact ih.added hadd
  | @asked sb _ _ now timerInterlude _ h ih =>
      by_cases hbase : sb.priorityOrderList.baseSpeed = []
      · rcases asked_iff.mp h with ⟨-, -, rfl⟩ | ⟨-, s, hgives, rfl⟩
        · refine ⟨?_, ?_⟩ <;> rw [start_priorityOrderList]
          · exact ih.listed
          · exact ih.current
        · obtain ⟨-, rfl⟩ := (gives_of_empty hbase).mp hgives
          exact ⟨ih.listed, ih.current⟩
      · obtain ⟨fuel, hfuel⟩ := h
        exact (ih.asked hbase hfuel).2

theorem Used.inStep {sb : SideBattle} (h : Used P sb)
    (hpos : ∀ b ∈ sb.priorityOrderList.baseSpeed, 1 ≤ b.speed) : InStep sb.priorityOrderList := by
  induction h with
  | new side => exact inStep_of_base (s := PriorityOrderList.empty) hpos rfl rfl
  | @added sb _ id speed isContender _ h ih =>
      obtain ⟨s, hadd, rfl⟩ := added_iff.mp h
      rcases adds_iff.mp hadd with ⟨-, rfl⟩ | ⟨-, stored, hstored, u, ⟨fuel, hrefill⟩, rfl⟩
      · exact ih hpos
      · have hperm := sortBaseAndCalculatePriority_perm hrefill
        have hpos' : ∀ b ∈ sb.priorityOrderList.baseSpeed ++ [⟨id, speed, isContender⟩],
            1 ≤ b.speed := fun b hb => hpos b (hperm.mem_iff.mpr hb)
        have hstep := ih fun b hb => hpos' b (List.mem_append_left _ hb)
        have hspeed : 1 ≤ speed := hpos' ⟨id, speed, isContender⟩ (by simp)
        obtain ⟨hpaid, -⟩ := (newcomerSpeed_sound hspeed).of_eq hstored
        obtain ⟨hu, -⟩ :=
          ((hstep.welcomed hspeed hpaid).refill_sound (welcomed_ne_nil _ _ _) fuel).of_eq hrefill
        exact ⟨hu.base_pos, hu.analyzed, hu.priority, hu.nonneg, hu.funded⟩
  | @asked sb _ _ now timerInterlude _ h ih =>
      have hperm := asked_perm h
      have hstep := ih fun b hb => hpos b (hperm.mem_iff.mpr hb)
      rcases asked_iff.mp h with ⟨-, -, rfl⟩ | ⟨-, s, hgives, rfl⟩
      · rw [start_priorityOrderList]
        exact hstep
      · obtain ⟨fuel, hfuel⟩ := hgives
        exact ((hstep.getNext_sound fuel).of_eq hfuel).1

/-! ## Who is handed the turn -/

/-- Whatever a call of the sequence answers is registered on the side. -/
def NeverPhantom (P : Platform) : SideBattle → List (Int × Int) → Prop
  | _, [] => True
  | sb, (now, timerInterlude) :: calls => ∀ e sb',
      Returns (fun fuel => sb.getCurrentParticipantTurn P fuel now timerInterlude) (e, sb') →
        e.key ∈ keys sb.priorityOrderList.baseSpeed ∧ NeverPhantom P sb' calls

def AnswersAll (P : Platform) : SideBattle → List (Int × Int) → Prop
  | _, [] => True
  | sb, (now, timerInterlude) :: calls => ∃ e sb',
      Returns (fun fuel => sb.getCurrentParticipantTurn P fuel now timerInterlude) (e, sb') ∧
        e.key ∈ keys sb.priorityOrderList.baseSpeed ∧ AnswersAll P sb' calls

/-- The element served last is registered, or the first call asks for the next one. -/
def Settled (sb : SideBattle) (calls : List (Int × Int)) : Prop :=
  sb.priorityOrderList.currentPrio.key ∈ keys sb.priorityOrderList.baseSpeed ∨
    ∀ call ∈ calls.head?, sb.deadline call.1 call.2 ≤ call.1

variable {sb sb' : SideBattle} {now timerInterlude : Int} {e : PriorityElem}
  {calls : List (Int × Int)}

theorem Settled.asked (h : Settled sb ((now, timerInterlude) :: calls)) (hsb : sb.Registered)
    (hbase : sb.priorityOrderList.baseSpeed ≠ [])
    (hask : Returns (fun fuel => sb.getCurrentParticipantTurn P fuel now timerInterlude) (e, sb')) :
    e.key ∈ keys sb.priorityOrderList.baseSpeed ∧ sb'.Registered ∧
      sb'.priorityOrderList.baseSpeed ≠ [] ∧ ∀ calls, Settled sb' calls := by
  obtain ⟨fuel, hfuel⟩ := id hask
  have hregistered := (hsb.asked hbase hfuel).2
  have hperm := asked_perm hask
  have hbase' : sb'.priorityOrderList.baseSpeed ≠ [] := by
    intro hnil
    rw [hnil] at hperm
    exact hbase (List.nil_perm.mp hperm)
  rcases asked_iff.mp hask with ⟨hearly, rfl, rfl⟩ | ⟨-, s, ⟨fuel', hnext⟩, rfl⟩
  · have hcurrent : sb.priorityOrderList.currentPrio.key ∈ keys sb.priorityOrderList.baseSpeed := by
      rcases h with hcurrent | hlate
      · exact hcurrent
      · exact absurd (hlate _ rfl) (Int.not_le.mpr hearly)
    refine ⟨hcurrent, hregistered, hbase', fun _ => .inl ?_⟩
    rw [start_priorityOrderList]
    exact hcurrent
  · obtain ⟨-, hserved, hcurrent⟩ := hsb.listed.getNext hbase hnext
    refine ⟨hserved, hregistered, hbase', fun _ => .inl ?_⟩
    show s.currentPrio.key ∈ keys s.baseSpeed
    rw [hcurrent]
    exact (keys_perm hperm).mem_iff.mpr hserved

theorem Settled.neverPhantom (h : Settled sb calls) (hsb : sb.Registered)
    (hbase : sb.priorityOrderList.baseSpeed ≠ []) : NeverPhantom P sb calls := by
  induction calls generalizing sb with
  | nil => trivial
  | cons call calls ih =>
      intro e sb' hask
      obtain ⟨hkey, hsb', hbase', hsettled⟩ := h.asked hsb hbase hask
      exact ⟨hkey, ih (hsettled calls) hsb' hbase'⟩

theorem Settled.answersAll (h : Settled sb calls) (hP : ∀ v, P.fits v = true) (hsb : Used P sb)
    (hbase : sb.priorityOrderList.baseSpeed ≠ [])
    (hpos : ∀ b ∈ sb.priorityOrderList.baseSpeed, 1 ≤ b.speed) : AnswersAll P sb calls := by
  induction calls generalizing sb with
  | nil => trivial
  | cons call calls ih =>
      obtain ⟨now, timerInterlude⟩ := call
      have hanswers : ∃ e sb', Returns (fun fuel =>
          sb.getCurrentParticipantTurn P fuel now timerInterlude) (e, sb') := by
        by_cases hearly : now < sb.deadline now timerInterlude
        · exact ⟨_, _, asked_iff.mpr (.inl ⟨hearly, rfl, rfl⟩)⟩
        · obtain ⟨e, s, hgives, -⟩ := (hsb.inStep hpos).gives hP
          exact ⟨e, _, asked_iff.mpr (.inr ⟨Int.not_lt.mp hearly, s, hgives, rfl⟩)⟩
      obtain ⟨e, sb', hask⟩ := hanswers
      obtain ⟨hkey, -, hbase', hsettled⟩ := h.asked hsb.registered hbase hask
      refine ⟨e, sb', hask, hkey, ih (hsettled calls) (.asked now timerInterlude hsb hask) hbase' ?_⟩
      intro b hb
      exact hpos b ((asked_perm hask).mem_iff.mp hb)

theorem AnswersAll.neverPhantom (h : AnswersAll P sb calls) : NeverPhantom P sb calls := by
  induction calls generalizing sb with
  | nil => trivial
  | cons call calls ih =>
      obtain ⟨now, timerInterlude⟩ := call
      obtain ⟨e, sb', hask, hkey, hrest⟩ := h
      intro e' sb'' hask'
      obtain ⟨rfl, rfl⟩ := Prod.mk.inj (hask.unique (getCurrentParticipantTurn_stable sb now timerInterlude) hask')
      exact ⟨hkey, ih hrest⟩

/-- A first call before the deadline is answered with the element served last. -/
theorem NeverPhantom.settled (h : NeverPhantom P sb calls) : Settled sb calls := by
  cases calls with
  | nil => exact .inr fun _ hcall => nomatch hcall
  | cons call calls =>
      obtain ⟨now, timerInterlude⟩ := call
      by_cases hearly : now < sb.deadline now timerInterlude
      · exact .inl (h _ _ (asked_iff.mpr (.inl ⟨hearly, rfl, rfl⟩))).1
      · refine .inr fun call hcall => ?_
        obtain rfl := Option.some.inj hcall
        exact Int.not_lt.mp hearly

/-- From every state of a side with somebody on it, and at whatever times it is
asked, all answers are registered elements exactly when the element served last
is one or the first call comes when the turn is over; with speeds of at least 1
on unbounded integers all calls answer as well. -/
theorem no_phantom_iff (P : Platform) {sb : SideBattle} (hsb : Used P sb)
    (hbase : sb.priorityOrderList.baseSpeed ≠ []) (calls : List (Int × Int)) :
    (NeverPhantom P sb calls ↔ Settled sb calls) ∧
      ((∀ v, P.fits v = true) → (∀ b ∈ sb.priorityOrderList.baseSpeed, 1 ≤ b.speed) →
        (AnswersAll P sb calls ↔ Settled sb calls)) := by
  constructor
  · constructor
    · exact NeverPhantom.settled
    · intro h
      exact h.neverPhantom hsb.registered hbase
  · intro hP hpos
    constructor
    · intro h
      exact h.neverPhantom.settled
    · intro h
      exact h.answersAll hP hsb hbase hpos

def lonely : SideBattle := FightingPit.unplayedBattle [⟨0, 5, true⟩] .A_N

theorem used_lonely : Used (.unbounded insertionSort) lonely :=
  .added 0 5 true (.new .A_N) ⟨0, rfl⟩

theorem no_phantom_iff_lonely :
    (NeverPhantom (.unbounded insertionSort) lonely [(0, 0), (1000, 5000)] ↔
        Settled lonely [(0, 0), (1000, 5000)]) ∧
      (AnswersAll (.unbounded insertionSort) lonely [(0, 0), (1000, 5000)] ↔
        Settled lonely [(0, 0), (1000, 5000)]) :=
  (no_phantom_iff (.unbounded insertionSort) used_lonely (by decide) [(0, 0), (1000, 5000)]).imp id
    fun h => h (fun _ => rfl) (by decide)

/-- Asked for the first time with turns of ten seconds, the side answers with
the default element. -/
theorem phantom_handed_the_turn :
    ¬ ∀ (sb : SideBattle) (calls : List (Int × Int)), Used (.unbounded insertionSort) sb →
      sb.priorityOrderList.baseSpeed ≠ [] → (calls.map Prod.fst).Pairwise (· ≤ ·) →
      NeverPhantom (.unbounded insertionSort) sb calls := by
  intro h
  have hnever := h lonely [(0, 10000)] used_lonely (by decide) (by decide)
  exact absurd (hnever ⟨0, 0, false⟩ _ ⟨0, rfl⟩).1 (by decide)

end SideBattle

end FyS.Arena
