import FyS.Arena.Pit.SideBattles
import FyS.Arena.PriorityOrder.Newcomer

/-!
# The timing of a side

A side repeats its answer up to the deadline of the turn, and at the first call
from then on it serves the next element of its list and arms the deadline anew.
The deadline of the first turn is armed by the first call.
-/

namespace FyS.Arena

open FyS.Library.Fuel PriorityOrderList

variable {P : Platform}

namespace SideBattle

inductive Asks (P : Platform) (timerInterlude : Int) :
    SideBattle → List (Int × PriorityElem) → SideBattle → Prop
  | nil {sb} : Asks P timerInterlude sb [] sb
  | cons {sb sb' sb'' now e calls}
      (head : Returns (fun fuel => sb.getCurrentParticipantTurn P fuel now timerInterlude) (e, sb'))
      (tail : Asks P timerInterlude sb' calls sb'') :
      Asks P timerInterlude sb ((now, e) :: calls) sb''

structure TimedCall where
  now : Int
  answer : PriorityElem
  advanced : Bool

def advances (calls : List TimedCall) : List TimedCall := calls.filter (·.advanced)

/-- The deadline of the turn that the calls so far have led to: an interlude after
the last advance, and for the first turn where the side has it or an interlude
after the first call. -/
def due (timerInterlude : Int) (sb : SideBattle) (before : List TimedCall) (now : Int) : Int :=
  match (advances before).getLast? with
  | some last => last.now + timerInterlude
  | none =>
    if sb.started then sb.endCurrentTurn
    else (before.head?.map (·.now)).getD now + timerInterlude

structure Timing (P : Platform) (timerInterlude : Int) (sb : SideBattle) (calls : List TimedCall)
    (sb' : SideBattle) : Prop where
  /-- A call ends the turn exactly from its deadline on. -/
  advanced_iff : ∀ before call after, calls = before ++ call :: after →
    (call.advanced = true ↔ due timerInterlude sb before call.now ≤ call.now)
  /-- A call that does not, answers as the call before did. -/
  repeated : ∀ before call after, calls = before ++ call :: after → call.advanced = false →
    call.answer = (before.getLast?.map (·.answer)).getD sb.priorityOrderList.currentPrio
  /-- The others answer with successive elements of the list, one each. -/
  served : Serves P sb.priorityOrderList ((advances calls).map (·.answer)) sb'.priorityOrderList
  /-- Successive ends of turns are an interlude apart. -/
  apart : ∀ before call between call' after,
    calls = before ++ call :: (between ++ call' :: after) → call.advanced = true →
      call'.advanced = true → advances between = [] → call.now + timerInterlude ≤ call'.now

theorem due_after {timerInterlude : Int} {sb : SideBattle} {before between : List TimedCall}
    {call : TimedCall} {now : Int} (hcall : call.advanced = true) (hbetween : advances between = []) :
    due timerInterlude sb (before ++ call :: between) now = call.now + timerInterlude := by
  have hlast : (advances (before ++ call :: between)).getLast? = some call := by
    unfold advances at hbetween ⊢
    rw [List.filter_append, List.filter_cons_of_pos hcall, hbetween, List.getLast?_append]
    rfl
  rw [due, hlast]

/-! ## One call -/

section Asked

variable {sb sb' : SideBattle} {now timerInterlude : Int} {e : PriorityElem}

theorem Used.current_of_nil (h : Used P sb) (hbase : sb.priorityOrderList.baseSpeed = []) :
    sb.priorityOrderList.currentPrio = ⟨0, 0, false⟩ := by
  induction h with
  | new side => rfl
  | added id speed isContender _ h ih =>
      obtain ⟨s, ⟨fuel, hadd⟩, rfl⟩ := added_iff.mp h
      exact absurd hbase (addParticipantInList_ne_nil hadd)
  | @asked sb _ _ now timerInterlude _ h ih =>
      have hperm := asked_perm h
      rw [hbase] at hperm
      have hnil := List.nil_perm.mp hperm
      rcases asked_iff.mp h with ⟨-, -, rfl⟩ | ⟨-, s, hgives, rfl⟩
      · rw [start_priorityOrderList]
        exact ih hnil
      · obtain ⟨-, rfl⟩ := (gives_of_empty hnil).mp hgives
        exact ih hnil

theorem Used.current_of_gives (h : Used P sb) {s : PriorityOrderList}
    (hgives : Gives P sb.priorityOrderList e s) : s.currentPrio = e := by
  by_cases hbase : sb.priorityOrderList.baseSpeed = []
  · obtain ⟨rfl, rfl⟩ := (gives_of_empty hbase).mp hgives
    exact h.current_of_nil hbase
  · obtain ⟨fuel, hfuel⟩ := hgives
    exact getNext_currentPrio hbase hfuel

theorem asked_cases (hsb : Used P sb)
    (h : Returns (fun fuel => sb.getCurrentParticipantTurn P fuel now timerInterlude) (e, sb')) :
    sb'.started = true ∧ sb'.priorityOrderList.currentPrio = e ∧
      ((now < sb.deadline now timerInterlude ∧ e = sb.priorityOrderList.currentPrio ∧
          sb'.priorityOrderList = sb.priorityOrderList ∧
          sb'.endCurrentTurn = sb.deadline now timerInterlude) ∨
        (sb.deadline now timerInterlude ≤ now ∧
          Gives P sb.priorityOrderList e sb'.priorityOrderList ∧
          sb'.endCurrentTurn = now + timerInterlude)) := by
  have hstarted : (sb.start now timerInterlude).started = true := by
    unfold start
    split
    · assumption
    · rfl
  rcases asked_iff.mp h with ⟨hearly, rfl, rfl⟩ | ⟨hlate, s, hgives, rfl⟩
  · refine ⟨hstarted, ?_, .inl ⟨hearly, rfl, ?_, rfl⟩⟩
    · rw [start_priorityOrderList]
    · rw [start_priorityOrderList]
  · exact ⟨hstarted, hsb.current_of_gives hgives, .inr ⟨hlate, hgives, rfl⟩⟩

end Asked

/-! ## Every sequence of calls -/

theorem due_nil (timerInterlude : Int) (sb : SideBattle) (now : Int) :
    due timerInterlude sb [] now = sb.deadline now timerInterlude := by
  unfold due deadline start
  cases sb.started <;> rfl

theorem due_cons {timerInterlude : Int} {sb sb' : SideBattle} {call : TimedCall}
    (hstarted : sb'.started = true)
    (hends : sb'.endCurrentTurn = if call.advanced then call.now + timerInterlude
      else sb.deadline call.now timerInterlude) (before : List TimedCall) (now : Int) :
    due timerInterlude sb (call :: before) now = due timerInterlude sb' before now := by
  unfold due advances
  cases hadvanced : call.advanced with
  | true =>
      rw [List.filter_cons_of_pos hadvanced, List.getLast?_cons]
      cases (before.filter (·.advanced)).getLast? with
      | some last => rfl
      | none =>
          rw [hadvanced, if_pos rfl] at hends
          simp only [Option.getD_none]
          rw [if_pos hstarted, hends]
  | false =>
      rw [List.filter_cons_of_neg (by simp [hadvanced])]
      cases (before.filter (·.advanced)).getLast? with
      | some last => rfl
      | none =>
          rw [hadvanced] at hends
          simp only
          rw [if_pos hstarted, hends, if_neg Bool.false_ne_true]
          unfold deadline start
          cases sb.started <;> rfl

theorem Timing.cons {timerInterlude : Int} {sb sb' sb'' : SideBattle} {call : TimedCall}
    {calls : List TimedCall} (hstarted : sb'.started = true)
    (hcurrent : sb'.priorityOrderList.currentPrio = call.answer)
    (hadvanced : call.advanced = true ↔ sb.deadline call.now timerInterlude ≤ call.now)
    (hends : sb'.endCurrentTurn = if call.advanced then call.now + timerInterlude
      else sb.deadline call.now timerInterlude)
    (hrepeated : call.advanced = false → call.answer = sb.priorityOrderList.currentPrio)
    (hserved : Serves P sb.priorityOrderList ((advances [call]).map (·.answer))
      sb'.priorityOrderList)
    (h : Timing P timerInterlude sb' calls sb'') : Timing P timerInterlude sb (call :: calls) sb'' := by
  have hiff : ∀ before call' after, call :: calls = before ++ call' :: after →
      (call'.advanced = true ↔ due timerInterlude sb before call'.now ≤ call'.now) := by
    intro before call' after heq
    cases before with
    | nil =>
        obtain ⟨rfl, -⟩ := List.cons.inj heq
        rw [due_nil]
        exact hadvanced
    | cons _ before =>
        obtain ⟨rfl, hcalls⟩ := List.cons.inj heq
        rw [due_cons hstarted hends]
        exact h.advanced_iff before call' after hcalls
  constructor
  · exact hiff
  · intro before call' after heq hnot
    cases before with
    | nil =>
        obtain ⟨rfl, -⟩ := List.cons.inj heq
        exact hrepeated hnot
    | cons _ before =>
        obtain ⟨rfl, hcalls⟩ := List.cons.inj heq
        rw [h.repeated before call' after hcalls hnot, List.getLast?_cons]
        cases before.getLast? with
        | some last => rfl
        | none => exact hcurrent
  · have hsplit : advances (call :: calls) = advances [call] ++ advances calls :=
      List.filter_append [call] calls
    rw [hsplit, List.map_append]
    exact hserved.append h.served
  · intro before call₁ between call₂ after heq hcall₁ hcall₂ hbetween
    have hdue := (hiff (before ++ call₁ :: between) call₂ after (by simp [heq])).mp hcall₂
    rw [due_after hcall₁ hbetween] at hdue
    exact hdue

theorem Asks.timing {timerInterlude : Int} {sb sb' : SideBattle} {calls : List (Int × PriorityElem)}
    (hsb : Used P sb) (h : Asks P timerInterlude sb calls sb') :
    ∃ timed : List TimedCall, timed.map (fun call => (call.now, call.answer)) = calls ∧
      Timing P timerInterlude sb timed sb' := by
  induction h with
  | nil =>
      refine ⟨[], rfl, ?_, ?_, .nil, ?_⟩
      · simp
      · simp
      · simp
  | @cons sb sb' sb'' now e calls head tail ih =>
      obtain ⟨timed, rfl, htiming⟩ := ih (.asked now timerInterlude hsb head)
      obtain ⟨hstarted, hcurrent, hcases⟩ := asked_cases hsb head
      rcases hcases with ⟨hearly, hanswer, hlist, hends⟩ | ⟨hlate, hgives, hends⟩
      · refine ⟨⟨now, e, false⟩ :: timed, rfl, htiming.cons hstarted hcurrent ?_ hends ?_ ?_⟩
        · simpa using hearly
        · exact fun _ => hanswer
        · rw [hlist]
          exact .nil
      · refine ⟨⟨now, e, true⟩ :: timed, rfl, htiming.cons hstarted hcurrent ?_ hends ?_ ?_⟩
        · simpa using hlate
        · simp
        · exact .cons hgives .nil

/-- A call returns, unless it asks a list for an element that the list does not give. -/
theorem asked_returns_iff {sb : SideBattle} {now timerInterlude : Int} :
    (∃ e sb', Returns (fun fuel =>
        sb.getCurrentParticipantTurn P fuel now timerInterlude) (e, sb')) ↔
      now < sb.deadline now timerInterlude ∨ ∃ e s, Gives P sb.priorityOrderList e s := by
  constructor
  · intro ⟨e, sb', h⟩
    rcases asked_iff.mp h with ⟨hearly, -⟩ | ⟨-, s, hgives, -⟩
    · exact .inl hearly
    · exact .inr ⟨e, s, hgives⟩
  · intro h
    by_cases hearly : now < sb.deadline now timerInterlude
    · exact ⟨_, _, asked_iff.mpr (.inl ⟨hearly, rfl, rfl⟩)⟩
    · obtain ⟨e, s, hgives⟩ := h.resolve_left hearly
      exact ⟨e, _, asked_iff.mpr (.inr ⟨Int.not_lt.mp hearly, s, hgives, rfl⟩)⟩

theorem Used.asks {sb : SideBattle} (hsb : Used P sb) (hP : ∀ v, P.fits v = true)
    (hpos : ∀ b ∈ sb.priorityOrderList.baseSpeed, 1 ≤ b.speed) (timerInterlude : Int)
    (times : List Int) :
    ∃ calls sb', Asks P timerInterlude sb calls sb' ∧ calls.map Prod.fst = times := by
  induction times generalizing sb with
  | nil => exact ⟨[], sb, .nil, rfl⟩
  | cons now times ih =>
      obtain ⟨e₁, s, hgives, -⟩ := (hsb.inStep hpos).gives hP
      obtain ⟨e, sb₁, hask⟩ := asked_returns_iff.mpr (.inr ⟨e₁, s, hgives⟩)
      have hpos₁ : ∀ b ∈ sb₁.priorityOrderList.baseSpeed, 1 ≤ b.speed := fun b hb =>
        hpos b ((asked_perm hask).mem_iff.mp hb)
      obtain ⟨calls, sb', hasks, htimes⟩ := ih (.asked now timerInterlude hsb hask) hpos₁
      exact ⟨(now, e) :: calls, sb', .cons hask hasks, by rw [List.map_cons, htimes]⟩

/-- The timing of a side, from every state it can be in and for every sequence of
calls: only elements of the list are answered, none is left out, and the turns
end at their deadlines.  A call that asks for the next element returns if the
list gives one, as it always does with speeds of at least 1. -/
theorem turns_timed {sb : SideBattle} (hsb : Used P sb) (timerInterlude : Int) :
    (∀ calls sb', Asks P timerInterlude sb calls sb' →
      (∃ timed : List TimedCall, timed.map (fun call => (call.now, call.answer)) = calls ∧
        Timing P timerInterlude sb timed sb') ∧
      ∀ now, (∃ e sb'', Returns (fun fuel =>
          sb'.getCurrentParticipantTurn P fuel now timerInterlude) (e, sb'')) ↔
        now < sb'.deadline now timerInterlude ∨ ∃ e s, Gives P sb'.priorityOrderList e s) ∧
    ((∀ v, P.fits v = true) → (∀ b ∈ sb.priorityOrderList.baseSpeed, 1 ≤ b.speed) →
      ∀ times, ∃ calls sb', Asks P timerInterlude sb calls sb' ∧ calls.map Prod.fst = times) := by
  constructor
  · intro calls sb' h
    exact ⟨h.timing hsb, fun _ => asked_returns_iff⟩
  · intro hP hpos times
    exact hsb.asks hP hpos timerInterlude times

/-- Turns of ten seconds, asked for three times. -/
theorem turns_timed_lonely :
    ∃ calls sb', Asks (.unbounded insertionSort) 10000 lonely calls sb' ∧
      calls.map Prod.fst = [0, 10000, 12000] :=
  (turns_timed used_lonely 10000).2 (fun _ => rfl) (by decide) [0, 10000, 12000]

end SideBattle

end FyS.Arena
