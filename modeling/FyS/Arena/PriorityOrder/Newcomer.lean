import FyS.Arena.PriorityOrder.Turns
import Mathlib.Order.Bounds.Basic

/-!
# The bonus of a newcomer

`addParticipantInList` appends the newcomer to `_baseSpeed` and then asks for
the fastest base speed, which is read off the back of a list that is sorted
only afterwards.  At the end of a turn the list is sorted.
-/

namespace FyS.Arena.PriorityOrderList

open FyS.Library.Fuel

variable {P : Platform}

theorem addParticipantInList_ne_nil {fuel id : Nat} {speed : Int} {isContender : Bool}
    {s t : PriorityOrderList} (h : addParticipantInList P fuel id speed isContender s = .ok t) :
    t.baseSpeed ≠ [] := by
  by_cases hmem : (id, isContender) ∈ keys s.baseSpeed
  · unfold addParticipantInList at h
    rw [if_pos (any_iff_key_mem.mpr hmem)] at h
    rw [← Except.ok.inj h]
    intro hnil
    rw [hnil] at hmem
    cases hmem
  · rw [addParticipantInList_newcomer hmem] at h
    obtain ⟨stored, -, h⟩ := bind_eq_ok.mp h
    obtain ⟨u, hu, h⟩ := bind_eq_ok.mp h
    have hbase := s.welcomed_ne_nil ⟨id, speed, isContender⟩ stored
    rw [← Except.ok.inj h]
    show u.baseSpeed ≠ []
    exact sortBaseAndCalculatePriority_ne_nil hbase hu

/-! ## The fastest base speed -/

/-- `speed` is the fastest among these participants. -/
def IsFastest (base : List PriorityElem) (speed : Int) : Prop :=
  IsGreatest {v | ∃ b ∈ base, b.speed = v} speed

theorem IsFastest.perm {base base' : List PriorityElem} {v : Int} (h : IsFastest base v)
    (hperm : base.Perm base') : IsFastest base' v := by
  have hset : {v | ∃ b ∈ base', b.speed = v} = {v | ∃ b ∈ base, b.speed = v} := by
    ext v
    exact exists_congr fun b => and_congr_left' hperm.mem_iff.symm
  unfold IsFastest
  rw [hset]
  exact h

theorem isFastest_of_ascending {s : PriorityOrderList} (hbase : s.baseSpeed ≠ [])
    (hasc : Ascending s.baseSpeed) : IsFastest s.baseSpeed s.getFastestBaseSpeed := by
  unfold getFastestBaseSpeed
  rw [List.getLast?_eq_getLast_of_ne_nil hbase]
  constructor
  · exact ⟨_, List.getLast_mem hbase, rfl⟩
  · intro v ⟨b, hb, hv⟩
    rw [← hv]
    exact speed_le_last hasc hbase hb

theorem isFastest_newcomer_iff {base : List PriorityElem} (newcomer : PriorityElem) :
    IsFastest (base ++ [newcomer]) newcomer.speed ↔ ∀ b ∈ base, b.speed ≤ newcomer.speed := by
  constructor
  · intro h b hb
    exact h.2 ⟨b, List.mem_append_left _ hb, rfl⟩
  · intro h
    constructor
    · exact ⟨newcomer, by simp, rfl⟩
    · intro v ⟨b, hb, hv⟩
      rw [← hv]
      rcases List.mem_append.mp hb with hb | hb
      · exact h b hb
      · rw [List.mem_singleton.mp hb]

/-- The newcomer starts with its speed and the bonus of everybody, the fastest
base speed of all. -/
def SameBonus (P : Platform) (s : PriorityOrderList) (newcomer : PriorityElem) : Prop :=
  ∃ stored fastest, newcomerSpeed P s newcomer = .ok stored ∧
    IsFastest (s.baseSpeed ++ [newcomer]) fastest ∧ stored = newcomer.speed + fastest

/-- Once turns are counted, a newcomer gets the bonus of everybody exactly if
nobody on the list is faster and twice its speed is an `int`.  The bonus of
everybody is what the computation that follows pays at the end of its turn. -/
theorem newcomer_bonus_iff (P : Platform) {s : PriorityOrderList} (hturn : 0 < s.currentTurn)
    {id : Nat} (hnew : id ∉ ids s.baseSpeed) (speed : Int) (isContender : Bool) :
    (∀ fuel, addParticipantInList P fuel id speed isContender s =
      newcomerSpeed P s ⟨id, speed, isContender⟩ >>= fun stored =>
        sortBaseAndCalculatePriority P fuel (s.welcomed ⟨id, speed, isContender⟩ stored) >>=
          fun u => .ok { u with currentTurn := s.currentTurn }) ∧
    (∀ stored, IsFastest (s.baseSpeed ++ [⟨id, speed, isContender⟩])
      (resorted P (s.welcomed ⟨id, speed, isContender⟩ stored)).getFastestBaseSpeed) ∧
    (SameBonus P s ⟨id, speed, isContender⟩ ↔
      (∀ b ∈ s.baseSpeed, b.speed ≤ speed) ∧ P.fits (speed + speed) = true) := by
  have hkey : (id, isContender) ∉ keys s.baseSpeed := by
    intro hmem
    obtain ⟨b, hb, hkey⟩ := List.mem_map.mp hmem
    have hid : b.id = id := congrArg Prod.fst hkey
    rw [← hid] at hnew
    exact hnew (id_mem hb)
  constructor
  · exact addParticipantInList_newcomer hkey
  constructor
  · intro stored
    have hbase := s.welcomed_ne_nil ⟨id, speed, isContender⟩ stored
    have hfastest := isFastest_of_ascending (resorted_ne_nil (P := P) hbase) (P.sort.ascending _)
    exact hfastest.perm (resorted_perm P _)
  · unfold SameBonus
    rw [newcomerSpeed_eq, if_pos hturn, ← isFastest_newcomer_iff ⟨id, speed, isContender⟩]
    constructor
    · intro ⟨stored, fastest, hstored, hfastest, hbonus⟩
      have hself : fastest = speed := by
        have := int_eq_ok hstored
        simp only at this hbonus
        omega
      rw [hself] at hfastest
      refine ⟨hfastest, ?_⟩
      unfold Platform.int at hstored
      split at hstored
      · assumption
      · cases hstored
    · intro ⟨hfastest, hfits⟩
      exact ⟨speed + speed, speed, int_of_fits hfits, hfastest, rfl⟩

def soloist : PriorityOrderList := initial (.unbounded insertionSort) [⟨1, 5, false⟩]

theorem newcomer_bonus_iff_faster :
    SameBonus (.unbounded insertionSort) soloist ⟨2, 7, true⟩ ↔
      (∀ b ∈ soloist.baseSpeed, b.speed ≤ 7) ∧
        (Platform.unbounded insertionSort).fits (7 + 7) = true :=
  (newcomer_bonus_iff (.unbounded insertionSort) (s := soloist) (by decide)
    (show 2 ∉ ids soloist.baseSpeed by decide) 7 true).2.2

/-- A newcomer of speed 3 on a list of speed 5 is stored with 6 instead of 8. -/
theorem slower_newcomer_shortchanged :
    ¬ ∀ s, Constructed (.unbounded insertionSort) (fun l => (ids l).Nodup) s →
      0 < s.currentTurn → ∀ newcomer : PriorityElem, newcomer.id ∉ ids s.baseSpeed →
        SameBonus (.unbounded insertionSort) s newcomer := by
  intro h
  have hsame := h soloist (.ofBaseSpeed (l := [⟨1, 5, false⟩]) (by decide) ⟨0, ofBaseSpeed_eq 0 _⟩)
    (by decide) ⟨2, 3, true⟩ (by decide)
  obtain ⟨stored, fastest, hstored, hfastest, hbonus⟩ := hsame
  have hfive : (5 : Int) ≤ fastest := hfastest.2 ⟨⟨1, 5, false⟩, by decide, rfl⟩
  rw [newcomerSpeed_eq, if_pos (by decide)] at hstored
  have := int_eq_ok hstored
  simp only at this hbonus
  omega

end FyS.Arena.PriorityOrderList
