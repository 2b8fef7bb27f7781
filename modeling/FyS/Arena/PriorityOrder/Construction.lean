import FyS.Arena.PriorityOrder.Membership

/-!
# The two ways to build a list

The constructor sorts its argument and starts the first turn.  Adding the same
participants one after another to a default list sorts as well, but puts the
turn counter back to 0 each time.
-/

namespace FyS.Arena.PriorityOrderList

open FyS.Library.Fuel

variable {P : Platform}

/-- `addParticipantInList` for each participant in turn. -/
def addAll (P : Platform) (fuel : Nat) (l : List PriorityElem) (s : PriorityOrderList) :
    Except Fault PriorityOrderList :=
  l.foldlM (fun s b => addParticipantInList P fuel b.id b.speed b.isContender s) s

inductive Built (P : Platform) (l : List PriorityElem) : PriorityOrderList → Prop
  | ofBaseSpeed {s} (h : Returns (fun fuel => ofBaseSpeed P fuel l) s) : Built P l s
  | addAll {s} (h : Returns (fun fuel => addAll P fuel l empty) s) : Built P l s

def unplayed (base : List PriorityElem) (turn : Nat) : PriorityOrderList :=
  ⟨base, base, base, ⟨0, 0, false⟩, turn⟩

theorem initial_eq_unplayed (P : Platform) (l : List PriorityElem) :
    initial P l = unplayed (P.sort.run l) (if l = [] then 0 else P.uint 1) := rfl

theorem addParticipantInList_unplayed {base : List PriorityElem} {b : PriorityElem}
    (hb : b.key ∉ keys base) (fuel : Nat) :
    addParticipantInList P fuel b.id b.speed b.isContender (unplayed base 0) =
      .ok (unplayed (P.sort.run (base ++ [b])) 0) := by
  have hnew := mt any_iff_key_mem.mp hb
  unfold unplayed addParticipantInList sortBaseAndCalculatePriority
  simp only
  rw [if_neg hnew]
  simp

theorem addAll_unplayed {base l : List PriorityElem} (hkeys : (keys (base ++ l)).Nodup)
    (hasc : Ascending base) :
    ∃ base', base'.Perm (base ++ l) ∧ Ascending base' ∧
      ∀ fuel, addAll P fuel l (unplayed base 0) = .ok (unplayed base' 0) := by
  induction l generalizing base with
  | nil => exact ⟨base, by simp, hasc, fun _ => rfl⟩
  | cons b l ih =>
      have hb : b.key ∉ keys base := by
        rw [keys_append, keys_cons, List.nodup_append] at hkeys
        exact fun hmem => hkeys.2.2 _ hmem _ List.mem_cons_self rfl
      have hperm : (P.sort.run (base ++ [b]) ++ l).Perm (base ++ b :: l) := by
        rw [List.append_cons base b l]
        exact (P.sort.perm _).append_right l
      obtain ⟨base', hperm', hasc', hruns⟩ :=
        ih ((keys_perm hperm).nodup_iff.mpr hkeys) (P.sort.ascending _)
      refine ⟨base', hperm'.trans hperm, hasc', fun fuel => ?_⟩
      rw [addAll, List.foldlM_cons, addParticipantInList_unplayed hb]
      exact hruns fuel

/-- Both ways lead to an unplayed list; they differ in the turn counter. -/
theorem Built.eq_unplayed {l : List PriorityElem} (hkeys : (keys l).Nodup)
    {s : PriorityOrderList} (h : Built P l s) :
    ∃ base turn, base.Perm l ∧ Ascending base ∧ s = unplayed base turn := by
  cases h with
  | ofBaseSpeed h =>
      obtain ⟨fuel, hfuel⟩ := h
      obtain rfl : s = initial P l := Except.ok.inj (hfuel.symm.trans (ofBaseSpeed_eq fuel l))
      exact ⟨_, _, P.sort.perm l, P.sort.ascending l, initial_eq_unplayed P l⟩
  | addAll h =>
      obtain ⟨fuel, hfuel⟩ := h
      obtain ⟨base, hperm, hasc, hruns⟩ := addAll_unplayed (P := P) (List.nil_append l ▸ hkeys) .nil
      exact ⟨base, 0, hperm, hasc, Except.ok.inj (hfuel.symm.trans (hruns fuel))⟩

end FyS.Arena.PriorityOrderList
