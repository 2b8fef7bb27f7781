import FyS.Arena.Pit.Initial

/-!
# Whom a scheduled element stands for

A contender is registered under its number on its side and run under that
number as a position among all contenders; a member is registered and run under
its id.  The two readings of a contender's number agree as long as the
contenders of a side stand in front of all others.
-/

namespace FyS.Arena

open FyS.Library.Fuel HexagonSide PriorityOrderList

variable {P : Platform} {C : ChaiScript}

/-! ## The character of an element -/

inductive Character where
  | contender (contender : FightingContender)
  | member (member : TeamMember)
deriving DecidableEq, Repr

namespace Character

def side : Character → Orientation
  | contender c => c.getHexagonSideOrient
  | member m => m.getHexagonSideOrient

def status : Character → Status
  | contender c => c.status
  | member m => m.status

end Character

namespace Board

/-- The character that `continueBattle` runs for an element, if it finds one. -/
def character (board : Board C) (e : PriorityElem) : Option Character :=
  if e.isContender then (board.contenders.getFightingContender e.id).map .contender
  else (board.partyTeams.selectMemberById e.id).map .member

/-- The two branches of `continueBattle` run the action of that character. -/
theorem execute_eq (board : Board C) (e : PriorityElem) :
    (if e.isContender then board.executeContenderAction e else board.executeAllyAction e) =
      match board.character e with
      | none => .ok board
      | some (.contender c) => c.contenderScripting.executeAction board
      | some (.member m) => m.executeAction board := by
  unfold character
  cases hkind : e.isContender with
  | false =>
      simp only [Bool.false_eq_true, if_false, executeAllyAction, hkind]
      cases board.partyTeams.selectMemberById e.id <;> rfl
  | true =>
      simp only [if_true, executeContenderAction, hkind, Bool.not_true, Bool.false_or,
        decide_eq_true_eq]
      by_cases hid : e.id < board.contenders.getNumberContender
      · have hget : board.contenders.getFightingContender e.id =
            some (board.contenders.contenders[e.id]) := List.getElem?_eq_getElem hid
        simp only [Nat.not_le.mpr hid, if_false, hget, Option.map_some]
      · have hget : board.contenders.getFightingContender e.id = none :=
          List.getElem?_eq_none (Nat.not_lt.mp hid)
        simp only [Nat.not_lt.mp hid, if_true, hget, Option.map_none]

end Board

/-! ## Positions on a side and positions among all -/

theorem filter_prefix_of_pairwise {α : Type} {p : α → Bool} {l : List α}
    (h : l.Pairwise fun a b => p b = true → p a = true) : l.filter p <+: l := by
  induction l with
  | nil => exact List.prefix_rfl
  | cons a l ih =>
      obtain ⟨hhead, htail⟩ := List.pairwise_cons.mp h
      by_cases ha : p a = true
      · rw [List.filter_cons_of_pos ha, List.cons_prefix_cons]
        exact ⟨rfl, ih htail⟩
      · have hnil : (a :: l).filter p = [] := by
          rw [List.filter_eq_nil_iff]
          intro b hb hpb
          rcases List.mem_cons.mp hb with rfl | hb
          · exact ha hpb
          · exact ha (hhead b hb hpb)
        rw [hnil]
        exact List.nil_prefix

theorem pairwise_of_take {α : Type} {p : α → Bool} {l : List α}
    (h : ∀ a ∈ l.take (l.filter p).length, p a = true) :
    l.Pairwise fun a b => p b = true → p a = true := by
  have hsplit := List.take_append_drop (l.filter p).length l
  have hfront : (l.take (l.filter p).length).filter p = l.take (l.filter p).length :=
    List.filter_eq_self.mpr h
  have hback : (l.drop (l.filter p).length).filter p = [] := by
    have hlen := congrArg (fun l => (l.filter p).length) hsplit
    simp only [List.filter_append, List.length_append, hfront, List.length_take,
      Nat.min_eq_left (List.length_filter_le p l)] at hlen
    apply List.length_eq_zero_iff.mp
    omega
  rw [List.filter_eq_nil_iff] at hback
  rw [← hsplit, List.pairwise_append]
  refine ⟨?_, ?_, ?_⟩
  · apply List.pairwise_of_forall_mem_list
    intro a ha b _ _
    exact h a ha
  · apply List.pairwise_of_forall_mem_list
    intro a _ b hb hpb
    exact absurd hpb (hback b hb)
  · intro a ha b _ _
    exact h a ha

namespace FightingPit

/-- Every registered element stands for an existing character, on the side where
it is registered and with the speed it is registered with. -/
def WellCast (fp : FightingPit C) : Prop :=
  ∀ sb ∈ fp.sideBattles, ∀ e ∈ sb.priorityOrderList.baseSpeed,
    ∃ character, fp.toBoard.character e = some character ∧ character.side = sb.side ∧
      e.speed = intOfUint character.status.initialSpeed

theorem character_memberEntry {fp : FightingPit C} {side : Orientation} {member : TeamMember}
    (h : member ∈ fp.partyTeams.getMembersBySide side) :
    fp.toBoard.character (memberEntry member) = some (.member member) := by
  obtain ⟨hfirst, hmem, -⟩ := AllyPartyTeams.mem_getMembersBySide.mp h
  show (fp.partyTeams.selectMemberById member.id).map _ = _
  rw [AllyPartyTeams.selectMemberById_of_mem hfirst hmem]
  rfl

/-- The entries of one side stand for whom they were registered for exactly when no
contender of another side stands in front of one of that side. -/
theorem cast_side_iff {fp : FightingPit C} {base : List PriorityElem} {side : Orientation}
    (hbase : base.Perm (fp.entries side)) :
    (∀ e ∈ base, ∃ character, fp.toBoard.character e = some character ∧ character.side = side ∧
        e.speed = intOfUint character.status.initialSpeed) ↔
      fp.contenders.contenders.Pairwise fun a b =>
        (b.getHexagonSideOrient == side) = true → (a.getHexagonSideOrient == side) = true := by
  constructor
  · intro h
    apply pairwise_of_take
    -- the element registered under `n` runs the contender at `n`
    intro c hc
    obtain ⟨n, hn, hget⟩ := List.mem_take_iff_getElem.mp hc
    have hnk : n < (fp.contenders.getContenderOnSide side).length :=
      lt_of_lt_of_le hn (Nat.min_le_left _ _)
    have hentry : contenderEntry (fp.contenders.getContenderOnSide side)[n] n ∈ base := by
      rw [hbase.mem_iff, mem_entries]
      exact .inr ⟨_, n, List.getElem?_eq_getElem hnk, rfl⟩
    obtain ⟨character, hchar, hside, -⟩ := h _ hentry
    have hcast : fp.toBoard.character
        (contenderEntry (fp.contenders.getContenderOnSide side)[n] n) = some (.contender c) := by
      show (fp.contenders.contenders[n]?).map Character.contender = _
      rw [← hget, List.getElem?_eq_getElem (lt_of_lt_of_le hn (Nat.min_le_right _ _))]
      rfl
    obtain rfl := Option.some.inj (hcast.symm.trans hchar)
    exact beq_iff_eq.mpr hside
  · intro h e he
    rw [hbase.mem_iff, mem_entries] at he
    rcases he with ⟨member, hm, rfl⟩ | ⟨contender, i, hi, rfl⟩
    · obtain ⟨-, -, hside⟩ := AllyPartyTeams.mem_getMembersBySide.mp hm
      exact ⟨.member member, character_memberEntry hm, hside, rfl⟩
    · obtain ⟨rest, hrest⟩ := filter_prefix_of_pairwise h
      have hget : fp.contenders.contenders[i]? = some contender := by
        rw [← hrest]
        exact (List.getElem?_append_left (List.getElem?_eq_some_iff.mp hi).1).trans hi
      refine ⟨.contender contender, ?_, ?_, rfl⟩
      · show (fp.contenders.contenders[i]?).map Character.contender = _
        rw [hget]
        rfl
      · have hmem := List.mem_of_getElem? hi
        exact beq_iff_eq.mp (List.mem_filter.mp hmem).2

/-- After `initializeSideBattles` every scheduled element denotes the character it
was registered for, exactly when each contender that stands on a side has only
contenders of that side in front of it. -/
theorem scheduled_denote_iff {fp fp' : FightingPit C} (hfresh : fp.sideBattles = [])
    (hinit : Returns (fun fuel => initializeSideBattles P fuel fp) fp') :
    WellCast fp' ↔ fp.contenders.contenders.Pairwise fun a b =>
      b.getHexagonSideOrient ≠ .NONE → a.getHexagonSideOrient = b.getHexagonSideOrient := by
  obtain ⟨base, hbase, rfl⟩ := initializeSideBattles_cases hfresh hinit
  constructor
  · intro h
    rw [List.pairwise_iff_getElem]
    intro i j hi hj hij hside
    have hcast := (cast_side_iff (hbase fp.contenders.contenders[j].getHexagonSideOrient)).mp
      (h _ (List.mem_map_of_mem (mem_sides.mpr hside)))
    rw [List.pairwise_iff_getElem] at hcast
    apply beq_iff_eq.mp
    apply hcast i j hi hj hij
    exact beq_self_eq_true _
  · intro h sb hsb
    obtain ⟨side, hside, rfl⟩ := List.mem_map.mp hsb
    apply (cast_side_iff (hbase side)).mpr
    apply h.imp
    intro a b hab hb
    obtain rfl := beq_iff_eq.mp hb
    exact beq_iff_eq.mpr (hab (mem_sides.mp hside))

def twoFronts : FightingPit (constantChai harmless) :=
  assembled harmless [monster 0 .A_N 3, monster 1 .B_S 5] []

theorem scheduled_denote_iff_twoFronts :
    WellCast (arranged twoFronts) ↔ twoFronts.contenders.contenders.Pairwise fun a b =>
      b.getHexagonSideOrient ≠ .NONE → a.getHexagonSideOrient = b.getHexagonSideOrient :=
  scheduled_denote_iff (P := .unbounded insertionSort) rfl ⟨0, rfl⟩

/-- Side B_S schedules its only monster under the id 0 and runs the other one. -/
theorem scheduled_do_not_denote :
    ¬ ∀ fp fp' : FightingPit (constantChai harmless), fp.sideBattles = [] →
      Returns (fun fuel => initializeSideBattles (.unbounded insertionSort) fuel fp) fp' →
        WellCast fp' := by
  intro h
  obtain ⟨character, hcharacter, hside, -⟩ := h twoFronts (arranged twoFronts) rfl ⟨0, rfl⟩
    (unplayedBattle [⟨0, 5, true⟩] .B_S) (by decide) ⟨0, 5, true⟩ (by decide)
  obtain rfl : .contender (monster 0 .A_N 3) = character := Option.some.inj hcharacter
  exact nomatch hside

end FightingPit

end FyS.Arena
