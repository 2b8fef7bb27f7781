import FyS.Arena.Pit.MemberCells

/-!
# The cell of an executed action

`executeAction` looks an action up under the whole key of its script,
`loadAndRegisterAction` writes it under what `getActionNameFromKey` leaves of the
key, where the insertion keeps it.
-/

namespace FyS.Arena

open ChaiRegister

/-- The two keys of the cell that `executeAction` looks up. -/
def TeamMember.readCell (member : TeamMember) (action : String) : String × String :=
  (member.userName ++ "_" ++ member.name, action)

def Registration.writtenCell (r : Registration) : String × String := (r.keyPlayer, r.actionName)

theorem TeamMember.allyAction_eq (member : TeamMember) (action : String) :
    member.allyAction action = "ally_actions[\"" ++ (member.readCell action).1 ++ "\"][\"" ++
      (member.readCell action).2 ++ "\"]" := by
  unfold allyAction readCell
  simp only [String.append_assoc]

theorem Registration.createVar_eq (r : Registration) :
    r.createVar = "ally_actions.insert( [\"" ++ r.writtenCell.1 ++ "\":[ \"" ++ r.writtenCell.2 ++
      "\":" ++ r.actionName ++ "(" ++ toString r.level ++ ") ] ] );" := by
  unfold createVar writtenCell
  simp only

theorem TeamMember.nextAction_eq {member : TeamMember} {pa : PendingAction}
    (hpa : member.pendingActions.pop.1 = some pa) (hi : pa.idAction < member.actionsDoable.length) :
    member.nextAction = some (pa, (member.actionsDoable.get ⟨pa.idAction, hi⟩).1) := by
  unfold nextAction
  rw [hpa]
  simp only
  rw [List.getElem?_eq_getElem hi]
  rfl

/-! ## What is left of a key -/

theorem findIdx?_reverse_of_not_mem {c : Char} {key : List Char} (h : c ∉ key) :
    key.reverse.findIdx? (· == c) = none := by
  rw [List.findIdx?_eq_none_iff]
  intro d hd
  rw [beq_eq_false_iff_ne]
  rintro rfl
  exact h (List.mem_reverse.mp hd)

theorem findLastOf_of_not_mem {c : Char} {key : List Char} (h : c ∉ key) :
    findLastOf c key = npos := by
  rw [findLastOf, findIdx?_reverse_of_not_mem h]

theorem findLastOf_lt {c : Char} {key : List Char} (h : c ∈ key) :
    findLastOf c key < key.length := by
  have hlength : 0 < key.length := List.length_pos_of_mem h
  unfold findLastOf
  cases hfind : key.reverse.findIdx? (· == c) with
  | none =>
      have hne := List.findIdx?_eq_none_iff.mp hfind c (List.mem_reverse.mpr h)
      rw [beq_self_eq_true] at hne
      cases hne
  | some i =>
      simp only
      omega

theorem getActionNameFromKey_eq_self_iff {key : String} (hsize : key.toList.length < npos) :
    getActionNameFromKey key = key ↔ ':' ∉ key.toList ∧ '.' ∉ key.toList := by
  have hself : getActionNameFromKey key = key ↔
      (key.toList.drop ((findLastOf ':' key.toList + 1) % 18446744073709551616)).take
        ((findLastOf '.' key.toList + 36893488147419103232 - findLastOf ':' key.toList - 1) %
          18446744073709551616) = key.toList := by
    rw [← String.toList_inj, getActionNameFromKey, String.toList_ofList]
  rw [hself]
  unfold npos at hsize
  by_cases hcolon : ':' ∈ key.toList
  · have hlt := findLastOf_lt hcolon
    constructor
    · intro heq
      have hlength := congrArg List.length heq
      rw [List.length_take, List.length_drop, Nat.mod_eq_of_lt (by omega)] at hlength
      omega
    · intro h
      exact absurd hcolon h.1
  · rw [findLastOf_of_not_mem hcolon, npos, Nat.mod_self, List.drop_zero]
    by_cases hdot : '.' ∈ key.toList
    · have hlt := findLastOf_lt hdot
      constructor
      · intro heq
        have hlength := congrArg List.length heq
        rw [List.length_take] at hlength
        omega
      · intro h
        exact absurd hdot h.2
    · rw [findLastOf_of_not_mem hdot, npos]
      constructor
      · intro _
        exact ⟨hcolon, hdot⟩
      · intro _
        apply List.take_of_length_le
        omega

/-! ## Both ends -/

theorem keyPlayer_eq_iff_userName {userName userName' name : String} :
    userName ++ "_" ++ name = userName' ++ "_" ++ name ↔ userName = userName' := by
  constructor
  · intro heq
    have hlist := congrArg String.toList heq
    simp only [String.toList_append, List.append_assoc, List.append_left_inj] at hlist
    exact String.toList_injective hlist
  · intro heq
    rw [heq]

theorem readCell_eq_iff {pt : PartyTeam} {tm : TeamMember} {action : String × Nat}
    (hsize : action.1.toList.length < npos) :
    tm.readCell action.1 =
        Registration.writtenCell ⟨pt.userName, tm.name, action.1, action.2⟩ ↔
      tm.userName = pt.userName ∧ ':' ∉ action.1.toList ∧ '.' ∉ action.1.toList := by
  unfold TeamMember.readCell Registration.writtenCell Registration.keyPlayer Registration.actionName
  rw [Prod.mk.injEq, keyPlayer_eq_iff_userName, ← getActionNameFromKey_eq_self_iff hsize]
  exact and_congr_right fun _ => eq_comm

def CellsAgree (pts : List PartyTeam) : Prop :=
  ∀ pt ∈ pts, ∀ tm ∈ pt.members, ∀ i : Fin tm.actionsDoable.length,
    tm.readCell (tm.actionsDoable.get i).1 = Registration.writtenCell
      ⟨pt.userName, tm.name, (tm.actionsDoable.get i).1, (tm.actionsDoable.get i).2⟩

/-- The members carry the names of their users, the keys neither folder nor extension. -/
def BareKeys (pts : List PartyTeam) : Prop :=
  ∀ pt ∈ pts, ∀ tm ∈ pt.members, ∀ action ∈ tm.actionsDoable,
    tm.userName = pt.userName ∧ ':' ∉ action.1.toList ∧ '.' ∉ action.1.toList

theorem cellsAgree_iff {pts : List PartyTeam}
    (hsize : ∀ pt ∈ pts, ∀ tm ∈ pt.members, ∀ action ∈ tm.actionsDoable,
      action.1.toList.length < npos) :
    CellsAgree pts ↔ BareKeys pts := by
  apply forall₄_congr
  intro pt hpt tm htm
  constructor
  · intro h action haction
    obtain ⟨i, hi⟩ := List.get_of_mem haction
    have hcell := h i
    rw [hi] at hcell
    exact (readCell_eq_iff (hsize pt hpt tm htm action haction)).mp hcell
  · intro h i
    have hmem := List.get_mem tm.actionsDoable i
    exact (readCell_eq_iff (hsize pt hpt tm htm _ hmem)).mpr (h _ hmem)

/-! ## What is found in the cell -/

namespace ActionEngine

variable {C : ChaiScript} {cml : String → Option String} (engine : ActionEngine C cml)

/-- The cell that is looked up for each action of each member is the one that was
written for it, and holds the action as it was registered. -/
def FindsWritten (pts : List PartyTeam) (chai : C.State) : Prop :=
  ∀ pt ∈ pts, ∀ tm ∈ pt.members, ∀ i : Fin tm.actionsDoable.length,
    tm.readCell (tm.actionsDoable.get i).1 = Registration.writtenCell
        ⟨pt.userName, tm.name, (tm.actionsDoable.get i).1, (tm.actionsDoable.get i).2⟩ ∧
      ∃ held, engine.allyActions chai (tm.readCell (tm.actionsDoable.get i).1).1 = some held ∧
        held (tm.readCell (tm.actionsDoable.get i).1).2 = some (tm.actionsDoable.get i).2

theorem findsWritten_iff {pts : List PartyTeam} {chai : C.State} :
    engine.FindsWritten pts chai ↔ CellsAgree pts ∧
      ∀ r ∈ pts.flatMap (·.registrations),
        ∃ held, engine.allyActions chai r.keyPlayer = some held ∧
          held r.actionName = some r.level := by
  constructor
  · intro h
    refine ⟨fun pt hpt tm htm i => (h pt hpt tm htm i).1, ?_⟩
    intro r hr
    obtain ⟨pt, hpt, tm, htm, action, haction, rfl⟩ := mem_all.mp hr
    obtain ⟨i, hi⟩ := List.get_of_mem haction
    obtain ⟨hcell, hheld⟩ := h pt hpt tm htm i
    rw [hcell, hi] at hheld
    exact hheld
  · rintro ⟨hcells, hheld⟩ pt hpt tm htm i
    have hcell := hcells pt hpt tm htm i
    refine ⟨hcell, ?_⟩
    rw [hcell]
    exact hheld _ (mem_all.mpr ⟨pt, hpt, tm, htm, _, List.get_mem tm.actionsDoable i, rfl⟩)

end ActionEngine

/-- An action is looked up where it was written exactly when the member carries the
name of the user of its team and the key has neither folder nor extension, whatever
the names.  It is found there when the registry kept it as well. -/
theorem cells_agree_iff {pts : List PartyTeam}
    (hsize : ∀ pt ∈ pts, ∀ tm ∈ pt.members, ∀ action ∈ tm.actionsDoable,
      action.1.toList.length < npos) :
    (CellsAgree pts ↔ BareKeys pts) ∧
      ∀ (C : ChaiScript) (cml : String → Option String) (engine : ActionEngine C cml)
        (chai : C.State),
        (∀ pt ∈ pts, plain pt.userName ∧ ∀ tm ∈ pt.members, plain tm.name) →
        (∀ userName name, engine.allyActions chai (userName ++ "_" ++ name) = none) →
          ((∃ chai', registerTeams cml pts chai = .ok chai' ∧ engine.FindsWritten pts chai') ↔
            BareKeys pts ∧ engine.Kept pts (engine.classes chai)) := by
  refine ⟨cellsAgree_iff hsize, ?_⟩
  intro C cml engine chai hplain hfresh
  rw [← engine.held_iff_kept hplain hfresh, ← cellsAgree_iff hsize]
  simp only [engine.findsWritten_iff]
  constructor
  · rintro ⟨chai', hrun, hcells, hheld⟩
    exact ⟨hcells, chai', hrun, hheld⟩
  · rintro ⟨hcells, chai', hrun, hheld⟩
    exact ⟨chai', hrun, hcells, hheld⟩

def slashers : PartyTeam := fyston [("arena:actions:damage:slash.chai", 3)]

/-- A slash is written under its bare name and looked up under the key of its script. -/
theorem cells_agree_iff_slashers :
    (CellsAgree [slashers] ↔ BareKeys [slashers]) ∧
      ((∃ chai', registerTeams slashAndHeal [slashers] noRegistry = .ok chai' ∧
          slashAndHealEngine.FindsWritten [slashers] chai') ↔
        BareKeys [slashers] ∧ slashAndHealEngine.Kept [slashers] []) := by
  have hsize : ∀ pt ∈ [slashers], ∀ tm ∈ pt.members, ∀ action ∈ tm.actionsDoable,
      action.1.toList.length < npos := by decide +kernel
  refine ⟨(cells_agree_iff hsize).1, ?_⟩
  exact (cells_agree_iff hsize).2 registryChai slashAndHeal slashAndHealEngine noRegistry
    (ActionEngine.plain_fyston _) fun _ _ => rfl

theorem slash_not_found :
    ¬ ∀ (C : ChaiScript) (cml : String → Option String) (engine : ActionEngine C cml)
      (pts : List PartyTeam) (chai : C.State),
      (∀ pt ∈ pts, plain pt.userName ∧ ∀ tm ∈ pt.members,
        plain tm.name ∧ tm.userName = pt.userName) →
      (∀ userName name, engine.allyActions chai (userName ++ "_" ++ name) = none) →
        ∃ chai', registerTeams cml pts chai = .ok chai' ∧ engine.FindsWritten pts chai' := by
  intro h
  have hnames : ∀ pt ∈ [slashers], plain pt.userName ∧ ∀ tm ∈ pt.members,
      plain tm.name ∧ tm.userName = pt.userName := by
    intro pt hpt
    obtain ⟨huser, hmembers⟩ := ActionEngine.plain_fyston _ pt hpt
    refine ⟨huser, fun tm htm => ⟨hmembers tm htm, ?_⟩⟩
    rw [List.mem_singleton.mp hpt] at htm ⊢
    rw [List.mem_singleton.mp htm]
    rfl
  obtain ⟨chai', -, hfinds⟩ := h registryChai slashAndHeal slashAndHealEngine [slashers]
    noRegistry hnames fun _ _ => rfl
  have hcell := (hfinds slashers List.mem_cons_self _ List.mem_cons_self ⟨0, by decide⟩).1
  exact absurd hcell (by decide +kernel)

end FyS.Arena
