import FyS.Arena.Pit.TheDead

/-!
# The target of an action

What becomes of the target that a player has chosen.  A target is looked up in
two ways that fail differently when it does not exist, and the function that the
action runs on is handed a copy of the status that it should change.
-/

namespace FyS.Arena

open FyS.Common FyS.Library.Trace

variable {C : ChaiScript}

def TargetType.acceptedBy (targeting : Targeting) : TargetType → Bool
  | .allyTargetId _ => targeting == .ALLY || targeting == .ALLY_OR_ENNEMY
  | .contenderTargetId _ => targeting == .ENNEMY || targeting == .ALLY_OR_ENNEMY
  | _ => false

/-! ## Members and what changes them -/

namespace AllyPartyTeams

theorem members_mapMembers (f : TeamMember → TeamMember)
    (hf : ∀ member, (f member).id = member.id) (apt : AllyPartyTeams) :
    (apt.mapMembers f hf).members = apt.members.map f := by
  rw [members, mapMembers, members, List.flatMap_map, List.map_flatMap]

theorem noFirstMember_mapMembers (f : TeamMember → TeamMember)
    (hf : ∀ member, (f member).id = member.id) (apt : AllyPartyTeams) :
    (apt.mapMembers f hf).noFirstMember = apt.noFirstMember := by
  simp only [noFirstMember, mapMembers, List.head?_map]
  cases apt.partyTeams.head? with
  | none => rfl
  | some team => simp

theorem noFirstMember_setPendingActions (id : Nat)
    (pendingActions : SizedQueue PendingAction 100) (apt : AllyPartyTeams) :
    (apt.setPendingActions id pendingActions).noFirstMember = apt.noFirstMember :=
  noFirstMember_mapMembers _ _ _

theorem find_mapMembers (f : TeamMember → TeamMember)
    (hf : ∀ member, (f member).id = member.id) (apt : AllyPartyTeams) (id : Nat) :
    (apt.mapMembers f hf).members.find? (·.id == id) =
      (apt.members.find? (·.id == id)).map f := by
  have hsame : ((fun member : TeamMember => member.id == id) ∘ f) = fun member => member.id == id := by
    ext1 member
    rw [Function.comp_apply, hf]
  rw [members_mapMembers, List.find?_map, hsame]

theorem mapMembers_id (apt : AllyPartyTeams) :
    apt.mapMembers (fun member => { member with status := member.status }) (fun _ => rfl) = apt := by
  obtain ⟨partyTeams, n, hids⟩ := apt
  simp [mapMembers]

end AllyPartyTeams

namespace Board

theorem affected_harmless (chai : C.State) (board : Board C) :
    board.affected FightingPit.harmless chai = { board with chai } := by
  have hcontenders : (board.contenders.contenders.mapIdx fun i contender =>
      { contender with status := FightingPit.harmless.contender i contender.status }) =
        board.contenders.contenders := by
    apply List.ext_getElem
    · simp
    · intro i _ _
      simp [FightingPit.harmless]
  rw [affected, hcontenders]
  congr 1
  exact board.partyTeams.mapMembers_id

def targetStatus (board : Board C) : TargetType → Option Status
  | .contenderTargetId v => board.contenders.contenders[v]?.map (·.status)
  | .allyTargetId v => (board.partyTeams.members.find? (·.id == v)).map (·.status)
  | _ => none

def reach (board : Board C) : TargetType → Except PitFault Status
  | .contenderTargetId v =>
    match board.contenders.getFightingContender v with
    | none => .error .outOfRange
    | some contender => .ok contender.status
  | .allyTargetId v =>
    match board.partyTeams.selectMemberById v with
    | none => .error .nullMember
    | some ally => .ok ally.status
  | _ => .error .outOfRange

def popped (member : TeamMember) (board : Board C) : Board C :=
  { board with
    partyTeams := board.partyTeams.setPendingActions member.id member.pendingActions.pop.2 }

end Board

namespace TeamMember

variable {member : TeamMember} {board : Board C}

/-- A target that is accepted is reached and its status handed on; another one is
passed over. -/
theorem executeOn_some (member : TeamMember) (target : TargetType) (targeting : Targeting)
    (function : C.Function) (board : Board C) :
    member.executeOn (some target) targeting function board =
      if target.acceptedBy targeting then
        (board.reach target).bind fun status => board.caught
          (C.callWithStatus function status board.contenders board.partyTeams board.chai)
      else .ok board := by
  cases target with
  | contenderTargetId v =>
      simp only [executeOn, TargetType.acceptedBy, Board.reach, Bool.or_eq_true, beq_iff_eq]
      cases board.contenders.getFightingContender v <;> rfl
  | allyTargetId v =>
      simp only [executeOn, TargetType.acceptedBy, Board.reach, Bool.or_eq_true, beq_iff_eq]
      cases board.partyTeams.selectMemberById v <;> rfl
  | contendersTargetsIds v => rfl
  | alliesTargetsIds v => rfl
  | side v => rfl

end TeamMember

/-! ## What a member can aim at -/

theorem targetStatus_popped (member : TeamMember) (board : Board C) (target : TargetType) :
    (board.popped member).targetStatus target = board.targetStatus target := by
  cases target with
  | allyTargetId v =>
      simp only [Board.targetStatus, Board.popped, AllyPartyTeams.setPendingActions,
        AllyPartyTeams.find_mapMembers, Option.map_map]
      congr 1
      ext1 ally
      rw [Function.comp_apply]
      split <;> rfl
  | contenderTargetId v => rfl
  | contendersTargetsIds v => rfl
  | alliesTargetsIds v => rfl
  | side v => rfl

theorem reach_eq_ok_iff {board : Board C} {targeting : Targeting} {target : TargetType}
    (haccepted : target.acceptedBy targeting = true) (status : Status) :
    board.reach target = .ok status ↔ board.targetStatus target = some status ∧
      ∀ v, target = .allyTargetId v → board.partyTeams.noFirstMember = false := by
  cases target with
  | contenderTargetId v =>
      rw [Board.reach, Board.targetStatus, PitContenders.getFightingContender]
      cases board.contenders.contenders[v]? with
      | none => simp
      | some contender => simp
  | allyTargetId v =>
      rw [Board.reach, Board.targetStatus, AllyPartyTeams.selectMemberById_eq]
      cases hfirst : board.partyTeams.noFirstMember with
      | true => simp
      | false =>
          rw [if_neg (by decide)]
          cases board.partyTeams.members.find? (·.id == v) with
          | none => simp
          | some ally => simp
  | contendersTargetsIds v => cases haccepted
  | alliesTargetsIds v => cases haccepted
  | side v => cases haccepted

/-- An engine that hands a function the copy of a status: what the function does to
its copy, and whether it throws `eval_error` on it, is its own affair. -/
structure ByValue (C : ChaiScript) where
  execute : C.Function → Status → C.State → Option Int × Status
  callWithStatus_eq : ∀ function status contenders partyTeams chai, ∃ chai',
    C.callWithStatus function status contenders partyTeams chai =
      ((execute function status chai).1.elim (.error .evalError) .ok, FightingPit.harmless, chai')

/-- A member whose oldest pending action it can do, with a target of a kind that
the action takes and that exists. -/
structure Aim (member : TeamMember) (board : Board C) where
  pa : PendingAction
  action : String
  function : C.Function
  targeting : Targeting
  loaded : C.State
  chai : C.State
  target : TargetType
  status : Status
  member_mem : member ∈ board.partyTeams.members
  next : member.nextAction = some (pa, action)
  evalFunction_eq : C.evalFunction ("fun(allyStatus)\x7b return " ++ member.allyAction action ++
    ".execute(allyStatus);\x7d") board.chai = (.ok function, loaded)
  evalTargeting_eq : C.evalTargeting (member.allyAction action ++ ".requireTarget();") loaded =
    (.ok targeting, chai)
  target_eq : pa.target = some target
  accepted : target.acceptedBy targeting = true
  status_eq : board.targetStatus target = some status

/-- The character that is aimed at has the status `after`, no other status has
changed, and the member has one action less to do. -/
structure Hit (target : TargetType) (after : Status) (member : TeamMember) (board board' : Board C) :
    Prop where
  contenders : board'.contenders.contenders.map (·.status) =
    board.contenders.contenders.mapIdx fun i contender =>
      if target = .contenderTargetId i then after else contender.status
  members : board'.partyTeams.members.map (·.status) = board.partyTeams.members.map fun ally =>
    if target = .allyTargetId ally.id then after else ally.status
  pending : (board'.partyTeams.members.find? (·.id == member.id)).map (·.pendingActions) =
    some member.pendingActions.pop.2

namespace Aim

variable {member : TeamMember} {board : Board C} (engine : ByValue C) (aim : Aim member board)

def HitsTarget : Prop :=
  ∃ board', member.executeAction board = .ok board' ∧
    Hit aim.target (engine.execute aim.function aim.status aim.chai).2 member board board'

theorem executeAction_eq :
    member.executeAction board =
      (({ board.popped member with chai := aim.chai } : Board C).reach aim.target).bind fun status =>
        ({ board.popped member with chai := aim.chai } : Board C).caught
          (C.callWithStatus aim.function status (board.popped member).contenders
            (board.popped member).partyTeams aim.chai) := by
  simp only [TeamMember.executeAction, aim.next, aim.evalFunction_eq, aim.evalTargeting_eq,
    aim.target_eq, TeamMember.executeOn_some, aim.accepted, if_true]
  rfl

/-- The copy takes the change with it: the board is left as it was, less the action. -/
theorem caught_eq (engine : ByValue C) (status : Status) :
    ∃ chai, ({ board.popped member with chai := aim.chai } : Board C).caught
      (C.callWithStatus aim.function status (board.popped member).contenders
        (board.popped member).partyTeams aim.chai) = .ok { board.popped member with chai } := by
  obtain ⟨chai, hcall⟩ := engine.callWithStatus_eq aim.function status
    (board.popped member).contenders (board.popped member).partyTeams aim.chai
  refine ⟨chai, ?_⟩
  rw [hcall]
  cases (engine.execute aim.function status aim.chai).1 with
  | none => exact congrArg Except.ok (Board.affected_harmless chai _)
  | some n => exact congrArg Except.ok (Board.affected_harmless chai _)

theorem status_popped (member : TeamMember) (board : Board C) :
    (board.popped member).partyTeams.members.map (·.status) =
      board.partyTeams.members.map (·.status) := Board.status_setPendingActions _ _ _

theorem eq_of_hit_popped {chai : C.State} {after : Status}
    (h : Hit aim.target after member board { board.popped member with chai }) :
    after = aim.status := by
  have hstatus := aim.status_eq
  cases htarget : aim.target with
  | contenderTargetId v =>
      rw [htarget] at hstatus
      obtain ⟨contender, hget, hsame⟩ := Option.map_eq_some_iff.mp hstatus
      have hat := congrArg (fun statuses => statuses[v]?) h.contenders
      have hleft : ((board.popped member).contenders.contenders.map (·.status))[v]? =
          some aim.status := by
        rw [List.getElem?_map, ← hsame]
        exact congrArg (Option.map _) hget
      simp only [List.getElem?_mapIdx, hget, htarget, Option.map_some, if_true] at hat
      exact (Option.some.inj (hleft.symm.trans hat)).symm
  | allyTargetId v =>
      rw [htarget] at hstatus
      obtain ⟨ally, hfind, hsame⟩ := Option.map_eq_some_iff.mp hstatus
      have hid : ally.id = v := by simpa using List.find?_some hfind
      have hmembers := (status_popped member board).symm.trans h.members
      have hat := List.map_inj_left.mp hmembers ally (List.mem_of_find?_eq_some hfind)
      rw [htarget, hid, if_pos rfl, hsame] at hat
      exact hat.symm
  | contendersTargetsIds v =>
      rw [htarget] at hstatus
      cases hstatus
  | alliesTargetsIds v =>
      rw [htarget] at hstatus
      cases hstatus
  | side v =>
      rw [htarget] at hstatus
      cases hstatus

theorem hit_popped (chai : C.State) :
    Hit aim.target aim.status member board { board.popped member with chai } := by
  have hstatus := aim.status_eq
  constructor
  · apply List.ext_getElem
    · simp [Board.popped]
    · intro i hi _
      rw [List.getElem_map, List.getElem_mapIdx]
      split_ifs with hi'
      · rw [hi'] at hstatus
        obtain ⟨contender, hget, hsame⟩ := Option.map_eq_some_iff.mp hstatus
        rw [← hsame]
        obtain ⟨hlt, heq⟩ := List.getElem?_eq_some_iff.mp hget
        exact congrArg FightingContender.status heq
      · rfl
  · apply (status_popped member board).trans
    apply List.map_congr_left
    intro ally hally
    split_ifs with hid
    · rw [hid] at hstatus
      obtain ⟨other, hfind, hsame⟩ := Option.map_eq_some_iff.mp hstatus
      rw [AllyPartyTeams.find_self hally] at hfind
      rw [← hsame, Option.some.inj hfind]
    · rfl
  · show (((board.partyTeams.setPendingActions member.id _).members.find?
      (·.id == member.id)).map (·.pendingActions)) = _
    rw [AllyPartyTeams.setPendingActions, AllyPartyTeams.find_mapMembers,
      AllyPartyTeams.find_self aim.member_mem]
    simp

theorem reach_iff (status : Status) :
    ({ board.popped member with chai := aim.chai } : Board C).reach aim.target = .ok status ↔
      aim.status = status ∧
        ∀ v, aim.target = .allyTargetId v → board.partyTeams.noFirstMember = false := by
  rw [reach_eq_ok_iff aim.accepted]
  show (board.popped member).targetStatus aim.target = some status ∧
    (∀ v, aim.target = .allyTargetId v → (board.partyTeams.setPendingActions _ _).noFirstMember =
      false) ↔ _
  rw [targetStatus_popped, aim.status_eq, Option.some.injEq,
    AllyPartyTeams.noFirstMember_setPendingActions]

theorem unchanged_of_hitsTarget (h : aim.HitsTarget engine) :
    (engine.execute aim.function aim.status aim.chai).2 = aim.status ∧
      ∀ v, aim.target = .allyTargetId v → board.partyTeams.noFirstMember = false := by
  obtain ⟨board', hok, hhit⟩ := h
  rw [aim.executeAction_eq] at hok
  obtain ⟨status, hfound, hcall⟩ := Library.Fuel.bind_eq_ok.mp hok
  obtain ⟨rfl, hvisit⟩ := (aim.reach_iff status).mp hfound
  obtain ⟨chai, hcaught⟩ := aim.caught_eq engine aim.status
  rw [hcaught] at hcall
  rw [← Except.ok.inj hcall] at hhit
  exact ⟨aim.eq_of_hit_popped hhit, hvisit⟩

/-- An action hits its target exactly when it leaves the status as it is. -/
theorem hits_target_iff :
    aim.HitsTarget engine ↔
      (engine.execute aim.function aim.status aim.chai).2 = aim.status ∧
        ∀ v, aim.target = .allyTargetId v → board.partyTeams.noFirstMember = false := by
  constructor
  · exact aim.unchanged_of_hitsTarget engine
  · rintro ⟨hsame, hvisit⟩
    obtain ⟨chai, hcaught⟩ := aim.caught_eq engine aim.status
    refine ⟨{ board.popped member with chai }, ?_, ?_⟩
    · rw [aim.executeAction_eq, (aim.reach_iff aim.status).mpr ⟨rfl, hvisit⟩]
      exact hcaught
    · rw [hsame]
      exact aim.hit_popped chai

end Aim

/-! ## An arrow -/

namespace FightingPit

/-- `damage::execute` on the status that it is handed. -/
def damage (power : Nat) (status : Status) : Status :=
  { status with life := { status.life with current :=
      if status.life.current > power then status.life.current - power else 0 } }

def damageByValue (power : Nat) : ByValue (constantChai harmless) where
  execute _ status _ := (some 1, damage power status)
  callWithStatus_eq _ _ _ _ _ := ⟨(), rfl⟩

def archerAim : Aim { archer with id := 1 } (ambush harmless).toBoard where
  pa := ⟨0, some (.contenderTargetId 0)⟩
  action := "arrow"
  function := ()
  targeting := .ALLY_OR_ENNEMY
  loaded := ()
  chai := ()
  target := .contenderTargetId 0
  status := healthy 5
  member_mem := by decide
  next := by decide
  evalFunction_eq := rfl
  evalTargeting_eq := rfl
  target_eq := rfl
  accepted := rfl
  status_eq := rfl

theorem hits_target_iff_archer :
    archerAim.HitsTarget (damageByValue 3) ↔ damage 3 (healthy 5) = healthy 5 ∧
      ∀ v, archerAim.target = .allyTargetId v →
        (ambush harmless).partyTeams.noFirstMember = false :=
  archerAim.hits_target_iff (damageByValue 3)

/-- The arrow takes three life points of a copy. -/
theorem arrow_misses :
    ¬ ∀ (C : ChaiScript) (engine : ByValue C) (member : TeamMember) (board : Board C)
      (aim : Aim member board), aim.HitsTarget engine := by
  intro h
  have hsame := (archerAim.unchanged_of_hitsTarget (damageByValue 3)
    (h _ (damageByValue 3) _ _ archerAim)).1
  exact absurd hsame (by decide)

end FightingPit

end FyS.Arena
