import FyS.Arena.Pit.FightingPit
import FyS.Arena.PriorityOrder.Construction
import FyS.Library.KeyedTable

/-!
# What `initializeSideBattles` registers

Every list is filled by arrivals on a default list whose turn counter stays at
0, so no arrival can fail, and a side ends with an unplayed list of its members
and of its contenders, the latter numbered from 0 on every side.
-/

namespace FyS.Arena

open FyS.Library.Fuel HexagonSide PriorityOrderList

variable {P : Platform} {C : ChaiScript}

/-! ## Members -/

namespace AllyPartyTeams

theorem ids_members (apt : AllyPartyTeams) :
    apt.members.map (·.id) = List.range' 1 apt.currentTeamMemberId := apt.ids_eq

theorem ids_nodup (apt : AllyPartyTeams) : (apt.members.map (·.id)).Nodup := by
  rw [ids_members]
  exact List.nodup_range'

theorem id_bounds {apt : AllyPartyTeams} {member : TeamMember} (h : member ∈ apt.members) :
    1 ≤ member.id ∧ member.id ≤ apt.currentTeamMemberId := by
  have hmem : member.id ∈ apt.members.map (·.id) := List.mem_map_of_mem h
  rw [ids_members, List.mem_range'_1] at hmem
  omega

theorem eq_of_id_eq {apt : AllyPartyTeams} {member other : TeamMember} (h : member ∈ apt.members)
    (ho : other ∈ apt.members) (hid : member.id = other.id) : member = other :=
  List.inj_on_of_nodup_map apt.ids_nodup h ho hid

theorem find_self {apt : AllyPartyTeams} {member : TeamMember} (h : member ∈ apt.members) :
    apt.members.find? (·.id == member.id) = some member :=
  FyS.Library.KeyedTable.find_of_mem apt.ids_nodup h

theorem getMembersBySide_eq (apt : AllyPartyTeams) (side : Orientation) :
    apt.getMembersBySide side =
      if apt.noFirstMember then []
      else apt.members.filter fun member => member.getHexagonSideOrient == side := by
  simp only [getMembersBySide, members, PartyTeam.getTeamMemberOnSide, List.filter_flatMap]

theorem mem_getMembersBySide {apt : AllyPartyTeams} {side : Orientation} {member : TeamMember} :
    member ∈ apt.getMembersBySide side ↔
      apt.noFirstMember = false ∧ member ∈ apt.members ∧ member.getHexagonSideOrient = side := by
  rw [getMembersBySide_eq]
  cases apt.noFirstMember <;> simp

theorem ids_getMembersBySide_nodup (apt : AllyPartyTeams) (side : Orientation) :
    ((apt.getMembersBySide side).map (·.id)).Nodup := by
  rw [getMembersBySide_eq]
  split
  · exact List.nodup_nil
  · exact apt.ids_nodup.sublist (List.filter_sublist.map _)

theorem selectMemberById_eq (apt : AllyPartyTeams) (idMember : Nat) :
    apt.selectMemberById idMember =
      if apt.noFirstMember then none else apt.members.find? (·.id == idMember) := by
  rw [selectMemberById, members, List.find?_flatMap]

theorem selectMemberById_of_mem {apt : AllyPartyTeams} {member : TeamMember}
    (hfirst : apt.noFirstMember = false) (h : member ∈ apt.members) :
    apt.selectMemberById member.id = some member := by
  rw [selectMemberById_eq, hfirst]
  exact find_self h

end AllyPartyTeams

/-! ## The entries of a side -/

namespace FightingPit

def memberEntry (member : TeamMember) : PriorityElem :=
  ⟨member.id, intOfUint member.status.initialSpeed, false⟩

def contenderEntry (contender : FightingContender) (i : Nat) : PriorityElem :=
  ⟨i, intOfUint contender.status.initialSpeed, true⟩

def entries (fp : FightingPit C) (side : Orientation) : List PriorityElem :=
  (fp.partyTeams.getMembersBySide side).map memberEntry ++
    (fp.contenders.getContenderOnSide side).zipIdx.map fun x => contenderEntry x.1 x.2

theorem mem_entries {fp : FightingPit C} {side : Orientation} {e : PriorityElem} :
    e ∈ fp.entries side ↔
      (∃ member ∈ fp.partyTeams.getMembersBySide side, memberEntry member = e) ∨
        ∃ contender i, (fp.contenders.getContenderOnSide side)[i]? = some contender ∧
          contenderEntry contender i = e := by
  simp only [entries, List.mem_append, List.mem_map, Prod.exists, List.mk_mem_zipIdx_iff_getElem?]

theorem entries_keys_nodup (fp : FightingPit C) (side : Orientation) :
    (keys (fp.entries side)).Nodup := by
  rw [entries, keys_append, List.nodup_append]
  refine ⟨?_, ?_, ?_⟩
  · rw [keys, List.map_map]
    refine List.Nodup.of_map Prod.fst ?_
    rw [List.map_map]
    exact fp.partyTeams.ids_getMembersBySide_nodup side
  · rw [keys, List.map_map]
    refine List.Nodup.of_map Prod.fst ?_
    rw [List.map_map]
    show ((fp.contenders.getContenderOnSide side).zipIdx.map Prod.snd).Nodup
    rw [List.zipIdx_map_snd]
    exact List.nodup_range'
  · intro k hk k' hk' heq
    simp only [keys, List.map_map, List.mem_map] at hk hk'
    obtain ⟨member, -, rfl⟩ := hk
    obtain ⟨x, -, rfl⟩ := hk'
    cases congrArg Prod.snd heq

/-! ## The initial lists -/

def unplayedBattle (base : List PriorityElem) (side : Orientation) : SideBattle :=
  ⟨unplayed base 0, side, false, 0⟩

theorem initializePriorityList_eq (fp : FightingPit C) (side : Orientation) (fuel : Nat) :
    initializePriorityList P fuel fp (.new side) =
      (addAll P fuel (fp.entries side) .empty).map fun s => ⟨s, side, false, 0⟩ := by
  have hadd (l : List PriorityElem) (sb : SideBattle) :
      l.foldlM (fun sb e => sb.addParticipantInList P fuel e.id e.speed e.isContender) sb =
        (addAll P fuel l sb.priorityOrderList).map fun s => { sb with priorityOrderList := s } := by
    induction l generalizing sb with
    | nil => rfl
    | cons e l ih =>
        rw [addAll, List.foldlM_cons, List.foldlM_cons, SideBattle.addParticipantInList]
        cases sb.priorityOrderList.addParticipantInList P fuel e.id e.speed e.isContender with
        | error f => rfl
        | ok s => exact ih { sb with priorityOrderList := s }
  have hall := hadd (fp.entries side) (.new side)
  simp only [entries, List.foldlM_append, List.foldlM_map] at hall
  exact hall

theorem mapM_ok {α β : Type} {f : α → Except Fault β} {g : α → β} {l : List α}
    (h : ∀ a ∈ l, f a = .ok (g a)) : l.mapM f = .ok (l.map g) := by
  induction l with
  | nil => rfl
  | cons a l ih =>
      rw [List.mapM_cons, h a List.mem_cons_self, ih fun b hb => h b (List.mem_cons_of_mem _ hb)]
      rfl

/-- Initialisation succeeds and leaves every side with an unplayed list of its
entries, in ascending order of speed. -/
theorem initializeSideBattles_sorted (P : Platform) {fp : FightingPit C} (h : fp.sideBattles = []) :
    ∃ base : Orientation → List PriorityElem,
      (∀ side, (base side).Perm (fp.entries side) ∧ Ascending (base side)) ∧
        ∀ fuel, initializeSideBattles P fuel fp =
          .ok { fp with sideBattles := sides.map fun side => unplayedBattle (base side) side } := by
  have hside (side : Orientation) : ∃ base, (base.Perm (fp.entries side) ∧ Ascending base) ∧
      ∀ fuel, initializePriorityList P fuel fp (.new side) = .ok (unplayedBattle base side) := by
    obtain ⟨base, hperm, hasc, hruns⟩ := addAll_unplayed (P := P)
      (show (keys ([] ++ fp.entries side)).Nodup from fp.entries_keys_nodup side) .nil
    refine ⟨base, ⟨by simpa using hperm, hasc⟩, fun fuel => ?_⟩
    rw [initializePriorityList_eq]
    show (addAll P fuel (fp.entries side) (unplayed [] 0)).map _ = _
    rw [hruns fuel]
    rfl
  choose base hbase hruns using hside
  refine ⟨base, hbase, fun fuel => ?_⟩
  have hmap : (sides.map SideBattle.new).mapM (initializePriorityList P fuel fp) =
      .ok ((sides.map SideBattle.new).map fun sb => unplayedBattle (base sb.side) sb.side) := by
    apply mapM_ok
    intro sb hsb
    obtain ⟨side, -, rfl⟩ := List.mem_map.mp hsb
    exact hruns side fuel
  rw [initializeSideBattles, initializePriorityListInSidesBattle, h, List.nil_append]
  show (sides.map SideBattle.new).mapM (initializePriorityList P fuel fp) >>= _ = _
  rw [hmap, List.map_map]
  rfl

theorem initializeSideBattles_eq (P : Platform) {fp : FightingPit C} (h : fp.sideBattles = []) :
    ∃ base : Orientation → List PriorityElem, (∀ side, (base side).Perm (fp.entries side)) ∧
      ∀ fuel, initializeSideBattles P fuel fp =
        .ok { fp with sideBattles := sides.map fun side => unplayedBattle (base side) side } := by
  obtain ⟨base, hbase, hruns⟩ := initializeSideBattles_sorted P h
  exact ⟨base, fun side => (hbase side).1, hruns⟩

theorem initializeSideBattles_cases {fp fp' : FightingPit C} (hfresh : fp.sideBattles = [])
    (h : Returns (fun fuel => initializeSideBattles P fuel fp) fp') :
    ∃ base : Orientation → List PriorityElem, (∀ side, (base side).Perm (fp.entries side)) ∧
      fp' = { fp with sideBattles := sides.map fun side => unplayedBattle (base side) side } := by
  obtain ⟨base, hperm, hruns⟩ := initializeSideBattles_eq P hfresh
  obtain ⟨fuel, hfuel⟩ := h
  exact ⟨base, hperm, Except.ok.inj (hfuel.symm.trans (hruns fuel))⟩

/-! ## Sides -/

theorem mem_sides {side : Orientation} : side ∈ sides ↔ side ≠ .NONE := by
  cases side <;> decide

/-! ## Small pits -/

def healthy (initialSpeed : Nat) : Status := ⟨⟨10, 10⟩, ⟨0, 0⟩, initialSpeed, []⟩

def recruit (name : String) (side : Orientation) (initialSpeed : Nat) : TeamMember :=
  ⟨"owner", name, ⟨.A, side⟩, 0, healthy initialSpeed, [], .new⟩

def monster (contenderId : Nat) (side : Orientation) (initialSpeed : Nat) : FightingContender :=
  ⟨⟨"Sampy", 1, contenderId⟩, ⟨.A, side⟩, healthy initialSpeed⟩

def assembled (effect : Effect) (contenders : List FightingContender) (team : List TeamMember) :
    FightingPit (constantChai effect) :=
  { FightingPit.new .MEDIUM () with
    contenders := ⟨contenders, contenders.map fun _ => false⟩
    partyTeams := AllyPartyTeams.empty.addPartyTeam ⟨"owner", team⟩
    ending := .NOT_FINISHED }

/-- The pit after `initializeSideBattles`, where the lists come out as `entries`
puts them, members and contenders being in ascending order of speed. -/
def arranged (fp : FightingPit C) : FightingPit C :=
  { fp with sideBattles := sides.map fun side => unplayedBattle (fp.entries side) side }

def harmless : Effect := ⟨fun _ status => status, fun _ status => status⟩

end FightingPit

end FyS.Arena
