import FyS.Arena.Pit.Joining
import FyS.Common.Algorithm

/-!
# Queries over several teams

The queries of `AllyPartyTeams` walk through the teams, and most of them give up
when the first team is empty.  They see the members of all teams exactly when
the first team has a member or no team has.
-/

namespace FyS.Arena

open FyS.Common FyS.Library.RunningBest HexagonSide

namespace AllyPartyTeams

def selectSuitableMember (apt : AllyPartyTeams) (comp : TeamMember → TeamMember → Bool) :
    Option TeamMember :=
  if apt.noFirstMember then none
  else (apt.partyTeams.head?.bind fun team => team.members.head?).map fun first =>
    apt.partyTeams.foldl
      (fun suitable partyTeam => findMostSuitableFrom comp suitable partyTeam.members) first

def getNumberAlly (apt : AllyPartyTeams) : Nat := apt.currentTeamMemberId

def joined (teams : List PartyTeam) : AllyPartyTeams :=
  teams.foldl (fun apt team => apt.addPartyTeam team) .empty

def concatenation (teams : List PartyTeam) : List TeamMember :=
  (teams.flatMap (·.members)).mapIdx fun i member => { member with id := i + 1 }

/-! ## The teams that joined -/

theorem currentTeamMemberId_eq (apt : AllyPartyTeams) :
    apt.currentTeamMemberId = apt.members.length := by
  have hlength := congrArg List.length apt.ids_members
  rw [List.length_map, List.length_range'] at hlength
  exact hlength.symm

theorem joined_concat (teams : List PartyTeam) (team : PartyTeam) :
    joined (teams ++ [team]) = (joined teams).addPartyTeam team := by
  rw [joined, List.foldl_append]
  rfl

theorem members_joined (teams : List PartyTeam) :
    (joined teams).members = concatenation teams := by
  induction teams using List.reverseRecOn with
  | nil => rfl
  | append_singleton teams team ih =>
      rw [joined_concat, members_addPartyTeam, currentTeamMemberId_eq, ih]
      unfold concatenation PartyTeam.numbered
      rw [List.flatMap_append, List.flatMap_singleton, List.mapIdx_append, List.length_mapIdx]
      simp only [Nat.add_comm _ (List.length _), Nat.add_assoc]

theorem lengths_joined (teams : List PartyTeam) :
    (joined teams).partyTeams.map (·.members.length) = teams.map (·.members.length) := by
  induction teams using List.reverseRecOn with
  | nil => rfl
  | append_singleton teams team ih =>
      rw [joined_concat, addPartyTeam, List.map_append, List.map_append, ih, List.map_singleton,
        List.map_singleton, PartyTeam.length_numbered]

theorem noFirstMember_eq (apt : AllyPartyTeams) :
    apt.noFirstMember = (apt.partyTeams.map (·.members.length)).head?.all (· == 0) := by
  cases h : apt.partyTeams with
  | nil => simp [noFirstMember, h]
  | cons team teams =>
      simp only [noFirstMember, h, List.head?_cons, Option.all_some, List.map_cons]
      cases team.members <;> rfl

theorem noFirstMember_joined (teams : List PartyTeam) :
    (joined teams).noFirstMember = teams.head?.all fun team => team.members.isEmpty := by
  rw [noFirstMember_eq, lengths_joined]
  cases teams with
  | nil => rfl
  | cons team teams =>
      simp only [List.map_cons, List.head?_cons, Option.all_some]
      cases team.members <;> rfl

theorem concatenation_eq_nil_iff {teams : List PartyTeam} :
    concatenation teams = [] ↔ ∀ team ∈ teams, team.members = [] := by
  simp [concatenation]

/-! ## Each query against the members of all teams -/

theorem foldl_findMostSuitableFrom (comp : TeamMember → TeamMember → Bool)
    (teams : List PartyTeam) (first : TeamMember) :
    teams.foldl (fun suitable partyTeam => findMostSuitableFrom comp suitable partyTeam.members)
      first = best comp first (teams.flatMap (·.members)) := by
  induction teams generalizing first with
  | nil => rfl
  | cons team teams ih =>
      rw [List.foldl_cons, ih, List.flatMap_cons, best_append, findMostSuitableFrom_eq]

theorem selectSuitableMember_eq (apt : AllyPartyTeams) (comp : TeamMember → TeamMember → Bool) :
    apt.selectSuitableMember comp =
      if apt.noFirstMember then none else findMostSuitable comp apt.members := by
  rw [selectSuitableMember]
  split
  · rfl
  · rename_i hfirst
    cases hteams : apt.partyTeams with
    | nil =>
        rw [noFirstMember, hteams] at hfirst
        exact absurd rfl hfirst
    | cons team teams =>
        cases hmembers : team.members with
        | nil =>
            rw [noFirstMember, hteams] at hfirst
            simp [hmembers] at hfirst
        | cons member rest =>
            simp only [findMostSuitable_eq, foldl_findMostSuitableFrom, members, select, hteams,
              hmembers, List.head?_cons, Option.bind_some, List.flatMap_cons, List.cons_append,
              Option.map_some]

theorem allyNumberOnSide_eq (apt : AllyPartyTeams) (side : Orientation) :
    apt.allyNumberOnSide side =
      (apt.members.filter fun member => member.getHexagonSideOrient == side).length := by
  have hsum (teams : List PartyTeam) (count : Nat) :
      teams.foldl (fun count party => count + party.allyNumberOnSide side) count = count +
        ((teams.flatMap (·.members)).filter fun member =>
          member.getHexagonSideOrient == side).length := by
    induction teams generalizing count with
    | nil => rfl
    | cons team teams ih =>
        rw [List.foldl_cons, ih, List.flatMap_cons, List.filter_append, List.length_append,
          PartyTeam.allyNumberOnSide, List.countP_eq_length_filter, Nat.add_assoc]
        simp only [Bool.beq_comm]
  rw [allyNumberOnSide, hsum, Nat.zero_add, members]

theorem id_of_getElem? {apt : AllyPartyTeams} {i : Nat} {member : TeamMember}
    (h : apt.members[i]? = some member) : member.id = i + 1 := by
  have hid : (apt.members.map (·.id))[i]? = some member.id := by
    rw [List.getElem?_map, h]
    rfl
  have hlt : i < apt.currentTeamMemberId := by
    rw [currentTeamMemberId_eq]
    exact (List.getElem?_eq_some_iff.mp h).1
  rw [ids_members, List.getElem?_range' hlt] at hid
  have heq : 1 + 1 * i = member.id := Option.some.inj hid
  omega

/-- The member of an id is found at its place, as ids are counted from 1. -/
theorem find_id_members (apt : AllyPartyTeams) (k : Nat) :
    apt.members.find? (·.id == k) = if k = 0 then none else apt.members[k - 1]? := by
  cases k with
  | zero =>
      rw [if_pos rfl, List.find?_eq_none]
      intro member hmember
      have hbounds := id_bounds hmember
      simp only [beq_iff_eq]
      omega
  | succ i =>
      rw [if_neg (Nat.succ_ne_zero i), Nat.add_sub_cancel]
      cases hmember : apt.members[i]? with
      | none =>
          rw [List.find?_eq_none]
          intro member hmem
          have hbounds := id_bounds hmem
          have hlength := List.getElem?_eq_none_iff.mp hmember
          rw [currentTeamMemberId_eq] at hbounds
          simp only [beq_iff_eq]
          omega
      | some member =>
          have hid := id_of_getElem? hmember
          have hfound := find_self (List.mem_of_getElem? hmember)
          rw [hid] at hfound
          exact hfound

/-! ## The teams together -/

/-- The queries answer as if there were one team with these members. -/
structure SeesAsOne (apt : AllyPartyTeams) (all : List TeamMember) : Prop where
  ids : all.map (·.id) = List.range' 1 all.length
  byId : ∀ idMember, apt.selectMemberById idMember = all.find? (·.id == idMember)
  kth : ∀ k, apt.selectMemberById k = if k = 0 then none else all[k - 1]?
  suitable : ∀ comp, apt.selectSuitableMember comp = findMostSuitable comp all
  bySide : ∀ side, apt.getMembersBySide side =
    all.filter fun member => member.getHexagonSideOrient == side
  number : ∀ side, apt.allyNumberOnSide side = (apt.getMembersBySide side).length

theorem guard_eq {apt : AllyPartyTeams} (h : apt.noFirstMember = true → apt.members = [])
    {β : Type} {given found : β} (hnil : apt.members = [] → given = found) :
    (if apt.noFirstMember then given else found) = found := by
  split
  · rename_i hfirst
    exact hnil (h hfirst)
  · rfl

theorem seesAsOne_of {apt : AllyPartyTeams} (h : apt.noFirstMember = true → apt.members = []) :
    SeesAsOne apt apt.members := by
  have hbyId (idMember : Nat) :
      apt.selectMemberById idMember = apt.members.find? (·.id == idMember) := by
    rw [selectMemberById_eq]
    apply guard_eq h
    intro hnil
    rw [hnil]
    rfl
  have hbySide (side : Orientation) : apt.getMembersBySide side =
      apt.members.filter fun member => member.getHexagonSideOrient == side := by
    rw [getMembersBySide_eq]
    apply guard_eq h
    intro hnil
    rw [hnil]
    rfl
  constructor
  · rw [ids_members, currentTeamMemberId_eq]
  · exact hbyId
  · intro k
    rw [hbyId, find_id_members]
  · intro comp
    rw [selectSuitableMember_eq]
    apply guard_eq h
    intro hnil
    rw [hnil]
    rfl
  · exact hbySide
  · intro side
    rw [hbySide, allyNumberOnSide_eq]

/-- Where the first team is empty and another is not, the first member is not found. -/
theorem not_seesAsOne_of {apt : AllyPartyTeams} (hfirst : apt.noFirstMember = true)
    (hne : apt.members ≠ []) : ¬ SeesAsOne apt apt.members := by
  intro h
  have hkth := h.kth 1
  rw [selectMemberById_eq, if_pos hfirst, if_neg Nat.one_ne_zero] at hkth
  exact hne (List.eq_nil_of_length_eq_zero
    (Nat.le_zero.mp (List.getElem?_eq_none_iff.mp hkth.symm)))

/-- The queries see the concatenation of all teams exactly when the first team has
a member or no team has one. -/
theorem seesAsOne_joined_iff (teams : List PartyTeam) :
    SeesAsOne (joined teams) (concatenation teams) ↔
      (∃ team, teams.head? = some team ∧ team.members ≠ []) ∨
        ∀ team ∈ teams, team.members = [] := by
  have hcond : ((joined teams).noFirstMember = true → (joined teams).members = []) ↔
      (∃ team, teams.head? = some team ∧ team.members ≠ []) ∨
        ∀ team ∈ teams, team.members = [] := by
    rw [noFirstMember_joined, members_joined, concatenation_eq_nil_iff]
    cases teams with
    | nil => simp
    | cons team teams =>
        simp only [List.head?_cons, Option.all_some, List.isEmpty_iff, Option.some.injEq,
          exists_eq_left']
        tauto
  rw [← hcond, ← members_joined]
  constructor
  · intro h hfirst
    by_contra hne
    exact not_seesAsOne_of hfirst hne h
  · exact seesAsOne_of

/-- An empty team in front hides the member of the next one. -/
theorem member_hidden :
    ¬ ∀ teams : List PartyTeam, SeesAsOne (joined teams) (concatenation teams) := by
  intro h
  have hbyId := (h [⟨"first", []⟩, ⟨"second", [FightingPit.recruit "a" .B_N 5]⟩]).byId 1
  cases hbyId

end AllyPartyTeams

end FyS.Arena
