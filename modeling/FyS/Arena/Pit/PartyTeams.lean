import FyS.Arena.Network.WorkerService
import FyS.Arena.Pit.Joining
import FyS.Arena.Pit.PendingActions
import FyS.Library.KeyedTable

/-!
# Teams by the name of their user

`getPartyTeamOfPlayer` and `getSpecificTeamMemberById` stop at the first team of
a user.  They see every member that the user owns exactly when no user owns two
teams.
-/

namespace FyS.Arena

open FyS.Library.KeyedTable

namespace AllyPartyTeams

/-- `none` where the source throws. -/
def getPartyTeamOfPlayer (userName : String) (apt : AllyPartyTeams) : Option PartyTeam :=
  apt.partyTeams.find? fun partyTeam => partyTeam.userName = userName

def getSpecificTeamMemberById (userName : String) (idMember : Nat) (apt : AllyPartyTeams) :
    Option TeamMember :=
  match apt.partyTeams.find? fun team => team.userName = userName with
  | none => none
  | some team => team.members.find? fun member => member.id = idMember

def userNames (apt : AllyPartyTeams) : List String := apt.partyTeams.map (·.userName)

@[simp] theorem userNames_addPartyTeam (team : PartyTeam) (apt : AllyPartyTeams) :
    (apt.addPartyTeam team).userNames = apt.userNames ++ [team.userName] := List.map_append

@[simp] theorem userNames_mapMembers (f : TeamMember → TeamMember)
    (hf : ∀ member, (f member).id = member.id) (apt : AllyPartyTeams) :
    (apt.mapMembers f hf).userNames = apt.userNames := List.map_map

theorem getPartyTeamOfPlayer_eq_none_iff {userName : String} {apt : AllyPartyTeams} :
    apt.getPartyTeamOfPlayer userName = none ↔ userName ∉ apt.userNames := by
  simp [getPartyTeamOfPlayer, userNames]

/-- The lookups by user see every member. -/
def SeesAll (apt : AllyPartyTeams) : Prop :=
  ∀ team ∈ apt.partyTeams, apt.getPartyTeamOfPlayer team.userName = some team ∧
    ∀ member ∈ team.members,
      apt.getSpecificTeamMemberById team.userName member.id = some member

theorem nodup_members {apt : AllyPartyTeams} {team : PartyTeam} (h : team ∈ apt.partyTeams) :
    (team.members.map (·.id)).Nodup := by
  have hall : ((apt.partyTeams.flatMap (·.members)).map (·.id)).Nodup := by
    rw [apt.ids_eq]
    exact List.nodup_range'
  apply List.Nodup.sublist _ hall
  exact (List.sublist_flatten_of_mem (List.mem_map_of_mem h)).map _

theorem seesAll_of_nodup {apt : AllyPartyTeams} (h : apt.userNames.Nodup) : apt.SeesAll := by
  intro team hteam
  have hfound := find_of_mem h hteam
  refine ⟨hfound, ?_⟩
  intro member hmember
  rw [getSpecificTeamMemberById, hfound]
  exact find_of_mem (nodup_members hteam) hmember

end AllyPartyTeams

/-! ## What a player asks of his team -/

namespace ArenaInstance

variable {C : ChaiScript}

def forwardMessageToTeamMember (userName : String) (idMember : Nat) (fp : ArenaInstance C) :
    ArenaInstance C :=
  match fp.partyTeams.getSpecificTeamMemberById userName idMember with
  | none => fp
  | some member =>
    let member := member.addPendingAction "" (.contenderTargetId 1)
    { fp with partyTeams := fp.partyTeams.setPendingActions member.id member.pendingActions }

def addPartyTeamAndRegisterActions (S : SideSort) (cml : String → Option String) (pt : PartyTeam)
    (fp : ArenaInstance C) : Except PitFault (ArenaInstance C) :=
  match fp.toFightingPit.addPartyTeamAndRegisterActions S cml pt with
  | .error fault => .error fault
  | .ok pit => .ok { fp with toFightingPit := pit }

def admission (fp : ArenaInstance C) : List AuthenticatedPlayer × List String :=
  (fp.authenticatedPlayers, fp.partyTeams.userNames)

theorem admission_forwardMessageToTeamMember (userName : String) (idMember : Nat)
    (fp : ArenaInstance C) :
    (fp.forwardMessageToTeamMember userName idMember).admission = fp.admission := by
  unfold forwardMessageToTeamMember
  split
  · rfl
  · simp [admission, AllyPartyTeams.setPendingActions]

theorem admission_addPartyTeam {S : SideSort} {cml : String → Option String} {pt : PartyTeam}
    {fp fp' : ArenaInstance C} (h : fp.addPartyTeamAndRegisterActions S cml pt = .ok fp') :
    fp'.admission = (fp.admission.1, fp.admission.2 ++ [pt.userName]) := by
  unfold addPartyTeamAndRegisterActions at h
  split at h
  · cases h
  · rename_i pit hpit
    obtain ⟨hteams, -⟩ := FightingPit.addPartyTeam_cases hpit
    rw [← Except.ok.inj h]
    simp [admission, hteams]

end ArenaInstance

end FyS.Arena
