import FyS.Arena.CommonTypes
import FyS.Arena.HexagonSide
import FyS.Common.SizedQueue

/-!
# The characters of a fighting pit

`contender/FightingContender`, `contender/PitContenders`, `team/TeamMember`,
`team/PartyTeam` and `team/AllyPartyTeams`.  A contender is known by its
position in the vector of all contenders, a team member by the id that
`addPartyTeam` counts out.
-/

namespace FyS.Arena

open FyS.Common HexagonSide

/-! ## Contenders -/

/-- `ContenderScripting`, less the engine it refers to. -/
structure ContenderScripting where
  contenderName : String
  level : Nat
  contenderId : Nat
deriving DecidableEq, Repr

structure FightingContender where
  contenderScripting : ContenderScripting
  side : HexagonSide
  status : Status
deriving DecidableEq, Repr

namespace FightingContender

def getHexagonSideOrient (contender : FightingContender) : Orientation := contender.side.side

end FightingContender

structure PitContenders where
  contenders : List FightingContender
  changeSideFlags : List Bool
deriving DecidableEq, Repr

namespace PitContenders

def getContenderOnSide (pc : PitContenders) (side : Orientation) : List FightingContender :=
  pc.contenders.filter fun contender => contender.getHexagonSideOrient == side

def getNumberContender (pc : PitContenders) : Nat := pc.contenders.length

/-- `_contenders.at(pos)`, which throws outside the vector. -/
def getFightingContender (pc : PitContenders) (pos : Nat) : Option FightingContender :=
  pc.contenders[pos]?

def contenderOnSide (pc : PitContenders) (side : Orientation) : Nat :=
  pc.contenders.countP fun contender => side == contender.getHexagonSideOrient

end PitContenders

/-! ## Team members -/

inductive TargetType where
  | contenderTargetId (v : Nat)
  | contendersTargetsIds (v : List Nat)
  | allyTargetId (v : Nat)
  | alliesTargetsIds (v : List Nat)
  | side (v : Orientation)
deriving DecidableEq, Repr

structure PendingAction where
  idAction : Nat
  target : Option TargetType
deriving DecidableEq, Repr

instance : Inhabited PendingAction := ⟨⟨0, none⟩⟩

structure TeamMember where
  userName : String
  name : String
  side : HexagonSide
  id : Nat
  status : Status
  /-- action name with level of action -/
  actionsDoable : List (String × Nat)
  pendingActions : SizedQueue PendingAction 100
deriving DecidableEq, Repr

namespace TeamMember

def getHexagonSideOrient (member : TeamMember) : Orientation := member.side.side

end TeamMember

structure PartyTeam where
  userName : String
  members : List TeamMember
deriving DecidableEq, Repr

namespace PartyTeam

def getTeamMemberOnSide (team : PartyTeam) (side : Orientation) : List TeamMember :=
  team.members.filter fun member => member.getHexagonSideOrient == side

def allyNumberOnSide (team : PartyTeam) (side : Orientation) : Nat :=
  team.members.countP fun ally => side == ally.getHexagonSideOrient

/-- The members under the ids that follow `currentTeamMemberId`. -/
def numbered (currentTeamMemberId : Nat) (team : PartyTeam) : PartyTeam :=
  { team with
    members := team.members.mapIdx fun i member =>
      { member with id := currentTeamMemberId + i + 1 } }

@[simp] theorem length_numbered (n : Nat) (team : PartyTeam) :
    (team.numbered n).members.length = team.members.length := List.length_mapIdx

theorem ids_numbered (n : Nat) (team : PartyTeam) :
    (team.numbered n).members.map (·.id) = List.range' (n + 1) team.members.length := by
  apply List.ext_getElem
  · simp
  · intro i _ _
    simp [numbered]
    omega

end PartyTeam

/-- The teams in the order in which they came.  Only `addPartyTeam` adds to
them, so the members of all teams are numbered through from 1. -/
structure AllyPartyTeams where
  partyTeams : List PartyTeam
  currentTeamMemberId : Nat
  ids_eq : (partyTeams.flatMap (·.members)).map (·.id) = List.range' 1 currentTeamMemberId
deriving DecidableEq, Repr

namespace AllyPartyTeams

def empty : AllyPartyTeams := ⟨[], 0, rfl⟩

def members (apt : AllyPartyTeams) : List TeamMember := apt.partyTeams.flatMap (·.members)

/-- `_partyTeams.empty() || _partyTeams.front()->getTeamMembers().empty()`. -/
def noFirstMember (apt : AllyPartyTeams) : Bool :=
  apt.partyTeams.head?.all fun team => team.members.isEmpty

def addPartyTeam (team : PartyTeam) (apt : AllyPartyTeams) : AllyPartyTeams where
  partyTeams := apt.partyTeams ++ [team.numbered apt.currentTeamMemberId]
  currentTeamMemberId := apt.currentTeamMemberId + team.members.length
  ids_eq := by
    rw [List.flatMap_append, List.map_append, apt.ids_eq, List.flatMap_singleton,
      PartyTeam.ids_numbered, Nat.add_comm apt.currentTeamMemberId 1,
      List.range'_append_1]

def selectMemberById (apt : AllyPartyTeams) (idMember : Nat) : Option TeamMember :=
  if apt.noFirstMember then none
  else apt.partyTeams.findSome? fun team => team.members.find? (·.id == idMember)

def allyNumberOnSide (apt : AllyPartyTeams) (side : Orientation) : Nat :=
  apt.partyTeams.foldl (fun count party => count + party.allyNumberOnSide side) 0

def getMembersBySide (apt : AllyPartyTeams) (side : Orientation) : List TeamMember :=
  if apt.noFirstMember then []
  else apt.partyTeams.flatMap fun team => team.getTeamMemberOnSide side

def mapMembers (f : TeamMember → TeamMember) (hf : ∀ member, (f member).id = member.id)
    (apt : AllyPartyTeams) : AllyPartyTeams where
  partyTeams := apt.partyTeams.map fun team => { team with members := team.members.map f }
  currentTeamMemberId := apt.currentTeamMemberId
  ids_eq := by
    rw [List.flatMap_map, ← List.map_flatMap, List.map_map, ← apt.ids_eq]
    exact List.map_congr_left fun member _ => hf member

end AllyPartyTeams

end FyS.Arena
