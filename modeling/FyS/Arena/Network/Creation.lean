import FyS.Arena.Pit.Classes
import FyS.Arena.Pit.Reached

/-!
# Creation of a pit

`createNewFightingPit` is `noexcept` and answers with `CREATION_ERROR` where a
pit cannot be built.  Not every failure on the way there is turned into that
answer.
-/

namespace FyS.Arena

open FyS.Common FightingPitAnnouncer EncounterContext

/-! ## The server -/

namespace ArenaServerService

variable {E : PitEngine} {P : Platform} {S : SideSort} {ctx : EncounterContext}

section InZone

variable {awaited : AwaitingPlayerArena} {gen : AwaitingArena} {range : UInt32 × UInt32}
  {contenders : List EncounterDesc} {boundaryMap : BoundaryMap EncounterDesc}
  {prepared : ArenaInstance E.toChaiScript}

end InZone

def slimeScript : String :=
  "class Slime \x7b def Slime(id, level) \x7b\x7d def setupContender() \x7b\x7d \x7d"

def slimeScripts : Surroundings :=
  { quiet with cml := fun key =>
      if key = "arena:contenders:Slime.chai" then some slimeScript else none }

end ArenaServerService

end FyS.Arena
