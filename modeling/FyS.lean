import FyS.Library.Fuel
import FyS.Library.CreditRound
import FyS.Library.Trace
import FyS.Library.Observation
import FyS.Library.BoundedQueue
import FyS.Library.KeyedTable
import FyS.Library.Tickets
import FyS.Library.OrderedMap
import FyS.Library.WeightedChoice
import FyS.Library.KeepFirst
import FyS.Library.Grid
import FyS.Library.RunningBest
import FyS.Library.LastOccurrence
import FyS.Library.FirstMatches
import FyS.Library.IndexedLoop
import FyS.Library.LastWrites
import FyS.Library.HexGrid
import FyS.Library.Pointwise
import FyS.Library.Interleaving
import FyS.Library.Json
import FyS.Library.Lines
import FyS.Library.ClampedShift
import FyS.Common.SizedQueue
import FyS.Common.QueueRefinement
import FyS.Common.BoundaryMap
import FyS.Common.WeightedBoundaries
import FyS.Common.BoundaryLaw
import FyS.Common.Key
import FyS.Common.Algorithm
import FyS.Common.MostSuitable
import FyS.Dispatcher.Relay
import FyS.Dispatcher.Topics
import FyS.WorldServer.CollisionMap
import FyS.WorldServer.Rasterised
import FyS.WorldServer.Collisions
import FyS.WorldServer.MapLookups
import FyS.WorldServer.PlayersData
import FyS.WorldServer.Movement
import FyS.WorldServer.Proximity
import FyS.Arena.CommonTypes
import FyS.Arena.HexagonSide
import FyS.Arena.FightingPitLayout
import FyS.Arena.BoardWalks
import FyS.Arena.PriorityOrder.Model
import FyS.Arena.PriorityOrder.Steps
import FyS.Arena.PriorityOrder.Runs
import FyS.Arena.PriorityOrder.InStep
import FyS.Arena.PriorityOrder.Membership
import FyS.Arena.PriorityOrder.Listed
import FyS.Arena.PriorityOrder.Credits
import FyS.Arena.PriorityOrder.TieRepair
import FyS.Arena.PriorityOrder.Turns
import FyS.Arena.PriorityOrder.Newcomer
import FyS.Arena.PriorityOrder.Construction
import FyS.Arena.PriorityOrder.Starvation
import FyS.Arena.PriorityOrder.Batches
import FyS.Arena.PriorityOrder.Bounds
import FyS.Arena.PriorityOrder.WaitingTime
import FyS.Arena.PriorityOrder.Agreement
import FyS.Arena.PriorityOrder.Termination
import FyS.Arena.PriorityOrder.Divergence
import FyS.Arena.PriorityOrder.Renaming
import FyS.Arena.PriorityOrder.Collision
import FyS.Arena.Pit.Characters
import FyS.Arena.Pit.Scripting
import FyS.Arena.Pit.FightingPit
import FyS.Arena.Pit.Initial
import FyS.Arena.Pit.Joining
import FyS.Arena.Pit.Casting
import FyS.Arena.Pit.Runs
import FyS.Arena.Pit.SideBattles
import FyS.Arena.Pit.TurnTiming
import FyS.Arena.Pit.RepeatedTurns
import FyS.Arena.Pit.TheDead
import FyS.Arena.Pit.Targets
import FyS.Arena.Pit.BadTargets
import FyS.Arena.Pit.TeamQueries
import FyS.Arena.Pit.Selections
import FyS.Arena.Pit.RandomTargets
import FyS.Arena.Pit.SideQueries
import FyS.Arena.EncounterContext
import FyS.Arena.Configuration
import FyS.Arena.Network.WorkerService
import FyS.Arena.Pit.Announcer
import FyS.Arena.Pit.Generation
import FyS.Arena.Pit.Odds
import FyS.Arena.Pit.PendingActions
import FyS.Arena.Pit.PartyTeams
import FyS.Arena.Pit.Building
import FyS.Arena.Pit.Encounters
import FyS.Arena.Network.Broadcast
import FyS.Arena.Network.ArenaServerService
import FyS.Arena.Network.Admission
import FyS.Arena.Network.Ledger
import FyS.Arena.Network.Protocol
import FyS.Arena.Network.JoinedPlayers
import FyS.Arena.Pit.Caps
import FyS.Arena.Pit.Classes
import FyS.Arena.Pit.Recording
import FyS.Arena.Network.Creation
import FyS.Arena.Network.Zones
import FyS.Arena.Pit.WellFormed
import FyS.Arena.Pit.Touches
import FyS.Arena.Pit.Schedule
import FyS.Arena.Pit.TurnForAll
import FyS.Arena.Pit.Waiting
import FyS.Arena.Network.OnHold
import FyS.Arena.Pit.ActionRegistry
import FyS.Arena.Pit.MemberCells
import FyS.Arena.Pit.ExecutedAction
import FyS.Arena.Pit.KeyNames
import FyS.Arena.Scripts.Damage
import FyS.Arena.Scripts.Heal
import FyS.Arena.Scripts.Contenders
import FyS.Arena.Scripts.Fights
import FyS.Arena.Scripts.Attrition
import FyS.Library.Paths
import FyS.Cache.Filesystem
import FyS.Cache.Cml
import FyS.Cache.Coherence
import FyS.Cache.Confinement
import FyS.Cache.CreateFile
import FyS.WorldServer.ServerLoop
import FyS.WorldServer.OnTheMap
import FyS.Arena.Network.Endings
