import FyS.Arena.Network.Broadcast

/-!
# `ArenaServerService`

`ArenaServerService.cpp`: the loop that awaits players whom a dispatcher
announces, admits them to fighting pits, and passes on what they send.  A
message is its table with the fields that the handlers read; a string that is
absent is a null pointer.
-/

namespace FyS.Arena

open FyS.Library.Trace

/-! ## The rest of `WorkerService` -/

namespace WorkerService

variable {C : ChaiScript}

def doesFightingPitExist (fightingPitId : UInt32) (ws : WorkerService C) : Bool :=
  decide (fightingPitId ∈ ws.arenaInstances)

def setFightingPit (fightingPitId : UInt32) (fp : ArenaInstance C) (ws : WorkerService C)
    (h : fightingPitId ∈ ws.arenaInstances) : WorkerService C :=
  { ws with
    arenaInstances := ws.arenaInstances.insert fightingPitId fp
    mem_iff := by
      intro id
      rw [AList.mem_insert, ← ws.mem_iff, or_iff_right_iff_imp]
      rintro rfl
      exact h }

def playerJoinFightingPit (S : SideSort) (cml : String → Option String) (fightingPitId : UInt32)
    (pt : PartyTeam) (ws : WorkerService C) : Except PitFault (WorkerService C) :=
  match h : ws.arenaInstances.lookup fightingPitId with
  | none => .ok ws
  | some fp =>
    match fp.addPartyTeamAndRegisterActions S cml pt with
    | .error fault => .error fault
    | .ok fp => .ok (ws.setFightingPit fightingPitId fp (AList.lookup_isSome.mp (by rw [h]; rfl)))

def getAuthenticatedPlayerFightingPit (name token : String) (fightingPitId : UInt32)
    (ws : WorkerService C) : Option (ArenaInstance C) :=
  match ws.arenaInstances.lookup fightingPitId with
  | none => none
  | some fp => if fp.isPlayerParticipant name token then some fp else none

theorem authenticated_iff {name token : String} {fightingPitId : UInt32} {ws : WorkerService C}
    {fp : ArenaInstance C} :
    ws.getAuthenticatedPlayerFightingPit name token fightingPitId = some fp ↔
      ws.arenaInstances.lookup fightingPitId = some fp ∧
        ⟨name, token⟩ ∈ fp.authenticatedPlayers := by
  rw [getAuthenticatedPlayerFightingPit]
  cases hlookup : ws.arenaInstances.lookup fightingPitId with
  | none => simp
  | some pit =>
      rw [← ArenaInstance.isPlayerParticipant_iff]
      by_cases hparticipant : pit.isPlayerParticipant name token = true
      · simp only [if_pos hparticipant, Option.some.injEq]
        constructor
        · rintro rfl
          exact ⟨rfl, hparticipant⟩
        · rintro ⟨heq, -⟩
          exact heq
      · simp only [if_neg hparticipant, Option.some.injEq]
        constructor
        · intro h
          cases h
        · rintro ⟨rfl, h⟩
          exact absurd h hparticipant

theorem mem_of_authenticated {name token : String} {fightingPitId : UInt32} {ws : WorkerService C}
    {fp : ArenaInstance C}
    (h : ws.getAuthenticatedPlayerFightingPit name token fightingPitId = some fp) :
    fightingPitId ∈ ws.arenaInstances := by
  rw [← AList.lookup_isSome, (authenticated_iff.mp h).1]
  rfl

def broadCastNewArrivingTeam (fightingPitId : UInt32) (userName : String) (ws : WorkerService C) :
    Traced (List String) ServiceFault (List String) :=
  match ws.arenaInstances.lookup fightingPitId with
  | none => ⟨[], .error .outOfRange⟩
  | some fp =>
    match fp.partyTeams.getPartyTeamOfPlayer userName with
    | none => ⟨[], .error .noTeam⟩
    | some _ => ws.broadcastMsg fightingPitId []

end WorkerService

/-! ## Awaited players -/

structure AwaitingArena where
  serverCode : String
  isAmbush : Bool
  encounterId : UInt32
  levelFightingPit : Level
deriving DecidableEq, Repr

structure AwaitingPlayerArena where
  namePlayer : String
  token : String
  fightingPitId : UInt32
  gen : Option AwaitingArena
deriving DecidableEq, Repr

def AwaitingPlayerArena.hasToBeGenerated (apa : AwaitingPlayerArena) : Bool :=
  apa.fightingPitId == 0 && apa.gen.isSome

/-- The table that a world server sends. -/
structure FightingPitEncounter where
  userName : Option String
  tokenAuth : Option String
  fightingPitId : UInt32
  worldServerId : Option String
  levelEncounter : Int
  idEncounter : UInt32
  isAmbush : Bool
deriving DecidableEq, Repr

/-- The table that a player sends, to be admitted and in front of every message. -/
structure ArenaServerValidateAuth where
  userName : Option String
  tokenAuth : Option String
  fightingPitId : UInt32
deriving DecidableEq, Repr

def translateLevelFromFlatbuffer (level : Int) : Level :=
  if level = 0 then .EASY
  else if level = 1 then .MEDIUM
  else if level = 2 then .HARD
  else .EASY

/-- `none` where a null pointer is read. -/
def createAwaitingPlayer (binary : FightingPitEncounter) : Option AwaitingPlayerArena := do
  let awaitingArena ←
    if binary.fightingPitId = 0 then do
      let worldServerId ← binary.worldServerId
      some (some ⟨worldServerId, binary.isAmbush, binary.idEncounter,
        translateLevelFromFlatbuffer binary.levelEncounter⟩)
    else some none
  let userName ← binary.userName
  let tokenAuth ← binary.tokenAuth
  some ⟨userName, tokenAuth, binary.fightingPitId, awaitingArena⟩

/-- `DBConnector::retrievePartyTeam`. -/
def retrievePartyTeam (user : String) : PartyTeam :=
  let member (name : String) (life magicPoint initialSpeed : Nat) : TeamMember :=
    ⟨user, name, ⟨.B, .B_S⟩, 0, ⟨⟨life, life⟩, ⟨magicPoint, magicPoint⟩, initialSpeed, []⟩, [], .new⟩
  ⟨user, [member "Elvo" 100 20 3, member "Mirael" 200 0 5, member "Fyston" 550 10 10,
    member "Simon" 140 10 20]⟩

/-! ## The server -/

structure ArenaServerService (E : PitEngine) where
  workerService : WorkerService E.toChaiScript
  /-- tokens on awaited players -/
  awaitingArena : AList fun _ : String => AwaitingPlayerArena

structure Credentials where
  userName : String
  tokenAuth : String
  fightingPitId : UInt32
deriving DecidableEq, Repr

/-- What the server does, for the statements about runs: it answers a world
server, admits a player to a pit that was created for him or that he joins,
refuses to create one, or writes to the players. -/
inductive Event where
  | replied (identityWs : String) (apa : AwaitingPlayerArena)
  | created (player : Credentials) (fightingPitId : UInt32)
  | refused (player : Credentials)
  | joined (player : Credentials)
  | sent (msg : List String)
deriving DecidableEq, Repr

/-- The messages that the loop reads.  With an authentication comes what the
server finds around it when it builds a pit. -/
inductive Input where
  | encounter (identityWs : String) (binary : FightingPitEncounter)
  | auth (env : Surroundings) (identityPlayer : String) (binary : ArenaServerValidateAuth)
  | inGame (authFrame : ArenaServerValidateAuth)

namespace ArenaServerService

variable {E : PitEngine}

def start : ArenaServerService E := ⟨.new, ∅⟩

/-- The handler of messages from the dispatcher. -/
def registerPlayer (identityWs : String) (binary : FightingPitEncounter)
    (s : ArenaServerService E) : Traced Event ServiceFault (ArenaServerService E) :=
  match createAwaitingPlayer binary with
  | none => ⟨[], .error .nullField⟩
  | some apa =>
    if !apa.hasToBeGenerated && !s.workerService.doesFightingPitExist apa.fightingPitId then
      ⟨[], .ok s⟩
    else if apa.token ∈ s.awaitingArena then ⟨[], .ok s⟩
    else
      ⟨[.replied identityWs apa],
        .ok { s with awaitingArena := s.awaitingArena.insert apa.token apa }⟩

/-- The iterator is `cend()` where it is `none`. -/
def isPlayerAwaited (name token : String) (idFightingPit : UInt32) (s : ArenaServerService E) :
    Bool × Option AwaitingPlayerArena :=
  match s.awaitingArena.lookup token with
  | none => (false, none)
  | some apa =>
    if apa.namePlayer == name && apa.fightingPitId == idFightingPit then (true, some apa)
    else (false, none)

variable (P : Platform) (S : SideSort) (ctx : EncounterContext)

def createNewFightingPit (env : Surroundings) (awaited : AwaitingPlayerArena)
    (ws : WorkerService E.toChaiScript) :
    Except ServiceFault (UInt32 × WorkerService E.toChaiScript) :=
  match awaited.gen with
  | none => .error .nullField
  | some gen =>
    let fpa : FightingPitAnnouncer := ⟨gen.levelFightingPit, [], awaited.namePlayer, awaited.token,
      some (retrievePartyTeam awaited.namePlayer)⟩
    match fpa.buildFightingPit P S E env ctx gen.serverCode with
    | .error fault => .error fault
    | .ok fp => .ok (ws.addFightingPit fp)

def logIn (fightingPitId : UInt32) (userName identityPlayer : String) (s : ArenaServerService E) :
    Traced Event ServiceFault (ArenaServerService E) :=
  let workerService := s.workerService.addPlayerIdentifier fightingPitId userName identityPlayer
  let sent := workerService.broadCastNewArrivingTeam fightingPitId userName
  ⟨sent.log.map .sent, sent.result.map fun _ => { s with workerService }⟩

/-- The authentication handler where a pit has to be generated. -/
def logInByCreating (env : Surroundings) (identityPlayer : String) (player : Credentials)
    (apa : AwaitingPlayerArena) (s : ArenaServerService E) :
    Traced Event ServiceFault (ArenaServerService E) :=
  match createNewFightingPit P S ctx env apa s.workerService with
  | .error fault => ⟨[], .error fault⟩
  | .ok (fightingPitId, workerService) =>
    let s : ArenaServerService E := ⟨workerService, s.awaitingArena.erase player.tokenAuth⟩
    if fightingPitId = ArenaInstance.CREATION_ERROR then ⟨[.refused player], .ok s⟩
    else
      Traced.andThen ⟨[.created player fightingPitId], .ok s⟩
        (logIn fightingPitId player.userName identityPlayer)

def logInByJoining (env : Surroundings) (identityPlayer : String) (player : Credentials)
    (apa : AwaitingPlayerArena) (s : ArenaServerService E) :
    Traced Event ServiceFault (ArenaServerService E) :=
  if !s.workerService.doesFightingPitExist player.fightingPitId then ⟨[], .ok s⟩
  else
    match s.workerService.playerJoinFightingPit S env.cml apa.fightingPitId
      (retrievePartyTeam player.userName) with
    | .error fault => ⟨[], .error (.pit fault)⟩
    | .ok workerService =>
      let s : ArenaServerService E := ⟨workerService, s.awaitingArena.erase player.tokenAuth⟩
      Traced.andThen ⟨[.joined player], .ok s⟩
        (logIn apa.fightingPitId player.userName identityPlayer)

/-- The authentication handler. -/
def authenticate (env : Surroundings) (identityPlayer : String) (binary : ArenaServerValidateAuth)
    (s : ArenaServerService E) : Traced Event ServiceFault (ArenaServerService E) :=
  match binary.tokenAuth, binary.userName with
  | some tokenAuth, some userName =>
    let player : Credentials := ⟨userName, tokenAuth, binary.fightingPitId⟩
    let (isAwaited, playerAwaitedIt) := s.isPlayerAwaited userName tokenAuth binary.fightingPitId
    -- `fightingPitId` is read through the iterator before `isAwaited` is looked at
    match playerAwaitedIt with
    | none => ⟨[], .error .endIterator⟩
    | some apa =>
      if !isAwaited then ⟨[], .ok s⟩
      else if apa.hasToBeGenerated then s.logInByCreating P S ctx env identityPlayer player apa
      else s.logInByJoining S env identityPlayer player apa
  | _, _ => ⟨[], .error .nullField⟩

/-- The handler of all other messages of the players. -/
def inGame (authFrame : ArenaServerValidateAuth) (s : ArenaServerService E) :
    Traced Event ServiceFault (ArenaServerService E) :=
  match authFrame.userName, authFrame.tokenAuth with
  | some userName, some tokenAuth =>
    match h : s.workerService.getAuthenticatedPlayerFightingPit userName tokenAuth
      authFrame.fightingPitId with
    | none => ⟨[], .ok s⟩
    | some fp =>
      let workerService := s.workerService.setFightingPit authFrame.fightingPitId
        (fp.forwardMessageToTeamMember userName 0) (WorkerService.mem_of_authenticated h)
      ⟨[], .ok { s with workerService }⟩
  | _, _ => ⟨[], .error .nullField⟩

def handle (input : Input) (s : ArenaServerService E) :
    Traced Event ServiceFault (ArenaServerService E) :=
  match input with
  | .encounter identityWs binary => s.registerPlayer identityWs binary
  | .auth env identityPlayer binary => s.authenticate P S ctx env identityPlayer binary
  | .inGame authFrame => s.inGame authFrame

def runServerLoop (inputs : List Input) : Traced Event ServiceFault (ArenaServerService E) :=
  runs (handle P S ctx) inputs start

end ArenaServerService

end FyS.Arena
