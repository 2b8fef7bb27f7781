import FyS.Arena.EncounterContext
import FyS.Arena.Network.WorkerService
import FyS.Common.BoundaryMap

/-!
# `FightingPitAnnouncer`

`fightingPit/FightingPitAnnouncer.cpp`: a pit is built for a creator, with his
team and with contenders that are drawn at random.  The draws and the engine
are parameters.
-/

namespace FyS.Arena

open FyS.Common HexagonSide

/-- The draws in the order in which the generation of a pit makes them; what
`std::uniform_int_distribution` promises of each. -/
structure RandomGenerator where
  generateInRange : Nat → Int → Int → Int
  mem_range : ∀ i rA rB, rA ≤ rB → rA ≤ generateInRange i rA rB ∧ generateInRange i rA rB ≤ rB

/-- The engine of a pit that is being built: its first state, and evaluations
that reach the characters. -/
structure PitEngine extends ChaiScript where
  createChaiInstance : State
  evalOnPit : String → PitContenders → AllyPartyTeams → State →
    Except ScriptError Unit × Effect × State

/-- Ways the generation of the contenders can fail: with a failing `at`, on a
distribution over no number, as the boundary map does, at the end of the map,
or with an exception of the engine. -/
inductive GenerationFault where
  | outOfRange
  | emptyRange
  | boundary (fault : BoundaryFault)
  | endIterator
  | script
deriving DecidableEq, Repr

/-! ## The boundary map of a zone -/

/-- `val += chance`: an `int` and a `uint` are added as unsigned numbers. -/
def addChance (val : Int) (chance : UInt32) : Int :=
  FightingPit.intOfUint (((val % 4294967296).toNat + chance.toNat) % 4294967296)

/-- The loop of `makeContenderRngBoundaryMap`. -/
def insertChances (difficulty : Level) :
    List EncounterDesc → Int → BoundaryMap EncounterDesc →
      Except GenerationFault (BoundaryMap EncounterDesc)
  | [], _, bm => .ok bm
  | zc :: rest, val, bm =>
    match zc.chance[difficulty.index]? with
    | none => .error .outOfRange
    | some chance =>
      match bm.insert (addChance val chance) zc with
      | .error fault => .error (.boundary fault)
      | .ok bm => insertChances difficulty rest (addChance val chance) bm

def makeContenderRngBoundaryMap (zoneContenders : List EncounterDesc) (difficulty : Level) :
    Except GenerationFault (BoundaryMap EncounterDesc) :=
  insertChances difficulty zoneContenders 0 .new

/-! ## Contenders -/

/-- `getNameFromKey`: what `getActionNameFromKey` computes. -/
def getNameFromKey (key : String) : String := ChaiRegister.getActionNameFromKey key

variable (E : PitEngine)

namespace Board

def evalOnPit (code : String) (board : Board E.toChaiScript) :
    Except ScriptError Unit × Board E.toChaiScript :=
  let (result, effect, chai) := E.evalOnPit code board.contenders board.partyTeams board.chai
  (result, board.affected effect chai)

end Board

namespace ContenderScripting

def createVar (cs : ContenderScripting) : String :=
  "global " ++ cs.getChaiContenderId ++ "=" ++ cs.contenderName ++ "(" ++
    toString cs.contenderId ++ "," ++ toString cs.level ++ ");"

def loadContenderScript (script : String) (cs : ContenderScripting)
    (board : Board E.toChaiScript) : Except GenerationFault (Board E.toChaiScript) :=
  -- only the class stands in a `try` block, the instance does not
  match if script.isEmpty then (.ok (), board) else board.evalOnPit E script with
  | (.error .other, _) => .error .script
  | (_, board) =>
    match board.evalOnPit E cs.createVar with
    | (.error _, _) => .error .script
    | (.ok (), board) => .ok board

def setupContender (cs : ContenderScripting) (board : Board E.toChaiScript) :
    Except GenerationFault (Bool × Board E.toChaiScript) :=
  match board.evalOnPit E (cs.getChaiContenderId ++ ".setupContender();") with
  | (.error .evalError, board) => .ok (false, board)
  | (.error .other, _) => .error .script
  | (.ok (), board) => .ok (true, board)

end ContenderScripting

/-- `PitContenders::addContender`. -/
def Board.addContender (contender : FightingContender) (board : Board E.toChaiScript) :
    Except GenerationFault (Bool × Board E.toChaiScript) :=
  contender.contenderScripting.setupContender E
    { board with contenders :=
        ⟨board.contenders.contenders ++ [contender], board.contenders.changeSideFlags ++ [false]⟩ }

/-- `FightingPitLayout::setContenderInitiatePosition` at `B_S`, for the contender
at a position. -/
def Board.setContenderInitiatePosition {C : ChaiScript} (pos : Nat) (board : Board C) : Board C :=
  { board with contenders := { board.contenders with
      contenders := board.contenders.contenders.modify pos fun contender =>
        if contender.side.side = .NONE then { contender with side := ⟨.B, .B_S⟩ } else contender } }

structure FightingPitAnnouncer where
  difficulty : Level
  loadedScript : List String
  creatorUserName : String
  creatorUserToken : String
  creatorPartyTeam : Option PartyTeam

namespace FightingPitAnnouncer

/-- `getScriptContentString`: the script of a name is handed out once.  A key that
is not in the cache has an empty script. -/
def getScriptContentString (cml : String → Option String) (name : String) (desc : EncounterDesc)
    (loadedScript : List String) : String × List String :=
  if loadedScript.any (· == name) then ("", loadedScript)
  else ((cml desc.key).getD "", loadedScript ++ [name])

variable (cml : String → Option String) (rng : RandomGenerator) (initialSpeed : Nat → Nat)

/-- The body of the loop of `generateContenders` after its draws.  The speed of a
contender is not initialised: `initialSpeed` is what stands there. -/
def addDrawn (desc : EncounterDesc) (contenderScript : ContenderScripting)
    (fp : Board E.toChaiScript × List String) :
    Except GenerationFault (Bool × Board E.toChaiScript × List String) :=
  let (script, loadedScript) :=
    getScriptContentString cml contenderScript.contenderName desc fp.2
  match contenderScript.loadContenderScript E script fp.1 with
  | .error fault => .error fault
  | .ok board =>
    let pos := board.contenders.getNumberContender
    match board.addContender E ⟨contenderScript, ⟨.A, .NONE⟩,
      ⟨⟨0, 0⟩, ⟨0, 0⟩, initialSpeed contenderScript.contenderId, []⟩⟩ with
    | .error fault => .error fault
    | .ok (false, board) => .ok (false, board, loadedScript)
    | .ok (true, board) => .ok (true, board.setContenderInitiatePosition pos, loadedScript)

/-- The body of the loop of `generateContenders`. -/
def generateContender (boundaryMap : BoundaryMap EncounterDesc) (i : Nat)
    (fp : Board E.toChaiScript × List String) :
    Except GenerationFault (Bool × Board E.toChaiScript × List String) :=
  let rngMonster := rng.generateInRange (2 * i + 1) 0 100
  match boundaryMap.get rngMonster with
  | none => .error .endIterator
  | some (_, desc) =>
    let levelMonster := rng.generateInRange (2 * i + 2) 1 10
    addDrawn E cml initialSpeed desc ⟨getNameFromKey desc.key, levelMonster.toNat, i⟩ fp

def generateEach (boundaryMap : BoundaryMap EncounterDesc) :
    List Nat → Board E.toChaiScript × List String →
      Except GenerationFault (Bool × Board E.toChaiScript × List String)
  | [], fp => .ok (true, fp)
  | i :: rest, fp =>
    match generateContender E cml rng initialSpeed boundaryMap i fp with
    | .error fault => .error fault
    | .ok (false, fp) => .ok (false, fp)
    | .ok (true, fp) => generateEach boundaryMap rest fp

/-- `_rangeEncounterPerZone.at(wsId).at(_difficulty)`. -/
def range (ctx : EncounterContext) (wsId : String) (difficulty : Level) :
    Option (UInt32 × UInt32) :=
  match ctx.rangeEncounterPerZone.lookup wsId with
  | none => none
  | some ranges => ranges[difficulty.index]?

def generateContenders (fpa : FightingPitAnnouncer) (ctx : EncounterContext) (wsId : String)
    (board : Board E.toChaiScript) :
    Except GenerationFault (Bool × Board E.toChaiScript × List String) :=
  match range ctx wsId fpa.difficulty with
  | none => .error .outOfRange
  | some range =>
    if range.1 ≤ range.2 then
      let numberContenders := rng.generateInRange 0 range.1.toNat range.2.toNat
      match ctx.contendersPerZone.lookup wsId with
      | none => .error .outOfRange
      | some zoneContenders =>
        match makeContenderRngBoundaryMap zoneContenders fpa.difficulty with
        | .error fault => .error fault
        | .ok boundaryMap =>
          generateEach E cml rng initialSpeed boundaryMap (List.range numberContenders.toNat)
            (board, fpa.loadedScript)
    else .error .emptyRange

end FightingPitAnnouncer

end FyS.Arena
