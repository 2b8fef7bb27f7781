import FyS.Arena.PriorityOrder.Model
import FyS.Arena.Pit.Characters

/-!
# Actions and the script engine

What the classes of a pit ask of ChaiScript, and the methods that go through
it: `ContenderScripting::executeAction`, `TeamMember::executeAction` and
`ChaiRegister::loadAndRegisterAction`.  The engine and the scripts are a
parameter.  A script reaches the characters through the selections that
`ChaiRegister` binds and can assign to nothing but their `Status`.
-/

namespace FyS.Arena

open FyS.Common HexagonSide

inductive Targeting where
  | SELF
  | ENNEMY
  | ALLY
  | ENNEMIES
  | ALLIES
  | ALLY_AND_ENNEMY
  | ALLY_OR_ENNEMY
  | SIDE
deriving DecidableEq, Repr

/-- What an evaluation can throw: `chaiscript::exception::eval_error`, which the
arena catches in places, or anything else. -/
inductive ScriptError where
  | evalError
  | other
deriving DecidableEq, Repr

structure Effect where
  contender : Nat → Status → Status
  member : Nat → Status → Status

/-- The script engine as the arena uses it.  `Function` stands for the function
objects it hands out; a call reads the characters, and changes them also when
it throws. -/
structure ChaiScript where
  State : Type
  Function : Type
  eval : String → State → Except ScriptError Unit × State
  evalFunction : String → State → Except ScriptError Function × State
  evalTargeting : String → State → Except ScriptError Targeting × State
  callWithId : Function → Nat → PitContenders → AllyPartyTeams → State →
    Except ScriptError Int × Effect × State
  callWithStatus : Function → Status → PitContenders → AllyPartyTeams → State →
    Except ScriptError Int × Effect × State

def constantChai (effect : Effect) : ChaiScript where
  State := Unit
  Function := Unit
  eval _ _ := (.ok (), ())
  evalFunction _ _ := (.ok (), ())
  evalTargeting _ _ := (.ok .ALLY_OR_ENNEMY, ())
  callWithId _ _ _ _ _ := (.ok 1, effect, ())
  callWithStatus _ _ _ _ _ := (.ok 1, effect, ())

inductive PitFault where
  | scheduler (fault : Fault)
  | script
  | outOfRange
  | nullMember
deriving DecidableEq, Repr

structure Board (C : ChaiScript) where
  contenders : PitContenders
  partyTeams : AllyPartyTeams
  chai : C.State

namespace Board

variable {C : ChaiScript}

def affected (effect : Effect) (chai : C.State) (board : Board C) : Board C where
  contenders := { board.contenders with
    contenders := board.contenders.contenders.mapIdx fun i contender =>
      { contender with status := effect.contender i contender.status } }
  partyTeams := board.partyTeams.mapMembers
    (fun member => { member with status := effect.member member.id member.status }) fun _ => rfl
  chai := chai

/-- The rest of a `try` block whose handler catches `eval_error`. -/
def caught (r : Except ScriptError Int × Effect × C.State) (board : Board C) :
    Except PitFault (Board C) :=
  match r with
  | (.error .other, _, _) => .error .script
  | (_, effect, chai) => .ok (board.affected effect chai)

end Board

variable {C : ChaiScript}

/-! ## Contenders -/

namespace ContenderScripting

def getChaiContenderId (cs : ContenderScripting) : String :=
  "contender_" ++ cs.contenderName ++ toString cs.contenderId

def executeAction (cs : ContenderScripting) (board : Board C) : Except PitFault (Board C) :=
  let action := "fun(contenderId)\x7b return " ++ cs.getChaiContenderId ++
    ".runScriptedAction(contenderId);\x7d"
  match C.evalFunction action board.chai with
  | (.error .evalError, chai) => .ok { board with chai }
  | (.error .other, _) => .error .script
  | (.ok funcAction, chai) =>
    board.caught (C.callWithId funcAction cs.contenderId board.contenders board.partyTeams chai)

end ContenderScripting

/-- `PitContenders::executeContenderAction`. -/
def Board.executeContenderAction (contender : PriorityElem) (board : Board C) :
    Except PitFault (Board C) :=
  if !contender.isContender || decide (contender.id ≥ board.contenders.getNumberContender) then
    .ok board
  else
    match board.contenders.getFightingContender contender.id with
    | none => .error .outOfRange
    | some fightingContender => fightingContender.contenderScripting.executeAction board

/-! ## Team members -/

def AllyPartyTeams.setPendingActions (id : Nat) (pendingActions : SizedQueue PendingAction 100)
    (apt : AllyPartyTeams) : AllyPartyTeams :=
  apt.mapMembers (fun member => if member.id = id then { member with pendingActions } else member)
    fun member => by split <;> rfl

namespace TeamMember

def allyAction (member : TeamMember) (action : String) : String :=
  "ally_actions[\"" ++ member.userName ++ "_" ++ member.name ++ "\"][\"" ++ action ++ "\"]"

/-- The `try` block of `executeAction`: the visit of the target. -/
def executeOn (member : TeamMember) (target : Option TargetType) (targetType : Targeting)
    (funcAction : C.Function) (board : Board C) : Except PitFault (Board C) :=
  let call (status : Status) :=
    board.caught (C.callWithStatus funcAction status board.contenders board.partyTeams board.chai)
  match target with
  | some (.allyTargetId v) =>
    if targetType = .ALLY ∨ targetType = .ALLY_OR_ENNEMY then
      match board.partyTeams.selectMemberById v with
      | none => .error .nullMember
      | some ally => call ally.status
    else .ok board
  | some (.contenderTargetId v) =>
    if targetType = .ENNEMY ∨ targetType = .ALLY_OR_ENNEMY then
      match board.contenders.getFightingContender v with
      | none => .error .outOfRange
      | some contender => call contender.status
    else .ok board
  | some _ => .ok board
  | none => call member.status

/-- `pa->idAction` as an index of `_actionsDoable`, for the oldest pending action. -/
def nextAction (member : TeamMember) : Option (PendingAction × String) :=
  match member.pendingActions.pop.1 with
  | none => none
  | some pa => member.actionsDoable[pa.idAction]?.map fun action => (pa, action.1)

def executeAction (member : TeamMember) (board : Board C) : Except PitFault (Board C) :=
  let board := { board with
    partyTeams := board.partyTeams.setPendingActions member.id member.pendingActions.pop.2 }
  match member.nextAction with
  | none => .ok board
  | some (pa, action) =>
    let allyAction := member.allyAction action
    -- both evaluations stand before the `try` block
    match C.evalFunction ("fun(allyStatus)\x7b return " ++ allyAction ++ ".execute(allyStatus);\x7d")
      board.chai with
    | (.error _, _) => .error .script
    | (.ok funcAction, chai) =>
      match C.evalTargeting (allyAction ++ ".requireTarget();") chai with
      | (.error _, _) => .error .script
      | (.ok targetType, chai) => member.executeOn pa.target targetType funcAction { board with chai }

end TeamMember

/-- `AllyPartyTeams::executeAllyAction`. -/
def Board.executeAllyAction (ally : PriorityElem) (board : Board C) : Except PitFault (Board C) :=
  if ally.isContender then .ok board
  else
    match board.partyTeams.selectMemberById ally.id with
    | none => .ok board
    | some member => member.executeAction board

/-! ## Registration of the actions of a team -/

namespace ChaiRegister

/-- `std::string::npos`. -/
def npos : Nat := 18446744073709551615

/-- `std::string::find_last_of` for a single character. -/
def findLastOf (c : Char) (key : List Char) : Nat :=
  match key.reverse.findIdx? (· == c) with
  | none => npos
  | some i => key.length - 1 - i

def getActionNameFromKey (key : String) : String :=
  let startSeparator := findLastOf ':' key.toList
  let pos := (startSeparator + 1) % 18446744073709551616
  let count := (findLastOf '.' key.toList + 36893488147419103232 - startSeparator - 1) %
    18446744073709551616
  String.ofList ((key.toList.drop pos).take count)

end ChaiRegister

structure Registration where
  userName : String
  name : String
  action : String
  level : Nat
deriving DecidableEq, Repr

namespace Registration

def keyPlayer (r : Registration) : String := r.userName ++ "_" ++ r.name

def actionName (r : Registration) : String := ChaiRegister.getActionNameFromKey r.action

def createVar (r : Registration) : String :=
  "ally_actions.insert( [\"" ++ r.keyPlayer ++ "\":[ \"" ++ r.actionName ++ "\":" ++
    r.actionName ++ "(" ++ toString r.level ++ ") ] ] );"

end Registration

def PartyTeam.registrations (pt : PartyTeam) : List Registration :=
  pt.members.flatMap fun tm => tm.actionsDoable.map fun action =>
    ⟨pt.userName, tm.name, action.1, action.2⟩

namespace ChaiRegister

def registerAction (cml : String → Option String) (r : Registration) (chai : C.State) :
    Except ScriptError Unit × C.State :=
  let chai := match cml r.action with
    | none => chai
    | some script => (C.eval script chai).2
  C.eval r.createVar chai

def registerAll (cml : String → Option String) :
    List Registration → C.State → Except ScriptError Unit × C.State
  | [], chai => (.ok (), chai)
  | r :: rest, chai =>
    match registerAction cml r chai with
    | (.error e, chai) => (.error e, chai)
    | (.ok (), chai) => registerAll cml rest chai

def loadAndRegisterAction (cml : String → Option String) (pt : PartyTeam) (chai : C.State) :
    Except PitFault (Bool × C.State) :=
  match registerAll cml pt.registrations chai with
  | (.error .evalError, chai) => .ok (false, chai)
  | (.error .other, _) => .error .script
  | (.ok (), chai) => .ok (true, chai)

end ChaiRegister

end FyS.Arena
