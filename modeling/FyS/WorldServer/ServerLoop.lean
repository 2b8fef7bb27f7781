import FyS.Library.Trace
import FyS.WorldServer.CollisionMap
import FyS.WorldServer.Movement
import Mathlib.Data.List.AList

/-!
# The loop of a world server

`WorldServerService.cpp` and the messages of `engine/WorldServerEngine.cpp`: a message of a
player changes what his token stands for, and a round follows each poll.  The map is asked for
the next place of every player that moves; where it fails the server does.
-/

namespace FyS.WorldServer

open FyS.Library FyS.Library.Trace

variable {K : Type} {n : Nat}

/-! ## Messages -/

/-- The union of a `WSAction`, with the field that is read.  The table of a move can be missing. -/
inductive Action (K : Type) where
  | NONE
  | Move (table : Option K)
  | Interruption
  | PnjInteract
deriving DecidableEq, Repr

structure Frames (K : Type) where
  idt : String
  token : String
  content : Action K
  internalMagic : Option String
deriving DecidableEq, Repr

inductive Polled (K : Type) where
  | nothing
  | illFormed (parts : Nat)
  | message (frames : Frames K)
deriving DecidableEq, Repr

structure Players (K : Type) (n : Nat) where
  data : PlayersData K n
  tokenToIndex : AList fun _ : String => Fin n

/-- What the constructor makes of `maxConnection`: zeros, which are the status of a fight. -/
def Players.new [NatCast K] : Players K n where
  data := ⟨fun _ => ⟨(0 : Nat), (0 : Nat), (0 : Nat)⟩, fun _ => .FIGHTING, fun _ => ""⟩
  tokenToIndex := ∅

namespace Players

/-- `none` is the greatest `uint`. -/
def getIndexAndUpdatePlayerConnection (token idt : String) (players : Players K n) :
    Option (Fin n) × Players K n :=
  match players.tokenToIndex.lookup token with
  | some index => (some index, { players with data := { players.data with
      identities := Function.update players.data.identities index idt } })
  | none => (none, players)

def processPlayerInputMessage (idt token : String) (actionMsg : Action K)
    (players : Players K n) : Except Fault (Players K n) :=
  match players.getIndexAndUpdatePlayerConnection token idt with
  | (none, players) => .ok players
  | (some index, players) =>
    match actionMsg with
    | .Move none => .error .nullTable
    | .Move (some direction) =>
      .ok { players with data := players.data.setPlayerMoveAction index direction }
    | .Interruption => .ok { players with data := players.data.stopPlayerMove index }
    | _ => .ok players

/-- What comes from an internal server is not looked at yet. -/
def processMessage (frames : Frames K) (players : Players K n) : Except Fault (Players K n) :=
  if frames.internalMagic.isSome then .ok players
  else players.processPlayerInputMessage frames.idt frames.token frames.content

end Players

/-! ## One player -/

structure Row (K : Type) where
  position : PlayerInfo K
  status : PlayerStatus
  identity : String
deriving DecidableEq, Repr

def PlayersData.row (data : PlayersData K n) (i : Fin n) : Row K :=
  ⟨data.positions i, data.status i, data.identities i⟩

namespace Row

def told (message : String × Action K) (row : Row K) : Row K :=
  match message.2 with
  | .Move (some direction) => ⟨{ row.position with angle := direction }, .MOVING, message.1⟩
  | .Interruption => ⟨row.position, .STANDING, message.1⟩
  | _ => { row with identity := message.1 }

end Row

def Polled.saidTo (tokenToIndex : AList fun _ : String => Fin n) (i : Fin n) :
    Polled K → Option (String × Action K)
  | .message frames =>
    if frames.internalMagic.isNone ∧ tokenToIndex.lookup frames.token = some i then
      some (frames.idt, frames.content)
    else none
  | _ => none

/-- A move without its table, under a token that somebody has. -/
def Polled.LacksTable (tokenToIndex : AList fun _ : String => Fin n) (polled : Polled K) : Prop :=
  ∃ i idt, polled.saidTo tokenToIndex i = some (idt, .Move none)

namespace Players

def heard (polled : Polled K) (players : Players K n) (i : Fin n) : Row K :=
  (polled.saidTo players.tokenToIndex i).elim (players.data.row i) (players.data.row i).told

theorem processPlayerInputMessage_known {idt token : String} {content : Action K}
    {players : Players K n} {index : Fin n}
    (hlookup : players.tokenToIndex.lookup token = some index) (htable : content ≠ .Move none) :
    ∃ players', players.processPlayerInputMessage idt token content = .ok players' ∧
      players'.tokenToIndex = players.tokenToIndex ∧
        players'.data.row index = (players.data.row index).told (idt, content) ∧
          ∀ i, i ≠ index → players'.data.row i = players.data.row i := by
  have hupdate {α : Type} (f : Fin n → α) (a : α) (i : Fin n) (hi : i ≠ index) :
      Function.update f index a i = f i := Function.update_of_ne hi a f
  unfold processPlayerInputMessage getIndexAndUpdatePlayerConnection
  rw [hlookup]
  cases content with
  | Move table =>
      cases table with
      | none => exact absurd rfl htable
      | some direction =>
          refine ⟨_, rfl, rfl, ?_, fun i hi => ?_⟩
          · simp [PlayersData.row, PlayersData.setPlayerMoveAction, Row.told]
          · simp [PlayersData.row, PlayersData.setPlayerMoveAction, hupdate _ _ i hi]
  | Interruption =>
      refine ⟨_, rfl, rfl, ?_, fun i hi => ?_⟩
      · simp [PlayersData.row, PlayersData.stopPlayerMove, Row.told]
      · simp [PlayersData.row, PlayersData.stopPlayerMove, hupdate _ _ i hi]
  | NONE =>
      refine ⟨_, rfl, rfl, ?_, fun i hi => ?_⟩
      · simp [PlayersData.row, Row.told]
      · simp [PlayersData.row, hupdate _ _ i hi]
  | PnjInteract =>
      refine ⟨_, rfl, rfl, ?_, fun i hi => ?_⟩
      · simp [PlayersData.row, Row.told]
      · simp [PlayersData.row, hupdate _ _ i hi]

/-- A message reaches the player that its token stands for, unless it lacks the table. -/
theorem processMessage_spec (frames : Frames K) (players : Players K n) :
    ((Polled.message frames).LacksTable players.tokenToIndex ∧
        players.processMessage frames = .error .nullTable) ∨
      (¬ (Polled.message frames).LacksTable players.tokenToIndex ∧
        ∃ players', players.processMessage frames = .ok players' ∧
          players'.tokenToIndex = players.tokenToIndex ∧
            ∀ i, players'.data.row i = players.heard (.message frames) i) := by
  obtain ⟨idt, token, content, internalMagic⟩ := frames
  cases internalMagic with
  | some magic =>
      right
      refine ⟨?_, players, rfl, rfl, fun i => rfl⟩
      rintro ⟨_, _, hsaid⟩
      cases hsaid
  | none =>
      have hprocess : players.processMessage ⟨idt, token, content, none⟩ =
          players.processPlayerInputMessage idt token content := rfl
      have hsaid (i : Fin n) : (Polled.message ⟨idt, token, content, none⟩).saidTo
          players.tokenToIndex i =
            if players.tokenToIndex.lookup token = some i then some (idt, content) else none := by
        simp [Polled.saidTo]
      unfold Polled.LacksTable heard
      simp only [hprocess, hsaid]
      cases hlookup : players.tokenToIndex.lookup token with
      | none =>
          right
          simp [processPlayerInputMessage, getIndexAndUpdatePlayerConnection, hlookup]
      | some index =>
          by_cases htable : content = .Move none
          · left
            refine ⟨⟨index, idt, by simp [htable]⟩, ?_⟩
            simp [processPlayerInputMessage, getIndexAndUpdatePlayerConnection, hlookup, htable]
          · right
            obtain ⟨players', hknown, htokens, hown, hothers⟩ :=
              processPlayerInputMessage_known hlookup htable
            refine ⟨by simp [htable], players', hknown, htokens, fun i => ?_⟩
            by_cases hi : index = i
            · rw [← hi, if_pos rfl]
              exact hown
            · rw [if_neg fun h => hi (Option.some.inj h)]
              exact hothers i (Ne.symm hi)

end Players

/-! ## Rounds -/

section Loop

variable [Add K] [Sub K] [Mul K] [NatCast K] [LT K] [DecidableLT K]

variable (trig : Trigonometry K) (canMoveTo : K → K → Nat → Except Fault Bool)

def allowed (x y : K) (level : Nat) : Bool := decide (canMoveTo x y level = .ok true)

namespace WorldServerEngine

def lookup (pi : PlayerInfo K) : Except Fault Bool :=
  canMoveTo (futurePos trig pi).x (futurePos trig pi).y 0

def movePlayerActionOn (indexPlayer : Fin n) (data : PlayersData K n) :
    Traced (List (Fin n)) Fault (PlayersData K n) :=
  match lookup trig canMoveTo (data.positions indexPlayer) with
  | .error fault => ⟨[], .error fault⟩
  | .ok answer =>
    let moved := movePlayerAction trig (fun _ _ _ => answer) indexPlayer data
    ⟨moved.2, .ok moved.1⟩

def turnOn (indexPlayer : Fin n) (data : PlayersData K n) :
    Traced (List (Fin n)) Fault (PlayersData K n) :=
  if data.status indexPlayer = .MOVING then movePlayerActionOn trig canMoveTo indexPlayer data
  else ⟨[], .ok data⟩

def executePendingActionsOn (data : PlayersData K n) :
    Traced (List (Fin n)) Fault (PlayersData K n) :=
  runs (turnOn trig canMoveTo) (List.finRange n) data

variable {trig canMoveTo}

theorem turnOn_eq {i : Fin n} {data : PlayersData K n}
    (h : data.status i = .MOVING → (lookup trig canMoveTo (data.positions i)).isOk = true) :
    turnOn trig canMoveTo i data = ⟨(turn trig (allowed canMoveTo) i (data, [])).2,
      .ok (turn trig (allowed canMoveTo) i (data, [])).1⟩ := by
  unfold turnOn turn
  by_cases hmoving : data.status i = .MOVING
  · rw [if_pos hmoving, if_pos hmoving]
    unfold movePlayerActionOn
    cases hlookup : lookup trig canMoveTo (data.positions i) with
    | error fault =>
        rw [hlookup] at h
        cases h hmoving
    | ok answer =>
        have hallows : allowed canMoveTo (futurePos trig (data.positions i)).x
            (futurePos trig (data.positions i)).y 0 = answer := by
          unfold allowed
          rw [show canMoveTo _ _ 0 = .ok answer from hlookup]
          cases answer <;> rfl
        unfold movePlayerAction
        simp only [hallows, List.nil_append]
  · rw [if_neg hmoving, if_neg hmoving]

theorem isOk_of_turnOn {i : Fin n} {data : PlayersData K n}
    (h : (turnOn trig canMoveTo i data).result.isOk = true) (hmoving : data.status i = .MOVING) :
    (lookup trig canMoveTo (data.positions i)).isOk = true := by
  unfold turnOn movePlayerActionOn at h
  rw [if_pos hmoving] at h
  cases hlookup : lookup trig canMoveTo (data.positions i) with
  | error fault =>
      rw [hlookup] at h
      cases h
  | ok answer => rfl

theorem turn_others (trig : Trigonometry K) (canMoveTo : K → K → Nat → Bool)
    {i j : Fin n} (hne : j ≠ i) (data : PlayersData K n) :
    (turn trig canMoveTo i (data, [])).1.status = data.status ∧
      (turn trig canMoveTo i (data, [])).1.positions j = data.positions j := by
  rw [turn_data]
  exact ⟨rfl, Function.update_of_ne hne _ _⟩

theorem turnsOn_isOk_iff (trig : Trigonometry K) (canMoveTo : K → K → Nat → Except Fault Bool)
    {indices : List (Fin n)} (hnodup : indices.Nodup) (data : PlayersData K n) :
    (runs (turnOn trig canMoveTo) indices data).result.isOk = true ↔
      ∀ i ∈ indices, data.status i = .MOVING →
        (lookup trig canMoveTo (data.positions i)).isOk = true := by
  induction indices generalizing data with
  | nil => exact ⟨fun _ => List.forall_mem_nil _, fun _ => rfl⟩
  | cons i rest ih =>
      obtain ⟨hi, hnodup⟩ := List.nodup_cons.mp hnodup
      have hothers (j : Fin n) (hj : j ∈ rest) :=
        turn_others trig (allowed canMoveTo) (ne_of_mem_of_not_mem hj hi) data
      rw [List.forall_mem_cons]
      constructor
      · intro h
        obtain ⟨t, hrun⟩ := Traced.eq_of_isOk h
        obtain ⟨_, data', _, hfirst, hrest, -⟩ := Traced.andThen_eq_ok.mp hrun
        have hlookup := isOk_of_turnOn (congrArg (fun r => r.result.isOk) hfirst)
        obtain ⟨-, rfl⟩ := Traced.ok_eq_ok.mp ((turnOn_eq hlookup).symm.trans hfirst)
        refine ⟨hlookup, ?_⟩
        intro j hj
        have hlater := (ih hnodup _).mp (congrArg (fun r => r.result.isOk) hrest) j hj
        rwa [(hothers j hj).1, (hothers j hj).2] at hlater
      · rintro ⟨hlookup, hrest⟩
        rw [runs, turnOn_eq hlookup]
        apply (ih hnodup _).mpr
        intro j hj
        rw [(hothers j hj).1, (hothers j hj).2]
        exact hrest j hj

theorem turn_notified {canMoveTo : K → K → Nat → Bool} (i : Fin n) (data : PlayersData K n)
    (notified : List (List (Fin n))) :
    turn trig canMoveTo i (data, notified) = ((turn trig canMoveTo i (data, [])).1,
      notified ++ (turn trig canMoveTo i (data, [])).2) := by
  unfold turn
  split_ifs
  · simp only [List.nil_append]
  · rw [List.append_nil]

theorem turnsOn_eq {indices : List (Fin n)} {data data' : PlayersData K n}
    {new : List (List (Fin n))} (h : runs (turnOn trig canMoveTo) indices data = ⟨new, .ok data'⟩)
    (notified : List (List (Fin n))) :
    indices.foldl (fun s i => turn trig (allowed canMoveTo) i s) (data, notified) =
      (data', notified ++ new) := by
  induction indices generalizing data new notified with
  | nil =>
      obtain ⟨rfl, rfl⟩ := Traced.ok_eq_ok.mp h
      rw [List.append_nil]
      rfl
  | cons i rest ih =>
      obtain ⟨new₁, data₁, new₂, hfirst, hrest, rfl⟩ := Traced.andThen_eq_ok.mp h
      have hlookup := isOk_of_turnOn (congrArg (fun r => r.result.isOk) hfirst)
      obtain ⟨rfl, rfl⟩ := Traced.ok_eq_ok.mp ((turnOn_eq hlookup).symm.trans hfirst)
      rw [List.foldl_cons, turn_notified, ih hrest, List.append_assoc]

theorem executePendingActionsOn_eq {data data' : PlayersData K n} {new : List (List (Fin n))}
    (h : executePendingActionsOn trig canMoveTo data = ⟨new, .ok data'⟩) :
    executePendingActions trig (allowed canMoveTo) data = (data', new) :=
  turnsOn_eq h []

end WorldServerEngine

/-! ## The loop -/

namespace Players

def executePendingActions (players : Players K n) : Traced (List (Fin n)) Fault (Players K n) :=
  let round := WorldServerEngine.executePendingActionsOn trig canMoveTo players.data
  ⟨round.log, round.result.map fun data => { players with data }⟩

/-- The body of `runServerLoop`. -/
def pollAndExecute (polled : Polled K) (players : Players K n) :
    Traced (List (Fin n)) Fault (Players K n) :=
  match polled with
  | .message frames =>
    match players.processMessage frames with
    | .error fault => ⟨[], .error fault⟩
    | .ok players => players.executePendingActions trig canMoveTo
  | _ => players.executePendingActions trig canMoveTo

end Players

/-! ## The players on their own -/

namespace Row

def next (trig : Trigonometry K) (canMoveTo : K → K → Nat → Bool) (row : Row K)
    (message : Option (String × Action K)) : Row K :=
  let row := message.elim row row.told
  if row.status = .MOVING then
    { row with position := WorldServerEngine.moved trig canMoveTo row.position }
  else row

end Row

namespace Players

variable {trig canMoveTo}

theorem executePendingActions_spec {players players' : Players K n}
    (h : (players.executePendingActions trig canMoveTo).result = .ok players') :
    players'.tokenToIndex = players.tokenToIndex ∧ ∀ i, players'.data.row i =
      (players.data.row i).next trig (allowed canMoveTo) none := by
  have hok : (WorldServerEngine.executePendingActionsOn trig canMoveTo players.data).result.isOk =
      true := by
    unfold executePendingActions at h
    dsimp only at h
    cases hround : (WorldServerEngine.executePendingActionsOn trig canMoveTo players.data).result with
    | error fault =>
        rw [hround] at h
        cases h
    | ok data => rfl
  obtain ⟨data, hround⟩ := Traced.eq_of_isOk hok
  have hdata : (WorldServerEngine.executePendingActions trig (allowed canMoveTo) players.data).1 =
      data := congrArg Prod.fst (WorldServerEngine.executePendingActionsOn_eq hround)
  unfold executePendingActions at h
  rw [hround] at h
  rw [← Except.ok.inj h]
  refine ⟨rfl, fun i => ?_⟩
  change data.row i = _
  rw [← hdata, WorldServerEngine.executePendingActions_data]
  unfold PlayersData.row Row.next
  by_cases hmoving : players.data.status i = .MOVING <;> simp [hmoving]

theorem executePendingActions_isOk_iff (players : Players K n) :
    (players.executePendingActions trig canMoveTo).result.isOk = true ↔
      ∀ i, (players.data.row i).status = .MOVING →
        (WorldServerEngine.lookup trig canMoveTo (players.data.row i).position).isOk = true := by
  have hround :=
    WorldServerEngine.turnsOn_isOk_iff trig canMoveTo (List.nodup_finRange n) players.data
  simp only [List.mem_finRange, true_implies] at hround
  unfold PlayersData.row
  rw [← hround, executePendingActions, WorldServerEngine.executePendingActionsOn]
  cases (runs (WorldServerEngine.turnOn trig canMoveTo) (List.finRange n) players.data).result <;>
    rfl

/-- In a turn of the loop a player hears what is said to him, and moves. -/
theorem pollAndExecute_spec {players players' : Players K n} {polled : Polled K}
    (h : (pollAndExecute trig canMoveTo polled players).result = .ok players') :
    players'.tokenToIndex = players.tokenToIndex ∧ ∀ i, players'.data.row i =
      (players.data.row i).next trig (allowed canMoveTo)
        (polled.saidTo players.tokenToIndex i) := by
  cases polled with
  | nothing => exact executePendingActions_spec h
  | illFormed parts => exact executePendingActions_spec h
  | message frames =>
      unfold pollAndExecute at h
      dsimp only at h
      obtain ⟨-, hprocess⟩ | ⟨-, heard, hprocess, htokens, hrows⟩ :=
        processMessage_spec frames players
      · rw [hprocess] at h
        cases h
      · rw [hprocess] at h
        obtain ⟨htokens', hrows'⟩ := executePendingActions_spec h
        refine ⟨htokens'.trans htokens, fun i => ?_⟩
        rw [hrows', hrows]
        rfl

/-- A turn of the loop succeeds exactly when no table is missing and the map has an answer for
everybody who is to move. -/
theorem pollAndExecute_isOk_iff (polled : Polled K) (players : Players K n) :
    (pollAndExecute trig canMoveTo polled players).result.isOk = true ↔
      ¬ polled.LacksTable players.tokenToIndex ∧
        ∀ i, (players.heard polled i).status = .MOVING →
          (WorldServerEngine.lookup trig canMoveTo (players.heard polled i).position).isOk =
            true := by
  have hquiet {polled : Polled K} (hsaid : ∀ i, polled.saidTo players.tokenToIndex i = none) :
      ¬ polled.LacksTable players.tokenToIndex := by
    rintro ⟨i, idt, hlacks⟩
    rw [hsaid] at hlacks
    cases hlacks
  cases polled with
  | nothing =>
      rw [and_iff_right (hquiet fun _ => rfl)]
      exact executePendingActions_isOk_iff players
  | illFormed parts =>
      rw [and_iff_right (hquiet fun _ => rfl)]
      exact executePendingActions_isOk_iff players
  | message frames =>
      unfold pollAndExecute
      dsimp only
      obtain ⟨hlacks, hprocess⟩ | ⟨hlacks, after, hprocess, -, hrows⟩ :=
        processMessage_spec frames players
      · rw [hprocess]
        exact iff_of_false nofun fun h => h.1 hlacks
      · rw [hprocess, and_iff_right hlacks]
        simp only [← hrows]
        exact executePendingActions_isOk_iff after

end Players

/-! ## The last word -/

def Action.status : Action K → Option PlayerStatus
  | .Move (some _) => some .MOVING
  | .Interruption => some .STANDING
  | _ => none

def Action.direction : Action K → Option K
  | .Move table => table
  | _ => none

def lastOr {α : Type} (l : List α) (a : α) : α := l.getLast?.getD a

theorem lastOr_append {α : Type} (l m : List α) (a : α) :
    lastOr (l ++ m) a = lastOr m (lastOr l a) := by
  unfold lastOr
  rw [List.getLast?_append]
  cases m.getLast? <;> rfl

theorem lastOr_filterMap_cons {α β : Type} (f : α → Option β) (x : α) (l : List α) (a : β) :
    lastOr ((x :: l).filterMap f) a = lastOr (l.filterMap f) ((f x).getD a) := by
  rw [← List.singleton_append, List.filterMap_append, lastOr_append]
  cases h : f x with
  | none => simp [h, lastOr]
  | some b => simp [h, lastOr]

namespace Row

variable {trig : Trigonometry K} {canMoveTo : K → K → Nat → Bool}

omit [Add K] [Sub K] [LT K] [DecidableLT K] in
theorem moved_angle (pi : PlayerInfo K) :
    (WorldServerEngine.moved trig canMoveTo pi).angle = pi.angle := by
  unfold WorldServerEngine.moved
  split_ifs <;> rfl

omit [Add K] [Sub K] [LT K] [DecidableLT K] in
theorem next_word (trig : Trigonometry K) (canMoveTo : K → K → Nat → Bool) (row : Row K)
    (message : Option (String × Action K)) :
    (row.next trig canMoveTo message).status =
        (message.bind (fun said => said.2.status)).getD row.status ∧
      (row.next trig canMoveTo message).position.angle =
        (message.bind (fun said => said.2.direction)).getD row.position.angle ∧
      (row.next trig canMoveTo message).identity =
        (message.map (fun said => said.1)).getD row.identity := by
  have hround (row : Row K) : (row.next trig canMoveTo none).status = row.status ∧
      (row.next trig canMoveTo none).position.angle = row.position.angle ∧
        (row.next trig canMoveTo none).identity = row.identity := by
    unfold Row.next
    by_cases hmoving : row.status = .MOVING
    · simp [hmoving, moved_angle]
    · simp [hmoving]
  cases message with
  | none => exact hround row
  | some said =>
      obtain ⟨idt, content⟩ := said
      have htold := hround (row.told (idt, content))
      cases content with
      | Move table => cases table <;> exact htold
      | _ => exact htold

omit [Add K] [Sub K] [LT K] [DecidableLT K] in
theorem foldl_next (row : Row K) (messages : List (Option (String × Action K))) :
    (messages.foldl (Row.next trig canMoveTo) row).status =
        lastOr (messages.filterMap fun m => m.bind fun said => said.2.status) row.status ∧
      (messages.foldl (Row.next trig canMoveTo) row).position.angle =
        lastOr (messages.filterMap fun m => m.bind fun said => said.2.direction)
          row.position.angle ∧
      (messages.foldl (Row.next trig canMoveTo) row).identity =
        lastOr (messages.filterMap fun m => m.map fun said => said.1) row.identity := by
  induction messages generalizing row with
  | nil => exact ⟨rfl, rfl, rfl⟩
  | cons message messages ih =>
      obtain ⟨hstatus, hangle, hidentity⟩ := next_word trig canMoveTo row message
      rw [List.foldl_cons, lastOr_filterMap_cons, lastOr_filterMap_cons, lastOr_filterMap_cons,
        ← hstatus, ← hangle, ← hidentity]
      exact ih (row.next trig canMoveTo message)

end Row

namespace Players

variable {trig canMoveTo}

theorem runs_spec {players players' : Players K n} {polls : List (Polled K)}
    (h : (runs (pollAndExecute trig canMoveTo) polls players).result = .ok players') :
    players'.tokenToIndex = players.tokenToIndex ∧ ∀ i, players'.data.row i =
      (polls.map (Polled.saidTo players.tokenToIndex i)).foldl
        (Row.next trig (allowed canMoveTo)) (players.data.row i) := by
  induction polls generalizing players with
  | nil =>
      rw [← Except.ok.inj h]
      exact ⟨rfl, fun i => rfl⟩
  | cons polled polls ih =>
      obtain ⟨_, next, _, hfirst, hrest, -⟩ := Traced.andThen_eq_ok.mp
        (show runs (pollAndExecute trig canMoveTo) (polled :: polls) players =
          ⟨(runs (pollAndExecute trig canMoveTo) (polled :: polls) players).log, .ok players'⟩ by
            rw [← h])
      obtain ⟨htokens, hrows⟩ := pollAndExecute_spec (congrArg Traced.result hfirst)
      obtain ⟨htokens', hrows'⟩ := ih (congrArg Traced.result hrest)
      refine ⟨htokens'.trans htokens, fun i => ?_⟩
      rw [hrows', hrows, htokens]
      rfl

/-- On a map that always has an answer only a missing table ends the server. -/
theorem runs_isOk_iff (hanswers : ∀ x y level, (canMoveTo x y level).isOk = true)
    (players : Players K n) (polls : List (Polled K)) :
    (runs (pollAndExecute trig canMoveTo) polls players).result.isOk = true ↔
      ∀ polled ∈ polls, ¬ polled.LacksTable players.tokenToIndex := by
  induction polls generalizing players with
  | nil => exact iff_of_true rfl (List.forall_mem_nil _)
  | cons polled polls ih =>
      have hfirst : (pollAndExecute trig canMoveTo polled players).result.isOk = true ↔
          ¬ polled.LacksTable players.tokenToIndex :=
        (pollAndExecute_isOk_iff polled players).trans
          (and_iff_left fun _ _ => hanswers _ _ _)
      rw [List.forall_mem_cons, ← hfirst, runs]
      cases hturn : (pollAndExecute trig canMoveTo polled players).result with
      | error fault =>
          unfold Traced.andThen
          rw [hturn]
          simp only
          rw [hturn]
          exact iff_of_false Bool.false_ne_true fun h => Bool.false_ne_true h.1
      | ok next =>
          unfold Traced.andThen
          rw [hturn]
          simp only
          rw [ih next, (pollAndExecute_spec hturn).1]
          exact (and_iff_right rfl).symm

variable (trig canMoveTo)

/-- A player is led by the messages under his tokens alone: through all rounds he is what they
make of him, and his status, his angle and his identity are the last they gave.  On a map that
always has an answer nothing but a move without its table ends the server. -/
theorem players_on_their_own (players : Players K n) (polls : List (Polled K)) :
    ((∀ x y level, (canMoveTo x y level).isOk = true) →
      ((runs (pollAndExecute trig canMoveTo) polls players).result.isOk = true ↔
        ∀ polled ∈ polls, ¬ polled.LacksTable players.tokenToIndex)) ∧
    ∀ after, (runs (pollAndExecute trig canMoveTo) polls players).result = .ok after →
      ∀ i : Fin n,
        let messages := polls.map (Polled.saidTo players.tokenToIndex i)
        let row := after.data.row i
        row = messages.foldl (Row.next trig (allowed canMoveTo)) (players.data.row i) ∧
          row.status =
            lastOr (messages.filterMap fun m => m.bind fun said => said.2.status)
              (players.data.status i) ∧
          row.position.angle =
            lastOr (messages.filterMap fun m => m.bind fun said => said.2.direction)
              (players.data.positions i).angle ∧
          row.identity =
            lastOr (messages.filterMap fun m => m.map fun said => said.1)
              (players.data.identities i) := by
  refine ⟨fun hanswers => runs_isOk_iff hanswers players polls, ?_⟩
  intro after hafter i messages row
  have hrow : row = messages.foldl (Row.next trig (allowed canMoveTo)) (players.data.row i) :=
    (runs_spec hafter).2 i
  rw [hrow]
  exact ⟨rfl, Row.foldl_next (players.data.row i) messages⟩

end Players

/-! ## A server that was just constructed -/

namespace Players

theorem pollAndExecute_new (polled : Polled K) :
    pollAndExecute trig canMoveTo polled (Players.new : Players K n) = ⟨[], .ok Players.new⟩ := by
  have hturns (indices : List (Fin n)) :
      runs (WorldServerEngine.turnOn trig canMoveTo) indices (Players.new : Players K n).data =
        ⟨[], .ok (Players.new : Players K n).data⟩ := by
    induction indices with
    | nil => rfl
    | cons i rest ih =>
        have hstill : WorldServerEngine.turnOn trig canMoveTo i (Players.new : Players K n).data =
            ⟨[], .ok (Players.new : Players K n).data⟩ :=
          if_neg fun hmoving : PlayerStatus.FIGHTING = .MOVING => by cases hmoving
        rw [runs, hstill]
        unfold Traced.andThen
        simp only [ih, List.nil_append]
  have hround : (Players.new : Players K n).executePendingActions trig canMoveTo =
      ⟨[], .ok Players.new⟩ := by
    unfold executePendingActions WorldServerEngine.executePendingActionsOn
    rw [hturns]
    rfl
  cases polled with
  | nothing => exact hround
  | illFormed parts => exact hround
  | message frames =>
      have hsame : (Players.new : Players K n).processMessage frames = .ok Players.new := by
        unfold processMessage
        split_ifs <;> rfl
      unfold pollAndExecute
      dsimp only
      rw [hsame]
      exact hround

/-- No message gets a token into the table, so no message ends a server, nobody ever moves on
it and it notifies nobody. -/
theorem new_stays_still (polls : List (Polled K)) :
    runs (pollAndExecute trig canMoveTo) polls (Players.new : Players K n) =
      ⟨[], .ok Players.new⟩ := by
  induction polls with
  | nil => rfl
  | cons polled polls ih =>
      rw [runs, pollAndExecute_new]
      unfold Traced.andThen
      simp only [ih, List.nil_append]

end Players

end Loop

end FyS.WorldServer
