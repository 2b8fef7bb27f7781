import FyS.Arena.Pit.Joining
import FyS.Arena.Pit.SideBattles

/-!
# The dead

Nothing in a pit takes a dead character out of a priority list, and neither
branch of `continueBattle` looks at the life of the character it runs.  What a
side does guarantee is that it runs nobody who is not registered on it.
-/

namespace FyS.Arena

open FyS.Common FyS.Library.Fuel FyS.Library.Trace HexagonSide PriorityOrderList

variable {P : Platform} {C : ChaiScript}

/-! ## Who acts -/

/-- A contender always has something to do, a member if its next pending action is
one that it can do. -/
def Character.ready : Character → Bool
  | .contender _ => true
  | .member m => m.nextAction.isSome

namespace Board

def actor (board : Board C) (e : PriorityElem) : Option Character :=
  (board.character e).filter Character.ready

theorem actor_congr {board : Board C} {e e' : PriorityElem} (h : e.key = e'.key) :
    board.actor e = board.actor e' := by
  obtain ⟨hid, hkind⟩ := Prod.mk.inj h
  rw [actor, actor, character, character, hid, hkind]

/-- Members are numbered from 1, so the default element is nobody. -/
theorem actor_default (board : Board C) : board.actor ⟨0, 0, false⟩ = none := by
  have hnobody : board.partyTeams.selectMemberById 0 = none := by
    rw [AllyPartyTeams.selectMemberById_eq]
    split
    · rfl
    · rw [List.find?_eq_none]
      intro member hmember hid
      have := (AllyPartyTeams.id_bounds hmember).1
      rw [beq_iff_eq] at hid
      omega
  rw [actor, character, if_neg (by decide), hnobody]
  rfl

theorem status_setPendingActions (id : Nat) (pendingActions : SizedQueue PendingAction 100)
    (apt : AllyPartyTeams) :
    (apt.setPendingActions id pendingActions).members.map (·.status) =
      apt.members.map (·.status) := by
  rw [AllyPartyTeams.setPendingActions, AllyPartyTeams.mapMembers, AllyPartyTeams.members,
    List.flatMap_map, ← List.map_flatMap, List.map_map]
  apply List.map_congr_left
  intro member _
  show (if member.id = id then _ else _ : TeamMember).status = member.status
  split <;> rfl

end Board

/-! ## Battles -/

namespace FightingPit

/-- The states of a pit from its initialisation on: teams join, members receive
actions to do, and the game loop ticks. -/
inductive InBattle (P : Platform) : FightingPit C → Prop
  | initialized {fp fp'} (hfresh : fp.sideBattles = [])
      (h : Returns (fun fuel => initializeSideBattles P fuel fp) fp') : InBattle P fp'
  | joined {fp fp'} (S : SideSort) (cml : String → Option String) (pt : PartyTeam)
      (hfp : InBattle P fp) (h : fp.addPartyTeamAndRegisterActions S cml pt = .ok fp') :
      InBattle P fp'
  | requested {fp} (id : Nat) (pendingActions : SizedQueue PendingAction 100)
      (hfp : InBattle P fp) :
      InBattle P { fp with partyTeams := fp.partyTeams.setPendingActions id pendingActions }
  | continued {fp fp'} (fuel : Nat) (now : Int) (hfp : InBattle P fp)
      (h : (continueBattle P fuel now fp).result = .ok fp') : InBattle P fp'

/-- The element of a turn is registered, unless its side has served nobody yet. -/
def TurnRegistered (turn : Turn C) : Prop :=
  turn.currentParticipant.key ∈ keys turn.battle.priorityOrderList.baseSpeed ∨
    turn.currentParticipant = ⟨0, 0, false⟩

theorem playSide_registered {fuel : Nat} {now : Int} {index : Nat} {fp : FightingPit C}
    (h : ∀ sb ∈ fp.sideBattles, sb.Registered) :
    Keeps (fun fp : FightingPit C => ∀ sb ∈ fp.sideBattles, sb.Registered) TurnRegistered
      (playSide P fuel now index fp) := by
  apply playSide_keeps h
  intro battle currentParticipant battle' hbattle hbase hnext
  obtain ⟨hserved, hregistered⟩ := (h battle (List.mem_of_getElem? hbattle)).asked hbase hnext
  refine ⟨hserved, fun board _ sb hsb => ?_⟩
  rcases List.mem_or_eq_of_mem_set hsb with hsb | rfl
  · exact h sb hsb
  · exact hregistered

theorem InBattle.registered {fp : FightingPit C} (h : InBattle P fp) :
    ∀ sb ∈ fp.sideBattles, sb.Registered := by
  induction h with
  | initialized hfresh h =>
      obtain ⟨base, -, rfl⟩ := initializeSideBattles_cases hfresh h
      intro sb hsb
      obtain ⟨side, -, rfl⟩ := List.mem_map.mp hsb
      exact SideBattle.registered_unplayedBattle _ _
  | joined S cml pt _ h ih =>
      intro sb hsb
      exact ih sb ((addPartyTeam_cases h).2.mem_iff.mp hsb)
  | requested id pendingActions _ ih => exact ih
  | continued fuel now _ h ih =>
      have hkeeps : Keeps _ TurnRegistered (continueBattle P fuel now _) :=
        continueBattle_keeps (fun index fp => playSide_registered) ih
      exact hkeeps.result _ h

def SideAlive (turn : Turn C) : Prop :=
  ∀ e ∈ turn.battle.priorityOrderList.baseSpeed, ∀ character ∈ turn.board.actor e,
    character.status.life.current ≠ 0

/-- Whoever acts in the turn is alive. -/
def ActorAlive (turn : Turn C) : Prop :=
  ∀ character ∈ turn.board.actor turn.currentParticipant, character.status.life.current ≠ 0

instance (turn : Turn C) : Decidable (SideAlive turn) :=
  inferInstanceAs (Decidable (∀ e ∈ turn.battle.priorityOrderList.baseSpeed,
    ∀ character ∈ turn.board.actor e, character.status.life.current ≠ 0))

instance (turn : Turn C) : Decidable (ActorAlive turn) :=
  inferInstanceAs (Decidable (∀ character ∈ turn.board.actor turn.currentParticipant,
    character.status.life.current ≠ 0))

theorem TurnRegistered.actorAlive {turn : Turn C} (h : TurnRegistered turn)
    (halive : SideAlive turn) : ActorAlive turn := by
  intro character hactor
  rcases h with hkey | hdefault
  · obtain ⟨e, he, hsame⟩ := List.mem_map.mp hkey
    rw [← Board.actor_congr hsame] at hactor
    exact halive e he character hactor
  · rw [hdefault, Board.actor_default] at hactor
    exact nomatch hactor

/-- In every run from a reachable pit in which no side is played while one of those
who would act on it is dead, no dead character acts. -/
theorem living_act {fp : FightingPit C} (hfp : InBattle P fp) (fuel : Nat) (nows : List Int)
    (halive : ∀ turn ∈ (battle P fuel nows fp).log, SideAlive turn) :
    ∀ turn ∈ (battle P fuel nows fp).log, ActorAlive turn := by
  have hrun : Keeps _ TurnRegistered (battle P fuel nows fp) :=
    battle_keeps (fun now index fp => playSide_registered) nows hfp.registered
  intro turn hturn
  exact (hrun.log turn hturn).actorAlive (halive turn hturn)

def archer : TeamMember :=
  { recruit "archer" .A_N 3 with
    actionsDoable := [("arrow", 1)]
    pendingActions := (SizedQueue.new.push ⟨0, some (.contenderTargetId 0)⟩).2 }

def ambush (effect : Effect) : FightingPit (constantChai effect) :=
  assembled effect [monster 0 .A_N 5] [archer]

theorem living_act_ambush :
    (∀ turn ∈ (battle (.unbounded insertionSort) 5 [0, 10000, 20000]
      (arranged (ambush harmless))).log, SideAlive turn) ∧
    ∀ turn ∈ (battle (.unbounded insertionSort) 5 [0, 10000, 20000]
      (arranged (ambush harmless))).log, ActorAlive turn :=
  ⟨by decide, living_act (.initialized (show (ambush harmless).sideBattles = [] from rfl)
    ⟨0, rfl⟩) _ _ (by decide)⟩

def lethal : Effect :=
  ⟨fun _ status => status, fun _ status => { status with life := ⟨0, status.life.total⟩ }⟩

/-- The monster kills the archer in the first turn; the archer shoots in the second. -/
theorem dead_archer_shoots :
    ¬ ∀ (fp : FightingPit (constantChai lethal)) (fuel : Nat) (nows : List Int),
      InBattle (.unbounded insertionSort) fp → fp.ending = .NOT_FINISHED →
      nows.Pairwise (· ≤ ·) →
      ∀ turn ∈ (battle (.unbounded insertionSort) fuel nows fp).log, ActorAlive turn := by
  intro h
  have hall := h (arranged (ambush lethal)) 5 [0, 10000, 20000]
    (.initialized (show (ambush lethal).sideBattles = [] from rfl) ⟨0, rfl⟩) rfl (by decide)
  exact absurd hall (by decide)

end FightingPit

end FyS.Arena
