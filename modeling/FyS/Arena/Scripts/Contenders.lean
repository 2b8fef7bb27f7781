import FyS.Arena.Pit.Selections
import FyS.Arena.Pit.Targets
import FyS.Arena.Scripts.Damage

/-!
# The scripts of the contenders

`Sampy.chai`, `Slime.chai` and `Ogre.chai`: which action `runScriptedAction` decides on,
which status it runs on and what becomes of it.  The power of a slash, a floating point
number made from the level, is a parameter, and so is the rounding of what it leaves.
-/

namespace FyS.Arena.Scripts

open FyS.Common FyS.Library HexagonSide

/-! ## The actions -/

structure AttackSAMPY where
  power : Nat
deriving DecidableEq, Repr

def AttackSAMPY.execute (attack : AttackSAMPY) (targetStatus : Status) : Status :=
  if targetStatus.life.current > attack.power then
    { targetStatus with
      life := { targetStatus.life with current := targetStatus.life.current - attack.power } }
  else { targetStatus with life := { targetStatus.life with current := 0 } }

def SleepSAMPY.execute (targetStatus : Status) : Status :=
  { targetStatus with magicPoint := { targetStatus.magicPoint with current := 42 } }

/-! ## The contenders -/

inductive Monster where
  | Sampy
  | Slime
  | Ogre
deriving DecidableEq, Repr

namespace Monster

def ofName : String → Option Monster
  | "Sampy" => some .Sampy
  | "Slime" => some .Slime
  | "Ogre" => some .Ogre
  | _ => none

/-- The life that `setupContender` adds for each level. -/
def addLifePerLevel : Monster → Nat
  | .Sampy => 3
  | .Slime => 15
  | .Ogre => 15

def setupContender (monster : Monster) (level : Nat) (thisStatus : Status) : Status :=
  let total := 150 + monster.addLifePerLevel * level
  let magic := if monster = .Sampy then 100 else 0
  { thisStatus with
    life := ⟨total, total⟩
    magicPoint := ⟨magic, magic⟩
    initialSpeed := if monster = .Sampy then 8 else 4 }

end Monster

def Sampy.decisionStrategy (currentContenderStatus : Status) : Option Nat :=
  if currentContenderStatus.life.total = 0 then none
  else
    let percent := currentContenderStatus.life.current / currentContenderStatus.life.total * 100 %
      4294967296
    some (if percent = 100 then 2 else if percent < 50 then 0 else 1)

def onMember (id : Nat) (execute : Status → Status) : Effect where
  contender _ status := status
  member i status := if i = id then execute status else status

def onContender (pos : Nat) (execute : Status → Status) : Effect where
  contender i status := if i = pos then execute status else status
  member _ status := status

/-- An action whose target is `decide_target.lower_life(ENNEMY, side)`; `nullTarget` is what
the access through a null pointer throws. -/
def attackLowerLife (nullTarget : ScriptError) (execute : Status → Status) (side : Orientation)
    (pc : PitContenders) (apt : AllyPartyTeams) : Except ScriptError Int × Effect :=
  match DecideTarget.lowerLife pc apt .ENNEMY side with
  | .member (some target) => (.ok 1, onMember target.id execute)
  | .member none => (.error nullTarget, FightingPit.harmless)
  | _ => (.error .evalError, FightingPit.harmless)

/-- `runScriptedAction` of an object of that class; `slash` is the damage of its slash. -/
def Monster.runScriptedAction (monster : Monster) (R : WholeRounding) (slash : Damage)
    (nullTarget : ScriptError) (id : Nat) (pc : PitContenders) (apt : AllyPartyTeams) :
    Except ScriptError Int × Effect :=
  match pc.getFightingContender id with
  | none => (.error .other, FightingPit.harmless)
  | some thisContender =>
    let side := thisContender.getHexagonSideOrient
    match monster with
    | .Sampy =>
      match Sampy.decisionStrategy thisContender.status with
      | none => (.error .other, FightingPit.harmless)
      | some 0 => attackLowerLife nullTarget (AttackSAMPY.execute ⟨50⟩) side pc apt
      -- the status is asked of the orientation, which has none
      | some 1 => (.error .evalError, FightingPit.harmless)
      | some _ => (.ok 1, onContender id SleepSAMPY.execute)
    | .Slime => attackLowerLife nullTarget (slash.execute R) side pc apt
    | .Ogre => attackLowerLife nullTarget (slash.execute R) side pc apt

/-! ## What the actions do to a status -/

structure Weakened (status status' : Status) : Prop where
  current_le : status'.life.current ≤ status.life.current
  eq : status' = { status with life := { status.life with current := status'.life.current } }

theorem Weakened.refl (status : Status) : Weakened status status := ⟨Nat.le_refl _, rfl⟩

theorem Weakened.trans {status status' status'' : Status} (h : Weakened status status')
    (h' : Weakened status' status'') : Weakened status status'' := by
  refine ⟨h'.current_le.trans h.current_le, ?_⟩
  rw [h'.eq, h.eq]

theorem weakened_attackSAMPY (attack : AttackSAMPY) (status : Status) :
    Weakened status (attack.execute status) := by
  unfold AttackSAMPY.execute
  split_ifs
  · exact ⟨Nat.sub_le _ _, rfl⟩
  · exact ⟨Nat.zero_le _, rfl⟩

theorem weakened_damage (R : WholeRounding) (dmg : Damage) (status : Status) :
    Weakened status (dmg.execute R status) := by
  obtain ⟨current, hcurrent, -, hle⟩ := dmg.execute_between R status
  rw [hcurrent]
  exact ⟨hle.trans (Nat.sub_le _ _), rfl⟩

def Rested (status status' : Status) : Prop :=
  status' = status ∨ status' = SleepSAMPY.execute status

theorem Rested.trans {status status' status'' : Status} (h : Rested status status')
    (h' : Rested status' status'') : Rested status status'' := by
  rcases h with rfl | rfl
  · exact h'
  · rcases h' with rfl | rfl
    · exact .inr rfl
    · exact .inr rfl

theorem Rested.life_eq {status status' : Status} (h : Rested status status') :
    status'.life = status.life := by
  rcases h with rfl | rfl <;> rfl

/-- A Sampy with all of its life sleeps. -/
theorem decisionStrategy_unhurt {status : Status} (htotal : 0 < status.life.total)
    (h : status.life.current = status.life.total) : Sampy.decisionStrategy status = some 2 := by
  rw [Sampy.decisionStrategy, if_neg htotal.ne', h, Nat.div_self htotal]
  rfl

/-! ## What a script can do in one run -/

/-- Nothing, let the contender at `id` sleep, or weaken the member that is selected for the
side of that contender. -/
theorem Monster.runScriptedAction_cases (monster : Monster) (R : WholeRounding) (slash : Damage)
    (nullTarget : ScriptError) (id : Nat) (pc : PitContenders) (apt : AllyPartyTeams) :
    (monster.runScriptedAction R slash nullTarget id pc apt).2 = FightingPit.harmless ∨
      (monster.runScriptedAction R slash nullTarget id pc apt).2 =
        onContender id SleepSAMPY.execute ∨
      ∃ thisContender target execute, pc.getFightingContender id = some thisContender ∧
        DecideTarget.lowerLife pc apt .ENNEMY thisContender.getHexagonSideOrient =
          .member (some target) ∧
        (monster = .Sampy → Sampy.decisionStrategy thisContender.status ≠ some 2) ∧
        (∀ status, Weakened status (execute status)) ∧
        (monster.runScriptedAction R slash nullTarget id pc apt).2 = onMember target.id execute := by
  have hattack (execute : Status → Status) (side : Orientation) :
      (attackLowerLife nullTarget execute side pc apt).2 = FightingPit.harmless ∨
        ∃ target, DecideTarget.lowerLife pc apt .ENNEMY side = .member (some target) ∧
          (attackLowerLife nullTarget execute side pc apt).2 = onMember target.id execute := by
    unfold attackLowerLife
    split
    · rename_i target htarget
      exact .inr ⟨target, htarget, rfl⟩
    · exact .inl rfl
    · exact .inl rfl
  unfold Monster.runScriptedAction
  split
  · exact .inl rfl
  · rename_i thisContender hcontender
    dsimp only
    split
    · split
      · exact .inl rfl
      · rename_i hstrategy
        rcases hattack (AttackSAMPY.execute ⟨50⟩) thisContender.getHexagonSideOrient with
          h | ⟨target, htarget, h⟩
        · exact .inl h
        · refine .inr (.inr ⟨thisContender, target, _, hcontender, htarget, ?_,
            weakened_attackSAMPY ⟨50⟩, h⟩)
          intro _
          rw [hstrategy]
          decide
      · exact .inl rfl
      · exact .inr (.inl rfl)
    all_goals
      rcases hattack (slash.execute R) thisContender.getHexagonSideOrient with
        h | ⟨target, htarget, h⟩
      · exact .inl h
      · have hdamage := weakened_damage R slash
        refine .inr (.inr ⟨thisContender, target, _, hcontender, htarget, ?_, hdamage, h⟩)
        intro hsampy
        cases hsampy

end FyS.Arena.Scripts
