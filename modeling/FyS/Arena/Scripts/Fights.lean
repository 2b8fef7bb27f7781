import FyS.Arena.Pit.Touches
import FyS.Arena.Scripts.Contenders

/-!
# Battles against the contenders of the repository

The members of the teams act on copies, so in a battle statuses change only where a
contender sleeps or hits the member that `lower_life` designates.  That designation sticks:
a member that is hit is designated again, also when it is dead.
-/

namespace FyS.Arena

open FyS.Common FyS.Library FyS.Library.Pointwise FyS.Library.RunningBest FyS.Library.Trace
  HexagonSide Scripts

variable {P : Platform} {C : ChaiScript}

/-- An engine that has loaded the scripts of the contenders, and hands the actions of the
members a copy of a status. -/
structure RunsMonsters (C : ChaiScript) extends ByValue C where
  slash : Nat → Damage
  /-- of what a slash leaves of a life -/
  rounding : WholeRounding
  /-- of the object that the function is about -/
  level : C.Function → Nat
  nullTarget : ScriptError
  callWithId_eq : ∀ (cs : ContenderScripting) monster function chai loaded,
    Monster.ofName cs.contenderName = some monster →
    C.evalFunction cs.action chai = (.ok function, loaded) →
    ∀ contenders partyTeams chai, ∃ chai',
      C.callWithId function cs.contenderId contenders partyTeams chai =
        ((monster.runScriptedAction rounding (slash (level function)) nullTarget cs.contenderId
            contenders partyTeams).1,
          (monster.runScriptedAction rounding (slash (level function)) nullTarget cs.contenderId
            contenders partyTeams).2, chai')

theorem eq_of_enclosed_eq {a b c d x y : String}
    (h : a ++ (b ++ x ++ c) ++ d = a ++ (b ++ y ++ c) ++ d) : x = y := by
  have hlist := congrArg String.toList h
  simp only [String.toList_append, List.append_assoc] at hlist
  have hrest := List.append_cancel_left (List.append_cancel_left hlist)
  exact String.toList_inj.mp (List.append_cancel_right hrest)

theorem ContenderScripting.action_inj {name name' : String} {level level' id : Nat}
    (h : (ContenderScripting.mk name level id).action =
      (ContenderScripting.mk name' level' id).action) : name = name' :=
  eq_of_enclosed_eq h

def monsterOf (code : String) (id : Nat) : Monster :=
  if code = (ContenderScripting.mk "Sampy" 1 id).action then .Sampy
  else if code = (ContenderScripting.mk "Slime" 1 id).action then .Slime
  else .Ogre

theorem monsterOf_action (cs : ContenderScripting) {monster : Monster}
    (h : Monster.ofName cs.contenderName = some monster) :
    monsterOf cs.action cs.contenderId = monster := by
  obtain ⟨name, level, id⟩ := cs
  have hdiffer {other : String} (hne : name ≠ other) :
      (ContenderScripting.mk name level id).action ≠ (ContenderScripting.mk other 1 id).action :=
    fun heq => hne (ContenderScripting.action_inj heq)
  unfold Monster.ofName at h
  dsimp only at h
  split at h
  · cases h
    exact if_pos rfl
  · cases h
    rw [monsterOf, if_neg (hdiffer (by decide))]
    exact if_pos rfl
  · cases h
    rw [monsterOf, if_neg (hdiffer (by decide)), if_neg (hdiffer (by decide))]
  · cases h

def monsterChai (slash : Damage) : ChaiScript where
  State := Unit
  Function := String
  eval _ _ := (.ok (), ())
  evalFunction code _ := (.ok code, ())
  evalTargeting _ _ := (.ok .ENNEMY, ())
  callWithId code id contenders partyTeams _ :=
    let after := (monsterOf code id).runScriptedAction binary64.wholeRounding slash .other id
      contenders partyTeams
    (after.1, after.2, ())
  callWithStatus _ _ _ _ _ := (.ok 1, FightingPit.harmless, ())

def runsMonsters (slash : Damage) : RunsMonsters (monsterChai slash) where
  execute _ status _ := (some 1, status)
  callWithStatus_eq _ _ _ _ _ := ⟨(), rfl⟩
  slash _ := slash
  rounding := binary64.wholeRounding
  level _ := 1
  nullTarget := .other
  callWithId_eq cs monster function chai loaded hmonster heval contenders partyTeams chai' := by
    refine ⟨(), ?_⟩
    cases heval
    show _ = _
    simp only [monsterChai, monsterOf_action cs hmonster]

/-! ## What a selection sees of a member -/

structure Seen where
  id : Nat
  side : HexagonSide
  status : Status
deriving DecidableEq, Repr

def TeamMember.seen (member : TeamMember) : Seen := ⟨member.id, member.side, member.status⟩

def Seen.struck (id : Nat) (execute : Status → Status) (seen : Seen) : Seen :=
  { seen with status := (onMember id execute).member seen.id seen.status }

theorem Seen.struck_of_ne {id : Nat} {execute : Status → Status} {seen : Seen} (h : seen.id ≠ id) :
    seen.struck id execute = seen := by
  simp only [struck, onMember, if_neg h]

theorem Seen.struck_self (execute : Status → Status) (seen : Seen) :
    seen.struck seen.id execute = { seen with status := execute seen.status } := by
  simp only [struck, onMember, if_pos]

/-- How `lower_life` compares the members. -/
def Seen.lower (side : Orientation) : Seen → Seen → Bool :=
  guarded (fun current => !current.status.life.isDead && current.side.side == side)
    fun current next => DecideTarget.comparator current.status next.status

namespace Board

variable {board board' : Board C}

def seen (board : Board C) : List Seen := board.partyTeams.members.map TeamMember.seen

/-- The id of the member that `lower_life` designates to the contenders of a side. -/
def victim (side : Orientation) (board : Board C) : Option Nat :=
  (board.partyTeams.selectSuitableMemberOnSideAlive side fun current next =>
    DecideTarget.comparator current.status next.status).map (·.id)

theorem victim_eq (side : Orientation) (board : Board C) :
    board.victim side = if board.partyTeams.noFirstMember then none
      else (select (Seen.lower side) board.seen).map (·.id) := by
  rw [victim, AllyPartyTeams.selectSuitableMemberOnSideAlive,
    AllyPartyTeams.selectSuitableMember_eq]
  split
  · rfl
  · rw [findMostSuitable_eq, seen]
    cases board.partyTeams.members with
    | nil => rfl
    | cons start l =>
        rw [List.map_cons, select_cons, select_cons, Option.map_some, Option.map_some,
          ← best_map TeamMember.seen]
        rfl

theorem ids_seen_nodup (board : Board C) : (board.seen.map (·.id)).Nodup := by
  rw [seen, List.map_map]
  exact board.partyTeams.ids_nodup

theorem seen_affected (effect : Effect) (chai : C.State) (board : Board C) :
    (board.affected effect chai).seen =
      board.seen.map fun seen => { seen with status := effect.member seen.id seen.status } := by
  rw [seen, affected, AllyPartyTeams.members_mapMembers, List.map_map, seen, List.map_map]
  rfl

theorem noFirstMember_affected (effect : Effect) (chai : C.State) (board : Board C) :
    (board.affected effect chai).partyTeams.noFirstMember = board.partyTeams.noFirstMember :=
  AllyPartyTeams.noFirstMember_mapMembers
    (fun member => { member with status := effect.member member.id member.status })
    (fun _ => rfl) board.partyTeams

theorem seen_popped (member : TeamMember) (board : Board C) :
    (board.popped member).seen = board.seen := by
  rw [seen, popped, AllyPartyTeams.setPendingActions, AllyPartyTeams.members_mapMembers,
    List.map_map, seen]
  apply List.map_congr_left
  intro other _
  rw [Function.comp_apply]
  split <;> rfl

end Board

/-! ## What a single change does -/

structure FightingContender.Stays (contender contender' : FightingContender) : Prop where
  contenderScripting : contender'.contenderScripting = contender.contenderScripting
  side : contender'.side = contender.side
  status : Rested contender.status contender'.status

namespace FightingContender.Stays

theorem refl (contender : FightingContender) : contender.Stays contender := ⟨rfl, rfl, .inl rfl⟩

theorem trans {contender contender' contender'' : FightingContender}
    (h : contender.Stays contender') (h' : contender'.Stays contender'') :
    contender.Stays contender'' :=
  ⟨h'.contenderScripting.trans h.contenderScripting, h'.side.trans h.side, h.status.trans h'.status⟩

end FightingContender.Stays

namespace Board

variable {board board' : Board C}

def Known (board : Board C) : Prop :=
  ∀ contender ∈ board.contenders.contenders,
    (Monster.ofName contender.contenderScripting.contenderName).isSome

structure Strike (board : Board C) where
  contender : FightingContender
  monster : Monster
  thisContender : FightingContender
  target : TeamMember
  execute : Status → Status
  contender_mem : contender ∈ board.contenders.contenders
  monster_eq : Monster.ofName contender.contenderScripting.contenderName = some monster
  thisContender_mem : thisContender ∈ board.contenders.contenders
  awake : monster = .Sampy → Sampy.decisionStrategy thisContender.status ≠ some 2
  selected : board.partyTeams.selectSuitableMemberOnSideAlive thisContender.getHexagonSideOrient
    (fun current next => DecideTarget.comparator current.status next.status) = some target
  weakened : ∀ status, Weakened status (execute status)

theorem Strike.victim_eq {board : Board C} (strike : board.Strike) :
    board.victim strike.thisContender.getHexagonSideOrient = some strike.target.id := by
  rw [victim, strike.selected, Option.map_some]

structure Turns (board board' : Board C) : Prop where
  noFirstMember : board'.partyTeams.noFirstMember = board.partyTeams.noFirstMember
  contenders : List.Forall₂ FightingContender.Stays board.contenders.contenders
    board'.contenders.contenders
  seen : board'.seen = board.seen ∨ ∃ strike : board.Strike,
    board'.seen = board.seen.map (Seen.struck strike.target.id strike.execute)

theorem stays_affected {effect : Effect} (h : ∀ i status, Rested status (effect.contender i status))
    (chai : C.State) (board : Board C) :
    List.Forall₂ FightingContender.Stays board.contenders.contenders
      (board.affected effect chai).contenders.contenders := by
  rw [affected, List.forall₂_iff_get]
  refine ⟨by simp, ?_⟩
  intro i hi hi'
  simp only [List.get_eq_getElem, List.getElem_mapIdx]
  exact ⟨rfl, rfl, h i _⟩

theorem turns_of_seen_eq {board board' : Board C} (hfirst : board'.partyTeams.noFirstMember =
      board.partyTeams.noFirstMember) (hcontenders : board'.contenders = board.contenders)
    (hseen : board'.seen = board.seen) : Turns board board' := by
  refine ⟨hfirst, ?_, .inl hseen⟩
  rw [hcontenders, List.forall₂_same]
  intro contender _
  exact .refl contender

theorem turns_affected {effect : Effect} (h : ∀ i status, Rested status (effect.contender i status))
    (hmember : (∀ id status, effect.member id status = status) ∨ ∃ strike : board.Strike,
      effect.member = (onMember strike.target.id strike.execute).member)
    (chai : C.State) : Turns board (board.affected effect chai) := by
  refine ⟨noFirstMember_affected effect chai board, stays_affected h chai board, ?_⟩
  rw [seen_affected]
  rcases hmember with hmember | ⟨strike, hmember⟩
  · left
    conv_rhs => rw [← List.map_id board.seen]
    apply List.map_congr_left
    intro seen _
    rw [hmember]
    rfl
  · right
    refine ⟨strike, ?_⟩
    rw [hmember]
    rfl

theorem Touches.turns (engine : RunsMonsters C) (hknown : board.Known)
    (h : board.Touches board') : Turns board board' := by
  cases h with
  | evaluated chai => exact turns_of_seen_eq rfl rfl rfl
  | calledWithStatus function status =>
      obtain ⟨chai', hcall⟩ := engine.callWithStatus_eq function status board.contenders
        board.partyTeams board.chai
      rw [hcall]
      exact turns_affected (fun _ _ => .inl rfl) (.inl fun _ _ => rfl) chai'
  | popped member hmember =>
      exact turns_of_seen_eq (AllyPartyTeams.noFirstMember_setPendingActions _ _ _) rfl
        (seen_popped member board)
  | contenderRan contender hmem function chai heval =>
      obtain ⟨monster, hmonster⟩ := Option.isSome_iff_exists.mp (hknown contender hmem)
      obtain ⟨chai', hcall⟩ := engine.callWithId_eq contender.contenderScripting monster function
        _ _ hmonster heval board.contenders board.partyTeams chai
      rw [hcall]
      rcases monster.runScriptedAction_cases engine.rounding (engine.slash (engine.level function))
        engine.nullTarget contender.contenderScripting.contenderId board.contenders
        board.partyTeams with heffect | heffect |
          ⟨thisContender, target, execute, hthis, hselected, hawake, hweakened, heffect⟩
      · rw [heffect]
        exact turns_affected (fun _ _ => .inl rfl) (.inl fun _ _ => rfl) chai'
      · rw [heffect]
        refine turns_affected ?_ (.inl fun _ _ => rfl) chai'
        intro i status
        unfold onContender
        dsimp only
        split_ifs
        · exact .inr rfl
        · exact .inl rfl
      · rw [heffect]
        refine turns_affected (fun _ _ => .inl rfl) (.inr ⟨⟨contender, monster, thisContender,
          target, execute, hmem, hmonster, List.mem_of_getElem? hthis, hawake, ?_, hweakened⟩,
          rfl⟩) chai'
        exact DecideTarget.Designated.member.inj hselected

end Board

/-! ## The designation sticks -/

theorem Seen.lower_struck {side : Orientation} {seen next : Seen} {execute : Status → Status}
    (hexecute : ∀ status, Weakened status (execute status)) (h : seen.lower side next = false) :
    (seen.struck seen.id execute).lower side next = false := by
  have hle := (hexecute seen.status).current_le
  rw [Seen.struck_self]
  simp only [Seen.lower, guarded, DecideTarget.comparator, Life.isDead, Bool.and_eq_false_iff,
    Bool.not_eq_false', beq_iff_eq, decide_eq_false_iff_not, beq_eq_false_iff_ne, ge_iff_le,
    Nat.not_le] at h ⊢
  rcases h with (hdead | hside) | hlt
  · exact .inl (.inl (Nat.le_zero.mp (hdead ▸ hle)))
  · exact .inl (.inr hside)
  · exact .inr (hle.trans_lt hlt)

theorem Seen.struck_lower {side : Orientation} {seen kept : Seen} {execute : Status → Status}
    (hexecute : ∀ status, Weakened status (execute status)) (h : kept.lower side seen = true) :
    kept.lower side (seen.struck seen.id execute) = true := by
  have hle := (hexecute seen.status).current_le
  rw [Seen.struck_self]
  simp only [Seen.lower, guarded, DecideTarget.comparator, Bool.and_eq_true, decide_eq_true_iff,
    ge_iff_le] at h ⊢
  exact ⟨h.1, hle.trans h.2⟩

namespace Board

variable {board board' : Board C}

/-- As long as all contenders are on one side, a hit changes nothing about who is
designated next. -/
theorem Turns.victim_eq {side : Orientation} (h : Turns board board')
    (hside : ∀ contender ∈ board.contenders.contenders, contender.getHexagonSideOrient = side) :
    board'.victim side = board.victim side := by
  rw [Board.victim_eq, Board.victim_eq, h.noFirstMember]
  rcases h.seen with hseen | ⟨strike, hseen⟩
  · rw [hseen]
  · have hvictim := strike.victim_eq
    rw [hside _ strike.thisContender_mem, Board.victim_eq] at hvictim
    rw [hseen]
    split_ifs at hvictim ⊢
    have hnodup := board.ids_seen_nodup
    cases hboard : board.seen with
    | nil => rfl
    | cons start l =>
        rw [hboard, select_cons, Option.map_some, Option.some.injEq] at hvictim
        rw [hboard] at hnodup
        rw [List.map_cons, select_cons, select_cons, Option.map_some, Option.map_some, ← hvictim,
          best_map_changed (List.Nodup.of_map _ hnodup)]
        · rfl
        · intro x hx hne
          have hid : x.id ≠ (best (Seen.lower side) start l).id := by
            intro hid
            exact hne (List.inj_on_of_nodup_map hnodup hx (best_mem _ _ _) hid)
          exact Seen.struck_of_ne hid
        · intro x
          exact Seen.struck_lower strike.weakened
        · intro x
          exact Seen.lower_struck strike.weakened

/-! ## What a battle leaves of the characters -/

/-- Nobody has more life than before, only the members that `harmed` names may have less, and
nothing else about a member has changed; of a contender a sleep may have set the mana. -/
structure Fades (harmed : Nat → Prop) (board board' : Board C) : Prop where
  contenders : List.Forall₂ FightingContender.Stays board.contenders.contenders
    board'.contenders.contenders
  members : List.Forall₂ (fun seen seen' : Seen => seen'.id = seen.id ∧ seen'.side = seen.side ∧
      Weakened seen.status seen'.status ∧ (¬ harmed seen.id → seen'.status = seen.status))
    board.seen board'.seen

variable {harmed : Nat → Prop}

theorem Fades.refl (harmed : Nat → Prop) (board : Board C) : Fades harmed board board := by
  constructor
  · rw [List.forall₂_same]
    intro contender _
    exact .refl contender
  · rw [List.forall₂_same]
    intro seen _
    exact ⟨rfl, rfl, .refl _, fun _ => rfl⟩

theorem Fades.trans {board'' : Board C} (h : Fades harmed board board')
    (h' : Fades harmed board' board'') : Fades harmed board board'' := by
  constructor
  · exact forall₂_trans (fun _ _ _ => .trans) h.contenders h'.contenders
  · refine forall₂_trans ?_ h.members h'.members
    rintro seen seen' seen'' ⟨hid, hside, hweak, hspared⟩ ⟨hid', hside', hweak', hspared'⟩
    refine ⟨hid'.trans hid, hside'.trans hside, hweak.trans hweak', ?_⟩
    intro hnot
    rw [hspared' (hid ▸ hnot), hspared hnot]

theorem Fades.known (h : Fades harmed board board') (hknown : board.Known) : board'.Known := by
  intro contender' hcontender'
  obtain ⟨contender, hcontender, hstays⟩ := exists_of_mem_right h.contenders hcontender'
  rw [hstays.contenderScripting]
  exact hknown contender hcontender

def OneSided (side : Orientation) (board : Board C) : Prop :=
  ∀ contender ∈ board.contenders.contenders, contender.getHexagonSideOrient = side

theorem Fades.oneSided {side : Orientation} (h : Fades harmed board board')
    (hside : board.OneSided side) : board'.OneSided side := by
  intro contender' hcontender'
  obtain ⟨contender, hcontender, hstays⟩ := exists_of_mem_right h.contenders hcontender'
  unfold FightingContender.getHexagonSideOrient
  rw [hstays.side]
  exact hside contender hcontender

theorem Turns.fades (h : Turns board board') (hharmed : ∀ strike : board.Strike,
    harmed strike.target.id) : Fades harmed board board' := by
  refine ⟨h.contenders, ?_⟩
  rcases h.seen with hseen | ⟨strike, hseen⟩
  · rw [hseen, List.forall₂_same]
    intro seen _
    exact ⟨rfl, rfl, .refl _, fun _ => rfl⟩
  · rw [hseen]
    apply forall₂_map
    intro seen _
    by_cases hid : seen.id = strike.target.id
    · rw [← hid, Seen.struck_self]
      refine ⟨rfl, rfl, strike.weakened seen.status, ?_⟩
      intro hnot
      exact absurd (hid ▸ hharmed strike) hnot
    · rw [Seen.struck_of_ne hid]
      exact ⟨rfl, rfl, .refl _, fun _ => rfl⟩

end Board

/-! ## Battles -/

namespace FightingPit

variable {fuel : Nat} {nows : List Int} {fp : FightingPit C}

theorem battle_fades (engine : RunsMonsters C) (hknown : fp.toBoard.Known) {harmed : Nat → Prop}
    {I : Board C → Prop} (hI : I fp.toBoard)
    (hturns : ∀ board board', fp.toBoard.Fades harmed board → I board → board.Turns board' →
      I board' ∧ ∀ strike : board.Strike, harmed strike.target.id) :
    Keeps (fun fp' => fp.toBoard.Fades harmed fp'.toBoard) (fun turn =>
      fp.toBoard.Fades harmed turn.board) (battle P fuel nows fp) := by
  have hkeeps := battle_touches (P := P) (I := fun board => fp.toBoard.Fades harmed board ∧ I board)
    (fun board board' htouches hboard => by
      have hturn := htouches.turns engine (hboard.1.known hknown)
      obtain ⟨hnext, hharmed⟩ := hturns board board' hboard.1 hboard.2 hturn
      exact ⟨hboard.1.trans (hturn.fades hharmed), hnext⟩)
    fuel nows (show fp.toBoard.Fades harmed fp.toBoard ∧ I fp.toBoard from
      ⟨.refl harmed fp.toBoard, hI⟩)
  exact ⟨fun turn hturn => (hkeeps.log turn hturn).1, fun fp' hfp' => (hkeeps.result fp' hfp').1⟩

def raid (names : List String) : FightingPit (monsterChai ⟨33, by decide⟩) :=
  arranged
    { FightingPit.new .MEDIUM () with
      contenders := ⟨names.mapIdx fun i name => ⟨⟨name, 1, i⟩, ⟨.A, .A_N⟩,
        ((Monster.ofName name).getD .Ogre).setupContender 1 (healthy 0)⟩, names.map fun _ => false⟩
      partyTeams := AllyPartyTeams.empty.addPartyTeam
        ⟨"owner", [recruit "first" .A_N 3, recruit "second" .A_N 5]⟩
      ending := .NOT_FINISHED }

/-- No life rises in a battle, and that of the contenders stays as it is. -/
theorem battle_never_heals (engine : RunsMonsters C) (hknown : fp.toBoard.Known) :
    Keeps (fun fp' => fp.toBoard.Fades (fun _ => True) fp'.toBoard)
      (fun turn => fp.toBoard.Fades (fun _ => True) turn.board) (battle P fuel nows fp) :=
  battle_fades engine hknown (I := fun _ => True) trivial fun _ _ _ _ _ =>
    ⟨trivial, fun _ => trivial⟩

theorem battle_never_heals_raid :
    Keeps (fun fp' => (raid ["Slime", "Sampy"]).toBoard.Fades (fun _ => True) fp'.toBoard)
      (fun turn => (raid ["Slime", "Sampy"]).toBoard.Fades (fun _ => True) turn.board)
      (battle (.unbounded insertionSort) 5 [0, 10000, 20000] (raid ["Slime", "Sampy"])) :=
  battle_never_heals (runsMonsters _) (by unfold Board.Known; decide)

/-- Contenders that all stand on one side hit one member in the whole battle, the one
designated at the start: the others are spared also when it is dead. -/
theorem battle_one_victim (engine : RunsMonsters C) (hknown : fp.toBoard.Known)
    {side : Orientation}
    (hside : ∀ contender ∈ fp.contenders.contenders, contender.getHexagonSideOrient = side) :
    Keeps (fun fp' => fp.toBoard.Fades (fun id => fp.toBoard.victim side = some id) fp'.toBoard)
      (fun turn => fp.toBoard.Fades (fun id => fp.toBoard.victim side = some id) turn.board)
      (battle P fuel nows fp) := by
  refine battle_fades engine hknown
    (I := fun board => board.victim side = fp.toBoard.victim side) rfl ?_
  intro board board' hfades hvictim hturns
  have hsides := hfades.oneSided hside
  refine ⟨(hturns.victim_eq hsides).trans hvictim, ?_⟩
  intro strike
  rw [← hvictim, ← strike.victim_eq, hsides _ strike.thisContender_mem]

theorem battle_one_victim_raid :
    Keeps (fun fp' => (raid ["Slime", "Ogre"]).toBoard.Fades
        (fun id => (raid ["Slime", "Ogre"]).toBoard.victim .A_N = some id) fp'.toBoard)
      (fun turn => (raid ["Slime", "Ogre"]).toBoard.Fades
        (fun id => (raid ["Slime", "Ogre"]).toBoard.victim .A_N = some id) turn.board)
      (battle (.unbounded insertionSort) 5 [0, 10000, 20000] (raid ["Slime", "Ogre"])) :=
  battle_one_victim (runsMonsters _) (by unfold Board.Known; decide) (by decide)

/-- Sampys as they are set up sleep through every battle. -/
theorem battle_sampys_sleep (engine : RunsMonsters C)
    (hsampys : ∀ contender ∈ fp.contenders.contenders,
      contender.contenderScripting.contenderName = "Sampy" ∧
        ∃ level status, contender.status = Monster.Sampy.setupContender level status) :
    Keeps (fun fp' => fp.toBoard.Fades (fun _ => False) fp'.toBoard)
      (fun turn => fp.toBoard.Fades (fun _ => False) turn.board) (battle P fuel nows fp) := by
  have hknown : fp.toBoard.Known := by
    intro contender hcontender
    rw [(hsampys contender hcontender).1]
    rfl
  refine battle_fades engine hknown (I := fun _ => True) trivial ?_
  intro board board' hfades _ _
  refine ⟨trivial, ?_⟩
  intro strike
  obtain ⟨contender, hcontender, hstays⟩ :=
    exists_of_mem_right hfades.contenders strike.contender_mem
  have hmonster := strike.monster_eq
  rw [hstays.contenderScripting, (hsampys contender hcontender).1] at hmonster
  refine strike.awake (Option.some.inj hmonster.symm) ?_
  obtain ⟨other, hother, hstays⟩ :=
    exists_of_mem_right hfades.contenders strike.thisContender_mem
  obtain ⟨level, status, hstatus⟩ := (hsampys other hother).2
  have hlife := hstays.status.life_eq
  rw [hstatus] at hlife
  apply decisionStrategy_unhurt
  · rw [hlife]
    exact Nat.lt_of_lt_of_le (by decide : 0 < 150) (Nat.le_add_right 150 _)
  · rw [hlife]
    rfl

theorem battle_sampys_sleep_raid :
    Keeps (fun fp' => (raid ["Sampy"]).toBoard.Fades (fun _ => False) fp'.toBoard)
      (fun turn => (raid ["Sampy"]).toBoard.Fades (fun _ => False) turn.board)
      (battle (.unbounded insertionSort) 5 [0, 10000, 20000] (raid ["Sampy"])) :=
  battle_sampys_sleep (runsMonsters _) (by
    intro contender hcontender
    rw [List.mem_singleton.mp hcontender]
    exact ⟨rfl, 1, healthy 0, rfl⟩)

end FightingPit

end FyS.Arena
