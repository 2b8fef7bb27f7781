import FyS.Arena.Pit.Runs

/-!
# Actions and served turns

The game loop asks every side about once a second, and up to the deadline of a
turn a side answers with the element it served last.  `continueBattle` runs
whatever it is answered, so the action of a contender is run again by every tick
that falls in its turn.
-/

namespace FyS.Arena

open FyS.Library.Fuel FyS.Library.Trace HexagonSide PriorityOrderList

variable {P : Platform} {C : ChaiScript}

namespace Turn

/-- The action of the contender at `pos` is executed because of `side`. -/
def executes (side : Orientation) (pos : Nat) (turn : Turn C) : Bool :=
  turn.battle.side == side && turn.currentParticipant.key == (pos, true) &&
    decide (pos < turn.board.contenders.getNumberContender)

/-- The list of `side` serves the contender at `pos`. -/
def serves (side : Orientation) (pos : Nat) (turn : Turn C) : Bool :=
  turn.battle.side == side && turn.currentParticipant.key == (pos, true) &&
    decide (turn.battle.deadline turn.now turn.timeInterlude ≤ turn.now)

/-- The action is executed again in a turn that was served before. -/
def repeats (side : Orientation) (pos : Nat) (turn : Turn C) : Bool :=
  turn.executes side pos &&
    !decide (turn.battle.deadline turn.now turn.timeInterlude ≤ turn.now)

/-- The tick falls in the turn of an existing contender. -/
def InContenderTurn (turn : Turn C) : Prop :=
  turn.now < turn.battle.deadline turn.now turn.timeInterlude ∧
    turn.battle.priorityOrderList.currentPrio.isContender = true ∧
    turn.battle.priorityOrderList.currentPrio.id < turn.board.contenders.getNumberContender

theorem executes_iff {side : Orientation} {pos : Nat} {turn : Turn C} :
    turn.executes side pos = true ↔
      turn.battle.side = side ∧ turn.currentParticipant.key = (pos, true) ∧
        pos < turn.board.contenders.getNumberContender := by
  simp only [executes, Bool.and_eq_true, beq_iff_eq, decide_eq_true_eq, and_assoc]

theorem serves_iff {side : Orientation} {pos : Nat} {turn : Turn C} :
    turn.serves side pos = true ↔
      turn.battle.side = side ∧ turn.currentParticipant.key = (pos, true) ∧
        turn.battle.deadline turn.now turn.timeInterlude ≤ turn.now := by
  simp only [serves, Bool.and_eq_true, beq_iff_eq, decide_eq_true_eq, and_assoc]

structure Genuine (n : Nat) (turn : Turn C) : Prop where
  contenders : turn.board.contenders.getNumberContender = n
  early : turn.now < turn.battle.deadline turn.now turn.timeInterlude →
    turn.currentParticipant = turn.battle.priorityOrderList.currentPrio

theorem executed_eq {n : Nat} {turns : List (Turn C)} (h : ∀ turn ∈ turns, turn.Genuine n)
    {pos : Nat} (hpos : pos < n) (side : Orientation) :
    turns.countP (executes side pos) =
      turns.countP (serves side pos) + turns.countP (repeats side pos) := by
  rw [List.countP_eq_countP_filter_add _ _ fun turn =>
    decide (turn.battle.deadline turn.now turn.timeInterlude ≤ turn.now),
    List.countP_filter, List.countP_filter]
  congr 1
  apply List.countP_congr
  intro turn hturn
  rw [Bool.and_eq_true, executes_iff, serves_iff, (h turn hturn).contenders, decide_eq_true_eq]
  constructor
  · rintro ⟨⟨hside, hkey, -⟩, hlate⟩
    exact ⟨hside, hkey, hlate⟩
  · rintro ⟨hside, hkey, hlate⟩
    exact ⟨⟨hside, hkey, hpos⟩, hlate⟩

end Turn

namespace FightingPit

variable {fuel : Nat}

theorem battle_genuine (P : Platform) (fuel : Nat) (nows : List Int) (fp : FightingPit C) :
    ∀ turn ∈ (battle P fuel nows fp).log, turn.Genuine fp.contenders.getNumberContender := by
  let n := fp.contenders.getNumberContender
  have hkeeps : Keeps (fun fp : FightingPit C => fp.contenders.contenders.length = n)
      (Turn.Genuine n) (battle P fuel nows fp) := by
    apply battle_keeps
    · intro now index fp hfp
      apply playSide_keeps hfp
      intro battle currentParticipant battle' hbattle _ hnext
      constructor
      · constructor
        · exact hfp
        · intro hearly
          rcases SideBattle.getCurrentParticipantTurn_cases hnext with ⟨-, h, -⟩ | ⟨hlate, -⟩
          · exact h
          · exact absurd hlate (Int.not_le.mpr hearly)
      · intro board hrun
        exact (Board.kept_length n).execute hfp hrun
    · rfl
  exact hkeeps.log

/-- In every run, the actions that a side executes for a contender outnumber at no
moment the turns that its list serves it, exactly when no tick falls in the turn
of an existing contender. -/
theorem one_action_per_turn_iff (P : Platform) (fuel : Nat) (nows : List Int)
    (fp : FightingPit C) :
    (∀ turns, turns <+: (battle P fuel nows fp).log → ∀ side pos,
        turns.countP (Turn.executes side pos) ≤ turns.countP (Turn.serves side pos)) ↔
      ∀ turn ∈ (battle P fuel nows fp).log, ¬ turn.InContenderTurn := by
  have hgenuine := battle_genuine P fuel nows fp
  constructor
  · intro h turn hturn ⟨hearly, hkind, hid⟩
    let current := turn.battle.priorityOrderList.currentPrio
    have hrepeats : turn.repeats turn.battle.side current.id = true := by
      rw [Turn.repeats, Bool.and_eq_true, Turn.executes_iff]
      refine ⟨⟨rfl, ?_, hid⟩, by simpa using hearly⟩
      rw [(hgenuine turn hturn).early hearly]
      exact Prod.ext rfl hkind
    have hcount : 0 < (battle P fuel nows fp).log.countP
        (Turn.repeats turn.battle.side current.id) :=
      List.countP_pos_iff.mpr ⟨turn, hturn, hrepeats⟩
    have hexists : current.id < fp.contenders.getNumberContender := by
      rw [← (hgenuine turn hturn).contenders]
      exact hid
    have hsplit := Turn.executed_eq hgenuine hexists turn.battle.side
    have hle := h _ List.prefix_rfl turn.battle.side current.id
    omega
  · intro h turns hprefix side pos
    apply List.countP_mono_left
    intro turn hturn hexec
    obtain ⟨hside, hkey, hpos⟩ := Turn.executes_iff.mp hexec
    have hmem := hprefix.subset hturn
    apply Turn.serves_iff.mpr
    refine ⟨hside, hkey, ?_⟩
    by_contra hearly
    have hearly := Int.not_le.mp hearly
    rw [(hgenuine turn hmem).early hearly] at hkey
    obtain ⟨rfl, hkind⟩ := Prod.mk.inj hkey
    exact h turn hmem ⟨hearly, hkind, hpos⟩

def lair : FightingPit (constantChai harmless) :=
  arranged (assembled harmless [monster 0 .A_N 3] [])

/-- A second after its first turn began, the monster has acted twice. -/
theorem action_repeated_in_turn :
    ¬ ∀ (fp fp' : FightingPit (constantChai harmless)) (fuel : Nat) (nows : List Int),
      fp.sideBattles = [] →
      Returns (fun fuel => initializeSideBattles (.unbounded insertionSort) fuel fp) fp' →
      fp'.ending = .NOT_FINISHED → nows.Pairwise (· ≤ ·) →
      ∀ turns, turns <+: (battle (.unbounded insertionSort) fuel nows fp').log → ∀ side pos,
        turns.countP (Turn.executes side pos) ≤ turns.countP (Turn.serves side pos) := by
  intro h
  have hle := h (assembled harmless [monster 0 .A_N 3] []) lair 5 [0, 10000, 11000] rfl ⟨0, rfl⟩
    rfl (by decide) _ List.prefix_rfl .A_N 0
  exact absurd hle (by decide)

/-! ## Ticks that lie a turn apart -/

def Waiting (nows : List Int) (sb : SideBattle) : Prop :=
  (sb.started = false ∧ sb.priorityOrderList.currentPrio.isContender = false) ∨
    (sb.started = true ∧ ∀ now ∈ nows, sb.endCurrentTurn ≤ now)

theorem Waiting.tail {now : Int} {nows : List Int} {sb : SideBattle}
    (h : Waiting (now :: nows) sb) : Waiting nows sb := by
  apply h.imp_right
  rintro ⟨hstarted, hends⟩
  exact ⟨hstarted, fun later hlater => hends later (List.mem_cons_of_mem _ hlater)⟩

theorem Waiting.asked {now timerInterlude : Int} {nows : List Int} {sb sb' : SideBattle}
    {e : PriorityElem} (h : Waiting (now :: nows) sb)
    (hapart : ∀ later ∈ nows, now + timerInterlude ≤ later)
    (hnext : sb.getCurrentParticipantTurn P fuel now timerInterlude = .ok (e, sb')) :
    (now < sb.deadline now timerInterlude →
        sb.priorityOrderList.currentPrio.isContender = false) ∧
      Waiting nows sb' := by
  have hdeadline : sb.started = true → sb.deadline now timerInterlude = sb.endCurrentTurn := by
    intro hstarted
    rw [SideBattle.deadline, SideBattle.start, if_pos hstarted]
  constructor
  · intro hearly
    rcases h with ⟨-, hkind⟩ | ⟨hstarted, hends⟩
    · exact hkind
    · have := hends now List.mem_cons_self
      rw [hdeadline hstarted] at hearly
      omega
  · right
    rcases SideBattle.getCurrentParticipantTurn_cases hnext with
      ⟨hearly, -, rfl⟩ | ⟨-, priorityOrderList, -, rfl⟩
    · have hfresh : sb.started = false := by
        rcases h with ⟨hfresh, -⟩ | ⟨hstarted, hends⟩
        · exact hfresh
        · have := hends now List.mem_cons_self
          rw [hdeadline hstarted] at hearly
          omega
      rw [SideBattle.start, hfresh]
      exact ⟨rfl, hapart⟩
    · refine ⟨?_, hapart⟩
      show (sb.start now timerInterlude).started = true
      rw [SideBattle.start]
      split
      · assumption
      · rfl

structure Underway (timerInterlude now : Int) (nows : List Int) (indices : List Nat)
    (fp : FightingPit C) : Prop where
  interlude : fp.timeInterlude = timerInterlude
  nodup : indices.Nodup
  waiting : ∀ i sb, fp.sideBattles[i]? = some sb →
    Waiting (if i ∈ indices then now :: nows else nows) sb

theorem playSide_underway {timerInterlude now : Int} {nows : List Int}
    (hapart : ∀ later ∈ nows, now + timerInterlude ≤ later) {index : Nat} {indices : List Nat}
    {fp : FightingPit C} (h : Underway timerInterlude now nows (index :: indices) fp) :
    Keeps (Underway timerInterlude now nows indices)
      (fun turn : Turn C => ¬ turn.InContenderTurn) (playSide P fuel now index fp) := by
  obtain ⟨hnew, hnodup⟩ := List.nodup_cons.mp h.nodup
  have hpassed (i : Nat) (sb : SideBattle) (hsb : fp.sideBattles[i]? = some sb) :
      Waiting (if i ∈ indices then now :: nows else nows) sb := by
    have hwaiting := h.waiting i sb hsb
    by_cases hi : i ∈ indices
    · rw [if_pos (List.mem_cons_of_mem _ hi)] at hwaiting
      rw [if_pos hi]
      exact hwaiting
    · rw [if_neg hi]
      split at hwaiting
      · exact hwaiting.tail
      · exact hwaiting
  apply playSide_keeps ⟨h.interlude, hnodup, hpassed⟩
  intro battle currentParticipant battle' hbattle _ hnext
  have hwaiting := h.waiting index battle hbattle
  rw [if_pos List.mem_cons_self] at hwaiting
  rw [h.interlude] at hnext
  obtain ⟨hkind, hwaits⟩ := hwaiting.asked hapart hnext
  constructor
  · rintro ⟨hearly, hcontender, -⟩
    rw [h.interlude] at hearly
    exact absurd hcontender (by simp [hkind hearly])
  · intro board _
    refine ⟨h.interlude, hnodup, fun i sb hsb => ?_⟩
    rcases eq_or_ne index i with rfl | hi
    · rw [List.getElem?_set_self' , hbattle] at hsb
      obtain rfl := Option.some.inj hsb
      rw [if_neg hnew]
      exact hwaits
    · rw [List.getElem?_set_ne hi] at hsb
      exact hpassed i sb hsb

/-- Between two ticks every side waits for the ticks to come, which lie apart. -/
structure Apart (timerInterlude : Int) (nows : List Int) (fp : FightingPit C) : Prop where
  interlude : fp.timeInterlude = timerInterlude
  ticks : nows.Pairwise fun now later => now + timerInterlude ≤ later
  waiting : ∀ sb ∈ fp.sideBattles, Waiting nows sb

theorem continueBattle_apart {timerInterlude now : Int} {nows : List Int} {fp : FightingPit C}
    (h : Apart timerInterlude (now :: nows) fp) :
    Keeps (Apart timerInterlude nows) (fun turn : Turn C => ¬ turn.InContenderTurn)
      (continueBattle P fuel now fp) := by
  obtain ⟨hnow, hticks⟩ := List.pairwise_cons.mp h.ticks
  unfold continueBattle
  split
  · constructor
    · exact List.forall_mem_nil _
    · intro fp' hfp'
      rw [← Except.ok.inj hfp']
      exact ⟨h.interlude, hticks, fun sb hsb => (h.waiting sb hsb).tail⟩
  · have hstart : Underway timerInterlude now nows (List.range fp.sideBattles.length) fp := by
      refine ⟨h.interlude, List.nodup_range, fun i sb hsb => ?_⟩
      rw [if_pos (List.mem_range.mpr (List.getElem?_eq_some_iff.mp hsb).1)]
      exact h.waiting sb (List.mem_of_getElem? hsb)
    have hrun : Keeps _ _ (runs (playSide P fuel now) (List.range fp.sideBattles.length) fp) :=
      Keeps.runs_remaining (R := Underway timerInterlude now nows)
        (fun index indices fp hunderway => playSide_underway hnow hunderway) _ hstart
    refine ⟨hrun.log, fun fp' hfp' => ?_⟩
    have hend := hrun.result fp' hfp'
    refine ⟨hend.interlude, hticks, fun sb hsb => ?_⟩
    obtain ⟨i, hi⟩ := List.mem_iff_getElem?.mp hsb
    exact hend.waiting i sb hi

theorem no_repeat_of_apart {fp fp' : FightingPit C} (hfresh : fp.sideBattles = [])
    (hinit : Returns (fun fuel => initializeSideBattles P fuel fp) fp') {nows : List Int}
    (hapart : nows.Pairwise fun now later => now + fp'.timeInterlude ≤ later) :
    ∀ turn ∈ (battle P fuel nows fp').log, ¬ turn.InContenderTurn := by
  have hstart : Apart fp'.timeInterlude nows fp' := by
    refine ⟨rfl, hapart, fun sb hsb => ?_⟩
    obtain ⟨base, -, rfl⟩ := initializeSideBattles_cases hfresh hinit
    obtain ⟨side, -, rfl⟩ := List.mem_map.mp hsb
    exact .inl ⟨rfl, rfl⟩
  have hrun : Keeps _ _ (battle P fuel nows fp') :=
    Keeps.runs_remaining (R := Apart fp'.timeInterlude)
      (fun now nows fp h => continueBattle_apart h) nows hstart
  exact hrun.log

end FightingPit

end FyS.Arena
