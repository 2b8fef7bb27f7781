import FyS.Arena.FightingPitLayout

/-!
# Moves on the board of a pit

The tables of `HexagonSide.cpp` against the geometry of the three hexagons: which sides touch,
and what a character reaches that turns left and right and goes back.
-/

namespace FyS.Arena

open FyS.Library.HexGrid FyS.Library.Observation HexagonSide

namespace HexagonSide

def Touch (side other : Orientation) : Prop :=
  ∃ s ∈ locate side, ∃ t ∈ locate other, s.Touch t

instance (side other : Orientation) : Decidable (Touch side other) :=
  inferInstanceAs (Decidable (∃ s ∈ locate side, ∃ t ∈ locate other, s.Touch t))

/-- What is missing in the table of `A_N`: the two sides of hexagon B that it touches. -/
def Unlisted (side other : Orientation) : Prop := side = .A_N ∧ (other = .B_NW ∨ other = .B_SW)

instance (side other : Orientation) : Decidable (Unlisted side other) :=
  inferInstanceAs (Decidable (_ ∧ (_ ∨ _)))

theorem mem_orientations (side : Orientation) : side ∈ orientations := by
  cases side <;> decide

theorem mem_hexagons (hexagon : Hexagon) : hexagon ∈ [Hexagon.A, .B, .C] := by
  cases hexagon <;> decide

/-! ## Which moves are accepted -/

theorem canMove_table : ∀ hexagon ∈ [Hexagon.A, .B, .C], ∀ side ∈ orientations,
    ∀ destinationSide ∈ orientations,
      canMove ⟨hexagon, side⟩ destinationSide = decide (Placed ⟨hexagon, side⟩ ∧
        destinationSide ≠ side ∧ Touch side destinationSide ∧ ¬ Unlisted side destinationSide) := by
  decide +kernel

/-- A character that stands on a side can move to the other sides that touch it, except from
the north of hexagon A to hexagon B.  Otherwise it cannot move at all. -/
theorem canMove_iff (hs : HexagonSide) (destinationSide : Orientation) :
    hs.canMove destinationSide = true ↔
      hs.Placed ∧ destinationSide ≠ hs.side ∧ Touch hs.side destinationSide ∧
        ¬ Unlisted hs.side destinationSide := by
  obtain ⟨hexagon, side⟩ := hs
  rw [canMove_table hexagon (mem_hexagons _) side (mem_orientations _) destinationSide
    (mem_orientations _), decide_eq_true_iff]

/-- `isSideAdjacentSide`, as `ChaiRegister` binds it. -/
def isSideAdjacentSide (lhs rhs : Orientation) : Bool := (new lhs).canMove rhs

theorem touch_symm {side other : Orientation} (h : Touch side other) : Touch other side := by
  obtain ⟨s, hs, t, ht, htouch⟩ := h
  exact ⟨t, ht, s, hs, htouch.symm⟩

theorem new_eq {side : Orientation} (h : side ≠ .NONE) :
    (new side).Placed ∧ (new side).side = side := by
  cases side <;> first | exact ⟨rfl, rfl⟩ | exact absurd rfl h

theorem isSideAdjacentSide_iff (lhs rhs : Orientation) :
    isSideAdjacentSide lhs rhs = true ↔ lhs ≠ rhs ∧ Touch lhs rhs ∧ ¬ Unlisted lhs rhs := by
  rw [isSideAdjacentSide, canMove_iff]
  by_cases hnone : lhs = .NONE
  · rw [hnone]
    constructor
    · rintro ⟨hplaced, -⟩
      cases hplaced
    · rintro ⟨-, ⟨_, hs, -⟩, -⟩
      cases hs
  · obtain ⟨hplaced, hside⟩ := new_eq hnone
    rw [hside]
    simp only [hplaced, true_and, ne_comm]

/-- What the moves and the scripts take for adjacent: sides that touch, read from the table of
the first one.  So it is symmetric but for the two sides that the north of hexagon A leaves
out. -/
theorem adjacent_sides :
    (∀ (hs : HexagonSide) (destinationSide : Orientation), hs.canMove destinationSide = true ↔
      hs.Placed ∧ destinationSide ≠ hs.side ∧ Touch hs.side destinationSide ∧
        ¬ Unlisted hs.side destinationSide) ∧
    (∀ lhs rhs, isSideAdjacentSide lhs rhs = true ↔
      lhs ≠ rhs ∧ Touch lhs rhs ∧ ¬ Unlisted lhs rhs) ∧
    ∀ lhs rhs, isSideAdjacentSide lhs rhs = isSideAdjacentSide rhs lhs ↔
      ¬ Unlisted lhs rhs ∧ ¬ Unlisted rhs lhs := by
  refine ⟨canMove_iff, isSideAdjacentSide_iff, ?_⟩
  intro lhs rhs
  have hswap : lhs ≠ rhs ∧ Touch lhs rhs ↔ rhs ≠ lhs ∧ Touch rhs lhs :=
    and_congr ne_comm ⟨touch_symm, touch_symm⟩
  have hunlisted (lhs rhs : Orientation) (h : Unlisted lhs rhs) :
      (lhs ≠ rhs ∧ Touch lhs rhs) ∧ ¬ Unlisted rhs lhs := by
    obtain ⟨rfl, rfl | rfl⟩ := h <;> decide +kernel
  rw [Bool.eq_iff_iff, isSideAdjacentSide_iff, isSideAdjacentSide_iff, ← and_assoc, ← and_assoc,
    ← hswap]
  constructor
  · intro heq
    constructor
    · intro h
      have hother := hunlisted lhs rhs h
      exact (heq.mpr hother).2 h
    · intro h
      have hother := hunlisted rhs lhs h
      rw [← hswap] at hother
      exact (heq.mp hother).2 h
  · rintro ⟨h, h'⟩
    rw [and_iff_left h, and_iff_left h']

theorem changeSide_placed (hs : HexagonSide) {destination : Orientation}
    (h : destination ≠ .NONE) : (hs.changeSide destination).Placed := by
  cases destination <;> first | rfl | exact absurd rfl h

theorem changeSide_side (hs : HexagonSide) (destination : Orientation) :
    (hs.changeSide destination).side = destination := by
  cases destination <;> rfl

theorem ne_none_of_touch {side other : Orientation} (h : Touch side other) : other ≠ .NONE := by
  rintro rfl
  obtain ⟨_, -, t, ht, -⟩ := h
  cases ht

theorem move_cases (hs : HexagonSide) (destinationSide : Orientation) :
    hs.move destinationSide false = (false, hs) ∨
      hs.move destinationSide false = (true, hs.changeSide destinationSide) ∧ hs.Placed ∧
        (hs.changeSide destinationSide).Placed ∧ destinationSide ≠ hs.side ∧
        Touch hs.side destinationSide := by
  by_cases hcan : hs.canMove destinationSide = true
  · obtain ⟨hplaced, hother, htouch, -⟩ := (hs.canMove_iff destinationSide).mp hcan
    have hside := ne_none_of_touch htouch
    refine .inr ⟨?_, hplaced, hs.changeSide_placed hside, hother, htouch⟩
    rw [move, if_pos]
    simp [hcan, hside]
  · left
    rw [move, if_neg]
    simp [hcan]

/-! ## Any unforced moves -/

inductive Command where
  | move (destinationSide : Orientation)
  | moveLeft
  | moveRight
  | moveBack
deriving DecidableEq, Repr

def obey (hs : HexagonSide) : Command → Bool × HexagonSide
  | .move destinationSide => hs.move destinationSide false
  | .moveLeft => hs.moveLeft
  | .moveRight => hs.moveRight
  | .moveBack => hs.moveBack

structure Steps (hs : HexagonSide) (r : Bool × HexagonSide) : Prop where
  refused : r.1 = false → r.2 = hs
  accepted : r.1 = true → hs.Placed ∧ r.2.Placed ∧ r.2.side ≠ hs.side ∧ Touch hs.side r.2.side

theorem steps_refused (hs : HexagonSide) : Steps hs (false, hs) where
  refused _ := rfl
  accepted h := nomatch h

theorem steps_move (hs : HexagonSide) (destinationSide : Orientation) :
    Steps hs (hs.move destinationSide false) := by
  rcases hs.move_cases destinationSide with h | ⟨h, hplaced, hplaced', hother, htouch⟩
  · rw [h]
    exact hs.steps_refused
  · rw [h]
    constructor
    · intro hrefused
      cases hrefused
    · intro _
      rw [changeSide_side]
      exact ⟨hplaced, hplaced', hother, htouch⟩

theorem steps_moveTo (hs : HexagonSide) (found : Option Orientation) :
    Steps hs (hs.moveTo found) := by
  cases found with
  | none => exact hs.steps_refused
  | some destinationSide => exact hs.steps_move destinationSide

theorem steps_obey (hs : HexagonSide) (command : Command) : Steps hs (hs.obey command) := by
  cases command with
  | move destinationSide => exact hs.steps_move destinationSide
  | moveLeft => exact hs.steps_moveTo _
  | moveRight => exact hs.steps_moveTo _
  | moveBack => exact hs.steps_move _

theorem placed_obey {hs : HexagonSide} (h : hs.Placed) (command : Command) :
    (hs.obey command).2.Placed := by
  have hsteps := hs.steps_obey command
  cases hanswer : (hs.obey command).1 with
  | false => rwa [hsteps.refused hanswer]
  | true => exact (hsteps.accepted hanswer).2.1

theorem obey_of_not_placed {hs : HexagonSide} (h : ¬ hs.Placed) (command : Command) :
    hs.obey command = (false, hs) := by
  have hsteps := hs.steps_obey command
  cases hanswer : (hs.obey command).1 with
  | false => exact Prod.ext hanswer (hsteps.refused hanswer)
  | true => exact absurd (hsteps.accepted hanswer).1 h

/-- Whatever was ordered before, a refused move changes nothing and an accepted one leads to
another side that touches.  Who stands on the board never leaves it, and who does not is never
moved. -/
theorem unforced_moves (hs : HexagonSide) (before : List Command) (command : Command) :
    Steps (after obey hs before) ((after obey hs before).obey command) ∧
      (hs.Placed → (after obey hs (before ++ [command])).Placed) ∧
      (¬ hs.Placed → after obey hs (before ++ [command]) = hs ∧
        ∀ answer ∈ observe obey hs (before ++ [command]), answer = false) := by
  refine ⟨steps_obey _ command, ?_, ?_⟩
  · intro h
    exact after_keeps (I := Placed) (fun s c hs => placed_obey hs c) h _
  · intro h
    constructor
    · refine after_keeps (I := fun s => s = hs) ?_ rfl _
      intro s c hs
      rw [hs, obey_of_not_placed h]
    · intro answer hanswer
      generalize before ++ [command] = commands at hanswer
      induction commands with
      | nil => cases hanswer
      | cons c commands ih =>
          rw [observe, obey_of_not_placed h] at hanswer
          rcases List.mem_cons.mp hanswer with rfl | hanswer
          · rfl
          · exact ih hanswer

/-! ## Left, right and back -/

def walk : MoveDirection → Move
  | .LEFT => .left
  | .RIGHT => .right
  | .BACK => .across

def turnBack : MoveDirection → MoveDirection
  | .LEFT => .RIGHT
  | .RIGHT => .LEFT
  | .BACK => .BACK

theorem walk_turnBack (direction : MoveDirection) :
    walk (turnBack direction) = (walk direction).undo := by
  cases direction <;> rfl

def Stands (hs : HexagonSide) (s : Side) : Prop := hs.Placed ∧ locate hs.side = some s

instance (hs : HexagonSide) (s : Side) : Decidable (Stands hs s) :=
  inferInstanceAs (Decidable (_ ∧ _))

theorem exists_stands {hs : HexagonSide} (h : hs.Placed) : ∃ s, Stands hs s := by
  obtain ⟨hexagon, side⟩ := hs
  cases side with
  | NONE => cases h
  | _ => exact ⟨_, h, rfl⟩

theorem board_of_stands {hs : HexagonSide} {s : Side} (h : Stands hs s) : Board s.cell := by
  obtain ⟨hexagon, side⟩ := hs
  obtain ⟨-, hlocate⟩ := h
  cases side <;> cases hlocate <;> decide

theorem locate_inj : ∀ side ∈ orientations, ∀ other ∈ orientations,
    locate side = locate other → place side = place other ∧ side = other := by
  decide +kernel

theorem eq_of_stands {hs hs' : HexagonSide} {s : Side} (h : Stands hs s) (h' : Stands hs' s) :
    hs = hs' := by
  obtain ⟨hexagon, side⟩ := hs
  obtain ⟨hexagon', side'⟩ := hs'
  obtain ⟨hplaced, hlocate⟩ := h
  obtain ⟨hplaced', hlocate'⟩ := h'
  obtain ⟨-, rfl⟩ := locate_inj side (mem_orientations _) side' (mem_orientations _)
    (hlocate.trans hlocate'.symm)
  have hsame : some hexagon = some hexagon' := hplaced.symm.trans hplaced'
  rw [Option.some.inj hsame]

/-- `findLeft`, `findRight` and `findBack` against the geometry. -/
theorem move_table : ∀ direction ∈ [MoveDirection.BACK, .RIGHT, .LEFT],
    ∀ hexagon ∈ [Hexagon.A, .B, .C], ∀ side ∈ orientations, ∀ s ∈ locate side,
      Placed ⟨hexagon, side⟩ →
        (FightingPitLayout.move ⟨hexagon, side⟩ direction).1 = (step Board s (walk direction)).1 ∧
          Stands (FightingPitLayout.move ⟨hexagon, side⟩ direction).2
            (step Board s (walk direction)).2 := by
  decide +kernel

theorem move_walks {hs : HexagonSide} {s : Side} (h : Stands hs s) (direction : MoveDirection) :
    (FightingPitLayout.move hs direction).1 = (step Board s (walk direction)).1 ∧
      Stands (FightingPitLayout.move hs direction).2 (step Board s (walk direction)).2 := by
  obtain ⟨hexagon, side⟩ := hs
  refine move_table direction ?_ hexagon (mem_hexagons _) side (mem_orientations _) s h.2 h.1
  cases direction <;> decide

theorem after_walk (s : Side) (directions : List MoveDirection) :
    after (fun s direction => step Board s (walk direction)) s directions =
      after (step Board) s (directions.map walk) := by
  rw [after, after, List.foldl_map]

/-- In every run of moves a character does what a walker does on the three hexagons: it is
refused alike, and stands where the walker stands. -/
theorem moves_walk {hs : HexagonSide} {s : Side} (h : Stands hs s)
    (directions : List MoveDirection) :
    observe FightingPitLayout.move hs directions =
        observe (fun s direction => step Board s (walk direction)) s directions ∧
      Stands (after FightingPitLayout.move hs directions)
        (after (step Board) s (directions.map walk)) := by
  have hsame (hs : HexagonSide) (s : Side) (direction : MoveDirection) (h : Stands hs s) :=
    move_walks h direction
  refine ⟨observe_eq hsame h directions, ?_⟩
  rw [← after_walk]
  exact after_rel hsame h directions

theorem moves_walk_south_of_b :
    observe FightingPitLayout.move ⟨.B, .B_S⟩ [.BACK, .LEFT, .BACK] =
        observe (fun s direction => step Board s (walk direction)) ⟨(1, -1), .S⟩
          [.BACK, .LEFT, .BACK] ∧
      Stands (after FightingPitLayout.move ⟨.B, .B_S⟩ [.BACK, .LEFT, .BACK])
        (after (step Board) ⟨(1, -1), .S⟩ [.across, .left, .across]) :=
  moves_walk (show Stands ⟨.B, .B_S⟩ ⟨(1, -1), .S⟩ by decide) [.BACK, .LEFT, .BACK]

/-- The way of a character that is walked back, each move turned round, ends where it began. -/
theorem moves_turnBack {hs : HexagonSide} (h : hs.Placed) (directions : List MoveDirection) :
    after FightingPitLayout.move (after FightingPitLayout.move hs directions)
      (directions.reverse.map turnBack) = hs := by
  obtain ⟨s, hs⟩ := exists_stands h
  have hthere := (moves_walk hs directions).2
  have hback := (moves_walk hthere (directions.reverse.map turnBack)).2
  have hmoves : (directions.reverse.map turnBack).map walk =
      (directions.map walk).reverse.map Move.undo := by
    rw [List.map_map, ← List.map_reverse, List.map_map]
    exact List.map_congr_left fun direction _ => walk_turnBack direction
  rw [hmoves, after_undo (board_of_stands hs)] at hback
  exact eq_of_stands hback hs

theorem moves_turnBack_south_of_b :
    after FightingPitLayout.move
        (after FightingPitLayout.move ⟨.B, .B_S⟩ [.BACK, .LEFT, .BACK, .RIGHT])
      ([.BACK, .LEFT, .BACK, .RIGHT].reverse.map turnBack) = ⟨.B, .B_S⟩ :=
  moves_turnBack (show Placed ⟨.B, .B_S⟩ by decide) [.BACK, .LEFT, .BACK, .RIGHT]

theorem board_connected {c d : Int × Int} (hc : Board c) (hd : Board d) :
    Relation.ReflTransGen (Neighbour Board) c d := by
  have hpairs : ∀ c ∈ [Hexagon.A.cell, Hexagon.B.cell, Hexagon.C.cell],
      ∀ d ∈ [Hexagon.A.cell, Hexagon.B.cell, Hexagon.C.cell],
        d = c ∨ ∃ direction ∈ [Direction.N, .NE, .SE, .S, .SW, .NW],
          d = c + direction.offset := by
    decide
  rcases hpairs c hc d hd with rfl | ⟨direction, -, h⟩
  · exact .refl
  · exact .single ⟨hd, direction, h⟩

theorem exists_directions (moves : List Move) :
    ∃ directions : List MoveDirection, moves = directions.map walk := by
  induction moves with
  | nil => exact ⟨[], rfl⟩
  | cons m moves ih =>
      obtain ⟨directions, rfl⟩ := ih
      cases m with
      | left => exact ⟨.LEFT :: directions, rfl⟩
      | right => exact ⟨.RIGHT :: directions, rfl⟩
      | across => exact ⟨.BACK :: directions, rfl⟩

/-- From any side of the board, turning and going back lead to every other. -/
theorem exists_moves {hs hs' : HexagonSide} (h : hs.Placed) (h' : hs'.Placed) :
    ∃ directions, after FightingPitLayout.move hs directions = hs' := by
  obtain ⟨s, hs⟩ := exists_stands h
  obtain ⟨t, ht⟩ := exists_stands h'
  obtain ⟨moves, hmoves⟩ := exists_walk (board_connected (board_of_stands hs) (board_of_stands ht))
  obtain ⟨directions, rfl⟩ := exists_directions moves
  refine ⟨directions, eq_of_stands ?_ ht⟩
  have hwalk := (moves_walk hs directions).2
  rwa [hmoves] at hwalk

theorem exists_moves_to_south_of_c :
    ∃ directions, after FightingPitLayout.move ⟨.B, .B_S⟩ directions = ⟨.C, .C_S⟩ :=
  exists_moves (show Placed ⟨.B, .B_S⟩ by decide) (show Placed ⟨.C, .C_S⟩ by decide)

end HexagonSide

/-! ## Placing a character -/

namespace FightingPitLayout

inductive Event where
  | setInitiatePosition (side : Orientation)
  | command (order : Command)
deriving DecidableEq, Repr

def happen (characterSide : HexagonSide) : Event → HexagonSide
  | .setInitiatePosition side => setInitiatePosition characterSide side
  | .command order => (characterSide.obey order).2

def Event.asCommand : Event → Option Command
  | .setInitiatePosition _ => none
  | .command order => some order

def Event.Idle (event : Event) : Prop := ∀ side, event = .setInitiatePosition side → side = .NONE

/-- Before it is placed a character stands nowhere, whatever it is told. -/
theorem happen_idle {event : Event} (h : event.Idle) : happen ⟨.A, .NONE⟩ event = ⟨.A, .NONE⟩ := by
  cases event with
  | setInitiatePosition side =>
      rw [h side rfl]
      rfl
  | command order => rw [happen, obey_of_not_placed (by decide)]

theorem foldl_idle {events : List Event} (h : ∀ event ∈ events, event.Idle) :
    events.foldl happen ⟨.A, .NONE⟩ = ⟨.A, .NONE⟩ := by
  induction events with
  | nil => rfl
  | cons event events ih =>
      obtain ⟨hfirst, hrest⟩ := List.forall_mem_cons.mp h
      rw [List.foldl_cons, happen_idle hfirst]
      exact ih hrest

theorem foldl_placed {hs : HexagonSide} (h : hs.Placed) (events : List Event) :
    events.foldl happen hs = after obey hs (events.filterMap Event.asCommand) := by
  induction events generalizing hs with
  | nil => rfl
  | cons event events ih =>
      cases event with
      | setInitiatePosition side =>
          have hside : hs.side ≠ .NONE := by
            intro hnone
            rw [Placed, hnone] at h
            cases h
          have hkept : happen hs (.setInitiatePosition side) = hs := if_pos hside
          rw [List.foldl_cons, hkept, List.filterMap_cons_none rfl]
          exact ih h
      | command order =>
          have hordered : (Event.command order).asCommand = some order := rfl
          rw [List.foldl_cons, List.filterMap_cons_some hordered]
          exact ih (placed_obey h order)

/-- A character is placed once: nothing moves it before, and afterwards it goes by its moves
alone, from the side on which it was placed first. -/
theorem placed_once (before : List Event) (side : Orientation) (afterwards : List Event)
    (hbefore : ∀ event ∈ before, event.Idle) (hside : side ≠ .NONE) :
    before.foldl happen ⟨.A, .NONE⟩ = ⟨.A, .NONE⟩ ∧
      (before ++ .setInitiatePosition side :: afterwards).foldl happen ⟨.A, .NONE⟩ =
        after obey (HexagonSide.new side) (afterwards.filterMap Event.asCommand) := by
  refine ⟨foldl_idle hbefore, ?_⟩
  rw [List.foldl_append, foldl_idle hbefore, List.foldl_cons]
  exact foldl_placed (new_eq hside).1 afterwards

theorem placed_once_south_of_b :
    [Event.command .moveLeft].foldl happen ⟨.A, .NONE⟩ = ⟨.A, .NONE⟩ ∧
      ([Event.command .moveLeft] ++
          Event.setInitiatePosition .B_S :: [.command .moveBack, .setInitiatePosition .A_N]).foldl
            happen ⟨.A, .NONE⟩ =
        after obey (HexagonSide.new .B_S) [.moveBack] :=
  placed_once [.command .moveLeft] .B_S [.command .moveBack, .setInitiatePosition .A_N]
    (by
      intro event hevent side heq
      rw [List.mem_singleton.mp hevent] at heq
      cases heq)
    (by decide)

end FightingPitLayout

end FyS.Arena
