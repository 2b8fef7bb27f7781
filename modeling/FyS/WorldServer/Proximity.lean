import FyS.Library.BinaryFormat
import FyS.WorldServer.PlayersData

/-!
# Players around a position

The last comparison of the box test reads `x` where it should read `y`, the corners of the box
are rounded, and the index that is ignored by default is one that a player has.  Who is found
around a position, and who hears about a move, in any arithmetic that rounds as `double` does.
-/

namespace FyS.WorldServer

open FyS.Library FyS.Library.FirstMatches

variable {n : Nat} {R : Rounding}

namespace PlayersData

def within (a b distance : Floating R) : Prop := (a.value.sub b.value).abs < distance.value

instance (a b distance : Floating R) : Decidable (within a b distance) :=
  inferInstanceAs (Decidable (_ < _))

theorem within_comm (a b distance : Floating R) : within a b distance ↔ within b a distance := by
  unfold within
  rw [Value.abs_sub_symm]

def isNear (position other : PlayerInfo (Floating R)) (distance : Floating R) : Bool :=
  decide (within position.x other.x distance) && decide (within position.y other.y distance)

def firstNear (position : PlayerInfo (Floating R)) (distance : Floating R) (ignoreIndex : Nat)
    (data : PlayersData (Floating R) n) : List (Fin n) :=
  firstMatches (fun i => decide (i.val ≠ ignoreIndex) && isNear position (data.positions i) distance)
    LIMIT_NOTIFICATIONS_MOVE (List.finRange n)

def precede (p : Fin n → Bool) (i : Fin n) : Nat := passedBelow p (List.finRange n) i

theorem finRange_ascending (n : Nat) : (List.finRange n).Pairwise (· < ·) :=
  List.pairwise_lt_finRange n

/-! ## The scan -/

section Scan

variable {K : Type} [Add K] [Sub K] [NatCast K] [LT K] [DecidableLT K]

theorem arroundLoop_eq (position : PlayerInfo K) (distance : K) (ignoreIndex : Nat)
    (data : PlayersData K n) (indices playerIdts : List (Fin n)) :
    arroundLoop position distance ignoreIndex data indices playerIdts =
      scan (fun i => decide (i.val ≠ ignoreIndex) &&
        isArround position (data.positions i) distance) LIMIT_NOTIFICATIONS_MOVE indices
          playerIdts := by
  induction indices generalizing playerIdts with
  | nil => rfl
  | cons i rest ih =>
      rw [arroundLoop, scan]
      by_cases hfull : LIMIT_NOTIFICATIONS_MOVE ≤ playerIdts.length
      · rw [if_pos hfull, if_pos hfull]
      · rw [if_neg hfull, if_neg hfull]
        by_cases hignore : i.val = ignoreIndex
        · rw [if_pos hignore, ih]
          simp [hignore]
        · rw [if_neg hignore, ih, ih]
          cases isArround position (data.positions i) distance with
          | true => simp [hignore]
          | false => simp

theorem getPlayerIdtsArroundPos_eq (position : PlayerInfo K) (distance : K) (ignoreIndex : Nat)
    (data : PlayersData K n) :
    data.getPlayerIdtsArroundPos position distance ignoreIndex =
      firstMatches (fun i => decide (i.val ≠ ignoreIndex) &&
        isArround position (data.positions i) distance) LIMIT_NOTIFICATIONS_MOVE
          (List.finRange n) := by
  rw [getPlayerIdtsArroundPos, arroundLoop_eq, scan_eq]
  rfl

end Scan

/-- No corner of the box around the other is rounded to the coordinate it is compared with. -/
structure CornersClear (position other : PlayerInfo (Floating R)) (distance : Floating R) :
    Prop where
  left : other.x - distance ≠ position.x
  right : other.x + distance ≠ position.x
  low : other.y - distance ≠ position.y
  high : other.y + distance ≠ position.x

/-- What the test is: one comparison of the second coordinate is one of the first, and a corner
that is rounded to a coordinate is not clear of it. -/
theorem isArround_iff {position other : PlayerInfo (Floating R)} {distance : Floating R} :
    isArround position other distance = true ↔
      within position.x other.x distance ∧
        other.y.value.sub distance.value < position.y.value ∧
          CornersClear position other distance ∧
            position.x.value < other.y.value.add distance.value := by
  unfold isArround within
  simp only [Bool.and_eq_true, decide_eq_true_eq, gt_iff_lt, Floating.sub_lt_iff,
    Floating.lt_add_iff, Value.abs_sub_lt_iff]
  constructor
  · rintro ⟨⟨⟨hleft, hleft'⟩, hright, hright'⟩, ⟨hlow, hlow'⟩, hhigh, hhigh'⟩
    exact ⟨⟨hleft, hright⟩, hlow, ⟨hleft', hright', hlow', hhigh'⟩, hhigh⟩
  · rintro ⟨⟨hleft, hright⟩, hlow, hclear, hhigh⟩
    exact ⟨⟨⟨hleft, hclear.left⟩, hright, hclear.right⟩, ⟨hlow, hclear.low⟩, hhigh, hclear.high⟩

theorem isNear_iff {position other : PlayerInfo (Floating R)} {distance : Floating R} :
    isNear position other distance = true ↔
      within position.x other.x distance ∧
        other.y.value.sub distance.value < position.y.value ∧
          position.y.value < other.y.value.add distance.value := by
  unfold isNear
  rw [Bool.and_eq_true, decide_eq_true_iff, decide_eq_true_iff]
  exact and_congr_right fun _ => Value.abs_sub_lt_iff _ _ _

/-! ## Who is found -/

/-- Of a player who is close in `x` and not too far below, as long as the limit is not
reached before him: the position is as far left of his upper bound as it is below it, the
corners being clear. -/
def SeenRightly (position : PlayerInfo (Floating R)) (distance : Floating R) (ignoreIndex : Nat)
    (data : PlayersData (Floating R) n) : Prop :=
  ∀ i : Fin n, i.val ≠ ignoreIndex → within position.x (data.positions i).x distance →
    (data.positions i).y.value.sub distance.value < position.y.value →
    precede (fun k => decide (k.val ≠ ignoreIndex) && isNear position (data.positions k) distance) i
      < LIMIT_NOTIFICATIONS_MOVE →
    (CornersClear position (data.positions i) distance ∧
        position.x.value < (data.positions i).y.value.add distance.value ↔
      position.y.value < (data.positions i).y.value.add distance.value)

theorem firstNear_iff (position : PlayerInfo (Floating R)) (distance : Floating R) (ignoreIndex : Nat)
    (data : PlayersData (Floating R) n) :
    data.getPlayerIdtsArroundPos position distance ignoreIndex =
        data.firstNear position distance ignoreIndex ↔
      data.SeenRightly position distance ignoreIndex := by
  rw [getPlayerIdtsArroundPos_eq, firstNear, firstMatches_eq_iff (finRange_ascending n)]
  have hsame (i : Fin n) :
      (decide (i.val ≠ ignoreIndex) && isArround position (data.positions i) distance) =
          (decide (i.val ≠ ignoreIndex) && isNear position (data.positions i) distance) ↔
        (i.val ≠ ignoreIndex → within position.x (data.positions i).x distance →
          (data.positions i).y.value.sub distance.value < position.y.value →
          (CornersClear position (data.positions i) distance ∧
              position.x.value < (data.positions i).y.value.add distance.value ↔
            position.y.value < (data.positions i).y.value.add distance.value)) := by
    rw [Bool.eq_iff_iff, Bool.and_eq_true, Bool.and_eq_true, isArround_iff, isNear_iff,
      decide_eq_true_iff]
    tauto
  constructor
  · intro h i hne hx hy hlt
    exact (hsame i).mp (h i (List.mem_finRange i) hlt) hne hx hy
  · intro h i _ hlt
    exact (hsame i).mpr fun hne hx hy => h i hne hx hy hlt

theorem isNear_comm (position other : PlayerInfo (Floating R)) (distance : Floating R) :
    isNear position other distance = isNear other position distance := by
  unfold isNear
  rw [decide_eq_decide.mpr (within_comm position.x other.x distance),
    decide_eq_decide.mpr (within_comm position.y other.y distance)]

theorem mem_arroundPlayer {data : PlayersData (Floating R) n} {distance : Floating R} {i j : Fin n}
    (h : data.SeenRightly (data.positions i) distance i)
    (hlimit : (data.getPlayerIdtsArroundPlayer i none distance).length < LIMIT_NOTIFICATIONS_MOVE) :
    j ∈ data.getPlayerIdtsArroundPlayer i none distance ↔
      j ≠ i ∧ isNear (data.positions i) (data.positions j) distance = true := by
  have hfirst : data.getPlayerIdtsArroundPlayer i none distance =
      data.firstNear (data.positions i) distance i := (firstNear_iff _ _ _ _).mpr h
  rw [hfirst] at hlimit ⊢
  rw [firstNear, firstMatches_of_lt hlimit]
  simp [Fin.ext_iff]

/-- The players found are the right ones exactly as long as none is misjudged, and then
finding is mutual where the limit is not reached. -/
theorem players_around_iff (data : PlayersData (Floating R) n) :
    (∀ (position : PlayerInfo (Floating R)) (distance : Floating R) (ignoreIndex : Nat),
      data.getPlayerIdtsArroundPos position distance ignoreIndex =
          data.firstNear position distance ignoreIndex ↔
        data.SeenRightly position distance ignoreIndex) ∧
      ∀ (distance : Floating R) (i j : Fin n), data.SeenRightly (data.positions i) distance i →
        data.SeenRightly (data.positions j) distance j →
        (data.getPlayerIdtsArroundPlayer i none distance).length < LIMIT_NOTIFICATIONS_MOVE →
        (data.getPlayerIdtsArroundPlayer j none distance).length < LIMIT_NOTIFICATIONS_MOVE →
        (i ∈ data.getPlayerIdtsArroundPlayer j none distance ↔
          j ∈ data.getPlayerIdtsArroundPlayer i none distance) := by
  refine ⟨fun position distance ignoreIndex => firstNear_iff position distance ignoreIndex data, ?_⟩
  intro distance i j hi hj hlimiti hlimitj
  rw [mem_arroundPlayer hi hlimiti, mem_arroundPlayer hj hlimitj, isNear_comm, ne_comm]

def spot (x y : Nat) : PlayerInfo Double := ⟨x, y, (0 : Nat)⟩

def inRow (n x y : Nat) : PlayersData Double n :=
  ⟨fun i => spot (x + i.val) y, fun _ => .STANDING, fun i => toString i.val⟩

theorem players_around_iff_row :
    (inRow 2 3 4).getPlayerIdtsArroundPos (spot 3 4) (30 : Nat) 0 =
        (inRow 2 3 4).firstNear (spot 3 4) (30 : Nat) 0 ↔
      (inRow 2 3 4).SeenRightly (spot 3 4) (30 : Nat) 0 :=
  (players_around_iff (inRow 2 3 4)).1 (spot 3 4) (30 : Nat) 0

/-- A neighbour is not found far to the right. -/
theorem neighbour_not_found :
    ¬ ∀ (n : Nat) (data : PlayersData Double n) (position : PlayerInfo Double)
      (distance : Double) (ignoreIndex : Nat), (0 : Nat) < distance →
      data.getPlayerIdtsArroundPos position distance ignoreIndex =
        data.firstNear position distance ignoreIndex := by
  intro h
  have hseen := h 2 (inRow 2 100 0) (spot 100 0) (30 : Nat) 0
    (by decide +kernel)
  exact absurd hseen (by decide +kernel)

-- Far out the upper bound of a neighbour is rounded to the position.
example :
    (inRow 1 18014398509481988 200000000000000000).getPlayerIdtsArroundPos
        (spot 18014398509482016 200000000000000000) (30 : Nat) 1 = [] ∧
      (inRow 1 18014398509481988 200000000000000000).firstNear
        (spot 18014398509482016 200000000000000000) (30 : Nat) 1 = [0] := by
  decide +kernel

end PlayersData

/-! ## Who hears about a move -/

namespace WorldServerEngine

open PlayersData

variable (trig : Trigonometry (Floating R)) (canMoveTo : Floating R → Floating R → Nat → Bool)

def afterMove (i : Fin n) (data : PlayersData (Floating R) n) : PlayersData (Floating R) n :=
  data.setPlace i (futurePos trig (data.positions i)).x (futurePos trig (data.positions i)).y

def nearOther (data : PlayersData (Floating R) n) (i k : Fin n) : Bool :=
  decide (k ≠ i) && isNear (data.positions i) (data.positions k) DEFAULT_DISTANCE

def heard (data : PlayersData (Floating R) n) (i k : Fin n) : Bool :=
  decide (k.val ≠ LIMIT_NOTIFICATIONS_MOVE) &&
    isArround (data.positions i) (data.positions k) DEFAULT_DISTANCE

/-- What the test asks of a place near another one: the corners are clear, and the place is not
too far to the right. -/
structure TestFits (position other : PlayerInfo (Floating R)) : Prop where
  clear : CornersClear position other DEFAULT_DISTANCE
  left : position.x.value < other.y.value.add (DEFAULT_DISTANCE : Floating R).value

/-- Who moves does not hear about it himself, and the first others near him do. -/
structure HearsRightly (i : Fin n) (after : PlayersData (Floating R) n) (notified : List (List (Fin n))) :
    Prop where
  not_self : ∀ ids ∈ notified, i ∉ ids
  others : ∀ j, nearOther after i j = true →
    precede (nearOther after i) j < LIMIT_NOTIFICATIONS_MOVE → ∃ ids ∈ notified, j ∈ ids

/-- Who moves has the index that is ignored, or fails the test himself, or comes too late
in it; of the first others near him nobody does.  Who is at no numbers is not near himself. -/
structure MoveFits (i : Fin n) (after : PlayersData (Floating R) n) : Prop where
  self : i.val = LIMIT_NOTIFICATIONS_MOVE ∨
    ¬ (isNear (after.positions i) (after.positions i) DEFAULT_DISTANCE = true ∧
        TestFits (after.positions i) (after.positions i)) ∨
      LIMIT_NOTIFICATIONS_MOVE ≤ precede (heard after i) i
  others : ∀ j, nearOther after i j = true →
    precede (nearOther after i) j < LIMIT_NOTIFICATIONS_MOVE →
      j.val ≠ LIMIT_NOTIFICATIONS_MOVE ∧ TestFits (after.positions i) (after.positions j) ∧
        precede (heard after i) j < LIMIT_NOTIFICATIONS_MOVE

theorem mem_clients_iff {data : PlayersData (Floating R) n} {i j : Fin n} :
    j ∈ data.getPlayerIdtsArroundPos (data.positions i) DEFAULT_DISTANCE
        LIMIT_NOTIFICATIONS_MOVE ↔
      heard data i j = true ∧ precede (heard data i) j < LIMIT_NOTIFICATIONS_MOVE := by
  rw [getPlayerIdtsArroundPos_eq, mem_firstMatches_iff (finRange_ascending n)]
  exact and_iff_right (List.mem_finRange j)

/-- What an accepted move notifies is what the scan finds, if that is anything. -/
theorem movePlayerAction_accepted {i : Fin n} {data : PlayersData (Floating R) n}
    (h : canMoveTo (futurePos trig (data.positions i)).x (futurePos trig (data.positions i)).y 0 =
      true) :
    (movePlayerAction trig canMoveTo i data).1 = afterMove trig i data ∧
      ∀ j, (∃ ids ∈ (movePlayerAction trig canMoveTo i data).2, j ∈ ids) ↔
        j ∈ (afterMove trig i data).getPlayerIdtsArroundPos ((afterMove trig i data).positions i)
          DEFAULT_DISTANCE LIMIT_NOTIFICATIONS_MOVE := by
  unfold movePlayerAction
  simp only [h, if_true]
  refine ⟨rfl, fun j => ?_⟩
  unfold afterMove
  split_ifs with hempty
  · rw [List.isEmpty_iff.mp hempty]
    simp
  · simp

theorem heard_iff {data : PlayersData (Floating R) n} {i j : Fin n}
    (h : isNear (data.positions i) (data.positions j) DEFAULT_DISTANCE = true) :
    heard data i j = true ↔
      j.val ≠ LIMIT_NOTIFICATIONS_MOVE ∧ TestFits (data.positions i) (data.positions j) := by
  obtain ⟨hx, hlow, -⟩ := isNear_iff.mp h
  rw [heard, Bool.and_eq_true, decide_eq_true_iff, isArround_iff]
  constructor
  · rintro ⟨hne, -, -, hclear, hlt⟩
    exact ⟨hne, hclear, hlt⟩
  · rintro ⟨hne, hclear, hlt⟩
    exact ⟨hne, hx, hlow, hclear, hlt⟩

/-- A player who passes the test around himself is near himself. -/
theorem heard_self {data : PlayersData (Floating R) n} {i : Fin n} :
    heard data i i = true ↔ i.val ≠ LIMIT_NOTIFICATIONS_MOVE ∧
      isNear (data.positions i) (data.positions i) DEFAULT_DISTANCE = true ∧
        TestFits (data.positions i) (data.positions i) := by
  constructor
  · intro h
    have htest := h
    rw [heard, Bool.and_eq_true, isArround_iff] at htest
    obtain ⟨-, hx, hlow, -⟩ := htest
    have hnear : isNear (data.positions i) (data.positions i) DEFAULT_DISTANCE = true :=
      isNear_iff.mpr ⟨hx, hlow, (Value.sub_lt_self_iff _ _).mp hlow⟩
    obtain ⟨hne, hfits⟩ := (heard_iff hnear).mp h
    exact ⟨hne, hnear, hfits⟩
  · rintro ⟨hne, hnear, hfits⟩
    exact (heard_iff hnear).mpr ⟨hne, hfits⟩

/-- The right players hear about an accepted move exactly when the move fits. -/
theorem hears_rightly_iff (i : Fin n) (data : PlayersData (Floating R) n)
    (h : canMoveTo (futurePos trig (data.positions i)).x (futurePos trig (data.positions i)).y 0 =
      true) :
    HearsRightly i (movePlayerAction trig canMoveTo i data).1
        (movePlayerAction trig canMoveTo i data).2 ↔
      MoveFits i (afterMove trig i data) := by
  obtain ⟨hdata, hnotified⟩ := movePlayerAction_accepted trig canMoveTo h
  rw [hdata]
  have hself : (∀ ids ∈ (movePlayerAction trig canMoveTo i data).2, i ∉ ids) ↔
      i.val = LIMIT_NOTIFICATIONS_MOVE ∨
        ¬ (isNear ((afterMove trig i data).positions i) ((afterMove trig i data).positions i)
              DEFAULT_DISTANCE = true ∧
            TestFits ((afterMove trig i data).positions i) ((afterMove trig i data).positions i)) ∨
          LIMIT_NOTIFICATIONS_MOVE ≤ precede (heard (afterMove trig i data) i) i := by
    have hmem := (hnotified i).trans mem_clients_iff
    rw [heard_self] at hmem
    have hnot : (∀ ids ∈ (movePlayerAction trig canMoveTo i data).2, i ∉ ids) ↔
        ¬ ∃ ids ∈ (movePlayerAction trig canMoveTo i data).2, i ∈ ids := by
      simp
    rw [hnot, hmem, not_and_or, not_and_or, not_not, not_lt, or_assoc]
  have hother (j : Fin n) (hnear : nearOther (afterMove trig i data) i j = true) :
      (∃ ids ∈ (movePlayerAction trig canMoveTo i data).2, j ∈ ids) ↔
        j.val ≠ LIMIT_NOTIFICATIONS_MOVE ∧
          TestFits ((afterMove trig i data).positions i) ((afterMove trig i data).positions j) ∧
            precede (heard (afterMove trig i data) i) j < LIMIT_NOTIFICATIONS_MOVE := by
    rw [nearOther, Bool.and_eq_true] at hnear
    rw [hnotified, mem_clients_iff, heard_iff hnear.2, and_assoc]
  constructor
  · intro hhears
    exact ⟨hself.mp hhears.not_self, fun j hnear hlt => (hother j hnear).mp (hhears.others j hnear hlt)⟩
  · intro hfits
    exact ⟨hself.mpr hfits.self, fun j hnear hlt => (hother j hnear).mpr (hfits.others j hnear hlt)⟩

theorem hears_rightly_iff_row :
    HearsRightly 0 (movePlayerAction .straight (fun _ _ _ => true) 0 (inRow 2 3 4)).1
        (movePlayerAction .straight (fun _ _ _ => true) 0 (inRow 2 3 4)).2 ↔
      MoveFits 0 (afterMove .straight 0 (inRow 2 3 4)) :=
  hears_rightly_iff .straight (fun _ _ _ => true) 0 (inRow 2 3 4) rfl

/-- The only player hears about his own move. -/
theorem hears_himself :
    ¬ ∀ (n : Nat) (trig : Trigonometry Double) (canMoveTo : Double → Double → Nat → Bool)
      (data : PlayersData Double n) (i : Fin n),
      canMoveTo (futurePos trig (data.positions i)).x (futurePos trig (data.positions i)).y 0 =
        true →
      HearsRightly i (movePlayerAction trig canMoveTo i data).1
        (movePlayerAction trig canMoveTo i data).2 := by
  intro h
  have hhears := h 1 .straight (fun _ _ _ => true) (inRow 1 3 4) 0 rfl
  have hclients : (0 : Fin 1) ∈ (afterMove .straight 0 (inRow 1 3 4)).getPlayerIdtsArroundPos
      ((afterMove .straight 0 (inRow 1 3 4)).positions 0) DEFAULT_DISTANCE
        LIMIT_NOTIFICATIONS_MOVE := by
    decide +kernel
  obtain ⟨ids, hids, hmem⟩ :=
    ((movePlayerAction_accepted .straight (fun _ _ _ => true) rfl).2 0).mpr hclients
  exact hhears.not_self ids hids hmem

end WorldServerEngine

end FyS.WorldServer
