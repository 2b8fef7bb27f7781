import FyS.Library.BinaryFormat
import FyS.WorldServer.MapLookups
import FyS.WorldServer.ServerLoop

/-!
# Players on a map

The loop of a server on its map, in an arithmetic that rounds as `double` does.  The products
of a move bring nobody further out, so all depends on where the players stand at first, and
on directions that have a cosine and a sine.
-/

namespace FyS.WorldServer

open FyS.Library FyS.Library.Trace

variable {n : Nat} {R : Rounding}

def CollisionMap.moves (map : CollisionMap) (x y : Floating R) (level : Nat) :
    Except Fault Bool :=
  map.canMoveTo x.value y.value level

/-- `std::cos` and `std::sin` of `double`: of size at most one, or NaN. -/
structure BoundedTrigonometry (R : Rounding) extends Trigonometry (Floating R) where
  cos_le : ∀ angle, (cos angle).AtMostOne
  sin_le : ∀ angle, (sin angle).AtMostOne

/-! ## Nobody gets further out -/

def NotFurther (start v : Floating R) : Prop :=
  v = start ∨ ∃ p q, start.value = .number p ∧ v.value = .number q ∧ |q| ≤ |p|

theorem NotFurther.trans {a b c : Floating R} (hab : NotFurther a b) (hbc : NotFurther b c) :
    NotFurther a c := by
  rcases hbc with rfl | ⟨p, q, hb, hc, hle⟩
  · exact hab
  · rcases hab with rfl | ⟨p', q', ha, hb', hle'⟩
    · exact .inr ⟨p, q, hb, hc, hle⟩
    · obtain rfl := Value.number.inj (hb'.symm.trans hb)
      exact .inr ⟨p', q, ha, hc, hle.trans hle'⟩

/-- How far a player that started there can have got: not further out on either axis, and
only to a place that the map allows. -/
structure CollisionMap.Leads (map : CollisionMap) (start pi : PlayerInfo (Floating R)) : Prop where
  x : NotFurther start.x pi.x
  y : NotFurther start.y pi.y
  allowed : (pi.x = start.x ∧ pi.y = start.y) ∨ map.moves pi.x pi.y 0 = .ok true

theorem CollisionMap.Leads.refl (map : CollisionMap) (pi : PlayerInfo (Floating R)) :
    map.Leads pi pi :=
  ⟨.inl rfl, .inl rfl, .inl ⟨rfl, rfl⟩⟩

theorem CollisionMap.numbers_of_canMoveTo {map : CollisionMap} {x y : Value} {level : Nat}
    (h : map.canMoveTo x y level = .ok true) : ∃ p q, x = .number p ∧ y = .number q := by
  by_cases hpasses : map.Passes x y
  · unfold canMoveTo at h
    rw [if_neg hpasses] at h
    cases x with
    | number p =>
        cases y with
        | number q => exact ⟨p, q, rfl, rfl⟩
        | _ => cases h
    | _ => cases h
  · rw [canMoveTo_of_not_passes hpasses] at h
    cases h

namespace WorldServerEngine

theorem futurePos_eq (trig : Trigonometry (Floating R)) (pi : PlayerInfo (Floating R)) :
    (futurePos trig pi).x = pi.x * trig.cos pi.angle ∧
      (futurePos trig pi).y = pi.y * trig.sin pi.angle := by
  unfold futurePos velocity
  simp only [Floating.natCast_one_mul, and_self]

theorem leads_moved (trig : BoundedTrigonometry R) {map : CollisionMap}
    {start pi : PlayerInfo (Floating R)} (h : map.Leads start pi) :
    map.Leads start (moved trig.toTrigonometry (allowed map.moves) pi) := by
  obtain ⟨hx, hy⟩ := futurePos_eq trig.toTrigonometry pi
  unfold moved
  split_ifs with hallowed
  · have hok := of_decide_eq_true hallowed
    obtain ⟨p, q, hp, hq⟩ := CollisionMap.numbers_of_canMoveTo hok
    rw [hx] at hp
    rw [hy] at hq
    obtain ⟨p', hp', hple⟩ := (trig.cos_le pi.angle).mul_number hp
    obtain ⟨q', hq', hqle⟩ := (trig.sin_le pi.angle).mul_number hq
    refine ⟨h.x.trans (.inr ⟨p', p, hp', ?_, hple⟩), h.y.trans (.inr ⟨q', q, hq', ?_, hqle⟩),
      .inr hok⟩
    · rw [hx, hp]
    · rw [hy, hq]
  · exact h

end WorldServerEngine

theorem Row.next_status {K : Type} [Mul K] [NatCast K] (trig : Trigonometry K)
    (canMoveTo : K → K → Nat → Bool) (row : Row K) (message : Option (String × Action K)) :
    (row.next trig canMoveTo message).status = (message.elim row row.told).status := by
  unfold Row.next
  dsimp only
  split_ifs <;> rfl

theorem Row.next_angle {K : Type} [Mul K] [NatCast K] (trig : Trigonometry K)
    (canMoveTo : K → K → Nat → Bool) (row : Row K) (message : Option (String × Action K)) :
    (row.next trig canMoveTo message).position.angle =
      (message.elim row row.told).position.angle := by
  unfold Row.next
  dsimp only
  split_ifs
  · exact Row.moved_angle _
  · rfl

theorem Row.leads_next (trig : BoundedTrigonometry R) {map : CollisionMap}
    {start : PlayerInfo (Floating R)} (row : Row (Floating R)) (h : map.Leads start row.position)
    (message : Option (String × Action (Floating R))) :
    map.Leads start
      (row.next trig.toTrigonometry (allowed map.moves) message).position := by
  have hround (row : Row (Floating R)) (hrow : map.Leads start row.position) :
      map.Leads start (row.next trig.toTrigonometry (allowed map.moves) none).position := by
    unfold Row.next
    dsimp only [Option.elim]
    split_ifs
    · exact WorldServerEngine.leads_moved trig hrow
    · exact hrow
  cases message with
  | none => exact hround row h
  | some said =>
      obtain ⟨idt, content⟩ := said
      have htold : map.Leads start (row.told (idt, content)).position := by
        cases content with
        | Move table => cases table <;> exact ⟨h.x, h.y, h.allowed⟩
        | _ => exact ⟨h.x, h.y, h.allowed⟩
      exact hround _ htold

namespace Players

/-- On a map, whatever the messages and however many rounds: no player gets further out, on
either axis, than he stood at first, and who stands elsewhere stands where the map allows it. -/
theorem nobody_gets_further_out (trig : BoundedTrigonometry R) (map : CollisionMap)
    (players : Players (Floating R) n) (polls : List (Polled (Floating R))) :
    Keeps (fun after : Players (Floating R) n =>
        ∀ i, map.Leads (players.data.positions i) (after.data.positions i))
      (fun _ => True)
      (runs (pollAndExecute trig.toTrigonometry map.moves) polls players) := by
  apply Keeps.runs
  · intro polled before hbefore
    refine ⟨fun _ _ => trivial, ?_⟩
    intro after hafter i
    have hrow := (pollAndExecute_spec hafter).2 i
    have hnext := Row.leads_next trig (before.data.row i) (hbefore i)
      (polled.saidTo before.tokenToIndex i)
    rwa [← hrow] at hnext
  · exact fun i => .refl map (players.data.positions i)

end Players

/-! ## Reads of the grid -/

theorem floor_lt_iff {x : Rat} (hx : -1 < x) (m : Nat) : ⌊x⌋₊ < m ↔ |x| < m := by
  by_cases hnonneg : 0 ≤ x
  · rw [Nat.floor_lt hnonneg, abs_of_nonneg hnonneg]
  · have hneg : x < 0 := not_le.mp hnonneg
    rw [Nat.floor_of_nonpos hneg.le, abs_of_neg hneg]
    constructor
    · intro hm
      have hone : (1 : Rat) ≤ m := by exact_mod_cast hm
      linarith
    · intro hm
      have hpos : (0 : Rat) < m := by linarith
      exact_mod_cast hpos

theorem MapElement.canGoThrough_isOk (elem : MapElement) (x y : Rat) :
    (elem.canGoThrough x y 0).isOk = true := by
  unfold canGoThrough canGoToLevel
  rw [if_pos rfl, Fuel.ok_bind]
  split_ifs <;> rfl

structure OnGrid (tileCount : Vector2u) (pi : PlayerInfo (Floating R)) : Prop where
  x : ∃ p, pi.x.value = .number p ∧ |p| < tileCount.y
  y : ∃ q, pi.y.value = .number q ∧ |q| < tileCount.x

theorem NotFurther.lt {a b : Floating R} (h : NotFurther a b) {bound : Rat}
    (ha : ∃ p, a.value = .number p ∧ |p| < bound) : ∃ q, b.value = .number q ∧ |q| < bound := by
  obtain ⟨p, hp, hlt⟩ := ha
  rcases h with rfl | ⟨p', q, hp', hq, hle⟩
  · exact ⟨p, hp, hlt⟩
  · obtain rfl := Value.number.inj (hp'.symm.trans hp)
    exact ⟨q, hq, hle.trans_lt hlt⟩

namespace CollisionMap

variable {map : CollisionMap} {tileCount : Vector2u} {x y : Rat}

/-- Boundaries that begin above -1, where nothing is cut off to a wrong row. -/
theorem canMoveTo_isOk_iff (hsize : OfSize tileCount map.mapElems)
    (hX : -1 < map.boundaryX.1) (hY : -1 < map.boundaryY.1) (hpasses : map.Passes (.number x) (.number y)) :
    (map.canMoveTo (.number x) (.number y) 0).isOk = true ↔ |x| < tileCount.y ∧ |y| < tileCount.x := by
  obtain ⟨⟨hxlow, -⟩, hylow, -⟩ := passes_number_iff.mp hpasses
  have hx : -1 < x := hX.trans_le hxlow
  have hy : -1 < y := hY.trans_le hylow
  have hlarge {v : Rat} {count : Nat} (hcount : count < 4294967296)
      (hv : ¬ v < 18446744073709551616) : ¬ |v| < count := by
    intro hlt
    have hbound : (count : Rat) < 4294967296 := by exact_mod_cast hcount
    have := le_abs_self v
    linarith
  rw [canMoveTo_of_passes hpasses]
  unfold elemAt
  by_cases hxlt : x < 18446744073709551616
  · by_cases hylt : y < 18446744073709551616
    · have hi : toUnsignedLong x = some ⌊x⌋₊ := if_pos ⟨hx, hxlt⟩
      have hj : toUnsignedLong y = some ⌊y⌋₊ := if_pos ⟨hy, hylt⟩
      rw [hi, hj, ← floor_lt_iff hx, ← floor_lt_iff hy, ← hsize]
      dsimp only
      cases Grid.cell map.mapElems ⌊x⌋₊ ⌊y⌋₊ with
      | none => exact ⟨nofun, nofun⟩
      | some elem => exact ⟨fun _ => rfl, fun _ => elem.canGoThrough_isOk x y⟩
    · have hj : toUnsignedLong y = none := if_neg fun h => hylt h.2
      rw [hj]
      constructor
      · cases toUnsignedLong x <;> exact nofun
      · intro h
        exact absurd h.2 (hlarge tileCount.x_lt hylt)
  · have hi : toUnsignedLong x = none := if_neg fun h => hxlt h.2
    rw [hi]
    exact ⟨nofun, fun h => absurd h.1 (hlarge tileCount.y_lt hxlt)⟩

end CollisionMap

namespace Players

def Addressed (players : Players (Floating R) n) (i : Fin n) : Prop :=
  ∃ token, players.tokenToIndex.lookup token = some i

end Players

structure Trigonometry.Defined (trig : Trigonometry (Floating R)) (angle : Floating R) : Prop where
  cos : (trig.cos angle).value ≠ .nan
  sin : (trig.sin angle).value ≠ .nan

/-- A move that is sent carries its table, with a direction that has a cosine and a sine. -/
def Polled.Directs (trig : Trigonometry (Floating R)) : Polled (Floating R) → Prop
  | .message frames => ∀ table, frames.content = .Move table →
      ∃ direction, table = some direction ∧ trig.Defined direction
  | _ => True

namespace Players

variable {trig : BoundedTrigonometry R} {map : CollisionMap} {tileCount : Vector2u}

/-- Who can be sent about stands where the grid can be read, and nobody else moves. -/
structure Grounded (trig : BoundedTrigonometry R) (tileCount : Vector2u)
    (players : Players (Floating R) n) : Prop where
  placed : ∀ i, players.Addressed i → OnGrid tileCount (players.data.positions i)
  moving : ∀ i, players.data.status i = .MOVING →
    players.Addressed i ∧ trig.Defined (players.data.positions i).angle

theorem heard_place (polled : Polled (Floating R)) (players : Players (Floating R) n) (i : Fin n) :
    (players.heard polled i).position.x = (players.data.positions i).x ∧
      (players.heard polled i).position.y = (players.data.positions i).y := by
  unfold heard
  cases polled.saidTo players.tokenToIndex i with
  | none => exact ⟨rfl, rfl⟩
  | some said =>
      obtain ⟨idt, content⟩ := said
      cases content with
      | Move table => cases table <;> exact ⟨rfl, rfl⟩
      | _ => exact ⟨rfl, rfl⟩

theorem content_of_saidTo {polled : Polled (Floating R)} {players : Players (Floating R) n}
    {i : Fin n} {idt : String} {content : Action (Floating R)}
    (h : polled.saidTo players.tokenToIndex i = some (idt, content)) :
    players.Addressed i ∧ ∃ frames, polled = .message frames ∧ frames.content = content := by
  cases polled with
  | nothing => cases h
  | illFormed parts => cases h
  | message frames =>
      unfold Polled.saidTo at h
      dsimp only at h
      split_ifs at h with hlookup
      exact ⟨⟨frames.token, hlookup.2⟩, frames, rfl, (Prod.mk.inj (Option.some.inj h)).2⟩

theorem Grounded.heard_moving {players : Players (Floating R) n}
    (h : players.Grounded trig tileCount) {polled : Polled (Floating R)}
    (hdirects : polled.Directs trig.toTrigonometry) {i : Fin n}
    (hmoving : (players.heard polled i).status = .MOVING) :
    players.Addressed i ∧ trig.Defined (players.heard polled i).position.angle := by
  unfold heard at hmoving ⊢
  cases hsaid : polled.saidTo players.tokenToIndex i with
  | none =>
      rw [hsaid] at hmoving
      exact h.moving i hmoving
  | some said =>
      obtain ⟨idt, content⟩ := said
      obtain ⟨haddressed, frames, rfl, rfl⟩ := content_of_saidTo hsaid
      rw [hsaid] at hmoving
      refine ⟨haddressed, ?_⟩
      cases hcontent : frames.content with
      | Move table =>
          obtain ⟨direction, rfl, hdefined⟩ := hdirects table hcontent
          exact hdefined
      | Interruption =>
          rw [hcontent] at hmoving
          cases hmoving
      | NONE =>
          rw [hcontent] at hmoving
          exact (h.moving i hmoving).2
      | PnjInteract =>
          rw [hcontent] at hmoving
          exact (h.moving i hmoving).2

theorem Grounded.succeeds {players : Players (Floating R) n}
    (h : players.Grounded trig tileCount) (hsize : OfSize tileCount map.mapElems)
    (hX : -1 < map.boundaryX.1) (hY : -1 < map.boundaryY.1) {polled : Polled (Floating R)}
    (hdirects : polled.Directs trig.toTrigonometry) :
    (pollAndExecute trig.toTrigonometry map.moves polled players).result.isOk = true := by
  rw [pollAndExecute_isOk_iff]
  constructor
  · rintro ⟨i, idt, hlacks⟩
    obtain ⟨-, frames, rfl, hcontent⟩ := content_of_saidTo hlacks
    obtain ⟨direction, hnone, -⟩ := hdirects none hcontent
    cases hnone
  · intro i hmoving
    obtain ⟨haddressed, hcos, hsin⟩ := h.heard_moving hdirects hmoving
    obtain ⟨⟨p, hp, hplt⟩, q, hq, hqlt⟩ := h.placed i haddressed
    obtain ⟨hxsame, hysame⟩ := heard_place polled players i
    have hplace := WorldServerEngine.futurePos_eq trig.toTrigonometry
      (players.heard polled i).position
    rw [← hxsame] at hp
    rw [← hysame] at hq
    obtain ⟨g, hg, hgle⟩ := (trig.cos_le _).mul_value hcos hp
    obtain ⟨k, hk, hkle⟩ := (trig.sin_le _).mul_value hsin hq
    unfold WorldServerEngine.lookup CollisionMap.moves
    rw [hplace.1, hplace.2, hg, hk]
    by_cases hpasses : map.Passes (.number g) (.number k)
    · rw [CollisionMap.canMoveTo_isOk_iff hsize hX hY hpasses]
      exact ⟨hgle.trans_lt hplt, hkle.trans_lt hqlt⟩
    · rw [CollisionMap.canMoveTo_of_not_passes hpasses]
      rfl

theorem Grounded.next {players players' : Players (Floating R) n}
    (h : players.Grounded trig tileCount) {polled : Polled (Floating R)}
    (hdirects : polled.Directs trig.toTrigonometry)
    (hturn : (pollAndExecute trig.toTrigonometry map.moves polled players).result = .ok players') :
    players'.Grounded trig tileCount := by
  obtain ⟨htokens, hrows⟩ := pollAndExecute_spec hturn
  have haddressed (i : Fin n) : players'.Addressed i ↔ players.Addressed i := by
    unfold Addressed
    rw [htokens]
  constructor
  · intro i hi
    obtain ⟨hx, hy⟩ := h.placed i ((haddressed i).mp hi)
    have hleads := Row.leads_next trig (players.data.row i)
      (CollisionMap.Leads.refl map _) (polled.saidTo players.tokenToIndex i)
    rw [← hrows] at hleads
    exact ⟨hleads.x.lt hx, hleads.y.lt hy⟩
  · intro i hmoving
    have hsame := Row.next_status trig.toTrigonometry (allowed map.moves) (players.data.row i)
      (polled.saidTo players.tokenToIndex i)
    have hangle := Row.next_angle trig.toTrigonometry (allowed map.moves) (players.data.row i)
      (polled.saidTo players.tokenToIndex i)
    rw [← hrows] at hsame hangle
    obtain ⟨hi, hdefined⟩ := h.heard_moving hdirects (hsame.symm.trans hmoving)
    refine ⟨(haddressed i).mpr hi, ?_⟩
    rw [show (players'.data.positions i).angle = _ from hangle]
    exact hdefined

theorem Grounded.runs {players : Players (Floating R) n} (h : players.Grounded trig tileCount)
    (hsize : OfSize tileCount map.mapElems) (hX : -1 < map.boundaryX.1)
    (hY : -1 < map.boundaryY.1) {polls : List (Polled (Floating R))}
    (hdirects : ∀ polled ∈ polls, polled.Directs trig.toTrigonometry) :
    (Trace.runs (pollAndExecute trig.toTrigonometry map.moves) polls players).result.isOk =
      true := by
  induction polls generalizing players with
  | nil => rfl
  | cons polled polls ih =>
      obtain ⟨hfirst, hrest⟩ := List.forall_mem_cons.mp hdirects
      obtain ⟨players', hturn⟩ := Traced.eq_of_isOk (h.succeeds hsize hX hY hfirst)
      rw [Trace.runs, hturn]
      exact ih (h.next hfirst (congrArg Traced.result hturn)) hrest

theorem lookup_of_runs {players : Players (Floating R) n} {i : Fin n}
    (haddressed : players.Addressed i)
    (hruns : ∀ polls : List (Polled (Floating R)),
      (∀ polled ∈ polls, polled.Directs trig.toTrigonometry) →
        (Trace.runs (pollAndExecute trig.toTrigonometry map.moves) polls players).result.isOk =
          true)
    {direction : Floating R} (hdefined : trig.Defined direction) :
    (map.moves ((players.data.positions i).x * trig.cos direction)
      ((players.data.positions i).y * trig.sin direction) 0).isOk = true := by
  obtain ⟨token, htoken⟩ := haddressed
  have hdirects : (Polled.message (⟨"", token, .Move (some direction), none⟩ :
      Frames (Floating R))).Directs trig.toTrigonometry := by
    intro table htable
    cases htable
    exact ⟨direction, rfl, hdefined⟩
  obtain ⟨players', hrun⟩ := Traced.eq_of_isOk
    (hruns [.message ⟨"", token, .Move (some direction), none⟩] (by simpa using hdirects))
  obtain ⟨_, _, _, hfirst, -, -⟩ := Traced.andThen_eq_ok.mp hrun
  have hturn := ((pollAndExecute_isOk_iff _ players).mp
    (congrArg (fun r => r.result.isOk) hfirst)).2 i
  have hheard : players.heard (.message ⟨"", token, .Move (some direction), none⟩) i =
      ⟨{ players.data.positions i with angle := direction }, .MOVING, ""⟩ := by
    unfold heard Polled.saidTo
    dsimp only
    rw [if_pos ⟨rfl, htoken⟩]
    rfl
  rw [hheard] at hturn
  have hlookup := hturn rfl
  unfold WorldServerEngine.lookup at hlookup
  rwa [(WorldServerEngine.futurePos_eq _ _).1, (WorldServerEngine.futurePos_eq _ _).2] at hlookup

def StandsOn (map : CollisionMap) (pi : PlayerInfo (Floating R)) : Prop :=
  ∃ p q, pi.x.value = .number p ∧ pi.y.value = .number q ∧ map.Passes (.number p) (.number q)

theorem between_bounds {b : Rat × Rat} {p g : Rat} (hzero : b.1 ≤ 0 ∧ 0 ≤ b.2)
    (hp : b.1 ≤ p ∧ p ≤ b.2) (hlow : min 0 p ≤ g) (hhigh : g ≤ max 0 p) : b.1 ≤ g ∧ g ≤ b.2 :=
  ⟨(le_min hzero.1 hp.1).trans hlow, hhigh.trans (max_le hzero.2 hp.2)⟩

/-- On the grid of a map that was built, with boundaries around the origin and players that
stand in them: no run of moves in directions with a cosine and a sine reads past the grid
exactly when everybody who can be sent about stands on the pixels that the rows and the columns
of tiles count. -/
theorem reads_stay_inside_iff {tmxMap : LoadedMap} {statics : Statics}
    {built : Statics × MapElems} (hbuilt : buildMapFromTmx tmxMap statics = .ok built)
    {boundaryX boundaryY : Rat × Rat} (hX : -1 < boundaryX.1) (hY : -1 < boundaryY.1)
    (horigin : (CollisionMap.mk boundaryX boundaryY built.2).Passes (.number 0) (.number 0))
    {players : Players (Floating R) n}
    (hplaced : ∀ i, StandsOn ⟨boundaryX, boundaryY, built.2⟩ (players.data.positions i))
    (hmoving : ∀ i, players.data.status i = .MOVING →
      players.Addressed i ∧ trig.Defined (players.data.positions i).angle)
    {east north : Floating R} (heast : trig.cos east = (1 : Nat))
    (heast' : ∃ q, (trig.sin east).value = .number q ∧ 0 ≤ q)
    (hnorth : trig.sin north = (1 : Nat))
    (hnorth' : ∃ q, (trig.cos north).value = .number q ∧ 0 ≤ q) :
    (∀ polls : List (Polled (Floating R)),
        (∀ polled ∈ polls, polled.Directs trig.toTrigonometry) →
          (Trace.runs (pollAndExecute trig.toTrigonometry
            (CollisionMap.mk boundaryX boundaryY built.2).moves) polls players).result.isOk =
            true) ↔
      ∀ i, players.Addressed i → OnGrid tmxMap.tileCount (players.data.positions i) := by
  have hsize : OfSize tmxMap.tileCount built.2 := LoadedMap.ofSize hbuilt
  constructor
  · intro hruns i hi
    obtain ⟨p, q, hp, hq, hpasses⟩ := hplaced i
    obtain ⟨hx, hy⟩ := CollisionMap.passes_number_iff.mp hpasses
    obtain ⟨hx₀, hy₀⟩ := CollisionMap.passes_number_iff.mp horigin
    obtain ⟨s, hs, hsnonneg⟩ := heast'
    obtain ⟨c, hc, hcnonneg⟩ := hnorth'
    have hsle : s ≤ 1 := (trig.sin_le east).le_one hs
    have hcle : c ≤ 1 := (trig.cos_le north).le_one hc
    have hone : ((1 : Nat) : Floating R).value ≠ .nan := R.round_ne_nan _
    have halong := lookup_of_runs hi hruns
      (show trig.Defined east from ⟨by rw [heast]; exact hone, by rw [hs]; exact nofun⟩)
    have hacross := lookup_of_runs hi hruns
      (show trig.Defined north from ⟨by rw [hc]; exact nofun, by rw [hnorth]; exact hone⟩)
    obtain ⟨g, hg, hglow, hghigh⟩ := Floating.mul_between hq hs hsnonneg hsle
    obtain ⟨k, hk, hklow, hkhigh⟩ := Floating.mul_between hp hc hcnonneg hcle
    unfold CollisionMap.moves at halong hacross
    rw [heast, Floating.mul_natCast_one, hp, hg, CollisionMap.canMoveTo_isOk_iff hsize hX hY
      (CollisionMap.passes_number_iff.mpr ⟨hx, between_bounds hy₀ hy hglow hghigh⟩)] at halong
    rw [hnorth, Floating.mul_natCast_one, hq, hk, CollisionMap.canMoveTo_isOk_iff hsize hX hY
      (CollisionMap.passes_number_iff.mpr ⟨between_bounds hx₀ hx hklow hkhigh, hy⟩)] at hacross
    exact ⟨⟨p, hp, halong.1⟩, q, hq, hacross.2⟩
  · intro hgrid polls hdirects
    have hgrounded : players.Grounded trig tmxMap.tileCount := ⟨hgrid, hmoving⟩
    exact hgrounded.runs hsize hX hY hdirects

def town : LoadedMap where
  tileCount := ⟨20, 20, by decide, by decide⟩
  tileSize := ⟨24, 24, by decide, by decide⟩
  layers := []
  tileSize_pos := by decide

def axes : BoundedTrigonometry binary64.rounding where
  cos angle :=
    if angle = (0 : Nat) then (1 : Nat) else if angle = (1 : Nat) then (0 : Nat)
    else .rounded .nan
  sin angle :=
    if angle = (0 : Nat) then (0 : Nat) else if angle = (1 : Nat) then (1 : Nat)
    else .rounded .nan
  cos_le angle := by
    split_ifs
    · exact .inr ⟨1, by decide +kernel, by norm_num⟩
    · exact .inr ⟨0, by decide +kernel, by norm_num⟩
    · exact .inl rfl
  sin_le angle := by
    split_ifs
    · exact .inr ⟨0, by decide +kernel, by norm_num⟩
    · exact .inr ⟨1, by decide +kernel, by norm_num⟩
    · exact .inl rfl

def townsman : Players Double 1 where
  data := ⟨fun _ => ⟨(10 : Nat), (10 : Nat), (0 : Nat)⟩, fun _ => .STANDING, fun _ => ""⟩
  tokenToIndex := (∅ : AList fun _ : String => Fin 1).insert "token" 0

theorem reads_stay_inside_iff_town :
    (∀ polls : List (Polled Double), (∀ polled ∈ polls, polled.Directs axes.toTrigonometry) →
        (Trace.runs (pollAndExecute axes.toTrigonometry (CollisionMap.mk (0, 500) (0, 500)
          (List.replicate 20 (List.replicate 20 .new))).moves) polls townsman).result.isOk =
          true) ↔
      ∀ i, townsman.Addressed i → OnGrid town.tileCount (townsman.data.positions i) := by
  have hbuilt : buildMapFromTmx town .unset =
      .ok (.unset, List.replicate 20 (List.replicate 20 .new)) := rfl
  have hten : ((10 : Nat) : Double).value = .number 10 := by decide +kernel
  have hpasses {v : Rat} (h : 0 ≤ v ∧ v ≤ 500) : (CollisionMap.mk (0, 500) (0, 500)
      (List.replicate 20 (List.replicate 20 .new))).Passes (.number v) (.number v) :=
    CollisionMap.passes_number_iff.mpr ⟨h, h⟩
  have hten' := hpasses (v := 10) (by norm_num)
  exact reads_stay_inside_iff hbuilt (by norm_num) (by norm_num) (hpasses (by norm_num))
    (fun _ => ⟨10, 10, hten, hten, hten'⟩) (fun _ hmoving => by cases hmoving)
    (show axes.cos (0 : Nat) = (1 : Nat) by decide +kernel) ⟨0, by decide +kernel, le_rfl⟩
    (show axes.sin (1 : Nat) = (1 : Nat) by decide +kernel) ⟨0, by decide +kernel, le_rfl⟩

end Players

end FyS.WorldServer
