import FyS.Arena.PriorityOrder.Runs
import Mathlib.Algebra.BigOperators.Group.List.Basic
import Mathlib.Algebra.Order.BigOperators.Group.List
import Mathlib.Algebra.Order.Ring.Int

/-!
# Lists that are in step

`_baseSpeed`, `_analyzedList` and `_priorityList` are kept in step by hand.
`InStep` is what every turn preserves, with ids that a contender and a
team member may share.  The stored speeds are part of it: `calculatePriority`
returns because some element with the id of the slowest participant keeps a
positive speed until it is picked, so that every pick takes at least one from
the sum of the stored speeds.  What is kept holds whatever an `int` can hold;
that a turn returns needs an `int` that holds the `Budget` of the list.
-/

namespace FyS.Arena.PriorityOrderList

open FyS.Library.Fuel

variable {P : Platform}

@[simp] theorem keys_nil : keys [] = [] := rfl

@[simp] theorem keys_cons (e : PriorityElem) (l : List PriorityElem) :
    keys (e :: l) = e.key :: keys l := rfl

@[simp] theorem keys_append (l l' : List PriorityElem) : keys (l ++ l') = keys l ++ keys l' :=
  List.map_append

theorem key_mem {l : List PriorityElem} {e : PriorityElem} (h : e ∈ l) : e.key ∈ keys l :=
  List.mem_map_of_mem h

theorem keys_perm {l l' : List PriorityElem} (h : l.Perm l') : (keys l).Perm (keys l') :=
  h.map _

/-! ## Payments -/

def Raised (l l' : List PriorityElem) : Prop :=
  List.Forall₂ (fun e e' => e'.key = e.key ∧ e.speed ≤ e'.speed) l l'

theorem Raised.refl (l : List PriorityElem) : Raised l l :=
  List.forall₂_same.mpr fun _ _ => ⟨rfl, Int.le_refl _⟩

theorem Raised.trans {l₁ l₂ l₃ : List PriorityElem} (h : Raised l₁ l₂) (h' : Raised l₂ l₃) :
    Raised l₁ l₃ := by
  induction h generalizing l₃ with
  | nil =>
      cases h'
      exact .nil
  | cons head _ ih =>
      cases h' with
      | cons head' tail' =>
          exact .cons ⟨head'.1.trans head.1, head.2.trans head'.2⟩ (ih tail')

theorem Raised.keys_eq {l l' : List PriorityElem} (h : Raised l l') : keys l' = keys l := by
  induction h with
  | nil => rfl
  | cons head _ ih => rw [keys_cons, keys_cons, head.1, ih]

theorem Raised.exists_above {l l' : List PriorityElem} (h : Raised l l') {e : PriorityElem}
    (he : e ∈ l) : ∃ e' ∈ l', e'.key = e.key ∧ e.speed ≤ e'.speed := by
  induction h with
  | nil => exact nomatch he
  | @cons _ b _ _ head _ ih =>
      rcases List.mem_cons.mp he with rfl | he
      · exact ⟨b, List.mem_cons_self, head⟩
      · obtain ⟨e', he', h⟩ := ih he
        exact ⟨e', List.mem_cons_of_mem _ he', h⟩

theorem Raised.nonneg {l l' : List PriorityElem} (h : Raised l l')
    (hl : ∀ e ∈ l, 0 ≤ e.speed) : ∀ e ∈ l', 0 ≤ e.speed := by
  induction h with
  | nil => exact fun _ he => nomatch he
  | cons head _ ih =>
      intro e he
      rcases List.mem_cons.mp he with rfl | he
      · exact (hl _ List.mem_cons_self).trans head.2
      · exact ih (fun x hx => hl x (List.mem_cons_of_mem _ hx)) e he

theorem paid_raised {fastest : Int} {b : PriorityElem} (hb : 0 ≤ b.speed + fastest)
    (l : List PriorityElem) : Raised l (paid fastest b l) := by
  induction l with
  | nil => exact .nil
  | cons it rest ih =>
      rw [paid]
      split
      · exact .cons ⟨rfl, by simpa using hb⟩ (Raised.refl _)
      · exact .cons ⟨rfl, Int.le_refl _⟩ ih

theorem exists_paid {fastest : Int} {b e : PriorityElem} {l : List PriorityElem}
    (hl : ∀ e ∈ l, 0 ≤ e.speed) (he : e ∈ l) (hid : e.id = b.id) :
    ∃ e' ∈ paid fastest b l, e'.id = b.id ∧ b.speed + fastest ≤ e'.speed := by
  induction l with
  | nil => exact nomatch he
  | cons it rest ih =>
      rw [paid]
      split
      · rename_i hit
        refine ⟨_, List.mem_cons_self, hit, ?_⟩
        have := hl it List.mem_cons_self
        show b.speed + fastest ≤ it.speed + (b.speed + fastest)
        omega
      · rename_i hit
        rcases List.mem_cons.mp he with rfl | he
        · exact absurd hid hit
        · obtain ⟨e', he', h⟩ := ih (fun x hx => hl x (List.mem_cons_of_mem _ hx)) he
          exact ⟨e', List.mem_cons_of_mem _ he', h⟩

theorem paidAll_raised {fastest : Int} {baseSpeed : List PriorityElem}
    (hb : ∀ b ∈ baseSpeed, 0 ≤ b.speed + fastest) (l : List PriorityElem) :
    Raised l (paidAll fastest l baseSpeed) := by
  induction baseSpeed generalizing l with
  | nil => exact Raised.refl l
  | cons b rest ih =>
      exact (paid_raised (hb b List.mem_cons_self) l).trans
        (ih (fun x hx => hb x (List.mem_cons_of_mem _ hx)) _)

theorem exists_paidAll {fastest : Int} {baseSpeed l : List PriorityElem} {b : PriorityElem}
    (hpos : ∀ b ∈ baseSpeed, 0 ≤ b.speed + fastest) (hl : ∀ e ∈ l, 0 ≤ e.speed)
    (hb : b ∈ baseSpeed) (hid : ∃ e ∈ l, e.id = b.id) :
    ∃ e ∈ paidAll fastest l baseSpeed, e.id = b.id ∧ b.speed + fastest ≤ e.speed := by
  induction baseSpeed generalizing l with
  | nil => exact nomatch hb
  | cons b' rest ih =>
      have hrest (x : PriorityElem) (hx : x ∈ rest) := hpos x (List.mem_cons_of_mem _ hx)
      have hraised := paid_raised (hpos b' List.mem_cons_self) l
      obtain ⟨e, he, heid⟩ := hid
      rcases List.mem_cons.mp hb with rfl | hb
      · obtain ⟨e₁, he₁, hid₁, hspeed₁⟩ := exists_paid hl he heid
        obtain ⟨e₂, he₂, hkey, hspeed₂⟩ := (paidAll_raised hrest _).exists_above he₁
        exact ⟨e₂, he₂, (congrArg Prod.fst hkey).trans hid₁, hspeed₁.trans hspeed₂⟩
      · obtain ⟨e₁, he₁, hkey, -⟩ := hraised.exists_above he
        exact ih hrest (hraised.nonneg hl) hb
          ⟨e₁, he₁, (congrArg Prod.fst hkey).trans heid⟩

/-! ## The fee of a pick -/

theorem computedSpeedFrom_cases (l : List PriorityElem) (id next : Nat)
    (baseSpeed : List PriorityElem) :
    computedSpeedFrom l id next baseSpeed = 1 ∨
      ∃ it ∈ l, computedSpeedFrom l id next baseSpeed = orOne it.speed := by
  induction baseSpeed generalizing next with
  | nil => exact .inl rfl
  | cons b rest ih =>
      rw [computedSpeedFrom]
      split
      · cases hfind : l.find? (·.id == next) with
        | none => exact ih b.id
        | some it => exact .inr ⟨it, List.mem_of_find?_eq_some hfind, rfl⟩
      · exact ih b.id

theorem orOne_bounds {v u : Int} (hv : 0 ≤ v) (hvu : v ≤ u) (hu : 1 ≤ u) :
    1 ≤ orOne v ∧ orOne v ≤ u := by
  unfold orOne
  split <;> omega

/-- With no stored speed negative and one positive, the picked element pays at
least 1 and at most what it has, unless it stands alone. -/
theorem fee_bounds {s : PriorityOrderList} {l : List PriorityElem} {e : PriorityElem}
    (h : (customSort P s).analyzedList = l ++ [e]) (hl : l ≠ [])
    (hnonneg : ∀ x ∈ s.analyzedList, 0 ≤ x.speed) (hpos : ∃ x ∈ s.analyzedList, 1 ≤ x.speed) :
    1 ≤ fee P s l e ∧ fee P s l e ≤ e.speed := by
  obtain ⟨x, hx, hxpos⟩ := hpos
  have hback := hxpos.trans (speed_le_back h hx)
  rw [fee, if_neg hl, getComputedSpeed]
  rcases computedSpeedFrom_cases (customSort P s).analyzedList e.id
    (((customSort P s).baseSpeed.getLast?.map (·.id)).getD 0) (customSort P s).baseSpeed
    with h1 | ⟨it, hit, h1⟩
  · rw [h1]
    exact ⟨Int.le_refl 1, hback⟩
  · rw [h1]
    have hit' := (customSort_perm P s).mem_iff.mp hit
    exact orOne_bounds (hnonneg it hit') (speed_le_back h hit') hback

/-! ## A turn -/

/-- The three lists agree on who takes part, and every participant id has a
positive stored speed. -/
structure InStep (s : PriorityOrderList) : Prop where
  base_pos : ∀ b ∈ s.baseSpeed, 1 ≤ b.speed
  analyzed : (keys s.analyzedList).Perm (keys s.baseSpeed)
  priority : ∀ e ∈ s.priorityList, e.key ∈ keys s.baseSpeed
  nonneg : ∀ e ∈ s.analyzedList, 0 ≤ e.speed
  funded : ∀ b ∈ s.baseSpeed, ∃ e ∈ s.analyzedList, e.id = b.id ∧ 1 ≤ e.speed

structure MidTurn (s : PriorityOrderList) : Prop where
  base_pos : ∀ b ∈ s.baseSpeed, 1 ≤ b.speed
  analyzed : (keys s.analyzedList).Perm (keys s.baseSpeed)
  priority : ∀ e ∈ s.priorityList, e.key ∈ keys s.baseSpeed
  nonneg : ∀ e ∈ s.analyzedList, 0 ≤ e.speed
  slowest : ∃ e ∈ s.analyzedList, isPlayerSlowest s e.id = true ∧ 1 ≤ e.speed

theorem isPlayerSlowest_iff {s : PriorityOrderList} {id : Nat} :
    isPlayerSlowest s id = true ↔ ∃ b rest, s.baseSpeed = b :: rest ∧ b.id = id := by
  unfold isPlayerSlowest
  cases s.baseSpeed with
  | nil => simp
  | cons b rest => simp

theorem InStep.midTurn {s : PriorityOrderList} (h : InStep s) (hbase : s.baseSpeed ≠ []) :
    MidTurn s where
  base_pos := h.base_pos
  analyzed := h.analyzed
  priority := h.priority
  nonneg := h.nonneg
  slowest := by
    obtain ⟨b, rest, hcons⟩ := List.exists_cons_of_ne_nil hbase
    obtain ⟨e, he, hid, hpos⟩ := h.funded b (by simp [hcons])
    exact ⟨e, he, isPlayerSlowest_iff.mpr ⟨b, rest, hcons, hid.symm⟩, hpos⟩

def total (l : List PriorityElem) : Int := (l.map (·.speed)).sum

theorem total_perm {l l' : List PriorityElem} (h : l.Perm l') : total l = total l' :=
  (h.map _).sum_eq

theorem total_nonneg {l : List PriorityElem} (h : ∀ e ∈ l, 0 ≤ e.speed) : 0 ≤ total l :=
  List.sum_nonneg (by simpa using h)

@[simp] theorem total_append_singleton (l : List PriorityElem) (e : PriorityElem) :
    total (l ++ [e]) = total l + e.speed := by
  simp [total]

theorem fastest_pos {s : PriorityOrderList} (hbase : s.baseSpeed ≠ [])
    (hpos : ∀ b ∈ s.baseSpeed, 1 ≤ b.speed) : 1 ≤ s.getFastestBaseSpeed := by
  rw [getFastestBaseSpeed, List.getLast?_eq_getLast_of_ne_nil hbase]
  exact hpos _ (List.getLast_mem hbase)

theorem MidTurn.bonus_nonneg {s : PriorityOrderList} (h : MidTurn s) (hbase : s.baseSpeed ≠ []) :
    ∀ b ∈ s.baseSpeed, 0 ≤ b.speed + s.getFastestBaseSpeed := by
  intro b hb
  have := h.base_pos b hb
  have := fastest_pos hbase h.base_pos
  omega

structure Picked (P : Platform) (s : PriorityOrderList) (l : List PriorityElem)
    (e : PriorityElem) : Prop where
  sorted : (customSort P s).analyzedList = l ++ [e]
  fee_pos : l ≠ [] → 1 ≤ fee P s l e
  fee_le : 0 ≤ e.speed - fee P s l e

theorem MidTurn.picked {s : PriorityOrderList} (h : MidTurn s) {l : List PriorityElem}
    {e : PriorityElem} (hsorted : (customSort P s).analyzedList = l ++ [e]) :
    Picked P s l e := by
  obtain ⟨x, hx, -, hpos⟩ := h.slowest
  refine ⟨hsorted, fun hl => (fee_bounds hsorted hl h.nonneg ⟨x, hx, hpos⟩).1, ?_⟩
  by_cases hl : l = []
  · have := speed_le_back hsorted hx
    rw [fee, if_pos hl]
    omega
  · have := (fee_bounds hsorted hl h.nonneg ⟨x, hx, hpos⟩).2
    omega

namespace Picked

variable {s : PriorityOrderList} {l : List PriorityElem} {e : PriorityElem}

theorem perm (h : Picked P s l e) : (l ++ [e]).Perm s.analyzedList :=
  h.sorted ▸ customSort_perm P s

theorem mem_cases (h : Picked P s l e) {x : PriorityElem} (hx : x ∈ s.analyzedList) :
    x ∈ l ∨ x = e := by
  simpa using h.perm.mem_iff.mpr hx

theorem key_mem_base (h : Picked P s l e) (hs : (keys s.analyzedList).Perm (keys s.baseSpeed)) :
    e.key ∈ keys s.baseSpeed :=
  hs.mem_iff.mp ((keys_perm h.perm).mem_iff.mp (by simp))

theorem keys_perm_base (h : Picked P s l e)
    (hs : (keys s.analyzedList).Perm (keys s.baseSpeed)) (speed : Int) :
    (keys (l ++ [{ e with speed }])).Perm (keys s.baseSpeed) := by
  have hkeys : keys (l ++ [{ e with speed }]) = keys (l ++ [e]) := by
    rw [keys_append, keys_append]
    rfl
  rw [hkeys]
  exact (keys_perm h.perm).trans hs

theorem key_mem_of_priority (h : Picked P s l e)
    (hs : (keys s.analyzedList).Perm (keys s.baseSpeed))
    (hprio : ∀ x ∈ s.priorityList, x.key ∈ keys s.baseSpeed) (speed : Int) :
    ∀ x ∈ s.priorityList ++ [{ e with speed }], x.key ∈ keys s.baseSpeed := by
  intro x hx
  rcases List.mem_append.mp hx with hx | hx
  · exact hprio x hx
  · rw [List.mem_singleton.mp hx]
    exact h.key_mem_base hs

theorem nonneg (h : Picked P s l e) (hs : ∀ x ∈ s.analyzedList, 0 ≤ x.speed) :
    ∀ x ∈ l ++ [{ e with speed := e.speed - fee P s l e }], 0 ≤ x.speed := by
  intro x hx
  rcases List.mem_append.mp hx with hx | hx
  · exact hs x (h.perm.mem_iff.mp (by simp [hx]))
  · rw [List.mem_singleton.mp hx]
    exact h.fee_le

theorem total_lt (h : Picked P s l e) (hl : l ≠ []) :
    total (l ++ [{ e with speed := e.speed - fee P s l e }]) < total s.analyzedList := by
  have := h.fee_pos hl
  rw [← total_perm h.perm, total_append_singleton, total_append_singleton]
  show total l + (e.speed - fee P s l e) < total l + e.speed
  omega

end Picked

theorem MidTurn.withPicked {s : PriorityOrderList} {l : List PriorityElem} {e : PriorityElem}
    (h : MidTurn s) (hp : Picked P s l e) (hopen : isPlayerSlowest s e.id = false) :
    MidTurn (s.withPicked l { e with speed := e.speed - fee P s l e }) ∧
      total (l ++ [{ e with speed := e.speed - fee P s l e }]) < total s.analyzedList := by
  obtain ⟨x, hx, hslow, hpos⟩ := h.slowest
  have hxl : x ∈ l := by
    rcases hp.mem_cases hx with hx | rfl
    · exact hx
    · rw [hopen] at hslow
      exact nomatch hslow
  constructor
  · exact ⟨h.base_pos, hp.keys_perm_base h.analyzed _, hp.key_mem_of_priority h.analyzed h.priority _,
      hp.nonneg h.nonneg, ⟨x, List.mem_append_left _ hxl, hslow, hpos⟩⟩
  · exact hp.total_lt (List.ne_nil_of_mem hxl)

theorem MidTurn.endTurn_single {s : PriorityOrderList} {l : List PriorityElem} {e : PriorityElem}
    (h : MidTurn s) (hp : Picked P s l e) (hlen : s.baseSpeed.length ≤ 1) {b : PriorityElem}
    (hb : b ∈ s.baseSpeed) :
    ∃ x ∈ l ++ [{ e with speed := e.speed - fee P s l e }], x.id = b.id ∧ 1 ≤ x.speed := by
  obtain ⟨x, hx, -, hpos⟩ := h.slowest
  have hkeys := hp.keys_perm_base h.analyzed (e.speed - fee P s l e)
  have hl : l = [] := by
    have hlength := hkeys.length_eq
    simp only [keys, List.length_map, List.length_append, List.length_singleton] at hlength
    exact List.eq_nil_of_length_eq_zero (by omega)
  subst hl
  obtain rfl : x = e := by simpa using hp.mem_cases hx
  have hkey := hkeys.mem_iff.mpr (key_mem hb)
  refine ⟨_, List.mem_singleton_self _, (congrArg Prod.fst (by simpa using hkey)).symm, ?_⟩
  simpa [fee] using hpos

theorem MidTurn.endTurn_paid {s : PriorityOrderList} {l : List PriorityElem} {e : PriorityElem}
    (h : MidTurn s) (hp : Picked P s l e) {b : PriorityElem} (hb : b ∈ s.baseSpeed) :
    ∃ x ∈ paidAll s.getFastestBaseSpeed (l ++ [{ e with speed := e.speed - fee P s l e }])
      s.baseSpeed, x.id = b.id ∧ 1 ≤ x.speed := by
  have hfast := fastest_pos (List.ne_nil_of_mem hb) h.base_pos
  have hkey := (hp.keys_perm_base h.analyzed (e.speed - fee P s l e)).mem_iff.mpr (key_mem hb)
  obtain ⟨y, hy, hid⟩ := List.mem_map.mp hkey
  obtain ⟨x, hx, hxid, hxspeed⟩ := exists_paidAll (h.bonus_nonneg (List.ne_nil_of_mem hb))
    (hp.nonneg h.nonneg) hb ⟨y, hy, congrArg Prod.fst hid⟩
  have := h.base_pos b hb
  exact ⟨x, hx, hxid, by omega⟩

theorem MidTurn.endTurn {s s' : PriorityOrderList} {l : List PriorityElem} {e : PriorityElem}
    (h : MidTurn s) (hp : Picked P s l e)
    (hend : endTurnRoutine P (s.withPicked l { e with speed := e.speed - fee P s l e }) =
      .ok s') : InStep s' := by
  obtain ⟨x, hx, hslow, -⟩ := h.slowest
  obtain ⟨b, rest, hcons, -⟩ := isPlayerSlowest_iff.mp hslow
  have hbase : s.baseSpeed ≠ [] := by simp [hcons]
  have hprio := hp.key_mem_of_priority h.analyzed h.priority (e.speed - fee P s l e)
  have hkeys := hp.keys_perm_base h.analyzed (e.speed - fee P s l e)
  have hnonneg := hp.nonneg h.nonneg
  rcases endTurnRoutine_cases hend with ⟨hlen, rfl⟩ | ⟨-, l', hl', rfl⟩
  · exact ⟨h.base_pos, hkeys, hprio, hnonneg, fun b' hb' => h.endTurn_single hp hlen hb'⟩
  · have hraised := paidAll_raised (h.bonus_nonneg hbase)
      (l ++ [{ e with speed := e.speed - fee P s l e }])
    constructor
    · exact h.base_pos
    · exact ((keys_perm hl').trans (hraised.keys_eq ▸ List.Perm.refl _)).trans hkeys
    · exact fun y hy => hprio y (List.mem_reverse.mp hy)
    · exact fun y hy => hraised.nonneg hnonneg y (hl'.mem_iff.mp hy)
    · intro b' hb'
      obtain ⟨z, hz, hzid, hzspeed⟩ := h.endTurn_paid hp hb'
      exact ⟨z, hl'.mem_iff.mpr hz, hzid, hzspeed⟩

/-! ## What a call leaves -/

def Sound {α : Type} (Q : α → Prop) : Except Fault α → Prop
  | .ok a => Q a
  | .error fault => fault ≠ .emptyBack

namespace Sound

variable {α β : Type} {Q : α → Prop} {Q' : β → Prop}

theorem bind {r : Except Fault α} {f : α → Except Fault β} (hr : Sound Q r)
    (hf : ∀ a, Q a → Sound Q' (f a)) : Sound Q' (r >>= f) := by
  cases r with
  | ok a => exact hf a hr
  | error fault => exact hr

theorem imp {r : Except Fault α} (hr : Sound Q r) {Q' : α → Prop} (hQ : ∀ a, Q a → Q' a) :
    Sound Q' r := by
  cases r with
  | ok a => exact hQ a hr
  | error fault => exact hr

theorem of_eq {r : Except Fault α} (hr : Sound Q r) {a : α} (h : r = .ok a) : Q a := by
  rw [h] at hr
  exact hr

theorem ne_emptyBack {r : Except Fault α} (hr : Sound Q r) : r ≠ .error .emptyBack := by
  rintro rfl
  exact hr rfl

theorem int (v : Int) : Sound (fun _ => True) (P.int v) := by
  unfold Platform.int
  split
  · exact trivial
  · exact nofun

end Sound

theorem payFirst_sound (fastest : Int) (l : List PriorityElem) (b : PriorityElem) :
    Sound (fun _ => True) (payFirst P fastest l b) := by
  induction l with
  | nil => exact trivial
  | cons it rest ih =>
      rw [payFirst]
      split
      · exact (Sound.int _).bind fun _ _ => (Sound.int _).bind fun _ _ => trivial
      · exact ih.bind fun _ _ => trivial

theorem endTurnRoutine_sound (s : PriorityOrderList) :
    Sound (fun _ => True) (endTurnRoutine P s) := by
  have hpay (fastest : Int) (l baseSpeed : List PriorityElem) :
      Sound (fun _ => True) (baseSpeed.foldlM (payFirst P fastest) l) := by
    induction baseSpeed generalizing l with
    | nil => exact trivial
    | cons b rest ih =>
        rw [List.foldlM_cons]
        exact (payFirst_sound fastest l b).bind fun l _ => ih l
  rw [endTurnRoutine]
  simp only
  split
  · exact trivial
  · exact (hpay _ _ _).bind fun _ _ => trivial

theorem MidTurn.exists_sorted {s : PriorityOrderList} (h : MidTurn s) :
    ∃ l e, (customSort P s).analyzedList = l ++ [e] := by
  obtain ⟨x, hx, -⟩ := h.slowest
  rcases List.eq_nil_or_concat (customSort P s).analyzedList with hnil | ⟨l, e, hl⟩
  · have := (customSort_perm P s).mem_iff.mpr hx
    simp [hnil] at this
  · exact ⟨l, e, by rw [hl, List.concat_eq_append]⟩

theorem MidTurn.pick_sound {s : PriorityOrderList} (h : MidTurn s) :
    Sound (fun _ => True) (pick P s) := by
  obtain ⟨l, e, hl⟩ := h.exists_sorted (P := P)
  have hspeed : Sound (fun _ => True)
      (if l = [] then Except.ok e.speed else P.int (e.speed - fee P s l e)) := by
    split
    · exact trivial
    · exact Sound.int _
  rw [pick_eq hl]
  refine hspeed.bind fun speed _ => ?_
  split
  · exact endTurnRoutine_sound _
  · exact trivial

theorem MidTurn.calculatePriority_sound {s : PriorityOrderList} (h : MidTurn s) (fuel : Nat) :
    Sound (fun t => InStep t ∧ t.baseSpeed = s.baseSpeed ∧ t.priorityList ≠ [])
      (calculatePriority P s.currentTurn fuel s) := by
  induction fuel generalizing s with
  | zero => exact nofun
  | succ fuel ih =>
      rw [calculatePriority_succ]
      cases hu : pick P s with
      | error fault =>
          have hsound := h.pick_sound (P := P)
          rw [hu] at hsound
          exact hsound
      | ok u =>
          rw [ok_bind]
          obtain ⟨l, e, hsorted, hcases⟩ := pick_cases hu
          have hp := h.picked hsorted
          rcases hcases with ⟨hopen, rfl⟩ | ⟨-, hend⟩
          · exact ih (h.withPicked hp hopen).1
          · have hturn : u.currentTurn ≠ s.currentTurn := by
              rw [endTurnRoutine_currentTurn hend]
              exact P.uint_succ_ne _
            cases fuel with
            | zero => exact nofun
            | succ fuel =>
                rw [calculatePriority_stop hturn]
                refine ⟨h.endTurn hp hend, (endTurnRoutine_baseSpeed hend).trans rfl, ?_⟩
                rcases endTurnRoutine_cases hend with ⟨-, rfl⟩ | ⟨-, l', -, rfl⟩ <;>
                  simp [PriorityOrderList.withPicked]

/-! ## When a call returns -/

def Affords (P : Platform) (M : Int) : Prop := ∀ v, 0 ≤ v → v ≤ M → P.fits v = true

/-- No base speed is above `F`, and what is stored and what a turn can pay make `M` at most. -/
structure Budget (F M : Int) (s : PriorityOrderList) : Prop where
  base_le : ∀ b ∈ s.baseSpeed, b.speed ≤ F
  total_le : total s.analyzedList + (s.baseSpeed.map (·.speed + F)).sum ≤ M

theorem speed_le_total {l : List PriorityElem} (hl : ∀ e ∈ l, 0 ≤ e.speed) {e : PriorityElem}
    (he : e ∈ l) : e.speed ≤ total l :=
  List.single_le_sum (by simpa using hl) _ (List.mem_map_of_mem he)

theorem exists_budget {s : PriorityOrderList} (hpos : ∀ b ∈ s.baseSpeed, 1 ≤ b.speed) :
    ∃ F M, Budget F M s :=
  ⟨total s.baseSpeed, _,
    fun b hb => speed_le_total (fun b hb => by have := hpos b hb; omega) hb, le_rfl⟩

theorem total_paid_le {fastest : Int} {b : PriorityElem} (hb : 0 ≤ b.speed + fastest)
    (l : List PriorityElem) : total (paid fastest b l) ≤ total l + (b.speed + fastest) := by
  induction l with
  | nil => simpa [paid, total] using hb
  | cons it rest ih =>
      rw [paid]
      split
      · simp only [total, List.map_cons, List.sum_cons]
        omega
      · simp only [total, List.map_cons, List.sum_cons] at ih ⊢
        omega

theorem foldlM_payFirst_returns {F M fastest : Int} (hM : Affords P M) (hfastest : fastest ≤ F)
    {l baseSpeed : List PriorityElem} (hl : ∀ e ∈ l, 0 ≤ e.speed)
    (hpos : ∀ b ∈ baseSpeed, 0 ≤ b.speed + fastest)
    (hle : total l + (baseSpeed.map (·.speed + F)).sum ≤ M) :
    baseSpeed.foldlM (payFirst P fastest) l = .ok (paidAll fastest l baseSpeed) := by
  induction baseSpeed generalizing l with
  | nil => rfl
  | cons b rest ih =>
      rw [List.map_cons, List.sum_cons] at hle
      have hb := hpos b List.mem_cons_self
      have hrest (x : PriorityElem) (hx : x ∈ rest) := hpos x (List.mem_cons_of_mem _ hx)
      have hsum : 0 ≤ (rest.map (·.speed + F)).sum := by
        refine List.sum_nonneg fun v hv => ?_
        obtain ⟨x, hx, rfl⟩ := List.mem_map.mp hv
        have := hrest x hx
        omega
      have hfits (it : PriorityElem) (hit : it ∈ l) (_ : it.id = b.id) :
          P.fits (b.speed + fastest) = true ∧ P.fits (it.speed + (b.speed + fastest)) = true := by
        have hit' := hl it hit
        have := speed_le_total hl hit
        exact ⟨hM _ hb (by omega), hM _ (by omega) (by omega)⟩
      rw [List.foldlM_cons, payFirst_of_fits hfits]
      have hpaid := total_paid_le hb l
      exact ih ((paid_raised hb l).nonneg hl) hrest (by omega)

theorem MidTurn.pick_returns {s : PriorityOrderList} (h : MidTurn s) {F M : Int}
    (hM : Affords P M) (hbudget : Budget F M s) : ∃ t, pick P s = .ok t := by
  obtain ⟨l, e, hl⟩ := h.exists_sorted (P := P)
  have hp := h.picked hl
  obtain ⟨x, hx, hslow, -⟩ := h.slowest
  obtain ⟨b, rest, hcons, -⟩ := isPlayerSlowest_iff.mp hslow
  have hbase : s.baseSpeed ≠ [] := by simp [hcons]
  have hsum : 0 ≤ (s.baseSpeed.map (·.speed + F)).sum := by
    refine List.sum_nonneg fun v hv => ?_
    obtain ⟨x, hx, rfl⟩ := List.mem_map.mp hv
    have := h.base_pos x hx
    have := hbudget.base_le x hx
    omega
  have htotal : total (l ++ [{ e with speed := e.speed - fee P s l e }]) ≤
      total s.analyzedList := by
    by_cases hne : l = []
    · rw [← total_perm hp.perm, hne, fee, if_pos rfl]
      simp
    · exact (hp.total_lt hne).le
  have hle := hbudget.total_le
  have hspeed : (if l = [] then Except.ok e.speed else P.int (e.speed - fee P s l e)) =
      .ok (e.speed - fee P s l e) := by
    split
    · simp [fee, *]
    · have := speed_le_total (hp.nonneg h.nonneg) (List.mem_append_right l
        (List.mem_singleton_self { e with speed := e.speed - fee P s l e }))
      exact int_of_fits (hM _ hp.fee_le (by simp only at this; omega))
  rw [pick_eq hl, hspeed, ok_bind]
  split
  · rw [endTurnRoutine]
    simp only
    split
    · exact ⟨_, rfl⟩
    · have hfast : s.getFastestBaseSpeed ≤ F := by
        rw [getFastestBaseSpeed, List.getLast?_eq_getLast_of_ne_nil hbase]
        exact hbudget.base_le _ (List.getLast_mem hbase)
      have hpay : s.baseSpeed.foldlM (payFirst P s.getFastestBaseSpeed)
          (l ++ [{ e with speed := e.speed - fee P s l e }]) = .ok _ :=
        foldlM_payFirst_returns hM hfast (hp.nonneg h.nonneg) (h.bonus_nonneg hbase) (by omega)
      exact ⟨_, congrArg (· >>= _) hpay⟩
  · exact ⟨_, rfl⟩

/-- Along a turn the sum of the stored speeds falls, so the turn ends. -/
theorem MidTurn.calculatePriority_returns {s : PriorityOrderList} (h : MidTurn s) {F M : Int}
    (hM : Affords P M) (hbudget : Budget F M s) :
    ∃ t, Returns (fun fuel => calculatePriority P s.currentTurn fuel s) t := by
  induction hn : (total s.analyzedList).toNat using Nat.strongRecOn generalizing s with
  | ind n ih =>
      obtain ⟨u, hu⟩ := h.pick_returns hM hbudget
      obtain ⟨l, e, hsorted, hcases⟩ := pick_cases hu
      have hp := h.picked hsorted
      rcases hcases with ⟨hopen, rfl⟩ | ⟨-, hend⟩
      · obtain ⟨hmid, hlt⟩ := h.withPicked hp hopen
        have hlow := total_nonneg hmid.nonneg
        have hfalls : total (s.withPicked l
            { e with speed := e.speed - fee P s l e }).analyzedList < total s.analyzedList := hlt
        have hless : (total (s.withPicked l
            { e with speed := e.speed - fee P s l e }).analyzedList).toNat < n := by
          omega
        have hle := hbudget.total_le
        have hkept : Budget F M (s.withPicked l { e with speed := e.speed - fee P s l e }) :=
          ⟨hbudget.base_le, (add_le_add_left hfalls.le _).trans hle⟩
        obtain ⟨t, hreturns⟩ := ih _ hless hmid hkept rfl
        exact ⟨t, (returns_iff_of_pick hu).mpr hreturns⟩
      · refine ⟨u, (returns_iff_of_pick hu).mpr ⟨1, calculatePriority_stop ?_ 0⟩⟩
        rw [endTurnRoutine_currentTurn hend]
        exact P.uint_succ_ne _

theorem InStep.of_base_perm {s : PriorityOrderList} (h : InStep s) {l : List PriorityElem}
    (hl : l.Perm s.baseSpeed) : InStep { s with baseSpeed := l } where
  base_pos b hb := h.base_pos b (hl.mem_iff.mp hb)
  analyzed := h.analyzed.trans (keys_perm hl).symm
  priority e he := (keys_perm hl).mem_iff.mpr (h.priority e he)
  nonneg := h.nonneg
  funded b hb := h.funded b (hl.mem_iff.mp hb)

theorem inStep_of_base {s : PriorityOrderList} (hpos : ∀ b ∈ s.baseSpeed, 1 ≤ b.speed)
    (hanalyzed : s.analyzedList = s.baseSpeed) (hprio : s.priorityList = s.baseSpeed) :
    InStep s where
  base_pos := hpos
  analyzed := by rw [hanalyzed]
  priority e he := key_mem (hprio ▸ he)
  nonneg e he := by
    have := hpos e (hanalyzed ▸ he)
    omega
  funded b hb := ⟨b, hanalyzed ▸ hb, rfl, hpos b hb⟩

theorem refills_iff {s t : PriorityOrderList} (hbase : s.baseSpeed ≠ []) :
    Refills P s t ↔
      (s.currentTurn = 0 ∧ t = { s with
          baseSpeed := P.sort.run s.baseSpeed
          analyzedList := P.sort.run s.baseSpeed
          priorityList := P.sort.run s.baseSpeed
          currentTurn := P.uint 1 }) ∨
        (s.currentTurn ≠ 0 ∧ Returns (fun fuel => calculatePriority P s.currentTurn fuel
          { s with baseSpeed := P.sort.run s.baseSpeed }) t) := by
  unfold Refills sortBaseAndCalculatePriority
  have hempty : s.baseSpeed.isEmpty = false := by simpa using hbase
  simp only [hempty]
  by_cases hturn : s.currentTurn = 0
  · simp [hturn, Returns, eq_comm]
  · simp [hturn]

theorem sort_eq_nil {l : List PriorityElem} : P.sort.run l = [] ↔ l = [] := by
  have hperm := P.sort.perm l
  constructor
  · intro h
    exact List.perm_nil.mp (h ▸ hperm).symm
  · rintro rfl
    exact List.perm_nil.mp hperm

theorem Budget.of_base_perm {F M : Int} {s : PriorityOrderList} (h : Budget F M s)
    {l : List PriorityElem} (hl : l.Perm s.baseSpeed) :
    Budget F M { s with baseSpeed := l } where
  base_le b hb := h.base_le b (hl.mem_iff.mp hb)
  total_le := by
    rw [(hl.map _).sum_eq]
    exact h.total_le

theorem InStep.refill_sound {s : PriorityOrderList} (h : InStep s) (hbase : s.baseSpeed ≠ [])
    (fuel : Nat) :
    Sound (fun t => InStep t ∧ t.baseSpeed.Perm s.baseSpeed ∧ t.priorityList ≠ [])
      (sortBaseAndCalculatePriority P fuel s) := by
  have hperm := P.sort.perm s.baseSpeed
  have hne : P.sort.run s.baseSpeed ≠ [] := mt sort_eq_nil.mp hbase
  have hempty : s.baseSpeed.isEmpty = false := by simpa using hbase
  rw [sortBaseAndCalculatePriority, hempty]
  by_cases hturn : s.currentTurn = 0
  · simp only [hturn]
    exact ⟨inStep_of_base (fun b hb => h.base_pos b (hperm.mem_iff.mp hb)) rfl rfl, hperm, hne⟩
  · simp only [hturn]
    refine (((h.of_base_perm hperm).midTurn hne).calculatePriority_sound fuel).imp ?_
    rintro t ⟨hstep, heq, hprio⟩
    exact ⟨hstep, heq ▸ hperm, hprio⟩

theorem InStep.refill_returns {s : PriorityOrderList} (h : InStep s) (hbase : s.baseSpeed ≠ [])
    {F M : Int} (hM : Affords P M) (hbudget : Budget F M s) : ∃ t, Refills P s t := by
  have hperm := P.sort.perm s.baseSpeed
  have hne : P.sort.run s.baseSpeed ≠ [] := mt sort_eq_nil.mp hbase
  by_cases hturn : s.currentTurn = 0
  · exact ⟨_, (refills_iff hbase).mpr (.inl ⟨hturn, rfl⟩)⟩
  · obtain ⟨t, ht⟩ := ((h.of_base_perm hperm).midTurn hne).calculatePriority_returns hM
      (hbudget.of_base_perm hperm)
    exact ⟨t, (refills_iff hbase).mpr (.inr ⟨hturn, ht⟩)⟩

theorem InStep.refills (hP : ∀ v, P.fits v = true) {s : PriorityOrderList} (h : InStep s)
    (hbase : s.baseSpeed ≠ []) :
    ∃ t, Refills P s t ∧ InStep t ∧ t.baseSpeed.Perm s.baseSpeed ∧ t.priorityList ≠ [] := by
  obtain ⟨F, M, hbudget⟩ := exists_budget h.base_pos
  obtain ⟨t, fuel, ht⟩ := h.refill_returns hbase (fun v _ _ => hP v) hbudget
  exact ⟨t, ⟨fuel, ht⟩, (h.refill_sound hbase fuel).of_eq ht⟩

end FyS.Arena.PriorityOrderList
