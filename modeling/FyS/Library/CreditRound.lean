import Mathlib.Algebra.BigOperators.Group.Finset.Basic
import Mathlib.Algebra.Order.BigOperators.Group.Finset
import Mathlib.Data.Fintype.Pi
import Mathlib.Data.Fintype.Pigeonhole
import Mathlib.Order.Interval.Finset.Defs
import Mathlib.Data.Int.Interval
import Mathlib.Tactic.Linarith

/-!
# Rounds of a largest-credit-first schedule

Every seat of a table holds an integer credit.  The seat with the largest
credit is picked and pays a toll, the credit of one other seat; picking goes on
until the closing seat is picked, and then every seat earns its wage.

* `Round.bounds`, `Round.le_closer`, `Round.closer_eq` say where the credits
  stand at the end of a round.
* `Leads.funds_lt` is the measure of a round.
* `Turn.bounded` bounds the credits over any number of turns.
* `Turn.backlog_lt` is the measure behind starvation freedom.
* `not_forever_same_picks` excludes a schedule that repeats one round for ever.
* `Round.not_of_debt` and `Round.not_of_closer_debt` are the ways a round can
  fail to end.
-/

namespace FyS.Library.CreditRound

variable {ι : Type*} [DecidableEq ι]

def toll (v : ℤ) : ℤ := if v = 0 then 1 else v

theorem toll_pos {v : ℤ} (hv : 0 ≤ v) : 1 ≤ toll v := by
  unfold toll
  split <;> omega

theorem toll_le {u v : ℤ} (hu : 1 ≤ u) (huv : v ≤ u) : toll v ≤ u := by
  unfold toll
  split <;> omega

theorem le_toll (v : ℤ) : v ≤ toll v := by
  unfold toll
  split <;> omega

/-- Who sits at the table, whose pick closes the round, and whose credit each
seat pays. -/
structure Table (ι : Type*) where
  seats : Finset ι
  closer : ι
  prev : ι → ι
  closer_mem : closer ∈ seats
  prev_mem : ∀ i ∈ seats, prev i ∈ seats

namespace Table

variable (T : Table ι)

def charge (a : ι → ℤ) (i : ι) : ι → ℤ :=
  Function.update a i (a i - toll (a (T.prev i)))

def Leads (a : ι → ℤ) (i : ι) : Prop := i ∈ T.seats ∧ ∀ j ∈ T.seats, a j ≤ a i

/-- `T.Round a l b`: from credits `a` the seats `l` are picked in this order, the
last one closes the round, and the credits are `b`. -/
inductive Round : (ι → ℤ) → List ι → (ι → ℤ) → Prop
  | close {a} (lead : T.Leads a T.closer) : Round a [T.closer] (T.charge a T.closer)
  | pick {a b i l} (lead : T.Leads a i) (open_ : i ≠ T.closer)
      (tail : Round (T.charge a i) l b) : Round a (i :: l) b

def Turn (w a : ι → ℤ) (l : List ι) (a' : ι → ℤ) : Prop :=
  ∃ b, T.Round a l b ∧ ∀ i ∈ T.seats, a' i = b i + w i

structure Solvent (a : ι → ℤ) : Prop where
  nonneg : ∀ i ∈ T.seats, 0 ≤ a i
  funded : 1 ≤ a T.closer

variable {T} {a a' b b' w : ι → ℤ} {i j p : ι} {l : List ι}

theorem charge_self (T : Table ι) (a : ι → ℤ) (i : ι) :
    T.charge a i i = a i - toll (a (T.prev i)) := Function.update_self ..

theorem charge_of_ne (T : Table ι) (a : ι → ℤ) (h : j ≠ i) : T.charge a i j = a j :=
  Function.update_of_ne h ..

theorem Leads.charge_bounds (h : T.Leads a i) (hnonneg : ∀ j ∈ T.seats, 0 ≤ a j)
    (hpos : 1 ≤ a i) (hj : j ∈ T.seats) : 0 ≤ T.charge a i j ∧ T.charge a i j ≤ a j := by
  by_cases hji : j = i
  · subst hji
    have hprev := T.prev_mem j hj
    have hlow := toll_pos (hnonneg _ hprev)
    have hhigh := toll_le hpos (h.2 _ hprev)
    rw [charge_self]
    omega
  · rw [charge_of_ne T a hji]
    exact ⟨hnonneg j hj, le_rfl⟩

omit [DecidableEq ι] in
theorem Leads.pos (h : T.Leads a i) (hs : T.Solvent a) : 1 ≤ a i :=
  hs.funded.trans (h.2 _ T.closer_mem)

theorem Leads.charge_solvent (h : T.Leads a i) (hs : T.Solvent a) (hi : i ≠ T.closer) :
    T.Solvent (T.charge a i) where
  nonneg j hj := (h.charge_bounds hs.nonneg (h.pos hs) hj).1
  funded := by
    rw [charge_of_ne T a (Ne.symm hi)]
    exact hs.funded

def funds (T : Table ι) (a : ι → ℤ) : ℕ := (∑ j ∈ T.seats, a j).toNat

theorem Leads.funds_lt (h : T.Leads a i) (hnonneg : ∀ j ∈ T.seats, 0 ≤ a j) (hpos : 1 ≤ a i) :
    T.funds (T.charge a i) < T.funds a := by
  have htoll := toll_pos (hnonneg _ (T.prev_mem i h.1))
  have hlt : ∑ j ∈ T.seats, T.charge a i j < ∑ j ∈ T.seats, a j := by
    refine Finset.sum_lt_sum (fun j hj => (h.charge_bounds hnonneg hpos hj).2) ⟨i, h.1, ?_⟩
    rw [charge_self]
    omega
  have hlow := Finset.sum_nonneg fun j hj => (h.charge_bounds hnonneg hpos hj).1
  unfold funds
  omega

namespace Round

theorem mem_seats (h : T.Round a l b) (hi : i ∈ l) : i ∈ T.seats := by
  induction h with
  | close lead =>
      rw [List.mem_singleton.mp hi]
      exact T.closer_mem
  | pick lead _ _ ih =>
      rcases List.mem_cons.mp hi with rfl | hi
      · exact lead.1
      · exact ih hi

theorem closer_last (h : T.Round a l b) : ∃ l₀, l = l₀ ++ [T.closer] ∧ T.closer ∉ l₀ := by
  induction h with
  | close => exact ⟨[], rfl, by simp⟩
  | @pick _ _ i _ _ hi _ ih =>
      obtain ⟨l₀, rfl, hl₀⟩ := ih
      exact ⟨i :: l₀, rfl, by simp [Ne.symm hi, hl₀]⟩

theorem closer_mem_picks (h : T.Round a l b) : T.closer ∈ l := by
  obtain ⟨l₀, rfl, -⟩ := h.closer_last
  simp

theorem before_close {I : (ι → ℤ) → Prop}
    (hstep : ∀ a i, I a → T.Leads a i → i ≠ T.closer → I (T.charge a i))
    (h : T.Round a l b) (ha : I a) :
    ∃ c, I c ∧ T.Leads c T.closer ∧ b = T.charge c T.closer := by
  induction h with
  | close lead => exact ⟨_, ha, lead, rfl⟩
  | pick lead hi _ ih => exact ih (hstep _ _ ha lead hi)

theorem not_picked_of_lt (h : T.Round a l b) (hj : a j < a T.closer) : j ∉ l := by
  induction h with
  | close =>
      intro hmem
      rw [List.mem_singleton.mp hmem] at hj
      exact lt_irrefl _ hj
  | @pick a _ i _ lead hi _ ih =>
      have hji : j ≠ i := by
        rintro rfl
        exact not_le.mpr hj (lead.2 _ T.closer_mem)
      rw [charge_of_ne T a hji, charge_of_ne T a (Ne.symm hi)] at ih
      simpa [hji] using ih hj

/-- A solvent round leaves every seat solvent and no seat richer. -/
theorem bounds (h : T.Round a l b) (hs : T.Solvent a) (hj : j ∈ T.seats) :
    0 ≤ b j ∧ b j ≤ a j := by
  induction h with
  | close lead => exact lead.charge_bounds hs.nonneg (lead.pos hs) hj
  | pick lead hi _ ih =>
      have htail := ih (lead.charge_solvent hs hi)
      have hhead := lead.charge_bounds hs.nonneg (lead.pos hs) hj
      omega

theorem unpicked (h : T.Round a l b) (hj : j ∉ l) : b j = a j := by
  induction h with
  | close => exact charge_of_ne T _ (by simpa using hj)
  | pick _ _ _ ih =>
      simp only [List.mem_cons, not_or] at hj
      rw [ih hj.2, charge_of_ne T _ hj.1]

theorem le_closer (h : T.Round a l b) (hj : j ∈ T.seats) (hne : j ≠ T.closer) :
    b j ≤ a T.closer := by
  induction h with
  | close lead =>
      rw [charge_of_ne T _ hne]
      exact lead.2 j hj
  | pick _ hi _ ih =>
      rw [charge_of_ne T _ (Ne.symm hi)] at ih
      exact ih

theorem closer_eq (h : T.Round a l b) (hprev : T.prev T.closer ≠ T.closer) :
    b T.closer = a T.closer - toll (b (T.prev T.closer)) := by
  induction h with
  | close => rw [charge_self, charge_of_ne T _ hprev]
  | pick _ hi _ ih =>
      rw [charge_of_ne T _ (Ne.symm hi)] at ih
      exact ih

/-- A seat is picked only if it started the round ahead of the closing seat. -/
theorem closer_le_of_picked (h : T.Round a l b) (hs : T.Solvent a) (hj : j ∈ l) :
    a T.closer ≤ a j := by
  induction h with
  | close => rw [List.mem_singleton.mp hj]
  | @pick a _ i _ lead hi tail ih =>
      rcases List.mem_cons.mp hj with rfl | hj
      · exact lead.2 _ T.closer_mem
      · have htail := ih (lead.charge_solvent hs hi) hj
        rw [charge_of_ne T _ (Ne.symm hi)] at htail
        exact htail.trans
          (lead.charge_bounds hs.nonneg (lead.pos hs) (tail.mem_seats hj)).2

/-- A round can be undone: the picks and the final credits give the initial ones. -/
theorem eqOn_of_final (hprev : ∀ i ∈ T.seats, T.prev i ≠ i) (h : T.Round a l b)
    (h' : T.Round a' l b') (hb : ∀ j ∈ T.seats, b j = b' j) (hj : j ∈ T.seats) :
    a j = a' j := by
  have undo {a a' : ι → ℤ} {i : ι} (hi : i ∈ T.seats)
      (heq : ∀ j ∈ T.seats, T.charge a i j = T.charge a' i j) {j : ι} (hj : j ∈ T.seats) :
      a j = a' j := by
    by_cases hji : j = i
    · subst hji
      have hpaid := heq j hj
      have hneighbour := heq _ (T.prev_mem j hj)
      rw [charge_of_ne T a (hprev j hj), charge_of_ne T a' (hprev j hj)] at hneighbour
      rw [charge_self, charge_self, hneighbour] at hpaid
      omega
    · have := heq j hj
      rwa [charge_of_ne T a hji, charge_of_ne T a' hji] at this
  induction h generalizing a' j with
  | close =>
      cases h' with
      | close => exact undo T.closer_mem hb hj
      | pick _ hi => exact absurd rfl hi
  | pick lead hi tail ih =>
      cases h' with
      | close => exact absurd rfl hi
      | pick _ _ tail' => exact undo lead.1 (fun j hj => ih tail' hb hj) hj

/-- A strict leader that does not close the round and whose neighbour is in
debt gains by paying, so the round never ends. -/
theorem not_of_debt (hi : i ∈ T.seats) (hopen : i ≠ T.closer) (hprev : T.prev i ≠ i)
    (hlead : ∀ j ∈ T.seats, j ≠ i → a j < a i) (hdebt : a (T.prev i) < 0) :
    ¬ T.Round a l b := by
  intro h
  induction h with
  | close lead => exact absurd (lead.2 i hi) (not_le.mpr (hlead _ T.closer_mem (Ne.symm hopen)))
  | @pick a _ k _ lead _ _ ih =>
      obtain rfl : k = i := by
        by_contra hk
        exact absurd (lead.2 i hi) (not_le.mpr (hlead k lead.1 hk))
      have htoll : toll (a (T.prev k)) = a (T.prev k) := by
        unfold toll
        split <;> omega
      refine ih (fun j hj hjk => ?_) ?_
      · rw [charge_of_ne T a hjk, charge_self, htoll]
        have := hlead j hj hjk
        omega
      · rw [charge_of_ne T a hprev]
        exact hdebt

/-- While the closing seat is in debt, a seat that pays it only gains, so the
closing seat never catches up with one ahead of it. -/
theorem not_of_closer_debt (hi : i ∈ T.seats) (hprev : T.prev i = T.closer)
    (hdebt : a T.closer < 0) (hlt : a T.closer < a i) : ¬ T.Round a l b := by
  intro h
  induction h with
  | close lead => exact absurd (lead.2 i hi) (not_le.mpr hlt)
  | @pick a _ k _ _ hk _ ih =>
      have hcloser := charge_of_ne T a (Ne.symm hk)
      rw [hcloser] at ih
      refine ih hdebt ?_
      by_cases hki : i = k
      · subst hki
        have htoll : toll (a T.closer) = a T.closer := by
          unfold toll
          split <;> omega
        rw [charge_self, hprev, htoll]
        omega
      · rwa [charge_of_ne T a hki]

end Round

/-! ## A bound that no number of turns exceeds

`x` is the credit of the closing seat and `y` that of its neighbour, the seat
with the largest wage `2 * F`.  A turn adds at most `2 * F` to `x` and takes the
final credit of the neighbour away from it; as long as `y` is behind `x` the
neighbour is not picked, so what is taken grows by `2 * F` from turn to turn.
-/

/-- Where the closing seat and its neighbour can stand between two turns. -/
def Settled (F x y : ℤ) : Prop :=
  x ≤ 5 * F ∨ (y < x ∧ 2 * F ≤ y ∧ x + y ≤ 9 * F) ∨
    (y < x ∧ 4 * F ≤ y ∧ x + 2 * y ≤ 15 * F)

theorem Settled.le {F x y : ℤ} (h : Settled F x y) (hF : 0 ≤ F) : x ≤ 7 * F := by
  unfold Settled at h
  omega

theorem Settled.turn {F x y v d u : ℤ} (h : Settled F x y) (hv : 0 ≤ v) (hvx : v ≤ x)
    (hkeep : y < x → v = y) (hd : v ≤ d) (hu : u ≤ 2 * F) :
    Settled F (x - d + u) (v + 2 * F) := by
  unfold Settled at *
  omega

/-- Wages for a table whose closing seat pays the best earner. -/
structure Payroll (T : Table ι) (w : ι → ℤ) (F : ℤ) : Prop where
  pos : ∀ i ∈ T.seats, 1 ≤ w i
  le : ∀ i ∈ T.seats, w i ≤ 2 * F
  prev_ne : T.prev T.closer ≠ T.closer
  prev_wage : w (T.prev T.closer) = 2 * F

structure Bounded (T : Table ι) (F : ℤ) (a : ι → ℤ) : Prop where
  solvent : T.Solvent a
  settled : Settled F (a T.closer) (a (T.prev T.closer))
  le : ∀ i ∈ T.seats, a i ≤ 9 * F

omit [DecidableEq ι] in
theorem Payroll.nonneg {F : ℤ} (hw : Payroll T w F) : 0 ≤ F := by
  have h1 := hw.pos _ T.closer_mem
  have h2 := hw.le _ T.closer_mem
  omega

theorem Turn.bounded {F : ℤ} (h : T.Turn w a l a') (hw : Payroll T w F)
    (ha : Bounded T F a) : Bounded T F a' := by
  obtain ⟨b, hround, hpay⟩ := h
  have hF := hw.nonneg
  have hc := T.closer_mem
  have hp := T.prev_mem _ hc
  have hcloser := hround.closer_eq hw.prev_ne
  have hprev := hround.le_closer hp hw.prev_ne
  have hb {i : ι} (hi : i ∈ T.seats) := hround.bounds ha.solvent hi
  have hx := ha.settled.le hF
  refine ⟨⟨fun i hi => ?_, ?_⟩, ?_, fun i hi => ?_⟩
  · have := hw.pos i hi
    have := (hb hi).1
    rw [hpay i hi]
    omega
  · have := hw.pos _ hc
    have := (hb hc).1
    rw [hpay _ hc]
    omega
  · rw [hpay _ hc, hpay _ hp, hw.prev_wage, hcloser]
    refine ha.settled.turn (hb hp).1 hprev (fun hlt => ?_) (le_toll _) (hw.le _ hc)
    refine hround.unpicked fun hpicked => ?_
    exact absurd (hround.closer_le_of_picked ha.solvent hpicked) (not_le.mpr hlt)
  · have := hw.le i hi
    rw [hpay i hi]
    by_cases hic : i = T.closer
    · subst hic
      have := (hb hi).2
      omega
    · have := hround.le_closer hi hic
      omega

/-! ## Starvation freedom -/

/-- How far the seats that earn no more than `p` are ahead of `p`, in total. -/
def backlog (seats : Finset ι) (w : ι → ℤ) (p : ι) (a : ι → ℤ) : ℕ :=
  ∑ q ∈ seats with w q ≤ w p, (a q - a p + 1).toNat

/-- A turn in which `p` is passed over shrinks its backlog, if the closing seat
earns no more than `p`. -/
theorem Turn.backlog_lt (h : T.Turn w a l a') (hs : T.Solvent a) (hp : p ∈ T.seats)
    (hpassed : p ∉ l) (hw : w T.closer ≤ w p) (hprev : T.prev T.closer ≠ T.closer) :
    backlog T.seats w p a' < backlog T.seats w p a := by
  obtain ⟨b, hround, hpay⟩ := h
  have hpb := hround.unpicked hpassed
  have hpc : p ≠ T.closer := fun h => hpassed (h ▸ hround.closer_mem_picks)
  have hahead : b p ≤ a T.closer := hround.le_closer hp hpc
  have htoll := toll_pos (hround.bounds hs (T.prev_mem _ T.closer_mem)).1
  have hcloser := hround.closer_eq hprev
  refine Finset.sum_lt_sum (fun q hq => ?_) ⟨T.closer, by simp [T.closer_mem, hw], ?_⟩
  · obtain ⟨hq, hwq⟩ := Finset.mem_filter.mp hq
    have := (hround.bounds hs hq).2
    rw [hpay q hq, hpay p hp]
    omega
  · rw [hpay _ T.closer_mem, hpay p hp]
    omega

/-! ## How long it can take

With credits that are bounded, so are the picks of a round and the rounds that pass a seat
over.
-/

omit [DecidableEq ι] in
theorem funds_le {B : ℤ} (ha : ∀ i ∈ T.seats, a i ≤ B) : T.funds a ≤ T.seats.card * B.toNat := by
  have hsum : ∑ j ∈ T.seats, a j ≤ T.seats.card • B := Finset.sum_le_card_nsmul _ _ _ ha
  rw [funds, Int.toNat_le, Nat.cast_mul]
  calc ∑ j ∈ T.seats, a j ≤ T.seats.card • B := hsum
    _ = T.seats.card * B := nsmul_eq_mul _ _
    _ ≤ T.seats.card * (B.toNat : ℤ) :=
      mul_le_mul_of_nonneg_left (Int.self_le_toNat B) (Int.natCast_nonneg _)

theorem Round.length_le_funds (h : T.Round a l b) (hs : T.Solvent a) : l.length ≤ T.funds a := by
  induction h with
  | close lead => exact Nat.one_le_of_lt (lead.funds_lt hs.nonneg (lead.pos hs))
  | pick lead hi _ ih =>
      have hrest := ih (lead.charge_solvent hs hi)
      have hlt := lead.funds_lt hs.nonneg (lead.pos hs)
      rw [List.length_cons]
      omega

omit [DecidableEq ι] in
theorem backlog_le {seats : Finset ι} {B : ℤ} (ha : ∀ q ∈ seats, a q - a p + 1 ≤ B) :
    backlog seats w p a ≤ seats.card * B.toNat := by
  have hle : backlog seats w p a ≤ (seats.filter fun q => w q ≤ w p).card • B.toNat := by
    apply Finset.sum_le_card_nsmul
    intro q hq
    exact Int.toNat_le_toNat (ha q (Finset.mem_filter.mp hq).1)
  rw [nsmul_eq_mul, Nat.cast_id] at hle
  exact hle.trans (Nat.mul_le_mul_right _ (Finset.card_filter_le _ _))

/-! ## No schedule repeats one round for ever -/

/-- Bounded credits must come back to an earlier value; undoing the turns one by
one then brings back the initial credits, which lie below the wages. -/
theorem not_forever_same_picks {a : ℕ → ι → ℤ} {B : ℤ} (hprev : ∀ i ∈ T.seats, T.prev i ≠ i)
    (hturn : ∀ n, T.Turn w (a n) l (a (n + 1))) (hs : ∀ n, T.Solvent (a n))
    (hB : ∀ n, ∀ i ∈ T.seats, a n i ≤ B) (hi : i ∈ T.seats) (hstart : a 0 i < w i) : False := by
  let credits (n : ℕ) : T.seats → Finset.Icc (0 : ℤ) B :=
    fun i => ⟨a n i, Finset.mem_Icc.mpr ⟨(hs n).nonneg i i.2, hB n i i.2⟩⟩
  obtain ⟨m, n, hmn, hcredits⟩ := Finite.exists_ne_map_eq_of_infinite credits
  have hsame {m n : ℕ} (h : credits m = credits n) {j : ι} (hj : j ∈ T.seats) : a m j = a n j :=
    congrArg Subtype.val (congrFun h ⟨j, hj⟩)
  have undo (m n : ℕ) (h : ∀ j ∈ T.seats, a (m + 1) j = a (n + 1) j) :
      ∀ j ∈ T.seats, a m j = a n j := by
    obtain ⟨b, hround, hpay⟩ := hturn m
    obtain ⟨b', hround', hpay'⟩ := hturn n
    refine fun j hj => hround.eqOn_of_final hprev hround' (fun k hk => ?_) hj
    have := h k hk
    rw [hpay k hk, hpay' k hk] at this
    omega
  have back (m d : ℕ) (h : ∀ j ∈ T.seats, a m j = a (m + (d + 1)) j) :
      ∀ j ∈ T.seats, a 0 j = a (d + 1) j := by
    induction m with
    | zero => simpa using h
    | succ m ih =>
        refine ih (undo m (m + (d + 1)) fun j hj => ?_)
        rw [h j hj, show m + (d + 1) + 1 = m + 1 + (d + 1) by omega]
  obtain ⟨d, hd⟩ : ∃ d, ∀ j ∈ T.seats, a 0 j = a (d + 1) j := by
    rcases Nat.lt_or_gt_of_ne hmn with hlt | hlt
    · obtain ⟨d, rfl⟩ := Nat.exists_eq_add_of_lt hlt
      exact ⟨d, back m d fun j hj => hsame hcredits hj⟩
    · obtain ⟨d, rfl⟩ := Nat.exists_eq_add_of_lt hlt
      exact ⟨d, back n d fun j hj => hsame hcredits.symm hj⟩
  obtain ⟨b, hround, hpay⟩ := hturn d
  have hearned := (hround.bounds (hs d) hi).1
  have hback := hd i hi
  rw [hpay i hi] at hback
  omega

/-- No invariant under which every turn has the same picks holds of credits
below the wages. -/
theorem not_invariant_same_picks {I : (ι → ℤ) → Prop} {B : ℤ}
    (hprev : ∀ i ∈ T.seats, T.prev i ≠ i)
    (hturn : ∀ a, I a → ∃ a', I a' ∧ T.Turn w a l a') (hs : ∀ a, I a → T.Solvent a)
    (hB : ∀ a, I a → ∀ i ∈ T.seats, a i ≤ B) (ha : I a) (hi : i ∈ T.seats)
    (hstart : a i < w i) : False := by
  choose next hnext hround using hturn
  let run (n : ℕ) : {a : ι → ℤ // I a} :=
    Nat.rec ⟨a, ha⟩ (fun _ a => ⟨next a.1 a.2, hnext a.1 a.2⟩) n
  exact not_forever_same_picks (a := fun n => (run n).1) hprev (fun n => hround _ (run n).2)
    (fun n => hs _ (run n).2) (fun n => hB _ (run n).2) hi hstart

end Table

end FyS.Library.CreditRound
