import FyS.Arena.PriorityOrder.InStep

/-!
# Who is in the lists

The public operations keep the lists in step, and so does every interleaving of
them: who is served is registered, and who was removed stays away.
-/

namespace FyS.Arena.PriorityOrderList

open FyS.Library.Fuel

variable {P : Platform}

/-! ## The operations -/

def initial (P : Platform) (l : List PriorityElem) : PriorityOrderList :=
  ⟨P.sort.run l, P.sort.run l, P.sort.run l, ⟨0, 0, false⟩, if l = [] then 0 else P.uint 1⟩

theorem ofBaseSpeed_eq (fuel : Nat) (l : List PriorityElem) :
    ofBaseSpeed P fuel l = .ok (initial P l) := by
  unfold ofBaseSpeed sortBaseAndCalculatePriority
  by_cases hl : l = []
  · subst hl
    have hnil : P.sort.run [] = [] := sort_eq_nil.mpr rfl
    simp [initial, hnil]
  · simp [initial, hl]

theorem any_iff_key_mem {l : List PriorityElem} {id : Nat} {isContender : Bool} :
    (l.any fun prioElem => prioElem.id == id && prioElem.isContender == isContender) = true ↔
      (id, isContender) ∈ keys l := by
  simp [keys, PriorityElem.key]

def newcomerSpeed (P : Platform) (s : PriorityOrderList) (newcomer : PriorityElem) :
    Except Fault Int :=
  if s.currentTurn > 0 then
    P.int (newcomer.speed +
      getFastestBaseSpeed { s with baseSpeed := s.baseSpeed ++ [newcomer] })
  else .ok newcomer.speed

def welcomed (s : PriorityOrderList) (newcomer : PriorityElem) (speed : Int) : PriorityOrderList :=
  { s with
    baseSpeed := s.baseSpeed ++ [newcomer]
    analyzedList := s.analyzedList ++ [{ newcomer with speed }]
    priorityList := [] }

theorem addParticipantInList_newcomer {s : PriorityOrderList} {id : Nat} {speed : Int}
    {isContender : Bool} (hnew : (id, isContender) ∉ keys s.baseSpeed) (fuel : Nat) :
    addParticipantInList P fuel id speed isContender s =
      newcomerSpeed P s ⟨id, speed, isContender⟩ >>= fun stored =>
        sortBaseAndCalculatePriority P fuel (s.welcomed ⟨id, speed, isContender⟩ stored) >>=
          fun u => .ok { u with currentTurn := s.currentTurn } := by
  unfold addParticipantInList newcomerSpeed
  rw [if_neg (mt any_iff_key_mem.mp hnew)]
  by_cases hturn : s.currentTurn > 0
  · simp only [hturn, if_true]
    rfl
  · simp only [hturn, if_false]
    rfl

/-- `getFastestBaseSpeed` is asked for right after the newcomer was appended,
so the bonus is the newcomer's own speed. -/
theorem newcomerSpeed_eq (s : PriorityOrderList) (newcomer : PriorityElem) :
    newcomerSpeed P s newcomer =
      if s.currentTurn > 0 then P.int (newcomer.speed + newcomer.speed) else .ok newcomer.speed := by
  simp [newcomerSpeed, getFastestBaseSpeed]

theorem newcomerSpeed_sound {s : PriorityOrderList} {newcomer : PriorityElem}
    (hspeed : 1 ≤ newcomer.speed) :
    Sound (fun stored => 1 ≤ stored ∧ stored ≤ 2 * newcomer.speed)
      (newcomerSpeed P s newcomer) := by
  rw [newcomerSpeed_eq]
  split
  · unfold Platform.int
    split
    · exact ⟨by omega, by omega⟩
    · exact nofun
  · exact ⟨hspeed, by omega⟩

theorem adds_iff {s t : PriorityOrderList} {id : Nat} {speed : Int} {isContender : Bool} :
    Returns (fun fuel => addParticipantInList P fuel id speed isContender s) t ↔
      ((id, isContender) ∈ keys s.baseSpeed ∧ t = s) ∨
        ((id, isContender) ∉ keys s.baseSpeed ∧
          ∃ stored, newcomerSpeed P s ⟨id, speed, isContender⟩ = .ok stored ∧
            ∃ u, Refills P (s.welcomed ⟨id, speed, isContender⟩ stored) u ∧
              t = { u with currentTurn := s.currentTurn }) := by
  by_cases hmem : (id, isContender) ∈ keys s.baseSpeed
  · unfold addParticipantInList
    simp [any_iff_key_mem.mpr hmem, hmem, Returns, eq_comm]
  · simp only [addParticipantInList_newcomer hmem, hmem, false_and, not_false_eq_true, true_and,
      false_or]
    constructor
    · rintro ⟨fuel, h⟩
      obtain ⟨stored, hstored, h⟩ := bind_eq_ok.mp h
      obtain ⟨u, hu, h⟩ := bind_eq_ok.mp h
      exact ⟨stored, hstored, u, ⟨fuel, hu⟩, (Except.ok.inj h).symm⟩
    · rintro ⟨stored, hstored, u, ⟨fuel, hu⟩, rfl⟩
      exact ⟨fuel, bind_eq_ok.mpr ⟨stored, hstored, bind_eq_ok.mpr ⟨u, hu, rfl⟩⟩⟩

theorem welcomed_ne_nil (s : PriorityOrderList) (newcomer : PriorityElem) (speed : Int) :
    (s.welcomed newcomer speed).baseSpeed ≠ [] := by
  simp [welcomed]

theorem InStep.welcomed {s : PriorityOrderList} (h : InStep s) {newcomer : PriorityElem}
    {speed : Int} (hspeed : 1 ≤ newcomer.speed) (hstored : 1 ≤ speed) :
    InStep (s.welcomed newcomer speed) := by
  constructor
  · intro b hb
    rcases List.mem_append.mp hb with hb | hb
    · exact h.base_pos b hb
    · rw [List.mem_singleton.mp hb]
      exact hspeed
  · unfold PriorityOrderList.welcomed
    rw [keys_append, keys_append]
    exact h.analyzed.append_right _
  · exact fun e he => nomatch he
  · intro e he
    rcases List.mem_append.mp he with he | he
    · exact h.nonneg e he
    · rw [List.mem_singleton.mp he]
      exact Int.le_trans (by decide) hstored
  · intro b hb
    rcases List.mem_append.mp hb with hb | hb
    · obtain ⟨e, he, hfunded⟩ := h.funded b hb
      exact ⟨e, List.mem_append_left _ he, hfunded⟩
    · rw [List.mem_singleton.mp hb]
      exact ⟨_, List.mem_append_right _ (List.mem_singleton_self _), rfl, hstored⟩

theorem keys_filter (l : List PriorityElem) (id : Nat) :
    keys (l.filter (·.id != id)) = (keys l).filter (·.1 != id) := by
  rw [keys, keys, List.filter_map]
  rfl

theorem InStep.remove {s : PriorityOrderList} (h : InStep s) (id : Nat) :
    InStep (s.removeParticipantFromList id) where
  base_pos b hb := h.base_pos b (List.mem_of_mem_filter hb)
  analyzed := by
    show (keys (s.analyzedList.filter _)).Perm (keys (s.baseSpeed.filter _))
    rw [keys_filter, keys_filter]
    exact h.analyzed.filter _
  priority e he := by
    obtain ⟨he, hid⟩ := List.mem_filter.mp he
    show e.key ∈ keys (s.baseSpeed.filter _)
    rw [keys_filter]
    exact List.mem_filter.mpr ⟨h.priority e he, hid⟩
  nonneg e he := h.nonneg e (List.mem_of_mem_filter he)
  funded b hb := by
    obtain ⟨hb, hid⟩ := List.mem_filter.mp hb
    obtain ⟨e, he, heid, hpos⟩ := h.funded b hb
    exact ⟨e, List.mem_filter.mpr ⟨he, by rw [heid]; exact hid⟩, heid, hpos⟩

theorem InStep.served {s : PriorityOrderList} (h : InStep s) {l : List PriorityElem}
    {e : PriorityElem} (hl : s.priorityList = l ++ [e]) : InStep (s.served e l) where
  base_pos := h.base_pos
  analyzed := h.analyzed
  priority x hx := by
    apply h.priority
    rw [hl]
    exact List.mem_append_left _ hx
  nonneg := h.nonneg
  funded := h.funded

theorem InStep.getNext_sound {s : PriorityOrderList} (h : InStep s) (fuel : Nat) :
    Sound (fun r => InStep r.2 ∧ r.2.baseSpeed.Perm s.baseSpeed ∧
      (s.baseSpeed = [] → r.1 = ⟨0, 0, false⟩) ∧ (s.baseSpeed ≠ [] → r.1.key ∈ keys s.baseSpeed))
      (getNext P fuel s) := by
  induction fuel generalizing s with
  | zero => exact nofun
  | succ fuel ih =>
      rw [getNext]
      split
      · rename_i hempty
        exact ⟨h, List.Perm.refl _, fun _ => rfl, (absurd (List.isEmpty_iff.mp hempty) ·)⟩
      · rename_i hbase
        have hbase : s.baseSpeed ≠ [] := mt List.isEmpty_iff.mpr hbase
        split
        · refine (h.refill_sound hbase fuel).bind ?_
          rintro u ⟨hstep, hperm, -⟩
          refine (ih hstep).imp ?_
          rintro r ⟨hr, hrperm, -, hkey⟩
          have hne : u.baseSpeed ≠ [] := by
            rintro hnil
            exact hbase (List.nil_perm.mp (hnil ▸ hperm))
          exact ⟨hr, hrperm.trans hperm, (absurd · hbase),
            fun _ => (keys_perm hperm).mem_iff.mp (hkey hne)⟩
        · rename_i prio hlast
          obtain ⟨l, hl⟩ := List.getLast?_eq_some_iff.mp hlast
          have hserved := h.served hl
          rw [PriorityOrderList.served] at hserved
          rw [hl, List.dropLast_concat]
          exact ⟨hserved, List.Perm.refl _, (absurd · hbase), fun _ => h.priority prio (by simp [hl])⟩

theorem InStep.getNext_returns {s : PriorityOrderList} (h : InStep s) {F M : Int}
    (hM : Affords P M) (hbudget : Budget F M s) : ∃ e t, Gives P s e t := by
  have pop {s : PriorityOrderList} (hbase : s.baseSpeed ≠ []) (hprio : s.priorityList ≠ []) :
      ∃ e t, Gives P s e t := by
    rcases List.eq_nil_or_concat s.priorityList with hnil | ⟨l, e, hl⟩
    · exact absurd hnil hprio
    · rw [List.concat_eq_append] at hl
      exact ⟨e, s.served e l, (gives_of_priority hbase hl).mpr ⟨rfl, rfl⟩⟩
  by_cases hbase : s.baseSpeed = []
  · exact ⟨_, s, (gives_of_empty hbase).mpr ⟨rfl, rfl⟩⟩
  · by_cases hprio : s.priorityList = []
    · obtain ⟨u, fuel, hu⟩ := h.refill_returns hbase hM hbudget
      obtain ⟨-, -, hne⟩ := (h.refill_sound hbase fuel).of_eq hu
      obtain ⟨e, t, hgives⟩ := pop (Refills.ne_nil ⟨fuel, hu⟩ hbase) hne
      exact ⟨e, t, (gives_of_refill hbase hprio).mpr ⟨u, ⟨fuel, hu⟩, hgives⟩⟩
    · exact pop hbase hprio

theorem InStep.gives (hP : ∀ v, P.fits v = true) {s : PriorityOrderList} (h : InStep s) :
    ∃ e t, Gives P s e t ∧ InStep t ∧ t.baseSpeed.Perm s.baseSpeed ∧
      (s.baseSpeed = [] → e = ⟨0, 0, false⟩) ∧
      (s.baseSpeed ≠ [] → e.key ∈ keys s.baseSpeed) := by
  obtain ⟨F, M, hbudget⟩ := exists_budget h.base_pos
  obtain ⟨e, t, fuel, hfuel⟩ := h.getNext_returns (fun v _ _ => hP v) hbudget
  exact ⟨e, t, ⟨fuel, hfuel⟩, (h.getNext_sound fuel).of_eq hfuel⟩

theorem InStep.drained {s : PriorityOrderList} (h : InStep s) : InStep s.drained :=
  ⟨h.base_pos, h.analyzed, List.forall_mem_nil _, h.nonneg, h.funded⟩

/-! ## Interleavings -/

def PosSpeed (_ : PriorityOrderList) (op : ListOp) : Prop := ∀ b ∈ op.added, 1 ≤ b.speed

theorem mem_registered {base : List PriorityElem} {op : ListOp} {b : PriorityElem}
    (hb : b ∈ op.registered base) : b ∈ base ∨ b ∈ op.added := by
  cases op with
  | addParticipantInList id speed isContender =>
      rw [ListOp.registered] at hb
      split at hb
      · exact .inl hb
      · exact (List.mem_append.mp hb).imp_right fun h => by simpa [ListOp.added, eq_comm] using h
  | removeParticipantFromList id => exact .inl (List.mem_of_mem_filter hb)
  | getNext => exact .inl hb

theorem InStep.exec_sound {s : PriorityOrderList} (h : InStep s) {op : ListOp}
    (hop : PosSpeed s op) (fuel : Nat) :
    Sound (fun t => InStep t ∧ t.baseSpeed.Perm (op.registered s.baseSpeed))
      (op.exec P fuel s) := by
  cases op with
  | addParticipantInList id speed isContender =>
      rw [ListOp.exec, ListOp.registered]
      by_cases hmem : (id, isContender) ∈ keys s.baseSpeed
      · rw [addParticipantInList, if_pos (any_iff_key_mem.mpr hmem), if_pos hmem]
        exact ⟨h, List.Perm.refl _⟩
      · have hspeed : 1 ≤ speed := hop _ rfl
        rw [addParticipantInList_newcomer hmem, if_neg hmem]
        refine (newcomerSpeed_sound hspeed).bind fun stored hstored => ?_
        refine ((h.welcomed hspeed hstored.1).refill_sound (welcomed_ne_nil _ _ _) fuel).bind ?_
        rintro u ⟨hstep, hperm, -⟩
        exact ⟨⟨hstep.base_pos, hstep.analyzed, hstep.priority, hstep.nonneg, hstep.funded⟩,
          hperm⟩
  | removeParticipantFromList id => exact ⟨h.remove id, List.Perm.refl _⟩
  | getNext => exact (h.getNext_sound fuel).bind fun r hr => ⟨hr.1, hr.2.1⟩

theorem Budget.base_sum_nonneg {F M : Int} {s : PriorityOrderList} (h : Budget F M s)
    (hpos : ∀ b ∈ s.baseSpeed, 1 ≤ b.speed) : 0 ≤ (s.baseSpeed.map (·.speed + F)).sum := by
  refine List.sum_nonneg fun v hv => ?_
  obtain ⟨b, hb, rfl⟩ := List.mem_map.mp hv
  have := hpos b hb
  have := h.base_le b hb
  omega

theorem Budget.welcomed {F M : Int} {s : PriorityOrderList} (h : Budget F M s)
    {newcomer : PriorityElem} {speed : Int} (hF : newcomer.speed ≤ F)
    (hstored : speed ≤ 2 * newcomer.speed) :
    Budget F (M + 4 * F) (s.welcomed newcomer speed) := by
  have hle := h.total_le
  constructor
  · intro b hb
    rcases List.mem_append.mp hb with hb | hb
    · exact h.base_le b hb
    · rw [List.mem_singleton.mp hb]
      exact hF
  · simp only [PriorityOrderList.welcomed, total_append_singleton, List.map_append,
      List.map_singleton, List.sum_append, List.sum_singleton]
    omega

theorem InStep.exec_returns {s : PriorityOrderList} (h : InStep s) {op : ListOp}
    (hop : PosSpeed s op) {F M : Int} (hF : ∀ b ∈ op.added, b.speed ≤ F)
    (hbudget : Budget F M s) (hM : Affords P (M + 4 * F)) :
    ∃ t, Returns (fun fuel => op.exec P fuel s) t := by
  have hsum := hbudget.base_sum_nonneg h.base_pos
  have htotal := total_nonneg h.nonneg
  have hle := hbudget.total_le
  cases op with
  | addParticipantInList id speed isContender =>
      by_cases hmem : (id, isContender) ∈ keys s.baseSpeed
      · exact ⟨s, adds_iff.mpr (.inl ⟨hmem, rfl⟩)⟩
      · have hspeed : 1 ≤ speed := hop _ rfl
        have hspeedF : speed ≤ F := hF _ rfl
        have hadd : ∃ stored, newcomerSpeed P s ⟨id, speed, isContender⟩ = .ok stored := by
          rw [newcomerSpeed_eq]
          split
          · have hfits : P.fits (speed + speed) = true := hM _ (by omega) (by omega)
            exact ⟨speed + speed, int_of_fits hfits⟩
          · exact ⟨speed, rfl⟩
        obtain ⟨stored, hstored⟩ := hadd
        obtain ⟨hpos, hle'⟩ := (newcomerSpeed_sound hspeed).of_eq hstored
        obtain ⟨u, hu⟩ := (h.welcomed hspeed hpos).refill_returns (welcomed_ne_nil _ _ _) hM
          (hbudget.welcomed hspeedF hle')
        exact ⟨_, adds_iff.mpr (.inr ⟨hmem, stored, hstored, u, hu, rfl⟩)⟩
  | removeParticipantFromList id => exact ⟨s.removeParticipantFromList id, 0, rfl⟩
  | getNext =>
      have hgives : ∃ e t, Gives P s e t := by
        by_cases hbase : s.baseSpeed = []
        · exact ⟨_, s, (gives_of_empty hbase).mpr ⟨rfl, rfl⟩⟩
        · obtain ⟨b, hb⟩ := List.exists_mem_of_ne_nil _ hbase
          have hpos := h.base_pos b hb
          have hle := hbudget.base_le b hb
          exact h.getNext_returns (fun v hv hvM => hM v hv (by omega)) hbudget
      obtain ⟨e, t, fuel, hfuel⟩ := hgives
      refine ⟨t, fuel, ?_⟩
      show Prod.snd <$> getNext P fuel s = .ok t
      rw [show getNext P fuel s = .ok (e, t) from hfuel]
      rfl

theorem InStep.exists_budget_for {s : PriorityOrderList} (h : InStep s) (op : ListOp) :
    ∃ F M, Budget F M s ∧ ∀ b ∈ op.added, b.speed ≤ F := by
  obtain ⟨F, _, hbudget⟩ := exists_budget h.base_pos
  refine ⟨max F ((op.added.map (·.speed)).getD 0), _,
    ⟨fun b hb => (hbudget.base_le b hb).trans (le_max_left _ _), le_rfl⟩, fun b hb => ?_⟩
  rw [Option.mem_def.mp hb]
  exact le_max_right _ _

theorem Constructed.inStep {s : PriorityOrderList}
    (h : Constructed P (fun l => ∀ b ∈ l, 1 ≤ b.speed) s) : InStep s := by
  cases h with
  | empty => exact inStep_of_base (s := PriorityOrderList.empty) (fun _ hb => nomatch hb) rfl rfl
  | @ofBaseSpeed l _ hl hret =>
      obtain ⟨fuel, hfuel⟩ := hret
      rw [show s = initial P l from Except.ok.inj (hfuel.symm.trans (ofBaseSpeed_eq fuel l))]
      exact inStep_of_base (s := initial P l)
        (fun b hb => hl b ((P.sort.perm l).mem_iff.mp hb)) rfl rfl

/-- Along any interleaving the lists stay in step, and whatever the operations
keep of who is registered stays true. -/
theorem InStep.reaches {adm : PriorityOrderList → ListOp → Prop}
    (hadm : ∀ s op, adm s op → PosSpeed s op) {R : List PriorityElem → Prop}
    (hperm : ∀ l l', l.Perm l' → R l → R l')
    (hop : ∀ s op, adm s op → R s.baseSpeed → R (op.registered s.baseSpeed))
    {s t : PriorityOrderList} (h : InStep s) (hs : R s.baseSpeed) (hreach : Reaches P adm s t) :
    InStep t ∧ R t.baseSpeed := by
  induction hreach with
  | refl => exact ⟨h, hs⟩
  | @tail u v _ hstep ih =>
      obtain ⟨op, hadmitted, fuel, hret⟩ := hstep
      obtain ⟨hv, hbase⟩ := (ih.1.exec_sound (hadm u op hadmitted) fuel).of_eq hret
      exact ⟨hv, hperm _ _ hbase.symm (hop u op hadmitted ih.2)⟩

/-- Who takes part: the lists agree, no call asks an empty list for its back, what is served is
registered, a removed id stays away until it is added again, and calls whose numbers fit
return. -/
structure KeepsMembers (P : Platform) (s : PriorityOrderList) : Prop where
  analyzed : (keys s.analyzedList).Perm (keys s.baseSpeed)
  priority : ∀ e ∈ s.priorityList, e.key ∈ keys s.baseSpeed
  back : ∀ op, PosSpeed s op → ∀ fuel, op.exec P fuel s ≠ .error .emptyBack
  served : ∀ e t, Gives P s e t →
    (s.baseSpeed ≠ [] → e.key ∈ keys s.baseSpeed) ∧ (s.baseSpeed = [] → e = ⟨0, 0, false⟩)
  removed : ∀ id t e u,
    Reaches P (fun v op => PosSpeed v op ∧ ∀ b ∈ op.added, b.id ≠ id)
      (s.removeParticipantFromList id) t →
    Gives P t e u → (t.baseSpeed ≠ [] ∧ e.id ≠ id) ∨ (t.baseSpeed = [] ∧ e = ⟨0, 0, false⟩)
  gives : ∀ F M, Budget F M s → Affords P M → ∃ e t, Gives P s e t
  returns : ∀ op F M, PosSpeed s op → (∀ b ∈ op.added, b.speed ≤ F) → Budget F M s →
    Affords P (M + 4 * F) → ∃ t, Returns (fun fuel => op.exec P fuel s) t

theorem InStep.stays_away {s t u : PriorityOrderList} (h : InStep s) {id : Nat}
    (habsent : ∀ b ∈ s.baseSpeed, b.id ≠ id) {e : PriorityElem}
    (ht : Reaches P (fun v op => PosSpeed v op ∧ ∀ b ∈ op.added, b.id ≠ id) s t)
    (hgives : Gives P t e u) :
    (t.baseSpeed ≠ [] ∧ e.id ≠ id) ∨ (t.baseSpeed = [] ∧ e = ⟨0, 0, false⟩) := by
  obtain ⟨hstep, hkeep⟩ := h.reaches (R := fun l => ∀ b ∈ l, b.id ≠ id)
    (fun _ _ hop => hop.1) (fun _ _ hperm hl b hb => hl b (hperm.mem_iff.mpr hb))
    (fun _ _ hop hl b hb => (mem_registered hb).elim (hl b) (hop.2 b)) habsent ht
  obtain ⟨fuel, hfuel⟩ := hgives
  obtain ⟨-, -, hnil, hkey⟩ := (hstep.getNext_sound fuel).of_eq hfuel
  by_cases hbase : t.baseSpeed = []
  · exact .inr ⟨hbase, hnil hbase⟩
  · obtain ⟨b, hb, hbe⟩ := List.mem_map.mp (hkey hbase)
    refine .inl ⟨hbase, ?_⟩
    rw [← e.key_fst, ← hbe]
    exact hkeep b hb

theorem InStep.keepsMembers {s : PriorityOrderList} (h : InStep s) : KeepsMembers P s where
  analyzed := h.analyzed
  priority := h.priority
  back op hop fuel := (h.exec_sound hop fuel).ne_emptyBack
  served e t hgives := by
    obtain ⟨fuel, hfuel⟩ := hgives
    obtain ⟨-, -, hnil, hkey⟩ := (h.getNext_sound fuel).of_eq hfuel
    exact ⟨hkey, hnil⟩
  removed id t e u ht hgives :=
    (h.remove id).stays_away (fun b hb => by simpa using (List.mem_filter.mp hb).2) ht hgives
  gives F M hbudget hM := h.getNext_returns hM hbudget
  returns op F M hop hF hbudget hM := h.exec_returns hop hF hbudget hM

/-- Who takes part, over every interleaving of construction, arrivals,
departures and `getNext`, whatever an `int` holds; and on unbounded integers every
call returns. -/
theorem reachable_membership (P : Platform) {s₀ s : PriorityOrderList}
    (hs₀ : Constructed P (fun l => ∀ b ∈ l, 1 ≤ b.speed) s₀) (hs : Reaches P PosSpeed s₀ s) :
    KeepsMembers P s ∧
      ((∀ v, P.fits v = true) → (∃ e t, Gives P s e t) ∧
        ∀ op, PosSpeed s op → ∃ t, Returns (fun fuel => op.exec P fuel s) t) := by
  have h : InStep s := (hs₀.inStep.reaches (R := fun _ => True) (fun _ _ => id)
    (fun _ _ _ _ => trivial) (fun _ _ _ _ => trivial) trivial hs).1
  refine ⟨h.keepsMembers, fun hP => ⟨?_, fun op hop => ?_⟩⟩
  · obtain ⟨e, t, hgives, -⟩ := h.gives hP
    exact ⟨e, t, hgives⟩
  · obtain ⟨F, M, hbudget, hF⟩ := h.exists_budget_for op
    exact h.exec_returns hop hF hbudget fun v _ _ => hP v

/-- A contender and a team member share an id, and the id is removed. -/
theorem reachable_membership_shared_id :
    KeepsMembers (.int32 insertionSort) ((initial (.int32 insertionSort)
      [⟨1, 3, true⟩, ⟨1, 5, false⟩, ⟨2, 4, false⟩]).removeParticipantFromList 1) :=
  (reachable_membership (.int32 insertionSort)
    (.ofBaseSpeed (l := [⟨1, 3, true⟩, ⟨1, 5, false⟩, ⟨2, 4, false⟩]) (by decide)
      ⟨0, ofBaseSpeed_eq 0 _⟩)
    (.single ⟨.removeParticipantFromList 1, by simp [PosSpeed, ListOp.added], 0, rfl⟩)).1

def fastPair : PriorityOrderList :=
  (initial (.int32 insertionSort) [⟨1, 2147483646, false⟩, ⟨2, 2147483647, true⟩]).drained

/-- In 32 bits the payment at the end of the second turn leaves the range. -/
theorem getNext_overflows :
    ¬ ∀ (P : Platform) (s₀ s : PriorityOrderList),
      Constructed P (fun l => ∀ b ∈ l, 1 ≤ b.speed) s₀ → Reaches P PosSpeed s₀ s →
        s.baseSpeed ≠ [] → ∃ e t, Gives P s e t := by
  intro h
  have hadm (s : PriorityOrderList) : PosSpeed s .getNext := by simp [PosSpeed, ListOp.added]
  have hreach : Reaches (.int32 insertionSort) PosSpeed
      (initial (.int32 insertionSort) [⟨1, 2147483646, false⟩, ⟨2, 2147483647, true⟩])
      fastPair :=
    (Relation.ReflTransGen.single ⟨.getNext, hadm _, 1, rfl⟩).tail ⟨.getNext, hadm _, 1, rfl⟩
  obtain ⟨e, t, hgives⟩ := h (.int32 insertionSort) _ fastPair
    (.ofBaseSpeed (by decide) ⟨0, ofBaseSpeed_eq 0 _⟩) hreach (by decide)
  have hfault : getNext (.int32 insertionSort) 4 fastPair = .error .overflow := by decide +kernel
  exact nomatch hgives.error_eq (getNext_stable fastPair) hfault

end FyS.Arena.PriorityOrderList
