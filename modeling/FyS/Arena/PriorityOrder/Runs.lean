import FyS.Arena.PriorityOrder.Steps
import Mathlib.Data.List.Induction
import Mathlib.Logic.Relation

/-!
# Runs of a priority list

What each public operation returns, free of fuel, the states an interleaving
of them reaches, and the elements served by successive `getNext` calls.
-/

namespace FyS.Arena

open FyS.Library.Fuel

namespace PriorityOrderList

variable {P : Platform}

/-- The participants of a list, as `operator==` tells them apart. -/
def keys (l : List PriorityElem) : List (Nat × Bool) := l.map PriorityElem.key

/-! ## Refilling -/

def Refills (P : Platform) (s t : PriorityOrderList) : Prop :=
  Returns (fun fuel => sortBaseAndCalculatePriority P fuel s) t

theorem Refills.ne_nil {s t : PriorityOrderList} (h : Refills P s t) (hbase : s.baseSpeed ≠ []) :
    t.baseSpeed ≠ [] := by
  obtain ⟨fuel, hfuel⟩ := h
  exact sortBaseAndCalculatePriority_ne_nil hbase hfuel

/-- `getNext` returns `e` and leaves `t`. -/
def Gives (P : Platform) (s : PriorityOrderList) (e : PriorityElem) (t : PriorityOrderList) :
    Prop :=
  Returns (fun fuel => getNext P fuel s) (e, t)

theorem Gives.unique {s t t' : PriorityOrderList} {e e' : PriorityElem}
    (h : Gives P s e t) (h' : Gives P s e' t') : e = e' ∧ t = t' :=
  Prod.mk.inj (Returns.unique (getNext_stable s) h h')

theorem gives_iff_of_run {s t u : PriorityOrderList} {e e' : PriorityElem}
    (h : ∀ fuel, getNext P (fuel + 1) s = .ok (e, u)) : Gives P s e' t ↔ e' = e ∧ t = u := by
  have hgives : Gives P s e u := ⟨1, h 0⟩
  constructor
  · intro h'
    obtain ⟨rfl, rfl⟩ := hgives.unique h'
    exact ⟨rfl, rfl⟩
  · rintro ⟨rfl, rfl⟩
    exact hgives

theorem gives_of_empty {s t : PriorityOrderList} {e : PriorityElem} (h : s.baseSpeed = []) :
    Gives P s e t ↔ e = ⟨0, 0, false⟩ ∧ t = s := by
  apply gives_iff_of_run
  intro fuel
  simp [getNext, h]

def served (s : PriorityOrderList) (e : PriorityElem) (l : List PriorityElem) :
    PriorityOrderList :=
  { s with currentPrio := e, priorityList := l }

theorem gives_of_priority {s t : PriorityOrderList} {e e' : PriorityElem}
    {l : List PriorityElem} (h : s.baseSpeed ≠ []) (hl : s.priorityList = l ++ [e]) :
    Gives P s e' t ↔ e' = e ∧ t = s.served e l := by
  apply gives_iff_of_run
  intro fuel
  simp [getNext, h, hl, served]

theorem gives_of_refill {s t : PriorityOrderList} {e : PriorityElem} (h : s.baseSpeed ≠ [])
    (hl : s.priorityList = []) :
    Gives P s e t ↔ ∃ u, Refills P s u ∧ Gives P u e t := by
  have hrun (fuel : Nat) : getNext P (fuel + 1) s =
      sortBaseAndCalculatePriority P fuel s >>= getNext P fuel := by
    simp [getNext, h, hl]
  have hbind := Returns.bind_iff (b := (e, t)) (sortBaseAndCalculatePriority_stable (P := P) s)
    (g := fun u fuel => getNext P fuel u) getNext_stable
  refine Iff.trans ⟨?_, ?_⟩ hbind
  · rintro ⟨fuel, hfuel⟩
    cases fuel with
    | zero => cases hfuel
    | succ fuel => exact ⟨fuel, by rw [← hfuel]; exact (hrun fuel).symm⟩
  · rintro ⟨fuel, hfuel⟩
    exact ⟨fuel + 1, by rw [← hfuel]; exact hrun fuel⟩

/-- What a call serves stands at the back of the priority list after some refills,
and what these keep holds there. -/
theorem getNext_served {I : PriorityOrderList → Prop}
    (hrefill : ∀ s t, I s → Refills P s t → I t) {fuel : Nat} {s t : PriorityOrderList}
    {e : PriorityElem} (hs : I s) (hbase : s.baseSpeed ≠ [])
    (h : getNext P fuel s = .ok (e, t)) :
    ∃ u l, I u ∧ u.priorityList = l ++ [e] ∧ t = u.served e l := by
  induction fuel generalizing s with
  | zero => cases h
  | succ fuel ih =>
      rw [getNext] at h
      split at h
      · rename_i hempty
        exact absurd (List.isEmpty_iff.mp hempty) hbase
      · split at h
        · obtain ⟨u, hu, hnext⟩ := bind_eq_ok.mp h
          exact ih (hrefill s u hs ⟨fuel, hu⟩) (sortBaseAndCalculatePriority_ne_nil hbase hu) hnext
        · rename_i prio hlast
          obtain ⟨l, hl⟩ := List.getLast?_eq_some_iff.mp hlast
          obtain ⟨rfl, rfl⟩ := Prod.mk.inj (Except.ok.inj h)
          refine ⟨s, l, hs, hl, ?_⟩
          rw [served, hl, List.dropLast_concat]

theorem getNext_perm {fuel : Nat} {s t : PriorityOrderList} {e : PriorityElem}
    (h : getNext P fuel s = .ok (e, t)) : t.baseSpeed.Perm s.baseSpeed := by
  by_cases hbase : s.baseSpeed = []
  · rw [((gives_of_empty hbase).mp ⟨fuel, h⟩).2]
  · have hkept : ∀ u v : PriorityOrderList, u.baseSpeed.Perm s.baseSpeed → Refills P u v →
        v.baseSpeed.Perm s.baseSpeed := by
      rintro u v hu ⟨fuel, hfuel⟩
      exact (sortBaseAndCalculatePriority_perm hfuel).trans hu
    obtain ⟨u, l, hu, -, rfl⟩ := getNext_served hkept (List.Perm.refl _) hbase h
    exact hu

theorem getNext_ne_nil {fuel : Nat} {s t : PriorityOrderList} {e : PriorityElem}
    (hbase : s.baseSpeed ≠ []) (h : getNext P fuel s = .ok (e, t)) : t.baseSpeed ≠ [] := by
  intro hnil
  have hperm := getNext_perm h
  rw [hnil] at hperm
  exact hbase (List.nil_perm.mp hperm)

theorem getNext_currentPrio {fuel : Nat} {s t : PriorityOrderList} {e : PriorityElem}
    (hbase : s.baseSpeed ≠ []) (h : getNext P fuel s = .ok (e, t)) : t.currentPrio = e := by
  have hkept : ∀ u v : PriorityOrderList, True → Refills P u v → True := fun _ _ _ _ => trivial
  obtain ⟨u, l, -, -, rfl⟩ := getNext_served hkept trivial hbase h
  rfl

/-! ## Successive `getNext` calls -/

/-- `es.length` successive calls of `getNext` on `s` return `es` and leave `t`. -/
inductive Serves (P : Platform) : PriorityOrderList → List PriorityElem → PriorityOrderList → Prop
  | nil {s} : Serves P s [] s
  | cons {s t u e es} (head : Gives P s e t) (tail : Serves P t es u) : Serves P s (e :: es) u

/-- `calls` calls of `getNext`, each with the same fuel. -/
def serve (P : Platform) (fuel : Nat) :
    Nat → PriorityOrderList → Except Fault (List PriorityElem × PriorityOrderList)
  | 0, s => .ok ([], s)
  | calls + 1, s => do
    let (e, s) ← getNext P fuel s
    let (es, s) ← serve P fuel calls s
    .ok (e :: es, s)

theorem serves_of_serve {fuel calls : Nat} {s t : PriorityOrderList} {es : List PriorityElem}
    (h : serve P fuel calls s = .ok (es, t)) : Serves P s es t := by
  induction calls generalizing s es with
  | zero =>
      obtain ⟨rfl, rfl⟩ := Prod.mk.inj (Except.ok.inj h)
      exact .nil
  | succ calls ih =>
      obtain ⟨⟨e, u⟩, hnext, h⟩ := bind_eq_ok.mp h
      obtain ⟨⟨es', t'⟩, hrest, h⟩ := bind_eq_ok.mp h
      obtain ⟨rfl, rfl⟩ := Prod.mk.inj (Except.ok.inj h)
      exact .cons ⟨fuel, hnext⟩ (ih hrest)

namespace Serves

variable {s t u : PriorityOrderList} {es es' : List PriorityElem}

theorem append (h : Serves P s es t) (h' : Serves P t es' u) : Serves P s (es ++ es') u := by
  induction h with
  | nil => exact h'
  | cons head _ ih => exact .cons head (ih h')

theorem prefix_of_le {t' : PriorityOrderList} (h : Serves P s es t) (h' : Serves P s es' t')
    (hle : es.length ≤ es'.length) :
    ∃ rest, es' = es ++ rest ∧ Serves P t rest t' := by
  induction h generalizing es' with
  | nil => exact ⟨es', rfl, h'⟩
  | cons head _ ih =>
      cases h' with
      | nil => simp at hle
      | cons head' tail' =>
          obtain ⟨rfl, rfl⟩ := head.unique head'
          obtain ⟨rest, rfl, hrest⟩ := ih tail' (by simpa using hle)
          exact ⟨rest, rfl, hrest⟩

theorem prefix_of_mem (h : Serves P s es t) {e : PriorityElem} (he : e ∈ es) :
    ∃ es' u, Serves P s (es' ++ [e]) u := by
  induction h with
  | nil => exact nomatch he
  | cons head _ ih =>
      rcases List.mem_cons.mp he with rfl | he
      · exact ⟨[], _, .cons head .nil⟩
      · obtain ⟨es', u, hserves⟩ := ih he
        exact ⟨_ :: es', u, .cons head hserves⟩

theorem unique {t' : PriorityOrderList} (h : Serves P s es t) (h' : Serves P s es' t')
    (hlen : es.length = es'.length) : es = es' ∧ t = t' := by
  obtain ⟨rest, rfl, hrest⟩ := h.prefix_of_le h' (Nat.le_of_eq hlen)
  obtain rfl : rest = [] := List.eq_nil_of_length_eq_zero (by simpa using hlen.symm)
  cases hrest
  exact ⟨(List.append_nil es).symm, rfl⟩

end Serves

def drained (s : PriorityOrderList) : PriorityOrderList :=
  { s with currentPrio := s.priorityList.head?.getD s.currentPrio, priorityList := [] }

theorem serves_drained {s : PriorityOrderList} (h : s.baseSpeed ≠ []) :
    Serves P s s.priorityList.reverse s.drained := by
  obtain ⟨base, prio, analyzed, current, turn⟩ := s
  simp only at h ⊢
  induction prio using List.reverseRecOn generalizing current with
  | nil => exact .nil
  | append_singleton l e ih =>
      rw [List.reverse_append, List.reverse_singleton, List.singleton_append]
      refine .cons ((gives_of_priority h rfl).mpr ⟨rfl, rfl⟩) ?_
      cases l with
      | nil => exact .nil
      | cons x l => simpa [served, drained] using ih e

theorem Refills.serves {s t u : PriorityOrderList} {es : List PriorityElem}
    (hrefill : Refills P s t) (hbase : s.baseSpeed ≠ []) (hprio : s.priorityList = [])
    (h : Serves P t es u) (hes : es ≠ []) : Serves P s es u := by
  cases h with
  | nil => exact absurd rfl hes
  | cons head tail => exact .cons ((gives_of_refill hbase hprio).mpr ⟨t, hrefill, head⟩) tail

/-- However often `getNext` is called, it returns. -/
def AlwaysServes (P : Platform) (s : PriorityOrderList) : Prop :=
  ∀ k, ∃ es t, es.length = k ∧ Serves P s es t

theorem AlwaysServes.refills {s : PriorityOrderList} (h : AlwaysServes P s)
    (hbase : s.baseSpeed ≠ []) : ∃ t, Refills P s.drained t ∧ AlwaysServes P t := by
  have hafter (k : Nat) : ∃ es t, es.length = k ∧ Serves P s.drained es t := by
    obtain ⟨es, t, hlen, hserves⟩ := h (s.priorityList.length + k)
    obtain ⟨rest, rfl, hrest⟩ := (serves_drained hbase).prefix_of_le hserves (by simp [hlen])
    exact ⟨rest, t, by simpa using hlen, hrest⟩
  obtain ⟨_ | ⟨e, es⟩, u, hlen, hserves⟩ := hafter 1
  · simp at hlen
  · cases hserves with
    | cons head tail =>
        obtain ⟨t, hrefill, hgives⟩ := (gives_of_refill (s := s.drained) hbase rfl).mp head
        refine ⟨t, hrefill, fun k => ?_⟩
        obtain ⟨_ | ⟨e', es'⟩, v, hlen', hserves'⟩ := hafter k
        · exact ⟨[], t, hlen', .nil⟩
        · cases hserves' with
          | cons head' tail' =>
              obtain ⟨t', hrefill', hgives'⟩ := (gives_of_refill (s := s.drained) hbase rfl).mp head'
              obtain rfl := hrefill.unique (sortBaseAndCalculatePriority_stable _) hrefill'
              exact ⟨e' :: es', v, hlen', .cons hgives' tail'⟩

/-- An invariant under which refills return keeps `getNext` going for ever. -/
theorem serves_forever {I : PriorityOrderList → Prop} (hbase : ∀ s, I s → s.baseSpeed ≠ [])
    (hpop : ∀ s e l, I s → s.priorityList = l ++ [e] → I (s.served e l))
    (hrefill : ∀ s, I s → s.priorityList = [] →
      ∃ t, Refills P s t ∧ I t ∧ t.priorityList ≠ [])
    {s : PriorityOrderList} (hs : I s) (k : Nat) :
    ∃ es t, es.length = k ∧ Serves P s es t ∧ I t := by
  have pop {s : PriorityOrderList} (hs : I s) (hprio : s.priorityList ≠ []) :
      ∃ e t, Gives P s e t ∧ I t := by
    rcases List.eq_nil_or_concat s.priorityList with hnil | ⟨l, e, hl⟩
    · exact absurd hnil hprio
    · rw [List.concat_eq_append] at hl
      exact ⟨e, s.served e l, (gives_of_priority (hbase s hs) hl).mpr ⟨rfl, rfl⟩, hpop s e l hs hl⟩
  have next {s : PriorityOrderList} (hs : I s) : ∃ e t, Gives P s e t ∧ I t := by
    by_cases hprio : s.priorityList = []
    · obtain ⟨u, hu, hIu, hne⟩ := hrefill s hs hprio
      obtain ⟨e, t, hgives, ht⟩ := pop hIu hne
      exact ⟨e, t, (gives_of_refill (hbase s hs) hprio).mpr ⟨u, hu, hgives⟩, ht⟩
    · exact pop hs hprio
  induction k generalizing s with
  | zero => exact ⟨[], s, rfl, .nil, hs⟩
  | succ k ih =>
      obtain ⟨e, t, hgives, ht⟩ := next hs
      obtain ⟨es, u, hlen, hserves, hu⟩ := ih ht
      exact ⟨e :: es, u, by simp [hlen], .cons hgives hserves, hu⟩

theorem alwaysServes_of_invariant {I : PriorityOrderList → Prop}
    (hbase : ∀ s, I s → s.baseSpeed ≠ [])
    (hpop : ∀ s e l, I s → s.priorityList = l ++ [e] → I (s.served e l))
    (hrefill : ∀ s, I s → s.priorityList = [] →
      ∃ t, Refills P s t ∧ I t ∧ t.priorityList ≠ [])
    {s : PriorityOrderList} (hs : I s) : AlwaysServes P s := by
  intro k
  obtain ⟨es, t, hlen, hserves, -⟩ := serves_forever hbase hpop hrefill hs k
  exact ⟨es, t, hlen, hserves⟩

end PriorityOrderList

/-! ## Interleavings -/

inductive ListOp where
  | addParticipantInList (id : Nat) (speed : Int) (isContender : Bool)
  | removeParticipantFromList (id : Nat)
  | getNext
deriving DecidableEq, Repr

namespace ListOp

open PriorityOrderList

def added : ListOp → Option PriorityElem
  | addParticipantInList id speed isContender => some ⟨id, speed, isContender⟩
  | _ => none

def registered (base : List PriorityElem) : ListOp → List PriorityElem
  | addParticipantInList id speed isContender =>
    if (id, isContender) ∈ keys base then base
    else base ++ [⟨id, speed, isContender⟩]
  | removeParticipantFromList id => base.filter (·.id != id)
  | getNext => base

def exec (P : Platform) (fuel : Nat) (s : PriorityOrderList) :
    ListOp → Except Fault PriorityOrderList
  | addParticipantInList id speed isContender =>
    PriorityOrderList.addParticipantInList P fuel id speed isContender s
  | removeParticipantFromList id => .ok (s.removeParticipantFromList id)
  | getNext => Prod.snd <$> PriorityOrderList.getNext P fuel s

end ListOp

namespace PriorityOrderList

def Step (P : Platform) (adm : PriorityOrderList → ListOp → Prop) (s t : PriorityOrderList) :
    Prop :=
  ∃ op, adm s op ∧ Returns (fun fuel => op.exec P fuel s) t

def Reaches (P : Platform) (adm : PriorityOrderList → ListOp → Prop) :
    PriorityOrderList → PriorityOrderList → Prop :=
  Relation.ReflTransGen (Step P adm)

/-- The default list, or what the constructor makes of admitted participants. -/
inductive Constructed (P : Platform) (adm : List PriorityElem → Prop) : PriorityOrderList → Prop
  | empty : Constructed P adm empty
  | ofBaseSpeed {l s} (hl : adm l) (h : Returns (fun fuel => ofBaseSpeed P fuel l) s) :
      Constructed P adm s

end PriorityOrderList

end FyS.Arena
