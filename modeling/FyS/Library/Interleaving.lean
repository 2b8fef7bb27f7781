import Mathlib.Logic.Function.Basic
import FyS.Library.Trace

/-!
# Components that step side by side

A family of components under keys, and a schedule that says which component takes which
input next.  What a schedule makes of a component is what the component makes of its own
inputs, whatever the others do.
-/

namespace FyS.Library.Interleaving

open FyS.Library.Trace

universe u v w x y z

variable {κ : Type u} [DecidableEq κ] {ω : Type v} {ε : Type w} {σ : Type x} {ι : Type y}

def stepAt (step : ι → σ → Traced ω ε σ) (act : κ × ι) (family : κ → Option σ) :
    Traced (κ × ω) ε (κ → Option σ) :=
  match family act.1 with
  | none => ⟨[], .ok family⟩
  | some s => ⟨(step act.2 s).log.map fun o => (act.1, o),
      (step act.2 s).result.map fun s' => Function.update family act.1 (some s')⟩

theorem stepAt_of_none {step : ι → σ → Traced ω ε σ} {k : κ} {i : ι} {family : κ → Option σ}
    (h : family k = none) : stepAt step (k, i) family = ⟨[], .ok family⟩ := by
  simp only [stepAt, h]

theorem stepAt_of_some {step : ι → σ → Traced ω ε σ} {k : κ} {i : ι} {family : κ → Option σ} {s : σ}
    (h : family k = some s) :
    stepAt step (k, i) family = ⟨(step i s).log.map fun o => (k, o),
      (step i s).result.map fun s' => Function.update family k (some s')⟩ := by
  simp only [stepAt, h]

def entriesAt {α : Type y} (k : κ) (l : List (κ × α)) : List α :=
  l.filterMap fun a => if a.1 = k then some a.2 else none

section

variable {α : Type y}

theorem entriesAt_cons_self (k : κ) (a : α) (l : List (κ × α)) :
    entriesAt k ((k, a) :: l) = a :: entriesAt k l := by
  simp [entriesAt]

theorem entriesAt_cons_of_ne {k k' : κ} (h : k' ≠ k) (a : α) (l : List (κ × α)) :
    entriesAt k ((k', a) :: l) = entriesAt k l := by
  simp [entriesAt, h]

theorem entriesAt_append (k : κ) (l m : List (κ × α)) :
    entriesAt k (l ++ m) = entriesAt k l ++ entriesAt k m :=
  List.filterMap_append

theorem mem_entriesAt {k : κ} {a : α} {l : List (κ × α)} : a ∈ entriesAt k l ↔ (k, a) ∈ l := by
  simp [entriesAt, eq_comm]

theorem entriesAt_map_self (k : κ) (l : List α) : entriesAt k (l.map fun a => (k, a)) = l := by
  induction l with
  | nil => rfl
  | cons a l ih => rw [List.map_cons, entriesAt_cons_self, ih]

theorem entriesAt_map_of_ne {k k' : κ} (h : k' ≠ k) (l : List α) :
    entriesAt k (l.map fun a => (k', a)) = [] := by
  induction l with
  | nil => rfl
  | cons a l ih => rw [List.map_cons, entriesAt_cons_of_ne h, ih]

theorem entriesAt_map_of_nodup {k : κ} {keys : List κ} (hnodup : keys.Nodup) (hk : k ∈ keys)
    (a : α) : entriesAt k (keys.map fun k' => (k', a)) = [a] := by
  induction keys with
  | nil => cases hk
  | cons k' keys ih =>
      obtain ⟨hfresh, hnodup⟩ := List.nodup_cons.mp hnodup
      rw [List.map_cons]
      by_cases h : k' = k
      · subst h
        rw [entriesAt_cons_self, List.cons_eq_cons]
        refine ⟨rfl, List.filterMap_eq_nil_iff.mpr ?_⟩
        intro act hact
        obtain ⟨k'', hk'', rfl⟩ := List.mem_map.mp hact
        apply if_neg
        rintro rfl
        exact hfresh hk''
      · rw [entriesAt_cons_of_ne h]
        exact ih hnodup ((List.mem_cons.mp hk).resolve_left (Ne.symm h))

/-- In rounds that take every key once, a key has one entry for each round. -/
theorem entriesAt_flatMap_of_nodup {β : Type z} {k : κ} {keys : β → List κ} {rounds : List β}
    (h : ∀ round ∈ rounds, (keys round).Nodup ∧ k ∈ keys round) (a : β → α) :
    entriesAt k (rounds.flatMap fun round => (keys round).map fun k' => (k', a round)) =
      rounds.map a := by
  induction rounds with
  | nil => rfl
  | cons round rounds ih =>
      obtain ⟨hnodup, hk⟩ := h round List.mem_cons_self
      rw [List.flatMap_cons, entriesAt_append, entriesAt_map_of_nodup hnodup hk,
        ih fun other hother => h other (List.mem_cons_of_mem _ hother)]
      rfl

end

def Component (step : ι → σ → Traced ω ε σ) (inputs : List ι) (log : List ω) :
    Option σ → Option σ → Prop
  | none, after => after = none ∧ log = []
  | some s, after => ∃ s', after = some s' ∧ runs step inputs s = ⟨log, .ok s'⟩

variable {step : ι → σ → Traced ω ε σ} {family family' : κ → Option σ}

/-- Where the whole goes well, each component made its own run. -/
theorem components_of_runs {acts : List (κ × ι)} {log : List (κ × ω)}
    (h : runs (stepAt step) acts family = ⟨log, .ok family'⟩) (k : κ) :
    Component step (entriesAt k acts) (entriesAt k log) (family k) (family' k) := by
  induction acts generalizing family log with
  | nil =>
      obtain ⟨rfl, rfl⟩ := Traced.ok_eq_ok.mp h
      cases hk : family k with
      | none => exact ⟨rfl, rfl⟩
      | some s => exact ⟨s, rfl, rfl⟩
  | cons act acts ih =>
      obtain ⟨log₁, next, log₂, hfirst, hrest, rfl⟩ := Traced.andThen_eq_ok.mp h
      have hnext := ih hrest
      obtain ⟨k', i⟩ := act
      cases hfound : family k' with
      | none =>
          rw [stepAt_of_none hfound] at hfirst
          obtain ⟨rfl, rfl⟩ := Traced.ok_eq_ok.mp hfirst
          by_cases hk : k' = k
          · subst hk
            rw [hfound] at hnext ⊢
            exact hnext
          · rw [entriesAt_cons_of_ne hk]
            exact hnext
      | some s =>
          rw [stepAt_of_some hfound] at hfirst
          obtain ⟨rfl, hresult⟩ := Traced.mk.inj hfirst
          cases hs : (step i s).result with
          | error fault =>
              rw [hs] at hresult
              cases hresult
          | ok s' =>
              rw [hs] at hresult
              obtain rfl : Function.update family k' (some s') = next := Except.ok.inj hresult
              by_cases hk : k' = k
              · subst hk
                rw [Function.update_self] at hnext
                obtain ⟨s'', hafter, hruns⟩ := hnext
                rw [hfound, entriesAt_cons_self, entriesAt_append, entriesAt_map_self]
                refine ⟨s'', hafter, ?_⟩
                have hstep : step i s = ⟨(step i s).log, .ok s'⟩ := by rw [← hs]
                exact Traced.andThen_eq_ok.mpr ⟨_, s', _, hstep, hruns, rfl⟩
              · rw [Function.update_of_ne (Ne.symm hk)] at hnext
                rw [entriesAt_cons_of_ne hk, entriesAt_append, entriesAt_map_of_ne hk,
                  List.nil_append]
                exact hnext

end FyS.Library.Interleaving
