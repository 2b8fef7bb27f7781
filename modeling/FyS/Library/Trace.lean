import Mathlib.Data.List.Basic
import Mathlib.Data.List.Induction

/-!
# Steps that leave a trace

A step that can fail half way leaves a log of what it did up to there, besides
the next state or the fault that stopped it.  `runs` chains such steps over a
list of inputs.  An invariant of the states together with a property of the
log entries goes through single steps, sequences and runs.
-/

namespace FyS.Library.Trace

universe u v w x y z

variable {ω : Type u} {ε : Type v} {σ : Type w} {ι : Type x}

structure Traced (ω : Type u) (ε : Type v) (σ : Type w) where
  log : List ω
  result : Except ε σ

def Traced.andThen (r : Traced ω ε σ) (f : σ → Traced ω ε σ) : Traced ω ε σ :=
  match r.result with
  | .error _ => r
  | .ok s => ⟨r.log ++ (f s).log, (f s).result⟩

def runs (step : ι → σ → Traced ω ε σ) : List ι → σ → Traced ω ε σ
  | [], s => ⟨[], .ok s⟩
  | i :: is, s => (step i s).andThen (runs step is)

structure Keeps (I : σ → Prop) (Q : ω → Prop) (r : Traced ω ε σ) : Prop where
  log : ∀ o ∈ r.log, Q o
  result : ∀ s, r.result = .ok s → I s

variable {I J : σ → Prop} {Q : ω → Prop}

theorem Keeps.andThen {r : Traced ω ε σ} {f : σ → Traced ω ε σ} (hr : Keeps I Q r)
    (hf : ∀ s, I s → Keeps J Q (f s)) : Keeps J Q (r.andThen f) := by
  unfold Traced.andThen
  split
  · rename_i hfault
    constructor
    · exact hr.log
    · intro s hs
      rw [hfault] at hs
      exact nomatch hs
  · rename_i s hs
    have hnext := hf s (hr.result s hs)
    constructor
    · intro o ho
      rcases List.mem_append.mp ho with ho | ho
      · exact hr.log o ho
      · exact hnext.log o ho
    · exact hnext.result

/-- A run under an invariant that looks at the inputs still to come. -/
theorem Keeps.runs_remaining {step : ι → σ → Traced ω ε σ} {R : List ι → σ → Prop}
    (hstep : ∀ i is s, R (i :: is) s → Keeps (R is) Q (step i s)) (is : List ι) {s : σ}
    (hs : R is s) : Keeps (R []) Q (runs step is s) := by
  induction is generalizing s with
  | nil =>
      constructor
      · exact List.forall_mem_nil _
      · intro t ht
        rw [← Except.ok.inj ht]
        exact hs
  | cons i is ih =>
      apply (hstep i is s hs).andThen
      intro t ht
      exact ih ht

theorem Keeps.runs {step : ι → σ → Traced ω ε σ} (hstep : ∀ i s, I s → Keeps I Q (step i s))
    (is : List ι) {s : σ} (hs : I s) : Keeps I Q (runs step is s) :=
  Keeps.runs_remaining (R := fun _ => I) (fun i _ => hstep i) is hs

/-- A step that fails does so with a fault of `F`, or one that an entry of its log
accounts for. -/
def Blames (F : ε → Prop) (B : ω → ε → Prop) (r : Traced ω ε σ) : Prop :=
  ∀ fault, r.result = .error fault → F fault ∨ ∃ o ∈ r.log, B o fault

theorem Blames.runs {F : ε → Prop} {B : ω → ε → Prop} {step : ι → σ → Traced ω ε σ}
    (hstep : ∀ i s, Blames F B (step i s)) (is : List ι) (s : σ) :
    Blames F B (runs step is s) := by
  induction is generalizing s with
  | nil =>
      intro fault h
      cases h
  | cons i is ih =>
      have hfirst := hstep i s
      rw [Trace.runs]
      unfold Traced.andThen
      split
      · exact hfirst
      · rename_i next _
        intro fault h
        rcases ih next fault h with hfault | ⟨o, ho, hblame⟩
        · exact .inl hfault
        · exact .inr ⟨o, List.mem_append_right _ ho, hblame⟩

theorem Traced.ok_eq_ok {log log' : List ω} {s t : σ} :
    (⟨log, .ok s⟩ : Traced ω ε σ) = ⟨log', .ok t⟩ ↔ log = log' ∧ s = t := by
  rw [Traced.mk.injEq, Except.ok.injEq]

theorem Traced.eq_of_isOk {r : Traced ω ε σ} (h : r.result.isOk = true) :
    ∃ s, r = ⟨r.log, .ok s⟩ := by
  obtain ⟨log, result⟩ := r
  cases result with
  | error fault => cases h
  | ok s => exact ⟨s, rfl⟩

theorem Traced.andThen_eq_ok {r : Traced ω ε σ} {f : σ → Traced ω ε σ} {log : List ω} {t : σ} :
    r.andThen f = ⟨log, .ok t⟩ ↔
      ∃ log₁ s log₂, r = ⟨log₁, .ok s⟩ ∧ f s = ⟨log₂, .ok t⟩ ∧ log = log₁ ++ log₂ := by
  obtain ⟨log₁, result⟩ := r
  cases result with
  | error fault =>
      constructor
      · intro h
        cases (Traced.mk.inj h).2
      · rintro ⟨_, _, _, h, -⟩
        cases (Traced.mk.inj h).2
  | ok s =>
      constructor
      · intro h
        obtain ⟨hlog, hresult⟩ := Traced.mk.inj h
        refine ⟨log₁, s, (f s).log, rfl, ?_, hlog.symm⟩
        rw [← hresult]
      · rintro ⟨_, _, log₂, h, hf, rfl⟩
        obtain ⟨rfl, rfl⟩ := Traced.ok_eq_ok.mp h
        show Traced.mk (log₁ ++ (f s).log) (f s).result = _
        rw [hf]

/-! ## The states that a run passes -/

theorem Traced.andThen_assoc (r : Traced ω ε σ) (f g : σ → Traced ω ε σ) :
    (r.andThen f).andThen g = r.andThen fun s => (f s).andThen g := by
  obtain ⟨log, result⟩ := r
  cases result with
  | error fault => rfl
  | ok s =>
      unfold andThen
      cases hs : (f s).result with
      | error fault => simp [hs]
      | ok t => simp [hs]

theorem runs_append (step : ι → σ → Traced ω ε σ) (is js : List ι) (s : σ) :
    runs step (is ++ js) s = (runs step is s).andThen (runs step js) := by
  induction is generalizing s with
  | nil =>
      rw [runs, Traced.andThen]
      rfl
  | cons i is ih =>
      rw [List.cons_append, runs, runs, Traced.andThen_assoc]
      congr 1
      funext t
      exact ih t

theorem runs_append_singleton_eq_ok {step : ι → σ → Traced ω ε σ} {is : List ι} {i : ι} {s t : σ}
    {log : List ω} :
    runs step (is ++ [i]) s = ⟨log, .ok t⟩ ↔
      ∃ done u new, runs step is s = ⟨done, .ok u⟩ ∧ step i u = ⟨new, .ok t⟩ ∧
        log = done ++ new := by
  have hsingle (u : σ) : runs step [i] u = step i u := by
    rw [runs]
    obtain ⟨new, result⟩ := step i u
    cases result with
    | error fault => rfl
    | ok t => simp [Traced.andThen, runs]
  rw [runs_append, Traced.andThen_eq_ok]
  simp only [hsingle]

/-- What every step keeps of the state and what was done, every run that ends
well keeps. -/
theorem runs_history {step : ι → σ → Traced ω ε σ} {J : σ → List ω → Prop} {start : σ}
    (hstart : J start [])
    (hstep : ∀ i s done t new, J s done → step i s = ⟨new, .ok t⟩ → J t (done ++ new))
    {inputs : List ι} {t : σ} {log : List ω} (hrun : runs step inputs start = ⟨log, .ok t⟩) :
    J t log := by
  induction inputs using List.reverseRecOn generalizing t log with
  | nil =>
      obtain ⟨rfl, rfl⟩ := Traced.ok_eq_ok.mp hrun
      exact hstart
  | append_singleton is i ih =>
      obtain ⟨done, s, new, his, hi, rfl⟩ := runs_append_singleton_eq_ok.mp hrun
      exact hstep i s done t new (ih his) hi

/-- On the inputs, the state `s` is passed with `done` behind it and `rest` to come. -/
def Passes (step : ι → σ → Traced ω ε σ) (start : σ) (inputs : List ι) (s : σ) (done : List ω)
    (rest : List ι) : Prop :=
  ∃ is, inputs = is ++ rest ∧ runs step is start = ⟨done, .ok s⟩

theorem Passes.next {step : ι → σ → Traced ω ε σ} {start s t : σ} {inputs rest : List ι} {i : ι}
    {done log : List ω} (hrun : runs step inputs start = ⟨log, .ok t⟩)
    (h : Passes step start inputs s done (i :: rest)) :
    ∃ new u, step i s = ⟨new, .ok u⟩ ∧ Passes step start inputs u (done ++ new) rest := by
  obtain ⟨is, rfl, his⟩ := h
  rw [runs_append, Traced.andThen_eq_ok] at hrun
  obtain ⟨_, _, _, his', hrest, -⟩ := hrun
  rw [his] at his'
  obtain ⟨rfl, rfl⟩ := Traced.ok_eq_ok.mp his'
  obtain ⟨new, u, _, hstep, -, -⟩ := Traced.andThen_eq_ok.mp hrest
  refine ⟨new, u, hstep, is ++ [i], ?_, ?_⟩
  · rw [List.append_assoc, List.singleton_append]
  · exact runs_append_singleton_eq_ok.mpr ⟨done, s, new, his, hstep, rfl⟩

/-- A condition on the steps that decides for each of them whether it keeps
`J` decides it for the run. -/
theorem runs_forall_iff {step : ι → σ → Traced ω ε σ} {J : σ → List ω → Prop}
    {C : ι → σ → List ω → Prop} {start t : σ} {inputs : List ι} {log : List ω}
    (hrun : runs step inputs start = ⟨log, .ok t⟩) (hstart : J start [])
    (hstep : ∀ is i s done new u, runs step is start = ⟨done, .ok s⟩ → step i s = ⟨new, .ok u⟩ →
      J s done → (J u (done ++ new) ↔ C i s done)) :
    (∀ s done rest, Passes step start inputs s done rest → J s done) ↔
      ∀ i s done rest, Passes step start inputs s done (i :: rest) → C i s done := by
  constructor
  · intro hgood i s done rest hpasses
    obtain ⟨new, u, hi, hnext⟩ := hpasses.next hrun
    obtain ⟨is, -, his⟩ := id hpasses
    exact (hstep is i s done new u his hi (hgood s done _ hpasses)).mp (hgood u _ rest hnext)
  · rintro hcond s done rest ⟨is, heq, his⟩
    induction is using List.reverseRecOn generalizing s done rest with
    | nil =>
        obtain ⟨rfl, rfl⟩ := Traced.ok_eq_ok.mp his
        exact hstart
    | append_singleton is i ih =>
        obtain ⟨done, u, new, hprefix, hi, rfl⟩ := runs_append_singleton_eq_ok.mp his
        rw [List.append_assoc, List.singleton_append] at heq
        exact (hstep is i u done new s hprefix hi (ih u done _ heq hprefix)).mpr
          (hcond i u done rest ⟨is, heq, hprefix⟩)

/-! ## Runs side by side -/

/-- A run that ends well is followed by another one, step by step: where a step ends well, the
other one takes the image of its input and logs the images of its entries. -/
theorem runs_follow {κ : Type y} {ω' : Type z} {τ : Type v} {R : σ → τ → Prop}
    {step : ι → σ → Traced ω ε σ} {step' : κ → τ → Traced ω' ε τ} {input : ι → κ} {entry : ω → ω'}
    {is : List ι} (hstep : ∀ i ∈ is, ∀ s s' t log, R s t → step i s = ⟨log, .ok s'⟩ →
      ∃ t', step' (input i) t = ⟨log.map entry, .ok t'⟩ ∧ R s' t')
    {s s' : σ} {t : τ} {log : List ω} (hst : R s t) (hrun : runs step is s = ⟨log, .ok s'⟩) :
    ∃ t', runs step' (is.map input) t = ⟨log.map entry, .ok t'⟩ ∧ R s' t' := by
  induction is generalizing s t log with
  | nil =>
      obtain ⟨rfl, rfl⟩ := Traced.ok_eq_ok.mp hrun
      exact ⟨t, rfl, hst⟩
  | cons i is ih =>
      obtain ⟨log₁, next, log₂, hfirst, hrest, rfl⟩ := Traced.andThen_eq_ok.mp hrun
      obtain ⟨u, hu, hnext⟩ := hstep i List.mem_cons_self s next t log₁ hst hfirst
      obtain ⟨t', ht', hend⟩ := ih (fun j hj => hstep j (List.mem_cons_of_mem _ hj)) hnext hrest
      refine ⟨t', ?_, hend⟩
      rw [List.map_append]
      exact Traced.andThen_eq_ok.mpr ⟨_, u, _, hu, ht', rfl⟩

theorem runs_flatMap {κ : Type y} (step : ι → σ → Traced ω ε σ) (g : κ → List ι) (ks : List κ)
    (s : σ) :
    runs (fun k => runs step (g k)) ks s = runs step (ks.flatMap g) s := by
  induction ks generalizing s with
  | nil => rfl
  | cons k ks ih =>
      rw [List.flatMap_cons, runs_append, runs]
      congr 1
      funext t
      exact ih t

end FyS.Library.Trace
