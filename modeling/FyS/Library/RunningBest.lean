import Mathlib.Order.Defs.Unbundled
import Mathlib.Data.List.Infix

/-!
# Running bests

A scan that keeps the best element so far, as a comparator of the kept element
and the next one decides.  When the comparator follows a strict weak order the
scan ends at a best element.  When it also asks a filter about the kept element,
the scan stops for good at the first element kept that the filter refuses.
-/

namespace FyS.Library.RunningBest

universe u

variable {α : Type u}

def best (comp : α → α → Bool) (start : α) (l : List α) : α :=
  l.foldl (fun kept next => if comp kept next then next else kept) start

@[simp] theorem best_nil (comp : α → α → Bool) (start : α) : best comp start [] = start := rfl

theorem best_append (comp : α → α → Bool) (start : α) (l m : List α) :
    best comp start (l ++ m) = best comp (best comp start l) m := List.foldl_append

theorem best_concat (comp : α → α → Bool) (start : α) (l : List α) (next : α) :
    best comp start (l ++ [next]) =
      if comp (best comp start l) next then next else best comp start l := by
  rw [best_append]
  rfl

theorem best_mem (comp : α → α → Bool) (start : α) (l : List α) : best comp start l ∈ start :: l := by
  induction l using List.reverseRecOn with
  | nil => exact List.mem_cons_self
  | append_singleton l next ih =>
      rw [best_concat, ← List.cons_append]
      split_ifs
      · exact List.mem_append_right _ (List.mem_singleton_self next)
      · exact List.mem_append_left _ ih

theorem best_map {β : Type u} (f : β → α) (comp : α → α → Bool) (start : β) (l : List β) :
    f (best (fun a b => comp (f a) (f b)) start l) = best comp (f start) (l.map f) := by
  induction l generalizing start with
  | nil => rfl
  | cons next l ih =>
      rw [List.map_cons]
      unfold best at ih ⊢
      rw [List.foldl_cons, List.foldl_cons, ih]
      split_ifs <;> rfl

/-- The element kept is kept again after it alone was changed, if the change exchanges it
for nothing new and it is still taken where it was taken. -/
theorem best_map_changed {f : α → α} {comp : α → α → Bool} {start : α} {l : List α}
    (hnodup : (start :: l).Nodup) (hothers : ∀ x ∈ start :: l, x ≠ best comp start l → f x = x)
    (htaken : ∀ x, comp x (best comp start l) = true → comp x (f (best comp start l)) = true)
    (hkept : ∀ x, comp (best comp start l) x = false → comp (f (best comp start l)) x = false) :
    best comp (f start) (l.map f) = f (best comp start l) := by
  induction l using List.reverseRecOn with
  | nil => rfl
  | append_singleton l next ih =>
      rw [← List.cons_append, List.nodup_append] at hnodup
      obtain ⟨hnodup, -, hfresh⟩ := hnodup
      have hnext : ∀ x ∈ start :: l, x ≠ next := by
        intro x hx
        exact hfresh x hx next (List.mem_singleton_self next)
      have hin : ∀ x ∈ start :: l, x ∈ start :: (l ++ [next]) := by
        intro x hx
        exact List.mem_append_left [next] hx
      rw [List.map_append, List.map_singleton, best_concat]
      rw [best_concat] at hothers htaken hkept ⊢
      by_cases hnew : comp (best comp start l) next = true
      · -- nothing that was kept before is changed
        rw [if_pos hnew] at hothers htaken hkept ⊢
        have hstart : f start = start :=
          hothers start List.mem_cons_self (hnext start List.mem_cons_self)
        have hl : l.map f = l := by
          conv_rhs => rw [← List.map_id l]
          apply List.map_congr_left
          intro x hx
          exact hothers x (hin x (List.mem_cons_of_mem start hx))
            (hnext x (List.mem_cons_of_mem start hx))
        rw [hstart, hl, if_pos (htaken _ hnew)]
      · rw [if_neg hnew] at hothers htaken hkept ⊢
        rw [ih hnodup (fun x hx => hothers x (hin x hx)) htaken hkept]
        have hsame : f next = next :=
          hothers next (by simp) (hnext _ (best_mem comp start l)).symm
        rw [hsame, if_neg]
        rw [hkept next (Bool.not_eq_true _ ▸ hnew)]
        exact Bool.false_ne_true

def Compares (better : α → α → Prop) (comp : α → α → Bool) : Prop :=
  (∀ kept next, comp kept next = true ↔ better kept next) ∨
    ∀ kept next, comp kept next = true ↔ ¬ better next kept

def Unbeaten (better : α → α → Prop) (l : List α) (a : α) : Prop := ∀ x ∈ l, ¬ better a x

variable {better : α → α → Prop} [IsStrictWeakOrder α better]

theorem not_better_trans {a b c : α} (hab : ¬ better a b) (hbc : ¬ better b c) :
    ¬ better a c := by
  intro hac
  by_cases hba : better b a
  · exact hbc (IsTrans.trans b a c hba hac)
  by_cases hcb : better c b
  · exact hab (IsTrans.trans a c b hac hcb)
  exact (IsStrictWeakOrder.incomp_trans a b c ⟨hab, hba⟩ ⟨hbc, hcb⟩).1 hac

theorem better_asymm {a b : α} (hab : better a b) : ¬ better b a := by
  intro hba
  exact Std.Irrefl.irrefl a (IsTrans.trans a b a hab hba)

namespace Compares

variable {comp : α → α → Bool}

theorem of_taken (h : Compares better comp) {kept next : α} (htaken : comp kept next = true) :
    ¬ better next kept := by
  rcases h with h | h
  · exact better_asymm ((h kept next).mp htaken)
  · exact (h kept next).mp htaken

theorem of_left (h : Compares better comp) {kept next : α} (hleft : comp kept next = false) :
    ¬ better kept next := by
  intro hbetter
  have htaken : comp kept next = true := by
    rcases h with h | h
    · exact (h kept next).mpr hbetter
    · exact (h kept next).mpr (better_asymm hbetter)
  rw [hleft] at htaken
  cases htaken

theorem left_of_left (h : Compares better comp) {kept other next : α}
    (hkept : ¬ better kept other) (hleft : comp other next = false) : comp kept next = false := by
  rw [← Bool.not_eq_true] at hleft ⊢
  rcases h with h | h
  · rw [h] at hleft ⊢
    exact not_better_trans hkept hleft
  · rw [h, not_not] at hleft ⊢
    by_contra hworse
    exact not_better_trans hworse hkept hleft

end Compares

variable {comp : α → α → Bool}

theorem unbeaten_best (h : Compares better comp) (start : α) (l : List α) :
    Unbeaten better (start :: l) (best comp start l) := by
  induction l using List.reverseRecOn with
  | nil =>
      intro x hx
      rw [List.mem_singleton.mp hx]
      exact Std.Irrefl.irrefl start
  | append_singleton l next ih =>
      rw [best_concat, ← List.cons_append]
      by_cases htaken : comp (best comp start l) next = true
      · rw [if_pos htaken]
        intro x hx
        rcases List.mem_append.mp hx with hx | hx
        · exact not_better_trans (h.of_taken htaken) (ih x hx)
        · rw [List.mem_singleton.mp hx]
          exact Std.Irrefl.irrefl next
      · rw [if_neg htaken]
        intro x hx
        rcases List.mem_append.mp hx with hx | hx
        · exact ih x hx
        · rw [List.mem_singleton.mp hx]
          exact h.of_left (Bool.not_eq_true _ ▸ htaken)

/-! ## Ties -/

theorem isStrictWeakOrder_not {le : α → α → Prop} [IsTrans α le] [Std.Total le] :
    IsStrictWeakOrder α fun a b => ¬ le b a where
  irrefl a h := h ((Std.Total.total a a).elim id id)
  trans a b c hab hbc hca := by
    have hle : le a b := (Std.Total.total a b).resolve_right hab
    exact hbc (IsTrans.trans c a b hca hle)
  incomp_trans a b c hab hbc := by
    simp only [not_not] at hab hbc ⊢
    exact ⟨IsTrans.trans c b a hbc.1 hab.1, IsTrans.trans a b c hab.2 hbc.2⟩

/-- A comparator that takes what is better keeps the first of the best elements. -/
theorem first_best (h : ∀ kept next, comp kept next = true ↔ better kept next) (start : α)
    (l : List α) : ∃ pre post, start :: l = pre ++ best comp start l :: post ∧
      ∀ x ∈ pre, better x (best comp start l) := by
  induction l using List.reverseRecOn with
  | nil => exact ⟨[], [], rfl, fun x hx => by cases hx⟩
  | append_singleton l next ih =>
      obtain ⟨pre, post, hsplit, hpre⟩ := ih
      rw [best_concat, ← List.cons_append]
      split_ifs with htaken
      · refine ⟨start :: l, [], rfl, ?_⟩
        intro x hx
        have hbest := unbeaten_best (.inl h) start l x hx
        by_contra hnot
        exact not_better_trans hbest hnot ((h _ _).mp htaken)
      · exact ⟨pre, post ++ [next], by rw [hsplit, List.append_assoc]; rfl, hpre⟩

omit [IsStrictWeakOrder α better] in
/-- A comparator that takes what is not worse keeps the last of the best elements. -/
theorem last_best (h : ∀ kept next, comp kept next = true ↔ ¬ better next kept) (start : α)
    (l : List α) : ∃ pre post, start :: l = pre ++ best comp start l :: post ∧
      ∀ x ∈ post, better x (best comp start l) := by
  induction l using List.reverseRecOn with
  | nil => exact ⟨[], [], rfl, fun x hx => by cases hx⟩
  | append_singleton l next ih =>
      obtain ⟨pre, post, hsplit, hpost⟩ := ih
      rw [best_concat, ← List.cons_append]
      split_ifs with htaken
      · exact ⟨start :: l, [], rfl, fun x hx => by cases hx⟩
      · refine ⟨pre, post ++ [next], by rw [hsplit, List.append_assoc]; rfl, ?_⟩
        intro x hx
        rcases List.mem_append.mp hx with hx | hx
        · exact hpost x hx
        · rw [List.mem_singleton.mp hx]
          by_contra hnot
          exact htaken ((h _ _).mpr hnot)

/-! ## Filters that only the kept element has to pass -/

def guarded (filter : α → Bool) (comp : α → α → Bool) (kept next : α) : Bool :=
  filter kept && comp kept next

/-- Every refused element comes after an accepted one that is not exchanged for it. -/
def Shielded (filter : α → Bool) (comp : α → α → Bool) (l : List α) : Prop :=
  ∀ pre x, pre ++ [x] <+: l → filter x = false → ∃ y ∈ pre, filter y = true ∧ comp y x = false

variable {filter : α → Bool}

omit [IsStrictWeakOrder α better] in
theorem shielded_singleton {a : α} : Shielded filter comp [a] ↔ filter a = true := by
  constructor
  · intro h
    by_contra hrefused
    obtain ⟨y, hy, -⟩ := h [] a (List.prefix_refl _) (Bool.not_eq_true _ ▸ hrefused)
    cases hy
  · intro haccepted pre x hpre hrefused
    have hlength := hpre.length_le
    obtain rfl : pre = [] := by
      apply List.eq_nil_of_length_eq_zero
      simpa using hlength
    obtain rfl : x = a := by simpa using hpre
    rw [haccepted] at hrefused
    cases hrefused

omit [IsStrictWeakOrder α better] in
theorem shielded_concat {l : List α} {next : α} :
    Shielded filter comp (l ++ [next]) ↔ Shielded filter comp l ∧
      (filter next = false → ∃ y ∈ l, filter y = true ∧ comp y next = false) := by
  constructor
  · intro h
    constructor
    · intro pre x hpre
      exact h pre x (hpre.trans (List.prefix_append l [next]))
    · exact h l next (List.prefix_refl _)
  · rintro ⟨hl, hnext⟩ pre x hpre hrefused
    rcases List.prefix_concat_iff.mp hpre with heq | hpre
    · obtain ⟨rfl, hx⟩ := List.append_inj' heq rfl
      obtain rfl : x = next := by simpa using hx
      exact hnext hrefused
    · exact hl pre x hpre hrefused

/-- A guarded scan keeps an accepted element, and with it the best one, exactly
as long as the refused elements are shielded. -/
theorem guarded_best (filter : α → Bool) (h : Compares better comp) (start : α) (l : List α) :
    (Shielded filter comp (start :: l) ∧ filter (best (guarded filter comp) start l) = true ∧
        best (guarded filter comp) start l = best comp start l) ∨
      (¬ Shielded filter comp (start :: l) ∧
        filter (best (guarded filter comp) start l) = false) := by
  induction l using List.reverseRecOn with
  | nil =>
      rw [shielded_singleton, best_nil]
      cases filter start <;> simp
  | append_singleton l next ih =>
      rw [best_concat, ← List.cons_append, shielded_concat]
      rcases ih with ⟨hshielded, haccepted, hsame⟩ | ⟨hshielded, hrefused⟩
      · have hguarded : guarded filter comp (best (guarded filter comp) start l) next =
            comp (best comp start l) next := by
          rw [guarded, haccepted, Bool.true_and, hsame]
        rw [hsame] at haccepted
        have hbest := unbeaten_best h start l
        rw [hguarded, best_concat, hsame]
        by_cases htaken : comp (best comp start l) next = true
        · rw [if_pos htaken]
          cases hnext : filter next with
          | true =>
              left
              exact ⟨⟨hshielded, fun hrefused => by cases hrefused⟩, rfl, rfl⟩
          | false =>
              right
              refine ⟨fun hboth => ?_, rfl⟩
              obtain ⟨y, hy, -, hleft⟩ := hboth.2 rfl
              rw [h.left_of_left (hbest y hy) hleft] at htaken
              cases htaken
        · rw [if_neg htaken]
          left
          refine ⟨⟨hshielded, fun _ => ?_⟩, haccepted, rfl⟩
          exact ⟨best comp start l, best_mem comp start l, haccepted, Bool.not_eq_true _ ▸ htaken⟩
      · -- the scan stays where it is
        right
        have hguarded : guarded filter comp (best (guarded filter comp) start l) next = false := by
          rw [guarded, hrefused, Bool.false_and]
        rw [hguarded, if_neg Bool.false_ne_true]
        exact ⟨fun hboth => hshielded hboth.1, hrefused⟩

/-! ## Selections -/

def select (comp : α → α → Bool) (l : List α) : Option α :=
  l.head?.map fun start => best comp start l

/-- Nothing is found where the filter accepts nothing, and else an accepted element
that no accepted element beats. -/
structure Suits (filter : α → Bool) (better : α → α → Prop) (l : List α) (found : Option α) :
    Prop where
  none_iff : found = none ↔ ∀ x ∈ l, filter x = false
  best_of_some : ∀ x, found = some x →
    x ∈ l ∧ filter x = true ∧ ∀ y ∈ l, filter y = true → ¬ better x y

theorem select_cons (comp : α → α → Bool) (start : α) (l : List α) :
    select comp (start :: l) = some (best comp start l) := by
  unfold select best
  rw [List.head?_cons, Option.map_some, List.foldl_cons, ite_self]

theorem suits_select_iff (h : Compares better comp) (l : List α) :
    Suits filter better l (select (guarded filter comp) l) ↔ Shielded filter comp l := by
  cases l with
  | nil =>
      constructor
      · intro _ pre x hpre
        have hnil := List.prefix_nil.mp hpre
        simp at hnil
      · intro _
        constructor
        · simp [select]
        · intro x hx
          cases hx
  | cons start l =>
      rw [select_cons]
      rcases guarded_best filter h start l with
        ⟨hshielded, haccepted, hsame⟩ | ⟨hshielded, hrefused⟩
      · have hmem := best_mem comp start l
        rw [hsame] at haccepted ⊢
        refine ⟨fun _ => hshielded, fun _ => ⟨?_, ?_⟩⟩
        · constructor
          · intro hnone
            cases hnone
          · intro hall
            rw [hall _ hmem] at haccepted
            cases haccepted
        · intro x hx
          cases hx
          exact ⟨hmem, haccepted, fun y hy _ => unbeaten_best h start l y hy⟩
      · refine ⟨fun hsuits => ?_, fun hboth => absurd hboth hshielded⟩
        have haccepted := (hsuits.best_of_some _ rfl).2.1
        rw [hrefused] at haccepted
        cases haccepted

end FyS.Library.RunningBest
