import Mathlib.Data.List.Basic
import Mathlib.Logic.Function.Basic

/-!
# Single-use tickets

Tickets are handed out under keys, at most one under a key at a time, and taken
back when they are used.  A ticket may be handed out again after that.  The
record of what happened then balances: every ticket was used as often as it was
handed out, or once less while it is out.
-/

namespace FyS.Library.Tickets

universe u v

inductive Deed (τ : Type v) where
  | issued (ticket : τ)
  | used (ticket : τ)
deriving DecidableEq

variable {κ : Type u} {τ : Type v} (key : τ → κ)

section

variable [DecidableEq κ]

inductive Step (out : κ → Option τ) : (κ → Option τ) → List (Deed τ) → Prop
  | idle : Step out out []
  | issued (ticket : τ) (hfree : out (key ticket) = none) :
      Step out (Function.update out (key ticket) (some ticket)) [.issued ticket]
  | used (ticket : τ) (hout : out (key ticket) = some ticket) :
      Step out (Function.update out (key ticket) none) [.used ticket]

end

variable [DecidableEq τ]

/-- What is out was handed out once more than it was used. -/
def Balanced (out : κ → Option τ) (deeds : List (Deed τ)) : Prop :=
  ∀ ticket, deeds.count (.issued ticket) =
    deeds.count (.used ticket) + if out (key ticket) = some ticket then 1 else 0

variable {key} {out out' : κ → Option τ} {deeds new : List (Deed τ)}

theorem balanced_nil : Balanced key (fun _ => none) ([] : List (Deed τ)) := by
  intro ticket
  simp

theorem Balanced.used_le_issued (h : Balanced key out deeds) (ticket : τ) :
    deeds.count (.used ticket) ≤ deeds.count (.issued ticket) := by
  have hticket := h ticket
  omega

variable [DecidableEq κ]

theorem Balanced.issue (h : Balanced key out deeds) {issued : τ}
    (hfree : out (key issued) = none) :
    Balanced key (Function.update out (key issued) (some issued))
      (deeds ++ [.issued issued]) := by
  intro ticket
  have hticket := h ticket
  by_cases hkey : key ticket = key issued
  · rw [hkey, hfree] at hticket
    by_cases heq : ticket = issued
    · rw [heq] at hticket ⊢
      simp at hticket ⊢
      omega
    · simp [hkey, Ne.symm heq] at hticket ⊢
      omega
  · have heq : ticket ≠ issued := by
      intro heq
      exact hkey (congrArg key heq)
    simp [hkey, Ne.symm heq] at hticket ⊢
    omega

theorem Balanced.use (h : Balanced key out deeds) {used : τ} (hout : out (key used) = some used) :
    Balanced key (Function.update out (key used) none) (deeds ++ [.used used]) := by
  intro ticket
  have hticket := h ticket
  by_cases hkey : key ticket = key used
  · rw [hkey, hout] at hticket
    by_cases heq : ticket = used
    · rw [heq] at hticket ⊢
      simp at hticket ⊢
      omega
    · simp [hkey, Ne.symm heq] at hticket ⊢
      omega
  · have heq : ticket ≠ used := by
      intro heq
      exact hkey (congrArg key heq)
    simp [hkey, Ne.symm heq] at hticket ⊢
    omega

theorem Balanced.step (h : Balanced key out deeds) (hstep : Step key out out' new) :
    Balanced key out' (deeds ++ new) := by
  cases hstep with
  | idle =>
      rw [List.append_nil]
      exact h
  | issued ticket hfree => exact h.issue hfree
  | used ticket hout => exact h.use hout

/-- Whoever uses a ticket uses one that was handed out and not used before. -/
theorem Balanced.used_lt_issued (h : Balanced key out deeds) (hstep : Step key out out' new)
    {ticket : τ} (hused : .used ticket ∈ new) :
    deeds.count (.used ticket) < deeds.count (.issued ticket) := by
  cases hstep with
  | idle => cases hused
  | issued issued hfree => simp at hused
  | used used hout =>
      obtain rfl : ticket = used := by simpa using hused
      have hticket := h ticket
      rw [if_pos hout] at hticket
      omega

end FyS.Library.Tickets
