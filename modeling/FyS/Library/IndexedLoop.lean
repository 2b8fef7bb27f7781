import Mathlib.Data.List.TakeDrop
import Mathlib.Logic.Function.Basic

/-!
# Loops over the positions of a vector

A loop that counts its positions up from the front and reads the vector at each of
them: past the end the access fails, and what was done before it stays done.
-/

namespace FyS.Library.IndexedLoop

universe u v w

variable {α : Type u} {σ : Type v} {ε : Type w}

def loop (fault : ε) (visit : σ → α → σ) (l : List α) : Nat → Nat → σ → Option ε × σ
  | _, 0, s => (none, s)
  | i, n + 1, s =>
    match l[i]? with
    | none => (some fault, s)
    | some a => loop fault visit l (i + 1) n (visit s a)

/-- As many elements as there are are visited, and the loop fails if it is to visit more. -/
theorem loop_eq (fault : ε) (visit : σ → α → σ) (l : List α) {i : Nat} (hi : i ≤ l.length)
    (n : Nat) (s : σ) :
    loop fault visit l i n s =
      (if i + n ≤ l.length then none else some fault, ((l.drop i).take n).foldl visit s) := by
  induction n generalizing i s with
  | zero => simp [loop, hi]
  | succ n ih =>
      rw [loop]
      by_cases hlt : i < l.length
      · rw [List.getElem?_eq_getElem hlt]
        simp only
        have hcount : i + 1 + n = i + (n + 1) := by omega
        have hnext : i + 1 ≤ l.length := hlt
        rw [ih hnext, List.drop_eq_getElem_cons hlt, List.take_succ_cons, List.foldl_cons, hcount]
      · have hend : l.length ≤ i := Nat.le_of_not_lt hlt
        have hpast : ¬ i + (n + 1) ≤ l.length := by omega
        rw [List.getElem?_eq_none hend, if_neg hpast, List.drop_eq_nil_of_le hend]
        rfl

theorem foldl_update {κ : Type u} [DecidableEq κ] (f : α → α) {l : List κ} (h : l.Nodup)
    (cells : κ → α) :
    l.foldl (fun cells k => Function.update cells k (f (cells k))) cells =
      fun k => if k ∈ l then f (cells k) else cells k := by
  induction l generalizing cells with
  | nil => simp
  | cons a rest ih =>
      rw [List.nodup_cons] at h
      rw [List.foldl_cons, ih h.2]
      funext k
      by_cases hk : k = a
      · rw [hk, if_neg h.1, if_pos (List.mem_cons_self ..), Function.update_self]
      · rw [Function.update_of_ne hk]
        simp only [List.mem_cons, hk, false_or]

end FyS.Library.IndexedLoop
