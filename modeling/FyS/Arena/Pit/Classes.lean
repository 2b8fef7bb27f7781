import FyS.Arena.Pit.Caps

/-!
# An engine that knows no more than classes

A class is known once a text that begins with it was evaluated, and an instance is made
of a known class.  What the scripts of the classes do is left out: a concrete engine for
pits whose contenders ask for nothing else.
-/

namespace FyS.Arena

open FyS.Common FightingPitAnnouncer

/-! ## Texts -/

def classDefined (code : String) : Option String :=
  if code.toList.take 6 = "class ".toList then
    some (String.ofList ((code.toList.drop 6).takeWhile (· ≠ ' ')))
  else none

theorem not_mem_digits {c : Char} (hc : c.isDigit = false) (n : Nat) : c ∉ Nat.toDigits 10 n := by
  intro hmem
  rw [Nat.isDigit_of_mem_toDigits (by decide) (by decide) hmem] at hc
  cases hc

theorem takeWhile_append_stop {α : Type} {p : α → Bool} {c : α} (hc : p c = false)
    (l rest : List α) : (l ++ c :: rest).takeWhile p = l.takeWhile p := by
  induction l with
  | nil => simp [hc]
  | cons a l ih =>
      rw [List.cons_append, List.takeWhile_cons, List.takeWhile_cons, ih]

end FyS.Arena
