import Mathlib.Data.List.Basic

/-!
# Lines

What is read line by line, each line up to a separator: a separator ends a line, and what
comes after the last one is a line unless it is empty.
-/

namespace FyS.Library.Lines

universe u

variable {α : Type u} [DecidableEq α] (sep : α)

def readFrom (line : List α) : List α → List (List α)
  | [] => if line = [] then [] else [line]
  | a :: rest => if a = sep then line :: readFrom [] rest else readFrom (line ++ [a]) rest

def lines (text : List α) : List (List α) := readFrom sep [] text

variable {sep}

theorem readFrom_append {line : List α} (h : sep ∉ line) (done rest : List α) :
    readFrom sep done (line ++ rest) = readFrom sep (done ++ line) rest := by
  induction line generalizing done with
  | nil => rw [List.nil_append, List.append_nil]
  | cons a line ih =>
      rw [List.mem_cons, not_or] at h
      rw [List.cons_append, readFrom, if_neg (Ne.symm h.1), ih h.2]
      simp

theorem lines_cons_line {line : List α} (h : sep ∉ line) (rest : List α) :
    lines sep (line ++ sep :: rest) = line :: lines sep rest := by
  rw [lines, readFrom_append h, readFrom, if_pos rfl]
  rfl

/-- Lines with a separator between them are read back, but for an empty one at the end. -/
theorem lines_intercalate {ls : List (List α)} (h : ∀ line ∈ ls, sep ∉ line) :
    lines sep ([sep].intercalate ls) = if ls.getLast? = some [] then ls.dropLast else ls := by
  induction ls with
  | nil => rfl
  | cons line ls ih =>
      obtain ⟨hline, hls⟩ := List.forall_mem_cons.mp h
      cases ls with
      | nil =>
          have hlast : lines sep line = if line = [] then [] else [line] := by
            have hread := readFrom_append hline [] []
            rw [List.append_nil, List.nil_append] at hread
            exact hread
          simp [List.intercalate, hlast]
      | cons next ls =>
          have hcons : [sep].intercalate (line :: next :: ls) =
              line ++ sep :: [sep].intercalate (next :: ls) := by simp [List.intercalate]
          rw [hcons, lines_cons_line hline, ih hls]
          simp only [List.getLast?_cons_cons, List.dropLast_cons_cons]
          split_ifs <;> rfl

end FyS.Library.Lines
