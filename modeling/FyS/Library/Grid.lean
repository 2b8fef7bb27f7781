import Mathlib.Data.List.Basic

/-!
# Grids

A grid as a list of rows.  A write changes one cell that has to be there; cells
that are written one after the other, each once, are changed once.
-/

namespace FyS.Library.Grid

universe u v

variable {α : Type u} {ε : Type v}

def cell (grid : List (List α)) (i j : Nat) : Option α := grid[i]?.bind (·[j]?)

def write (fault : ε) (f : α → α) (grid : List (List α)) (place : Nat × Nat) :
    Except ε (List (List α)) :=
  match cell grid place.1 place.2 with
  | none => .error fault
  | some _ => .ok (grid.modify place.1 fun row => row.modify place.2 f)

def writeAll (fault : ε) (f : α → α) (cells : List (Nat × Nat)) (grid : List (List α)) :
    Except ε (List (List α)) :=
  cells.foldlM (write fault f) grid

variable {fault : ε} {f : α → α} {grid grid' : List (List α)} {cells : List (Nat × Nat)}

theorem cell_replicate (rows columns : Nat) (a : α) (i j : Nat) :
    cell (List.replicate rows (List.replicate columns a)) i j =
      if i < rows ∧ j < columns then some a else none := by
  unfold cell
  rw [List.getElem?_replicate]
  by_cases hi : i < rows
  · by_cases hj : j < columns
    · simp [hi, hj]
    · simp [hi, hj]
  · simp [hi]

theorem cell_modify (grid : List (List α)) (i j i' j' : Nat) :
    cell (grid.modify i fun row => row.modify j f) i' j' =
      if (i', j') = (i, j) then (cell grid i' j').map f else cell grid i' j' := by
  unfold cell
  rw [List.getElem?_modify]
  cases grid[i']? with
  | none => simp
  | some row =>
      by_cases hi : i = i'
      · by_cases hj : j = j'
        · simp [hi, hj]
        · simp [hi, hj, Ne.symm hj]
      · simp [hi, Ne.symm hi]

theorem cell_write {place : Nat × Nat} (h : write fault f grid place = .ok grid') (i j : Nat) :
    cell grid' i j = if (i, j) = place then (cell grid i j).map f else cell grid i j := by
  unfold write at h
  split at h
  · cases h
  · rw [← Except.ok.inj h, cell_modify]

theorem write_isOk_iff (fault : ε) (f : α → α) {place : Nat × Nat} :
    (∃ grid', write fault f grid place = .ok grid') ↔ (cell grid place.1 place.2).isSome := by
  unfold write
  cases cell grid place.1 place.2 with
  | none => simp
  | some a => simp

theorem isSome_cell_write {place : Nat × Nat} (h : write fault f grid place = .ok grid') (i j : Nat) :
    (cell grid' i j).isSome = (cell grid i j).isSome := by
  rw [cell_write h]
  split_ifs
  · rw [Option.isSome_map]
  · rfl

theorem writeAll_append (cells rest : List (Nat × Nat)) (grid : List (List α)) :
    writeAll fault f (cells ++ rest) grid =
      (writeAll fault f cells grid).bind (writeAll fault f rest) := List.foldlM_append

theorem writeAll_isOk_iff (fault : ε) (f : α → α) :
    (∃ grid', writeAll fault f cells grid = .ok grid') ↔
      ∀ place ∈ cells, (cell grid place.1 place.2).isSome := by
  induction cells generalizing grid with
  | nil => simp [writeAll, pure, Except.pure]
  | cons place rest ih =>
      rw [List.forall_mem_cons, ← write_isOk_iff fault f]
      unfold writeAll at ih ⊢
      rw [List.foldlM_cons]
      cases hfirst : write fault f grid place with
      | error e => simp [bind, Except.bind]
      | ok grid₁ =>
          have hrest := @ih grid₁
          simp only [isSome_cell_write hfirst] at hrest
          simpa [bind, Except.bind] using hrest

theorem cell_writeAll (h : writeAll fault f cells grid = .ok grid') (hnodup : cells.Nodup)
    (i j : Nat) :
    cell grid' i j = if (i, j) ∈ cells then (cell grid i j).map f else cell grid i j := by
  induction cells generalizing grid with
  | nil =>
      rw [← Except.ok.inj h]
      rfl
  | cons place rest ih =>
      rw [List.nodup_cons] at hnodup
      unfold writeAll at ih h
      rw [List.foldlM_cons] at h
      cases hfirst : write fault f grid place with
      | error e =>
          rw [hfirst] at h
          cases h
      | ok grid₁ =>
          rw [hfirst] at h
          rw [ih h hnodup.2, cell_write hfirst]
          by_cases hat : (i, j) = place
          · have hrest : (i, j) ∉ rest := by
              rw [hat]
              exact hnodup.1
            rw [if_neg hrest, if_pos hat, if_pos (List.mem_cons.mpr (.inl hat))]
          · simp [hat]

end FyS.Library.Grid
