import Mathlib.Data.List.Basic
import Mathlib.Data.List.Infix

/-!
# Paths

A path is walked component by component from a directory; going up from the top
stays there.  What a path amounts to is a number of directories up, and names down
from there.
-/

namespace FyS.Library.Paths

universe u

variable {α : Type u}

inductive Component (α : Type u) where
  | here
  | up
  | into (name : α)
deriving DecidableEq, Repr

def walk (directory : List α) : Component α → List α
  | .here => directory
  | .up => directory.dropLast
  | .into name => directory ++ [name]

def resolve (directory : List α) (path : List (Component α)) : List α := path.foldl walk directory

theorem resolve_append (directory : List α) (path rest : List (Component α)) :
    resolve directory (path ++ rest) = resolve (resolve directory path) rest := List.foldl_append

theorem mem_resolve {name : α} {directory : List α} {path : List (Component α)}
    (h : name ∈ resolve directory path) : name ∈ directory ∨ .into name ∈ path := by
  induction path generalizing directory with
  | nil => exact .inl h
  | cons c rest ih =>
      rcases ih h with hwalk | hrest
      · cases c with
        | here => exact .inl hwalk
        | up => exact .inl (List.mem_of_mem_dropLast hwalk)
        | into other =>
            rcases List.mem_append.mp hwalk with hold | hnew
            · exact .inl hold
            · right
              rw [List.mem_singleton.mp hnew]
              exact List.mem_cons_self
      · exact .inr (List.mem_cons_of_mem c hrest)

structure NormalForm (α : Type u) where
  ups : Nat
  names : List α
deriving DecidableEq, Repr

namespace NormalForm

def next : NormalForm α → Component α → NormalForm α
  | n, .here => n
  | ⟨ups, []⟩, .up => ⟨ups + 1, []⟩
  | ⟨ups, name :: names⟩, .up => ⟨ups, (name :: names).dropLast⟩
  | ⟨ups, names⟩, .into name => ⟨ups, names ++ [name]⟩

def reached (directory : List α) (n : NormalForm α) : List α :=
  directory.take (directory.length - n.ups) ++ n.names

theorem reached_next (directory : List α) (n : NormalForm α) (c : Component α) :
    (n.next c).reached directory = walk (n.reached directory) c := by
  obtain ⟨ups, names⟩ := n
  cases c with
  | here => rfl
  | into name => simp [next, reached, walk]
  | up =>
      cases names with
      | nil =>
          simp only [next, reached, walk, List.append_nil, List.dropLast_eq_take, List.length_take,
            List.take_take]
          congr 1
          omega
      | cons name names =>
          simp only [next, reached, walk]
          rw [List.dropLast_append_of_ne_nil (List.cons_ne_nil name names)]

/-- The directory is above where the form leads exactly when the names go down again
through all that was left of it. -/
theorem isPrefix_reached_iff {directory : List α} {n : NormalForm α} :
    directory <+: n.reached directory ↔ directory.drop (directory.length - n.ups) <+: n.names := by
  have hcancel : directory.take (directory.length - n.ups) ++
      directory.drop (directory.length - n.ups) <+:
        directory.take (directory.length - n.ups) ++ n.names ↔
      directory.drop (directory.length - n.ups) <+: n.names := List.prefix_append_right_inj _
  rw [List.take_append_drop] at hcancel
  exact hcancel

end NormalForm

def normalForm (path : List (Component α)) : NormalForm α := path.foldl NormalForm.next ⟨0, []⟩

theorem reached_foldl (directory : List α) (path : List (Component α)) (n : NormalForm α) :
    (path.foldl NormalForm.next n).reached directory = resolve (n.reached directory) path := by
  induction path generalizing n with
  | nil => rfl
  | cons c rest ih =>
      rw [List.foldl_cons, ih, NormalForm.reached_next]
      rfl

/-- A path leads where its normal form leads. -/
theorem resolve_eq (directory : List α) (path : List (Component α)) :
    resolve directory path = (normalForm path).reached directory := by
  rw [normalForm, reached_foldl]
  simp [NormalForm.reached]

end FyS.Library.Paths
