import FyS.Library.RunningBest

/-!
# `find_most_suitable`

The scan of `services/common/include/algorithm/algorithm.hh`, with and without
an element to start from.
-/

namespace FyS.Common

open FyS.Library.RunningBest

variable {α : Type}

def findMostSuitableFrom (comp : α → α → Bool) (start : α) : List α → α
  | [] => start
  | first :: range => findMostSuitableFrom comp (if comp start first then first else start) range

/-- `find_most_suitable(first, last, comp)`, `none` being the end of the range. -/
def findMostSuitable (comp : α → α → Bool) (range : List α) : Option α :=
  match range with
  | [] => none
  | first :: rest => some (findMostSuitableFrom comp first (first :: rest))

theorem findMostSuitableFrom_eq (comp : α → α → Bool) (start : α) (range : List α) :
    findMostSuitableFrom comp start range = best comp start range := by
  induction range generalizing start with
  | nil => rfl
  | cons first range ih =>
      rw [findMostSuitableFrom, ih]
      rfl

theorem findMostSuitable_eq (comp : α → α → Bool) (range : List α) :
    findMostSuitable comp range = select comp range := by
  cases range with
  | nil => rfl
  | cons first rest =>
      have hscan := findMostSuitableFrom_eq comp first (first :: rest)
      exact congrArg some hscan

end FyS.Common
