import Mathlib.Data.List.Basic

/-!
# Data shared by the classes of a fighting pit

`fightingPit/data/CommonTypes.hh`.  Unsigned fields are `Nat` and `int speed`
is `Int`: the width of an `int` enters through `Platform.fits`, where the
scheduler computes with it.
-/

namespace FyS.Arena

structure PriorityElem where
  id : Nat
  speed : Int
  isContender : Bool
deriving DecidableEq, Repr

namespace PriorityElem

/-- What `operator==` compares. -/
def key (e : PriorityElem) : Nat × Bool := (e.id, e.isContender)

@[simp] theorem key_mk (id : Nat) (speed : Int) (isContender : Bool) :
    (mk id speed isContender).key = (id, isContender) := rfl

theorem key_fst (e : PriorityElem) : e.key.1 = e.id := rfl

end PriorityElem

structure Life where
  current : Nat
  total : Nat
deriving DecidableEq, Repr

def Life.isDead (life : Life) : Bool := life.current == 0

structure MagicPoint where
  current : Nat
  total : Nat
deriving DecidableEq, Repr

structure Status where
  life : Life
  magicPoint : MagicPoint
  initialSpeed : Nat
  alterations : List Nat
deriving DecidableEq, Repr

end FyS.Arena
