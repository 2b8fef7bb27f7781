import Mathlib.Algebra.Order.Ring.Nat
import Mathlib.Data.List.TakeWhile

/-!
# `Key`

The token of `services/common/include/Key.hh`, which hides an index behind a
random filler.  Its first character says where the index begins.
-/

namespace FyS.Common

def Key.KEY_SIZE : Nat := 8

/-- `char _key[KEY_SIZE]`. -/
structure Key where
  key : List Char
  length_key : key.length = Key.KEY_SIZE
deriving DecidableEq, Repr

/-- Ways the construction of a key can fail: `std::range_error`, and a token that
`std::copy_n` would read beyond its end. -/
inductive KeyFault where
  | rangeError (what : String)
  | shortToken
deriving DecidableEq, Repr

namespace Key

/-- `KEY_SIZE - id.size()`: a difference of `std::size_t` stored in an `unsigned`. -/
def offsetOf (id : List Char) : Nat :=
  (KEY_SIZE + 18446744073709551616 - id.length) % 18446744073709551616 % 4294967296

/-- The whole token, of which the key keeps the first `KEY_SIZE` characters. -/
def token (offset : Nat) (fillerId id : List Char) : List Char :=
  Nat.toDigits 10 offset ++ fillerId.take (offset - 1) ++ id

/-- `Key(index)`; `fillerId` is the shuffled address of the object. -/
def new (fillerId : List Char) (index : Nat) : Except KeyFault Key :=
  let id := Nat.toDigits 10 index
  let offset := offsetOf id
  if offset < 3 then .error (.rangeError (String.ofList id ++ " is too big for being an index"))
  else if h : KEY_SIZE ≤ (token offset fillerId id).length then
    .ok ⟨(token offset fillerId id).take KEY_SIZE, List.length_take_of_le h⟩
  else .error .shortToken

/-- `std::from_chars` into a `res` that keeps its value where nothing is parsed. -/
def fromChars (chars : List Char) (res : Nat) : Nat :=
  let digits := chars.takeWhile Char.isDigit
  if digits.isEmpty then res
  else if Nat.ofDigitChars 10 digits 0 < 4294967296 then Nat.ofDigitChars 10 digits 0
  else res

/-- `getIndex`; nothing where the offset points behind the key. -/
def getIndex (k : Key) : Option Nat :=
  let offset := ((k.key.headD '0').toNat + 4294967296 - '0'.toNat) % 4294967296
  if offset ≤ KEY_SIZE then some (fromChars (k.key.drop offset) 0) else none

/-! ## The lengths of an index -/

theorem length_id_le_iff {index : Nat} (k : Nat) (hk : 0 < k) :
    (Nat.toDigits 10 index).length ≤ k ↔ index < 10 ^ k :=
  Nat.length_toDigits_le_iff (by decide) hk

theorem offsetOf_of_le {id : List Char} (h : id.length ≤ 8) : offsetOf id = 8 - id.length := by
  unfold offsetOf KEY_SIZE
  omega

/-- Above the size of a key the difference wraps. -/
theorem offsetOf_of_gt {id : List Char} (h : 8 < id.length) (hlength : id.length ≤ 10) :
    offsetOf id = 4294967295 ∨ offsetOf id = 4294967294 := by
  unfold offsetOf KEY_SIZE
  omega

/-! ## Reading back -/

theorem fromChars_toDigits {index : Nat} (h : index < 4294967296) :
    fromChars (Nat.toDigits 10 index) 0 = index := by
  have hdigits : (Nat.toDigits 10 index).takeWhile Char.isDigit = Nat.toDigits 10 index := by
    rw [List.takeWhile_eq_self_iff]
    intro c hc
    exact Nat.isDigit_of_mem_toDigits (by decide) (by decide) hc
  unfold fromChars
  simp [hdigits, Nat.ofDigitChars_ten_toDigits, h]

/-! ## Construction -/

theorem new_of_token (fillerId : List Char) {index offset : Nat}
    (hoffset : offsetOf (Nat.toDigits 10 index) = offset) (hbig : ¬ offset < 3)
    (htoken : KEY_SIZE ≤ (token offset fillerId (Nat.toDigits 10 index)).length) :
    ∃ k, new fillerId index = .ok k ∧
      k.key = (token offset fillerId (Nat.toDigits 10 index)).take KEY_SIZE := by
  subst hoffset
  unfold new
  simp only
  rw [if_neg hbig, dif_pos htoken]
  exact ⟨_, rfl, rfl⟩

theorem new_of_short {fillerId : List Char} {index : Nat} (hfiller : 7 ≤ fillerId.length)
    (hlength : (Nat.toDigits 10 index).length ≤ 5) :
    ∃ k, new fillerId index = .ok k ∧
      k.key = Nat.digitChar (8 - (Nat.toDigits 10 index).length) ::
        (fillerId.take (7 - (Nat.toDigits 10 index).length) ++ Nat.toDigits 10 index) := by
  have hpos : 0 < (Nat.toDigits 10 index).length := Nat.length_toDigits_pos
  have hoffset := offsetOf_of_le (show (Nat.toDigits 10 index).length ≤ 8 by omega)
  have htoken : token (8 - (Nat.toDigits 10 index).length) fillerId (Nat.toDigits 10 index) =
      Nat.digitChar (8 - (Nat.toDigits 10 index).length) ::
        (fillerId.take (7 - (Nat.toDigits 10 index).length) ++ Nat.toDigits 10 index) := by
    rw [token, Nat.toDigits_of_lt_base (b := 10) (n := 8 - _) (by omega), List.cons_append,
      List.nil_append, List.cons_append, Nat.sub_right_comm]
  have hsize : (token (8 - (Nat.toDigits 10 index).length) fillerId
      (Nat.toDigits 10 index)).length = KEY_SIZE := by
    rw [htoken]
    simp [KEY_SIZE]
    omega
  obtain ⟨k, hnew, hkey⟩ := new_of_token fillerId hoffset (by omega) (Nat.le_of_eq hsize.symm)
  refine ⟨k, hnew, ?_⟩
  rw [hkey, List.take_of_length_le (Nat.le_of_eq hsize), htoken]

theorem new_of_middle {fillerId : List Char} {index : Nat}
    (hlong : 5 < (Nat.toDigits 10 index).length) (hlength : (Nat.toDigits 10 index).length ≤ 8) :
    new fillerId index =
      .error (.rangeError (String.ofList (Nat.toDigits 10 index) ++
        " is too big for being an index")) := by
  have hoffset := offsetOf_of_le hlength
  unfold new
  simp only [hoffset]
  rw [if_pos (by omega)]

/-- What is left of a token that begins with a wrapped offset. -/
theorem new_of_long (fillerId : List Char) {index : Nat}
    (hlong : 8 < (Nat.toDigits 10 index).length) (hlength : (Nat.toDigits 10 index).length ≤ 10) :
    ∃ k, new fillerId index = .ok k ∧ k.key = ['4', '2', '9', '4', '9', '6', '7', '2'] := by
  have hkept (offset : Nat) (hbig : ¬ offset < 3) (last : List Char)
      (hdigits : Nat.toDigits 10 offset = ['4', '2', '9', '4', '9', '6', '7', '2'] ++ last)
      (hoffset : offsetOf (Nat.toDigits 10 index) = offset) :
      ∃ k, new fillerId index = .ok k ∧ k.key = ['4', '2', '9', '4', '9', '6', '7', '2'] := by
    obtain ⟨k, hnew, hkey⟩ := new_of_token fillerId hoffset hbig
      (by simp [token, hdigits, KEY_SIZE])
    refine ⟨k, hnew, ?_⟩
    rw [hkey]
    simp [token, hdigits, KEY_SIZE]
  rcases offsetOf_of_gt hlong hlength with hoffset | hoffset
  · exact hkept 4294967295 (by decide) ['9', '5'] (by decide) hoffset
  · exact hkept 4294967294 (by decide) ['9', '4'] (by decide) hoffset

/-! ## The index of a key -/

theorem getIndex_of_short {k : Key} {index : Nat} {filling : List Char}
    (hlength : (Nat.toDigits 10 index).length ≤ 5)
    (hfilling : filling.length = 7 - (Nat.toDigits 10 index).length)
    (hkey : k.key = Nat.digitChar (8 - (Nat.toDigits 10 index).length) ::
      (filling ++ Nat.toDigits 10 index)) :
    k.getIndex = some index := by
  have hpos : 0 < (Nat.toDigits 10 index).length := Nat.length_toDigits_pos
  have hindex : index < 10 ^ 5 := (length_id_le_iff 5 (by decide)).mp hlength
  have hread := fromChars_toDigits (show index < 4294967296 by omega)
  generalize Nat.toDigits 10 index = id at *
  have hdigit : (Nat.digitChar (8 - id.length)).toNat - 48 = 8 - id.length :=
    Nat.toNat_digitChar_sub_48_of_lt_ten (by omega)
  have hoffset : ((k.key.headD '0').toNat + 4294967296 - '0'.toNat) % 4294967296 =
      8 - id.length := by
    rw [hkey, List.headD_cons]
    show ((Nat.digitChar (8 - id.length)).toNat + 4294967296 - 48) % 4294967296 = _
    omega
  have hdrop : k.key.drop (8 - id.length) = id := by
    rw [hkey, show 8 - id.length = filling.length + 1 by omega, List.drop_succ_cons]
    exact List.drop_left
  unfold getIndex
  simp only [hoffset]
  rw [if_pos (show 8 - id.length ≤ KEY_SIZE from Nat.sub_le _ _), hdrop, hread]

/-! ## The round trip -/

/-- Either the index is refused, or the key gives it back. -/
def RoundTrips (fillerId : List Char) (index : Nat) : Prop :=
  (∃ what, new fillerId index = .error (.rangeError what)) ∨
    ∃ k, new fillerId index = .ok k ∧ k.key.length = KEY_SIZE ∧ k.getIndex = some index

theorem roundTrips_of_lt {fillerId : List Char} {index : Nat} (hfiller : 7 ≤ fillerId.length)
    (h : index < 100000000) : RoundTrips fillerId index := by
  have hlength : (Nat.toDigits 10 index).length ≤ 8 := (length_id_le_iff 8 (by decide)).mpr h
  by_cases hshort : (Nat.toDigits 10 index).length ≤ 5
  · obtain ⟨k, hnew, hkey⟩ := new_of_short hfiller hshort
    right
    refine ⟨k, hnew, k.length_key, ?_⟩
    apply getIndex_of_short hshort _ hkey
    rw [List.length_take]
    omega
  · left
    exact ⟨_, new_of_middle (Nat.lt_of_not_le hshort) hlength⟩

theorem not_roundTrips_of_le {fillerId : List Char} {index : Nat} (hbound : index < 4294967296)
    (h : 100000000 ≤ index) : ¬ RoundTrips fillerId index := by
  have hlong : 8 < (Nat.toDigits 10 index).length := by
    rw [← Nat.not_le, length_id_le_iff 8 (by decide)]
    exact Nat.not_lt.mpr h
  have hlength : (Nat.toDigits 10 index).length ≤ 10 := by
    rw [length_id_le_iff 10 (by decide)]
    omega
  obtain ⟨k, hnew, hkey⟩ := new_of_long fillerId hlong hlength
  have hindex : k.getIndex = some 9672 := by
    unfold getIndex
    rw [hkey]
    decide
  rintro (⟨what, herror⟩ | ⟨k', hnew', -, hindex'⟩)
  · rw [hnew] at herror
    cases herror
  · rw [hnew] at hnew'
    cases hnew'
    rw [hindex] at hindex'
    have heq : 9672 = index := Option.some.inj hindex'
    omega

/-- An index of up to eight digits is refused or comes back; from nine digits on
the difference has wrapped, and a key for another index is built. -/
theorem roundTrips_iff {fillerId : List Char} {index : Nat} (hfiller : 7 ≤ fillerId.length)
    (hbound : index < 4294967296) : RoundTrips fillerId index ↔ index < 100000000 := by
  constructor
  · intro h
    by_contra hlong
    exact not_roundTrips_of_le hbound (Nat.not_lt.mp hlong) h
  · exact roundTrips_of_lt hfiller

theorem roundTrips_iff_forty_two :
    RoundTrips ['1', '2', '3', '4', '5', '6', '7'] 42 ↔ 42 < 100000000 :=
  roundTrips_iff (by decide) (by decide)

/-- A key is built for the index 100000000, and gives another index back. -/
theorem nine_digits_lost :
    ¬ ∀ (fillerId : List Char) (index : Nat), (∀ c ∈ fillerId, c.isDigit) → 7 ≤ fillerId.length →
      index < 4294967296 → RoundTrips fillerId index := by
  intro h
  have hfiller : ∀ c ∈ ['1', '2', '3', '4', '5', '6', '7'], c.isDigit :=
    List.all_eq_true.mp (by decide)
  exact not_roundTrips_of_le (by decide) (Nat.le_refl _)
    (h ['1', '2', '3', '4', '5', '6', '7'] 100000000 hfiller (by decide) (by decide))

end Key

end FyS.Common
