import FyS.Arena.Pit.Announcer
import FyS.Arena.Pit.ExecutedAction
import FyS.Library.LastOccurrence

/-!
# Names in keys

`getNameFromKey` of `FightingPitAnnouncer.cpp` and `getActionNameFromKey` of
`ChaiRegister.cpp`, with the bounds in 64 bits and with the `substr` that throws.
-/

namespace FyS.Arena.KeyNames

open FyS.Arena.ChaiRegister FyS.Library.LastOccurrence

/-! ## `std::string` -/

/-- A string is shorter than `npos`. -/
structure StdString where
  chars : List Char
  length_lt : chars.length < npos
deriving DecidableEq, Repr

inductive StringFault where
  | outOfRange
deriving DecidableEq, Repr

namespace StdString

def find_last_of (c : Char) (key : StdString) : UInt64 := .ofNat (findLastOf c key.chars)

def substr (pos count : UInt64) (key : StdString) : Except StringFault (List Char) :=
  if pos.toNat ≤ key.chars.length then .ok ((key.chars.drop pos.toNat).take count.toNat)
  else .error .outOfRange

end StdString

/-! ## The two functions -/

def getNameFromKey (key : StdString) : Except StringFault (List Char) :=
  key.substr (key.find_last_of ':' + 1) (key.find_last_of '.' - key.find_last_of ':' - 1)

def getActionNameFromKey (key : StdString) : Except StringFault (List Char) :=
  let startSeparator := key.find_last_of ':'
  key.substr (startSeparator + 1) (key.find_last_of '.' - startSeparator - 1)

def nameIn (key : List Char) : List Char := beforeLast '.' (afterLast ':' key)

/-! ## Searching -/

theorem findLastOf_append {c : Char} {front back : List Char} (h : c ∉ back) :
    findLastOf c (front ++ c :: back) = front.length := by
  have hfind : (front ++ c :: back).reverse.findIdx? (· == c) = some back.length := by
    rw [List.reverse_append, List.reverse_cons, List.append_assoc, List.findIdx?_append,
      findIdx?_reverse_of_not_mem h]
    simp [List.findIdx?_cons]
  rw [findLastOf, hfind]
  simp only [List.length_append, List.length_cons]
  omega

namespace StdString

variable {key : StdString} {c : Char} {front part name : List Char}

theorem find_last_of_append {back : List Char} (hkey : key.chars = front ++ c :: back)
    (h : c ∉ back) : (key.find_last_of c).toNat = front.length := by
  have hlength := key.length_lt
  rw [hkey, List.length_append, List.length_cons] at hlength
  unfold npos at hlength
  rw [find_last_of, hkey, findLastOf_append h, UInt64.toNat_ofNat', Nat.mod_eq_of_lt (by omega)]

theorem find_last_of_of_not_mem (h : c ∉ key.chars) : (key.find_last_of c).toNat = npos := by
  rw [find_last_of, findLastOf_of_not_mem h]
  rfl

/-- Without a last colon the last part starts at 0, where `npos + 1` wraps around to. -/
theorem exists_part (key : StdString) : ∃ front part, key.chars = front ++ part ∧
    afterLast ':' key.chars = part ∧ (key.find_last_of ':' + 1).toNat = front.length := by
  by_cases hcolon : ':' ∈ key.chars
  · obtain ⟨front, part, hkey, hpart⟩ := exists_last hcolon
    refine ⟨front ++ [':'], part, by simp [hkey], ?_, ?_⟩
    · rw [hkey, afterLast_append hpart]
    · have hlength := key.length_lt
      rw [hkey, List.length_append, List.length_cons] at hlength
      unfold npos at hlength
      rw [UInt64.toNat_add, UInt64.toNat_one, find_last_of_append hkey hpart, List.length_append,
        List.length_singleton]
      exact Nat.mod_eq_of_lt (by omega)
  · refine ⟨[], key.chars, rfl, afterLast_of_not_mem hcolon, ?_⟩
    rw [UInt64.toNat_add, find_last_of_of_not_mem hcolon]
    rfl

/-- The count goes up to the last dot of the last part, and past its end without one:
a dot in front of the part makes the difference wrap around. -/
theorem take_part (hkey : key.chars = front ++ part)
    (hstart : (key.find_last_of ':' + 1).toNat = front.length) :
    part.take (key.find_last_of '.' - key.find_last_of ':' - 1).toNat = beforeLast '.' part := by
  have hlength := key.length_lt
  rw [hkey, List.length_append] at hlength
  unfold npos at hlength
  rw [UInt64.toNat_add, UInt64.toNat_one] at hstart
  have hcolon := (key.find_last_of ':').toNat_lt
  by_cases hdot : '.' ∈ part
  · obtain ⟨name, back, hpart, hback⟩ := exists_last hdot
    have hfind : (key.find_last_of '.').toNat = (front ++ name).length := by
      apply find_last_of_append _ hback
      rw [hkey, hpart, List.append_assoc]
    have hcount : (key.find_last_of '.' - key.find_last_of ':' - 1).toNat = name.length := by
      rw [List.length_append] at hfind
      rw [hpart, List.length_append, List.length_cons] at hlength
      rw [UInt64.toNat_sub, UInt64.toNat_sub, UInt64.toNat_one]
      omega
    rw [hcount, hpart, beforeLast_append hback, List.take_left]
  · rw [beforeLast_of_not_mem hdot]
    apply List.take_of_length_le
    have hfind : (key.find_last_of '.').toNat = 18446744073709551615 ∨
        (key.find_last_of '.').toNat < front.length := by
      by_cases hfront : '.' ∈ front
      · obtain ⟨before, back, hsplit, hback⟩ := exists_last hfront
        have hbehind : '.' ∉ back ++ part := by
          rw [List.mem_append, not_or]
          exact ⟨hback, hdot⟩
        have hchars : key.chars = before ++ '.' :: (back ++ part) := by
          rw [hkey, hsplit, List.append_assoc, List.cons_append]
        right
        rw [find_last_of_append hchars hbehind, hsplit, List.length_append, List.length_cons]
        omega
      · left
        apply find_last_of_of_not_mem
        rw [hkey, List.mem_append, not_or]
        exact ⟨hfront, hdot⟩
    rw [UInt64.toNat_sub, UInt64.toNat_sub, UInt64.toNat_one]
    rcases hfind with hfind | hfind
    · omega
    · omega

end StdString

/-! ## Names -/

theorem getNameFromKey_eq (key : StdString) : getNameFromKey key = .ok (nameIn key.chars) := by
  obtain ⟨front, part, hkey, hpart, hstart⟩ := key.exists_part
  have hle : (key.find_last_of ':' + 1).toNat ≤ key.chars.length := by
    rw [hstart, hkey, List.length_append]
    exact Nat.le_add_right _ _
  have hdrop : key.chars.drop front.length = part := by
    rw [hkey, List.drop_left]
  rw [getNameFromKey, StdString.substr, if_pos hle, hstart, hdrop,
    StdString.take_part hkey hstart, nameIn, hpart]

/-- Nothing is thrown, and what is left is the last part of the key less its extension. -/
theorem names_from_key (key : StdString) :
    getNameFromKey key = .ok (nameIn key.chars) ∧
      getActionNameFromKey key = .ok (nameIn key.chars) :=
  ⟨getNameFromKey_eq key, getNameFromKey_eq key⟩

theorem actionName_eq (key : StdString) :
    ChaiRegister.getActionNameFromKey (String.ofList key.chars) =
      String.ofList (nameIn key.chars) := by
  have hname := getNameFromKey_eq key
  have hfind (c : Char) : (key.find_last_of c).toNat = findLastOf c key.chars := by
    by_cases h : c ∈ key.chars
    · obtain ⟨front, back, hkey, hback⟩ := exists_last h
      rw [StdString.find_last_of_append hkey hback, hkey, findLastOf_append hback]
    · rw [StdString.find_last_of_of_not_mem h, findLastOf_of_not_mem h]
  have hcolon := (key.find_last_of ':').toNat_lt
  have hdot := (key.find_last_of '.').toNat_lt
  have hpos : (key.find_last_of ':' + 1).toNat =
      (findLastOf ':' key.chars + 1) % 18446744073709551616 := by
    rw [UInt64.toNat_add, UInt64.toNat_one, hfind]
  have hcount : (key.find_last_of '.' - key.find_last_of ':' - 1).toNat =
      (findLastOf '.' key.chars + 36893488147419103232 - findLastOf ':' key.chars - 1) %
        18446744073709551616 := by
    rw [UInt64.toNat_sub, UInt64.toNat_sub, UInt64.toNat_one, ← hfind, ← hfind]
    omega
  unfold getNameFromKey StdString.substr at hname
  split_ifs at hname
  rw [← Except.ok.inj hname, hpos, hcount, ChaiRegister.getActionNameFromKey,
    String.toList_ofList]

theorem contenderName_eq (key : StdString) :
    Arena.getNameFromKey (String.ofList key.chars) = String.ofList (nameIn key.chars) :=
  actionName_eq key

/-- A dot in front of the last colon is not the extension. -/
example : (StdString.mk "a.b:Sampy".toList (by decide)).find_last_of '.' = 1 ∧
    nameIn "a.b:Sampy".toList = "Sampy".toList := by decide

end FyS.Arena.KeyNames
