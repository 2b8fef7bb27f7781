import FyS.Arena.Pit.Scripting
import FyS.Arena.Pit.TeamQueries

/-!
# Side queries of the scripts

`isCharacterOnSide` and `isCharacterOnAdjacentSide` of `ChaiRegister`.  Both
compare the id with the number of characters before they look the character up,
which is right for contenders, counted from 0, and not for members, counted
from 1.
-/

namespace FyS.Arena

open HexagonSide

namespace ChaiRegister

def askPlace (test : HexagonSide → Bool) (pc : PitContenders) (apt : AllyPartyTeams)
    (isContender : Bool) (id : Nat) : Except PitFault Bool :=
  if isContender && decide (id < pc.getNumberContender) then
    match pc.getFightingContender id with
    | none => .error .outOfRange
    | some contender => .ok (test contender.side)
  else if !isContender && decide (id < apt.getNumberAlly) then
    match apt.selectMemberById id with
    | none => .error .nullMember
    | some member => .ok (test member.side)
  else .ok false

def isCharacterOnSide (pc : PitContenders) (apt : AllyPartyTeams) (isContender : Bool) (id : Nat)
    (side : Orientation) : Except PitFault Bool :=
  askPlace (fun place => side == place.side) pc apt isContender id

def isCharacterOnAdjacentSide (pc : PitContenders) (apt : AllyPartyTeams) (isContender : Bool)
    (id : Nat) (side : Orientation) : Except PitFault Bool :=
  askPlace (fun place => place.canMove side) pc apt isContender id

/-! ## What the answers should be -/

def At (pc : PitContenders) (apt : AllyPartyTeams) (isContender : Bool) (id : Nat)
    (place : HexagonSide) : Prop :=
  if isContender then ∃ contender, pc.contenders[id]? = some contender ∧ contender.side = place
  else ∃ member ∈ apt.members, member.id = id ∧ member.side = place

/-- The query answers, and with yes exactly for a character that passes the test. -/
def Accepts (test : HexagonSide → Bool) (pc : PitContenders) (apt : AllyPartyTeams)
    (isContender : Bool) (id : Nat) (answer : Except PitFault Bool) : Prop :=
  ∃ accepted, answer = .ok accepted ∧
    (accepted = true ↔ ∃ place, At pc apt isContender id place ∧ test place = true)

/-- Where a query about a member goes right: not at the id 0 of nobody, not behind an
empty first team, and at the last id only when the answer is no. -/
structure Answerable (test : HexagonSide → Bool) (apt : AllyPartyTeams) (id : Nat) : Prop where
  not_zero : id = 0 → apt.members = []
  first_member : 0 < id → id < apt.members.length → apt.noFirstMember = false
  last_refused : ∀ member, apt.members.getLast? = some member → id = apt.members.length →
    test member.side = false

variable {test : HexagonSide → Bool} {pc : PitContenders} {apt : AllyPartyTeams} {id : Nat}

theorem accepts_contender : Accepts test pc apt true id (askPlace test pc apt true id) := by
  have hat (place : HexagonSide) : At pc apt true id place ↔
      ∃ contender, pc.contenders[id]? = some contender ∧ contender.side = place := Iff.rfl
  cases hcontender : pc.contenders[id]? with
  | none =>
      have hask : askPlace test pc apt true id = .ok false := by
        have hle := List.getElem?_eq_none_iff.mp hcontender
        simp [askPlace, PitContenders.getNumberContender, Nat.not_lt.mpr hle]
      refine ⟨false, hask, ?_⟩
      simp [hat, hcontender]
  | some contender =>
      have hask : askPlace test pc apt true id = .ok (test contender.side) := by
        have hlt := (List.getElem?_eq_some_iff.mp hcontender).1
        have hguard : (true && decide (id < pc.getNumberContender)) = true :=
          decide_eq_true hlt
        rw [askPlace, if_pos hguard, PitContenders.getFightingContender, hcontender]
      refine ⟨test contender.side, hask, ?_⟩
      simp [hat, hcontender]

theorem at_member_iff {place : HexagonSide} : At pc apt false id place ↔
    ∃ member, apt.members.find? (·.id == id) = some member ∧ member.side = place := by
  constructor
  · rintro ⟨member, hmember, rfl, hside⟩
    exact ⟨member, AllyPartyTeams.find_self hmember, hside⟩
  · rintro ⟨member, hfound, hside⟩
    have hid : member.id = id := by simpa using List.find?_some hfound
    exact ⟨member, List.mem_of_find?_eq_some hfound, hid, hside⟩

theorem askPlace_member_of_lt (h : id < apt.members.length) :
    askPlace test pc apt false id =
      match apt.selectMemberById id with
      | none => .error .nullMember
      | some member => .ok (test member.side) := by
  rw [← apt.currentTeamMemberId_eq] at h
  simp [askPlace, AllyPartyTeams.getNumberAlly, h]

theorem askPlace_member_of_ge (h : apt.members.length ≤ id) :
    askPlace test pc apt false id = .ok false := by
  rw [← apt.currentTeamMemberId_eq] at h
  simp [askPlace, AllyPartyTeams.getNumberAlly, Nat.not_lt.mpr h]

theorem accepts_member_of_lt (h : id < apt.members.length) :
    Accepts test pc apt false id (askPlace test pc apt false id) ↔
      0 < id ∧ apt.noFirstMember = false := by
  rw [askPlace_member_of_lt h, AllyPartyTeams.selectMemberById_eq]
  cases hfirst : apt.noFirstMember with
  | true =>
      apply iff_of_false
      · rintro ⟨accepted, herror, -⟩
        cases herror
      · rintro ⟨-, hfalse⟩
        cases hfalse
  | false =>
      have hfound := apt.find_id_members id
      rw [if_neg Bool.false_ne_true]
      cases id with
      | zero =>
          rw [hfound]
          apply iff_of_false
          · rintro ⟨accepted, herror, -⟩
            cases herror
          · rintro ⟨hpos, -⟩
            cases hpos
      | succ i =>
          rw [if_neg (Nat.succ_ne_zero i), Nat.add_sub_cancel,
            List.getElem?_eq_getElem (Nat.lt_of_succ_lt h)] at hfound
          apply iff_of_true
          · rw [hfound]
            refine ⟨_, rfl, ?_⟩
            simp [at_member_iff, hfound]
          · exact ⟨Nat.succ_pos i, rfl⟩

/-- From the number of members on the answer is no, which is wrong for the last
member alone. -/
theorem accepts_member_of_ge (h : apt.members.length ≤ id) :
    Accepts test pc apt false id (askPlace test pc apt false id) ↔
      ∀ member, apt.members.getLast? = some member → id = apt.members.length →
        test member.side = false := by
  have hfound : apt.members.find? (·.id == id) =
      if id = apt.members.length then apt.members.getLast? else none := by
    rw [apt.find_id_members, List.getLast?_eq_getElem?]
    split_ifs with hzero hlast hlast
    · have hnil : apt.members = [] := by
        apply List.eq_nil_of_length_eq_zero
        omega
      rw [hnil]
      rfl
    · rfl
    · rw [hlast]
    · apply List.getElem?_eq_none
      omega
  rw [askPlace_member_of_ge h]
  constructor
  · rintro ⟨accepted, hno, hiff⟩ member hmember hlast
    cases hno
    rw [if_pos hlast] at hfound
    by_contra hyes
    have haccepted := hiff.mpr ⟨member.side, at_member_iff.mpr ⟨member, hfound.trans hmember, rfl⟩,
      Bool.not_eq_false _ ▸ hyes⟩
    cases haccepted
  · intro hlast
    refine ⟨false, rfl, iff_of_false Bool.false_ne_true ?_⟩
    rintro ⟨place, hat, hyes⟩
    obtain ⟨member, hmember, rfl⟩ := at_member_iff.mp hat
    rw [hfound] at hmember
    split at hmember
    · rename_i heq
      rw [hlast member hmember heq] at hyes
      cases hyes
    · cases hmember

theorem accepts_member_iff :
    Accepts test pc apt false id (askPlace test pc apt false id) ↔ Answerable test apt id := by
  by_cases hlt : id < apt.members.length
  · rw [accepts_member_of_lt hlt]
    constructor
    · rintro ⟨hpos, hfirst⟩
      constructor
      · intro hzero
        omega
      · intro _ _
        exact hfirst
      · intro member _ hlast
        omega
    · intro h
      have hpos : 0 < id := by
        apply Nat.pos_of_ne_zero
        intro hzero
        rw [h.not_zero hzero] at hlt
        cases hlt
      exact ⟨hpos, h.first_member hpos hlt⟩
  · rw [accepts_member_of_ge (Nat.not_lt.mp hlt)]
    constructor
    · intro h
      constructor
      · intro hzero
        apply List.eq_nil_of_length_eq_zero
        omega
      · intro _ hlt'
        exact absurd hlt' hlt
      · exact h
    · intro h
      exact h.last_refused

/-- Both queries are right about every contender, and about a member where the
query is answerable. -/
theorem side_queries_iff (pc : PitContenders) (apt : AllyPartyTeams) (isContender : Bool)
    (id : Nat) (side : Orientation) :
    (Accepts (fun place => side == place.side) pc apt isContender id
          (isCharacterOnSide pc apt isContender id side) ↔
        isContender = true ∨ Answerable (fun place => side == place.side) apt id) ∧
      (Accepts (fun place => place.canMove side) pc apt isContender id
          (isCharacterOnAdjacentSide pc apt isContender id side) ↔
        isContender = true ∨ Answerable (fun place => place.canMove side) apt id) := by
  have hboth (test : HexagonSide → Bool) :
      Accepts test pc apt isContender id (askPlace test pc apt isContender id) ↔
        isContender = true ∨ Answerable test apt id := by
    cases isContender with
    | true => exact iff_of_true accepts_contender (.inl rfl)
    | false =>
        rw [accepts_member_iff]
        simp
  exact ⟨hboth _, hboth _⟩

/-- The only member of a pit is not found on its side. -/
theorem only_member_refused :
    ¬ ∀ (pc : PitContenders) (apt : AllyPartyTeams) (isContender : Bool) (id : Nat)
      (side : Orientation),
      Accepts (fun place => side == place.side) pc apt isContender id
        (isCharacterOnSide pc apt isContender id side) := by
  intro h
  have haccepts := h ⟨[], []⟩
    (AllyPartyTeams.empty.addPartyTeam ⟨"owner", [FightingPit.recruit "a" .B_N 5]⟩) false 1 .B_N
  have hanswerable := accepts_member_iff.mp haccepts
  have hrefused := hanswerable.last_refused _ rfl rfl
  cases hrefused

end ChaiRegister

end FyS.Arena
