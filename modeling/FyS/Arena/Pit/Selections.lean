import FyS.Arena.Pit.Scripting
import FyS.Arena.Pit.TeamQueries

/-!
# Filtered selections

`selectSuitable...OnSide`, `...Alive` and `...OnSideAlive` of both kinds of
characters.  Their filter is a part of the comparator and looks at the best
character so far only, so they select what they should exactly as long as the
characters that the filter refuses never become the best.
-/

namespace FyS.Arena

open FyS.Common FyS.Library.RunningBest HexagonSide

namespace FightingContender

def onSide (side : Orientation) (contender : FightingContender) : Bool :=
  contender.getHexagonSideOrient == side

def alive (contender : FightingContender) : Bool := !contender.status.life.isDead

def aliveOnSide (side : Orientation) (contender : FightingContender) : Bool :=
  contender.alive && contender.onSide side

end FightingContender

namespace TeamMember

def onSide (side : Orientation) (member : TeamMember) : Bool :=
  member.getHexagonSideOrient == side

def alive (member : TeamMember) : Bool := !member.status.life.isDead

def aliveOnSide (side : Orientation) (member : TeamMember) : Bool :=
  member.alive && member.onSide side

end TeamMember

namespace PitContenders

def selectSuitableContender (pc : PitContenders)
    (comp : FightingContender → FightingContender → Bool) : Option FightingContender :=
  findMostSuitable comp pc.contenders

def selectSuitableContenderOnSide (pc : PitContenders) (side : Orientation)
    (comp : FightingContender → FightingContender → Bool) : Option FightingContender :=
  pc.selectSuitableContender (guarded (FightingContender.onSide side) comp)

def selectSuitableContenderOnSideAlive (pc : PitContenders) (side : Orientation)
    (comp : FightingContender → FightingContender → Bool) : Option FightingContender :=
  pc.selectSuitableContender (guarded (FightingContender.aliveOnSide side) comp)

def selectSuitableContenderAlive (pc : PitContenders)
    (comp : FightingContender → FightingContender → Bool) : Option FightingContender :=
  pc.selectSuitableContender (guarded FightingContender.alive comp)

variable {better : FightingContender → FightingContender → Prop}
  [IsStrictWeakOrder FightingContender better]
  {comp : FightingContender → FightingContender → Bool}

theorem suits_iff (h : Compares better comp) (filter : FightingContender → Bool)
    (pc : PitContenders) :
    Suits filter better pc.contenders (pc.selectSuitableContender (guarded filter comp)) ↔
      Shielded filter comp pc.contenders := by
  rw [selectSuitableContender, findMostSuitable_eq]
  exact suits_select_iff h pc.contenders

end PitContenders

namespace AllyPartyTeams

def selectSuitableMemberAlive (apt : AllyPartyTeams) (comp : TeamMember → TeamMember → Bool) :
    Option TeamMember :=
  apt.selectSuitableMember (guarded TeamMember.alive comp)

def selectSuitableMemberOnSide (apt : AllyPartyTeams) (side : Orientation)
    (comp : TeamMember → TeamMember → Bool) : Option TeamMember :=
  apt.selectSuitableMember (guarded (TeamMember.onSide side) comp)

def selectSuitableMemberOnSideAlive (apt : AllyPartyTeams) (side : Orientation)
    (comp : TeamMember → TeamMember → Bool) : Option TeamMember :=
  apt.selectSuitableMember (guarded (TeamMember.aliveOnSide side) comp)

/-- Nobody is refused out of turn; behind an empty first team nobody may be accepted. -/
def Shields (filter : TeamMember → Bool) (comp : TeamMember → TeamMember → Bool)
    (apt : AllyPartyTeams) : Prop :=
  if apt.noFirstMember then ∀ member ∈ apt.members, filter member = false
  else Shielded filter comp apt.members

variable {better : TeamMember → TeamMember → Prop} [IsStrictWeakOrder TeamMember better]
  {comp : TeamMember → TeamMember → Bool}

theorem suits_iff (h : Compares better comp) (filter : TeamMember → Bool) (apt : AllyPartyTeams) :
    Suits filter better apt.members (apt.selectSuitableMember (guarded filter comp)) ↔
      apt.Shields filter comp := by
  rw [selectSuitableMember_eq, Shields]
  split
  · constructor
    · intro hsuits
      exact hsuits.none_iff.mp rfl
    · intro hall
      constructor
      · exact iff_of_true rfl hall
      · intro member hmember
        cases hmember
  · rw [findMostSuitable_eq]
    exact suits_select_iff h apt.members

end AllyPartyTeams

/-! ## `decide_target.lower_life` -/

namespace DecideTarget

inductive Designated where
  | member (found : Option TeamMember)
  | contender (found : Option FightingContender)
  | zero
deriving DecidableEq, Repr

/-- The comparator of `lower_life_than` when there is no value to be below of. -/
def comparator (current next : Status) : Bool := decide (current.life.current ≥ next.life.current)

/-- `decide_target.lower_life`, that is `lower_life_than` with the value -1. -/
def lowerLife (pc : PitContenders) (apt : AllyPartyTeams) (targetType : Targeting)
    (side : Orientation) : Designated :=
  if targetType = .ENNEMY then
    .member (apt.selectSuitableMemberOnSideAlive side fun current next =>
      comparator current.status next.status)
  else if targetType = .ALLY then
    .contender (pc.selectSuitableContenderOnSideAlive side fun current next =>
      comparator current.status next.status)
  else .zero

def Lower (current next : Status) : Prop := next.life.current < current.life.current

instance isStrictWeakOrder_lower {α : Type} (status : α → Status) :
    IsStrictWeakOrder α fun current next => Lower (status current) (status next) where
  irrefl a := Nat.lt_irrefl (status a).life.current
  trans a b c hab hbc := by
    unfold Lower at hab hbc ⊢
    omega
  incomp_trans a b c hab hbc := by
    unfold Lower at hab hbc ⊢
    omega

theorem compares_lower {α : Type} (status : α → Status) :
    Compares (fun current next => Lower (status current) (status next))
      fun current next => comparator (status current) (status next) := by
  right
  intro current next
  unfold comparator Lower
  rw [decide_eq_true_iff, Nat.not_lt]

end DecideTarget

/-! ## All of them -/

variable {betterC : FightingContender → FightingContender → Prop}
  [IsStrictWeakOrder FightingContender betterC]
  {compC : FightingContender → FightingContender → Bool}
  {betterM : TeamMember → TeamMember → Prop} [IsStrictWeakOrder TeamMember betterM]
  {compM : TeamMember → TeamMember → Bool}

/-- Each selection finds the best of the characters that pass its filter exactly
when every other character comes after one that passes and is kept in its place. -/
theorem filtered_selection_iff (hC : Compares betterC compC) (hM : Compares betterM compM)
    (pc : PitContenders) (apt : AllyPartyTeams) (side : Orientation) :
    ((Suits (FightingContender.onSide side) betterC pc.contenders
          (pc.selectSuitableContenderOnSide side compC) ↔
        Shielded (FightingContender.onSide side) compC pc.contenders) ∧
      (Suits (FightingContender.aliveOnSide side) betterC pc.contenders
          (pc.selectSuitableContenderOnSideAlive side compC) ↔
        Shielded (FightingContender.aliveOnSide side) compC pc.contenders) ∧
      (Suits FightingContender.alive betterC pc.contenders
          (pc.selectSuitableContenderAlive compC) ↔
        Shielded FightingContender.alive compC pc.contenders)) ∧
    ((Suits (TeamMember.onSide side) betterM apt.members
          (apt.selectSuitableMemberOnSide side compM) ↔
        apt.Shields (TeamMember.onSide side) compM) ∧
      (Suits (TeamMember.aliveOnSide side) betterM apt.members
          (apt.selectSuitableMemberOnSideAlive side compM) ↔
        apt.Shields (TeamMember.aliveOnSide side) compM) ∧
      (Suits TeamMember.alive betterM apt.members (apt.selectSuitableMemberAlive compM) ↔
        apt.Shields TeamMember.alive compM)) ∧
    ((∃ found, DecideTarget.lowerLife pc apt .ENNEMY side = .member found ∧
          Suits (TeamMember.aliveOnSide side)
            (fun current next => DecideTarget.Lower current.status next.status)
            apt.members found) ↔
        apt.Shields (TeamMember.aliveOnSide side) fun current next =>
          DecideTarget.comparator current.status next.status) ∧
    ((∃ found, DecideTarget.lowerLife pc apt .ALLY side = .contender found ∧
          Suits (FightingContender.aliveOnSide side)
            (fun current next => DecideTarget.Lower current.status next.status)
            pc.contenders found) ↔
        Shielded (FightingContender.aliveOnSide side) (fun current next =>
          DecideTarget.comparator current.status next.status) pc.contenders) := by
  have hmember := AllyPartyTeams.suits_iff (DecideTarget.compares_lower TeamMember.status)
    (TeamMember.aliveOnSide side) apt
  have hcontender := PitContenders.suits_iff (DecideTarget.compares_lower FightingContender.status)
    (FightingContender.aliveOnSide side) pc
  refine ⟨⟨?_, ?_, ?_⟩, ⟨?_, ?_, ?_⟩, ?_, ?_⟩
  · exact PitContenders.suits_iff hC _ pc
  · exact PitContenders.suits_iff hC _ pc
  · exact PitContenders.suits_iff hC _ pc
  · exact AllyPartyTeams.suits_iff hM _ apt
  · exact AllyPartyTeams.suits_iff hM _ apt
  · exact AllyPartyTeams.suits_iff hM _ apt
  · rw [← hmember]
    constructor
    · rintro ⟨found, hfound, hsuits⟩
      cases hfound
      exact hsuits
    · intro hsuits
      exact ⟨_, rfl, hsuits⟩
  · rw [← hcontender]
    constructor
    · rintro ⟨found, hfound, hsuits⟩
      cases hfound
      exact hsuits
    · intro hsuits
      exact ⟨_, rfl, hsuits⟩

theorem filtered_selection_iff_pair :
    (∃ found, DecideTarget.lowerLife
          ⟨[FightingPit.monster 0 .A_N 5, FightingPit.monster 1 .A_N 5], []⟩ .empty .ALLY .A_N =
            .contender found ∧
        Suits (FightingContender.aliveOnSide .A_N)
          (fun current next => DecideTarget.Lower current.status next.status)
          [FightingPit.monster 0 .A_N 5, FightingPit.monster 1 .A_N 5] found) ↔
      Shielded (FightingContender.aliveOnSide .A_N)
        (fun current next => DecideTarget.comparator current.status next.status)
        [FightingPit.monster 0 .A_N 5, FightingPit.monster 1 .A_N 5] :=
  (filtered_selection_iff (DecideTarget.compares_lower FightingContender.status)
    (DecideTarget.compares_lower TeamMember.status)
    ⟨[FightingPit.monster 0 .A_N 5, FightingPit.monster 1 .A_N 5], []⟩ .empty .A_N).2.2.2

/-- A contender of another side who comes first stays selected. -/
theorem contender_off_side_selected :
    ¬ ∀ (better : FightingContender → FightingContender → Prop)
      (comp : FightingContender → FightingContender → Bool),
      IsStrictWeakOrder FightingContender better → Compares better comp →
        ∀ (pc : PitContenders) (side : Orientation),
          Suits (FightingContender.aliveOnSide side) better pc.contenders
            (pc.selectSuitableContenderOnSideAlive side comp) := by
  intro h
  have hsuits := h _ _ inferInstance (DecideTarget.compares_lower FightingContender.status)
    ⟨[FightingPit.monster 0 .B_N 5, FightingPit.monster 1 .A_N 5], []⟩ .A_N
  have honSide := (hsuits.best_of_some (FightingPit.monster 0 .B_N 5) rfl).2.1
  cases honSide

end FyS.Arena
