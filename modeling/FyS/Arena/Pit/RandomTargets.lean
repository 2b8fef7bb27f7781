import FyS.Arena.Pit.Selections

/-!
# Random targets

`selectRandomContenderOnSideAlive` and `selectRandomMemberOnSideAlive` draw among
all characters of a side, dead or alive, and only the first of them asks whether
there is one.  The number drawn is kept in 32 bits.
-/

namespace FyS.Arena

open HexagonSide

inductive TargetFault where
  | emptyRange
  | outOfRange
deriving DecidableEq, Repr

/-- What `generateInRange(1ul, size)` promises of the number drawn. -/
def Requested (size drawn : Nat) : Prop := 1 ≤ size → 1 ≤ drawn ∧ drawn ≤ size

/-- The lines that both functions share: `drawn` is the answer of the generator, of
which `uint randomIndex` keeps 32 bits. -/
def atRandom {α : Type} (characters : List α) (drawn : Nat) : Except TargetFault (Option α) :=
  if characters.length < 1 then .error .emptyRange
  else
    let randomIndex := drawn % 4294967296
    match characters[(randomIndex + 4294967295) % 4294967296]? with
    | none => .error .outOfRange
    | some character => .ok (some character)

def PitContenders.selectRandomContenderOnSideAlive (pc : PitContenders) (side : Orientation)
    (drawn : Nat) : Except TargetFault (Option FightingContender) :=
  let contenderOnSide := pc.getContenderOnSide side
  if contenderOnSide.isEmpty then .ok none
  else atRandom contenderOnSide drawn

def AllyPartyTeams.selectRandomMemberOnSideAlive (apt : AllyPartyTeams) (side : Orientation)
    (drawn : Nat) : Except TargetFault (Option TeamMember) :=
  atRandom (apt.getMembersBySide side) drawn

/-! ## The contract of both -/

/-- For each number drawn in the range a target is found safely: none where no one
lives, or else one of the living, each of them for some number. -/
structure SafeAndAlive {α : Type} (living : List α) (size : Nat)
    (selectRandom : Nat → Except TargetFault (Option α)) : Prop where
  safe : ∀ drawn, Requested size drawn → ∃ found, selectRandom drawn = .ok found
  none_iff : ∀ drawn, Requested size drawn → (selectRandom drawn = .ok none ↔ living = [])
  alive : ∀ drawn, Requested size drawn →
    ∀ character, selectRandom drawn = .ok (some character) → character ∈ living
  each : ∀ character ∈ living, ∃ drawn, Requested size drawn ∧
    selectRandom drawn = .ok (some character)

section Drawing

variable {α : Type} {characters : List α}

def drawable (characters : List α) : List α := characters.take 4294967296

/-- Whoever can be drawn lives, and whoever lives can be drawn. -/
def LivingDrawable (alive : α → Bool) (characters : List α) : Prop :=
  (∀ character ∈ drawable characters, alive character = true) ∧
    ∀ character ∈ characters, alive character = true → character ∈ drawable characters

theorem atRandom_of_requested (hne : characters ≠ []) {drawn : Nat}
    (h : Requested characters.length drawn) :
    ∃ character ∈ drawable characters, atRandom characters drawn = .ok (some character) := by
  have hpos : 1 ≤ characters.length := List.length_pos_of_ne_nil hne
  have hdrawn := h hpos
  have hindex : (drawn % 4294967296 + 4294967295) % 4294967296 < (drawable characters).length := by
    rw [drawable, List.length_take]
    omega
  have hlt : (drawn % 4294967296 + 4294967295) % 4294967296 < characters.length := by
    rw [drawable, List.length_take] at hindex
    omega
  refine ⟨(drawable characters)[(drawn % 4294967296 + 4294967295) % 4294967296], ?_, ?_⟩
  · exact List.getElem_mem hindex
  · unfold atRandom
    rw [if_neg (Nat.not_lt.mpr hpos)]
    simp only [List.getElem?_eq_getElem hlt, drawable, List.getElem_take]

theorem exists_requested {character : α} (h : character ∈ drawable characters) :
    ∃ drawn, Requested characters.length drawn ∧
      atRandom characters drawn = .ok (some character) := by
  obtain ⟨i, hi, hget⟩ := List.getElem_of_mem h
  have hbounds : i < 4294967296 ∧ i < characters.length := by
    rw [drawable, List.length_take] at hi
    omega
  have hindex : ((i + 1) % 4294967296 + 4294967295) % 4294967296 = i := by omega
  refine ⟨i + 1, ?_, ?_⟩
  · intro _
    omega
  · unfold atRandom
    rw [if_neg (by omega)]
    simp only [hindex, List.getElem?_eq_getElem hbounds.2]
    simp only [drawable, List.getElem_take] at hget
    rw [hget]

theorem safeAndAlive_atRandom_iff (hne : characters ≠ []) (alive : α → Bool) :
    SafeAndAlive (characters.filter alive) characters.length (atRandom characters) ↔
      LivingDrawable alive characters := by
  constructor
  · intro h
    constructor
    · intro character hmem
      obtain ⟨drawn, hdrawn, hfound⟩ := exists_requested hmem
      exact (List.mem_filter.mp (h.alive drawn hdrawn character hfound)).2
    · intro character hmem halive
      obtain ⟨drawn, hdrawn, hfound⟩ := h.each character (List.mem_filter.mpr ⟨hmem, halive⟩)
      obtain ⟨other, hother, hsame⟩ := atRandom_of_requested hne hdrawn
      rw [hfound] at hsame
      cases hsame
      exact hother
  · rintro ⟨halive, hdrawable⟩
    have hfound {drawn : Nat} (hdrawn : Requested characters.length drawn) :
        ∃ character ∈ characters.filter alive, atRandom characters drawn = .ok (some character) := by
      obtain ⟨character, hmem, hfound⟩ := atRandom_of_requested hne hdrawn
      exact ⟨character, List.mem_filter.mpr ⟨List.mem_of_mem_take hmem, halive character hmem⟩,
        hfound⟩
    constructor
    · intro drawn hdrawn
      obtain ⟨character, -, hok⟩ := hfound hdrawn
      exact ⟨some character, hok⟩
    · intro drawn hdrawn
      obtain ⟨character, hmem, hok⟩ := hfound hdrawn
      rw [hok]
      apply iff_of_false
      · intro hnone
        cases hnone
      · exact List.ne_nil_of_mem hmem
    · intro drawn hdrawn character hok
      obtain ⟨other, hmem, hother⟩ := hfound hdrawn
      rw [hok] at hother
      cases hother
      exact hmem
    · intro character hmem
      obtain ⟨hside, hlives⟩ := List.mem_filter.mp hmem
      exact exists_requested (hdrawable character hside hlives)

end Drawing

/-! ## Contenders and members -/

theorem PitContenders.filter_aliveOnSide (pc : PitContenders) (side : Orientation) :
    pc.contenders.filter (FightingContender.aliveOnSide side) =
      (pc.getContenderOnSide side).filter FightingContender.alive := by
  rw [getContenderOnSide, List.filter_filter]
  rfl

theorem AllyPartyTeams.filter_aliveOnSide {apt : AllyPartyTeams} (h : apt.noFirstMember = false)
    (side : Orientation) :
    apt.members.filter (TeamMember.aliveOnSide side) =
      (apt.getMembersBySide side).filter TeamMember.alive := by
  rw [getMembersBySide_eq, h, if_neg Bool.false_ne_true, List.filter_filter]
  rfl

theorem random_contender_iff (pc : PitContenders) (side : Orientation) :
    SafeAndAlive (pc.contenders.filter (FightingContender.aliveOnSide side))
        (pc.getContenderOnSide side).length (pc.selectRandomContenderOnSideAlive side) ↔
      LivingDrawable FightingContender.alive (pc.getContenderOnSide side) := by
  rw [pc.filter_aliveOnSide]
  by_cases hnil : pc.getContenderOnSide side = []
  · have hrun (drawn : Nat) : pc.selectRandomContenderOnSideAlive side drawn = .ok none := by
      rw [PitContenders.selectRandomContenderOnSideAlive, hnil]
      rfl
    rw [hnil]
    apply iff_of_true
    · constructor
      · intro drawn _
        exact ⟨none, hrun drawn⟩
      · intro drawn _
        exact iff_of_true (hrun drawn) rfl
      · intro drawn _ character hfound
        rw [hrun] at hfound
        cases hfound
      · intro character hmem
        cases hmem
    · constructor
      · intro character hmem
        cases hmem
      · intro character hmem
        cases hmem
  · have hrun : pc.selectRandomContenderOnSideAlive side =
        atRandom (pc.getContenderOnSide side) := by
      ext1 drawn
      rw [PitContenders.selectRandomContenderOnSideAlive]
      simp [hnil]
    rw [hrun]
    exact safeAndAlive_atRandom_iff hnil FightingContender.alive

theorem random_member_iff (apt : AllyPartyTeams) (side : Orientation) :
    SafeAndAlive (apt.members.filter (TeamMember.aliveOnSide side))
        (apt.getMembersBySide side).length (apt.selectRandomMemberOnSideAlive side) ↔
      apt.getMembersBySide side ≠ [] ∧
        LivingDrawable TeamMember.alive (apt.getMembersBySide side) := by
  by_cases hnil : apt.getMembersBySide side = []
  · apply iff_of_false
    · intro h
      obtain ⟨found, hfound⟩ := h.safe 0 (by rw [hnil]; intro hpos; cases hpos)
      rw [AllyPartyTeams.selectRandomMemberOnSideAlive, hnil] at hfound
      cases hfound
    · rintro ⟨hne, -⟩
      exact hne hnil
  · have hfirst : apt.noFirstMember = false := by
      cases h : apt.noFirstMember with
      | false => rfl
      | true =>
          rw [AllyPartyTeams.getMembersBySide, h] at hnil
          exact absurd rfl hnil
    rw [AllyPartyTeams.filter_aliveOnSide hfirst]
    have hiff := safeAndAlive_atRandom_iff hnil TeamMember.alive
    exact hiff.trans (iff_and_self.mpr fun _ => hnil)

/-- Contenders: everyone on the side lives, as far as the 32 bits reach.  Members:
besides, someone stands there, and the first team is not empty. -/
theorem random_target_iff (pc : PitContenders) (apt : AllyPartyTeams) (side : Orientation) :
    (SafeAndAlive (pc.contenders.filter (FightingContender.aliveOnSide side))
          (pc.getContenderOnSide side).length (pc.selectRandomContenderOnSideAlive side) ↔
        LivingDrawable FightingContender.alive (pc.getContenderOnSide side)) ∧
      (SafeAndAlive (apt.members.filter (TeamMember.aliveOnSide side))
          (apt.getMembersBySide side).length (apt.selectRandomMemberOnSideAlive side) ↔
        apt.getMembersBySide side ≠ [] ∧
          LivingDrawable TeamMember.alive (apt.getMembersBySide side)) :=
  ⟨random_contender_iff pc side, random_member_iff apt side⟩

/-- Without a member the range is empty. -/
theorem random_member_of_nobody :
    ¬ ∀ (apt : AllyPartyTeams) (side : Orientation),
      SafeAndAlive (apt.members.filter (TeamMember.aliveOnSide side))
        (apt.getMembersBySide side).length (apt.selectRandomMemberOnSideAlive side) := by
  intro h
  have hrange := (random_member_iff .empty .A_N).mp (h .empty .A_N)
  exact hrange.1 rfl

end FyS.Arena
