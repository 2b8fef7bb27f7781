import FyS.Arena.Pit.Initial

/-!
# Teams that join a battle

`playerJoinFightingPit` ends in `addPartyTeamAndRegisterActions`: the team is
added and the side battles are sorted, but nobody is registered in a priority
list.  Only what stood on the sides at the initialisation ever gets a turn.
-/

namespace FyS.Arena

open FyS.Library.Fuel HexagonSide PriorityOrderList

variable {P : Platform} {S : SideSort} {C : ChaiScript} {cml : String → Option String}

namespace AllyPartyTeams

@[simp] theorem members_addPartyTeam (team : PartyTeam) (apt : AllyPartyTeams) :
    (apt.addPartyTeam team).members =
      apt.members ++ (team.numbered apt.currentTeamMemberId).members := by
  simp [members, addPartyTeam]

theorem sides_numbered (n : Nat) (team : PartyTeam) :
    (team.numbered n).members.map (·.getHexagonSideOrient) =
      team.members.map (·.getHexagonSideOrient) := by
  apply List.ext_getElem
  · simp
  · intro i _ _
    simp [PartyTeam.numbered, TeamMember.getHexagonSideOrient]

end AllyPartyTeams

namespace FightingPit

/-- Each side is a separate battle that lists the team members on it, each
exactly once, and no others. -/
structure Entered (fp : FightingPit C) : Prop where
  sides : (fp.sideBattles.map (·.side)).Perm FightingPit.sides
  registered : ∀ sb ∈ fp.sideBattles, ∀ member ∈ fp.partyTeams.members,
    member.getHexagonSideOrient = sb.side →
      (keys sb.priorityOrderList.baseSpeed).count (member.id, false) = 1
  onSide : ∀ sb ∈ fp.sideBattles, ∀ e ∈ sb.priorityOrderList.baseSpeed, e.isContender = false →
    ∃ member ∈ fp.partyTeams.members,
      member.id = e.id ∧ member.getHexagonSideOrient = sb.side

def joinAll (S : SideSort) (cml : String → Option String) (pts : List PartyTeam)
    (fp : FightingPit C) : Except PitFault (FightingPit C) :=
  pts.foldlM (fun fp pt => fp.addPartyTeamAndRegisterActions S cml pt) fp

theorem addPartyTeam_cases {pt : PartyTeam} {fp fp' : FightingPit C}
    (h : fp.addPartyTeamAndRegisterActions S cml pt = .ok fp') :
    fp'.partyTeams = fp.partyTeams.addPartyTeam pt ∧ fp'.sideBattles.Perm fp.sideBattles := by
  obtain ⟨⟨_, chai⟩, -, hfp⟩ := bind_eq_ok.mp h
  rw [← Except.ok.inj hfp]
  exact ⟨rfl, S.perm _ _⟩

structure Grown (pts : List PartyTeam) (fp fp' : FightingPit C) : Prop where
  battles : fp'.sideBattles.Perm fp.sideBattles
  members : ∃ joined, fp'.partyTeams.members = fp.partyTeams.members ++ joined ∧
    (∀ member ∈ joined, fp.partyTeams.currentTeamMemberId < member.id) ∧
    joined.map (·.getHexagonSideOrient) =
      (pts.flatMap (·.members)).map (·.getHexagonSideOrient)

theorem joinAll_grown {pts : List PartyTeam} {fp fp' : FightingPit C}
    (h : joinAll S cml pts fp = .ok fp') : Grown pts fp fp' := by
  induction pts generalizing fp with
  | nil =>
      obtain rfl : fp = fp' := Except.ok.inj h
      exact ⟨List.Perm.refl _, [], by simp, List.forall_mem_nil _, rfl⟩
  | cons pt pts ih =>
      rw [joinAll, List.foldlM_cons] at h
      obtain ⟨fp₁, hjoin, hrest⟩ := bind_eq_ok.mp h
      obtain ⟨hteams, hperm⟩ := addPartyTeam_cases hjoin
      obtain ⟨hbattles, joined, hmembers, hids, hsides⟩ := ih hrest
      rw [hteams, AllyPartyTeams.members_addPartyTeam, List.append_assoc] at hmembers
      refine ⟨hbattles.trans hperm, _, hmembers, fun member hmember => ?_, ?_⟩
      · rcases List.mem_append.mp hmember with hnew | hlater
        · have hid := List.mem_map_of_mem (f := (·.id)) hnew
          rw [PartyTeam.ids_numbered, List.mem_range'_1] at hid
          omega
        · have hid := hids member hlater
          rw [hteams] at hid
          have hle : fp.partyTeams.currentTeamMemberId ≤
              (fp.partyTeams.addPartyTeam pt).currentTeamMemberId := Nat.le_add_right _ _
          omega
      · rw [List.map_append, AllyPartyTeams.sides_numbered, hsides, List.flatMap_cons,
          List.map_append]

/-! ## The lists of the initialised sides -/

theorem count_member_entry {fp : FightingPit C} {base : List PriorityElem} {side : Orientation}
    (hbase : base.Perm (fp.entries side)) {member : TeamMember}
    (h : member ∈ fp.partyTeams.getMembersBySide side) :
    (keys base).count (member.id, false) = 1 := by
  have hmem : memberEntry member ∈ base := by
    rw [hbase.mem_iff, mem_entries]
    exact .inl ⟨member, h, rfl⟩
  have hnodup : (keys base).Nodup := (keys_perm hbase).nodup_iff.mpr (fp.entries_keys_nodup side)
  exact List.count_eq_one_of_mem hnodup (key_mem hmem)

theorem mem_of_member_key {fp : FightingPit C} {base : List PriorityElem} {side : Orientation}
    (hbase : base.Perm (fp.entries side)) {e : PriorityElem} (he : e ∈ base)
    (hmember : e.isContender = false) :
    ∃ member ∈ fp.partyTeams.getMembersBySide side, member.id = e.id := by
  rw [hbase.mem_iff, mem_entries] at he
  rcases he with ⟨member, hm, rfl⟩ | ⟨contender, i, -, rfl⟩
  · exact ⟨member, hm, rfl⟩
  · exact nomatch hmember

theorem mem_side_of_count {fp : FightingPit C} {base : List PriorityElem} {side : Orientation}
    (hbase : base.Perm (fp.entries side)) {id : Nat} (h : (keys base).count (id, false) = 1) :
    ∃ member ∈ fp.partyTeams.getMembersBySide side, member.id = id := by
  have hmem : (id, false) ∈ keys base := List.count_pos_iff.mp (h ▸ Nat.one_pos)
  obtain ⟨e, he, hkey⟩ := List.mem_map.mp hmem
  obtain ⟨member, hm, hid⟩ := mem_of_member_key hbase he (congrArg Prod.snd hkey)
  exact ⟨member, hm, hid.trans (congrArg Prod.fst hkey)⟩

theorem Entered.initial {fp fp' : FightingPit C} {base : Orientation → List PriorityElem}
    (h : Entered fp') (hbase : ∀ side, (base side).Perm (fp.entries side))
    (hbattles : fp'.sideBattles.Perm
      (FightingPit.sides.map fun side => unplayedBattle (base side) side))
    {member : TeamMember} (hm : member ∈ fp'.partyTeams.members)
    (hside : member.getHexagonSideOrient ≠ .NONE) :
    fp.partyTeams.noFirstMember = false ∧ member.id ≤ fp.partyTeams.currentTeamMemberId := by
  have hsb := hbattles.mem_iff.mpr (List.mem_map_of_mem (mem_sides.mpr hside))
  have hcount := h.registered _ hsb member hm rfl
  obtain ⟨other, hother, hid⟩ := mem_side_of_count (hbase _) hcount
  obtain ⟨hfirst, hmem, -⟩ := AllyPartyTeams.mem_getMembersBySide.mp hother
  refine ⟨hfirst, ?_⟩
  rw [← hid]
  exact (AllyPartyTeams.id_bounds hmem).2

theorem entered_of_initial {fp fp' : FightingPit C} {base : Orientation → List PriorityElem}
    (hbase : ∀ side, (base side).Perm (fp.entries side))
    (hbattles : fp'.sideBattles.Perm (sides.map fun side => unplayedBattle (base side) side))
    (hmembers : ∀ member ∈ fp'.partyTeams.members, member.getHexagonSideOrient ≠ .NONE →
      fp.partyTeams.noFirstMember = false ∧ member ∈ fp.partyTeams.members)
    (hsub : fp.partyTeams.members ⊆ fp'.partyTeams.members) : Entered fp' := by
  constructor
  · apply (hbattles.map _).trans
    apply List.Perm.of_eq
    simp [unplayedBattle, Function.comp_def]
  · intro sb hsb member hm hside
    obtain ⟨side, hs, rfl⟩ := List.mem_map.mp (hbattles.mem_iff.mp hsb)
    have hne : member.getHexagonSideOrient ≠ .NONE := hside ▸ mem_sides.mp hs
    obtain ⟨hfirst, hmem⟩ := hmembers member hm hne
    apply count_member_entry (hbase side)
    exact AllyPartyTeams.mem_getMembersBySide.mpr ⟨hfirst, hmem, hside⟩
  · intro sb hsb e he hmember
    obtain ⟨side, -, rfl⟩ := List.mem_map.mp (hbattles.mem_iff.mp hsb)
    obtain ⟨member, hm, hid⟩ := mem_of_member_key (hbase side) he hmember
    obtain ⟨-, hmem, hside⟩ := AllyPartyTeams.mem_getMembersBySide.mp hm
    exact ⟨member, hsub hmem, hid, hside⟩

/-- In every run of arrivals on an initialised pit: all members on the sides are
registered, exactly when no joining team has a member on a side, and no initial
team either if the first one was empty. -/
theorem joining_enters_iff {fp fp₁ fp₂ : FightingPit C} {pts : List PartyTeam}
    (hfresh : fp.sideBattles = [])
    (hinit : Returns (fun fuel => initializeSideBattles P fuel fp) fp₁)
    (hjoin : joinAll S cml pts fp₁ = .ok fp₂) :
    Entered fp₂ ↔
      (fp.partyTeams.noFirstMember = true →
        ∀ member ∈ fp.partyTeams.members, member.getHexagonSideOrient = .NONE) ∧
      ∀ pt ∈ pts, ∀ member ∈ pt.members, member.getHexagonSideOrient = .NONE := by
  obtain ⟨base, hbase, rfl⟩ := initializeSideBattles_cases hfresh hinit
  obtain ⟨hbattles, joined, hmembers, hids, hjoined⟩ := joinAll_grown hjoin
  simp only at hbattles hmembers hids
  have hjoinedSides : (∀ pt ∈ pts, ∀ member ∈ pt.members, member.getHexagonSideOrient = .NONE) ↔
      ∀ member ∈ joined, member.getHexagonSideOrient = .NONE := by
    have hall : (∀ side ∈ joined.map (·.getHexagonSideOrient), side = .NONE) ↔
        ∀ side ∈ (pts.flatMap (·.members)).map (·.getHexagonSideOrient), side = .NONE := by
      rw [hjoined]
    rw [List.forall_mem_map, List.forall_mem_map, List.forall_mem_flatMap] at hall
    exact hall.symm
  rw [hjoinedSides]
  constructor
  · intro h
    constructor
    · intro hfirst member hm
      by_contra hside
      have := (h.initial hbase hbattles (by rw [hmembers]; simp [hm]) hside).1
      simp [hfirst] at this
    · intro member hm
      by_contra hside
      have := (h.initial hbase hbattles (by rw [hmembers]; simp [hm]) hside).2
      have := hids member hm
      omega
  · rintro ⟨hfirst, hnone⟩
    apply entered_of_initial hbase hbattles
    · intro member hm hside
      rw [hmembers] at hm
      rcases List.mem_append.mp hm with hm | hm
      · refine ⟨?_, hm⟩
        by_contra hno
        exact hside (hfirst (by simpa using hno) member hm)
      · exact absurd (hnone member hm) hside
    · rw [hmembers]
      exact List.subset_append_left _ _

def patrol : FightingPit (constantChai harmless) :=
  arranged (assembled harmless [] [recruit "first" .A_N 3])

def reinforced : FightingPit (constantChai harmless) :=
  ((joinAll insertionSideSort (fun _ => none) [⟨"friend", [recruit "second" .A_N 5]⟩]
    patrol).toOption).getD patrol

theorem joining_enters_iff_reinforced :
    Entered reinforced ↔
      (patrol.partyTeams.noFirstMember = true →
        ∀ member ∈ patrol.partyTeams.members, member.getHexagonSideOrient = .NONE) ∧
      ∀ pt ∈ [PartyTeam.mk "friend" [recruit "second" .A_N 5]],
        ∀ member ∈ pt.members, member.getHexagonSideOrient = .NONE := by
  have hfresh : (assembled harmless [] [recruit "first" .A_N 3]).sideBattles = [] := rfl
  have hinit : Returns (fun fuel => initializeSideBattles (.unbounded insertionSort) fuel
      (assembled harmless [] [recruit "first" .A_N 3])) patrol := ⟨0, rfl⟩
  have hjoin : joinAll insertionSideSort (fun _ => none)
      [⟨"friend", [recruit "second" .A_N 5]⟩] patrol = .ok reinforced := rfl
  have hiff := joining_enters_iff hfresh hinit hjoin
  exact hiff

/-- The friend, under the id 2, is in no list. -/
theorem joining_does_not_enter :
    ¬ ∀ (fp fp₁ fp₂ : FightingPit (constantChai harmless)) (pts : List PartyTeam),
      fp.sideBattles = [] →
      Returns (fun fuel => initializeSideBattles (.unbounded insertionSort) fuel fp) fp₁ →
        joinAll insertionSideSort (fun _ => none) pts fp₁ = .ok fp₂ → Entered fp₂ := by
  intro h
  have hentered := h (assembled harmless [] [recruit "first" .A_N 3]) patrol reinforced
    [⟨"friend", [recruit "second" .A_N 5]⟩] rfl ⟨0, rfl⟩ rfl
  have hall : ∀ sb ∈ reinforced.sideBattles, ∀ member ∈ reinforced.partyTeams.members,
      member.getHexagonSideOrient = sb.side →
        (keys sb.priorityOrderList.baseSpeed).count (member.id, false) = 1 := hentered.registered
  exact absurd hall (by decide)

end FightingPit

end FyS.Arena
