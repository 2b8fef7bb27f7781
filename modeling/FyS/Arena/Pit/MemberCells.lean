import FyS.Arena.Pit.ActionRegistry
import FyS.Arena.Pit.Initial

/-!
# The cells of the members

What the registry holds after the teams of a pit were registered: one action of a
member, as long as no user name runs on into the name of a member.
-/

namespace FyS.Arena

open FyS.Library ChaiRegister

namespace ActionEngine

variable {C : ChaiScript} {cml : String → Option String} (engine : ActionEngine C cml)

/-! ## Names -/

theorem plain_append {s t : String} (hs : plain s) (ht : plain t) : plain (s ++ t) := by
  intro c hc
  rw [String.toList_append, List.mem_append] at hc
  exact hc.elim (hs c) (ht c)

theorem plain_keyPlayer {userName name : String} (huser : plain userName) (hname : plain name) :
    plain (userName ++ "_" ++ name) := by
  apply plain_append
  · apply plain_append huser
    intro c hc
    right
    simpa using hc
  · exact hname

/-- The user of one pair continues, behind a separator, into the member of the other. -/
def Overlap (userName name userName' name' : String) : Prop :=
  ∃ middle, userName' = userName ++ "_" ++ middle ∧ name = middle ++ "_" ++ name'

theorem keyPlayer_of_overlap {userName name userName' name' : String}
    (h : Overlap userName name userName' name') :
    userName ++ "_" ++ name = userName' ++ "_" ++ name' := by
  obtain ⟨middle, rfl, rfl⟩ := h
  simp only [String.append_assoc]

theorem ne_of_overlap {userName name userName' name' : String}
    (h : Overlap userName name userName' name') : userName ≠ userName' := by
  obtain ⟨middle, rfl, rfl⟩ := h
  intro heq
  have hlength := congrArg (·.toList.length) heq
  simp at hlength

theorem overlap_of_append {userName name userName' name' : String} {middle : List Char}
    (huser : userName'.toList = userName.toList ++ middle)
    (hname : '_' :: name.toList = middle ++ '_' :: name'.toList) :
    (userName = userName' ∧ name = name') ∨ Overlap userName name userName' name' := by
  cases middle with
  | nil =>
      left
      rw [List.append_nil] at huser
      rw [List.nil_append, List.cons.injEq] at hname
      exact ⟨String.toList_injective huser.symm, String.toList_injective hname.2⟩
  | cons c middle =>
      right
      rw [List.cons_append, List.cons.injEq] at hname
      refine ⟨String.ofList middle, ?_, ?_⟩
      · apply String.toList_injective
        simp [huser, ← hname.1]
      · apply String.toList_injective
        simp [hname.2]

theorem keyPlayer_eq_iff {userName name userName' name' : String} :
    userName ++ "_" ++ name = userName' ++ "_" ++ name' ↔
      (userName = userName' ∧ name = name') ∨ Overlap userName name userName' name' ∨
        Overlap userName' name' userName name := by
  constructor
  · intro heq
    have hlist : userName.toList ++ '_' :: name.toList = userName'.toList ++ '_' :: name'.toList := by
      have := congrArg String.toList heq
      simpa [String.toList_append] using this
    rcases List.append_eq_append_iff.mp hlist with ⟨middle, huser, hname⟩ | ⟨middle, huser, hname⟩
    · exact (overlap_of_append huser hname).imp_right .inl
    · rcases overlap_of_append huser hname with ⟨hu, hn⟩ | hover
      · exact .inl ⟨hu.symm, hn.symm⟩
      · exact .inr (.inr hover)
  · rintro (⟨rfl, rfl⟩ | hover | hover)
    · rfl
    · exact keyPlayer_of_overlap hover
    · exact (keyPlayer_of_overlap hover).symm

/-! ## The whole registry -/

def KeysDiffer (pts : List PartyTeam) : Prop :=
  ∀ pt ∈ pts, ∀ tm ∈ pt.members, ∀ pt' ∈ pts, ∀ tm' ∈ pt'.members,
    pt.userName ++ "_" ++ tm.name = pt'.userName ++ "_" ++ tm'.name →
      pt.userName = pt'.userName ∧ tm.name = tm'.name

/-- Every member holds every one of its actions at its own level, under a key that
is its own. -/
structure RegistrySound (pts : List PartyTeam) (chai : C.State) : Prop where
  held : ∀ pt ∈ pts, ∀ tm ∈ pt.members, ∀ action ∈ tm.actionsDoable,
    ∃ cell, engine.allyActions chai (pt.userName ++ "_" ++ tm.name) = some cell ∧
      cell (getActionNameFromKey action.1) = some action.2
  keysDiffer : KeysDiffer pts

structure Registrable (pts : List PartyTeam) (classes : engine.Classes) : Prop where
  noOverlap : ∀ pt ∈ pts, ∀ tm ∈ pt.members, ∀ pt' ∈ pts, ∀ tm' ∈ pt'.members,
    ¬ Overlap pt.userName tm.name pt'.userName tm'.name
  named : ∀ r ∈ pts.flatMap (·.registrations), isIdentifier r.actionName
  /-- All that is registered of one member is one action at one level. -/
  oneAction : ∀ r ∈ pts.flatMap (·.registrations), ∀ r' ∈ pts.flatMap (·.registrations),
    r.userName = r'.userName → r.name = r'.name →
      r.actionName = r'.actionName ∧ r.level = r'.level
  accepted : ∀ r ∈ pts.flatMap (·.registrations), ∃ r' ∈ engine.acceptTeams pts classes,
    r'.userName = r.userName ∧ r'.name = r.name

theorem keysDiffer_iff {pts : List PartyTeam} :
    KeysDiffer pts ↔
      ∀ pt ∈ pts, ∀ tm ∈ pt.members, ∀ pt' ∈ pts, ∀ tm' ∈ pt'.members,
        ¬ Overlap pt.userName tm.name pt'.userName tm'.name := by
  constructor
  · intro h pt hpt tm htm pt' hpt' tm' htm' hover
    have hsame := h pt hpt tm htm pt' hpt' tm' htm' (keyPlayer_of_overlap hover)
    exact ne_of_overlap hover hsame.1
  · intro h pt hpt tm htm pt' hpt' tm' htm' heq
    rcases keyPlayer_eq_iff.mp heq with hsame | hover | hover
    · exact hsame
    · exact absurd hover (h pt hpt tm htm pt' hpt' tm' htm')
    · exact absurd hover (h pt' hpt' tm' htm' pt hpt tm htm)

variable {pts : List PartyTeam}

theorem mem_all {r : Registration} :
    r ∈ pts.flatMap (·.registrations) ↔ ∃ pt ∈ pts, ∃ tm ∈ pt.members,
      ∃ action ∈ tm.actionsDoable, r = ⟨pt.userName, tm.name, action.1, action.2⟩ := by
  simp only [List.mem_flatMap, PartyTeam.mem_registrations]

theorem held_iff {allyActions : String → Option (String → Option Nat)} :
    (∀ pt ∈ pts, ∀ tm ∈ pt.members, ∀ action ∈ tm.actionsDoable,
      ∃ cell, allyActions (pt.userName ++ "_" ++ tm.name) = some cell ∧
        cell (getActionNameFromKey action.1) = some action.2) ↔
      ∀ r ∈ pts.flatMap (·.registrations),
        ∃ cell, allyActions r.keyPlayer = some cell ∧ cell r.actionName = some r.level := by
  constructor
  · intro h r hr
    obtain ⟨pt, hpt, tm, htm, action, haction, rfl⟩ := mem_all.mp hr
    exact h pt hpt tm htm action haction
  · intro h pt hpt tm htm action haction
    exact h _ (mem_all.mpr ⟨pt, hpt, tm, htm, action, haction, rfl⟩)

theorem inserted_iff {accepted : List Registration} {r : Registration} :
    (∃ cell, KeepFirst.insertAll (accepted.map (·.cell)) (fun _ => none) r.keyPlayer = some cell ∧
        cell r.actionName = some r.level) ↔
      KeepFirst.insertAll (accepted.map (·.cell)) (fun _ => none) r.cell.1 = some r.cell.2 := by
  constructor
  · rintro ⟨cell, hcell, hlevel⟩
    obtain ⟨r', -, heq⟩ := List.mem_map.mp (KeepFirst.mem_of_insertAll hcell)
    have hsame : cell = r'.cell.2 := by rw [heq]
    rw [hsame, Registration.cell_snd] at hlevel
    split_ifs at hlevel with hname
    have hbuilt : r'.cell.2 = r.cell.2 :=
      Registration.cell_snd_eq_iff.mpr ⟨hname.symm, Option.some.inj hlevel⟩
    rw [Registration.cell_fst, ← hbuilt, ← hsame, hcell]
  · intro h
    rw [Registration.cell_fst] at h
    refine ⟨r.cell.2, h, ?_⟩
    rw [Registration.cell_snd, if_pos rfl]

theorem keyPlayer_eq_iff_of_keysDiffer
    (hkeys : KeysDiffer pts)
    {r r' : Registration} (hr : r ∈ pts.flatMap (·.registrations))
    (hr' : r' ∈ pts.flatMap (·.registrations)) :
    r.keyPlayer = r'.keyPlayer ↔ r.userName = r'.userName ∧ r.name = r'.name := by
  obtain ⟨pt, hpt, tm, htm, action, -, rfl⟩ := mem_all.mp hr
  obtain ⟨pt', hpt', tm', htm', action', -, rfl⟩ := mem_all.mp hr'
  constructor
  · exact hkeys pt hpt tm htm pt' hpt' tm' htm'
  · rintro ⟨huser, hname⟩
    simp only at huser hname
    rw [Registration.keyPlayer, Registration.keyPlayer, huser, hname]

/-- When the registry keeps everything that is registered: all that goes under one key
is one action at one level, named after a class, and it came through. -/
structure Kept (pts : List PartyTeam) (classes : engine.Classes) : Prop where
  named : ∀ r ∈ pts.flatMap (·.registrations), isIdentifier r.actionName
  agree : ∀ r ∈ pts.flatMap (·.registrations), ∀ r' ∈ pts.flatMap (·.registrations),
    r.keyPlayer = r'.keyPlayer → r.actionName = r'.actionName ∧ r.level = r'.level
  accepted : ∀ r ∈ pts.flatMap (·.registrations), ∃ r' ∈ engine.acceptTeams pts classes,
    r'.keyPlayer = r.keyPlayer

theorem all_inserted_iff {classes : engine.Classes} :
    (∀ r ∈ pts.flatMap (·.registrations),
      KeepFirst.insertAll ((engine.acceptTeams pts classes).map (·.cell)) (fun _ => none) r.cell.1 =
        some r.cell.2) ↔
      (∀ r ∈ pts.flatMap (·.registrations), ∀ r' ∈ pts.flatMap (·.registrations),
        r.keyPlayer = r'.keyPlayer → r.actionName = r'.actionName ∧ r.level = r'.level) ∧
      ∀ r ∈ pts.flatMap (·.registrations), ∃ r' ∈ engine.acceptTeams pts classes,
        r'.keyPlayer = r.keyPlayer := by
  have hsub : ∀ e ∈ (engine.acceptTeams pts classes).map (·.cell),
      e ∈ (pts.flatMap (·.registrations)).map (·.cell) := by
    intro e he
    obtain ⟨r, hr, rfl⟩ := List.mem_map.mp he
    exact List.mem_map_of_mem (engine.mem_of_acceptTeams hr)
  have hholds := KeepFirst.holds_iff hsub
  simp only [List.forall_mem_map] at hholds
  simp only [List.mem_map, exists_exists_and_eq_and, Registration.cell_snd_eq_iff] at hholds
  exact hholds

/-- For members with keys of their own what is kept can be told by the members. -/
theorem registrable_iff_kept (hkeys : KeysDiffer pts) {classes : engine.Classes} :
    engine.Registrable pts classes ↔ engine.Kept pts classes := by
  have hsame {r r' : Registration} (hr : r ∈ pts.flatMap (·.registrations))
      (hr' : r' ∈ pts.flatMap (·.registrations)) := keyPlayer_eq_iff_of_keysDiffer hkeys hr hr'
  constructor
  · intro h
    refine ⟨h.named, ?_, ?_⟩
    · intro r hr r' hr' hkey
      obtain ⟨huser, hname⟩ := (hsame hr hr').mp hkey
      exact h.oneAction r hr r' hr' huser hname
    · intro r hr
      obtain ⟨r', hr', hpair⟩ := h.accepted r hr
      exact ⟨r', hr', (hsame (engine.mem_of_acceptTeams hr') hr).mpr hpair⟩
  · intro h
    refine ⟨keysDiffer_iff.mp hkeys, h.named, ?_, ?_⟩
    · intro r hr r' hr' huser hname
      exact h.agree r hr r' hr' ((hsame hr hr').mpr ⟨huser, hname⟩)
    · intro r hr
      obtain ⟨r', hr', hkey⟩ := h.accepted r hr
      exact ⟨r', hr', (hsame (engine.mem_of_acceptTeams hr') hr).mp hkey⟩

section

variable {chai chai' : C.State}
  (hplain : ∀ pt ∈ pts, plain pt.userName ∧ ∀ tm ∈ pt.members, plain tm.name)
  (hfresh : ∀ userName name, engine.allyActions chai (userName ++ "_" ++ name) = none)

include hplain in
theorem readable_of_named (hnamed : ∀ r ∈ pts.flatMap (·.registrations), isIdentifier r.actionName) :
    ∀ r ∈ pts.flatMap (·.registrations), Readable r := by
  intro r hr
  refine ⟨?_, hnamed r hr⟩
  obtain ⟨pt, hpt, tm, htm, action, -, rfl⟩ := mem_all.mp hr
  exact plain_keyPlayer (hplain pt hpt).1 ((hplain pt hpt).2 tm htm)

include hfresh in
theorem allyActions_keyPlayer (hactions : engine.allyActions chai' =
      KeepFirst.insertAll ((engine.acceptTeams pts (engine.classes chai)).map (·.cell))
        (engine.allyActions chai)) (r : Registration) :
    engine.allyActions chai' r.keyPlayer =
      KeepFirst.insertAll ((engine.acceptTeams pts (engine.classes chai)).map (·.cell))
        (fun _ => none) r.keyPlayer := by
  rw [hactions, KeepFirst.insertAll_eq, KeepFirst.insertAll_eq, Registration.keyPlayer, hfresh]

include hplain hfresh in
theorem held_iff_kept :
    (∃ chai', registerTeams cml pts chai = .ok chai' ∧
      ∀ r ∈ pts.flatMap (·.registrations),
        ∃ cell, engine.allyActions chai' r.keyPlayer = some cell ∧
          cell r.actionName = some r.level) ↔
      engine.Kept pts (engine.classes chai) := by
  constructor
  · rintro ⟨chai', hrun, hheld⟩
    have hnamed : ∀ r ∈ pts.flatMap (·.registrations), isIdentifier r.actionName := by
      intro r hr
      obtain ⟨cell, hcell, hlevel⟩ := hheld r hr
      exact engine.isIdentifier_of_held hcell hlevel
    obtain ⟨chai'', hrun', hactions⟩ :=
      engine.registerTeams_spec (readable_of_named hplain hnamed) chai
    have hsame : chai'' = chai' := Except.ok.inj (hrun'.symm.trans hrun)
    rw [hsame] at hactions
    simp only [engine.allyActions_keyPlayer hfresh hactions, inserted_iff] at hheld
    obtain ⟨hagree, haccepted⟩ := engine.all_inserted_iff.mp hheld
    exact ⟨hnamed, hagree, haccepted⟩
  · intro h
    obtain ⟨chai', hrun, hactions⟩ :=
      engine.registerTeams_spec (readable_of_named hplain h.named) chai
    refine ⟨chai', hrun, ?_⟩
    simp only [engine.allyActions_keyPlayer hfresh hactions, inserted_iff]
    exact engine.all_inserted_iff.mpr ⟨h.agree, h.accepted⟩

include hplain hfresh in
theorem registrable_of_sound (hrun : registerTeams cml pts chai = .ok chai')
    (hsound : engine.RegistrySound pts chai') : engine.Registrable pts (engine.classes chai) := by
  rw [engine.registrable_iff_kept hsound.keysDiffer]
  exact (engine.held_iff_kept hplain hfresh).mp ⟨chai', hrun, held_iff.mp hsound.held⟩

include hplain hfresh in
theorem sound_of_registrable (h : engine.Registrable pts (engine.classes chai)) :
    ∃ chai', registerTeams cml pts chai = .ok chai' ∧ engine.RegistrySound pts chai' := by
  have hkeys := keysDiffer_iff.mpr h.noOverlap
  obtain ⟨chai', hrun, hheld⟩ :=
    (engine.held_iff_kept hplain hfresh).mpr ((engine.registrable_iff_kept hkeys).mp h)
  exact ⟨chai', hrun, held_iff.mpr hheld, hkeys⟩

end

/-- Registration leaves a sound registry exactly when no user runs on into a member
of another, every action is named after a class, one action at one level is all that
is registered of a member, and it came through once. -/
theorem registry_sound_iff {chai : C.State}
    (hplain : ∀ pt ∈ pts, plain pt.userName ∧ ∀ tm ∈ pt.members, plain tm.name)
    (hfresh : ∀ userName name, engine.allyActions chai (userName ++ "_" ++ name) = none) :
    (∃ chai', registerTeams cml pts chai = .ok chai' ∧ engine.RegistrySound pts chai') ↔
      engine.Registrable pts (engine.classes chai) := by
  constructor
  · rintro ⟨chai', hrun, hsound⟩
    exact engine.registrable_of_sound hplain hfresh hrun hsound
  · exact engine.sound_of_registrable hplain hfresh

end ActionEngine

/-! ## One action, and two -/

def slashAndHeal (action : String) : Option String :=
  if action = "arena:actions:damage:slash.chai" then some "class slash \x7b\x7d;"
  else if action = "arena:actions:heal:light_heal.chai" then some "class light_heal \x7b\x7d;"
  else none

theorem classDefined_slashAndHeal (action script : String)
    (h : slashAndHeal action = some script) : ∃ name, classDefined script = some name := by
  unfold slashAndHeal at h
  split_ifs at h
  · rw [← Option.some.inj h]
    simp [classDefined]
  · rw [← Option.some.inj h]
    simp [classDefined]

def slashAndHealEngine : ActionEngine registryChai slashAndHeal :=
  registryEngine slashAndHeal classDefined_slashAndHeal

def noRegistry : Registry := ⟨[], [], List.forall_mem_nil _⟩

def fyston (actionsDoable : List (String × Nat)) : PartyTeam :=
  ⟨"FyS", [{ FightingPit.recruit "fyston1" .B_N 1 with userName := "FyS", actionsDoable }]⟩

namespace ActionEngine

theorem plain_fyston (actionsDoable : List (String × Nat)) :
    ∀ pt ∈ [fyston actionsDoable], plain pt.userName ∧ ∀ tm ∈ pt.members, plain tm.name := by
  have huser : plain "FyS" := by simp [plain]
  have hname : plain "fyston1" := by simp [plain]
  intro pt hpt
  rw [List.mem_singleton.mp hpt]
  refine ⟨huser, ?_⟩
  intro tm htm
  rw [List.mem_singleton.mp htm]
  exact hname

/-- A member who can do one thing holds it. -/
theorem registry_sound_iff_slash :
    (∃ chai', registerTeams slashAndHeal [fyston [("arena:actions:damage:slash.chai", 3)]]
        noRegistry = .ok chai' ∧
      slashAndHealEngine.RegistrySound [fyston [("arena:actions:damage:slash.chai", 3)]] chai') ↔
      slashAndHealEngine.Registrable [fyston [("arena:actions:damage:slash.chai", 3)]] [] :=
  slashAndHealEngine.registry_sound_iff (plain_fyston _) fun _ _ => rfl

/-- Of a slash and a heal only the slash is kept. -/
theorem second_action_lost :
    ¬ ∀ (C : ChaiScript) (cml : String → Option String) (engine : ActionEngine C cml)
      (pts : List PartyTeam) (chai : C.State),
      (∀ pt ∈ pts, plain pt.userName ∧ ∀ tm ∈ pt.members, plain tm.name ∧
        (tm.actionsDoable.map Prod.fst).Nodup) →
      (∀ userName name, engine.allyActions chai (userName ++ "_" ++ name) = none) →
        ∃ chai', registerTeams cml pts chai = .ok chai' ∧ engine.RegistrySound pts chai' := by
  intro h
  let actionsDoable := [("arena:actions:damage:slash.chai", 3),
    ("arena:actions:heal:light_heal.chai", 2)]
  have hnodup : (actionsDoable.map Prod.fst).Nodup := by decide
  have hnames : ∀ pt ∈ [fyston actionsDoable], plain pt.userName ∧
      ∀ tm ∈ pt.members, plain tm.name ∧ (tm.actionsDoable.map Prod.fst).Nodup := by
    intro pt hpt
    obtain ⟨huser, hmembers⟩ := plain_fyston actionsDoable pt hpt
    refine ⟨huser, ?_⟩
    intro tm htm
    refine ⟨hmembers tm htm, ?_⟩
    rw [List.mem_singleton.mp hpt] at htm
    rw [List.mem_singleton.mp htm]
    exact hnodup
  obtain ⟨chai', hrun, hsound⟩ := h registryChai slashAndHeal slashAndHealEngine
    [fyston actionsDoable] noRegistry hnames fun _ _ => rfl
  have hregistrable := slashAndHealEngine.registrable_of_sound (plain_fyston actionsDoable)
    (fun _ _ => rfl) hrun hsound
  have hone := hregistrable.oneAction
    ⟨"FyS", "fyston1", "arena:actions:damage:slash.chai", 3⟩ List.mem_cons_self
    ⟨"FyS", "fyston1", "arena:actions:heal:light_heal.chai", 2⟩
    (List.mem_cons_of_mem _ List.mem_cons_self) rfl rfl
  exact absurd hone.2 (by decide)

end ActionEngine

end FyS.Arena
