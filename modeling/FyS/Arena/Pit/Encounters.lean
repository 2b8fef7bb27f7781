import FyS.Arena.Pit.Building

/-!
# The contenders of a pit that is built

Each contender comes from a draw in the boundary map of its zone.  The pit keeps
no more of it than the name in its key; the scripts that are evaluated meanwhile
leave the names alone.
-/

namespace FyS.Arena

open FyS.Common

def Board.contenderScriptings {C : ChaiScript} (board : Board C) : List ContenderScripting :=
  board.contenders.contenders.map (·.contenderScripting)

theorem Board.length_contenderScriptings {C : ChaiScript} (board : Board C) :
    board.contenderScriptings.length = board.contenders.getNumberContender := List.length_map _

namespace FightingPitAnnouncer

variable {E : PitEngine} {P : Platform} {S : SideSort} {cml : String → Option String}
  {rng : RandomGenerator} {initialSpeed : Nat → Nat}

/-! ## What a script leaves alone -/

@[simp] theorem contenderScriptings_affected {C : ChaiScript} (effect : Effect) (chai : C.State)
    (board : Board C) :
    (board.affected effect chai).contenderScriptings = board.contenderScriptings := by
  apply List.ext_getElem
  · simp [Board.contenderScriptings, Board.affected]
  · intro i _ _
    simp [Board.contenderScriptings, Board.affected]

@[simp] theorem contenderScriptings_evalOnPit (code : String) (board : Board E.toChaiScript) :
    (board.evalOnPit E code).2.contenderScriptings = board.contenderScriptings :=
  contenderScriptings_affected _ _ _

theorem loadContenderScript_ok {cs : ContenderScripting} {script : String}
    {board board' : Board E.toChaiScript} (h : cs.loadContenderScript E script board = .ok board') :
    board'.contenderScriptings = board.contenderScriptings := by
  unfold ContenderScripting.loadContenderScript at h
  split at h
  · cases h
  · rename_i result loaded _ hload
    have hloaded : loaded.contenderScriptings = board.contenderScriptings := by
      have hsnd := congrArg (fun r => r.2.contenderScriptings) hload
      split_ifs at hsnd
      · exact hsnd.symm
      · exact hsnd.symm.trans (contenderScriptings_evalOnPit script board)
    split at h
    · cases h
    · rename_i created hcreate
      have hsnd := congrArg (fun r => r.2.contenderScriptings) hcreate
      rw [← Except.ok.inj h, ← hloaded]
      exact hsnd.symm.trans (contenderScriptings_evalOnPit _ _)

theorem addContender_ok {contender : FightingContender} {ready : Bool}
    {board board' : Board E.toChaiScript}
    (h : board.addContender E contender = .ok (ready, board')) :
    board'.contenderScriptings = board.contenderScriptings ++ [contender.contenderScripting] := by
  unfold Board.addContender ContenderScripting.setupContender at h
  split at h
  · rename_i heval
    have hsnd := congrArg (fun r => r.2.contenderScriptings) heval
    rw [← (Prod.mk.inj (Except.ok.inj h)).2, ← hsnd, contenderScriptings_evalOnPit]
    exact List.map_append
  · cases h
  · rename_i heval
    have hsnd := congrArg (fun r => r.2.contenderScriptings) heval
    rw [← (Prod.mk.inj (Except.ok.inj h)).2, ← hsnd, contenderScriptings_evalOnPit]
    exact List.map_append

@[simp] theorem contenderScriptings_setContenderInitiatePosition {C : ChaiScript} (pos : Nat)
    (board : Board C) :
    (board.setContenderInitiatePosition pos).contenderScriptings = board.contenderScriptings := by
  apply List.ext_getElem
  · simp [Board.contenderScriptings, Board.setContenderInitiatePosition]
  · intro i _ _
    simp only [Board.contenderScriptings, Board.setContenderInitiatePosition, List.getElem_map,
      List.getElem_modify]
    split_ifs <;> rfl

/-! ## The draws -/

def drawn (rng : RandomGenerator) (boundaryMap : BoundaryMap EncounterDesc) (i : Nat) :
    Option EncounterDesc :=
  (boundaryMap.get (rng.generateInRange (2 * i + 1) 0 100)).map Prod.snd

def scripting (rng : RandomGenerator) (i : Nat) (desc : EncounterDesc) : ContenderScripting :=
  ⟨getNameFromKey desc.key, (rng.generateInRange (2 * i + 2) 1 10).toNat, i⟩

theorem generateContender_ok {boundaryMap : BoundaryMap EncounterDesc} {i : Nat}
    {fp fp' : Board E.toChaiScript × List String} {ready : Bool}
    (h : generateContender E cml rng initialSpeed boundaryMap i fp = .ok (ready, fp')) :
    ∃ desc, drawn rng boundaryMap i = some desc ∧
      fp'.1.contenderScriptings = fp.1.contenderScriptings ++ [scripting rng i desc] := by
  simp only [generateContender, addDrawn] at h
  split at h
  · cases h
  · rename_i first desc hget
    refine ⟨desc, by rw [drawn, hget]; rfl, ?_⟩
    split at h
    · cases h
    · rename_i hload
      rw [← loadContenderScript_ok hload]
      split at h
      · cases h
      · rename_i hadd
        have hscriptings := addContender_ok hadd
        rw [← (Prod.mk.inj (Except.ok.inj h)).2]
        exact hscriptings
      · rename_i hadd
        have hscriptings := addContender_ok hadd
        rw [← (Prod.mk.inj (Except.ok.inj h)).2, contenderScriptings_setContenderInitiatePosition]
        exact hscriptings

theorem generateEach_ok {boundaryMap : BoundaryMap EncounterDesc} {is : List Nat}
    {fp fp' : Board E.toChaiScript × List String}
    (h : generateEach E cml rng initialSpeed boundaryMap is fp = .ok (true, fp')) :
    (∀ i ∈ is, (drawn rng boundaryMap i).isSome = true) ∧
      fp'.1.contenderScriptings = fp.1.contenderScriptings ++
        is.filterMap fun i => (drawn rng boundaryMap i).map (scripting rng i) := by
  induction is generalizing fp with
  | nil =>
      rw [← (Prod.mk.inj (Except.ok.inj h)).2]
      refine ⟨?_, (List.append_nil _).symm⟩
      intro i hi
      cases hi
  | cons i is ih =>
      rw [generateEach] at h
      split at h
      · cases h
      · cases h
      · rename_i hfirst
        obtain ⟨desc, hdesc, hscriptings⟩ := generateContender_ok hfirst
        obtain ⟨hall, hrest⟩ := ih h
        constructor
        · intro j hj
          rcases List.mem_cons.mp hj with rfl | hj
          · rw [hdesc]
            rfl
          · exact hall j hj
        · rw [hrest, hscriptings, List.append_assoc, List.filterMap_cons, hdesc]
          rfl

def numberContenders (rng : RandomGenerator) (range : UInt32 × UInt32) : Nat :=
  (rng.generateInRange 0 range.1.toNat range.2.toNat).toNat

structure Zone (ctx : EncounterContext) (wsId : String) (difficulty : Level)
    (range : UInt32 × UInt32) (contenders : List EncounterDesc)
    (boundaryMap : BoundaryMap EncounterDesc) : Prop where
  range_eq : FightingPitAnnouncer.range ctx wsId difficulty = some range
  range_le : range.1 ≤ range.2
  contenders_eq : ctx.contendersPerZone.lookup wsId = some contenders
  boundaryMap_eq : makeContenderRngBoundaryMap contenders difficulty = .ok boundaryMap

theorem Zone.numberContenders_le {ctx : EncounterContext} {wsId : String} {difficulty : Level}
    {range : UInt32 × UInt32} {contenders : List EncounterDesc}
    {boundaryMap : BoundaryMap EncounterDesc}
    (h : Zone ctx wsId difficulty range contenders boundaryMap) (rng : RandomGenerator) :
    range.1.toNat ≤ numberContenders rng range ∧ numberContenders rng range ≤ range.2.toNat := by
  obtain ⟨hlow, hhigh⟩ := rng.mem_range 0 range.1.toNat range.2.toNat
    (by exact_mod_cast UInt32.le_iff_toNat_le.mp h.range_le)
  unfold numberContenders
  omega

theorem Zone.unique {ctx : EncounterContext} {wsId : String} {difficulty : Level}
    {range range' : UInt32 × UInt32} {contenders contenders' : List EncounterDesc}
    {boundaryMap boundaryMap' : BoundaryMap EncounterDesc}
    (h : Zone ctx wsId difficulty range contenders boundaryMap)
    (h' : Zone ctx wsId difficulty range' contenders' boundaryMap') :
    range' = range ∧ contenders' = contenders ∧ boundaryMap' = boundaryMap := by
  have hrange := h'.range_eq
  rw [h.range_eq] at hrange
  have hcontenders := h'.contenders_eq
  rw [h.contenders_eq] at hcontenders
  obtain rfl := Option.some.inj hcontenders
  have hmap := h'.boundaryMap_eq
  rw [h.boundaryMap_eq] at hmap
  exact ⟨(Option.some.inj hrange).symm, rfl, (Except.ok.inj hmap).symm⟩

theorem Zone.generateContenders_eq {fpa : FightingPitAnnouncer} {ctx : EncounterContext}
    {wsId : String} {range : UInt32 × UInt32} {contenders : List EncounterDesc}
    {boundaryMap : BoundaryMap EncounterDesc}
    (h : Zone ctx wsId fpa.difficulty range contenders boundaryMap) (board : Board E.toChaiScript) :
    fpa.generateContenders E cml rng initialSpeed ctx wsId board =
      generateEach E cml rng initialSpeed boundaryMap (List.range (numberContenders rng range))
        (board, fpa.loadedScript) := by
  rw [generateContenders, h.range_eq]
  simp only [if_pos h.range_le, h.contenders_eq, h.boundaryMap_eq]
  rfl

theorem exists_zone {fpa : FightingPitAnnouncer} {ctx : EncounterContext} {wsId : String}
    {board : Board E.toChaiScript} {r : Bool × Board E.toChaiScript × List String}
    (h : fpa.generateContenders E cml rng initialSpeed ctx wsId board = .ok r) :
    ∃ range contenders boundaryMap,
      Zone ctx wsId fpa.difficulty range contenders boundaryMap := by
  unfold generateContenders at h
  split at h
  · cases h
  · rename_i range hrange
    split_ifs at h with hle
    simp only at h
    split at h
    · cases h
    · rename_i contenders hcontenders
      split at h
      · cases h
      · rename_i boundaryMap hmap
        exact ⟨range, contenders, boundaryMap, hrange, hle, hcontenders, hmap⟩

theorem mem_of_insert {boundaryMap boundaryMap' : BoundaryMap EncounterDesc} {index : Int}
    {zc : EncounterDesc} (h : boundaryMap.insert index zc = .ok boundaryMap')
    {e : Int × EncounterDesc} (he : e ∈ boundaryMap'.map.entries) :
    e.2 = zc ∨ e ∈ boundaryMap.map.entries := by
  unfold BoundaryMap.insert at h
  split at h
  · rw [← Except.ok.inj h, Library.OrderedMap.mem_assign_iff] at he
    exact he.imp (congrArg Prod.snd) And.left
  · split_ifs at h
    rw [← Except.ok.inj h, Library.OrderedMap.mem_assign_iff] at he
    exact he.imp (congrArg Prod.snd) And.left

theorem mem_of_insertChances {difficulty : Level} {contenders : List EncounterDesc} {val : Int}
    {boundaryMap boundaryMap' : BoundaryMap EncounterDesc}
    (h : insertChances difficulty contenders val boundaryMap = .ok boundaryMap')
    {e : Int × EncounterDesc} (he : e ∈ boundaryMap'.map.entries) :
    e.2 ∈ contenders ∨ e ∈ boundaryMap.map.entries := by
  induction contenders generalizing val boundaryMap with
  | nil =>
      rw [← Except.ok.inj h] at he
      exact .inr he
  | cons zc rest ih =>
      rw [insertChances] at h
      split at h
      · cases h
      · split at h
        · cases h
        · rename_i hinsert
          rcases ih h with hrest | hmem
          · exact .inl (List.mem_cons_of_mem _ hrest)
          · rcases mem_of_insert hinsert hmem with heq | hmem
            · left
              rw [heq]
              exact List.mem_cons_self
            · exact .inr hmem

theorem Zone.mem_contenders {ctx : EncounterContext} {wsId : String} {difficulty : Level}
    {range : UInt32 × UInt32} {contenders : List EncounterDesc}
    {boundaryMap : BoundaryMap EncounterDesc}
    (h : Zone ctx wsId difficulty range contenders boundaryMap) {r first : Int}
    {desc : EncounterDesc} (hget : boundaryMap.get r = some (first, desc)) : desc ∈ contenders := by
  have hmem := (Library.OrderedMap.lowerBound_eq_some_iff.mp hget).1
  rcases mem_of_insertChances h.boundaryMap_eq hmem with hmem | hmem
  · exact hmem
  · cases hmem

/-! ## The pit -/

theorem buildFightingPit_ok {env : Surroundings} {fpa : FightingPitAnnouncer}
    {ctx : EncounterContext} {wsId : String} {fp : ArenaInstance E.toChaiScript}
    (h : fpa.buildFightingPit P S E env ctx wsId = .ok (some fp)) :
    ∃ range contenders boundaryMap, Zone ctx wsId fpa.difficulty range contenders boundaryMap ∧
      (∀ i < numberContenders env.rng range, (drawn env.rng boundaryMap i).isSome = true) ∧
      fp.contenderScriptings = (List.range (numberContenders env.rng range)).filterMap fun i =>
        (drawn env.rng boundaryMap i).map (scripting env.rng i) := by
  obtain ⟨team, prepared, board, loaded, sideBattles, -, hprepare, hgenerate, rfl⟩ :=
    buildFightingPit_eq_some h
  obtain ⟨range, contenders, boundaryMap, hzone⟩ := exists_zone hgenerate
  rw [hzone.generateContenders_eq] at hgenerate
  obtain ⟨hall, hscriptings⟩ := generateEach_ok hgenerate
  have hnobody : prepared.contenderScriptings = [] := by
    rw [Board.contenderScriptings, (prepare_eq_ok hprepare).2.1]
    rfl
  refine ⟨range, contenders, boundaryMap, hzone, ?_, ?_⟩
  · intro i hi
    exact hall i (List.mem_range.mpr hi)
  · rw [hnobody, List.nil_append] at hscriptings
    exact hscriptings

theorem getNumberContender_buildFightingPit {env : Surroundings} {fpa : FightingPitAnnouncer}
    {ctx : EncounterContext} {wsId : String} {fp : ArenaInstance E.toChaiScript}
    (h : fpa.buildFightingPit P S E env ctx wsId = .ok (some fp)) {range : UInt32 × UInt32}
    {contenders : List EncounterDesc} {boundaryMap : BoundaryMap EncounterDesc}
    (hzone : Zone ctx wsId fpa.difficulty range contenders boundaryMap) :
    fp.contenders.getNumberContender = numberContenders env.rng range := by
  obtain ⟨range', contenders', boundaryMap', hzone', hdrawn, hscriptings⟩ := buildFightingPit_ok h
  obtain ⟨rfl, rfl, rfl⟩ := hzone'.unique hzone
  rw [← Board.length_contenderScriptings, hscriptings, List.length_filterMap_eq_countP,
    List.countP_eq_length.mpr, List.length_range]
  intro i hi
  rw [Option.isSome_map]
  exact hdrawn i (List.mem_range.mp hi)

end FightingPitAnnouncer

/-! ## Engines that throw nothing but `eval_error` -/

structure EvalErrorsOnly (E : PitEngine) : Prop where
  eval : ∀ code chai, (E.eval code chai).1 ≠ .error .other
  evalOnPit : ∀ code contenders partyTeams chai,
    (E.evalOnPit code contenders partyTeams chai).1 ≠ .error .other

namespace EvalErrorsOnly

variable {E : PitEngine}

theorem exists_registerBaseAction (h : EvalErrorsOnly E) (cml : String → Option String)
    (actionKey : String) (chai : E.State) :
    ∃ chai', ChaiRegister.registerBaseAction (C := E.toChaiScript) cml actionKey chai =
      .ok chai' := by
  unfold ChaiRegister.registerBaseAction
  simp only
  split_ifs
  · exact ⟨chai, rfl⟩
  · have hne := h.eval ((cml actionKey).getD "") chai
    split
    · rename_i heval
      rw [heval] at hne
      exact absurd rfl hne
    · exact ⟨_, rfl⟩

theorem exists_registerBaseActions (h : EvalErrorsOnly E) (cml : String → Option String)
    (chai : E.State) :
    ∃ chai', ChaiRegister.registerBaseActions (C := E.toChaiScript) cml chai = .ok chai' := by
  unfold ChaiRegister.registerBaseActions
  generalize ChaiRegister.baseActions = actionKeys
  induction actionKeys generalizing chai with
  | nil => exact ⟨chai, rfl⟩
  | cons actionKey rest ih =>
      obtain ⟨chai', hfirst⟩ := h.exists_registerBaseAction cml actionKey chai
      rw [List.foldlM_cons, hfirst]
      exact ih chai'

theorem registerAll_ne (h : EvalErrorsOnly E) (cml : String → Option String)
    (rs : List Registration) (chai : E.State) :
    (ChaiRegister.registerAll (C := E.toChaiScript) cml rs chai).1 ≠ .error .other := by
  induction rs generalizing chai with
  | nil =>
      intro heq
      cases heq
  | cons r rest ih =>
      rw [ChaiRegister.registerAll]
      split
      · rename_i heval
        have hne : (ChaiRegister.registerAction (C := E.toChaiScript) cml r chai).1 ≠
            .error .other := h.eval _ _
        rw [heval] at hne
        exact hne
      · exact ih _

theorem exists_loadAndRegisterAction (h : EvalErrorsOnly E) (cml : String → Option String)
    (pt : PartyTeam) (chai : E.State) :
    ∃ r, ChaiRegister.loadAndRegisterAction (C := E.toChaiScript) cml pt chai = .ok r := by
  have hne := h.registerAll_ne cml pt.registrations chai
  unfold ChaiRegister.loadAndRegisterAction
  split
  · exact ⟨_, rfl⟩
  · rename_i hall
    rw [hall] at hne
    exact absurd rfl hne
  · exact ⟨_, rfl⟩

theorem exists_prepare (h : EvalErrorsOnly E) (S : SideSort) (env : Surroundings)
    (fpa : FightingPitAnnouncer) (team : PartyTeam) :
    ∃ fp, fpa.prepare S E env team = .ok fp := by
  obtain ⟨chai, hbase⟩ := h.exists_registerBaseActions env.cml E.createChaiInstance
  obtain ⟨⟨ready, chai'⟩, hload⟩ := h.exists_loadAndRegisterAction env.cml team chai
  have hadd (fp : ArenaInstance E.toChaiScript) (hchai : fp.chai = chai) :
      ∃ fp', fp.addPartyTeamAndRegisterActions S env.cml team = .ok fp' := by
    unfold ArenaInstance.addPartyTeamAndRegisterActions
      FightingPit.addPartyTeamAndRegisterActions
    rw [hchai, hload]
    exact ⟨_, rfl⟩
  unfold FightingPitAnnouncer.prepare
  simp only [ArenaInstance.addAuthenticatedUser, ArenaInstance.new, FightingPit.new, hbase,
    Library.Fuel.ok_bind]
  exact hadd _ rfl

end EvalErrorsOnly

namespace FightingPitAnnouncer

variable {P : Platform} {S : SideSort} {E : PitEngine}

theorem exists_initializeSideBattles {C : ChaiScript} {fp : ArenaInstance C}
    (h : fp.sideBattles = []) (fuel : Nat) :
    ∃ fp', fp.initializeSideBattles P fuel = .ok fp' := by
  obtain ⟨base, -, hruns⟩ := FightingPit.initializeSideBattles_eq P h
  unfold ArenaInstance.initializeSideBattles
  rw [hruns fuel]
  exact ⟨_, rfl⟩

/-- Building a pit in a zone comes down to the loop over its contenders. -/
theorem buildFightingPit_cases (hengine : EvalErrorsOnly E) (env : Surroundings)
    {fpa : FightingPitAnnouncer} {team : PartyTeam} {ctx : EncounterContext} {wsId : String}
    {range : UInt32 × UInt32} {contenders : List EncounterDesc}
    {boundaryMap : BoundaryMap EncounterDesc} (hteam : fpa.creatorPartyTeam = some team)
    (hcreator : (fpa.creatorUserName.isEmpty || fpa.creatorUserToken.isEmpty) = false)
    (hzone : Zone ctx wsId fpa.difficulty range contenders boundaryMap) :
    ∃ prepared, fpa.prepare S E env team = .ok prepared ∧
      match generateEach E env.cml env.rng env.initialSpeed boundaryMap
        (List.range (numberContenders env.rng range)) (prepared.toBoard, fpa.loadedScript) with
      | .error fault => fpa.buildFightingPit P S E env ctx wsId = .error (.generation fault)
      | .ok (false, _) => fpa.buildFightingPit P S E env ctx wsId = .ok none
      | .ok (true, _) => ∃ fp, fpa.buildFightingPit P S E env ctx wsId = .ok (some fp) := by
  obtain ⟨prepared, hprepare⟩ := hengine.exists_prepare S env fpa team
  have hregistered : ctx.zoneRegistered wsId = true := by
    apply decide_eq_true
    rw [← AList.lookup_isSome, hzone.contenders_eq]
    rfl
  refine ⟨prepared, hprepare, ?_⟩
  have hgenerate : fpa.generateContenders E env.cml env.rng env.initialSpeed ctx wsId
      prepared.toBoard = _ := hzone.generateContenders_eq prepared.toBoard
  unfold buildFightingPit
  rw [hteam]
  simp only [hcreator, hregistered, hprepare, hgenerate, Bool.not_true, Bool.false_eq_true,
    if_false]
  cases generateEach E env.cml env.rng env.initialSpeed boundaryMap
    (List.range (numberContenders env.rng range)) (prepared.toBoard, fpa.loadedScript) with
  | error fault => rfl
  | ok r =>
      match r with
      | (false, fp) => rfl
      | (true, board, loaded) =>
          obtain ⟨fp, hinit⟩ := exists_initializeSideBattles (P := P)
            (show ({ prepared with toBoard := board } : ArenaInstance E.toChaiScript).sideBattles =
              [] from (prepare_eq_ok hprepare).2.2) env.fuel
          simp only [hinit]
          exact ⟨fp, rfl⟩

end FightingPitAnnouncer

end FyS.Arena
