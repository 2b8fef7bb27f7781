import FyS.Arena.Pit.Recording
import FyS.Arena.Network.Creation

/-!
# What a pit that is built looks like

Ids, positions, scripts and flags of the contenders are kept by different objects
of the loop that draws them.  The engine is followed through the texts that it
evaluates.
-/

namespace FyS.Arena

open FyS.Common HexagonSide FightingPitAnnouncer

/-! ## The texts that are evaluated -/

def ContenderScripting.setupVar (cs : ContenderScripting) : String :=
  cs.getChaiContenderId ++ ".setupContender();"

/-! ## What is asked for -/

/-- In that zone every contender has a chance, the chances sum up to 100, and the range
is one of at least one contender. -/
structure WellConfigured (ctx : EncounterContext) (wsId : String) (i : Fin 3)
    (range : UInt32 × UInt32) (contenders : List EncounterDesc) : Prop where
  range_eq : FightingPitAnnouncer.range ctx wsId (.ofSlot i) = some range
  range_pos : 1 ≤ range.1
  range_le : range.1 ≤ range.2
  contenders_eq : ctx.contendersPerZone.lookup wsId = some contenders
  chance_pos : ∀ desc ∈ contenders, 1 ≤ (desc.chance.get i).toNat
  chance_sum : (EncounterContext.chances contenders i).sum = 100

def Board.joined {C : ChaiScript} (cs : ContenderScripting) (speed : Nat) (board : Board C) :
    Board C :=
  { board with contenders := ⟨board.contenders.contenders ++
      [⟨cs, ⟨.A, .NONE⟩, ⟨⟨0, 0⟩, ⟨0, 0⟩, speed, []⟩⟩], board.contenders.changeSideFlags ++ [false]⟩ }

def SetsUp (E : PitEngine) (cml : String → Option String) (initialSpeed : Nat → Nat)
    (desc : EncounterDesc) (cs : ContenderScripting) (fp : Board E.toChaiScript × List String) :
    Prop :=
  ((((fp.1.classLoaded E (getScriptContentString cml cs.contenderName desc fp.2).1).evalOnPit E
    cs.createVar).2.joined cs (initialSpeed cs.contenderId)).evalOnPit E cs.setupVar).1 = .ok ()

/-- The script of each contender is in the cache, and wherever the contenders of the zone lead to,
the next one of them is made and set up. -/
structure ScriptsWork (E : PitEngine) (cml : String → Option String) (initialSpeed : Nat → Nat)
    (contenders : List EncounterDesc) (start : Board E.toChaiScript × List String) : Prop where
  found : ∀ desc ∈ contenders, ∃ script, cml desc.key = some script ∧ script.isEmpty = false
  loads : ∀ i fp, Reached E cml initialSpeed (· ∈ contenders) start i fp → ∀ desc ∈ contenders,
    ∀ level, 1 ≤ level → level ≤ 10 →
      Instantiates E cml desc ⟨getNameFromKey desc.key, level, i⟩ fp ∧
        SetsUp E cml initialSpeed desc ⟨getNameFromKey desc.key, level, i⟩ fp

/-- Chances of at least 1 lead to indices that ascend, so nothing meets its equal. -/
theorem fits_of_pos {top : Option (EncounterDesc × Option EncounterDesc)}
    (htop : ∀ here, top = some here → here.2 = none) {elements : List (Nat × EncounterDesc)}
    (h : ∀ element ∈ elements, 1 ≤ element.1) : BoundaryMap.Fits top elements := by
  induction elements generalizing top with
  | nil => trivial
  | cons element rest ih =>
      obtain ⟨width, desc⟩ := element
      rw [List.forall_mem_cons] at h
      have hsettle : BoundaryMap.settle width desc top = some (desc, none) := by
        cases top with
        | none => rfl
        | some here =>
            obtain ⟨here, above⟩ := here
            have habove : above = none := htop _ rfl
            have hwidth : width ≠ 0 := Nat.one_le_iff_ne_zero.mp h.1
            rw [habove, BoundaryMap.settle, if_neg hwidth]
            split_ifs
            · rfl
            · rfl
      refine ⟨_, hsettle, ih ?_ h.2⟩
      intro here hhere
      rw [← Option.some.inj hhere]

theorem WellConfigured.exists_zone {ctx : EncounterContext} {wsId : String} {i : Fin 3}
    {range : UInt32 × UInt32} {contenders : List EncounterDesc}
    (h : WellConfigured ctx wsId i range contenders) :
    ∃ boundaryMap, Zone ctx wsId (.ofSlot i) range contenders boundaryMap ∧
      ∀ r : Int, 0 ≤ r → r ≤ 100 → ∃ entry, boundaryMap.get r = some entry := by
  have hpos : ∀ element ∈ widths contenders i, 1 ≤ element.1 := by
    intro element helement
    obtain ⟨desc, hdesc, rfl⟩ := List.mem_map.mp helement
    exact h.chance_pos desc hdesc
  have hfits : BoundaryMap.Fits none (widths contenders i) :=
    fits_of_pos (fun here hhere => by cases hhere) hpos
  obtain ⟨boundaryMap, hmap, hget⟩ := (boundaryMap_of_sum h.chance_sum).1 hfits
  exact ⟨boundaryMap, ⟨h.range_eq, h.range_le, h.contenders_eq, hmap⟩, hget⟩

theorem level_scripting (rng : RandomGenerator) (i : Nat) (desc : EncounterDesc) :
    1 ≤ (scripting rng i desc).level ∧ (scripting rng i desc).level ≤ 10 := by
  have hrange := rng.mem_range (2 * i + 2) 1 10 (by decide)
  unfold scripting
  simp only
  omega

/-! ## Figures and flags -/

namespace Board

variable {C : ChaiScript} {E : PitEngine}

def figures (board : Board C) : List (ContenderScripting × HexagonSide) :=
  board.contenders.contenders.map fun contender => (contender.contenderScripting, contender.side)

theorem length_figures (board : Board C) :
    board.figures.length = board.contenders.getNumberContender := List.length_map _

theorem getFightingContender_of_figures {board : Board C} {i : Nat} {cs : ContenderScripting}
    {side : HexagonSide} (h : board.figures[i]? = some (cs, side)) :
    ∃ contender, board.contenders.getFightingContender i = some contender ∧
      contender.contenderScripting = cs ∧ contender.side = side := by
  rw [figures, List.getElem?_map] at h
  obtain ⟨contender, hcontender, heq⟩ := Option.map_eq_some_iff.mp h
  obtain ⟨hscripting, hside⟩ := Prod.mk.inj heq
  exact ⟨contender, hcontender, hscripting, hside⟩

@[simp] theorem figures_affected (effect : Effect) (chai : C.State) (board : Board C) :
    (board.affected effect chai).figures = board.figures := by
  apply List.ext_getElem
  · simp [figures, affected]
  · intro i _ _
    simp [figures, affected]

@[simp] theorem figures_evalOnPit (code : String) (board : Board E.toChaiScript) :
    (board.evalOnPit E code).2.figures = board.figures := figures_affected _ _ _

@[simp] theorem changeSideFlags_evalOnPit (code : String) (board : Board E.toChaiScript) :
    (board.evalOnPit E code).2.contenders.changeSideFlags = board.contenders.changeSideFlags := rfl

@[simp] theorem evaluated_evalOnPit (rec : Recorder E) (code : String)
    (board : Board E.toChaiScript) :
    rec.evaluated (board.evalOnPit E code).2.chai = rec.evaluated board.chai ++ [code] :=
  rec.evaluated_evalOnPit _ _ _ _

theorem figures_setContenderInitiatePosition {board : Board C}
    {before : List (ContenderScripting × HexagonSide)} {cs : ContenderScripting}
    (h : board.figures = before ++ [(cs, ⟨.A, .NONE⟩)]) :
    (board.setContenderInitiatePosition before.length).figures = before ++ [(cs, ⟨.B, .B_S⟩)] := by
  have hposition : (board.setContenderInitiatePosition before.length).figures =
      board.figures.modify before.length fun figure =>
        if figure.2.side = .NONE then (figure.1, ⟨.B, .B_S⟩) else figure := by
    apply List.ext_getElem
    · simp [figures, setContenderInitiatePosition]
    · intro j _ _
      simp only [figures, setContenderInitiatePosition, List.getElem_map, List.getElem_modify]
      split_ifs <;> rfl
  rw [hposition, h, List.modify_eq_take_cons_drop (by simp)]
  simp

end Board

/-! ## One contender -/

section Contender

variable {E : PitEngine} {cml : String → Option String} {rng : RandomGenerator}
  {initialSpeed : Nat → Nat} {boundaryMap : BoundaryMap EncounterDesc}

structure Adds (figures : List (ContenderScripting × HexagonSide)) (texts : List String)
    (board board' : Board E.toChaiScript) : Prop where
  figures_eq : board'.figures = board.figures ++ figures
  flags_eq : board'.contenders.changeSideFlags =
    board.contenders.changeSideFlags ++ List.replicate figures.length false
  evaluated_eq : ∀ rec : Recorder E,
    rec.evaluated board'.chai = rec.evaluated board.chai ++ texts

theorem Adds.refl (board : Board E.toChaiScript) : Adds [] [] board board := by
  constructor
  · exact (List.append_nil _).symm
  · exact (List.append_nil _).symm
  · exact fun rec => (List.append_nil _).symm

theorem Adds.trans {figures figures' : List (ContenderScripting × HexagonSide)}
    {texts texts' : List String} {board board' board'' : Board E.toChaiScript}
    (h : Adds figures texts board board') (h' : Adds figures' texts' board' board'') :
    Adds (figures ++ figures') (texts ++ texts') board board'' := by
  constructor
  · rw [h'.figures_eq, h.figures_eq, List.append_assoc]
  · rw [h'.flags_eq, h.flags_eq, List.append_assoc, List.length_append, List.replicate_append_replicate]
  · intro rec
    rw [h'.evaluated_eq, h.evaluated_eq, List.append_assoc]

theorem Adds.evalOnPit (code : String) (board : Board E.toChaiScript) :
    Adds [] [code] board (board.evalOnPit E code).2 := by
  constructor
  · rw [Board.figures_evalOnPit, List.append_nil]
  · rw [Board.changeSideFlags_evalOnPit]
    exact (List.append_nil _).symm
  · exact fun rec => Board.evaluated_evalOnPit rec code board

def scriptTexts (script : String) : List String := if script.isEmpty then [] else [script]

theorem adds_classLoaded (script : String) (board : Board E.toChaiScript) :
    Adds [] (scriptTexts script) board (board.classLoaded E script) := by
  unfold Board.classLoaded scriptTexts
  split_ifs
  · exact Adds.refl board
  · exact Adds.evalOnPit script board

theorem addContender_adds {cs : ContenderScripting} {speed : Nat} {board : Board E.toChaiScript}
    (hsetup : ((board.joined cs speed).evalOnPit E cs.setupVar).1 = .ok ()) :
    ∃ board', board.addContender E ⟨cs, ⟨.A, .NONE⟩, ⟨⟨0, 0⟩, ⟨0, 0⟩, speed, []⟩⟩ =
        .ok (true, board') ∧
      Adds [(cs, ⟨.B, .B_S⟩)] [cs.setupVar] board
        (board'.setContenderInitiatePosition board.contenders.getNumberContender) := by
  have hfigures : ((board.joined cs speed).evalOnPit E cs.setupVar).2.figures =
      board.figures ++ [(cs, ⟨.A, .NONE⟩)] := by
    rw [Board.figures_evalOnPit]
    exact List.map_append
  refine ⟨((board.joined cs speed).evalOnPit E cs.setupVar).2, ?_, ?_, ?_, ?_⟩
  · unfold Board.addContender ContenderScripting.setupContender
    unfold Board.joined ContenderScripting.setupVar at hsetup ⊢
    simp only
    split
    · rename_i heval
      rw [heval] at hsetup
      cases hsetup
    · rename_i heval
      rw [heval] at hsetup
      cases hsetup
    · rename_i heval
      rw [heval]
  · rw [← Board.length_figures]
    exact Board.figures_setContenderInitiatePosition hfigures
  · rfl
  · intro rec
    exact Board.evaluated_evalOnPit rec cs.setupVar (board.joined cs speed)

def contenderTexts (cml : String → Option String) (cs : ContenderScripting) (desc : EncounterDesc)
    (loadedScript : List String) : List String :=
  (if cs.contenderName ∈ loadedScript then [] else [(cml desc.key).getD ""]) ++
    [cs.createVar, cs.setupVar]

theorem getScriptContentString_eq (cml : String → Option String) (name : String)
    (desc : EncounterDesc) (loadedScript : List String) :
    getScriptContentString cml name desc loadedScript =
      if name ∈ loadedScript then ("", loadedScript)
      else ((cml desc.key).getD "", loadedScript ++ [name]) := by
  unfold getScriptContentString
  have hany : loadedScript.any (· == name) = true ↔ name ∈ loadedScript := by
    rw [List.any_eq_true]
    constructor
    · rintro ⟨other, hmem, heq⟩
      rw [← eq_of_beq heq]
      exact hmem
    · intro hmem
      exact ⟨name, hmem, beq_self_eq_true name⟩
  simp only [hany]

theorem scriptTexts_getScriptContentString {desc : EncounterDesc} {script : String}
    (hfound : cml desc.key = some script) (hscript : script.isEmpty = false) (name : String)
    (loadedScript : List String) :
    scriptTexts (getScriptContentString cml name desc loadedScript).1 =
      if name ∈ loadedScript then [] else [(cml desc.key).getD ""] := by
  rw [getScriptContentString_eq]
  split_ifs
  · rfl
  · rw [hfound, Option.getD_some, scriptTexts, if_neg (by simp [hscript])]

theorem addDrawn_adds (hengine : EvalErrorsOnly E) {desc : EncounterDesc} {script : String}
    (hfound : cml desc.key = some script) (hscript : script.isEmpty = false)
    {cs : ContenderScripting} {fp : Board E.toChaiScript × List String}
    (hmade : Instantiates E cml desc cs fp) (hsetup : SetsUp E cml initialSpeed desc cs fp) :
    ∃ fp', addDrawn E cml initialSpeed desc cs fp = .ok (true, fp') ∧
      fp'.2 = (if cs.contenderName ∈ fp.2 then fp.2 else fp.2 ++ [cs.contenderName]) ∧
      Adds [(cs, ⟨.B, .B_S⟩)] (contenderTexts cml cs desc fp.2) fp.1 fp'.1 := by
  obtain ⟨board', hadd, hadds⟩ := addContender_adds hsetup
  have hload := loadContenderScript_of_created hengine hmade
  have hmadeAdds := (adds_classLoaded (getScriptContentString cml cs.contenderName desc fp.2).1
    fp.1).trans (Adds.evalOnPit cs.createVar _)
  generalize (Board.evalOnPit E cs.createVar _).2 = made at hload hmadeAdds hadd hadds
  refine ⟨(board'.setContenderInitiatePosition made.contenders.getNumberContender,
    (getScriptContentString cml cs.contenderName desc fp.2).2), ?_, ?_, ?_⟩
  · simp only [addDrawn, hload, hadd]
  · rw [getScriptContentString_eq]
    split_ifs
    · rfl
    · rfl
  · have hboth := hmadeAdds.trans hadds
    rw [scriptTexts_getScriptContentString hfound hscript] at hboth
    rw [contenderTexts, List.append_cons]
    exact hboth

/-! ## The loop -/

def drawnName (rng : RandomGenerator) (boundaryMap : BoundaryMap EncounterDesc) (i : Nat) :
    Option String := (drawn rng boundaryMap i).map fun desc => getNameFromKey desc.key

def FirstOfName (rng : RandomGenerator) (boundaryMap : BoundaryMap EncounterDesc) (i : Nat) : Prop :=
  ∀ j < i, drawnName rng boundaryMap j ≠ drawnName rng boundaryMap i

instance (rng : RandomGenerator) (boundaryMap : BoundaryMap EncounterDesc) (i : Nat) :
    Decidable (FirstOfName rng boundaryMap i) := inferInstanceAs (Decidable (∀ j < i, _))

def turnTexts (cml : String → Option String) (rng : RandomGenerator)
    (boundaryMap : BoundaryMap EncounterDesc) (i : Nat) : List String :=
  match drawn rng boundaryMap i with
  | none => []
  | some desc =>
    (if FirstOfName rng boundaryMap i then [(cml desc.key).getD ""] else []) ++
      [(scripting rng i desc).createVar, (scripting rng i desc).setupVar]

def turnFigure (rng : RandomGenerator) (boundaryMap : BoundaryMap EncounterDesc) (i : Nat) :
    Option (ContenderScripting × HexagonSide) :=
  (drawn rng boundaryMap i).map fun desc => (scripting rng i desc, ⟨.B, .B_S⟩)

theorem existsUnique_firstOfName (rng : RandomGenerator) (boundaryMap : BoundaryMap EncounterDesc)
    (i : Nat) :
    ∃! j, j ≤ i ∧ drawnName rng boundaryMap j = drawnName rng boundaryMap i ∧
      FirstOfName rng boundaryMap j := by
  have hexists : ∃ j, drawnName rng boundaryMap j = drawnName rng boundaryMap i := ⟨i, rfl⟩
  refine ⟨Nat.find hexists, ⟨Nat.find_min' hexists rfl, Nat.find_spec hexists, ?_⟩, ?_⟩
  · intro j hj heq
    exact Nat.find_min hexists hj (heq.trans (Nat.find_spec hexists))
  · rintro j ⟨-, hsame, hfirst⟩
    apply le_antisymm
    · by_contra hlt
      exact hfirst _ (not_le.mp hlt) ((Nat.find_spec hexists).trans hsame.symm)
    · exact Nat.find_min' hexists hsame

def NamesHandedOut (rng : RandomGenerator) (boundaryMap : BoundaryMap EncounterDesc) (turn : Nat)
    (loadedScript : List String) : Prop :=
  ∀ name, name ∈ loadedScript ↔ ∃ j < turn, drawnName rng boundaryMap j = some name

theorem NamesHandedOut.next {turn : Nat} {loadedScript : List String}
    (h : NamesHandedOut rng boundaryMap turn loadedScript) {desc : EncounterDesc}
    (hdrawn : drawn rng boundaryMap turn = some desc) :
    NamesHandedOut rng boundaryMap (turn + 1)
      (if getNameFromKey desc.key ∈ loadedScript then loadedScript
        else loadedScript ++ [getNameFromKey desc.key]) := by
  have hname : drawnName rng boundaryMap turn = some (getNameFromKey desc.key) := by
    rw [drawnName, hdrawn]
    rfl
  intro name
  have hturn : (∃ j < turn + 1, drawnName rng boundaryMap j = some name) ↔
      name ∈ loadedScript ∨ name = getNameFromKey desc.key := by
    rw [h name]
    constructor
    · rintro ⟨j, hj, hdraw⟩
      rcases Nat.lt_succ_iff_lt_or_eq.mp hj with hlt | rfl
      · exact .inl ⟨j, hlt, hdraw⟩
      · rw [hname] at hdraw
        exact .inr (Option.some.inj hdraw).symm
    · rintro (⟨j, hj, hdraw⟩ | rfl)
      · exact ⟨j, Nat.lt_succ_of_lt hj, hdraw⟩
      · exact ⟨turn, Nat.lt_succ_self turn, hname⟩
  rw [hturn]
  split_ifs with hmem
  · constructor
    · exact .inl
    · rintro (hold | rfl)
      · exact hold
      · exact hmem
  · rw [List.mem_append, List.mem_singleton]

theorem contenderTexts_eq_turnTexts {turn : Nat} {loadedScript : List String}
    (h : NamesHandedOut rng boundaryMap turn loadedScript) {desc : EncounterDesc}
    (hdrawn : drawn rng boundaryMap turn = some desc) :
    contenderTexts cml (scripting rng turn desc) desc loadedScript =
      turnTexts cml rng boundaryMap turn := by
  have hfirst : FirstOfName rng boundaryMap turn ↔ getNameFromKey desc.key ∉ loadedScript := by
    have hname : drawnName rng boundaryMap turn = some (getNameFromKey desc.key) := by
      rw [drawnName, hdrawn]
      rfl
    rw [h, FirstOfName, hname]
    simp only [not_exists, not_and, ne_eq]
  rw [turnTexts, hdrawn, contenderTexts]
  simp only [hfirst, ite_not]
  rfl

theorem generateEach_adds {contenders : List EncounterDesc}
    {start : Board E.toChaiScript × List String} (hengine : EvalErrorsOnly E)
    (hscripts : ScriptsWork E cml initialSpeed contenders start)
    (hdrawn : ∀ i, ∃ desc ∈ contenders, drawn rng boundaryMap i = some desc) (turn turns : Nat)
    {fp : Board E.toChaiScript × List String}
    (hreached : Reached E cml initialSpeed (· ∈ contenders) start turn fp)
    (hnames : NamesHandedOut rng boundaryMap turn fp.2) :
    ∃ fp', generateEach E cml rng initialSpeed boundaryMap (List.range' turn turns) fp =
        .ok (true, fp') ∧
      Adds ((List.range' turn turns).filterMap (turnFigure rng boundaryMap))
        ((List.range' turn turns).flatMap (turnTexts cml rng boundaryMap)) fp.1 fp'.1 := by
  induction turns generalizing turn fp with
  | zero => exact ⟨fp, rfl, Adds.refl fp.1⟩
  | succ turns ih =>
      obtain ⟨desc, hdesc, hdraw⟩ := hdrawn turn
      obtain ⟨script, hfound, hscript⟩ := hscripts.found desc hdesc
      have hlevel := level_scripting rng turn desc
      obtain ⟨hmade, hsetup⟩ := hscripts.loads turn fp hreached desc hdesc _ hlevel.1 hlevel.2
      obtain ⟨next, hadd, hhanded, hadds⟩ : ∃ next,
          addDrawn E cml initialSpeed desc (scripting rng turn desc) fp = .ok (true, next) ∧
            next.2 = (if getNameFromKey desc.key ∈ fp.2 then fp.2
              else fp.2 ++ [getNameFromKey desc.key]) ∧ Adds _ _ fp.1 next.1 :=
        addDrawn_adds hengine hfound hscript hmade hsetup
      have hturn : generateContender E cml rng initialSpeed boundaryMap turn fp = .ok (true, next) := by
        obtain ⟨⟨first, desc'⟩, hget, hsnd⟩ := Option.map_eq_some_iff.mp hdraw
        obtain rfl : desc' = desc := hsnd
        rw [generateContender_eq hget, hadd]
      have hnames' := hnames.next hdraw
      rw [← hhanded] at hnames'
      obtain ⟨fp', hrest, hadds'⟩ := ih (turn + 1) (.next hreached hdesc hlevel hadd) hnames'
      have hfigure : turnFigure rng boundaryMap turn =
          some (scripting rng turn desc, ⟨.B, .B_S⟩) := by
        rw [turnFigure, hdraw]
        rfl
      refine ⟨fp', ?_, ?_⟩
      · rw [List.range'_succ, generateEach, hturn]
        exact hrest
      · rw [List.range'_succ, List.filterMap_cons, hfigure, List.flatMap_cons,
          ← contenderTexts_eq_turnTexts hnames hdraw]
        exact hadds.trans hadds'

end Contender

/-! ## The pit -/

section Pit

variable {P : Platform} {S : SideSort} {E : PitEngine} {env : Surroundings}
  {fpa : FightingPitAnnouncer} {team : PartyTeam}

theorem generateEach_of_buildFightingPit {ctx : EncounterContext} {wsId : String}
    {range : UInt32 × UInt32} {contenders : List EncounterDesc}
    {boundaryMap : BoundaryMap EncounterDesc} {prepared fp : ArenaInstance E.toChaiScript}
    (hteam : fpa.creatorPartyTeam = some team)
    (hzone : Zone ctx wsId fpa.difficulty range contenders boundaryMap)
    (hprepare : fpa.prepare S E env team = .ok prepared)
    (h : fpa.buildFightingPit P S E env ctx wsId = .ok (some fp)) :
    ∃ loaded, generateEach E env.cml env.rng env.initialSpeed boundaryMap
      (List.range (numberContenders env.rng range)) (prepared.toBoard, fpa.loadedScript) =
        .ok (true, fp.toBoard, loaded) := by
  obtain ⟨team', prepared', board, loaded, sideBattles, hteam', hprepare', hgenerate, rfl⟩ :=
    buildFightingPit_eq_some h
  obtain rfl : team = team' := Option.some.inj (hteam.symm.trans hteam')
  obtain rfl : prepared = prepared' := Except.ok.inj (hprepare.symm.trans hprepare')
  rw [hzone.generateContenders_eq] at hgenerate
  exact ⟨loaded, hgenerate⟩

/-- The pit is what the draws say: as many contenders as the range allows, each at the
position of its id, on its side, of a level from 1 to 10 and with the name in the key that
its turn drew; a flag for each; and the texts evaluated since the team was added are those
of the turns, the script of a name in its first one. -/
structure WellFormed (env : Surroundings) (range : UInt32 × UInt32)
    (boundaryMap : BoundaryMap EncounterDesc) (prepared : E.State)
    (fp : ArenaInstance E.toChaiScript) : Prop where
  number : range.1.toNat ≤ fp.contenders.getNumberContender ∧
    fp.contenders.getNumberContender ≤ range.2.toNat
  contender : ∀ i < fp.contenders.getNumberContender, ∃ desc contender,
    drawn env.rng boundaryMap i = some desc ∧
      fp.contenders.getFightingContender i = some contender ∧
      contender.contenderScripting.contenderId = i ∧
      1 ≤ contender.contenderScripting.level ∧ contender.contenderScripting.level ≤ 10 ∧
      contender.contenderScripting.contenderName = getNameFromKey desc.key ∧
      contender.getHexagonSideOrient = .B_S
  flags : fp.contenders.changeSideFlags.length = fp.contenders.getNumberContender
  evaluated : ∀ rec : Recorder E, rec.evaluated fp.chai = rec.evaluated prepared ++
    (List.range fp.contenders.getNumberContender).flatMap (turnTexts env.cml env.rng boundaryMap)
  scriptOnce : ∀ i < fp.contenders.getNumberContender,
    ∃! j, j ≤ i ∧ drawnName env.rng boundaryMap j = drawnName env.rng boundaryMap i ∧
      FirstOfName env.rng boundaryMap j

theorem wellFormed_of_adds {range : UInt32 × UInt32} {boundaryMap : BoundaryMap EncounterDesc}
    {n : Nat} (hn : range.1.toNat ≤ n ∧ n ≤ range.2.toNat)
    (hdrawn : ∀ i, ∃ desc, drawn env.rng boundaryMap i = some desc)
    {prepared fp : ArenaInstance E.toChaiScript} (hprepared : prepared.contenders = ⟨[], []⟩)
    (h : Adds ((List.range n).filterMap (turnFigure env.rng boundaryMap))
      ((List.range n).flatMap (turnTexts env.cml env.rng boundaryMap)) prepared.toBoard fp.toBoard) :
    WellFormed env range boundaryMap prepared.chai fp := by
  choose desc hdesc using hdrawn
  have hempty : prepared.toBoard.figures = [] := by
    rw [Board.figures, hprepared]
    rfl
  have hturns : (List.range n).filterMap (turnFigure env.rng boundaryMap) =
      (List.range n).map fun i => (scripting env.rng i (desc i), ⟨.B, .B_S⟩) := by
    apply List.filterMap_eq_map_iff_forall_eq_some.mpr
    intro i _
    rw [turnFigure, hdesc]
    rfl
  have hfigures := h.figures_eq
  rw [hempty, List.nil_append, hturns] at hfigures
  have hnumber : fp.contenders.getNumberContender = n := by
    rw [← Board.length_figures, hfigures, List.length_map, List.length_range]
  refine ⟨by rw [hnumber]; exact hn, ?_, ?_, ?_, fun i _ => existsUnique_firstOfName _ _ i⟩
  · intro i hi
    rw [hnumber] at hi
    have hfigure : fp.toBoard.figures[i]? = some (scripting env.rng i (desc i), ⟨.B, .B_S⟩) := by
      rw [hfigures, List.getElem?_map, List.getElem?_range hi]
      rfl
    obtain ⟨contender, hcontender, hscripting, hside⟩ :=
      Board.getFightingContender_of_figures hfigure
    have hlevel := level_scripting env.rng i (desc i)
    refine ⟨desc i, contender, hdesc i, hcontender, ?_, ?_, ?_, ?_, ?_⟩
    · rw [hscripting]
      rfl
    · rw [hscripting]
      exact hlevel.1
    · rw [hscripting]
      exact hlevel.2
    · rw [hscripting]
      rfl
    · rw [FightingContender.getHexagonSideOrient, hside]
  · have hflags := h.flags_eq
    rw [hturns, List.length_map, List.length_range] at hflags
    rw [hnumber]
    simp [hflags, hprepared]
  · intro rec
    rw [hnumber]
    exact h.evaluated_eq rec

/-- In a zone that is well configured, with scripts that work from the pit of the creator's team
on, an announcer that handed out no script yet builds a well formed pit. -/
theorem buildFightingPit_wellFormed (hengine : EvalErrorsOnly E) {ctx : EncounterContext}
    {wsId : String} {i : Fin 3} {range : UInt32 × UInt32} {contenders : List EncounterDesc}
    (hdifficulty : fpa.difficulty = .ofSlot i) (hteam : fpa.creatorPartyTeam = some team)
    (hcreator : (fpa.creatorUserName.isEmpty || fpa.creatorUserToken.isEmpty) = false)
    (hfresh : fpa.loadedScript = []) (hctx : WellConfigured ctx wsId i range contenders)
    (hscripts : ∀ prepared, fpa.prepare S E env team = .ok prepared →
      ScriptsWork E env.cml env.initialSpeed contenders (prepared.toBoard, [])) :
    ∃ boundaryMap prepared fp, makeContenderRngBoundaryMap contenders (.ofSlot i) = .ok boundaryMap ∧
      fpa.prepare S E env team = .ok prepared ∧
      fpa.buildFightingPit P S E env ctx wsId = .ok (some fp) ∧
      WellFormed env range boundaryMap prepared.chai fp := by
  obtain ⟨boundaryMap, hzone, hget⟩ := hctx.exists_zone
  have hdrawn (turn : Nat) : ∃ desc ∈ contenders, drawn env.rng boundaryMap turn = some desc := by
    obtain ⟨hlow, hhigh⟩ := env.rng.mem_range (2 * turn + 1) 0 100 (by decide)
    obtain ⟨⟨first, desc⟩, hentry⟩ := hget _ hlow hhigh
    refine ⟨desc, hzone.mem_contenders hentry, ?_⟩
    rw [drawn, hentry]
    rfl
  have hboundaryMap := hzone.boundaryMap_eq
  have hnumber := hzone.numberContenders_le env.rng
  rw [← hdifficulty] at hzone
  obtain ⟨prepared, hprepare, hcases⟩ :=
    buildFightingPit_cases (P := P) (S := S) hengine env hteam hcreator hzone
  rw [hfresh] at hcases
  have hnames : NamesHandedOut env.rng boundaryMap 0 [] := by
    intro name
    simp
  obtain ⟨⟨board, loaded⟩, hgenerate, hadds⟩ : ∃ fp, generateEach E env.cml env.rng
      env.initialSpeed boundaryMap (List.range' 0 (numberContenders env.rng range))
      (prepared.toBoard, []) = .ok (true, fp) ∧ Adds _ _ prepared.toBoard fp.1 :=
    generateEach_adds hengine (hscripts prepared hprepare) hdrawn 0 _ .start hnames
  rw [← List.range_eq_range'] at hgenerate hadds
  rw [hgenerate] at hcases
  obtain ⟨fp, hbuild⟩ := hcases
  refine ⟨boundaryMap, prepared, fp, hboundaryMap, hprepare, hbuild, ?_⟩
  obtain ⟨loaded', hgenerate'⟩ := generateEach_of_buildFightingPit hteam hzone hprepare hbuild
  rw [hfresh, hgenerate] at hgenerate'
  have hboard : board = fp.toBoard := (Prod.mk.inj (Prod.mk.inj (Except.ok.inj hgenerate')).2).1
  rw [hboard] at hadds
  exact wellFormed_of_adds hnumber (fun turn => (hdrawn turn).imp fun _ h => h.2)
    (prepare_eq_ok hprepare).2.1 hadds

end Pit

/-! ## The zone of slimes -/

section Slimes

open ArenaServerService

theorem wellConfigured_slimes : WellConfigured slimes "WS00" 0 (1, 4)
    [⟨"arena:contenders:Slime.chai", 3, #v[100, 100, 100]⟩] where
  range_eq := by decide
  range_pos := by decide
  range_le := by decide
  contenders_eq := by decide
  chance_pos := by decide
  chance_sum := by decide

/-- A pit of slimes, by an engine that keeps the texts. -/
theorem buildFightingPit_wellFormed_slimes :
    ∃ boundaryMap prepared fp, makeContenderRngBoundaryMap
        [⟨"arena:contenders:Slime.chai", 3, #v[100, 100, 100]⟩] (.ofSlot 0) = .ok boundaryMap ∧
      (loner (.ofSlot 0)).prepare insertionSideSort quietEngine.recording
        slimeScripts ⟨"user", []⟩ = .ok prepared ∧
      (loner (.ofSlot 0)).buildFightingPit (.unbounded insertionSort) insertionSideSort
        quietEngine.recording slimeScripts slimes "WS00" = .ok (some fp) ∧
      WellFormed slimeScripts (1, 4) boundaryMap prepared.chai fp := by
  have hfound : ∀ desc ∈ [(⟨"arena:contenders:Slime.chai", 3, #v[100, 100, 100]⟩ : EncounterDesc)],
      ∃ script, slimeScripts.cml desc.key = some script ∧ script.isEmpty = false := by
    intro desc hdesc
    rw [List.mem_singleton.mp hdesc]
    exact ⟨slimeScript, by decide, by decide⟩
  exact buildFightingPit_wellFormed (PitEngine.evalErrorsOnly_recording evalErrorsOnly_quietEngine)
    rfl rfl (by decide) rfl wellConfigured_slimes fun _ _ =>
      ⟨hfound, fun _ _ _ _ _ _ _ _ => ⟨rfl, rfl⟩⟩

end Slimes

end FyS.Arena
