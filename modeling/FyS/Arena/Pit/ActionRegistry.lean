import Mathlib.Data.List.TakeWhile
import FyS.Arena.Pit.Classes
import FyS.Library.KeepFirst

/-!
# The registry of actions

`loadAndRegisterAction` makes one insertion into `ally_actions` for every action,
under a key that all actions of a member share.  An insertion keeps what stands
under its key.
-/

namespace FyS.Arena

open FyS.Library

/-! ## One insertion for every action -/

namespace Registration

def cell (r : Registration) : String × (String → Option Nat) :=
  (r.keyPlayer, fun name => if name = r.actionName then some r.level else none)

theorem cell_fst (r : Registration) : r.cell.1 = r.keyPlayer := rfl

theorem cell_snd (r : Registration) (name : String) :
    r.cell.2 name = if name = r.actionName then some r.level else none := by
  simp only [cell]

theorem cell_snd_eq_iff {r r' : Registration} :
    r.cell.2 = r'.cell.2 ↔ r.actionName = r'.actionName ∧ r.level = r'.level := by
  constructor
  · intro heq
    have hat := congrFun heq r.actionName
    rw [cell_snd, cell_snd, if_pos rfl] at hat
    split_ifs at hat with hname
    exact ⟨hname, Option.some.inj hat⟩
  · intro h
    ext1 name
    rw [cell_snd, cell_snd, h.1, h.2]

end Registration

namespace PartyTeam

theorem mem_registrations {pt : PartyTeam} {r : Registration} :
    r ∈ pt.registrations ↔ ∃ tm ∈ pt.members, ∃ action ∈ tm.actionsDoable,
      r = ⟨pt.userName, tm.name, action.1, action.2⟩ := by
  simp only [registrations, List.mem_flatMap, List.mem_map]
  constructor
  · rintro ⟨tm, htm, action, haction, rfl⟩
    exact ⟨tm, htm, action, haction, rfl⟩
  · rintro ⟨tm, htm, action, haction, rfl⟩
    exact ⟨tm, htm, action, haction, rfl⟩

end PartyTeam

namespace ChaiRegister

variable {C : ChaiScript}

def registerTeams (cml : String → Option String) (pts : List PartyTeam) (chai : C.State) :
    Except PitFault C.State :=
  pts.foldlM (fun chai pt => (loadAndRegisterAction cml pt chai).map Prod.snd) chai

end ChaiRegister

/-! ## What the engine keeps of an insertion -/

def plain (name : String) : Prop := ∀ c ∈ name.toList, c.isAlphanum = true ∨ c = '_'

def isIdentifier (name : String) : Prop :=
  plain name ∧ ∃ c ∈ name.toList.head?, c.isDigit = false

instance (name : String) : Decidable (plain name) :=
  List.decidableBAll (fun c : Char => c.isAlphanum = true ∨ c = '_') name.toList

instance (name : String) : Decidable (isIdentifier name) :=
  inferInstanceAs (Decidable (plain name ∧ ∃ c ∈ name.toList.head?, c.isDigit = false))

/-- What an engine promises of `ally_actions`, with the scripts of `cml` loaded into it.
Under a key and a name stands what the name made of a level. -/
structure ActionEngine (C : ChaiScript) (cml : String → Option String) where
  Classes : Type
  classes : C.State → Classes
  learn : String → Classes → Classes
  makes : Classes → String → Nat → Bool
  allyActions : C.State → String → Option (String → Option Nat)
  isIdentifier_of_held : ∀ {chai key held name level},
    allyActions chai key = some held → held name = some level → isIdentifier name
  classes_script : ∀ {action script}, cml action = some script → ∀ chai,
    classes (C.eval script chai).2 = learn script (classes chai)
  /-- The scripts of actions leave the registry alone. -/
  allyActions_script : ∀ {action script}, cml action = some script → ∀ chai,
    allyActions (C.eval script chai).2 = allyActions chai
  insert_made : ∀ {r : Registration} {chai}, plain r.keyPlayer → isIdentifier r.actionName →
    makes (classes chai) r.actionName r.level = true →
      (C.eval r.createVar chai).1 = .ok () ∧
        allyActions (C.eval r.createVar chai).2 = KeepFirst.insert r.cell (allyActions chai) ∧
        classes (C.eval r.createVar chai).2 = classes chai
  insert_refused : ∀ {r : Registration} {chai}, plain r.keyPlayer → isIdentifier r.actionName →
    makes (classes chai) r.actionName r.level = false →
      (C.eval r.createVar chai).1 = .error .evalError ∧
        allyActions (C.eval r.createVar chai).2 = allyActions chai ∧
        classes (C.eval r.createVar chai).2 = classes chai

namespace ActionEngine

open ChaiRegister

variable {C : ChaiScript} {cml : String → Option String} (engine : ActionEngine C cml)

def learned (action : String) (classes : engine.Classes) : engine.Classes :=
  match cml action with
  | none => classes
  | some script => engine.learn script classes

def accept : List Registration → engine.Classes → List Registration × engine.Classes
  | [], classes => ([], classes)
  | r :: rest, classes =>
    let classes := engine.learned r.action classes
    if engine.makes classes r.actionName r.level then
      (r :: (accept rest classes).1, (accept rest classes).2)
    else ([], classes)

def acceptTeams : List PartyTeam → engine.Classes → List Registration
  | [], _ => []
  | pt :: rest, classes =>
    (engine.accept pt.registrations classes).1 ++
      acceptTeams rest (engine.accept pt.registrations classes).2

theorem mem_of_accept {rs : List Registration} {classes : engine.Classes} {r : Registration}
    (h : r ∈ (engine.accept rs classes).1) : r ∈ rs := by
  induction rs generalizing classes with
  | nil => exact h
  | cons first rest ih =>
      rw [accept] at h
      split_ifs at h
      · rcases List.mem_cons.mp h with rfl | hrest
        · exact List.mem_cons_self
        · exact List.mem_cons_of_mem _ (ih hrest)
      · cases h

theorem mem_of_acceptTeams {pts : List PartyTeam} {classes : engine.Classes} {r : Registration}
    (h : r ∈ engine.acceptTeams pts classes) : r ∈ pts.flatMap (·.registrations) := by
  induction pts generalizing classes with
  | nil => cases h
  | cons pt rest ih =>
      rw [acceptTeams, List.mem_append] at h
      rw [List.flatMap_cons, List.mem_append]
      exact h.imp engine.mem_of_accept ih

/-! ## One registration, one team, all teams -/

def Readable (r : Registration) : Prop := plain r.keyPlayer ∧ isIdentifier r.actionName

/-- One registration: its script is loaded, and its insertion comes through when the
class is there by then. -/
theorem registerAction_spec {r : Registration} (hr : Readable r) (chai : C.State) :
    engine.classes (registerAction cml r chai).2 = engine.learned r.action (engine.classes chai) ∧
      (engine.makes (engine.learned r.action (engine.classes chai)) r.actionName r.level = true →
        (registerAction cml r chai).1 = .ok () ∧
          engine.allyActions (registerAction cml r chai).2 =
            KeepFirst.insert r.cell (engine.allyActions chai)) ∧
      (engine.makes (engine.learned r.action (engine.classes chai)) r.actionName r.level = false →
        (registerAction cml r chai).1 = .error .evalError ∧
          engine.allyActions (registerAction cml r chai).2 = engine.allyActions chai) := by
  obtain ⟨loaded, hloaded⟩ : ∃ loaded, (match cml r.action with
    | none => chai
    | some script => (C.eval script chai).2) = loaded := ⟨_, rfl⟩
  have hregister : registerAction cml r chai = C.eval r.createVar loaded := by
    rw [← hloaded]
    rfl
  have hclasses : engine.classes loaded = engine.learned r.action (engine.classes chai) := by
    rw [← hloaded, learned]
    cases hscript : cml r.action with
    | none => rfl
    | some script => exact engine.classes_script hscript chai
  have hactions : engine.allyActions loaded = engine.allyActions chai := by
    rw [← hloaded]
    cases hscript : cml r.action with
    | none => rfl
    | some script => exact engine.allyActions_script hscript chai
  rw [hregister, ← hclasses, ← hactions]
  cases hmakes : engine.makes (engine.classes loaded) r.actionName r.level with
  | true =>
      have hmade := engine.insert_made hr.1 hr.2 hmakes
      simp [hmade]
  | false =>
      have hrefused := engine.insert_refused hr.1 hr.2 hmakes
      simp [hrefused]

/-- A team: what it registers is what is accepted of it, and nothing but an
`eval_error` ends it early. -/
theorem registerAll_spec {rs : List Registration} (hrs : ∀ r ∈ rs, Readable r)
    (chai : C.State) :
    (registerAll cml rs chai).1 ≠ .error .other ∧
      engine.allyActions (registerAll cml rs chai).2 =
        KeepFirst.insertAll ((engine.accept rs (engine.classes chai)).1.map (·.cell))
          (engine.allyActions chai) ∧
      engine.classes (registerAll cml rs chai).2 =
        (engine.accept rs (engine.classes chai)).2 := by
  induction rs generalizing chai with
  | nil =>
      refine ⟨?_, rfl, rfl⟩
      intro heq
      cases heq
  | cons r rest ih =>
      obtain ⟨hclasses, hmade, hrefused⟩ := engine.registerAction_spec (hrs r List.mem_cons_self) chai
      have ih := ih (fun r' hr' => hrs r' (List.mem_cons_of_mem _ hr'))
      rw [registerAll, accept]
      cases hrun : registerAction cml r chai with
      | mk result chai' =>
          rw [hrun] at hclasses hmade hrefused
          simp only at hclasses hmade hrefused
          rw [← hclasses] at hmade hrefused ⊢
          cases hmakes : engine.makes (engine.classes chai') r.actionName r.level with
          | true =>
              obtain ⟨hresult, hactions⟩ := hmade hmakes
              obtain ⟨hne, hrest, hafter⟩ := ih chai'
              rw [hresult]
              simp only [if_true]
              rw [hrest, hactions]
              exact ⟨hne, rfl, hafter⟩
          | false =>
              obtain ⟨hresult, hactions⟩ := hrefused hmakes
              rw [hresult]
              refine ⟨?_, hactions, rfl⟩
              intro heq
              cases heq

theorem loadAndRegisterAction_spec {pt : PartyTeam} (hpt : ∀ r ∈ pt.registrations, Readable r)
    (chai : C.State) :
    ∃ done chai', loadAndRegisterAction cml pt chai = .ok (done, chai') ∧
      engine.allyActions chai' =
        KeepFirst.insertAll ((engine.accept pt.registrations (engine.classes chai)).1.map (·.cell))
          (engine.allyActions chai) ∧
      engine.classes chai' = (engine.accept pt.registrations (engine.classes chai)).2 := by
  obtain ⟨hne, hactions, hclasses⟩ := engine.registerAll_spec hpt chai
  unfold loadAndRegisterAction
  cases hrun : registerAll cml pt.registrations chai with
  | mk result chai' =>
      rw [hrun] at hne hactions hclasses
      cases result with
      | ok done => exact ⟨true, chai', rfl, hactions, hclasses⟩
      | error e =>
          cases e with
          | evalError => exact ⟨false, chai', rfl, hactions, hclasses⟩
          | other => exact absurd rfl hne

/-- All teams: the registry keeps the first of what is accepted under each key. -/
theorem registerTeams_spec {pts : List PartyTeam}
    (hpts : ∀ r ∈ pts.flatMap (·.registrations), Readable r) (chai : C.State) :
    ∃ chai', registerTeams cml pts chai = .ok chai' ∧
      engine.allyActions chai' =
        KeepFirst.insertAll ((engine.acceptTeams pts (engine.classes chai)).map (·.cell))
          (engine.allyActions chai) := by
  induction pts generalizing chai with
  | nil => exact ⟨chai, rfl, rfl⟩
  | cons pt rest ih =>
      rw [List.flatMap_cons] at hpts
      obtain ⟨done, chai₁, hfirst, hactions, hclasses⟩ := engine.loadAndRegisterAction_spec
        (fun r hr => hpts r (List.mem_append_left _ hr)) chai
      obtain ⟨chai', hrest, hall⟩ := ih (fun r hr => hpts r (List.mem_append_right _ hr)) chai₁
      refine ⟨chai', ?_, ?_⟩
      · rw [registerTeams, List.foldlM_cons, hfirst]
        exact hrest
      · rw [hall, hactions, hclasses, acceptTeams, List.map_append, KeepFirst.insertAll_append]

end ActionEngine

/-! ## An engine that keeps a registry -/

structure Registry where
  classes : List String
  entries : List (String × String × Nat)
  named : ∀ e ∈ entries, isIdentifier e.2.1

namespace Registry

def cellOf (e : String × String × Nat) : String × (String → Option Nat) :=
  (e.1, fun name => if name = e.2.1 then some e.2.2 else none)

def allyActions (registry : Registry) : String → Option (String → Option Nat) :=
  KeepFirst.insertAll (registry.entries.map cellOf) fun _ => none

def insert (key name : String) (level : Nat) (hname : isIdentifier name) (registry : Registry) :
    Registry where
  classes := registry.classes
  entries := registry.entries ++ [(key, name, level)]
  named e he := by
    rcases List.mem_append.mp he with hold | hnew
    · exact registry.named e hold
    · rw [List.mem_singleton.mp hnew]
      exact hname

theorem allyActions_insert (key name : String) (level : Nat) (hname : isIdentifier name)
    (registry : Registry) :
    (registry.insert key name level hname).allyActions =
      KeepFirst.insert (cellOf (key, name, level)) registry.allyActions := by
  unfold allyActions insert
  rw [List.map_append, KeepFirst.insertAll_append]
  rfl

theorem isIdentifier_of_held {registry : Registry} {key name : String} {level : Nat}
    {held : String → Option Nat} (hcell : registry.allyActions key = some held)
    (hlevel : held name = some level) : isIdentifier name := by
  obtain ⟨e, he, heq⟩ := List.mem_map.mp (KeepFirst.mem_of_insertAll hcell)
  have hheld : held = (cellOf e).2 := by rw [heq]
  rw [hheld] at hlevel
  simp only [cellOf] at hlevel
  split_ifs at hlevel with hname
  rw [hname]
  exact registry.named e he

end Registry

@[irreducible] def insertion (code : List Char) : Option (String × String × Nat) :=
  if code.take 23 = "ally_actions.insert( [\"".toList then
    let entry := code.drop 23
    let cell := (entry.dropWhile (· ≠ '"')).drop 5
    some (String.ofList (entry.takeWhile (· ≠ '"')), String.ofList (cell.takeWhile (· ≠ '"')),
      Nat.ofDigitChars 10 (((cell.dropWhile (· ≠ '(')).drop 1).takeWhile (· ≠ ')')) 0)
  else none

@[irreducible] def evalRegistry (code : String) (registry : Registry) :
    Except ScriptError Unit × Registry :=
  match classDefined code with
  | some name => (.ok (), { registry with classes := name :: registry.classes })
  | none =>
    match insertion code.toList with
    | none => (.error .evalError, registry)
    | some (key, name, level) =>
      if h : name ∈ registry.classes ∧ isIdentifier name then
        (.ok (), registry.insert key name level h.2)
      else (.error .evalError, registry)

def registryChai : ChaiScript where
  State := Registry
  Function := Unit
  eval := evalRegistry
  evalFunction _ registry := (.ok (), registry)
  evalTargeting _ registry := (.ok .ALLY_OR_ENNEMY, registry)
  callWithId _ _ _ _ registry := (.ok 1, FightingPit.harmless, registry)
  callWithStatus _ _ _ _ registry := (.ok 1, FightingPit.harmless, registry)

theorem not_mem_of_plain {name : String} (h : plain name) {c : Char} (hc : c.isAlphanum = false)
    (hne : c ≠ '_') : c ∉ name.toList := by
  intro hmem
  rcases h c hmem with halpha | heq
  · rw [hc] at halpha
    cases halpha
  · exact hne heq

theorem dropWhile_append_stop {α : Type} {p : α → Bool} {c : α} (hc : p c = false) {l : List α}
    (hl : ∀ a ∈ l, p a = true) (rest : List α) : (l ++ c :: rest).dropWhile p = c :: rest := by
  rw [List.dropWhile_append_of_pos hl, List.dropWhile_cons_of_neg]
  simp [hc]

theorem takeWhile_append_stop_of_all {α : Type} {p : α → Bool} {c : α} (hc : p c = false)
    {l : List α} (hl : ∀ a ∈ l, p a = true) (rest : List α) :
    (l ++ c :: rest).takeWhile p = l := by
  rw [takeWhile_append_stop hc, List.takeWhile_eq_self_iff.mpr hl]

theorem insertion_append {key name digits : List Char} (hkey : '"' ∉ key) (hname : '"' ∉ name)
    (hbracket : '(' ∉ name) (hdigits : ')' ∉ digits) (rest : List Char) :
    insertion ("ally_actions.insert( [\"".toList ++ (key ++ '"' :: ':' :: '[' :: ' ' :: '"' ::
      (name ++ '"' :: ':' :: (name ++ '(' :: (digits ++ ')' :: rest))))) =
      some (String.ofList key, String.ofList name, Nat.ofDigitChars 10 digits 0) := by
  have hquote {l : List Char} (hl : '"' ∉ l) : ∀ c ∈ l, decide (c ≠ '"') = true := by
    intro c hc
    apply decide_eq_true
    rintro rfl
    exact hl hc
  have hopen : ∀ c ∈ name ++ '"' :: ':' :: name, decide (c ≠ '(') = true := by
    intro c hc
    apply decide_eq_true
    rintro rfl
    simp [hbracket] at hc
  have hclose : ∀ c ∈ digits, decide (c ≠ ')') = true := by
    intro c hc
    apply decide_eq_true
    rintro rfl
    exact hdigits hc
  have hlength : "ally_actions.insert( [\"".toList.length = 23 := by decide
  have hentry (after : List Char) : (key ++ '"' :: ':' :: '[' :: ' ' :: '"' :: after).dropWhile
      (· ≠ '"') = '"' :: ':' :: '[' :: ' ' :: '"' :: after :=
    dropWhile_append_stop (by decide) (hquote hkey) _
  have hcell : (name ++ '"' :: ':' :: (name ++ '(' :: (digits ++ ')' :: rest))).dropWhile
      (· ≠ '(') = '(' :: (digits ++ ')' :: rest) := by
    rw [← List.cons_append, ← List.cons_append, ← List.append_assoc]
    exact dropWhile_append_stop (by decide) hopen _
  unfold insertion
  rw [← hlength, List.take_left', if_pos rfl, List.drop_left']
  simp only
  rw [hentry, takeWhile_append_stop_of_all (by decide) (hquote hkey)]
  simp only [List.drop_succ_cons, List.drop_zero]
  rw [hcell, takeWhile_append_stop_of_all (by decide) (hquote hname)]
  simp only [List.drop_succ_cons, List.drop_zero]
  rw [takeWhile_append_stop_of_all (by decide) hclose]
  · rfl
  · rfl

theorem insertText_toList (key name : String) (level : Nat) :
    ("ally_actions.insert( [\"" ++ key ++ "\":[ \"" ++ name ++ "\":" ++ name ++ "(" ++
        toString level ++ ") ] ] );").toList =
      "ally_actions.insert( [\"".toList ++ (key.toList ++ '"' :: ':' :: '[' :: ' ' :: '"' ::
        (name.toList ++ '"' :: ':' :: (name.toList ++
          '(' :: (Nat.toDigits 10 level ++ ')' :: " ] ] );".toList)))) := by
  have hlevel : (toString level).toList = Nat.toDigits 10 level := Nat.toList_repr
  have hkey : "\":[ \"".toList = ['"', ':', '[', ' ', '"'] := by decide
  have hname : "\":".toList = ['"', ':'] := by decide
  have hopen : "(".toList = ['('] := by decide
  have hclose : ") ] ] );".toList = ')' :: " ] ] );".toList := by decide
  simp only [String.toList_append, hlevel, List.append_assoc]
  rw [hkey, hname, hopen, hclose]
  simp only [List.cons_append, List.nil_append]

theorem insertion_insertText {key name : String} (hkey : plain key) (hname : plain name)
    (level : Nat) :
    insertion ("ally_actions.insert( [\"" ++ key ++ "\":[ \"" ++ name ++ "\":" ++ name ++ "(" ++
        toString level ++ ") ] ] );").toList = some (key, name, level) := by
  have hlevel := not_mem_digits (c := ')') (by decide) level
  rw [insertText_toList, insertion_append (not_mem_of_plain hkey (by decide) (by decide))
    (not_mem_of_plain hname (by decide) (by decide))
    (not_mem_of_plain hname (by decide) (by decide)) hlevel, String.ofList_toList,
    String.ofList_toList, Nat.ofDigitChars_ten_toDigits]

theorem insertion_createVar {r : Registration} (hkey : plain r.keyPlayer)
    (hname : plain r.actionName) :
    insertion r.createVar.toList = some (r.keyPlayer, r.actionName, r.level) :=
  insertion_insertText hkey hname r.level

theorem classDefined_insertText (key name : String) (level : Nat) :
    classDefined ("ally_actions.insert( [\"" ++ key ++ "\":[ \"" ++ name ++ "\":" ++ name ++
      "(" ++ toString level ++ ") ] ] );") = none := by
  have hlength : 6 ≤ "ally_actions.insert( [\"".toList.length := by decide
  rw [classDefined, insertText_toList, List.take_append_of_le_length hlength, if_neg]
  decide

theorem evalRegistry_createVar {r : Registration} (hkey : plain r.keyPlayer)
    (hname : isIdentifier r.actionName) (registry : Registry) :
    evalRegistry r.createVar registry =
      if r.actionName ∈ registry.classes then
        (.ok (), registry.insert r.keyPlayer r.actionName r.level hname)
      else (.error .evalError, registry) := by
  have hnone : classDefined r.createVar = none := classDefined_insertText _ _ _
  unfold evalRegistry
  rw [hnone]
  simp only
  rw [insertion_createVar hkey hname.1]
  simp only
  by_cases hclass : r.actionName ∈ registry.classes
  · rw [dif_pos ⟨hclass, hname⟩, if_pos hclass]
  · rw [dif_neg (fun h => hclass h.1), if_neg hclass]

theorem evalRegistry_of_classDefined {code name : String} (h : classDefined code = some name)
    (registry : Registry) :
    evalRegistry code registry = (.ok (), { registry with classes := name :: registry.classes }) := by
  unfold evalRegistry
  rw [h]

def registryEngine (cml : String → Option String)
    (hcml : ∀ action script, cml action = some script → ∃ name, classDefined script = some name) :
    ActionEngine registryChai cml where
  Classes := List String
  classes := Registry.classes
  learn script classes := (classDefined script).toList ++ classes
  makes classes name _ := decide (name ∈ classes)
  allyActions := Registry.allyActions
  isIdentifier_of_held := Registry.isIdentifier_of_held
  classes_script hscript registry := by
    obtain ⟨name, hname⟩ := hcml _ _ hscript
    rw [hname]
    exact congrArg (·.2.classes) (evalRegistry_of_classDefined hname registry)
  allyActions_script hscript registry := by
    obtain ⟨name, hname⟩ := hcml _ _ hscript
    exact congrArg (·.2.allyActions) (evalRegistry_of_classDefined hname registry)
  insert_made hkey hname hmakes := by
    have hrun := (evalRegistry_createVar hkey hname _).trans (if_pos (of_decide_eq_true hmakes))
    have hactions := congrArg (·.2.allyActions) hrun
    exact ⟨congrArg Prod.fst hrun, hactions.trans (Registry.allyActions_insert _ _ _ hname _),
      congrArg (·.2.classes) hrun⟩
  insert_refused hkey hname hmakes := by
    have hrun := (evalRegistry_createVar hkey hname _).trans (if_neg (of_decide_eq_false hmakes))
    exact ⟨congrArg Prod.fst hrun, congrArg (·.2.allyActions) hrun, congrArg (·.2.classes) hrun⟩

end FyS.Arena
