import FyS.Arena.Pit.Encounters

/-!
# Contenders that draws lead to

Whether the loop of `generateContenders` returns is decided turn by turn: by the
draw, which has to find an entry, and by the evaluation of the instance, which
stands outside of the `try` block.  The class of a contender may use others, so this
depends on the board, and with it on all that was drawn before.
-/

namespace FyS.Arena

open FyS.Common FightingPitAnnouncer

variable {E : PitEngine}

/-! ## One contender -/

def Board.classLoaded (E : PitEngine) (script : String) (board : Board E.toChaiScript) :
    Board E.toChaiScript :=
  if script.isEmpty then board else (board.evalOnPit E script).2

def Instantiates (E : PitEngine) (cml : String → Option String) (desc : EncounterDesc)
    (cs : ContenderScripting) (fp : Board E.toChaiScript × List String) : Prop :=
  ((fp.1.classLoaded E (getScriptContentString cml cs.contenderName desc fp.2).1).evalOnPit E
    cs.createVar).1 = .ok ()

section Contender

variable {cs : ContenderScripting} {script : String} {board board' : Board E.toChaiScript}

theorem loadContenderScript_of_created (hengine : EvalErrorsOnly E)
    (h : ((board.classLoaded E script).evalOnPit E cs.createVar).1 = .ok ()) :
    cs.loadContenderScript E script board =
      .ok ((board.classLoaded E script).evalOnPit E cs.createVar).2 := by
  obtain ⟨r, hload⟩ : ∃ r, (if script.isEmpty then (.ok (), board)
    else board.evalOnPit E script) = r := ⟨_, rfl⟩
  have hne : r.1 ≠ .error .other := by
    rw [← hload]
    split_ifs
    · exact nofun
    · exact hengine.evalOnPit _ _ _ _
  have hclass : board.classLoaded E script = r.2 := by
    rw [← hload, Board.classLoaded]
    split_ifs <;> rfl
  rw [hclass] at h ⊢
  unfold ContenderScripting.loadContenderScript
  rw [hload]
  obtain ⟨result, loaded⟩ := r
  simp only at h ⊢
  cases hcreate : loaded.evalOnPit E cs.createVar with
  | mk created board' =>
      rw [hcreate] at h
      obtain rfl : created = .ok () := h
      match result with
      | .error .other => exact absurd rfl hne
      | .ok () | .error .evalError => rfl

theorem created_of_loadContenderScript
    (h : cs.loadContenderScript E script board = .ok board') :
    ((board.classLoaded E script).evalOnPit E cs.createVar).1 = .ok () := by
  unfold ContenderScripting.loadContenderScript at h
  split at h
  · cases h
  · rename_i result loaded _ hload
    have hclass : board.classLoaded E script = loaded := by
      have hsnd := congrArg Prod.snd hload
      rw [Board.classLoaded]
      split_ifs at hsnd ⊢
      · exact hsnd
      · exact hsnd
    rw [hclass]
    split at h
    · cases h
    · rename_i hcreate
      rw [hcreate]

theorem exists_addContender (hengine : EvalErrorsOnly E) (contender : FightingContender)
    (board : Board E.toChaiScript) : ∃ r, board.addContender E contender = .ok r := by
  unfold Board.addContender ContenderScripting.setupContender
  split
  · exact ⟨_, rfl⟩
  · rename_i heval
    exact absurd (congrArg Prod.fst heval) (hengine.evalOnPit _ _ _ _)
  · exact ⟨_, rfl⟩

end Contender

variable {cml : String → Option String} {initialSpeed : Nat → Nat}

theorem addDrawn_returns_iff (hengine : EvalErrorsOnly E) {desc : EncounterDesc}
    {cs : ContenderScripting} {fp : Board E.toChaiScript × List String} :
    (∃ r, addDrawn E cml initialSpeed desc cs fp = .ok r) ↔ Instantiates E cml desc cs fp := by
  constructor
  · rintro ⟨r, h⟩
    simp only [addDrawn] at h
    split at h
    · cases h
    · rename_i hload
      exact created_of_loadContenderScript hload
  · intro h
    simp only [addDrawn, loadContenderScript_of_created hengine h]
    obtain ⟨⟨ready, board⟩, hadd⟩ := exists_addContender hengine
      ⟨cs, ⟨.A, .NONE⟩, ⟨⟨0, 0⟩, ⟨0, 0⟩, initialSpeed cs.contenderId, []⟩⟩
      ((fp.1.classLoaded E (getScriptContentString cml cs.contenderName desc fp.2).1).evalOnPit E
        cs.createVar).2
    rw [hadd]
    cases ready with
    | true => exact ⟨_, rfl⟩
    | false => exact ⟨_, rfl⟩

/-! ## The boards of the loop -/

/-- What stands in the loop after as many contenders as a number says, each of them drawn in
any way: the board, and the names whose scripts were handed out. -/
inductive Reached (E : PitEngine) (cml : String → Option String) (initialSpeed : Nat → Nat)
    (drawable : EncounterDesc → Prop) (start : Board E.toChaiScript × List String) :
    Nat → Board E.toChaiScript × List String → Prop
  | start : Reached E cml initialSpeed drawable start 0 start
  | next {i fp fp' desc level} (before : Reached E cml initialSpeed drawable start i fp)
      (hdesc : drawable desc) (hlevel : 1 ≤ level ∧ level ≤ 10)
      (hadd : addDrawn E cml initialSpeed desc ⟨getNameFromKey desc.key, level, i⟩ fp =
        .ok (true, fp')) :
      Reached E cml initialSpeed drawable start (i + 1) fp'

def Found (boundaryMap : BoundaryMap EncounterDesc) (desc : EncounterDesc) : Prop :=
  ∃ r first, 0 ≤ r ∧ r ≤ 100 ∧ boundaryMap.get r = some (first, desc)

/-- After up to `n` contenders, whatever was drawn: every draw finds an entry, and the instance
of what it finds is made at every level. -/
def DrawsSucceed (E : PitEngine) (cml : String → Option String) (initialSpeed : Nat → Nat)
    (boundaryMap : BoundaryMap EncounterDesc) (start : Board E.toChaiScript × List String)
    (n : Nat) : Prop :=
  ∀ i < n, ∀ fp, Reached E cml initialSpeed (Found boundaryMap) start i fp →
    ∀ r : Int, 0 ≤ r → r ≤ 100 → ∃ first desc, boundaryMap.get r = some (first, desc) ∧
      ∀ level, 1 ≤ level → level ≤ 10 →
        Instantiates E cml desc ⟨getNameFromKey desc.key, level, i⟩ fp

section Loop

variable {boundaryMap : BoundaryMap EncounterDesc} {start : Board E.toChaiScript × List String}
  {rng : RandomGenerator}

theorem level_bounds (rng : RandomGenerator) (i : Nat) :
    1 ≤ (rng.generateInRange (2 * i + 2) 1 10).toNat ∧
      (rng.generateInRange (2 * i + 2) 1 10).toNat ≤ 10 := by
  have hrange := rng.mem_range (2 * i + 2) 1 10 (by decide)
  omega

theorem generateContender_eq {i : Nat} {fp : Board E.toChaiScript × List String} {first : Int}
    {desc : EncounterDesc}
    (hget : boundaryMap.get (rng.generateInRange (2 * i + 1) 0 100) = some (first, desc)) :
    generateContender E cml rng initialSpeed boundaryMap i fp =
      addDrawn E cml initialSpeed desc (scripting rng i desc) fp := by
  simp only [generateContender, hget]
  rfl

theorem DrawsSucceed.generateEach {n : Nat}
    (h : DrawsSucceed E cml initialSpeed boundaryMap start n) (hengine : EvalErrorsOnly E)
    (rng : RandomGenerator) (turns : Nat) {i : Nat} {fp : Board E.toChaiScript × List String}
    (hn : i + turns ≤ n) (hreached : Reached E cml initialSpeed (Found boundaryMap) start i fp) :
    ∃ r, generateEach E cml rng initialSpeed boundaryMap (List.range' i turns) fp = .ok r := by
  induction turns generalizing i fp with
  | zero => exact ⟨_, rfl⟩
  | succ turns ih =>
      obtain ⟨hlow, hhigh⟩ := rng.mem_range (2 * i + 1) 0 100 (by decide)
      obtain ⟨first, desc, hget, hlevels⟩ := h i (by omega) fp hreached _ hlow hhigh
      obtain ⟨hone, hten⟩ := level_bounds rng i
      have hmade : ∃ r, addDrawn E cml initialSpeed desc _ fp = .ok r :=
        (addDrawn_returns_iff hengine).mpr (hlevels _ hone hten)
      obtain ⟨⟨ready, fp'⟩, hadd⟩ := hmade
      rw [List.range'_succ, FightingPitAnnouncer.generateEach, generateContender_eq hget, scripting,
        hadd]
      cases ready with
      | false => exact ⟨_, rfl⟩
      | true => exact ih (by omega) (.next hreached ⟨_, first, hlow, hhigh, hget⟩ ⟨hone, hten⟩ hadd)

end Loop

end FyS.Arena
