import FyS.Cache.Cml

/-!
# Coherence of the cache

A script is cached with a reading of the system clock, and its file carries one of
the file clock.  An update is noticed in every run exactly when the file clock is
not behind.
-/

namespace FyS.Cache

open FyS.Library.Trace

/-! ## Runs of look-ups and updates -/

inductive Event where
  | findInCache (key : String)
  | write (path : String) (content : String)
deriving DecidableEq, Repr

structure Moment where
  pause : Nat
  event : Event
deriving DecidableEq, Repr

def World.tick (pause : Nat) (w : World) : World := { w with now := w.now + pause + 1 }

@[simp] theorem World.inMemCache_tick (pause : Nat) (w : World) :
    (w.tick pause).inMemCache = w.inMemCache := rfl

theorem World.now_tick (pause : Nat) (w : World) : (w.tick pause).now = w.now + pause + 1 := rfl

structure Answer where
  returned : Option String
  stored : Option String
deriving DecidableEq, Repr

namespace Cml

variable (cml : Cml) (fileClockOffset : Int)

def pathOf : Event → String
  | .findInCache key => (cml.cmlKey key).path
  | .write path _ => path

def stored (key : String) (w : World) : Option String :=
  (cml.entry (cml.cmlKey key) w).bind (·.content)

def happen (event : Event) (w : World) : Traced Answer FilesystemError World :=
  match event with
  | .findInCache key =>
    let found := cml.findInCache key w
    ⟨[⟨found.result.toOption.map Prod.fst, cml.stored key w⟩], found.result.map Prod.snd⟩
  | .write path content =>
    ⟨[], .ok (w.put (locate cml.cwd path) ⟨some content, w.now + fileClockOffset⟩)⟩

def step (moment : Moment) (w : World) : Traced Answer FilesystemError World :=
  cml.happen fileClockOffset moment.event (w.tick moment.pause)

def OnFile (w : World) (moment : Moment) : Prop :=
  ∃ content lastWriteTime,
    w.files.entryAt cml.cwd (cml.pathOf moment.event) = some ⟨some content, lastWriteTime⟩

/-- Whatever happens to existing files, every look-up returns what is stored. -/
def Coherent : Prop :=
  ∀ (w : World) (moments : List Moment), (∀ key, w.inMemCache key = none) →
    (∀ moment ∈ moments, cml.OnFile w moment) →
      ∀ answer ∈ (runs (cml.step fileClockOffset) moments w).log, answer.returned = answer.stored

/-! ## A file clock that is not behind -/

/-- Every cached script was cached before now, and if its file was not written since,
is what the file holds. -/
def Fresh (w : World) : Prop :=
  ∀ key it, w.inMemCache key = some it → it.timestamp ≤ w.now ∧
    ∀ entry, cml.entry (cml.cmlKey key) w = some entry →
      entry.lastWriteTime ≤ it.timestamp → entry.content = some it.content

theorem Fresh.remember {cml : Cml} {key content : String} {lastWriteTime : Int} {w : World}
    (h : cml.Fresh w)
    (hfile : cml.entry (cml.cmlKey key) w = some ⟨some content, lastWriteTime⟩) :
    cml.Fresh (w.remember key content) := by
  intro other it hit
  rw [World.inMemCache_remember] at hit
  split_ifs at hit with hkey
  · rw [← Option.some.inj hit, hkey]
    refine ⟨Int.le_refl w.now, ?_⟩
    intro entry hentry _
    have hsame : cml.entry (cml.cmlKey key) w = some entry := hentry
    rw [hfile] at hsame
    rw [← Option.some.inj hsame]
  · exact h other it hit

theorem findInCache_spec {cml : Cml} {key content : String} {lastWriteTime : Int} {w : World}
    (hfile : cml.entry (cml.cmlKey key) w = some ⟨some content, lastWriteTime⟩)
    (hfresh : cml.Fresh w) :
    ∃ w', (cml.findInCache key w).result = .ok (content, w') ∧ cml.Fresh w' ∧
      w'.files = w.files := by
  by_cases hmiss : ∀ it, w.inMemCache key = some it → it.timestamp < lastWriteTime
  · rw [findInCache_miss hfile hmiss]
    exact ⟨w.remember key content, rfl, hfresh.remember hfile, rfl⟩
  · simp only [not_forall, Int.not_lt] at hmiss
    obtain ⟨it, hit, hold⟩ := hmiss
    have hcontent := Option.some.inj ((hfresh key it hit).2 _ hfile hold)
    rw [findInCache_hit hfile hit hold, ← hcontent]
    exact ⟨w, rfl, hfresh, rfl⟩

theorem Fresh.tick {cml : Cml} {w : World} (h : cml.Fresh w) (pause : Nat) :
    cml.Fresh (w.tick pause) := by
  intro key it hit
  obtain ⟨hle, hsame⟩ := h key it hit
  rw [World.now_tick]
  exact ⟨by omega, hsame⟩

theorem Fresh.put {cml : Cml} {w : World} (h : cml.Fresh w) {place : Location} {content : String}
    {lastWriteTime : Int} (hplace : (w.files.content place).isSome)
    (hlater : ∀ key it, w.inMemCache key = some it → it.timestamp < lastWriteTime) :
    cml.Fresh (w.put place ⟨some content, lastWriteTime⟩) := by
  intro key it hit
  obtain ⟨hle, hsame⟩ := h key it hit
  refine ⟨hle, ?_⟩
  intro found hfound hold
  unfold entry at hfound
  rw [World.files_put, Files.entryAt_update hplace rfl] at hfound
  obtain ⟨old, hentry, hnew⟩ := Option.map_eq_some_iff.mp hfound
  split_ifs at hnew
  · have hstamp := hlater key it hit
    have hwritten : found.lastWriteTime = lastWriteTime := by rw [← hnew]
    omega
  · rw [← hnew] at hold ⊢
    exact hsame old hentry hold

theorem OnFile.put {cml : Cml} {w : World} {moment : Moment} (h : cml.OnFile w moment)
    {place : Location} (hplace : (w.files.content place).isSome) (content : String)
    (lastWriteTime : Int) : cml.OnFile (w.put place ⟨some content, lastWriteTime⟩) moment := by
  obtain ⟨old, oldTime, hold⟩ := h
  unfold OnFile
  rw [World.files_put, Files.entryAt_update hplace rfl, hold, Option.map_some]
  split_ifs
  · exact ⟨content, lastWriteTime, rfl⟩
  · exact ⟨old, oldTime, rfl⟩

theorem Fresh.write {cml : Cml} {w : World} (h : cml.Fresh w) {fileClockOffset : Int}
    (hoffset : 0 ≤ fileClockOffset) {place : Location} (hplace : (w.files.content place).isSome)
    (pause : Nat) (content : String) :
    cml.Fresh ((w.tick pause).put place
      ⟨some content, (w.tick pause).now + fileClockOffset⟩) := by
  apply (h.tick pause).put hplace
  intro key it hit
  have hcached := (h key it hit).1
  rw [World.now_tick]
  omega

/-- A look-up of an existing file answers right. -/
theorem happen_findInCache {key content : String} {lastWriteTime : Int} {w : World}
    (hfile : cml.entry (cml.cmlKey key) w = some ⟨some content, lastWriteTime⟩)
    (hfresh : cml.Fresh w) :
    ∃ w', cml.happen fileClockOffset (.findInCache key) w =
        ⟨[⟨some content, some content⟩], .ok w'⟩ ∧
      cml.Fresh w' ∧ w'.files = w.files := by
  obtain ⟨w', hfound, hfresh', hfiles⟩ := findInCache_spec hfile hfresh
  refine ⟨w', ?_, hfresh', hfiles⟩
  unfold happen stored
  simp only [hfound, hfile]
  rfl

theorem step_keeps (hoffset : 0 ≤ fileClockOffset) (moment : Moment) (moments : List Moment)
    (w : World) (h : cml.Fresh w ∧ ∀ m ∈ moment :: moments, cml.OnFile w m) :
    Keeps (fun w => cml.Fresh w ∧ ∀ m ∈ moments, cml.OnFile w m)
      (fun answer : Answer => answer.returned = answer.stored)
      (cml.step fileClockOffset moment w) := by
  obtain ⟨hfresh, hfiles⟩ := h
  rw [List.forall_mem_cons] at hfiles
  obtain ⟨⟨content, lastWriteTime, hfile⟩, hrest⟩ := hfiles
  unfold step
  cases hevent : moment.event with
  | findInCache key =>
      rw [hevent] at hfile
      obtain ⟨w', hhappen, hfresh', hfiles'⟩ := cml.happen_findInCache fileClockOffset
        (w := w.tick moment.pause) hfile (hfresh.tick moment.pause)
      rw [hhappen]
      constructor
      · intro answer hanswer
        rw [List.mem_singleton.mp hanswer]
      · intro t ht
        rw [← Except.ok.inj ht]
        refine ⟨hfresh', ?_⟩
        intro m hm
        unfold OnFile
        rw [hfiles']
        exact hrest m hm
  | write path text =>
      rw [hevent, pathOf] at hfile
      have hplace : (w.files.content (locate cml.cwd path)).isSome := by
        rw [Files.content_of_entryAt hfile]
        rfl
      constructor
      · intro answer hanswer
        cases hanswer
      · intro t ht
        rw [← Except.ok.inj ht]
        constructor
        · exact hfresh.write hoffset hplace _ _
        · intro m hm
          exact OnFile.put (w := w.tick moment.pause) (hrest m hm) hplace _ _

/-! ## A file clock that is behind -/

def reread (cml : Cml) (key : String) : List Moment :=
  [⟨0, .findInCache key⟩, ⟨0, .write (cml.cmlKey key).path "new"⟩, ⟨0, .findInCache key⟩]

def oneFile (place : Location) : World :=
  ⟨0, fun other => some ⟨if other = place then some "old" else none, 0⟩, fun _ => none⟩

theorem slashed_longName (n : Nat) : CmlKey.slashed (longName n) = longName n := by
  rw [CmlKey.slashed, longName, String.toList_ofList, List.map_replicate]
  rfl

/-- There is a key for a file that is not on its own way. -/
theorem exists_key_off_the_way (cml : Cml) :
    ∃ key, cml.file (cml.cmlKey key) ∉ onTheWay cml.cwd (cml.cmlKey key).path := by
  obtain ⟨n, hfresh⟩ := exists_longName_notMem (cml.cwd.map .into ++ components cml.localPathStorage)
  refine ⟨longName n, ?_⟩
  unfold file cmlKey CmlKey.new
  rw [slashed_longName]
  exact locate_notMem_onTheWay hfresh

theorem entry_oneFile {key : String}
    (hkey : cml.file (cml.cmlKey key) ∉ onTheWay cml.cwd (cml.cmlKey key).path) :
    cml.entry (cml.cmlKey key) (oneFile (cml.file (cml.cmlKey key))) = some ⟨some "old", 0⟩ := by
  have hleads : Files.leads cml.cwd (cml.cmlKey key).path
      (oneFile (cml.file (cml.cmlKey key))).files = true := by
    rw [Files.leads, List.all_eq_true]
    intro directory hdirectory
    have hne : directory ≠ cml.file (cml.cmlKey key) := by
      rintro rfl
      exact hkey hdirectory
    simp only [oneFile, Files.isDirectory, if_neg hne]
    rfl
  rw [entry, Files.entryAt, if_pos hleads]
  simp only [oneFile, file, if_true]

theorem entry_put {cml : Cml} {cmlKey : CmlKey} {w : World} {old : String} {oldTime : Int}
    (hfile : cml.entry cmlKey w = some ⟨some old, oldTime⟩) (content : String)
    (lastWriteTime : Int) :
    cml.entry cmlKey (w.put (cml.file cmlKey) ⟨some content, lastWriteTime⟩) =
      some ⟨some content, lastWriteTime⟩ := by
  have hplace : (w.files.content (cml.file cmlKey)).isSome :=
    Option.isSome_iff_exists.mpr ⟨old, Files.content_of_entryAt hfile⟩
  unfold entry at hfile ⊢
  rw [World.files_put, Files.entryAt_update hplace rfl, hfile]
  exact congrArg some (if_pos rfl)

section

variable {cml} {pause : Nat} {key content : String} {lastWriteTime : Int} {w : World}
  (hfile : cml.entry (cml.cmlKey key) w = some ⟨some content, lastWriteTime⟩)

include hfile in
theorem step_found {log : List Access} {returned : String} {w' : World}
    (hfound : cml.findInCache key (w.tick pause) = ⟨log, .ok (returned, w')⟩) :
    cml.step fileClockOffset ⟨pause, .findInCache key⟩ w =
      ⟨[⟨some returned, some content⟩], .ok w'⟩ := by
  have hentry : cml.entry (cml.cmlKey key) (w.tick pause) =
      some ⟨some content, lastWriteTime⟩ := hfile
  unfold step happen stored
  simp only [hfound, hentry]
  rfl

include hfile in
theorem step_miss (hnone : w.inMemCache key = none) :
    cml.step fileClockOffset ⟨pause, .findInCache key⟩ w =
      ⟨[⟨some content, some content⟩], .ok ((w.tick pause).remember key content)⟩ := by
  apply step_found fileClockOffset hfile
  apply findInCache_miss (w := w.tick pause) hfile
  intro it hit
  rw [World.inMemCache_tick, hnone] at hit
  cases hit

include hfile in
theorem step_hit {it : InMemoryCached} (hit : w.inMemCache key = some it)
    (hold : lastWriteTime ≤ it.timestamp) :
    cml.step fileClockOffset ⟨pause, .findInCache key⟩ w =
      ⟨[⟨some it.content, some content⟩], .ok (w.tick pause)⟩ :=
  step_found fileClockOffset hfile (findInCache_hit (w := w.tick pause) hfile hit hold)

end

theorem reread_stale (hoffset : fileClockOffset < 0) {key : String} {w : World}
    (hfile : cml.entry (cml.cmlKey key) w = some ⟨some "old", 0⟩)
    (hnone : w.inMemCache key = none) :
    ∃ w', runs (cml.step fileClockOffset) (reread cml key) w =
      ⟨[⟨some "old", some "old"⟩, ⟨some "old", some "new"⟩], .ok w'⟩ := by
  -- cached at 1, written at 2 by the system clock, which the file clock has not reached
  obtain ⟨w₁, hw₁⟩ : ∃ w₁, (w.tick 0).remember key "old" = w₁ := ⟨_, rfl⟩
  obtain ⟨w₂, hw₂⟩ : ∃ w₂, (w₁.tick 0).put (cml.file (cml.cmlKey key))
    ⟨some "new", (w₁.tick 0).now + fileClockOffset⟩ = w₂ := ⟨_, rfl⟩
  have hread : cml.step fileClockOffset ⟨0, .findInCache key⟩ w =
      ⟨[⟨some "old", some "old"⟩], .ok w₁⟩ := by
    rw [← hw₁]
    exact step_miss fileClockOffset hfile hnone
  have hwrite : cml.step fileClockOffset ⟨0, .write (cml.cmlKey key).path "new"⟩ w₁ =
      ⟨[], .ok w₂⟩ := by
    rw [← hw₂]
    rfl
  have hentry : cml.entry (cml.cmlKey key) w₂ =
      some ⟨some "new", (w₁.tick 0).now + fileClockOffset⟩ := by
    have hold : cml.entry (cml.cmlKey key) (w₁.tick 0) = some ⟨some "old", 0⟩ := by
      rw [← hw₁]
      exact hfile
    rw [← hw₂]
    exact entry_put hold _ _
  have hit : w₂.inMemCache key = some ⟨(w.tick 0).now, "old"⟩ := by
    rw [← hw₂, ← hw₁, World.inMemCache_put, World.inMemCache_tick, World.inMemCache_remember,
      if_pos rfl]
  have hbehind : (w₁.tick 0).now + fileClockOffset ≤ (w.tick 0).now := by
    rw [← hw₁, World.now_tick, World.now_remember]
    omega
  have hreread : cml.step fileClockOffset ⟨0, .findInCache key⟩ w₂ =
      ⟨[⟨some "old", some "new"⟩], .ok (w₂.tick 0)⟩ :=
    step_hit fileClockOffset hentry hit hbehind
  have hlast : runs (cml.step fileClockOffset) [⟨0, .findInCache key⟩] w₂ =
      ⟨[⟨some "old", some "new"⟩], .ok (w₂.tick 0)⟩ :=
    Traced.andThen_eq_ok.mpr ⟨_, _, _, hreread, rfl, rfl⟩
  have hrest : runs (cml.step fileClockOffset)
      [⟨0, .write (cml.cmlKey key).path "new"⟩, ⟨0, .findInCache key⟩] w₁ =
        ⟨[⟨some "old", some "new"⟩], .ok (w₂.tick 0)⟩ :=
    Traced.andThen_eq_ok.mpr ⟨_, _, _, hwrite, hlast, rfl⟩
  exact ⟨w₂.tick 0, Traced.andThen_eq_ok.mpr ⟨_, _, _, hread, hrest, rfl⟩⟩

theorem onFile_reread {key : String} {w : World}
    (hfile : cml.entry (cml.cmlKey key) w = some ⟨some "old", 0⟩) :
    ∀ moment ∈ reread cml key, cml.OnFile w moment := by
  intro moment hmoment
  have hpath : cml.pathOf moment.event = (cml.cmlKey key).path := by
    simp only [reread, List.mem_cons, List.not_mem_nil, or_false] at hmoment
    rcases hmoment with rfl | rfl | rfl
    · rfl
    · rfl
    · rfl
  unfold OnFile
  rw [hpath]
  exact ⟨"old", 0, hfile⟩

theorem not_coherent (hoffset : fileClockOffset < 0) : ¬ cml.Coherent fileClockOffset := by
  intro h
  obtain ⟨key, hkey⟩ := exists_key_off_the_way cml
  have hfile := cml.entry_oneFile hkey
  obtain ⟨w, hrun⟩ := cml.reread_stale fileClockOffset hoffset hfile rfl
  have hanswers := h _ _ (fun _ => rfl) (cml.onFile_reread hfile)
  rw [hrun] at hanswers
  exact absurd (hanswers _ (List.mem_cons_of_mem _ List.mem_cons_self)) (by decide)

/-- Look-ups of existing files always return what the files hold exactly when the
file clock is not behind the system clock. -/
theorem coherent_iff : cml.Coherent fileClockOffset ↔ 0 ≤ fileClockOffset := by
  constructor
  · intro h
    by_contra hoffset
    exact cml.not_coherent fileClockOffset (Int.not_le.mp hoffset) h
  · intro hoffset w moments hnone hfiles
    have hfresh : cml.Fresh w := by
      intro key it hit
      rw [hnone key] at hit
      cases hit
    exact (Keeps.runs_remaining (R := fun moments w => cml.Fresh w ∧ ∀ m ∈ moments, cml.OnFile w m)
      (cml.step_keeps fileClockOffset hoffset) moments ⟨hfresh, hfiles⟩).log

/-- With the nanoseconds of a file clock that counts from the year 2174. -/
theorem update_unnoticed :
    ¬ ∀ (cml : Cml) (fileClockOffset : Int), cml.Coherent fileClockOffset := by
  intro h
  exact not_coherent (CmlCopy.new [] "/scripts" "/copy" (-6437664000000000000))
    (-6437664000000000000) (by decide) (h _ _)

end Cml

end FyS.Cache
