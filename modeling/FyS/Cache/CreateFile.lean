import Mathlib.Data.List.TakeWhile
import FyS.Cache.Cml
import FyS.Library.LastWrites

/-!
# `createFile`

`Cml.cpp`: a file is written into a directory that is created for it.  The call stops
when `create_directories` reports that there was nothing to create.
-/

namespace FyS.Cache

open FyS.Library.LastWrites FyS.Library.Paths

/-! ## Directories and files -/

/-- What `create_directories` throws. -/
inductive CreateError where
  | invalid_argument
  | not_a_directory
deriving DecidableEq, Repr

/-- Where the `parent_path` of a path leads. -/
def parent (cwd : Location) (path : String) : Location :=
  resolve (start cwd path) (components path).dropLast

/-- The `parent_path` is not empty. -/
def HasParentPath (path : String) : Prop := (components path).dropLast ≠ []

instance (path : String) : Decidable (HasParentPath path) := inferInstanceAs (Decidable (_ ≠ _))

namespace Files

/-- `create_directories` of a `parent_path`: whether that directory is a new one. -/
def createParents (cwd : Location) (path : String) (fileNow : Int) (files : Files) :
    Except CreateError Bool × Files :=
  if HasParentPath path then
    let created := files.createDirectories (onTheWay cwd path) fileNow
    if ∀ directory ∈ onTheWay cwd path, files.content directory = none then
      (.ok (decide (files (parent cwd path) = none)), created)
    else (.error .not_a_directory, created)
  else (.error .invalid_argument, files)

def writeFile (cwd : Location) (file content : String) (fileNow : Int) (files : Files) : Files :=
  if files.leads cwd file = true ∧ files.isDirectory (locate cwd file) = false then
    Function.update files (locate cwd file) (some ⟨some (content ++ "\n"), fileNow⟩)
  else files

def held (cwd : Location) (path : String) (files : Files) : Option String :=
  (files.entryAt cwd path).bind (·.content)

end Files

structure CreateFile where
  pathToFile : String
  content : String
  fileNow : Int
deriving DecidableEq, Repr

namespace Cml

def createFile (cml : Cml) (files : Files) (call : CreateFile) : Except CreateError Unit × Files :=
  match files.createParents cml.cwd call.pathToFile call.fileNow with
  | (.error e, files) => (.error e, files)
  | (.ok false, files) => (.ok (), files)
  | (.ok true, files) =>
    (.ok (), files.writeFile cml.cwd call.pathToFile call.content call.fileNow)

def createFiles (cml : Cml) (calls : List CreateFile) (files : Files) : Files :=
  calls.foldl (fun files call => (cml.createFile files call).2) files

end Cml

/-! ## The way to a file -/

section Way

variable {cwd : Location} {path : String} {files : Files} {place : Location} {fileNow : Int}

theorem parent_mem_onTheWay (cwd : Location) (path : String) : parent cwd path ∈ onTheWay cwd path := by
  unfold onTheWay parent
  exact List.mem_map_of_mem ((List.mem_inits _ _).mpr List.prefix_rfl)

namespace Files

theorem leads_iff :
    files.leads cwd path = true ↔ ∀ directory ∈ onTheWay cwd path, files.isDirectory directory = true := by
  unfold leads
  rw [List.all_eq_true]

theorem held_eq_some_iff {text : String} :
    files.held cwd path = some text ↔
      files.leads cwd path = true ∧ files.content (locate cwd path) = some text := by
  unfold held entryAt content
  by_cases hleads : files.leads cwd path = true
  · rw [if_pos hleads]
    exact (and_iff_right hleads).symm
  · rw [if_neg hleads]
    constructor
    · intro h
      cases h
    · intro h
      exact absurd h.1 hleads

theorem content_of_isDirectory (h : files.isDirectory place = true) : files.content place = none := by
  by_contra hcontent
  rw [isDirectory_of_content (Option.isSome_iff_ne_none.mpr hcontent)] at h
  cases h

theorem content_eq_none_iff :
    files.content place = none ↔ files.isDirectory place = true ∨ files place = none := by
  unfold content isDirectory
  cases files place with
  | none => simp
  | some entry => simp

theorem isDirectory_createDirectories {directories : List Location}
    (h : ∀ directory ∈ directories, files.content directory = none) (fileNow : Int)
    (place : Location) :
    (files.createDirectories directories fileNow).isDirectory place = true ↔
      files.isDirectory place = true ∨ files place = none ∧ place ∈ directories := by
  have htake : (directories.takeWhile fun directory => (files.content directory).isNone) =
      directories := by
    rw [List.takeWhile_eq_self_iff]
    intro directory hdirectory
    rw [h directory hdirectory]
    rfl
  unfold isDirectory createDirectories
  rw [htake]
  cases files place with
  | some entry => simp
  | none =>
      by_cases hplace : place ∈ directories
      · simp [hplace]
      · simp [hplace]

theorem isDirectory_createDirectories_of (h : files.isDirectory place = true)
    (directories : List Location) (fileNow : Int) :
    (files.createDirectories directories fileNow).isDirectory place = true := by
  unfold isDirectory createDirectories at *
  cases hplace : files place with
  | none =>
      rw [hplace] at h
      cases h
  | some entry =>
      rw [hplace] at h
      exact h

theorem held_createDirectories {text : String} (h : files.held cwd path = some text)
    (directories : List Location) (fileNow : Int) :
    (files.createDirectories directories fileNow).held cwd path = some text := by
  rw [held_eq_some_iff, leads_iff] at h ⊢
  rw [content_createDirectories]
  exact ⟨fun directory hmem => isDirectory_createDirectories_of (h.1 directory hmem) _ _, h.2⟩

theorem held_writeFile_of_ne {file text : String} (h : files.held cwd path = some text)
    (hne : locate cwd file ≠ locate cwd path) (content : String) (fileNow : Int) :
    (files.writeFile cwd file content fileNow).held cwd path = some text := by
  unfold writeFile
  split_ifs with hopens
  · rw [held_eq_some_iff, leads_iff] at h ⊢
    obtain ⟨hway, htext⟩ := h
    constructor
    · intro directory hmem
      have hother : directory ≠ locate cwd file := by
        rintro rfl
        have hdirectory := hway _ hmem
        rw [hopens.2] at hdirectory
        cases hdirectory
      rw [isDirectory, Function.update_of_ne hother]
      exact hway directory hmem
    · rw [Files.content, Function.update_of_ne (Ne.symm hne)]
      exact htext
  · exact h

theorem held_writeFile_iff {file content : String} (hleads : files.leads cwd file = true) :
    (files.writeFile cwd file content fileNow).held cwd file = some (content ++ "\n") ↔
      files.isDirectory (locate cwd file) = false := by
  unfold writeFile
  cases hdirectory : files.isDirectory (locate cwd file) with
  | true =>
      rw [if_neg (fun h => Bool.noConfusion h.2), held_eq_some_iff,
        content_of_isDirectory hdirectory]
      simp
  | false =>
      rw [if_pos ⟨hleads, rfl⟩, held_eq_some_iff, leads_iff]
      refine iff_of_true ⟨?_, ?_⟩ rfl
      · intro directory hmem
        have hway := leads_iff.mp hleads directory hmem
        have hother : directory ≠ locate cwd file := by
          rintro rfl
          rw [hdirectory] at hway
          cases hway
        rw [isDirectory, Function.update_of_ne hother]
        exact hway
      · rw [Files.content, Function.update_self]
        rfl

end Files

end Way

/-! ## One call -/

/-- The call leaves its content at its path: the way there is passable, and the path
holds the content already, or leads into a directory that does not exist. -/
structure Takes (cwd : Location) (call : CreateFile) (files : Files) : Prop where
  passable : ∀ directory ∈ onTheWay cwd call.pathToFile, files.isDirectory directory = true ∨
    HasParentPath call.pathToFile ∧ files directory = none
  stored : files.content (locate cwd call.pathToFile) = some (call.content ++ "\n") ∨
    files (parent cwd call.pathToFile) = none ∧
      files.isDirectory (locate cwd call.pathToFile) = false ∧
        locate cwd call.pathToFile ∉ onTheWay cwd call.pathToFile

namespace Cml

variable {cml : Cml} {files : Files} {call : CreateFile}

theorem createFile_cases (cml : Cml) (files : Files) (call : CreateFile) :
    let way := onTheWay cml.cwd call.pathToFile
    let created := files.createDirectories way call.fileNow
    (¬ HasParentPath call.pathToFile ∧ (cml.createFile files call).2 = files) ∨
      (HasParentPath call.pathToFile ∧
        ((∃ directory ∈ way, files.content directory ≠ none) ∨
          files (parent cml.cwd call.pathToFile) ≠ none) ∧
        (cml.createFile files call).2 = created) ∨
      (HasParentPath call.pathToFile ∧ (∀ directory ∈ way, files.content directory = none) ∧
        files (parent cml.cwd call.pathToFile) = none ∧
        (cml.createFile files call).2 =
          created.writeFile cml.cwd call.pathToFile call.content call.fileNow) := by
  intro way created
  unfold createFile Files.createParents
  by_cases hpath : HasParentPath call.pathToFile
  · rw [if_pos hpath]
    by_cases hway : ∀ directory ∈ way, files.content directory = none
    · by_cases hparent : files (parent cml.cwd call.pathToFile) = none
      · right; right
        refine ⟨hpath, hway, hparent, ?_⟩
        simp only [way, hparent, decide_true] at hway ⊢
        rw [if_pos hway]
      · right; left
        refine ⟨hpath, .inr hparent, ?_⟩
        simp only [way, hparent, decide_false] at hway ⊢
        rw [if_pos hway]
    · right; left
      refine ⟨hpath, .inl ?_, ?_⟩
      · simpa only [not_forall, exists_prop] using hway
      · simp only [way] at hway ⊢
        rw [if_neg hway]
  · left
    rw [if_neg hpath]
    exact ⟨hpath, rfl⟩

theorem held_createFile_of_ne {path text : String} (h : files.held cml.cwd path = some text)
    (hne : locate cml.cwd call.pathToFile ≠ locate cml.cwd path) :
    (cml.createFile files call).2.held cml.cwd path = some text := by
  rcases createFile_cases cml files call with ⟨-, heq⟩ | ⟨-, -, heq⟩ | ⟨-, -, -, heq⟩
  · rw [heq]
    exact h
  · rw [heq]
    exact Files.held_createDirectories h _ _
  · rw [heq]
    exact Files.held_writeFile_of_ne (Files.held_createDirectories h _ _) hne _ _

/-- A way is passable once what is missing of it can be created. -/
theorem passable_iff_of_hasParentPath (hpath : HasParentPath call.pathToFile) :
    (∀ directory ∈ onTheWay cml.cwd call.pathToFile, files.isDirectory directory = true ∨
        HasParentPath call.pathToFile ∧ files directory = none) ↔
      ∀ directory ∈ onTheWay cml.cwd call.pathToFile, files.content directory = none := by
  simp only [hpath, true_and, Files.content_eq_none_iff]

theorem leads_createDirectories
    (h : ∀ directory ∈ onTheWay cml.cwd call.pathToFile, files.content directory = none)
    (fileNow : Int) :
    (files.createDirectories (onTheWay cml.cwd call.pathToFile) fileNow).leads cml.cwd
      call.pathToFile = true := by
  rw [Files.leads_iff]
  intro directory hdirectory
  rw [Files.isDirectory_createDirectories h]
  rcases Files.content_eq_none_iff.mp (h directory hdirectory) with hold | hnone
  · exact .inl hold
  · exact .inr ⟨hnone, hdirectory⟩

/-- What a call is to write is read from its path exactly when the call takes. -/
theorem held_createFile_iff :
    (cml.createFile files call).2.held cml.cwd call.pathToFile = some (call.content ++ "\n") ↔
      Takes cml.cwd call files := by
  have hparentMem := parent_mem_onTheWay cml.cwd call.pathToFile
  rcases createFile_cases cml files call with ⟨hpath, heq⟩ | ⟨hpath, hstops, heq⟩ |
    ⟨hpath, hway, hparent, heq⟩
  · rw [heq, Files.held_eq_some_iff, Files.leads_iff]
    have hnotPassed (directory : Location) : ¬ (HasParentPath call.pathToFile ∧
        files directory = none) := fun h => hpath h.1
    constructor
    · rintro ⟨hleads, htext⟩
      exact ⟨fun directory hmem => .inl (hleads directory hmem), .inl htext⟩
    · rintro ⟨hpassable, hstored⟩
      have hleads : ∀ directory ∈ onTheWay cml.cwd call.pathToFile,
          files.isDirectory directory = true :=
        fun directory hmem => (hpassable directory hmem).resolve_right (hnotPassed directory)
      refine ⟨hleads, hstored.resolve_right ?_⟩
      rintro ⟨hnone, -⟩
      have hdirectory := hleads _ hparentMem
      rw [Files.isDirectory, hnone] at hdirectory
      cases hdirectory
  · rw [heq, Files.held_eq_some_iff, Files.content_createDirectories]
    constructor
    · rintro ⟨hleads, htext⟩
      refine ⟨(passable_iff_of_hasParentPath hpath).mpr ?_, .inl htext⟩
      intro directory hmem
      have hdirectory := Files.leads_iff.mp hleads directory hmem
      rw [← Files.content_createDirectories (onTheWay cml.cwd call.pathToFile) call.fileNow]
      exact Files.content_of_isDirectory hdirectory
    · rintro ⟨hpassable, hstored⟩
      have hclear := (passable_iff_of_hasParentPath hpath).mp hpassable
      refine ⟨leads_createDirectories hclear _, hstored.resolve_right ?_⟩
      rintro ⟨hnone, -⟩
      rcases hstops with ⟨directory, hmem, hregular⟩ | hthere
      · exact hregular (hclear directory hmem)
      · exact hthere hnone
  · rw [heq, Files.held_writeFile_iff (leads_createDirectories hway _)]
    have hplace : (files.createDirectories (onTheWay cml.cwd call.pathToFile)
        call.fileNow).isDirectory (locate cml.cwd call.pathToFile) = false ↔
          files.isDirectory (locate cml.cwd call.pathToFile) = false ∧
            ¬ (files (locate cml.cwd call.pathToFile) = none ∧
              locate cml.cwd call.pathToFile ∈ onTheWay cml.cwd call.pathToFile) := by
      rw [← Bool.not_eq_true, Files.isDirectory_createDirectories hway, not_or, Bool.not_eq_true]
    rw [hplace]
    constructor
    · rintro ⟨hdirectory, hnew⟩
      refine ⟨(passable_iff_of_hasParentPath hpath).mpr hway, ?_⟩
      by_cases hmem : locate cml.cwd call.pathToFile ∈ onTheWay cml.cwd call.pathToFile
      · rcases Files.content_eq_none_iff.mp (hway _ hmem) with hold | hnone
        · rw [hold] at hdirectory
          cases hdirectory
        · exact absurd ⟨hnone, hmem⟩ hnew
      · exact .inr ⟨hparent, hdirectory, hmem⟩
    · rintro ⟨-, htext | ⟨-, hdirectory, hmem⟩⟩
      · have hsome : (files.content (locate cml.cwd call.pathToFile)).isSome := by
          rw [htext]
          rfl
        refine ⟨Files.isDirectory_of_content hsome, ?_⟩
        rintro ⟨hnone, -⟩
        rw [Files.content, hnone] at hsome
        cases hsome
      · exact ⟨hdirectory, fun hnew => hmem hnew.2⟩

/-! ## All calls -/

/-- The key leads to the place of a path, through directories on the way there. -/
structure Corresponds (cml : Cml) (key path : String) : Prop where
  place : cml.file (cml.cmlKey key) = locate cml.cwd path
  way : onTheWay cml.cwd (cml.cmlKey key).path ⊆ onTheWay cml.cwd path

/-- The text is read from the path, and returned for the keys of it by a fresh cache. -/
def Stored (cml : Cml) (path text : String) (files : Files) : Prop :=
  files.held cml.cwd path = some text ∧ ∀ key now, cml.Corresponds key path →
    ∃ w, (cml.findInCache key ⟨now, files, fun _ => none⟩).result = .ok (text, w)

theorem stored_iff_held {path text : String} :
    cml.Stored path text files ↔ files.held cml.cwd path = some text := by
  refine ⟨And.left, ?_⟩
  intro hheld
  refine ⟨hheld, ?_⟩
  intro key now hkey
  obtain ⟨hleads, htext⟩ := Files.held_eq_some_iff.mp hheld
  have hkeyLeads : files.leads cml.cwd (cml.cmlKey key).path = true := by
    rw [Files.leads_iff] at hleads ⊢
    exact fun directory hmem => hleads directory (hkey.way hmem)
  have hkeyText : files.content (locate cml.cwd (cml.cmlKey key).path) = some text := by
    rw [← htext]
    exact congrArg files.content hkey.place
  obtain ⟨⟨content, lastWriteTime⟩, hentry, hcontent⟩ := Option.bind_eq_some_iff.mp hkeyText
  simp only at hcontent
  have hfile : cml.entry (cml.cmlKey key) ⟨now, files, fun _ => none⟩ =
      some ⟨some text, lastWriteTime⟩ := by
    rw [entry, Files.entryAt, if_pos hkeyLeads, ← hcontent]
    exact hentry
  rw [findInCache_miss hfile (fun it hit => by cases hit)]
  exact ⟨_, rfl⟩

/-- Each file that was written holds the content of the last call for it. -/
def HoldsContents (cml : Cml) (calls : List CreateFile) (files : Files) : Prop :=
  HoldsLast (fun call => locate cml.cwd call.pathToFile)
    (fun call files => cml.Stored call.pathToFile (call.content ++ "\n") files) calls files

/-- All along a sequence of calls the files hold their contents, exactly when each call
finds no parent directory, or the content that it brings. -/
theorem createFiles_hold_iff (cml : Cml) (calls : List CreateFile) (files : Files) :
    (∀ before after, calls = before ++ after →
        cml.HoldsContents before (cml.createFiles before files)) ↔
      ∀ before call after, calls = before ++ call :: after →
        Takes cml.cwd call (cml.createFiles before files) := by
  have hframe (call other : CreateFile) (files : Files)
      (hother : cml.Stored other.pathToFile (other.content ++ "\n") files)
      (hne : locate cml.cwd call.pathToFile ≠ locate cml.cwd other.pathToFile) :
      cml.Stored other.pathToFile (other.content ++ "\n") (cml.createFile files call).2 :=
    stored_iff_held.mpr (held_createFile_of_ne (stored_iff_held.mp hother) hne)
  have hruns := runs_holdLast_iff hframe calls files
  simp only [stored_iff_held, held_createFile_iff] at hruns
  exact hruns

def emptyStorage : Files := fun place =>
  if place = [] ∨ place = ["storage"] then some ⟨none, 0⟩ else none

/-- The second file in a directory is not written. -/
theorem second_file_missing :
    ¬ ∀ (cml : Cml) (calls : List CreateFile) (files : Files),
      cml.HoldsContents calls (cml.createFiles calls files) := by
  intro h
  have hholds := h ⟨[], "/storage", fun _ w => ⟨[], .ok w⟩⟩
    ([⟨"/storage/arena/Slime.chai", "class Slime", 1⟩] ++ [⟨"/storage/arena/Ogre.chai", "class Ogre", 2⟩])
    emptyStorage
  have hmissing : (createFiles ⟨[], "/storage", fun _ w => ⟨[], .ok w⟩⟩
      ([⟨"/storage/arena/Slime.chai", "class Slime", 1⟩] ++
        [⟨"/storage/arena/Ogre.chai", "class Ogre", 2⟩]) emptyStorage).held []
      "/storage/arena/Ogre.chai" = none := by decide +kernel
  exact absurd ((stored_iff_held.mp hholds.last).symm.trans hmissing) (by decide)

end Cml

end FyS.Cache
