import Mathlib.Data.Set.Finite.List
import Mathlib.Data.Set.Finite.Range
import Mathlib.Logic.Function.Basic
import FyS.Library.Paths

/-!
# `std::filesystem`

Paths are their texts, and lead component by component through directories, without
symbolic links.  The functions of the library that the cache calls.
-/

namespace FyS.Cache

open FyS.Library.Paths

/-! ## `std::filesystem::path` -/

abbrev Location := List String

def isAbsolute (path : String) : Bool := decide (path.toList.head? = some '/')

/-- `operator/=`: an absolute path replaces the left side. -/
def append (path other : String) : String :=
  if isAbsolute other then other
  else if path.toList = [] ∨ path.toList.getLast? = some '/' then path ++ other
  else path ++ "/" ++ other

def component (name : List Char) : Component String :=
  if name = [] ∨ name = ['.'] then .here
  else if name = ['.', '.'] then .up
  else .into (String.ofList name)

def components (path : String) : List (Component String) :=
  (path.toList.splitOn '/').map component

def start (cwd : Location) (path : String) : Location := if isAbsolute path then [] else cwd

@[irreducible] def locate (cwd : Location) (path : String) : Location :=
  resolve (start cwd path) (components path)

@[irreducible] def onTheWay (cwd : Location) (path : String) : List Location :=
  (components path).dropLast.inits.map (resolve (start cwd path))

/-! ## Where an appended path leads -/

variable {cwd : Location} {path other : String}

theorem map_splitOn_slash (front back : List Char) :
    ((front ++ '/' :: back).splitOn '/').map component =
      (front.splitOn '/').map component ++ (back.splitOn '/').map component := by
  simp only [List.splitOn_eq_splitOnP]
  rw [List.splitOnP_append_cons front back (by decide), List.map_append]

theorem start_append {path : String} (h : path.toList ≠ []) (cwd : Location) (rest : String) :
    start cwd (path ++ rest) = start cwd path := by
  unfold start isAbsolute
  rw [String.toList_append, List.head?_append_of_ne_nil _ h]

theorem locate_append_of_absolute (h : isAbsolute other = true) :
    locate cwd (append path other) = resolve [] (components other) := by
  rw [append, if_pos h, locate, start, if_pos h]

/-- A relative path is appended to the components, but for an empty last one. -/
theorem append_of_relative (h : isAbsolute other = false) (cwd : Location) (path : String) :
    start cwd (append path other) = start cwd path ∧
      ∃ front, components (append path other) = front ++ components other ∧
        (components path = front ∨ components path = front ++ [.here]) := by
  have hnot : ¬ isAbsolute other = true := by
    rw [h]
    exact Bool.false_ne_true
  rw [append, if_neg hnot]
  by_cases hempty : path.toList = []
  · have hpath : path = "" := String.toList_eq_nil_iff.mp hempty
    rw [if_pos (.inl hempty), hpath, String.empty_append, start, if_neg hnot]
    exact ⟨rfl, [], rfl, .inr rfl⟩
  · by_cases hlast : path.toList.getLast? = some '/'
    · rw [if_pos (.inr hlast), start_append hempty]
      obtain ⟨front, hfront⟩ := List.getLast?_eq_some_iff.mp hlast
      refine ⟨rfl, (front.splitOn '/').map component, ?_, .inr ?_⟩
      · unfold components
        rw [String.toList_append, hfront, List.append_assoc]
        exact map_splitOn_slash front other.toList
      · unfold components
        rw [hfront, map_splitOn_slash]
        rfl
    · have hneither : ¬ (path.toList = [] ∨ path.toList.getLast? = some '/') := by
        rintro (h | h)
        · exact hempty h
        · exact hlast h
      rw [if_neg hneither, String.append_assoc, start_append hempty, ← String.append_assoc]
      refine ⟨rfl, components path, ?_, .inl rfl⟩
      unfold components
      rw [String.toList_append, String.toList_append, List.append_assoc]
      exact map_splitOn_slash path.toList other.toList

theorem locate_append_of_relative (h : isAbsolute other = false) :
    locate cwd (append path other) = resolve (locate cwd path) (components other) := by
  obtain ⟨hstart, front, hwhole, hpath⟩ := append_of_relative h cwd path
  have hfront : resolve (start cwd path) (components path) = resolve (start cwd path) front := by
    rcases hpath with hpath | hpath
    · rw [hpath]
    · rw [hpath, resolve_append]
      rfl
  unfold locate
  rw [hstart, hwhole, resolve_append, hfront]

/-! ## A place that is not on its own way -/

def longName (n : Nat) : String := String.ofList (List.replicate (n + 1) 'a')

theorem toList_longName (n : Nat) : (longName n).toList = 'a' :: List.replicate n 'a' := by
  rw [longName, String.toList_ofList, List.replicate_succ]

theorem isAbsolute_longName (n : Nat) : isAbsolute (longName n) = false := by
  rw [isAbsolute, toList_longName]
  rfl

theorem components_longName (n : Nat) : components (longName n) = [.into (longName n)] := by
  have hslash : '/' ∉ (longName n).toList := by
    rw [longName, String.toList_ofList]
    intro h
    exact absurd (List.eq_of_mem_replicate h) (by decide)
  have hsplit : (longName n).toList.splitOn '/' = [(longName n).toList] :=
    List.splitOn_eq_singleton hslash
  rw [components, hsplit, List.map_singleton, toList_longName]
  simp [component, longName, List.replicate_succ]

theorem exists_longName_notMem (taken : List (Component String)) :
    ∃ n, Component.into (longName n) ∉ taken := by
  have hinjective : Function.Injective fun n => Component.into (longName n) := by
    intro m n h
    have hlists := String.ofList_injective (Component.into.inj h)
    have hlength := congrArg List.length hlists
    simpa using hlength
  by_contra hall
  simp only [not_exists, not_not] at hall
  exact Set.infinite_range_of_injective hinjective
    ((List.finite_toSet taken).subset (Set.range_subset_iff.mpr hall))

theorem locate_notMem_onTheWay {n : Nat}
    (h : Component.into (longName n) ∉ cwd.map .into ++ components path) :
    locate cwd (append path (longName n)) ∉ onTheWay cwd (append path (longName n)) := by
  intro hmem
  have hlast : longName n ∈ locate cwd (append path (longName n)) := by
    rw [locate_append_of_relative (isAbsolute_longName n), components_longName]
    exact List.mem_append_right _ (List.mem_singleton_self _)
  obtain ⟨hstart, front, hwhole, hpath⟩ := append_of_relative (isAbsolute_longName n) cwd path
  unfold onTheWay at hmem
  rw [hwhole, components_longName, List.dropLast_concat, hstart] at hmem
  obtain ⟨passed, hpassed, hresolve⟩ := List.mem_map.mp hmem
  rw [← hresolve] at hlast
  apply h
  rcases mem_resolve hlast with hcwd | hinto
  · apply List.mem_append_left
    unfold start at hcwd
    split_ifs at hcwd
    · cases hcwd
    · exact List.mem_map_of_mem hcwd
  · apply List.mem_append_right
    have hfront : Component.into (longName n) ∈ front :=
      ((List.mem_inits passed front).mp hpassed).subset hinto
    rcases hpath with hpath | hpath
    · rw [hpath]
      exact hfront
    · rw [hpath]
      exact List.mem_append_left _ hfront

/-! ## Files -/

structure Entry where
  content : Option String
  lastWriteTime : Int
deriving DecidableEq, Repr

abbrev Files := Location → Option Entry

namespace Files

def isDirectory (files : Files) (place : Location) : Bool :=
  (files place).any fun entry => entry.content.isNone

def content (files : Files) (place : Location) : Option String := (files place).bind (·.content)

def leads (cwd : Location) (path : String) (files : Files) : Bool :=
  (onTheWay cwd path).all files.isDirectory

/-- What `exists`, `last_write_time` and an `ifstream` see of a path. -/
def entryAt (cwd : Location) (path : String) (files : Files) : Option Entry :=
  if files.leads cwd path then files (locate cwd path) else none

/-- `create_directories`, for the directories on the way, up to a regular file. -/
def createDirectories (directories : List Location) (fileNow : Int) (files : Files) : Files :=
  fun place =>
    match files place with
    | some entry => some entry
    | none =>
      if place ∈ directories.takeWhile fun directory => (files.content directory).isNone then
        some ⟨none, fileNow⟩
      else none

/-- `copy_file`, with what is there already not overwritten. -/
def copyFile (content : String) (target : Location) (fileNow : Int) (files : Files) : Files :=
  if files target = none then Function.update files target (some ⟨some content, fileNow⟩) else files

/-- The copy of a directory without subdirectories, to a place where there is nothing or into
a directory, where what is there stays. -/
def copyDirectory (source target : Location) (fileNow : Int) (files : Files) : Files := fun place =>
  match files place with
  | some entry => some entry
  | none =>
    if place = target then some ⟨none, fileNow⟩
    else if place ≠ [] ∧ place.dropLast = target then
      (files.content (source ++ place.getLast?.toList)).map fun content => ⟨some content, fileNow⟩
    else none

/-- `copy` without options: a regular file to a place or into a directory, and the regular
files of a directory. -/
def copy (cwd : Location) (source target : String) (fileNow : Int) (files : Files) : Files :=
  match files.entryAt cwd source, files.entryAt cwd target with
  | some ⟨some content, _⟩, some ⟨none, _⟩ =>
    match (components source).getLast? with
    | some (.into filename) => files.copyFile content (locate cwd target ++ [filename]) fileNow
    | _ => files
  | some ⟨some content, _⟩, none =>
    if files.leads cwd target then files.copyFile content (locate cwd target) fileNow else files
  | some ⟨none, _⟩, none =>
    if files.leads cwd target then
      files.copyDirectory (locate cwd source) (locate cwd target) fileNow
    else files
  | some ⟨none, _⟩, some ⟨none, _⟩ =>
    files.copyDirectory (locate cwd source) (locate cwd target) fileNow
  | _, _ => files

/-! ### What there is at a path -/

theorem content_of_entryAt {cwd : Location} {path text : String} {lastWriteTime : Int}
    {files : Files} (h : files.entryAt cwd path = some ⟨some text, lastWriteTime⟩) :
    files.content (locate cwd path) = some text := by
  unfold entryAt at h
  split_ifs at h
  rw [content, h]
  rfl

theorem isDirectory_of_content {files : Files} {place : Location}
    (h : (files.content place).isSome) : files.isDirectory place = false := by
  unfold content at h
  unfold isDirectory
  cases hplace : files place with
  | none => rfl
  | some entry =>
      rw [hplace] at h
      have hcontent : entry.content.isSome := h
      simpa using hcontent

theorem entryAt_update {cwd : Location} {path : String} {place : Location} {files : Files}
    {entry : Entry} (hplace : (files.content place).isSome) (hentry : entry.content.isSome) :
    entryAt cwd path (Function.update files place (some entry)) =
      (files.entryAt cwd path).map fun old => if locate cwd path = place then entry else old := by
  have hnew : (content (Function.update files place (some entry)) place).isSome := by
    rw [content, Function.update_self]
    exact hentry
  have hdirectory : isDirectory (Function.update files place (some entry)) = files.isDirectory := by
    ext1 other
    by_cases hother : other = place
    · rw [hother, isDirectory_of_content hplace, isDirectory_of_content hnew]
    · rw [isDirectory, Function.update_of_ne hother, isDirectory]
  unfold entryAt leads
  rw [hdirectory]
  by_cases hleads : (onTheWay cwd path).all files.isDirectory = true
  · rw [if_pos hleads, if_pos hleads]
    split_ifs with hlocate
    · unfold content at hplace
      rw [hlocate, Function.update_self]
      cases hold : files place with
      | none =>
          rw [hold] at hplace
          cases hplace
      | some old => rfl
    · rw [Function.update_of_ne hlocate, Option.map_id']
  · rw [if_neg hleads, if_neg hleads]
    rfl

/-! ### What the functions leave alone -/

variable {files : Files} {place target : Location}

theorem content_createDirectories (directories : List Location) (fileNow : Int) (files : Files)
    (place : Location) :
    (files.createDirectories directories fileNow).content place = files.content place := by
  unfold content createDirectories
  cases files place with
  | some entry => rfl
  | none =>
      simp only
      split_ifs
      · rfl
      · rfl

theorem content_copyFile (hne : place ≠ target) (content : String) (fileNow : Int)
    (files : Files) : (files.copyFile content target fileNow).content place = files.content place := by
  unfold copyFile Files.content
  split_ifs
  · rw [Function.update_of_ne hne]
  · rfl

theorem content_copyDirectory (h : ¬ target <+: place) (source : Location) (fileNow : Int)
    (files : Files) :
    (files.copyDirectory source target fileNow).content place = files.content place := by
  have hne : place ≠ target := by
    rintro rfl
    exact h List.prefix_rfl
  have hinside : ¬ (place ≠ [] ∧ place.dropLast = target) := by
    rintro ⟨-, rfl⟩
    exact h (List.dropLast_prefix place)
  unfold copyDirectory content
  cases hplace : files place with
  | some entry => simp only [hplace]
  | none => simp only [hplace, if_neg hne, if_neg hinside]

/-- A copy changes nothing but what is at its target or in it. -/
theorem content_copy {cwd : Location} {source target : String}
    (h : ¬ locate cwd target <+: place) (fileNow : Int) (files : Files) :
    (files.copy cwd source target fileNow).content place = files.content place := by
  have hne : place ≠ locate cwd target := by
    rintro rfl
    exact h List.prefix_rfl
  unfold copy
  split
  · split
    · apply content_copyFile
      rintro rfl
      exact h (List.prefix_append _ _)
    · rfl
  · split_ifs
    · exact content_copyFile hne _ _ _
    · rfl
  · split_ifs
    · exact content_copyDirectory h _ _ _
    · rfl
  · exact content_copyDirectory h _ _ _
  · rfl

end Files

end FyS.Cache
