import FyS.Cache.Filesystem
import FyS.Library.Trace

/-!
# `CmlKey`, `Cml` and `CmlCopy`

`CmlKey.hh`, `Cml.cpp` and `CmlCopy.cpp`: the path of a key, the look-up of a script
in memory and in the local storage, and the copy that fills the storage.  The files
that are read and written are logged for the statements about them; the source keeps
no log.
-/

namespace FyS.Cache

open FyS.Library.Trace

/-! ## `CmlKey` -/

structure CmlKey where
  path : String
  key : String
deriving DecidableEq, Repr

namespace CmlKey

def slashed (key : String) : String :=
  String.ofList (key.toList.map fun c => if c = ':' then '/' else c)

def new (basePath key : String) : CmlKey := ⟨append basePath (slashed key), key⟩

end CmlKey

/-! ## `Cml` -/

structure InMemoryCached where
  timestamp : Int
  content : String
deriving DecidableEq, Repr

structure World where
  now : Int
  files : Files
  inMemCache : String → Option InMemoryCached

namespace World

/-- The assignment to `_inMemCache[key]`. -/
def remember (key content : String) (w : World) : World :=
  { w with inMemCache := Function.update w.inMemCache key (some ⟨w.now, content⟩) }

def put (place : Location) (entry : Entry) (w : World) : World :=
  { w with files := Function.update w.files place (some entry) }

variable (w : World)

@[simp] theorem now_remember (key content : String) : (w.remember key content).now = w.now := rfl

@[simp] theorem inMemCache_remember (key content other : String) :
    (w.remember key content).inMemCache other =
      if other = key then some ⟨w.now, content⟩ else w.inMemCache other :=
  Function.update_apply _ _ _ _

@[simp] theorem inMemCache_put (place : Location) (entry : Entry) :
    (w.put place entry).inMemCache = w.inMemCache := rfl

@[simp] theorem files_put (place : Location) (entry : Entry) :
    (w.put place entry).files = Function.update w.files place (some entry) := rfl

end World

inductive Access where
  | read (file : Location)
  | write (file : Location)
deriving DecidableEq, Repr

/-- `std::filesystem::filesystem_error`. -/
inductive FilesystemError where
  | notRegular
deriving DecidableEq, Repr

structure Cml where
  cwd : Location
  localPathStorage : String
  createFileInLocalStorage : CmlKey → World → Traced Access FilesystemError World

namespace Cml

/-- The key of a script, as `findInCache` builds it. -/
def cmlKey (cml : Cml) (key : String) : CmlKey := .new cml.localPathStorage key

def file (cml : Cml) (cmlKey : CmlKey) : Location := locate cml.cwd cmlKey.path

def entry (cml : Cml) (cmlKey : CmlKey) (w : World) : Option Entry :=
  w.files.entryAt cml.cwd cmlKey.path

def isInLocalStorage (cml : Cml) (cmlKey : CmlKey) (w : World) : Bool :=
  (cml.entry cmlKey w).isSome

def isInLocalStorageAndUpToDate (cml : Cml) (cmlKey : CmlKey) (timestamp : Int) (w : World) : Bool :=
  match cml.entry cmlKey w with
  | none => false
  | some entry => decide (entry.lastWriteTime ≤ timestamp)

/-- The branch that caches a file of the local storage; `file_size` throws at a directory. -/
def cacheFile (cml : Cml) (key : String) (w : World) :
    Traced Access FilesystemError (String × World) :=
  let cmlKey := cml.cmlKey key
  match (cml.entry cmlKey w).bind (·.content) with
  | none => ⟨[.read (cml.file cmlKey)], .error .notRegular⟩
  | some content => ⟨[.read (cml.file cmlKey)], .ok (content, w.remember key content)⟩

def findLocally (cml : Cml) (key : String) (w : World) :
    Option (Traced Access FilesystemError (String × World)) :=
  let cmlKey := cml.cmlKey key
  let inFilesystem := if cml.isInLocalStorage cmlKey w then some (cml.cacheFile key w) else none
  match w.inMemCache key with
  | none => inFilesystem
  | some it =>
    if cml.isInLocalStorageAndUpToDate cmlKey it.timestamp w then some ⟨[], .ok (it.content, w)⟩
    else inFilesystem

/-- The call with `first` being `false`. -/
def findAgain (cml : Cml) (key : String) (w : World) :
    Traced Access FilesystemError (String × World) :=
  match cml.findLocally key w with
  | some found => found
  | none => ⟨[], .ok ("", w)⟩

def findInCache (cml : Cml) (key : String) (w : World) :
    Traced Access FilesystemError (String × World) :=
  match cml.findLocally key w with
  | some found => found
  | none =>
    let created := cml.createFileInLocalStorage (cml.cmlKey key) w
    match created.result with
    | .error e => ⟨created.log, .error e⟩
    | .ok w => ⟨created.log ++ (cml.findAgain key w).log, (cml.findAgain key w).result⟩

variable {cml : Cml} {key : String} {w : World}

theorem findInCache_of_found {found : Traced Access FilesystemError (String × World)}
    (h : cml.findLocally key w = some found) : cml.findInCache key w = found := by
  rw [findInCache, h]

/-- A script that is cached and whose file was not written since comes from memory. -/
theorem findInCache_hit {entry : Entry} {it : InMemoryCached}
    (hfile : cml.entry (cml.cmlKey key) w = some entry)
    (hit : w.inMemCache key = some it) (hold : entry.lastWriteTime ≤ it.timestamp) :
    cml.findInCache key w = ⟨[], .ok (it.content, w)⟩ := by
  have hupToDate : cml.isInLocalStorageAndUpToDate (cml.cmlKey key) it.timestamp w = true := by
    rw [isInLocalStorageAndUpToDate, hfile]
    exact decide_eq_true hold
  rw [findInCache, findLocally, hit]
  simp only [hupToDate, if_true]

/-- Any other look-up of an existing file reads and caches it. -/
theorem findInCache_miss {content : String} {lastWriteTime : Int}
    (hfile : cml.entry (cml.cmlKey key) w = some ⟨some content, lastWriteTime⟩)
    (hmiss : ∀ it, w.inMemCache key = some it → it.timestamp < lastWriteTime) :
    cml.findInCache key w =
      ⟨[.read (cml.file (cml.cmlKey key))], .ok (content, w.remember key content)⟩ := by
  have hstorage : cml.isInLocalStorage (cml.cmlKey key) w = true := by
    rw [isInLocalStorage, hfile]
    rfl
  have hcache : cml.cacheFile key w =
      ⟨[.read (cml.file (cml.cmlKey key))], .ok (content, w.remember key content)⟩ := by
    unfold cacheFile
    simp only [hfile, Option.bind_some]
  rw [findInCache, findLocally, hstorage, hcache]
  cases hit : w.inMemCache key with
  | none => rfl
  | some it =>
      have hupToDate : cml.isInLocalStorageAndUpToDate (cml.cmlKey key) it.timestamp w = false := by
        rw [isInLocalStorageAndUpToDate, hfile]
        exact decide_eq_false (Int.not_le.mpr (hmiss it hit))
      simp only [hupToDate, if_true, Bool.false_eq_true, if_false]

theorem findAgain_of_found {found : Traced Access FilesystemError (String × World)}
    (h : cml.findLocally key w = some found) : cml.findAgain key w = found := by
  rw [findAgain, h]

theorem findAgain_of_none (h : cml.findLocally key w = none) :
    cml.findAgain key w = ⟨[], .ok ("", w)⟩ := by
  rw [findAgain, h]

theorem findInCache_of_error (h : cml.findLocally key w = none) {e : FilesystemError}
    (hcreate : (cml.createFileInLocalStorage (cml.cmlKey key) w).result = .error e) :
    cml.findInCache key w =
      ⟨(cml.createFileInLocalStorage (cml.cmlKey key) w).log, .error e⟩ := by
  rw [findInCache, h]
  simp only [hcreate]

theorem findInCache_of_created (h : cml.findLocally key w = none) {w₁ : World}
    (hcreate : (cml.createFileInLocalStorage (cml.cmlKey key) w).result = .ok w₁) :
    cml.findInCache key w =
      ⟨(cml.createFileInLocalStorage (cml.cmlKey key) w).log ++ (cml.findAgain key w₁).log,
        (cml.findAgain key w₁).result⟩ := by
  rw [findInCache, h]
  simp only [hcreate]

end Cml

/-! ## `CmlCopy` -/

def CmlCopy.createFileInLocalStorage (cwd : Location) (copyPathStorage : String)
    (fileClockOffset : Int) (cmlKey : CmlKey) (w : World) :
    Traced Access FilesystemError World :=
  let k := CmlKey.new copyPathStorage cmlKey.key
  let fileNow := w.now + fileClockOffset
  let files := w.files.createDirectories (onTheWay cwd cmlKey.path) fileNow
  ⟨[.write (locate cwd cmlKey.path)],
    .ok { w with files := files.copy cwd k.path cmlKey.path fileNow }⟩

def CmlCopy.new (cwd : Location) (pathLocalStorage pathCopy : String) (fileClockOffset : Int) :
    Cml where
  cwd := cwd
  localPathStorage := pathLocalStorage
  createFileInLocalStorage := CmlCopy.createFileInLocalStorage cwd pathCopy fileClockOffset

end FyS.Cache
