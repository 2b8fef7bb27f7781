import FyS.Cache.Cml

/-!
# Confinement of the cache

A key is a path under the local storage.  Which keys lead out of it, whatever the
files and the cache are.
-/

namespace FyS.Cache

open FyS.Library.Paths FyS.Library.Trace

/-! ## Where a key leads -/

/-- The path comes back through as many of the last directories of the root as it
leaves; an absolute path leaves all of them. -/
def StaysBelow (root : Location) (path : String) : Prop :=
  root.drop (root.length -
      if isAbsolute path then root.length else (normalForm (components path)).ups) <+:
    (normalForm (components path)).names

instance (root : Location) (path : String) : Decidable (StaysBelow root path) :=
  inferInstanceAs (Decidable (_ <+: _))

theorem isPrefix_locate_iff {cwd : Location} {storage path : String} :
    locate cwd storage <+: locate cwd (append storage path) ↔
      StaysBelow (locate cwd storage) path := by
  unfold StaysBelow
  cases hpath : isAbsolute path with
  | true =>
      have hnames (n : NormalForm String) : n.reached [] = n.names := by
        rw [NormalForm.reached, List.take_nil, List.nil_append]
      rw [locate_append_of_absolute hpath, resolve_eq, hnames, if_pos rfl, Nat.sub_self,
        List.drop_zero]
  | false =>
      rw [locate_append_of_relative hpath, resolve_eq, NormalForm.isPrefix_reached_iff,
        if_neg Bool.false_ne_true]

/-! ## What a look-up accesses -/

def Access.file : Access → Location
  | .read file => file
  | .write file => file

namespace Cml

variable {cml : Cml} {key : String}

theorem findLocally_spec {w : World} {found : Traced Access FilesystemError (String × World)}
    (h : cml.findLocally key w = some found) :
    (∀ access ∈ found.log, access = .read (cml.file (cml.cmlKey key))) ∧
      ∀ content w', found.result = .ok (content, w') → w'.files = w.files := by
  have hcache : ∀ found, cml.cacheFile key w = found →
      (∀ access ∈ found.log, access = .read (cml.file (cml.cmlKey key))) ∧
        ∀ content w', found.result = .ok (content, w') → w'.files = w.files := by
    intro found hfound
    rw [← hfound]
    unfold cacheFile
    simp only
    split
    · constructor
      · intro access haccess
        exact List.mem_singleton.mp haccess
      · intro content w' hresult
        cases hresult
    · constructor
      · intro access haccess
        exact List.mem_singleton.mp haccess
      · intro content w' hresult
        rw [← (Prod.mk.inj (Except.ok.inj hresult)).2]
        rfl
  unfold findLocally at h
  simp only at h
  cases hit : w.inMemCache key with
  | none =>
      rw [hit] at h
      simp only at h
      split_ifs at h
      exact hcache found (Option.some.inj h)
  | some it =>
      rw [hit] at h
      simp only at h
      split_ifs at h
      · rw [← Option.some.inj h]
        constructor
        · intro access haccess
          cases haccess
        · intro content w' hresult
          rw [(Prod.mk.inj (Except.ok.inj hresult)).2]
      · exact hcache found (Option.some.inj h)

theorem findAgain_spec (w : World) :
    (∀ access ∈ (cml.findAgain key w).log, access = .read (cml.file (cml.cmlKey key))) ∧
      ∀ content w', (cml.findAgain key w).result = .ok (content, w') → w'.files = w.files := by
  cases hlocal : cml.findLocally key w with
  | some found =>
      rw [findAgain_of_found hlocal]
      exact findLocally_spec hlocal
  | none =>
      rw [findAgain_of_none hlocal]
      constructor
      · intro access haccess
        cases haccess
      · intro content w' hresult
        rw [(Prod.mk.inj (Except.ok.inj hresult)).2]

structure CreatesFile (cml : Cml) : Prop where
  accessed : ∀ cmlKey w, ∀ access ∈ (cml.createFileInLocalStorage cmlKey w).log,
    access = .write (cml.file cmlKey)
  changed : ∀ cmlKey w w', (cml.createFileInLocalStorage cmlKey w).result = .ok w' →
    ∀ place, ¬ cml.file cmlKey <+: place → w'.files.content place = w.files.content place

theorem createsFile_cmlCopy (cwd : Location) (pathLocalStorage pathCopy : String)
    (fileClockOffset : Int) :
    (CmlCopy.new cwd pathLocalStorage pathCopy fileClockOffset).CreatesFile := by
  constructor
  · intro cmlKey w access haccess
    exact List.mem_singleton.mp haccess
  · intro cmlKey w w' hresult place hplace
    have hplace : ¬ locate cwd cmlKey.path <+: place := hplace
    unfold CmlCopy.new CmlCopy.createFileInLocalStorage at hresult
    simp only [Except.ok.injEq] at hresult
    rw [← hresult]
    simp only [Files.content_copy hplace, Files.content_createDirectories]

theorem findInCache_accesses (hcml : cml.CreatesFile) (w : World) :
    (∀ access ∈ (cml.findInCache key w).log, access.file = cml.file (cml.cmlKey key)) ∧
      ∀ content w', (cml.findInCache key w).result = .ok (content, w') →
        ∀ place, ¬ cml.file (cml.cmlKey key) <+: place →
          w'.files.content place = w.files.content place := by
  cases hlocal : cml.findLocally key w with
  | some found =>
      obtain ⟨haccess, hfiles⟩ := findLocally_spec hlocal
      rw [findInCache_of_found hlocal]
      constructor
      · intro access hmem
        rw [haccess access hmem, Access.file]
      · intro content w' hresult place _
        rw [hfiles content w' hresult]
  | none =>
      cases hcreate : (cml.createFileInLocalStorage (cml.cmlKey key) w).result with
      | error e =>
          rw [findInCache_of_error hlocal hcreate]
          constructor
          · intro access hmem
            rw [hcml.accessed _ _ access hmem, Access.file]
          · intro content w' hresult
            cases hresult
      | ok w₁ =>
          obtain ⟨haccess, hfiles⟩ := @findAgain_spec cml key w₁
          rw [findInCache_of_created hlocal hcreate]
          constructor
          · intro access hmem
            rcases List.mem_append.mp hmem with hwrite | hread
            · rw [hcml.accessed _ _ access hwrite, Access.file]
            · rw [haccess access hread, Access.file]
          · intro content w' hresult place hplace
            rw [hfiles content w' hresult]
            exact hcml.changed _ _ _ hcreate place hplace

/-! ## Confinement -/

def root (cml : Cml) : Location := locate cml.cwd cml.localPathStorage

/-- In whatever state the look-up runs, it accesses and changes files under the local
storage only. -/
structure Confined (cml : Cml) (key : String) : Prop where
  accessed : ∀ w, ∀ access ∈ (cml.findInCache key w).log, cml.root <+: access.file
  changed : ∀ w content w', (cml.findInCache key w).result = .ok (content, w') →
    ∀ place, w'.files.content place ≠ w.files.content place → cml.root <+: place

def everywhere : World := ⟨0, fun _ => some ⟨none, 0⟩, fun _ => none⟩

theorem log_findInCache_everywhere (cml : Cml) (key : String) :
    (cml.findInCache key everywhere).log = [.read (cml.file (cml.cmlKey key))] := by
  have hleads : Files.leads cml.cwd (cml.cmlKey key).path everywhere.files = true := by
    rw [Files.leads, List.all_eq_true]
    intro directory _
    rfl
  have hentry : cml.entry (cml.cmlKey key) everywhere = some ⟨none, 0⟩ := by
    rw [entry, Files.entryAt, if_pos hleads]
    rfl
  have hstorage : cml.isInLocalStorage (cml.cmlKey key) everywhere = true := by
    rw [isInLocalStorage, hentry]
    rfl
  have hlocal : cml.findLocally key everywhere = some (cml.cacheFile key everywhere) := by
    unfold findLocally
    simp only [hstorage, if_true]
    rfl
  rw [findInCache_of_found hlocal, cacheFile]
  simp only [hentry, Option.bind_some]

/-- A look-up is confined exactly when the file of its key is under the root. -/
theorem confined_iff_isPrefix (hcml : cml.CreatesFile) :
    cml.Confined key ↔ cml.root <+: cml.file (cml.cmlKey key) := by
  constructor
  · intro h
    apply h.accessed everywhere (.read (cml.file (cml.cmlKey key)))
    rw [log_findInCache_everywhere]
    exact List.mem_singleton_self _
  · intro hroot
    constructor
    · intro w access hmem
      rw [(findInCache_accesses hcml w).1 access hmem]
      exact hroot
    · intro w content w' hresult place hchanged
      by_contra hplace
      apply hchanged
      apply (findInCache_accesses hcml w).2 content w' hresult
      intro hfile
      exact hplace (hroot.trans hfile)

/-- A look-up is confined exactly when its key comes back to the root. -/
theorem confined_iff {cwd : Location} {pathLocalStorage pathCopy key : String}
    {fileClockOffset : Int} :
    (CmlCopy.new cwd pathLocalStorage pathCopy fileClockOffset).Confined key ↔
      StaysBelow (locate cwd pathLocalStorage) (CmlKey.slashed key) := by
  rw [confined_iff_isPrefix (createsFile_cmlCopy cwd pathLocalStorage pathCopy fileClockOffset)]
  exact isPrefix_locate_iff

/-- A key of parent directories leaves. -/
theorem parents_escape :
    ¬ ∀ (cwd : Location) (pathLocalStorage pathCopy key : String) (fileClockOffset : Int),
      (CmlCopy.new cwd pathLocalStorage pathCopy fileClockOffset).Confined key := by
  intro h
  have hbelow : locate [] "/var/fys/scripts" <+:
      locate [] (CmlKey.new "/var/fys/scripts" "..:..:secret").path :=
    (confined_iff_isPrefix (createsFile_cmlCopy _ _ _ _)).mp
      (h [] "/var/fys/scripts" "/srv/scripts" "..:..:secret" 0)
  exact absurd hbelow (by decide +kernel)

end Cml

end FyS.Cache
