import FyS.Arena.EncounterContext
import FyS.Library.Fuel
import FyS.Library.Json

/-!
# The configuration of an arena server

`ArenaServerContext.cpp`: the settings stand in one file, the encounters in a second one that
the first one names.  What reads documents is a parameter; a null that `operator[]` leaves in
a document is not read again.
-/

namespace FyS.Arena

open FyS.Library

inductive ConfigurationFault (φ : Type) where
  | json (fault : φ)
  | parse_error
  | encounterContextInvalid
deriving DecidableEq, Repr

structure ArenaSettings where
  code : String
  playerConnectionPort : UInt32
  pathSourceCache : String
  pathLocalStorageCache : String
  dbHost : String
  dbPort : UInt32
deriving DecidableEq, Repr

structure ArenaServerContext extends ArenaSettings where
  encounterContext : EncounterContext

namespace ArenaServerContext

variable (J : JsonReader)

def parseSettings (configContent : J.Json) : Except J.Fault (ArenaSettings × String) := do
  let arena ← J.constMember "Arena" configContent
  let code ← J.constMember "code" arena >>= J.getString
  let playerConnectionPort ← J.constMember "player_connection_port" arena >>= J.getUint
  let pathSourceCache ← J.constMember "script_cache_source" arena >>= J.getString
  let pathLocalStorageCache ← J.constMember "script_storage_cache" arena >>= J.getString
  let dbHost ← J.constMember "db_hostname" arena >>= J.getString
  let dbPort ← J.constMember "db_port" arena >>= J.getUint
  let zoneConfiguration ← J.constMember "zone_configuration" arena >>= J.getString
  .ok (⟨code, playerConnectionPort, pathSourceCache, pathLocalStorageCache, dbHost, dbPort⟩,
    zoneConfiguration)

/-- `std::make_pair` of the first two elements. -/
def parsePair (json : J.Json) : Except J.Fault (UInt32 × UInt32) := do
  let first ← J.element 0 json >>= J.getUint
  let second ← J.element 1 json >>= J.getUint
  .ok (first, second)

def parseContender (contender : J.Json) : Except J.Fault (String × EncounterDesc) := do
  let key ← J.member "key" contender >>= J.getString
  let maxEncountering ← J.uintOr "max_encountering" 99 contender
  let chance ← J.member "chance" contender
  let easy ← J.member "easy" chance >>= J.getUint
  let medium ← J.member "medium" chance >>= J.getUint
  let hard ← J.member "hard" chance >>= J.getUint
  let zone ← J.member "zone" contender >>= J.getString
  .ok (zone, ⟨key, maxEncountering, #v[easy, medium, hard]⟩)

/-- `_contendersPerZone[zone].emplace_back(desc)`. -/
def emplaceBack (contendersPerZone : AList fun _ : String => List EncounterDesc)
    (contender : String × EncounterDesc) : AList fun _ : String => List EncounterDesc :=
  contendersPerZone.insert contender.1
    ((contendersPerZone.lookup contender.1).getD [] ++ [contender.2])

def parseEncounters (jsonConfig : J.Json) : Except J.Fault EncounterContext := do
  let encounter ← J.member "encounter" jsonConfig
  let range ← J.member "range" encounter
  let zone ← J.member "zone" range >>= J.getString
  let easy ← J.member "easy" range >>= parsePair J
  let medium ← J.member "medium" range >>= parsePair J
  let hard ← J.member "hard" range >>= parsePair J
  let contenders ← J.member "contenders" encounter
  let contendersPerZone ← (J.elements contenders).foldlM (fun contendersPerZone contender => do
    let contender ← parseContender J contender
    .ok (emplaceBack contendersPerZone contender)) ∅
  .ok ⟨AList.singleton zone #v[easy, medium, hard], contendersPerZone⟩

def parseArenaConfigFile (files : String → Option J.Json) (configContent : J.Json) :
    Except (ConfigurationFault J.Fault) ArenaServerContext :=
  match parseSettings J configContent with
  | .error fault => .error (.json fault)
  | .ok (settings, zoneConfiguration) =>
    match files zoneConfiguration with
    | none => .error .parse_error
    | some jsonConfig =>
      match parseEncounters J jsonConfig with
      | .error fault => .error (.json fault)
      | .ok encounterContext =>
        if !encounterContext.validateEncounterContext then .error .encounterContextInvalid
        else .ok ⟨settings, encounterContext⟩

end ArenaServerContext

/-! ## What a file says -/

/-- What there is to say about encounters: the ranges of one zone, and contenders each with the
zone in which he is met. -/
structure ZoneConfiguration where
  zone : String
  ranges : Vector (UInt32 × UInt32) 3
  contenders : List (String × EncounterDesc)

namespace ZoneConfiguration

def contendersOf (c : ZoneConfiguration) (zone : String) : List EncounterDesc :=
  (c.contenders.filter fun contender => contender.1 = zone).map Prod.snd

def context (c : ZoneConfiguration) : EncounterContext :=
  ⟨AList.singleton c.zone c.ranges, c.contenders.foldl ArenaServerContext.emplaceBack ∅⟩

variable (W : JsonWriter)

def pairDocument (range : UInt32 × UInt32) : W.Json := W.array [W.uint range.1, W.uint range.2]

def chanceDocument (chance : Vector UInt32 3) : W.Json :=
  W.object [("easy", W.uint chance[0]), ("medium", W.uint chance[1]), ("hard", W.uint chance[2])]

def contenderDocument (contender : String × EncounterDesc) : W.Json :=
  W.object [("key", W.string contender.2.key),
    ("max_encountering", W.uint contender.2.maxEncountering),
    ("chance", chanceDocument W contender.2.chance), ("zone", W.string contender.1)]

def rangeDocument (c : ZoneConfiguration) : W.Json :=
  W.object [("zone", W.string c.zone), ("easy", pairDocument W c.ranges[0]),
    ("medium", pairDocument W c.ranges[1]), ("hard", pairDocument W c.ranges[2])]

def encounterDocument (c : ZoneConfiguration) : W.Json :=
  W.object [("range", rangeDocument W c),
    ("contenders", W.array (c.contenders.map (contenderDocument W)))]

def document (c : ZoneConfiguration) : W.Json :=
  W.object [("encounter", encounterDocument W c)]

end ZoneConfiguration

def ArenaSettings.arenaDocument (W : JsonWriter) (settings : ArenaSettings)
    (zoneConfiguration : String) : W.Json :=
  W.object [("code", W.string settings.code), ("db_hostname", W.string settings.dbHost),
    ("db_port", W.uint settings.dbPort),
    ("player_connection_port", W.uint settings.playerConnectionPort),
    ("script_cache_source", W.string settings.pathSourceCache),
    ("script_storage_cache", W.string settings.pathLocalStorageCache),
    ("zone_configuration", W.string zoneConfiguration)]

def ArenaSettings.document (W : JsonWriter) (settings : ArenaSettings)
    (zoneConfiguration : String) : W.Json :=
  W.object [("Arena", settings.arenaDocument W zoneConfiguration)]

/-! ## Reading it back -/

namespace ArenaServerContext

open ZoneConfiguration

theorem exists_of_parseEncounters {J : JsonReader} {json : J.Json} {ctx : EncounterContext}
    (h : parseEncounters J json = .ok ctx) : ∃ c : ZoneConfiguration, c.context = ctx := by
  simp only [parseEncounters, Fuel.bind_eq_ok, foldlM_read_eq_ok, Except.ok.injEq] at h
  obtain ⟨-, -, -, -, zone, -, easy, -, medium, -, hard, -, -, -, -, ⟨contenders, -, rfl⟩, rfl⟩ := h
  exact ⟨⟨zone, #v[easy, medium, hard], contenders⟩, rfl⟩

variable (W : JsonWriter)

theorem parseSettings_document (settings : ArenaSettings) (zoneConfiguration : String) :
    parseSettings W.toJsonReader (settings.document W zoneConfiguration) =
      .ok (settings, zoneConfiguration) := by
  simp [parseSettings, ArenaSettings.document, ArenaSettings.arenaDocument, W.constMember_lookup,
    List.lookup_cons]

@[simp] theorem parsePair_document (range : UInt32 × UInt32) :
    parsePair W.toJsonReader (pairDocument W range) = .ok range := by
  have hfirst : W.element 0 (pairDocument W range) = .ok (W.uint range.1) := W.element_array rfl
  have hsecond : W.element 1 (pairDocument W range) = .ok (W.uint range.2) := W.element_array rfl
  simp [parsePair, hfirst, hsecond]

theorem vector_eta {α : Type} (v : Vector α 3) : #v[v[0], v[1], v[2]] = v := by
  ext i hi
  match i, hi with
  | 0, _ => rfl
  | 1, _ => rfl
  | 2, _ => rfl

theorem parseContender_document (contender : String × EncounterDesc) :
    parseContender W.toJsonReader (contenderDocument W contender) = .ok contender := by
  obtain ⟨zone, key, maxEncountering, chance⟩ := contender
  have hmax : W.uintOr "max_encountering" 99
      (contenderDocument W (zone, ⟨key, maxEncountering, chance⟩)) = .ok maxEncountering :=
    W.uintOr_object 99 (by simp) (List.mem_cons_of_mem _ List.mem_cons_self)
  unfold parseContender
  rw [hmax]
  simp [contenderDocument, chanceDocument, W.member_lookup, List.lookup_cons, vector_eta]

theorem parseEncounters_document (c : ZoneConfiguration) :
    parseEncounters W.toJsonReader (c.document W) = .ok c.context := by
  have hloop : (c.contenders.map (contenderDocument W)).foldlM (fun contendersPerZone contender => do
      let contender ← parseContender W.toJsonReader contender
      .ok (emplaceBack contendersPerZone contender)) ∅ =
        .ok (c.contenders.foldl emplaceBack ∅) := by
    refine foldlM_read_eq_ok.mpr ⟨c.contenders, ?_, rfl⟩
    rw [List.forall₂_map_left_iff, List.forall₂_same]
    intro contender _
    exact parseContender_document W contender
  simp [parseEncounters, document, encounterDocument, rangeDocument, W.member_lookup,
    List.lookup_cons, hloop, context, vector_eta]

end ArenaServerContext

/-! ## What the context knows -/

namespace ZoneConfiguration

variable (c : ZoneConfiguration)

theorem lookup_foldl_emplaceBack (contenders : List (String × EncounterDesc))
    (table : AList fun _ : String => List EncounterDesc) (zone : String) :
    ((contenders.foldl ArenaServerContext.emplaceBack table).lookup zone).getD [] =
        (table.lookup zone).getD [] ++
          (contenders.filter fun contender => contender.1 = zone).map Prod.snd ∧
      (zone ∈ contenders.foldl ArenaServerContext.emplaceBack table ↔
        zone ∈ table ∨ zone ∈ contenders.map Prod.fst) := by
  induction contenders generalizing table with
  | nil => simp
  | cons contender contenders ih =>
      obtain ⟨hlookup, hmem⟩ := ih (ArenaServerContext.emplaceBack table contender)
      rw [List.foldl_cons, hlookup, hmem]
      unfold ArenaServerContext.emplaceBack
      by_cases hzone : contender.1 = zone
      · subst hzone
        simp
      · have hother : zone ≠ contender.1 := Ne.symm hzone
        simp [hzone, hother, AList.lookup_insert_ne hother, AList.mem_insert]

theorem zoneRegistered_context (zone : String) :
    c.context.zoneRegistered zone = true ↔ zone ∈ c.contenders.map Prod.fst := by
  rw [EncounterContext.zoneRegistered, decide_eq_true_iff, context,
    (lookup_foldl_emplaceBack c.contenders ∅ zone).2]
  simp

theorem lookup_contenders (zone : String) :
    c.context.contendersPerZone.lookup zone =
      if zone ∈ c.contenders.map Prod.fst then some (c.contendersOf zone) else none := by
  have hget : (c.context.contendersPerZone.lookup zone).getD [] = c.contendersOf zone :=
    (lookup_foldl_emplaceBack c.contenders ∅ zone).1
  have hmem := zoneRegistered_context c zone
  rw [EncounterContext.zoneRegistered, decide_eq_true_iff, ← AList.lookup_isSome] at hmem
  split_ifs with hzone
  · obtain ⟨contenders, hcontenders⟩ := Option.isSome_iff_exists.mp (hmem.mpr hzone)
    rw [← hget, hcontenders, Option.getD_some]
  · rw [← Option.not_isSome_iff_eq_none, hmem]
    exact hzone

theorem lookup_range (zone : String) :
    c.context.rangeEncounterPerZone.lookup zone =
      if zone = c.zone then some c.ranges else none := by
  rw [context]
  split_ifs with hzone
  · rw [hzone]
    exact AList.lookup_insert ∅
  · exact (AList.lookup_insert_ne hzone).trans (AList.lookup_empty zone)

structure Acceptable : Prop where
  ranges : ∀ i : Fin 3, (c.ranges.get i).1 ≠ 0
  chances : ∀ zone ∈ c.contenders.map Prod.fst, ∀ i : Fin 3,
    (EncounterContext.chances (c.contendersOf zone) i).sum % 4294967296 = 100

theorem validateEncounterContext_context :
    c.context.validateEncounterContext = true ↔ c.Acceptable := by
  have hranges : (c.context.rangeEncounterPerZone.entries.all fun zone =>
      (List.finRange 3).all fun i => !decide (zone.2[i].1 ≤ 0)) = true ↔
        ∀ i : Fin 3, (c.ranges.get i).1 ≠ 0 := by
    have hentries : c.context.rangeEncounterPerZone.entries = [⟨c.zone, c.ranges⟩] := rfl
    simp [hentries, List.all_eq_true, Vector.get]
  have hchances : (c.context.contendersPerZone.entries.all fun zone =>
      (List.finRange 3).all fun i => EncounterContext.chanceTotal zone.2 i == 100) = true ↔
        ∀ zone ∈ c.contenders.map Prod.fst, ∀ i : Fin 3,
          (EncounterContext.chances (c.contendersOf zone) i).sum % 4294967296 = 100 := by
    have htotal (contenders : List EncounterDesc) (i : Fin 3) :
        (EncounterContext.chanceTotal contenders i == 100) = true ↔
          (EncounterContext.chances contenders i).sum % 4294967296 = 100 := by
      rw [beq_iff_eq, ← UInt32.toNat_inj, EncounterContext.chanceTotal_toNat]
      rfl
    simp only [List.all_eq_true, List.mem_finRange, forall_const, htotal]
    constructor
    · intro h zone hzone
      refine h ⟨zone, c.contendersOf zone⟩ (AList.mem_lookup_iff.mp ?_)
      rw [Option.mem_def, lookup_contenders, if_pos hzone]
    · rintro h ⟨zone, contenders⟩ hentry
      have hlookup := AList.mem_lookup_iff.mpr hentry
      rw [Option.mem_def, lookup_contenders] at hlookup
      split_ifs at hlookup with hzone
      rw [← Option.some.inj hlookup]
      exact h zone hzone
  rw [EncounterContext.validateEncounterContext, Bool.and_eq_true, hranges, hchances]
  constructor
  · rintro ⟨hranges, hchances⟩
    exact ⟨hranges, hchances⟩
  · intro h
    exact ⟨h.ranges, h.chances⟩

end ZoneConfiguration

/-! ## Servers that start -/

namespace ArenaServerContext

section

variable {W : JsonWriter} {files : String → Option W.Json} {zoneConfiguration : String}
  {c : ZoneConfiguration}

theorem parseArenaConfigFile_document (hfile : files zoneConfiguration = some (c.document W))
    (settings : ArenaSettings) :
    parseArenaConfigFile W.toJsonReader files (settings.document W zoneConfiguration) =
      if !c.context.validateEncounterContext then .error .encounterContextInvalid
      else .ok ⟨settings, c.context⟩ := by
  simp only [parseArenaConfigFile, parseSettings_document, hfile, parseEncounters_document]

/-- What stands in the files is what the server knows, if it is acceptable, and the server does
not start otherwise. -/
theorem configuration_read_back (hfile : files zoneConfiguration = some (c.document W))
    (settings : ArenaSettings) :
    (c.Acceptable →
        parseArenaConfigFile W.toJsonReader files (settings.document W zoneConfiguration) =
          .ok ⟨settings, c.context⟩) ∧
      (¬ c.Acceptable →
        parseArenaConfigFile W.toJsonReader files (settings.document W zoneConfiguration) =
          .error .encounterContextInvalid) ∧
      (∀ zone, c.context.rangeEncounterPerZone.lookup zone =
        if zone = c.zone then some c.ranges else none) ∧
      ∀ zone, c.context.contendersPerZone.lookup zone =
        if zone ∈ c.contenders.map Prod.fst then some (c.contendersOf zone) else none := by
  have hparse := parseArenaConfigFile_document hfile settings
  refine ⟨?_, ?_, c.lookup_range, c.lookup_contenders⟩
  · intro h
    rw [hparse, c.validateEncounterContext_context.mpr h]
    rfl
  · intro h
    rw [← c.validateEncounterContext_context] at h
    rw [hparse, Bool.eq_false_of_not_eq_true h]
    rfl

end

def slimesIn (zone : String) : ZoneConfiguration where
  zone := "WS00"
  ranges := .replicate 3 (1, 4)
  contenders := [(zone, ⟨"arena:contenders:Slime.chai", 99, .replicate 3 100⟩)]

def oneFile (c : ZoneConfiguration) (path : String) : Option JsonTree :=
  if path = "zones_configuration.json" then some (c.document JsonTree.writer) else none

def settingsOfArena : ArenaSettings := ⟨"ARN01", 20001, "scripts", "ARN_cache", "Host-001", 3306⟩

theorem configuration_read_back_slimes :
    parseArenaConfigFile JsonTree.reader (oneFile (slimesIn "WS00"))
        (settingsOfArena.document JsonTree.writer "zones_configuration.json") =
      .ok ⟨settingsOfArena, (slimesIn "WS00").context⟩ := by
  have hacceptable : (slimesIn "WS00").Acceptable := ⟨by decide, by decide⟩
  have hfile : oneFile (slimesIn "WS00") "zones_configuration.json" =
      some ((slimesIn "WS00").document JsonTree.writer) := if_pos rfl
  exact (@configuration_read_back JsonTree.writer (oneFile (slimesIn "WS00")) _ _ hfile
    settingsOfArena).1 hacceptable

theorem exists_of_parseArenaConfigFile {J : JsonReader} {files : String → Option J.Json}
    {configContent : J.Json} {server : ArenaServerContext}
    (h : parseArenaConfigFile J files configContent = .ok server) :
    ∃ c : ZoneConfiguration, c.Acceptable ∧ server.encounterContext = c.context := by
  unfold parseArenaConfigFile at h
  split at h
  · cases h
  · split at h
    · cases h
    · split at h
      · cases h
      · rename_i ctx hencounters
        obtain ⟨c, rfl⟩ := exists_of_parseEncounters hencounters
        split_ifs at h with hvalid
        rw [Bool.not_eq_true', Bool.not_eq_false] at hvalid
        refine ⟨c, c.validateEncounterContext_context.mp hvalid, ?_⟩
        rw [← Except.ok.inj h]

end ArenaServerContext

end FyS.Arena
