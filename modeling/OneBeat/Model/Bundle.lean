import Mathlib.Data.List.GetD
import Mathlib.Logic.Function.Basic
import OneBeat.Lib.LexicalPath
import OneBeat.Model.Invariants
import OneBeat.Model.Json
import OneBeat.Model.UlidText

/-!
# Bundles

How `model/project_io.cpp` stages a bundle and finds the sidecars of one it opens: `saveProject` up
to the swap, and the sidecar reads of `loadProject`.

The disk is a map from locations, and a path is read as it stands: there are no symbolic links, and
nothing else writes while a save goes on.  Besides the files there is a record of what was created
or overwritten, in order, with the instrument it was for.

**Main theorem** (`contained_iff`): a project is saved and opened inside its bundle, whatever that
is called and whatever is on the disk, exactly when every `state_ref` is relative and never goes
above where it starts.
-/

namespace OneBeat

namespace Bundle

open LexicalPath

/-- An opaque chunk of a plug-in. -/
abbrev Chunk := List UInt8

inductive File
  | directory
  | regular (content : Chunk)
  deriving DecidableEq

abbrev Disk := Location → Option File

/-- What was written for an instrument. -/
structure StateRecord where
  stateRef : String
  sha256 : String
  deriving DecidableEq

structure SaveOptions where
  /-- Empty where the instrument has no state, and where there is nobody to ask. -/
  stateProvider : InstrumentId → Chunk
  /-- The bundle whose sidecars are carried across. -/
  copyStateFrom : Option Location

/-- A save under way. -/
structure Staging where
  disk : Disk
  stateWritten : OrderedMap InstrumentId StateRecord := .empty
  /-- What was created or overwritten, and the instrument it was for. -/
  touched : List (Option InstrumentId × Location) := []
  /-- The save was abandoned. -/
  failed : Bool := false

namespace Staging

variable (owner : Option InstrumentId)

def createDirectory (staging : Staging) (location : Location) : Staging :=
  match staging.disk location with
  | none =>
    { staging with
      disk := Function.update staging.disk location (some .directory)
      touched := staging.touched ++ [(owner, location)] }
  | some _ => staging

/-- Every directory along a path. -/
def createDirectories (base : Location) (path : List Component) (staging : Staging) : Staging :=
  ((List.range (path.length + 1)).map fun count => follow base (path.take count)).foldl
    (createDirectory owner) staging

/-- A file cannot be where a directory is, and needs one to be in. -/
def writeFile (location : Location) (content : Chunk) (staging : Staging) : Staging :=
  if staging.disk location.dropLast = some .directory ∧
      staging.disk location ≠ some .directory then
    { staging with
      disk := Function.update staging.disk location (some (.regular content))
      touched := staging.touched ++ [(owner, location)] }
  else { staging with failed := true }

/-- What is there is overwritten, but not by itself. -/
def copyFile (source location : Location) (staging : Staging) : Staging :=
  match staging.disk source with
  | some (.regular content) =>
    if source = location then { staging with failed := true }
    else staging.writeFile owner location content
  | _ => { staging with failed := true }

end Staging

/-! ### Saving -/

/-- Named by the id, which tells instruments apart. -/
def stateRefOf (id : InstrumentId) : String := "state/" ++ id.str ++ ".bin"

/-- The name of the folder in which a bundle is staged. -/
def stagingName (bundle : Component) (processId : ℕ) : Component :=
  '.' :: bundle ++ ".saving-".toList ++ (toString processId).toList

/-- The empty folder: whatever was left there is removed. -/
def begin (disk : Disk) (folder : Location) : Staging where
  disk location :=
    if location = folder then some .directory
    else if folder <+: location then none
    else disk location
  touched := [(none, folder)]

variable (sha256Hex : Chunk → String) (options : SaveOptions) (folder : Location)

/-- The sidecar of one instrument. -/
def stageInstrument (staging : Staging) (entry : InstrumentId × Instrument) : Staging :=
  if staging.failed then staging
  else
    let chunk := options.stateProvider entry.1
    if chunk ≠ [] then
      let written := (staging.createDirectories (some entry.1) folder ["state".toList]).writeFile
        (some entry.1) (join folder (stateRefOf entry.1).toList) chunk
      if written.failed then written
      else
        { written with
          stateWritten := written.stateWritten.emplace entry.1
            ⟨stateRefOf entry.1, sha256Hex chunk⟩ }
    else
      -- nothing to say: carry across what the bundle already has
      let stateRef := entry.2.plugin.stateRef.toList
      match options.copyStateFrom with
      | none => staging
      | some bundle =>
        if stateRef = [] ∨ staging.disk (join bundle stateRef) = none then staging
        else
          (staging.createDirectories (some entry.1) (start folder stateRef)
            (components stateRef).dropLast).copyFile (some entry.1) (join bundle stateRef)
              (join folder stateRef)

def stageInstruments (staging : Staging) (entries : List (InstrumentId × Instrument)) : Staging :=
  entries.foldl (stageInstrument sha256Hex options folder) staging

/-- The document goes in last; `writeProjectJson` says what it is, or nothing. -/
def stageDocument (writeProjectJson : OrderedMap InstrumentId StateRecord → Chunk)
    (staging : Staging) : Staging :=
  if staging.failed then staging
  else
    let text := writeProjectJson staging.stateWritten
    if text = [] then { staging with failed := true }
    else staging.writeFile none (folder ++ ["project.json".toList]) text

/-- `saveProject`, up to the swap. -/
def saveProject (writeProjectJson : OrderedMap InstrumentId StateRecord → Chunk) (disk : Disk)
    (project : Tables) : Staging :=
  stageDocument folder writeProjectJson
    (stageInstruments sha256Hex options folder (begin disk folder) project.instruments.entries)

/-! ### Opening -/

/-- The text of a field; anything but a string is the fallback. -/
def takeString (object : Json.Object) (key : String) (fallback : String := "") : String :=
  match Entries.get? object key with
  | some (.string text) => text
  | _ => fallback

/-- What `readInstruments` takes from the fields of an instrument about its sidecar. -/
def readState (fields : Json.Object) (plugin : PluginRef) : PluginRef :=
  { plugin with
    stateRef := takeString fields "state_ref"
    stateSha256 := takeString fields "state_sha256" }

/-- The sidecars that are read when a bundle is opened with its state. -/
def sidecars (bundle : Location) (project : Tables) : List Location :=
  (project.instruments.entries.filter fun entry => entry.2.plugin.stateRef ≠ "").map fun entry =>
    join bundle entry.2.plugin.stateRef.toList

/-! ### Names -/

theorem fiveBitsAt_lt (id : RawId) (shift : ℕ) : fiveBitsAt id shift < ulidAlphabet.length :=
  Nat.mod_lt _ (by decide)

theorem mem_ulidAlphabet_of_mem_encodeUlid {id : RawId} {c : Char}
    (hc : c ∈ (encodeUlid id).toList) : c ∈ ulidAlphabet := by
  rw [encodeUlid, String.toList_ofList] at hc
  obtain ⟨i, -, rfl⟩ := List.mem_map.1 hc
  rw [List.getD_eq_getElem _ _ (fiveBitsAt_lt id _)]
  exact List.getElem_mem _

/-- An id is told by its text. -/
theorem encodeUlid_injective : Function.Injective encodeUlid := by
  intro a b h
  exact Option.some.inj ((decodeUlid_encodeUlid a).symm.trans (h ▸ decodeUlid_encodeUlid b))

/-- The name of a sidecar. -/
def sidecarName (id : InstrumentId) : Component := (id.str ++ ".bin").toList

theorem components_stateRefOf (id : InstrumentId) :
    components (stateRefOf id).toList = ["state".toList, sidecarName id] := by
  have hslash : '/' ∉ sidecarName id := by
    rw [sidecarName, TypedId.str]
    simp only [String.toList_append, List.mem_append, not_or]
    refine ⟨⟨⟨by decide, by decide⟩, fun hmem => ?_⟩, by decide⟩
    exact absurd (mem_ulidAlphabet_of_mem_encodeUlid hmem) (by decide)
  have htext : (stateRefOf id).toList = "state".toList ++ '/' :: sidecarName id := by
    rw [stateRefOf, sidecarName]
    simp only [String.toList_append, List.append_assoc]
    rfl
  rw [components, htext, List.splitOn_append_cons_self_of_not_mem (by decide),
    List.splitOn_eq_singleton hslash]

/-- A sidecar that is written is in the folder of sidecars. -/
theorem join_stateRefOf (folder : Location) (id : InstrumentId) :
    join folder (stateRefOf id).toList = folder ++ ["state".toList, sidecarName id] := by
  have hrelative : isAbsolute (stateRefOf id).toList = false := by
    rw [isAbsolute, stateRefOf]
    simp only [String.toList_append]
    rfl
  have hname : (sidecarName id).head? = some 'i' := by
    rw [sidecarName, TypedId.str]
    simp only [String.toList_append]
    rfl
  obtain ⟨rest, hrest⟩ := List.head?_eq_some_iff.1 hname
  rw [join, start, hrelative, components_stateRefOf, hrest]
  simp [follow, enter]

theorem sidecarName_injective : Function.Injective sidecarName := by
  intro a b h
  rw [sidecarName, sidecarName, String.toList_append, String.toList_append] at h
  have hstr := List.append_cancel_right h
  rw [TypedId.str, TypedId.str, String.toList_append, String.toList_append (s := entityPrefix _ ++ _)]
    at hstr
  exact TypedId.raw_injective (encodeUlid_injective (String.toList_inj.1 (List.append_cancel_left hstr)))

/-! ### Staying inside -/

/-- A save that keeps to a directory, on a disk that was `disk`. -/
structure Within (folder : Location) (disk : Disk) (staging : Staging) : Prop where
  /-- Everything that was created or overwritten is in the directory. -/
  touched : ∀ touch ∈ staging.touched, folder <+: touch.2
  /-- Outside nothing has changed. -/
  outside : ∀ location, ¬folder <+: location → staging.disk location = disk location

theorem within_begin (disk : Disk) (folder : Location) : Within folder disk (begin disk folder) where
  touched touch htouch := by rw [List.mem_singleton.1 htouch]
  outside location hlocation := by
    have hne : location ≠ folder := fun heq => hlocation (heq ▸ List.prefix_rfl)
    exact (if_neg hne).trans (if_neg hlocation)

namespace Within

variable {owner : Option InstrumentId} {disk : Disk} {staging : Staging} {folder location : Location}

/-- One location more, inside. -/
theorem touch (h : Within folder disk staging) (hlocation : folder <+: location) (file : File) :
    Within folder disk
      { staging with
        disk := Function.update staging.disk location (some file)
        touched := staging.touched ++ [(owner, location)] } where
  touched touch htouch := by
    rcases List.mem_append.1 htouch with htouch | htouch
    · exact h.touched touch htouch
    · rw [List.mem_singleton.1 htouch]
      exact hlocation
  outside other hother := by
    have hne : other ≠ location := fun heq => hother (heq ▸ hlocation)
    exact (Function.update_of_ne hne _ _).trans (h.outside other hother)

theorem createDirectory (h : Within folder disk staging) (hlocation : folder <+: location) :
    Within folder disk (staging.createDirectory owner location) := by
  rw [Staging.createDirectory]
  split
  · exact h.touch hlocation .directory
  · exact h

theorem createDirectories (h : Within folder disk staging) {base : Location}
    {path : List Component} (hpath : ∀ count, folder <+: follow base (path.take count)) :
    Within folder disk (staging.createDirectories owner base path) := by
  rw [Staging.createDirectories]
  generalize hlocations : (List.range (path.length + 1)).map
    (fun count => follow base (path.take count)) = locations
  have hall : ∀ location ∈ locations, folder <+: location := by
    rw [← hlocations]
    intro location hlocation
    obtain ⟨count, -, rfl⟩ := List.mem_map.1 hlocation
    exact hpath count
  clear hlocations
  induction locations generalizing staging with
  | nil => exact h
  | cons location locations ih =>
    rw [List.foldl_cons]
    exact ih (h.createDirectory (hall location List.mem_cons_self))
      fun other hother => hall other (List.mem_cons_of_mem _ hother)

theorem writeFile (h : Within folder disk staging) (hlocation : folder <+: location)
    (content : Chunk) : Within folder disk (staging.writeFile owner location content) := by
  rw [Staging.writeFile]
  split_ifs
  · exact h.touch hlocation (.regular content)
  · exact ⟨h.touched, h.outside⟩

theorem copyFile (h : Within folder disk staging) (hlocation : folder <+: location)
    (source : Location) : Within folder disk (staging.copyFile owner source location) := by
  rw [Staging.copyFile]
  split
  · split_ifs
    · exact ⟨h.touched, h.outside⟩
    · exact h.writeFile hlocation _
  · exact ⟨h.touched, h.outside⟩

variable {sha256Hex : Chunk → String} {options : SaveOptions}

theorem stageInstrument (h : Within folder disk staging) {entry : InstrumentId × Instrument}
    (hstays : entry.2.plugin.stateRef ≠ "" → stays entry.2.plugin.stateRef.toList = true) :
    Within folder disk (stageInstrument sha256Hex options folder staging entry) := by
  -- the sidecar that is written goes where the id says
  have hwritten : Within folder disk
      ((staging.createDirectories (some entry.1) folder ["state".toList]).writeFile
        (some entry.1) (join folder (stateRefOf entry.1).toList)
          (options.stateProvider entry.1)) := by
    refine (h.createDirectories (prefix_follow_take (by decide))).writeFile ?_ _
    rw [join_stateRefOf]
    exact List.prefix_append _ _
  unfold Bundle.stageInstrument
  split_ifs with hfailed
  · exact h
  dsimp only
  split_ifs with hchunk hfails
  · exact hwritten
  · exact ⟨hwritten.touched, hwritten.outside⟩
  · split
    · exact h
    · split_ifs with hskip
      · exact h
      · -- a sidecar that is carried across goes where its reference says
        obtain ⟨hne, -⟩ := not_or.1 hskip
        have hstays := hstays fun heq => hne (by rw [heq]; rfl)
        refine (h.createDirectories fun count => ?_).copyFile (prefix_join hstays) _
        obtain ⟨habsolute, hfrom⟩ := Bool.and_eq_true_iff.1 hstays
        rw [Bool.not_eq_true'] at habsolute
        rw [start, habsolute, List.dropLast_eq_take]
        exact prefix_follow_take (staysFrom_take hfrom _) count

theorem stageInstruments (h : Within folder disk staging)
    {entries : List (InstrumentId × Instrument)}
    (hstays : ∀ entry ∈ entries, entry.2.plugin.stateRef ≠ "" →
      stays entry.2.plugin.stateRef.toList = true) :
    Within folder disk (stageInstruments sha256Hex options folder staging entries) := by
  induction entries generalizing staging with
  | nil => exact h
  | cons entry entries ih =>
    rw [Bundle.stageInstruments, List.foldl_cons]
    exact ih (h.stageInstrument (hstays entry List.mem_cons_self))
      fun other hother => hstays other (List.mem_cons_of_mem _ hother)

theorem stageDocument (h : Within folder disk staging)
    (writeProjectJson : OrderedMap InstrumentId StateRecord → Chunk) :
    Within folder disk (stageDocument folder writeProjectJson staging) := by
  unfold Bundle.stageDocument
  split_ifs
  · exact h
  · dsimp only
    split_ifs
    · exact ⟨h.touched, h.outside⟩
    · exact h.writeFile (List.prefix_append _ _) _

end Within

/-! ### Inside the bundle -/

/-- A project is saved and opened inside its bundle: a save is staged in a folder beside it. -/
structure Contained (project : Tables) : Prop where
  saved : ∀ (sha256Hex : Chunk → String) (options : SaveOptions) (parent : Location)
    (bundle : Component) (processId : ℕ)
    (writeProjectJson : OrderedMap InstrumentId StateRecord → Chunk) (disk : Disk),
    Within (parent ++ [stagingName bundle processId]) disk
      (saveProject sha256Hex options (parent ++ [stagingName bundle processId]) writeProjectJson
        disk project)
  opened : ∀ (parent : Location) (bundle : Component),
    ∀ sidecar ∈ sidecars (parent ++ [bundle]) project, parent ++ [bundle] <+: sidecar

/-- **A project stays inside its bundle exactly when its references do.** -/
theorem contained_iff (project : Tables) :
    Contained project ↔ ∀ id instrument, project.instruments.get? id = some instrument →
      instrument.plugin.stateRef ≠ "" → stays instrument.plugin.stateRef.toList = true := by
  constructor
  · intro h id instrument hinstrument hne
    -- a bundle whose name the reference does not know
    obtain ⟨length, hlength⟩ := exists_notMem (components instrument.plugin.stateRef.toList)
    have hname := hlength (List.replicate (length + 1) 'x') (by simp)
    have hinside := h.opened [] (List.replicate (length + 1) 'x') _ (List.mem_map.2
      ⟨(id, instrument), List.mem_filter.2 ⟨OrderedMap.get?_eq_some_iff.1 hinstrument,
        decide_eq_true hne⟩, rfl⟩)
    exact (prefix_join_iff hname).1 hinside
  · intro h
    have hstays : ∀ entry ∈ project.instruments.entries, entry.2.plugin.stateRef ≠ "" →
        stays entry.2.plugin.stateRef.toList = true := fun entry hentry =>
      h entry.1 entry.2 (OrderedMap.get?_eq_some_iff.2 hentry)
    refine ⟨fun sha256Hex options parent bundle processId writeProjectJson disk => ?_,
      fun parent bundle sidecar hsidecar => ?_⟩
    · exact ((within_begin disk _).stageInstruments hstays).stageDocument writeProjectJson
    · obtain ⟨entry, hentry, rfl⟩ := List.mem_map.1 hsidecar
      obtain ⟨hentry, hne⟩ := List.mem_filter.1 hentry
      exact prefix_join (hstays entry hentry (of_decide_eq_true hne))

/-- A project whose file names a sidecar beside the bundle. -/
def strayReference : Tables :=
  { newProject ⟨1⟩ with
    instruments := OrderedMap.empty.assign ⟨2⟩
      { name := "Bass", plugin := readState [("state_ref", .string "../evil")] {} } }

/-- Two folders with a bundle in each, and a file beside the first bundle. -/
def twoFolders (location : Location) : Option File :=
  if location = ["old".toList, "evil".toList] then some (.regular [0])
  else if location = [] ∨ location = ["old".toList] ∨ location = ["new".toList] then some .directory
  else none

/-- **A save writes beside its folder**: what the reference names is carried across. -/
theorem not_contained_strayReference :
    strayReference.checkReferentialIntegrity = [] ∧
      ((some ⟨2⟩, ["new".toList, "evil".toList]) : Option InstrumentId × Location) ∈
        (saveProject (fun _ => "") ⟨fun _ => [], some ["old".toList, "song".toList]⟩
          ["new".toList, stagingName "song".toList 7] (fun _ => [0]) twoFolders
            strayReference).touched ∧
      ¬Contained strayReference := by
  refine ⟨by decide +kernel, by decide +kernel, fun h => ?_⟩
  have hinside := h.opened [] "song".toList ["evil".toList] (by decide +kernel)
  revert hinside
  decide +kernel

end Bundle

end OneBeat
