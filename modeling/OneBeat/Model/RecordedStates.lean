import OneBeat.Model.ProjectJson
import OneBeat.Model.SavedState

/-!
# Recorded states

Which instruments a save writes a sidecar for, and what the document says about it.

* `Bundle.rewrites_iff` : a save that succeeds writes a sidecar for an instrument exactly when its
  plug-in answers, or there is one to carry across, and the document then refers to it.
-/

namespace OneBeat

open Json LexicalPath

namespace Json

/-! ### Looking things up -/

/-- What an object of objects has under some keys. -/
def Value.follow (value : Value) : List String → Option Value
  | [] => some value
  | key :: path => (value.find key).bind fun member => member.follow path

theorem get?_foldl_emplace (members : List (String × Value)) (object : Object) (key : String) :
    Entries.get? (members.foldl (fun object member => emplace object member.1 member.2) object)
        key =
      (Entries.get? object key).or ((members.find? fun member => member.1 = key).map Prod.snd) := by
  induction members generalizing object with
  | nil => rw [List.find?_nil, Option.map_none, Option.or_none, List.foldl_nil]
  | cons member members ih =>
    rw [List.foldl_cons, ih, List.find?_cons, emplace]
    by_cases hkey : member.1 = key
    · subst hkey
      cases hthere : Entries.get? object member.1 with
      | some value => simp [hthere]
      | none => simp [Entries.get?_assign]
    · simp only [hkey, decide_false]
      split_ifs
      · rfl
      · rw [Entries.get?_assign, if_neg (Ne.symm hkey)]

/-- What is put into an object under a key of its own is found there. -/
theorem find_objectOf {members : List (String × Value)} (hnodup : (members.map Prod.fst).Nodup)
    {key : String} {value : Value} (h : (key, value) ∈ members) :
    (Value.object (objectOf members)).find key = some value := by
  have hfind : members.find? (fun member => member.1 = key) = some (key, value) := by
    induction members with
    | nil => cases h
    | cons member members ih =>
      rw [List.map_cons, List.nodup_cons] at hnodup
      rw [List.find?_cons]
      rcases List.mem_cons.1 h with rfl | h
      · simp
      · have hne : member.1 ≠ key := by
          rintro rfl
          exact hnodup.1 (List.mem_map.2 ⟨_, h, rfl⟩)
        simp only [hne, decide_false]
        exact ih hnodup.2 h
  exact (get?_foldl_emplace members [] key).trans (by rw [hfind]; rfl)

theorem follow_mergeResidue {path : List String} {leaf : Value}
    (hvalue : ∀ value residue : Value, value.follow path = some leaf →
      (mergeValue value residue).follow path = some leaf) {key : String} (source : Object)
    {target : Object}
    (h : ∃ member, Entries.get? target key = some member ∧ member.follow path = some leaf) :
    ∃ merged, Entries.get? (mergeResidue target source) key = some merged ∧
      merged.follow path = some leaf := by
  induction source generalizing target with
  | nil => exact h
  | cons first source ih =>
    obtain ⟨member, hmember, hfollow⟩ := h
    rw [mergeResidue]
    refine ih ?_
    rw [Entries.get?_assign]
    by_cases hkey : key = first.1
    · subst hkey
      rw [if_pos rfl, hmember]
      exact ⟨_, rfl, hvalue member first.2 hfollow⟩
    · rw [if_neg hkey]
      exact ⟨member, hmember, hfollow⟩

/-- What is merged in changes nothing that was there. -/
theorem follow_mergeValue {path : List String} {leaf : Value} (hleaf : leaf.asObject = none)
    (value residue : Value) (h : value.follow path = some leaf) :
    (mergeValue value residue).follow path = some leaf := by
  induction path generalizing value residue with
  | nil =>
    obtain rfl := Option.some_inj.1 h
    cases value with
    | object members => cases hleaf
    | _ => simpa [mergeValue] using h
  | cons key path ih =>
    obtain ⟨member, hmember, hfollow⟩ := Option.bind_eq_some_iff.1 h
    cases value with
    | object target =>
      cases residue with
      | object source =>
        obtain ⟨merged, hget, hmerged⟩ :=
          follow_mergeResidue ih source ⟨member, hmember, hfollow⟩
        rw [mergeValue]
        exact Option.bind_eq_some_iff.2 ⟨merged, hget, hmerged⟩
      | _ => simpa [mergeValue] using h
    | _ => cases hmember

end Json

namespace Bundle

/-! ### The document -/

/-- The reference an instrument has in a document. -/
def recordedRef (document : Value) (id : InstrumentId) : Option Value :=
  document.follow ["instruments", id.str, "state_ref"]

theorem find_stateRef (instrument : Instrument) (record : Option StateRecord) :
    (writeInstrument instrument record).find "state_ref" =
      some (textOrNull ((record.map StateRecord.stateRef).getD instrument.plugin.stateRef)) := by
  rw [writeInstrument]
  refine find_objectOf ?_ ?_
  · cases instrument.soloed <;> cases nonDefaultSettings instrument.channelSettings <;>
      simp [memberIf]
  · simp

/-- **The document refers to the state that was written**, and otherwise to the one the instrument
had. -/
theorem recordedRef_projectDocument {project : Tables} {residue : Residue} {createdWith : String}
    {state : OrderedMap InstrumentId StateRecord} {id : InstrumentId} {instrument : Instrument}
    (hget : project.instruments.get? id = some instrument) :
    recordedRef (projectDocument project residue createdWith state) id =
      some (textOrNull (((state.get? id).map StateRecord.stateRef).getD
        instrument.plugin.stateRef)) := by
  have hleaf : ∀ text, (textOrNull text).asObject = none := by
    intro text
    unfold textOrNull
    split_ifs <;> rfl
  refine follow_mergeValue (hleaf _) (.object (writeRoot project residue createdWith state))
    (.object (residue.document.asObject.getD [])) ?_
  have htable : (Value.object (writeRoot project residue createdWith state)).find "instruments" =
      some (writeTable project.instruments fun id instrument =>
        writeInstrument instrument (state.get? id)) := by
    rw [writeRoot]
    exact find_objectOf (by simp) (by simp)
  have hinstrument : (writeTable project.instruments fun id instrument =>
      writeInstrument instrument (state.get? id)).find id.str =
        some (writeInstrument instrument (state.get? id)) := by
    rw [writeTable]
    refine find_objectOf (nodup_keys str_injective fun entry =>
      writeInstrument entry.2 (state.get? entry.1)) ?_
    exact List.mem_map.2 ⟨(id, instrument), OrderedMap.get?_eq_some_iff.1 hget, rfl⟩
  rw [Value.follow, htable, Option.bind_some, Value.follow, hinstrument, Option.bind_some,
    Value.follow, find_stateRef]
  rfl

/-! ### What a save leaves -/

variable {sha256Hex : Chunk → String} {options : SaveOptions} {folder : Location} {disk : Disk}
  {entries : List (InstrumentId × Instrument)} {entry : InstrumentId × Instrument}

/-- What was touched stays so, and a file stays a file. -/
structure Grows (staging grown : Staging) : Prop where
  touched : ∀ touch ∈ staging.touched, touch ∈ grown.touched
  there : ∀ location content, staging.disk location = some (.regular content) →
    ∃ content, grown.disk location = some (.regular content)

theorem Grows.refl (staging : Staging) : Grows staging staging :=
  ⟨fun _ h => h, fun _ content h => ⟨content, h⟩⟩

theorem Grows.trans {staging between grown : Staging} (h : Grows staging between)
    (h' : Grows between grown) : Grows staging grown := by
  refine ⟨fun touch htouch => h'.touched touch (h.touched touch htouch),
    fun location content hfile => ?_⟩
  obtain ⟨content', hfile'⟩ := h.there location content hfile
  exact h'.there location content' hfile'

theorem Placed.grows {owner : Option InstrumentId} {location : Location} {content : Chunk}
    {staging placed : Staging} (h : Placed owner location content staging placed) :
    Grows staging placed := by
  obtain ⟨made, htouched, -⟩ := h.touched
  refine ⟨fun touch htouch => htouched ▸ List.mem_append_left _ htouch,
    fun other content' hfile => ?_⟩
  by_cases hother : other = location
  · exact ⟨content, hother ▸ h.there⟩
  · exact ⟨content', h.kept other _ hother hfile⟩

theorem Staged.grows {staging staged : Staging}
    (h : Staged sha256Hex options folder staging entry staged) : Grows staging staged := by
  cases h with
  | skipped => exact .refl staging
  | carried _ _ hplaced => exact hplaced.grows
  | written _ hplaced => exact ⟨hplaced.grows.touched, hplaced.grows.there⟩

theorem grows_stagedUpTo {after : List (InstrumentId × Instrument)}
    (hfailed : (stagedUpTo sha256Hex options folder disk (entries ++ after)).failed = false) :
    (stagedUpTo sha256Hex options folder disk entries).failed = false ∧
      Grows (stagedUpTo sha256Hex options folder disk entries)
        (stagedUpTo sha256Hex options folder disk (entries ++ after)) := by
  induction after using List.reverseRecOn with
  | nil =>
    rw [List.append_nil] at hfailed ⊢
    exact ⟨hfailed, .refl _⟩
  | append_singleton after last ih =>
    rw [← List.append_assoc] at hfailed ⊢
    obtain ⟨hbefore, hstaged⟩ := staged_stagedUpTo hfailed
    obtain ⟨hfirst, hgrows⟩ := ih hbefore
    exact ⟨hfirst, hgrows.trans hstaged.grows⟩

/-- A plug-in that says nothing has no record. -/
theorem stateWritten_of_silent {id : InstrumentId} (hsilent : options.stateProvider id = [])
    (hfailed : (stagedUpTo sha256Hex options folder disk entries).failed = false) :
    (stagedUpTo sha256Hex options folder disk entries).stateWritten.get? id = none := by
  induction entries using List.reverseRecOn with
  | nil => rfl
  | append_singleton entries entry ih =>
    obtain ⟨hbefore, hstaged⟩ := staged_stagedUpTo hfailed
    have hnone := ih hbefore
    generalize stagedUpTo sha256Hex options folder disk (entries ++ [entry]) = staged at hstaged
    cases hstaged with
    | skipped => exact hnone
    | carried _ _ hplaced => rw [hplaced.stateWritten, hnone]
    | written hchunk _ =>
      have hne : id ≠ entry.1 := by
        rintro rfl
        exact hchunk hsilent
      rw [OrderedMap.get?_emplace]
      simp [hnone, hne]

/-- Where there is nothing to write and nothing to carry, nothing happens. -/
theorem stageInstruments_of_silent {staging : Staging}
    (h : ∀ entry ∈ entries, options.stateProvider entry.1 = [] ∧ entry.2.plugin.stateRef = "") :
    stageInstruments sha256Hex options folder staging entries = staging := by
  induction entries with
  | nil => rfl
  | cons entry entries ih =>
    rw [List.forall_mem_cons] at h
    have hstep : stageInstrument sha256Hex options folder staging entry = staging := by
      unfold stageInstrument
      simp only [h.1.1, h.1.2, ne_eq, not_true_eq_false, if_false, String.toList_empty, true_or,
        if_true]
      cases options.copyStateFrom <;> exact ite_self _
    rw [stageInstruments, List.foldl_cons, hstep]
    exact ih h.2

theorem begin_folder (disk : Disk) (folder : Location) :
    (begin disk folder).disk folder = some .directory := if_pos rfl

/-- There is nothing in the folder. -/
theorem begin_inside (disk : Disk) (folder : Location) (name : Component) :
    (begin disk folder).disk (folder ++ [name]) = none :=
  (if_neg (by simp)).trans (if_pos (List.prefix_append _ _))

/-! ### Writing a state again -/

/-- Preparing the folder leaves what is at a location. -/
def Leaves (folder : Location) (disk : Disk) (location : Location) : Prop :=
  (begin disk folder).disk location = disk location

/-- The document refers to a state file that was written for the instrument: what its plug-in
answered, or a copy of the one at `old` in the bundle. -/
def Rewrites (options : SaveOptions) (folder bundle : Location) (disk : Disk) (document : Value)
    (id : InstrumentId) (old : String) (saved : Staging) : Prop :=
  ∃ ref content, recordedRef document id = some (.string ref) ∧
    (some id, join folder ref.toList) ∈ saved.touched ∧
    saved.disk (join folder ref.toList) = some (.regular content) ∧
    (options.stateProvider id ≠ [] ∨ (ref = old ∧ Leaves folder disk (join bundle old.toList)))

/-- The plug-in answers, or the instrument still refers to the state file at `old`. -/
def Refers (options : SaveOptions) (folder bundle : Location) (disk : Disk) (id : InstrumentId)
    (instrument : Instrument) (old : String) : Prop :=
  options.stateProvider id ≠ [] ∨
    (instrument.plugin.stateRef = old ∧ Leaves folder disk (join bundle old.toList))

instance (folder : Location) (disk : Disk) (location : Location) :
    Decidable (Leaves folder disk location) := by
  unfold Leaves
  infer_instance

instance (options : SaveOptions) (folder bundle : Location) (disk : Disk) (id : InstrumentId)
    (instrument : Instrument) (old : String) :
    Decidable (Refers options folder bundle disk id instrument old) := by
  unfold Refers
  infer_instance

theorem stateRefOf_ne_empty (id : InstrumentId) : stateRefOf id ≠ "" := by
  intro h
  have hlists := congrArg String.toList h
  rw [stateRefOf, String.toList_append, String.toList_append] at hlists
  cases hlists

section Rewrites

variable {project : Tables} {writeProjectJson : OrderedMap InstrumentId StateRecord → Chunk}
  {residue : Residue} {createdWith : String} {id : InstrumentId} {instrument : Instrument}
  {bundle : Location} {old : String} {content : Chunk}

/-- A file that is still referred to is carried across. -/
theorem carried_saveProject
    (hfailed : (saveProject sha256Hex options folder writeProjectJson disk project).failed = false)
    (hget : project.instruments.get? id = some instrument)
    (hsilent : options.stateProvider id = []) (hcopy : options.copyStateFrom = some bundle)
    (hnonempty : instrument.plugin.stateRef ≠ "")
    (hfile : (begin disk folder).disk (join bundle instrument.plugin.stateRef.toList) =
      some (.regular content)) :
    (some id, join folder instrument.plugin.stateRef.toList) ∈
        (saveProject sha256Hex options folder writeProjectJson disk project).touched ∧
      ∃ content, (saveProject sha256Hex options folder writeProjectJson disk project).disk
        (join folder instrument.plugin.stateRef.toList) = some (.regular content) := by
  obtain ⟨hstaged, hdocument⟩ := stageDocument_placed hfailed
  obtain ⟨before, after, heq⟩ := List.append_of_mem (OrderedMap.get?_eq_some_iff.1 hget)
  have hall : stageInstruments sha256Hex options folder (begin disk folder)
      project.instruments.entries =
        stagedUpTo sha256Hex options folder disk ((before ++ [(id, instrument)]) ++ after) := by
    rw [heq, List.append_assoc]
    rfl
  rw [hall] at hstaged
  obtain ⟨hown, hafter⟩ := grows_stagedUpTo hstaged
  obtain ⟨hbefore, hstep⟩ := staged_stagedUpTo hown
  -- the file is there when it is the turn of the instrument
  have hbegun : Grows (begin disk folder) (stagedUpTo sha256Hex options folder disk before) :=
    (@grows_stagedUpTo sha256Hex options folder disk [] before hbefore).2
  obtain ⟨content', hthere⟩ := hbegun.there _ _ hfile
  have hcarries : CarriesTo options folder (stagedUpTo sha256Hex options folder disk before)
      (id, instrument) (join folder instrument.plugin.stateRef.toList) := by
    refine ⟨hsilent, bundle, hcopy, fun hnil => hnonempty (String.toList_eq_nil_iff.1 hnil), ?_,
      rfl⟩
    rw [hthere]
    exact Option.some_ne_none _
  have hwritten : ∃ content, Placed (some id) (join folder instrument.plugin.stateRef.toList)
      content (stagedUpTo sha256Hex options folder disk before)
        (stagedUpTo sha256Hex options folder disk (before ++ [(id, instrument)])) := by
    generalize stagedUpTo sha256Hex options folder disk (before ++ [(id, instrument)]) = staged
      at hstep
    cases hstep with
    | skipped _ hnone => exact absurd hcarries (hnone _)
    | carried _ hiff hplaced =>
      rw [(hiff _).1 hcarries]
      exact ⟨_, hplaced⟩
    | written hchunk _ => exact absurd hsilent hchunk
  obtain ⟨copied, hplaced⟩ := hwritten
  have hgrows : Grows (stagedUpTo sha256Hex options folder disk (before ++ [(id, instrument)]))
      (saveProject sha256Hex options folder writeProjectJson disk project) := by
    refine hafter.trans ?_
    rw [← hall]
    exact hdocument.grows
  obtain ⟨made, htouched, -⟩ := hplaced.touched
  refine ⟨hgrows.touched _ ?_, hgrows.there _ _ hplaced.there⟩
  rw [htouched]
  exact List.mem_append_right _ (List.mem_append_right _ (List.mem_singleton_self _))

/-- **A save writes a state again exactly when the plug-in answers, or the instrument still refers to
the file there is.** -/
theorem rewrites_iff
    (hfailed : (saveProject sha256Hex options folder writeProjectJson disk project).failed = false)
    (hget : project.instruments.get? id = some instrument)
    (hcopy : options.copyStateFrom = some bundle) (hold : old ≠ "")
    (hfile : disk (join bundle old.toList) = some (.regular content)) :
    Rewrites options folder bundle disk (projectDocument project residue createdWith
        (saveProject sha256Hex options folder writeProjectJson disk project).stateWritten) id old
        (saveProject sha256Hex options folder writeProjectJson disk project) ↔
      Refers options folder bundle disk id instrument old := by
  have hrecorded := @recordedRef_projectDocument project residue createdWith
    (saveProject sha256Hex options folder writeProjectJson disk project).stateWritten id
    instrument hget
  by_cases hsilent : options.stateProvider id = []
  · -- nothing is recorded, so the document says what the instrument does
    have hnone : (saveProject sha256Hex options folder writeProjectJson disk
        project).stateWritten.get? id = none := by
      obtain ⟨hstaged, hdocument⟩ := stageDocument_placed hfailed
      exact (congrArg (·.get? id) hdocument.stateWritten).trans
        (stateWritten_of_silent hsilent hstaged)
    rw [hnone, Option.map_none, Option.getD_none] at hrecorded
    constructor
    · rintro ⟨ref, content', href, -, -, hchunk | ⟨rfl, hleaves⟩⟩
      · exact .inl hchunk
      · rw [hrecorded, Option.some_inj, textOrNull] at href
        split_ifs at href
        exact .inr ⟨Value.string.inj href, hleaves⟩
    · rintro (hchunk | ⟨rfl, hleaves⟩)
      · exact absurd hsilent hchunk
      · obtain ⟨htouched, content', hthere⟩ :=
          carried_saveProject hfailed hget hsilent hcopy hold (hleaves.trans hfile)
        refine ⟨instrument.plugin.stateRef, content', ?_, htouched, hthere, .inr ⟨rfl, hleaves⟩⟩
        rw [hrecorded, textOrNull, if_neg hold]
  · refine iff_of_true ?_ (.inl hsilent)
    obtain ⟨hkept, -⟩ := kept_saveProject hfailed hget hsilent
    obtain ⟨content', hthere⟩ := hkept.there
    refine ⟨stateRefOf id, content', ?_, hkept.touched, hthere, .inl hsilent⟩
    rw [hrecorded, hkept.record, Option.map_some, Option.getD_some, textOrNull,
      if_neg (stateRefOf_ne_empty id)]

end Rewrites

end Bundle

end OneBeat
