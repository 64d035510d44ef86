import OneBeat.Model.Bundle

/-!
# The sidecars of a save

Fresh sidecars and those carried across from an older bundle go into one folder.  A fresh one is
named by the id of its instrument, and one that is carried across keeps the name that its
instrument refers to; a duplicate refers to the sidecar of the instrument it was made from.

**Main theorem** (`stateIntact_iff`): after a save every fresh sidecar is what its checksum was
taken of, and was written last by its own instrument, exactly when no later instrument without
state of its own carries a file onto one.
-/

namespace OneBeat

namespace Bundle

open LexicalPath

/-! ### What was overwritten -/

/-- What was written at a location for an instrument, and later for another. -/
def Overwritten (id : InstrumentId) (location : Location) :
    List (Option InstrumentId × Location) → Prop
  | [] => False
  | touch :: touched =>
    (touch = (some id, location) ∧ ∃ other, other ≠ id ∧ (some other, location) ∈ touched) ∨
      Overwritten id location touched

section Overwritten

variable {id : InstrumentId} {location : Location}
  {touched rest : List (Option InstrumentId × Location)}

theorem Overwritten.mem (h : Overwritten id location touched) :
    (some id, location) ∈ touched ∧ ∃ other, other ≠ id ∧ (some other, location) ∈ touched := by
  induction touched with
  | nil => exact h.elim
  | cons touch touched ih =>
    rcases h with ⟨rfl, other, hother, hmem⟩ | h
    · exact ⟨List.mem_cons_self, other, hother, List.mem_cons_of_mem _ hmem⟩
    · obtain ⟨hid, other, hother, hmem⟩ := ih h
      exact ⟨List.mem_cons_of_mem _ hid, other, hother, List.mem_cons_of_mem _ hmem⟩

theorem overwritten_append : Overwritten id location (touched ++ rest) ↔
    Overwritten id location touched ∨ Overwritten id location rest ∨
      ((some id, location) ∈ touched ∧ ∃ other, other ≠ id ∧ (some other, location) ∈ rest) := by
  induction touched with
  | nil => simp [Overwritten]
  | cons touch touched ih =>
    rw [List.cons_append, Overwritten, Overwritten, ih]
    simp only [List.mem_append, List.mem_cons]
    constructor
    · rintro (⟨rfl, other, hother, hmem | hmem⟩ | h | h | ⟨hid, h⟩)
      · exact .inl (.inl ⟨rfl, other, hother, hmem⟩)
      · exact .inr (.inr ⟨.inl rfl, other, hother, hmem⟩)
      · exact .inl (.inr h)
      · exact .inr (.inl h)
      · exact .inr (.inr ⟨.inr hid, h⟩)
    · rintro ((⟨rfl, other, hother, hmem⟩ | h) | h | ⟨heq | hid, other, hother, hmem⟩)
      · exact .inl ⟨rfl, other, hother, .inl hmem⟩
      · exact .inr (.inl h)
      · exact .inr (.inr (.inl h))
      · exact .inl ⟨heq.symm, other, hother, .inr hmem⟩
      · exact .inr (.inr (.inr ⟨hid, other, hother, hmem⟩))

end Overwritten

/-! ### One instrument -/

/-- What a part of a save does for one instrument: directories are made where there was nothing. -/
structure Prepared (owner : Option InstrumentId) (staging prepared : Staging) : Prop where
  touched : ∃ made, prepared.touched = staging.touched ++ made ∧
    ∀ touch ∈ made, touch.1 = owner ∧ staging.disk touch.2 = none
  kept : ∀ location file, staging.disk location = some file → prepared.disk location = some file
  stateWritten : prepared.stateWritten = staging.stateWritten
  failed : prepared.failed = staging.failed

theorem prepared_createDirectory (owner : Option InstrumentId) (staging : Staging)
    (location : Location) : Prepared owner staging (staging.createDirectory owner location) := by
  rw [Staging.createDirectory]
  split
  · rename_i hnone
    refine ⟨⟨[(owner, location)], rfl, fun touch htouch => ?_⟩, fun other file hother => ?_, rfl, rfl⟩
    · rw [List.mem_singleton.1 htouch]
      exact ⟨rfl, hnone⟩
    · have hne : other ≠ location := by
        rintro rfl
        rw [hnone] at hother
        cases hother
      exact (Function.update_of_ne hne _ _).trans hother
  · exact ⟨⟨[], (List.append_nil _).symm, List.forall_mem_nil _⟩, fun _ _ h => h, rfl, rfl⟩

theorem Prepared.trans {owner : Option InstrumentId} {staging between prepared : Staging}
    (h : Prepared owner staging between) (h' : Prepared owner between prepared) :
    Prepared owner staging prepared := by
  obtain ⟨made, htouched, hmade⟩ := h.touched
  obtain ⟨made', htouched', hmade'⟩ := h'.touched
  refine ⟨⟨made ++ made', by rw [htouched', htouched, List.append_assoc], fun touch htouch => ?_⟩,
    fun location file hfile => h'.kept location file (h.kept location file hfile),
    h'.stateWritten.trans h.stateWritten, h'.failed.trans h.failed⟩
  rcases List.mem_append.1 htouch with htouch | htouch
  · exact hmade touch htouch
  · refine ⟨(hmade' touch htouch).1, Option.eq_none_iff_forall_ne_some.2 fun file hfile => ?_⟩
    -- what was there before would be there still
    have hnone := (hmade' touch htouch).2
    rw [h.kept _ file hfile] at hnone
    cases hnone

theorem prepared_createDirectories (owner : Option InstrumentId) (staging : Staging)
    (base : Location) (path : List Component) :
    Prepared owner staging (staging.createDirectories owner base path) := by
  rw [Staging.createDirectories]
  generalize (List.range (path.length + 1)).map (fun count => follow base (path.take count)) =
    locations
  induction locations generalizing staging with
  | nil => exact ⟨⟨[], (List.append_nil _).symm, List.forall_mem_nil _⟩, fun _ _ h => h, rfl, rfl⟩
  | cons location locations ih =>
    rw [List.foldl_cons]
    exact (prepared_createDirectory owner staging location).trans (ih _)

/-- A file that was put in its place for one instrument. -/
structure Placed (owner : Option InstrumentId) (location : Location) (content : Chunk)
    (staging placed : Staging) : Prop where
  touched : ∃ made, placed.touched = staging.touched ++ (made ++ [(owner, location)]) ∧
    ∀ touch ∈ made, touch.1 = owner ∧ staging.disk touch.2 = none
  there : placed.disk location = some (.regular content)
  kept : ∀ other file, other ≠ location → staging.disk other = some file →
    placed.disk other = some file
  stateWritten : placed.stateWritten = staging.stateWritten

theorem Prepared.writeFile {owner : Option InstrumentId} {staging prepared : Staging}
    (h : Prepared owner staging prepared) {location : Location} {content : Chunk}
    (hfailed : (prepared.writeFile owner location content).failed = false) :
    Placed owner location content staging (prepared.writeFile owner location content) := by
  rw [Staging.writeFile] at hfailed ⊢
  split_ifs at hfailed ⊢
  obtain ⟨made, htouched, hmade⟩ := h.touched
  refine ⟨⟨made, ?_, hmade⟩, Function.update_self _ _ _, fun other file hother hfile => ?_,
    h.stateWritten⟩
  · rw [htouched, List.append_assoc]
  · exact (Function.update_of_ne hother _ _).trans (h.kept other file hfile)

/-- A file that is carried across is some regular file. -/
theorem Prepared.copyFile {owner : Option InstrumentId} {staging prepared : Staging}
    (h : Prepared owner staging prepared) {source location : Location}
    (hfailed : (prepared.copyFile owner source location).failed = false) :
    ∃ content, Placed owner location content staging
      (prepared.copyFile owner source location) := by
  rw [Staging.copyFile] at hfailed ⊢
  split at hfailed
  · rename_i content hsource
    split_ifs at hfailed with hsame
    rw [if_neg hsame]
    exact ⟨content, h.writeFile hfailed⟩
  · cases hfailed

variable {sha256Hex : Chunk → String} {options : SaveOptions} {folder : Location}

/-- For an instrument without state of its own, the location at which a sidecar is put that is
carried across. -/
def CarriesTo (options : SaveOptions) (folder : Location) (staging : Staging)
    (entry : InstrumentId × Instrument) (location : Location) : Prop :=
  options.stateProvider entry.1 = [] ∧
    ∃ bundle, options.copyStateFrom = some bundle ∧ entry.2.plugin.stateRef.toList ≠ [] ∧
      staging.disk (join bundle entry.2.plugin.stateRef.toList) ≠ none ∧
      join folder entry.2.plugin.stateRef.toList = location

/-- What a step of the loop does that does not fail. -/
inductive Staged (sha256Hex : Chunk → String) (options : SaveOptions) (folder : Location)
    (staging : Staging) (entry : InstrumentId × Instrument) : Staging → Prop
  | skipped : options.stateProvider entry.1 = [] →
      (∀ location, ¬CarriesTo options folder staging entry location) →
      Staged sha256Hex options folder staging entry staging
  | carried {placed : Staging} {location : Location} {content : Chunk} :
      options.stateProvider entry.1 = [] →
      (∀ other, CarriesTo options folder staging entry other ↔ other = location) →
      Placed (some entry.1) location content staging placed →
      Staged sha256Hex options folder staging entry placed
  | written {placed : Staging} : options.stateProvider entry.1 ≠ [] →
      Placed (some entry.1) (join folder (stateRefOf entry.1).toList)
        (options.stateProvider entry.1) staging placed →
      Staged sha256Hex options folder staging entry
        { placed with
          stateWritten := staging.stateWritten.emplace entry.1
            ⟨stateRefOf entry.1, sha256Hex (options.stateProvider entry.1)⟩ }

theorem staged_stageInstrument {staging : Staging} {entry : InstrumentId × Instrument}
    (hbefore : staging.failed = false)
    (hfailed : (stageInstrument sha256Hex options folder staging entry).failed = false) :
    Staged sha256Hex options folder staging entry
      (stageInstrument sha256Hex options folder staging entry) := by
  unfold stageInstrument at hfailed ⊢
  rw [if_neg (by rw [hbefore]; decide)] at hfailed ⊢
  dsimp only at hfailed ⊢
  by_cases hchunk : options.stateProvider entry.1 ≠ []
  · rw [if_pos hchunk] at hfailed ⊢
    split_ifs at hfailed with hwritten
    · rw [hwritten] at hfailed
      cases hfailed
    rw [if_neg hwritten]
    have hplaced := (prepared_createDirectories (some entry.1) staging folder
      ["state".toList]).writeFile hfailed
    rw [hplaced.stateWritten]
    exact .written hchunk hplaced
  · rw [if_neg hchunk] at hfailed ⊢
    have hnone := not_not.1 hchunk
    cases hbundle : options.copyStateFrom with
    | none =>
      refine .skipped hnone fun location ⟨_, bundle, hcopy, _⟩ => ?_
      rw [hbundle] at hcopy
      cases hcopy
    | some bundle =>
      rw [hbundle] at hfailed
      dsimp only at hfailed ⊢
      split_ifs at hfailed ⊢ with hskip
      · refine .skipped hnone fun location ⟨_, other, hcopy, hne, hdisk, _⟩ => ?_
        obtain rfl := Option.some.inj (hbundle.symm.trans hcopy)
        rcases hskip with hempty | habsent
        · exact hne hempty
        · exact hdisk habsent
      · -- there is a file to carry, under the name that the instrument refers to
        obtain ⟨hne, hdisk⟩ := not_or.1 hskip
        obtain ⟨content, hplaced⟩ :=
          (prepared_createDirectories (some entry.1) staging _ _).copyFile hfailed
        refine .carried hnone (fun other => ⟨?_, ?_⟩) hplaced
        · rintro ⟨-, -, -, -, -, rfl⟩
          rfl
        · rintro rfl
          exact ⟨hnone, bundle, hbundle, hne, hdisk, rfl⟩

/-! ### The loop -/

/-- The save after some of the instruments. -/
def stagedUpTo (sha256Hex : Chunk → String) (options : SaveOptions) (folder : Location) (disk : Disk)
    (entries : List (InstrumentId × Instrument)) : Staging :=
  stageInstruments sha256Hex options folder (begin disk folder) entries

/-- Where the fresh sidecar of an instrument goes. -/
def sidecarOf (folder : Location) (id : InstrumentId) : Location :=
  join folder (stateRefOf id).toList

theorem sidecarOf_injective (folder : Location) : Function.Injective (sidecarOf folder) := by
  intro a b h
  rw [sidecarOf, sidecarOf, join_stateRefOf, join_stateRefOf] at h
  have hnames := List.append_cancel_left h
  exact sidecarName_injective (List.cons.inj (List.cons.inj hnames).2).1

variable {disk : Disk} {entries : List (InstrumentId × Instrument)}
  {entry : InstrumentId × Instrument}

/-- A later instrument carries a sidecar onto the one of an earlier. -/
def Hit (sha256Hex : Chunk → String) (options : SaveOptions) (folder : Location) (disk : Disk)
    (entries : List (InstrumentId × Instrument)) (id : InstrumentId) : Prop :=
  ∃ before entry after, entries = before ++ entry :: after ∧ id ∈ before.map Prod.fst ∧
    CarriesTo options folder (stagedUpTo sha256Hex options folder disk before) entry
      (sidecarOf folder id)

theorem hit_append {id : InstrumentId} :
    Hit sha256Hex options folder disk (entries ++ [entry]) id ↔
      Hit sha256Hex options folder disk entries id ∨ (id ∈ entries.map Prod.fst ∧
        CarriesTo options folder (stagedUpTo sha256Hex options folder disk entries) entry
          (sidecarOf folder id)) := by
  constructor
  · rintro ⟨before, last, after, heq, hid, hcarries⟩
    rcases List.eq_nil_or_concat after with rfl | ⟨after, x, rfl⟩
    · obtain ⟨rfl, hlast⟩ := List.append_inj' heq rfl
      obtain rfl := List.singleton_inj.1 hlast
      exact .inr ⟨hid, hcarries⟩
    · rw [List.concat_eq_append, ← List.cons_append, ← List.append_assoc] at heq
      obtain ⟨rfl, -⟩ := List.append_inj' heq rfl
      exact .inl ⟨before, last, after, rfl, hid, hcarries⟩
  · rintro (⟨before, last, after, rfl, hid, hcarries⟩ | ⟨hid, hcarries⟩)
    · exact ⟨before, last, after ++ [entry], by simp, hid, hcarries⟩
    · exact ⟨entries, entry, [], rfl, hid, hcarries⟩

/-- What there is of the fresh sidecar of an instrument. -/
structure Kept (sha256Hex : Chunk → String) (options : SaveOptions) (folder : Location)
    (staging : Staging) (id : InstrumentId) : Prop where
  record : staging.stateWritten.get? id =
    some ⟨stateRefOf id, sha256Hex (options.stateProvider id)⟩
  touched : (some id, sidecarOf folder id) ∈ staging.touched
  there : ∃ content, staging.disk (sidecarOf folder id) = some (.regular content)
  intact : ¬Overwritten id (sidecarOf folder id) staging.touched →
    staging.disk (sidecarOf folder id) = some (.regular (options.stateProvider id))

/-- The save up to an instrument. -/
structure Progress (sha256Hex : Chunk → String) (options : SaveOptions) (folder : Location)
    (disk : Disk) (entries : List (InstrumentId × Instrument)) : Prop where
  /-- What was touched was touched for one of the instruments so far. -/
  owners : ∀ touch ∈ (stagedUpTo sha256Hex options folder disk entries).touched,
    ∀ id, touch.1 = some id → id ∈ entries.map Prod.fst
  records : ∀ id, id ∉ entries.map Prod.fst →
    (stagedUpTo sha256Hex options folder disk entries).stateWritten.get? id = none
  fresh : ∀ id ∈ entries.map Prod.fst, options.stateProvider id ≠ [] →
    Kept sha256Hex options folder (stagedUpTo sha256Hex options folder disk entries) id ∧
      (Overwritten id (sidecarOf folder id)
          (stagedUpTo sha256Hex options folder disk entries).touched ↔
        Hit sha256Hex options folder disk entries id)

theorem progress_nil : Progress sha256Hex options folder disk [] where
  owners touch htouch id hid := by
    rw [List.mem_singleton.1 htouch] at hid
    cases hid
  records _ _ := rfl
  fresh _ hid := by cases hid

/-- A file that is put somewhere for another instrument overwrites a sidecar if it is put there. -/
theorem Placed.overwritten_iff {staging placed : Staging} {other id : InstrumentId}
    {location : Location} {content : Chunk}
    (h : Placed (some other) location content staging placed) (hne : other ≠ id)
    (hkept : Kept sha256Hex options folder staging id) :
    Overwritten id (sidecarOf folder id) placed.touched ↔
      Overwritten id (sidecarOf folder id) staging.touched ∨ location = sidecarOf folder id := by
  obtain ⟨made, htouched, hmade⟩ := h.touched
  obtain ⟨content, hthere⟩ := hkept.there
  rw [htouched, overwritten_append]
  refine or_congr_right ?_
  have howner : ∀ touch ∈ made ++ [(some other, location)], touch.1 = some other :=
    List.forall_mem_append.2
      ⟨fun touch htouch => (hmade touch htouch).1, List.forall_mem_singleton.2 rfl⟩
  constructor
  · rintro (hover | ⟨-, third, -, hmem⟩)
    · exact absurd (Option.some.inj (howner _ hover.mem.1)) (Ne.symm hne)
    · rcases List.mem_append.1 hmem with hmem | hmem
      · -- there is a file, so no directory was made
        have hnone := (hmade _ hmem).2
        rw [hthere] at hnone
        cases hnone
      · exact (Prod.mk.inj (List.mem_singleton.1 hmem)).2.symm
  · rintro rfl
    exact .inr ⟨hkept.touched, other, hne,
      List.mem_append_right _ (List.mem_singleton_self _)⟩

theorem Placed.kept_of_ne {staging placed : Staging} {other id : InstrumentId}
    {location : Location} {content : Chunk}
    (h : Placed (some other) location content staging placed) (hne : other ≠ id)
    (hkept : Kept sha256Hex options folder staging id)
    {stateWritten : OrderedMap InstrumentId StateRecord}
    (hrecord : stateWritten.get? id = staging.stateWritten.get? id) :
    Kept sha256Hex options folder { placed with stateWritten := stateWritten } id := by
  obtain ⟨content', hthere⟩ := hkept.there
  have hiff := h.overwritten_iff hne hkept
  refine ⟨hrecord.trans hkept.record, ?_, ?_, fun hnot => ?_⟩
  · obtain ⟨made, htouched, -⟩ := h.touched
    exact htouched ▸ List.mem_append_left _ hkept.touched
  · by_cases hlocation : location = sidecarOf folder id
    · exact ⟨content, hlocation ▸ h.there⟩
    · exact ⟨content', h.kept _ _ (Ne.symm hlocation) hthere⟩
  · obtain ⟨hnot, hlocation⟩ := not_or.1 (hiff.not.1 hnot)
    exact h.kept _ _ (Ne.symm hlocation) (hkept.intact hnot)

theorem Hit.mem {id : InstrumentId} (h : Hit sha256Hex options folder disk entries id) :
    id ∈ entries.map Prod.fst := by
  obtain ⟨before, last, after, rfl, hid, -⟩ := h
  rw [List.map_append]
  exact List.mem_append_left _ hid

/-- What an instrument has just written is its own. -/
theorem Placed.kept_self (sha256Hex : Chunk → String) {staging placed : Staging} {id : InstrumentId}
    (h : Placed (some id) (sidecarOf folder id) (options.stateProvider id) staging placed)
    (howners : ∀ touch ∈ staging.touched, touch.1 ≠ some id)
    (hrecord : staging.stateWritten.get? id = none) :
    Kept sha256Hex options folder
        { placed with
          stateWritten := staging.stateWritten.emplace id
            ⟨stateRefOf id, sha256Hex (options.stateProvider id)⟩ } id ∧
      ¬Overwritten id (sidecarOf folder id) placed.touched := by
  obtain ⟨made, htouched, hmade⟩ := h.touched
  refine ⟨⟨?_, ?_, ⟨_, h.there⟩, fun _ => h.there⟩, fun hover => ?_⟩
  · rw [OrderedMap.get?_emplace]
    simp [hrecord]
  · rw [show _ = placed.touched from rfl, htouched]
    exact List.mem_append_right _ (List.mem_append_right _ (List.mem_singleton_self _))
  · -- what was touched later was touched for the same instrument
    rw [htouched, overwritten_append] at hover
    rcases hover with hover | hover | ⟨hmem, -⟩
    · exact howners _ hover.mem.1 rfl
    · obtain ⟨-, other, hother, hmem⟩ := hover.mem
      rcases List.mem_append.1 hmem with hmem | hmem
      · exact hother (Option.some.inj (hmade _ hmem).1)
      · exact hother (Option.some.inj (Prod.mk.inj (List.mem_singleton.1 hmem)).1)
    · exact howners _ hmem rfl

theorem mem_keys_append {id : InstrumentId} : id ∈ (entries ++ [entry]).map Prod.fst ↔
    id ∈ entries.map Prod.fst ∨ id = entry.1 := by
  rw [List.map_append, List.mem_append, List.map_singleton, List.mem_singleton]

/-- The entry that is staged now has touched something too. -/
theorem Progress.owners_placed (h : Progress sha256Hex options folder disk entries)
    {location : Location} {content : Chunk} {placed : Staging}
    (hplaced : Placed (some entry.1) location content
      (stagedUpTo sha256Hex options folder disk entries) placed) :
    ∀ touch ∈ placed.touched, ∀ id, touch.1 = some id → id ∈ (entries ++ [entry]).map Prod.fst := by
  intro touch htouch id hid
  obtain ⟨made, htouched, hmade⟩ := hplaced.touched
  have howner : ∀ touch ∈ made ++ [(some entry.1, location)], touch.1 = some entry.1 :=
    List.forall_mem_append.2
      ⟨fun touch htouch => (hmade touch htouch).1, List.forall_mem_singleton.2 rfl⟩
  rw [htouched] at htouch
  rw [mem_keys_append]
  rcases List.mem_append.1 htouch with htouch | htouch
  · exact .inl (h.owners touch htouch id hid)
  · exact .inr (Option.some.inj (hid.symm.trans (howner touch htouch)))

theorem Progress.append (h : Progress sha256Hex options folder disk entries)
    (hnew : entry.1 ∉ entries.map Prod.fst)
    (hstaged : Staged sha256Hex options folder (stagedUpTo sha256Hex options folder disk entries)
      entry (stagedUpTo sha256Hex options folder disk (entries ++ [entry]))) :
    Progress sha256Hex options folder disk (entries ++ [entry]) := by
  generalize hafter : stagedUpTo sha256Hex options folder disk (entries ++ [entry]) = after at hstaged
  cases hstaged with
  | skipped hnone hcarries =>
    refine ⟨fun touch htouch id hid => ?_, fun id hid => ?_, fun id hid hchunk => ?_⟩
    · rw [hafter] at htouch
      exact mem_keys_append.2 (.inl (h.owners touch htouch id hid))
    · rw [hafter]
      exact h.records id fun hmem => hid (mem_keys_append.2 (.inl hmem))
    · rw [hafter, hit_append, or_iff_left fun hhit => hcarries _ hhit.2]
      rcases mem_keys_append.1 hid with hmem | rfl
      · exact h.fresh id hmem hchunk
      · exact absurd hnone hchunk
  | carried hnone hcarries hplaced =>
    -- the file it carries may be put onto the sidecar of an instrument before
    refine ⟨?_, fun id hid => ?_, fun id hid hchunk => ?_⟩
    · rw [hafter]
      exact h.owners_placed hplaced
    · rw [hafter, hplaced.stateWritten]
      exact h.records id fun hmem => hid (mem_keys_append.2 (.inl hmem))
    · rcases mem_keys_append.1 hid with hmem | rfl
      · have hne : entry.1 ≠ id := fun heq => hnew (heq ▸ hmem)
        obtain ⟨hkept, hover⟩ := h.fresh id hmem hchunk
        rw [hafter, hit_append, hplaced.overwritten_iff hne hkept, hover, hcarries]
        refine ⟨hplaced.kept_of_ne hne hkept (congrArg (·.get? id) hplaced.stateWritten), ?_⟩
        exact or_congr_right ⟨fun heq => ⟨hmem, heq.symm⟩, fun hhit => hhit.2.symm⟩
      · exact absurd hnone hchunk
  | written hchunk hplaced =>
    have hcarries : ∀ staging location, ¬CarriesTo options folder staging entry location :=
      fun _ _ hcarries => hchunk hcarries.1
    refine ⟨?_, fun id hid => ?_, fun id hid hchunk' => ?_⟩
    · rw [hafter]
      exact fun touch htouch => h.owners_placed hplaced touch htouch
    · rw [hafter, OrderedMap.get?_emplace]
      obtain ⟨hmem, hne⟩ := not_or.1 (mem_keys_append.not.1 hid)
      simp [h.records id hmem, hne]
    · rw [hafter, hit_append, or_iff_left fun hhit => hcarries _ _ hhit.2]
      rcases mem_keys_append.1 hid with hmem | rfl
      · have hne : entry.1 ≠ id := fun heq => hnew (heq ▸ hmem)
        obtain ⟨hkept, hover⟩ := h.fresh id hmem hchunk'
        refine ⟨hplaced.kept_of_ne hne hkept ?_, ?_⟩
        · rw [OrderedMap.get?_emplace]
          simp [Ne.symm hne]
        · rw [← hover]
          refine (hplaced.overwritten_iff hne hkept).trans (or_iff_left fun heq => ?_)
          exact hne (sidecarOf_injective folder heq)
      · obtain ⟨hkept, hnot⟩ := hplaced.kept_self sha256Hex
          (fun touch htouch hid => hnew (h.owners touch htouch _ hid)) (h.records _ hnew)
        exact ⟨hkept, iff_of_false hnot fun hhit => hnew hhit.mem⟩

theorem stagedUpTo_append : stagedUpTo sha256Hex options folder disk (entries ++ [entry]) =
    stageInstrument sha256Hex options folder (stagedUpTo sha256Hex options folder disk entries)
      entry := by
  rw [stagedUpTo, stageInstruments, List.foldl_append]
  rfl

/-- A step of a save that goes on. -/
theorem staged_stagedUpTo
    (hfailed : (stagedUpTo sha256Hex options folder disk (entries ++ [entry])).failed = false) :
    (stagedUpTo sha256Hex options folder disk entries).failed = false ∧
      Staged sha256Hex options folder (stagedUpTo sha256Hex options folder disk entries) entry
        (stagedUpTo sha256Hex options folder disk (entries ++ [entry])) := by
  rw [stagedUpTo_append] at hfailed ⊢
  -- a save that was abandoned stays so
  have hbefore : (stagedUpTo sha256Hex options folder disk entries).failed = false := by
    by_contra hbefore
    rw [Bool.not_eq_false] at hbefore
    rw [stageInstrument, if_pos hbefore, hbefore] at hfailed
    cases hfailed
  exact ⟨hbefore, staged_stageInstrument hbefore hfailed⟩

theorem progress (hnodup : (entries.map Prod.fst).Nodup)
    (hfailed : (stagedUpTo sha256Hex options folder disk entries).failed = false) :
    Progress sha256Hex options folder disk entries := by
  induction entries using List.reverseRecOn with
  | nil => exact progress_nil
  | append_singleton entries entry ih =>
    rw [List.map_append, List.map_singleton, List.nodup_append] at hnodup
    have hnew : entry.1 ∉ entries.map Prod.fst := fun hmem =>
      hnodup.2.2 _ hmem _ (List.mem_singleton_self _) rfl
    obtain ⟨hbefore, hstaged⟩ := staged_stagedUpTo hfailed
    exact (ih hnodup.1 hbefore).append hnew hstaged

/-! ### The whole save -/

variable {writeProjectJson : OrderedMap InstrumentId StateRecord → Chunk} {staging : Staging}

theorem stageDocument_placed
    (hfailed : (stageDocument folder writeProjectJson staging).failed = false) :
    staging.failed = false ∧ Placed none (folder ++ ["project.json".toList])
      (writeProjectJson staging.stateWritten) staging
      (stageDocument folder writeProjectJson staging) := by
  unfold stageDocument at hfailed ⊢
  split_ifs at hfailed ⊢ with hbefore
  · rw [hbefore] at hfailed
    cases hfailed
  · dsimp only at hfailed ⊢
    split_ifs at hfailed ⊢
    have hself : Prepared none staging staging :=
      ⟨⟨[], (List.append_nil _).symm, List.forall_mem_nil _⟩, fun _ _ h => h, rfl, rfl⟩
    exact ⟨Bool.eq_false_iff.2 hbefore, hself.writeFile hfailed⟩

/-- The document is not a sidecar, and overwrites none. -/
theorem Placed.kept_of_document {placed : Staging} {content : Chunk} {id : InstrumentId}
    (h : Placed none (folder ++ ["project.json".toList]) content staging placed)
    (hkept : Kept sha256Hex options folder staging id) :
    Kept sha256Hex options folder placed id ∧
      (Overwritten id (sidecarOf folder id) placed.touched ↔
        Overwritten id (sidecarOf folder id) staging.touched) := by
  obtain ⟨made, htouched, hmade⟩ := h.touched
  have hne : sidecarOf folder id ≠ folder ++ ["project.json".toList] := by
    rw [sidecarOf, join_stateRefOf]
    intro heq
    exact absurd (List.cons.inj (List.append_cancel_left heq)).1 (by decide)
  have howner : ∀ touch ∈ made ++ [((none : Option InstrumentId),
      folder ++ ["project.json".toList])], touch.1 = none :=
    List.forall_mem_append.2
      ⟨fun touch htouch => (hmade touch htouch).1, List.forall_mem_singleton.2 rfl⟩
  -- what is put down for no instrument is not another's
  have hover : Overwritten id (sidecarOf folder id) placed.touched ↔
      Overwritten id (sidecarOf folder id) staging.touched := by
    rw [htouched, overwritten_append]
    refine or_iff_left ?_
    rintro (hover | ⟨-, other, -, hmem⟩)
    · exact absurd (howner _ hover.mem.1) nofun
    · exact absurd (howner _ hmem) nofun
  obtain ⟨content', hthere⟩ := hkept.there
  refine ⟨⟨h.stateWritten ▸ hkept.record, htouched ▸ List.mem_append_left _ hkept.touched,
    ⟨content', h.kept _ _ hne hthere⟩, fun hnot => ?_⟩, hover⟩
  exact h.kept _ _ hne (hkept.intact (hover.not.1 hnot))

/-- Every fresh sidecar is recorded, is what its checksum was taken of, and was not overwritten for
another instrument. -/
def StateIntact (sha256Hex : Chunk → String) (options : SaveOptions) (folder : Location)
    (project : Tables) (saved : Staging) : Prop :=
  ∀ id instrument, project.instruments.get? id = some instrument →
    options.stateProvider id ≠ [] → ∃ record, saved.stateWritten.get? id = some record ∧
      saved.disk (join folder record.stateRef.toList) = some (.regular (options.stateProvider id)) ∧
      record.sha256 = sha256Hex (options.stateProvider id) ∧
      ¬Overwritten id (join folder record.stateRef.toList) saved.touched

/-- No instrument without state carries a file onto a fresh sidecar of an earlier one. -/
def CarriesOntoNone (sha256Hex : Chunk → String) (options : SaveOptions) (folder : Location)
    (disk : Disk) (project : Tables) : Prop :=
  ∀ before entry after, project.instruments.entries = before ++ entry :: after →
    ∀ earlier ∈ before, options.stateProvider earlier.1 ≠ [] →
      ¬CarriesTo options folder
        (stageInstruments sha256Hex options folder (begin disk folder) before) entry
        (join folder (stateRefOf earlier.1).toList)

theorem mem_instruments {project : Tables} {id : InstrumentId} :
    id ∈ project.instruments.entries.map Prod.fst ↔
      ∃ instrument, project.instruments.get? id = some instrument :=
  OrderedMap.mem_keys

/-- A fresh sidecar is there when the document has been written as well. -/
theorem kept_saveProject {project : Tables} (hfailed : (saveProject sha256Hex options folder
      writeProjectJson disk project).failed = false)
    {id : InstrumentId} {instrument : Instrument}
    (hinstrument : project.instruments.get? id = some instrument)
    (hchunk : options.stateProvider id ≠ []) :
    Kept sha256Hex options folder
        (saveProject sha256Hex options folder writeProjectJson disk project) id ∧
      (Overwritten id (sidecarOf folder id)
          (saveProject sha256Hex options folder writeProjectJson disk project).touched ↔
        Hit sha256Hex options folder disk project.instruments.entries id) := by
  obtain ⟨hbefore, hdocument⟩ := stageDocument_placed hfailed
  have hprogress := progress (project.instruments.sorted.imp ne_of_lt) hbefore
  obtain ⟨hkept, hover⟩ := hprogress.fresh id (mem_instruments.2 ⟨instrument, hinstrument⟩) hchunk
  obtain ⟨hkept', hover'⟩ := hdocument.kept_of_document hkept
  exact ⟨hkept', hover'.trans hover⟩

theorem intact_iff (project : Tables) (hfailed : (saveProject sha256Hex options folder
      writeProjectJson disk project).failed = false) :
    StateIntact sha256Hex options folder project
        (saveProject sha256Hex options folder writeProjectJson disk project) ↔
      CarriesOntoNone sha256Hex options folder disk project := by
  constructor
  · intro h before entry after heq earlier hearlier hchunk hcarries
    have hin : earlier.1 ∈ project.instruments.entries.map Prod.fst := by
      rw [heq, List.map_append]
      exact List.mem_append_left _ (List.mem_map_of_mem hearlier)
    obtain ⟨instrument, hinstrument⟩ := mem_instruments.1 hin
    obtain ⟨hkept, hover⟩ := kept_saveProject hfailed hinstrument hchunk
    obtain ⟨record, hrecord, -, -, hnot⟩ := h earlier.1 instrument hinstrument hchunk
    obtain rfl := Option.some.inj (hkept.record.symm.trans hrecord)
    exact hnot (hover.2 ⟨before, entry, after, heq, List.mem_map_of_mem hearlier, hcarries⟩)
  · intro h id instrument hinstrument hchunk
    obtain ⟨hkept, hover⟩ := kept_saveProject hfailed hinstrument hchunk
    have hnot : ¬Hit sha256Hex options folder disk project.instruments.entries id := by
      rintro ⟨before, entry, after, heq, hid, hcarries⟩
      obtain ⟨earlier, hearlier, rfl⟩ := List.mem_map.1 hid
      exact h before entry after heq earlier hearlier hchunk hcarries
    exact ⟨_, hkept.record, hkept.intact (hover.not.2 hnot), rfl, hover.not.2 hnot⟩

/-- **Fresh sidecars are what their checksums say, exactly when none is carried onto.** -/
theorem stateIntact_iff (sha256Hex : Chunk → String) (options : SaveOptions) (parent : Location)
    (bundle : Component) (processId : ℕ)
    (writeProjectJson : OrderedMap InstrumentId StateRecord → Chunk) (disk : Disk)
    (project : Tables)
    (hstaged : (saveProject sha256Hex options (parent ++ [stagingName bundle processId])
      writeProjectJson disk project).failed = false) :
    StateIntact sha256Hex options (parent ++ [stagingName bundle processId]) project
        (saveProject sha256Hex options (parent ++ [stagingName bundle processId]) writeProjectJson
          disk project) ↔
      CarriesOntoNone sha256Hex options (parent ++ [stagingName bundle processId]) disk project :=
  intact_iff project hstaged

/-- An instrument and its duplicate, made after a save. -/
def duplicatedBass : Tables :=
  { newProject ⟨1⟩ with
    instruments := (OrderedMap.empty.assign ⟨2⟩
        { name := "Bass", plugin := { stateRef := stateRefOf ⟨2⟩ } }).assign ⟨3⟩
      { name := "Bass 2", order := 1, plugin := { stateRef := stateRefOf ⟨2⟩ } } }

/-- The bundle that was saved, and a folder for the next. -/
def savedBass (location : Location) : Option File :=
  if location = ["old".toList, "song".toList, "state".toList, sidecarName ⟨2⟩] then
    some (.regular [0])
  else if location = [] ∨ location = ["new".toList] then some .directory
  else none

/-- The plug-ins of some instruments answer. -/
def answering (ids : List InstrumentId) : SaveOptions where
  stateProvider id := if id ∈ ids then [1] else []
  copyStateFrom := some ["old".toList, "song".toList]

/-- Both plug-ins answer. -/
theorem stateIntact_iff_duplicatedBass :
    (saveProject (fun _ => "") (answering [⟨2⟩, ⟨3⟩])
      (["new".toList] ++ [stagingName "song".toList 7]) (fun _ => [0]) savedBass
        duplicatedBass).failed = false ∧
    (StateIntact (fun _ => "") (answering [⟨2⟩, ⟨3⟩])
        (["new".toList] ++ [stagingName "song".toList 7]) duplicatedBass
        (saveProject (fun _ => "") (answering [⟨2⟩, ⟨3⟩])
          (["new".toList] ++ [stagingName "song".toList 7]) (fun _ => [0]) savedBass
            duplicatedBass) ↔
      CarriesOntoNone (fun _ => "") (answering [⟨2⟩, ⟨3⟩])
        (["new".toList] ++ [stagingName "song".toList 7]) savedBass duplicatedBass) :=
  ⟨by decide +kernel, stateIntact_iff _ _ _ _ _ _ _ _ (by decide +kernel)⟩

/-- **The plug-in of the duplicate does not answer**: what the bundle had for both is copied over
what the first has just saved. -/
theorem not_stateIntact_duplicatedBass :
    duplicatedBass.checkReferentialIntegrity = [] ∧
      (saveProject (fun _ => "") (answering [⟨2⟩])
        ["new".toList, stagingName "song".toList 7] (fun _ => [0]) savedBass
          duplicatedBass).failed = false ∧
      ¬StateIntact (fun _ => "") (answering [⟨2⟩]) ["new".toList, stagingName "song".toList 7]
        duplicatedBass (saveProject (fun _ => "") (answering [⟨2⟩])
          ["new".toList, stagingName "song".toList 7] (fun _ => [0]) savedBass duplicatedBass) := by
  refine ⟨by decide +kernel, by decide +kernel, fun h => ?_⟩
  obtain ⟨record, hrecord, hfile, -⟩ := h ⟨2⟩ _ (by decide +kernel : duplicatedBass.instruments.get?
    ⟨2⟩ = some { name := "Bass", plugin := { stateRef := stateRefOf ⟨2⟩ } }) (by decide)
  obtain rfl := Option.some.inj ((by decide +kernel : (saveProject (fun _ => "") (answering [⟨2⟩])
    ["new".toList, stagingName "song".toList 7] (fun _ => [0]) savedBass
      duplicatedBass).stateWritten.get? ⟨2⟩ = some ⟨stateRefOf ⟨2⟩, ""⟩).symm.trans hrecord)
  revert hfile
  decide +kernel

end Bundle

end OneBeat
