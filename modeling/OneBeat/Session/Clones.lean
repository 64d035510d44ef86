import OneBeat.Model.ClonedPatterns
import OneBeat.Session.CurrentPattern

/-!
# Making clips unique

`clonePattern` copies the settings of a pattern and its sequences through commands; the curves the
pattern owns are not among them.

* `Session.cloning_clonePattern` : what the commands leave is the project with a clone in it.
* `Session.heard_clone_iff` : **what is heard stays the same exactly when no curve is lost.**
-/

namespace OneBeat

/-- `project'` is `project` with the pattern `value` added, which the clips `moved` play. -/
structure Cloning (copy : PatternId) (value : Pattern) (moved : List ClipId)
    (project project' : Tables) : Prop where
  patterns : project'.patterns = project.patterns.assign copy value
  clips : project'.clips = project.clips.mapValues fun id clip =>
    if id ∈ moved then clip.playing copy else clip
  instruments : project'.instruments = project.instruments
  lanes : project'.lanes = project.lanes
  mixerTracks : project'.mixerTracks = project.mixerTracks
  transport : project'.transport = project.transport

namespace Cloning

variable {copy : PatternId} {value : Pattern} {moved : List ClipId} {project project' : Tables}

theorem get?_copy (h : Cloning copy value moved project project') :
    project'.patterns.get? copy = some value := by
  rw [h.patterns, OrderedMap.get?_assign, if_pos rfl]

/-- The settings of the clone are edited. -/
theorem editPatternMeta (h : Cloning copy value moved project project') {field : ChangeField}
    {mutator : PatternMeta → PatternMeta} {c : Command}
    (hc : editPatternMeta project' copy field mutator = some c)
    (hok : (c.apply project').ok = true) :
    Cloning copy (value.withMeta (mutator (.ofPattern value))) moved project
      (c.apply project').state := by
  unfold OneBeat.editPatternMeta at hc
  rw [h.get?_copy, Option.map_some] at hc
  obtain rfl := Option.some_inj.1 hc
  have hcontains : project'.patterns.contains copy = true :=
    OrderedMap.contains_eq_true_iff.2 ⟨_, h.get?_copy⟩
  simp only [Command.apply, EditCommand.apply, EditTarget.write, Tables.updatePattern,
    if_pos hcontains, Outcome.ofOption, Outcome.map]
  exact ⟨by rw [h.patterns, OrderedMap.modify_assign], h.clips, h.instruments, h.lanes, h.mixerTracks,
    h.transport⟩

/-- Notes are put into the clone, which no clip plays yet. -/
theorem insertNotes (h : Cloning copy value [] project project')
    (hunused : ∀ id clip, project.clips.get? id = some clip → clip.pattern ≠ some copy)
    {instrument : InstrumentId} {notes : List Note}
    (hok : ((Command.note (insertNotes copy instrument notes)).apply project').ok = true) :
    Cloning copy (value.withSequence instrument (.assignSorted (value.notesOf instrument ++ notes)))
      [] project ((Command.note (OneBeat.insertNotes copy instrument notes)).apply project').state := by
  rw [Command.apply] at hok ⊢
  obtain ⟨pattern, hpattern, happlies⟩ := NoteCommand.apply_ok_iff.1 hok
  obtain rfl := Option.some_inj.1 (hpattern.symm.trans h.get?_copy)
  have hclips : project'.clips = project.clips := by
    rw [h.clips]
    exact OrderedMap.mapValues_eq_self fun _ _ _ => if_neg (List.not_mem_nil)
  -- no clip follows the length of the clone
  have hresult : (OneBeat.insertNotes copy instrument notes).result project' pattern =
      project'.withNotes copy instrument (pattern.notesOf instrument ++ notes) := by
    unfold NoteCommand.result
    refine Tables.mapClips_eq_self fun id clip hclip => ?_
    have hother := hunused id clip (hclips ▸ hclip)
    exact if_neg (by simp [Tables.follows, OneBeat.insertNotes, hother])
  have hstate : (((OneBeat.insertNotes copy instrument notes).apply project').map Command.note).state =
      project'.withNotes copy instrument (pattern.notesOf instrument ++ notes) := by
    rw [NoteCommand.apply_eq hpattern happlies]
    exact hresult
  rw [hstate]
  refine ⟨?_, h.clips, h.instruments, h.lanes, h.mixerTracks, h.transport⟩
  unfold Tables.withNotes
  rw [h.patterns, OrderedMap.modify_assign]

/-- A clip is moved to the clone. -/
theorem editClip (h : Cloning copy value moved project project') {id : ClipId} {c : Command}
    (hc : editClip project' id .source (fun clip => { clip with source := .pattern copy }) = some c)
    (hok : (c.apply project').ok = true) :
    Cloning copy value (id :: moved) project (c.apply project').state := by
  unfold OneBeat.editClip at hc
  obtain ⟨live, hlive, rfl⟩ := Option.map_eq_some_iff.1 hc
  have hcontains : project'.clips.contains id = true :=
    OrderedMap.contains_eq_true_iff.2 ⟨_, hlive⟩
  simp only [Command.apply, EditCommand.apply, EditTarget.write, Tables.updateClip,
    if_pos hcontains, Outcome.ofOption, Outcome.map]
  refine ⟨h.patterns, ?_, h.instruments, h.lanes, h.mixerTracks, h.transport⟩
  refine OrderedMap.ext_get? fun k => ?_
  rw [h.clips, OrderedMap.get?_mapValues] at hlive
  rw [OrderedMap.get?_modify, OrderedMap.get?_mapValues, h.clips, OrderedMap.get?_mapValues]
  by_cases hk : k = id
  · subst hk
    obtain ⟨clip, hclip, rfl⟩ := Option.map_eq_some_iff.1 hlive
    rw [if_pos rfl, hclip, Option.map_some, Option.map_some, Option.map_some,
      if_pos List.mem_cons_self]
    split_ifs <;> rfl
  · have hmem : k ∈ id :: moved ↔ k ∈ moved := by simp [hk]
    simp only [if_neg hk, hmem]

end Cloning

/-- The clone of a pattern before it has notes; there was no pattern of its id. -/
theorem cloning_addPattern {project : Tables} {copy : PatternId} {name : String} {length : ℤ}
    (hok : ((addPattern project copy name length).apply project).ok = true) :
    project.patterns.get? copy = none ∧
      ∃ order, Cloning copy { name, length, order } [] project
        ((addPattern project copy name length).apply project).state := by
  unfold addPattern at hok ⊢
  simp only [Command.apply, AddedEntity.apply, AddedEntity.restore, Tables.restorePattern]
    at hok ⊢
  split_ifs at hok ⊢ with hthere
  · cases hok
  · have hnew : project.patterns.contains copy = false := by
      rw [Bool.or_eq_true, not_or] at hthere
      exact Bool.eq_false_of_not_eq_true hthere.2
    exact ⟨OrderedMap.contains_eq_false_iff.1 hnew, _, rfl,
      (OrderedMap.mapValues_eq_self fun _ _ _ => if_neg (List.not_mem_nil)).symm,
      rfl, rfl, rfl, rfl⟩

/-! ### Commands that all succeed -/

/-- The commands are built and made one after the other, and all of them succeed. -/
def MakesAll : List (Tables → Option Command) → Tables → Tables → Prop
  | [], project, project' => project' = project
  | build :: builds, project, project' =>
    ∃ c, build project = some c ∧ (c.apply project).ok = true ∧
      MakesAll builds (c.apply project).state project'

theorem makesAll_append {builds builds' : List (Tables → Option Command)} {project project' : Tables} :
    MakesAll (builds ++ builds') project project' ↔
      ∃ between, MakesAll builds project between ∧ MakesAll builds' between project' := by
  induction builds generalizing project with
  | nil => simp [MakesAll]
  | cons build builds ih =>
    simp only [List.cons_append, MakesAll, ih]
    constructor
    · rintro ⟨c, hc, hok, between, hbuilds, hbuilds'⟩
      exact ⟨between, ⟨c, hc, hok, hbuilds⟩, hbuilds'⟩
    · rintro ⟨between, ⟨c, hc, hok, hbuilds⟩, hbuilds'⟩
      exact ⟨c, hc, hok, between, hbuilds, hbuilds'⟩

/-- A sequence is put into a clone that has none for the instrument. -/
theorem withSequence_assignSorted {value : Pattern} {instrument : InstrumentId}
    {sequence : NoteSequence} (hnew : value.sequences.get? instrument = none)
    (hempty : sequence.empty = false) :
    value.withSequence instrument (.assignSorted (value.notesOf instrument ++ sequence.notes)) =
      { value with sequences := value.sequences.assign instrument sequence } := by
  have hnotes : value.notesOf instrument = [] := by
    unfold Pattern.notesOf
    rw [hnew]
    rfl
  have hsequence : NoteSequence.assignSorted sequence.notes = sequence :=
    NoteSequence.ext (by rw [NoteSequence.notes_assignSorted, sequence.stableSort_notes])
  rw [hnotes, List.nil_append, hsequence]
  unfold Pattern.withSequence
  rw [if_neg (by simp [hempty])]

/-- The sequences are put into the clone one after the other. -/
theorem Cloning.insertAll {copy : PatternId} {value : Pattern} {project between project' : Tables}
    (hunused : ∀ id clip, project.clips.get? id = some clip → clip.pattern ≠ some copy)
    {entries : List (InstrumentId × NoteSequence)} (hentries : Entries.Sorted entries)
    (hempty : ∀ entry ∈ entries, entry.2.empty = false)
    (hnew : ∀ entry ∈ entries, value.sequences.get? entry.1 = none)
    (h : Cloning copy value [] project between)
    (hmade : MakesAll (entries.map fun entry _ =>
      some (.note (OneBeat.insertNotes copy entry.1 entry.2.notes))) between project') :
    Cloning copy { value with
      sequences := entries.foldl (fun m entry => m.assign entry.1 entry.2) value.sequences }
      [] project project' := by
  induction entries generalizing value between with
  | nil =>
    obtain rfl : project' = between := hmade
    exact h
  | cons entry entries ih =>
    obtain ⟨k, sequence⟩ := entry
    obtain ⟨hlater, hsorted⟩ := Entries.sorted_cons.1 hentries
    obtain ⟨c, hc, hok, hrest⟩ := hmade
    obtain rfl := Option.some_inj.1 hc
    have hinserted := h.insertNotes hunused hok
    rw [withSequence_assignSorted (hnew _ List.mem_cons_self) (hempty _ List.mem_cons_self)]
      at hinserted
    refine ih hsorted (fun e he => hempty e (List.mem_cons_of_mem _ he)) (fun e he => ?_)
      hinserted hrest
    rw [OrderedMap.get?_assign, if_neg (hlater e he).ne']
    exact hnew e (List.mem_cons_of_mem _ he)

/-- The clips of a selection are moved to the clone. -/
theorem Cloning.repointAll {copy : PatternId} {value : Pattern} {moved : List ClipId}
    {project between project' : Tables} (h : Cloning copy value moved project between)
    {ids : List ClipId}
    (hmade : MakesAll (ids.map fun id project => OneBeat.editClip project id .source fun clip =>
      { clip with source := .pattern copy }) between project') :
    Cloning copy value (ids.reverse ++ moved) project project' := by
  induction ids generalizing moved between with
  | nil =>
    obtain rfl : project' = between := hmade
    exact h
  | cons id ids ih =>
    obtain ⟨c, hc, hok, hrest⟩ := hmade
    rw [List.reverse_cons, List.append_assoc]
    exact ih (h.editClip hc hok) hrest

theorem Cloning.cloned {source copy : PatternId} {pattern value : Pattern} {moved : List ClipId}
    {project project' : Tables} (h : Cloning copy value moved project project')
    (hsource : project.patterns.get? source = some pattern) (hplays : value.PlaysAs pattern)
    (hunused : ∀ id clip, project.clips.get? id = some clip → clip.pattern ≠ some copy)
    (hplayed : ∀ id ∈ moved, ∀ clip, project.clips.get? id = some clip →
      clip.pattern = some source) :
    Cloned source copy pattern value moved project project' where
  original := hsource
  added := h.get?_copy
  playsAs := hplays
  others id hid := by rw [h.patterns, OrderedMap.get?_assign, if_neg hid]
  unused := hunused
  played := hplayed
  clips := h.clips
  instruments := h.instruments
  lanes := h.lanes
  mixerTracks := h.mixerTracks
  transport := h.transport

theorem Uncurved.congr {project : Tables} {pattern : Pattern} {moved moved' : List ClipId}
    (h : ∀ id, id ∈ moved ↔ id ∈ moved') :
    Uncurved project pattern moved ↔ Uncurved project pattern moved' := by
  unfold Uncurved
  simp only [h]

/-- A clip is placed on the pattern. -/
def Tables.place (id : ClipId) (copy : PatternId) (project : Tables) : Tables :=
  { project with clips := project.clips.modify id (Clip.playing copy) }

theorem Tables.place_nameLanes (names : List (InstrumentId × String)) (id : ClipId)
    (copy : PatternId) (project : Tables) :
    (project.nameLanes names).place id copy = (project.place id copy).nameLanes names := by
  induction names generalizing project with
  | nil => rfl
  | cons entry names ih =>
    refine (ih _).trans (congrArg (Tables.nameLanes names) ?_)
    unfold Tables.updateInstrument place
    dsimp only
    split_ifs <;> rfl

theorem Cloning.place {copy : PatternId} {value : Pattern} {project project' : Tables}
    (h : Cloning copy value [] project project') (id : ClipId) :
    Cloning copy value [id] project (project'.place id copy) := by
  refine ⟨h.patterns, ?_, h.instruments, h.lanes, h.mixerTracks, h.transport⟩
  refine OrderedMap.ext_get? fun k => ?_
  unfold Tables.place
  rw [OrderedMap.get?_modify, OrderedMap.get?_mapValues, h.clips, OrderedMap.get?_mapValues]
  by_cases hk : k = id
  · subst hk
    cases project.clips.get? k <;> simp
  · simp [hk]

namespace Session

theorem makesAll_executeAll {builds : List (Tables → Option Command)} {s : Session}
    (hdone : (s.executeAll builds).1 = true) :
    MakesAll builds s.project (s.executeAll builds).2.project := by
  induction builds generalizing s with
  | nil => rfl
  | cons build builds ih =>
    unfold executeAll at hdone ⊢
    dsimp only at hdone ⊢
    split_ifs at hdone ⊢ with hok
    swap
    · exact absurd hdone hok
    cases hc : build s.project with
    | none =>
      rw [hc] at hok
      cases hok
    | some c =>
      rw [hc] at hok hdone
      obtain ⟨hanswer, hproject⟩ := execute_some s c
      refine ⟨c, hc, hanswer.symm.trans hok, ?_⟩
      rw [← hproject]
      exact ih hdone

theorem makesAll_transact {builds : List (Tables → Option Command)} {s : Session}
    (hdone : (s.transact builds).1 = true) :
    MakesAll builds s.project (s.transact builds).2.project := by
  unfold transact at hdone ⊢
  dsimp only at hdone ⊢
  split_ifs at hdone ⊢ with hok
  rw [project_commitTransaction]
  exact makesAll_executeAll hok

/-- **What `clonePattern` leaves is a clone of everything but the curves.** -/
theorem cloning_clonePattern {copy : PatternId} {source : Pattern} {name : String}
    {project project' : Tables}
    (hunused : ∀ id clip, project.clips.get? id = some clip → clip.pattern ≠ some copy)
    (hmade : MakesAll (clonePattern copy source name) project project') :
    project.patterns.get? copy = none ∧
      ∃ value : Pattern, value.PlaysAs source ∧ Cloning copy value [] project project' := by
  obtain ⟨between, ⟨added, hadded, haddok, edited, hedited, heditok, hbetween⟩, hnotes⟩ :=
    makesAll_append.1 hmade
  obtain rfl := Option.some_inj.1 hadded
  obtain ⟨hnew, order, hcloning⟩ := cloning_addPattern haddok
  have hcloning := hcloning.editPatternMeta hedited heditok
  rw [← show between = _ from hbetween] at hcloning
  have hall := Cloning.insertAll hunused (source.sequences.sorted.filter _)
    (fun entry hentry => by simpa using (List.mem_filter.1 hentry).2) (fun _ _ => rfl) hcloning
    hnotes
  refine ⟨hnew, _, ?_, hall⟩
  refine ⟨rfl, rfl, ?_, rfl⟩
  exact OrderedMap.foldl_assign_entries
    (m := source.sequences.filter fun _ sequence => !sequence.empty)

/-! ### Publishing -/

/-- The lengths of the patterns are those of the last publish. -/
def Measured (s : Session) : Prop :=
  s.patternLengths = s.project.patterns.mapValues fun _ => patternEffectiveLength

/-- A publish resizes clips and names instruments; the patterns are as they were. -/
theorem project_publishModel (s : Session) (host : InstrumentId → HostAnswer) (replaced : Bool) :
    ∃ names, (s.publishModel host replaced).project =
      (s.project.setLengths s.fittedClips).nameLanes names := by
  obtain ⟨_, _, _, _, _, hflush⟩ := s.fitClipsToPatterns.flush_eq
  unfold publishModel
  rw [hflush]
  exact ⟨_, rfl⟩

theorem nameLanes_eq (names : List (InstrumentId × String)) (project : Tables) :
    ∃ instruments, project.nameLanes names = { project with instruments } := by
  induction names generalizing project with
  | nil => exact ⟨_, rfl⟩
  | cons entry names ih =>
    have hentry : ∃ instruments, (project.updateInstrument entry.1
        (Instrument.named entry.2)).getD project = { project with instruments } := by
      unfold Tables.updateInstrument
      split_ifs
      · exact ⟨_, rfl⟩
      · exact ⟨_, rfl⟩
    obtain ⟨instruments, hentry⟩ := hentry
    obtain ⟨named, hnamed⟩ := ih { project with instruments }
    refine ⟨named, ?_⟩
    unfold Tables.nameLanes at hnamed ⊢
    rw [List.foldl_cons, hentry]
    exact hnamed

/-- Every publish measures. -/
theorem measured_publishModel (s : Session) (host : InstrumentId → HostAnswer) (replaced : Bool) :
    (s.publishModel host replaced).Measured := by
  obtain ⟨names, hproject⟩ := s.project_publishModel host replaced
  obtain ⟨_, _, _, _, _, hflush⟩ := s.fitClipsToPatterns.flush_eq
  have hlengths : (s.publishModel host replaced).patternLengths =
      s.project.patterns.mapValues fun _ => patternEffectiveLength := by
    unfold publishModel
    rw [hflush]
    rfl
  obtain ⟨instruments, hnamed⟩ := nameLanes_eq names (s.project.setLengths s.fittedClips)
  unfold Measured
  rw [hlengths, hproject, hnamed, Tables.setLengths_eq]
  rfl

theorem patternLengths_executeAll (builds : List (Tables → Option Command)) (s : Session) :
    (s.executeAll builds).2.patternLengths = s.patternLengths := by
  induction builds generalizing s with
  | nil => rfl
  | cons build builds ih =>
    unfold executeAll
    dsimp only
    split_ifs
    · exact ih _
    · rfl

theorem patternLengths_transact (builds : List (Tables → Option Command)) (s : Session) :
    (s.transact builds).2.patternLengths = s.patternLengths := by
  have h := patternLengths_executeAll builds s.beginTransaction
  unfold transact
  dsimp only
  split_ifs
  · exact h
  · exact h

/-- A clone is new to the next publish, and the other patterns are as long as they were. -/
theorem Measured.fittedClips_of_cloning {s s' : Session} (hs : s.Measured) {copy : PatternId}
    {value : Pattern} {moved : List ClipId} (h : Cloning copy value moved s.project s'.project)
    (hnew : s.project.patterns.get? copy = none) (hlengths : s'.patternLengths = s.patternLengths) :
    s'.fittedClips = [] := by
  unfold fittedClips
  refine List.flatMap_eq_nil_iff.2 fun entry hentry => ?_
  have hget := OrderedMap.get?_eq_some_iff.2 hentry
  rw [h.patterns, OrderedMap.get?_assign] at hget
  dsimp only
  rw [hlengths, hs, OrderedMap.get?_mapValues]
  split_ifs at hget with hcopy
  · rw [hcopy, hnew]
    rfl
  · rw [hget]
    exact if_pos rfl

/-! ### What is heard -/

/-- All the clips of a selection play its pattern. -/
theorem pattern_of_sharedPattern {s : Session} {ids : List ClipId} {source : PatternId}
    (h : s.sharedPattern ids = some source) {id : ClipId} (hid : id ∈ ids) {clip : Clip}
    (hclip : s.project.clips.get? id = some clip) : clip.pattern = some source := by
  unfold sharedPattern at h
  have hmem : clip.pattern ∈ ids.map fun id => (s.project.clips.get? id).bind Clip.pattern :=
    List.mem_map.2 ⟨id, hid, by rw [hclip, Option.bind_some]⟩
  split at h
  next hnil =>
    rw [hnil] at hmem
    cases hmem
  next first rest hcons =>
    split_ifs at h with hall
    subst h
    rw [hcons] at hmem
    rcases List.mem_cons.1 hmem with hfirst | hrest
    · exact hfirst
    · exact of_decide_eq_true (List.all_eq_true.1 hall _ hrest)

/-- Going on with what was made names lanes, when there is nothing to fit. -/
theorem project_continueWith (host : InstrumentId → HostAnswer) (id : PatternId)
    {done : Bool × Session} (hok : done.1 = true) (hfits : done.2.fittedClips = []) :
    ∃ names, (continueWith host id done).2.project = done.2.project.nameLanes names := by
  obtain ⟨names, hproject⟩ :=
    project_publishModel { done.2 with currentPattern := some id } host false
  have hfits : ({ done.2 with currentPattern := some id } : Session).fittedClips = [] := hfits
  unfold continueWith
  rw [if_pos hok]
  rw [hfits] at hproject
  exact ⟨names, hproject⟩

theorem continueWith_ok {host : InstrumentId → HostAnswer} {id : PatternId} {done : Bool × Session}
    (hdone : (continueWith host id done).1 = true) : done.1 = true := by
  unfold continueWith at hdone
  split_ifs at hdone with hok
  exact hok

/-- Clips that are made unique. -/
theorem heard_clipsMakeUnique_iff {s : Session} (hs : s.Measured) {host : InstrumentId → HostAnswer}
    {copy : PatternId}
    (hunused : ∀ id clip, s.project.clips.get? id = some clip → clip.pattern ≠ some copy)
    {ids : List ClipId} {source : PatternId} {pattern : Pattern}
    (hshared : s.sharedPattern ids = some source)
    (hsource : s.project.patterns.get? source = some pattern)
    (hdone : (s.clipsMakeUnique host copy ids).1 = true) (options : FlattenOptions) :
    (flatten (s.clipsMakeUnique host copy ids).2.project options).schedule.events =
        (flatten s.project options).schedule.events ↔ Uncurved s.project pattern ids := by
  unfold clipsMakeUnique at hdone ⊢
  rw [hshared, Option.bind_some, hsource] at hdone ⊢
  dsimp only at hdone ⊢
  have hok := continueWith_ok hdone
  obtain ⟨between, hclone, hrepoint⟩ := makesAll_append.1 (makesAll_transact hok)
  obtain ⟨hnew, value, hplays, hcloning⟩ := cloning_clonePattern hunused hclone
  have hcloning := hcloning.repointAll hrepoint
  rw [List.append_nil] at hcloning
  have hcloned := hcloning.cloned hsource hplays hunused fun id hid clip =>
    pattern_of_sharedPattern hshared (List.mem_reverse.1 hid)
  obtain ⟨names, hproject⟩ := project_continueWith host copy hok
    (hs.fittedClips_of_cloning hcloning hnew (patternLengths_transact _ s))
  rw [hproject, flatten_nameLanes]
  exact (flatten_cloned_iff hcloned options).trans (Uncurved.congr fun _ => List.mem_reverse)

/-- A clip that plays a duplicate. -/
theorem heard_patternDuplicate_iff {s : Session} (hs : s.Measured)
    {host : InstrumentId → HostAnswer} {copy : PatternId}
    (hunused : ∀ id clip, s.project.clips.get? id = some clip → clip.pattern ≠ some copy)
    {id : ClipId} {clip : Clip} {source : PatternId} {pattern : Pattern}
    (hclip : s.project.clips.get? id = some clip) (hplayed : clip.pattern = some source)
    (hsource : s.project.patterns.get? source = some pattern)
    (hdone : (s.patternDuplicate host copy source).1 = true) (options : FlattenOptions) :
    (flatten ((s.patternDuplicate host copy source).2.project.place id copy)
        options).schedule.events = (flatten s.project options).schedule.events ↔
      Uncurved s.project pattern [id] := by
  unfold patternDuplicate at hdone ⊢
  rw [hsource] at hdone ⊢
  dsimp only at hdone ⊢
  have hok := continueWith_ok hdone
  obtain ⟨hnew, value, hplays, hcloning⟩ := cloning_clonePattern hunused (makesAll_transact hok)
  have hcloned := (hcloning.place id).cloned hsource hplays hunused fun other hother clip' hclip' => by
    obtain rfl := List.mem_singleton.1 hother
    rw [hclip] at hclip'
    cases hclip'
    exact hplayed
  obtain ⟨names, hproject⟩ := project_continueWith host copy hok
    (hs.fittedClips_of_cloning hcloning hnew (patternLengths_transact _ s))
  rw [hproject, Tables.place_nameLanes, flatten_nameLanes]
  exact flatten_cloned_iff hcloned options

/-- **A clone is heard as its pattern exactly when no curve is lost**, whether clips are made unique
or a clip is placed on a duplicate. -/
theorem heard_clone_iff {s : Session} (hs : s.Measured) {copy : PatternId}
    (hunused : ∀ id clip, s.project.clips.get? id = some clip → clip.pattern ≠ some copy)
    (host : InstrumentId → HostAnswer) (options : FlattenOptions) :
    (∀ ids source pattern, s.sharedPattern ids = some source →
      s.project.patterns.get? source = some pattern →
      (s.clipsMakeUnique host copy ids).1 = true →
      ((flatten (s.clipsMakeUnique host copy ids).2.project options).schedule.events =
          (flatten s.project options).schedule.events ↔ Uncurved s.project pattern ids)) ∧
      ∀ id clip source pattern, s.project.clips.get? id = some clip → clip.pattern = some source →
        s.project.patterns.get? source = some pattern →
        (s.patternDuplicate host copy source).1 = true →
        ((flatten ((s.patternDuplicate host copy source).2.project.place id copy)
            options).schedule.events = (flatten s.project options).schedule.events ↔
          Uncurved s.project pattern [id]) :=
  ⟨fun _ _ _ hshared hsource hdone =>
      heard_clipsMakeUnique_iff hs hunused hshared hsource hdone options,
    fun _ _ _ _ hclip hplayed hsource hdone =>
      heard_patternDuplicate_iff hs hunused hclip hplayed hsource hdone options⟩

/-! ### A curve that is lost -/

/-- A song whose pattern turns a knob of its one instrument. -/
def curvedSong : Tables :=
  { freshProject smallIds with
    instruments := OrderedMap.empty.assign ⟨5⟩ {}
    patterns := OrderedMap.empty.assign ⟨2⟩
      { automation := [{ instrument := ⟨5⟩, parameter := 1, points := [{}] }] } }

/-- The song is open. -/
def curvedSession : Session :=
  ((create noPlugins smallIds (.finite 48000)).projectOpen noPlugins (some curvedSong)).2

/-- The clip is made unique, and the knob stays where it is. -/
theorem not_heard_curvedSession :
    (curvedSession.clipsMakeUnique noPlugins ⟨6⟩ [⟨3⟩]).1 = true ∧
      (flatten (curvedSession.clipsMakeUnique noPlugins ⟨6⟩ [⟨3⟩]).2.project
          { sampleRate := .finite 48000 }).schedule.events ≠
        (flatten curvedSession.project { sampleRate := .finite 48000 }).schedule.events := by
  refine ⟨by decide +kernel, fun h => ?_⟩
  have hlength := congrArg List.length h
  revert hlength
  decide +kernel

/-- The song, made unique and duplicated. -/
theorem heard_clone_iff_curvedSession :
    ((flatten (curvedSession.clipsMakeUnique noPlugins ⟨6⟩ [⟨3⟩]).2.project
          { sampleRate := .finite 48000 }).schedule.events =
        (flatten curvedSession.project { sampleRate := .finite 48000 }).schedule.events ↔
      Uncurved curvedSession.project ((curvedSession.project.patterns.get? ⟨2⟩).getD {}) [⟨3⟩]) ∧
    ((flatten ((curvedSession.patternDuplicate noPlugins ⟨6⟩ ⟨2⟩).2.project.place ⟨3⟩ ⟨6⟩)
          { sampleRate := .finite 48000 }).schedule.events =
        (flatten curvedSession.project { sampleRate := .finite 48000 }).schedule.events ↔
      Uncurved curvedSession.project ((curvedSession.project.patterns.get? ⟨2⟩).getD {}) [⟨3⟩]) := by
  have hunused : ∀ id clip, curvedSession.project.clips.get? id = some clip →
      clip.pattern ≠ some ⟨6⟩ := fun id clip hclip =>
    (show ∀ entry ∈ curvedSession.project.clips.entries, entry.2.pattern ≠ some ⟨6⟩ by
      decide +kernel) _ (OrderedMap.get?_eq_some_iff.1 hclip)
  obtain ⟨hunique, hduplicate⟩ := heard_clone_iff (s := curvedSession)
    (measured_publishModel _ _ _) hunused noPlugins { sampleRate := .finite 48000 }
  exact ⟨hunique [⟨3⟩] ⟨2⟩ _ (by decide +kernel) (by decide +kernel) (by decide +kernel),
    hduplicate ⟨3⟩ ((curvedSession.project.clips.get? ⟨3⟩).getD default) ⟨2⟩ _ (by decide +kernel)
      (by decide +kernel) (by decide +kernel) (by decide +kernel)⟩

end Session

end OneBeat
