import OneBeat.Commands.ClipLengths
import OneBeat.Model.LaneMoves

/-!
# Clones of patterns

What is heard when some clips of a pattern play a clone of it that has its notes but not its
curves.

* `Cloned` : one project is the other with a clone in it, which some clips play;
* `flatten_cloned_iff` : **the schedule stays the same exactly when no curve of the pattern puts a
  point into one of these clips that may sound.**
-/

namespace OneBeat

/-! ### What a clone plays -/

/-- The clone has everything that is played of a pattern, its curves apart. -/
structure Pattern.PlaysAs (clone pattern : Pattern) : Prop where
  length : clone.length = pattern.length
  swing : clone.swing = pattern.swing
  sequences : clone.sequences = pattern.sequences.filter fun _ sequence => !sequence.empty
  automation : clone.automation = []

variable {clone pattern : Pattern}

/-- A sequence without notes ends nowhere. -/
theorem foldl_contentEnd_filter (entries : List (InstrumentId × NoteSequence)) {e : ℤ}
    (he : 0 ≤ e) :
    (entries.filter fun entry => !entry.2.empty).foldl (fun e entry => max e entry.2.contentEnd) e =
      entries.foldl (fun e entry => max e entry.2.contentEnd) e := by
  induction entries generalizing e with
  | nil => rfl
  | cons entry entries ih =>
    rw [List.foldl_cons, ← ih (he.trans (le_max_left _ _))]
    cases hempty : entry.2.empty with
    | true =>
      rw [List.filter_cons_of_neg (by simp [hempty]), NoteSequence.empty_iff.1 hempty]
      exact congrArg (fun e => List.foldl _ e _) (max_eq_left he).symm
    | false => rw [List.filter_cons_of_pos (by simp [hempty]), List.foldl_cons]

theorem Pattern.PlaysAs.effectiveLength (h : clone.PlaysAs pattern) :
    patternEffectiveLength clone = patternEffectiveLength pattern := by
  have hcontent : patternContentEnd clone = patternContentEnd pattern := by
    unfold patternContentEnd
    rw [h.sequences]
    exact foldl_contentEnd_filter _ le_rfl
  unfold patternEffectiveLength patternLoopLength
  rw [h.length, hcontent]

/-- The clip, playing another pattern. -/
def Clip.playing (copy : PatternId) (clip : Clip) : Clip := { clip with source := .pattern copy }

theorem pattern_eq_some_iff {clip : Clip} {id : PatternId} :
    clip.pattern = some id ↔ clip.source = .pattern id := by
  unfold Clip.pattern
  cases clip.source <;> simp

/-- `project'` is `project` with a clone of the pattern `source`, and the clips `moved`, which
played `source`, play the clone. -/
structure Cloned (source copy : PatternId) (pattern clone : Pattern) (moved : List ClipId)
    (project project' : Tables) : Prop where
  original : project.patterns.get? source = some pattern
  added : project'.patterns.get? copy = some clone
  playsAs : clone.PlaysAs pattern
  others : ∀ id, id ≠ copy → project'.patterns.get? id = project.patterns.get? id
  unused : ∀ id clip, project.clips.get? id = some clip → clip.pattern ≠ some copy
  played : ∀ id ∈ moved, ∀ clip, project.clips.get? id = some clip → clip.pattern = some source
  clips : project'.clips = project.clips.mapValues fun id clip =>
    if id ∈ moved then clip.playing copy else clip
  instruments : project'.instruments = project.instruments
  lanes : project'.lanes = project.lanes
  mixerTracks : project'.mixerTracks = project.mixerTracks
  transport : project'.transport = project.transport

section

variable {source copy : PatternId} {moved : List ClipId} {project project' : Tables}

theorem Cloned.instrumentIndex (h : Cloned source copy pattern clone moved project project') :
    instrumentIndex project' = instrumentIndex project := by
  unfold OneBeat.instrumentIndex
  rw [h.instruments]

theorem Cloned.effectIndex (h : Cloned source copy pattern clone moved project project') :
    effectIndex project' = effectIndex project := by
  unfold OneBeat.effectIndex
  rw [h.mixerTracks]

/-- A clip that plays another pattern is read from the same lane, and is no audio clip. -/
theorem Cloned.keysWhere (h : Cloned source copy pattern clone moved project project')
    {p : Clip → Bool} (hp : ∀ clip, clip.pattern = some source →
      p (clip.playing copy) = p clip) :
    project'.clips.keysWhere p = project.clips.keysWhere p := by
  rw [h.clips]
  unfold OrderedMap.keysWhere OrderedMap.mapValues
  rw [List.filter_map, List.map_map]
  refine congrArg (List.map _) (List.filter_congr fun entry hentry => ?_)
  have hget := OrderedMap.get?_eq_some_iff.2 hentry
  simp only [Function.comp_apply]
  split_ifs with hmoved
  · exact hp _ (h.played entry.1 hmoved entry.2 hget)
  · rfl

theorem Cloned.audioChannelIndex (h : Cloned source copy pattern clone moved project project') :
    audioChannelIndex project' = audioChannelIndex project := by
  unfold OneBeat.audioChannelIndex
  rw [h.instruments, h.keysWhere fun clip hclip => ?_]
  unfold Clip.audio Clip.playing
  rw [pattern_eq_some_iff.1 hclip]

theorem Cloned.collectedClips (h : Cloned source copy pattern clone moved project project') :
    collectedClips project' = collectedClips project := by
  have hlanes : audibleLanes project' = audibleLanes project := by
    unfold audibleLanes
    rw [h.lanes]
  unfold OneBeat.collectedClips
  rw [hlanes]
  refine congrArg (fun f => List.flatMap f _) ?_
  funext lane
  exact h.keysWhere fun _ _ => rfl

/-! ### Clip by clip -/

theorem Cloned.resolveSequence (h : Cloned source copy pattern clone moved project project')
    (patternLength : ℤ) (clip : Clip) (entry : InstrumentId × NoteSequence) :
    resolveSequence project' clone patternLength (clip.playing copy) entry =
      resolveSequence project pattern patternLength clip entry := by
  have hnote : resolveNote clone patternLength (clip.playing copy) =
      resolveNote pattern patternLength clip := by
    funext settings index note
    unfold resolveNote
    rw [h.playsAs.swing]
    rfl
  unfold OneBeat.resolveSequence
  rw [h.instruments, h.instrumentIndex, hnote]

end

section

variable {project : Tables} {id : ClipId} {clip : Clip} {patternId : PatternId}

/-- What a curve puts into a clip. -/
def curveOf (project : Tables) (clip : Clip) (automation : AutomationSource) : Resolved :=
  (resolveAutomation project clip automation).getD {}

theorem resolveClip_of_pattern (hclip : clip.pattern = some patternId)
    (hpattern : project.patterns.get? patternId = some pattern) : resolveClip project id clip =
      (pattern.sequences.entries.map
            (resolveSequence project pattern (patternEffectiveLength pattern) clip) ++
          pattern.automation.map (curveOf project clip)).foldl Resolved.append
        { clipsFlattened := 1 } := by
  unfold resolveClip
  rw [pattern_eq_some_iff.1 hclip]
  dsimp only
  rw [hpattern]
  exact if_neg (Tables.patternEffectiveLength_pos pattern).not_ge

theorem notes_curveOf (automation : AutomationSource) : (curveOf project clip automation).notes = [] := by
  unfold curveOf
  cases h : resolveAutomation project clip automation with
  | none => rfl
  | some resolved => exact notes_resolveAutomation h

theorem audioStarts_curveOf (automation : AutomationSource) :
    (curveOf project clip automation).audioStarts = [] := by
  unfold curveOf resolveAutomation
  split
  · cases Entries.get? (instrumentIndex project) automation.instrument <;> rfl
  · cases Entries.get? (effectIndex project) (automation.mixerTrack, automation.effect) <;> rfl
  · rfl

/-- A sequence gives notes only. -/
theorem resolveSequence_points (patternLength : ℤ) (entry : InstrumentId × NoteSequence) :
    let resolved := resolveSequence project pattern patternLength clip entry
    resolved.params = [] ∧ resolved.effectParams = [] ∧ resolved.audioStarts = [] := by
  unfold resolveSequence
  split
  · dsimp only
    split_ifs <;> exact ⟨rfl, rfl, rfl⟩
  · exact ⟨rfl, rfl, rfl⟩

theorem notes_resolveClip_of_pattern (hclip : clip.pattern = some patternId)
    (hpattern : project.patterns.get? patternId = some pattern) :
    (resolveClip project id clip).notes = pattern.sequences.entries.flatMap fun entry =>
      (resolveSequence project pattern (patternEffectiveLength pattern) clip entry).notes := by
  rw [resolveClip_of_pattern hclip hpattern, notes_foldl_append, List.flatMap_append,
    List.flatMap_map, List.flatMap_map]
  have hcurves : (pattern.automation.flatMap fun automation =>
      (curveOf project clip automation).notes) = [] :=
    List.flatMap_eq_nil_iff.2 fun automation _ => notes_curveOf automation
  rw [hcurves, List.append_nil]
  rfl

theorem params_resolveClip_of_pattern (hclip : clip.pattern = some patternId)
    (hpattern : project.patterns.get? patternId = some pattern) :
    (resolveClip project id clip).params = pattern.automation.flatMap fun automation =>
      (curveOf project clip automation).params := by
  rw [resolveClip_of_pattern hclip hpattern, params_foldl_append, List.flatMap_append,
    List.flatMap_map, List.flatMap_map]
  have hsequences : (pattern.sequences.entries.flatMap fun entry => (resolveSequence project
      pattern (patternEffectiveLength pattern) clip entry).params) = [] :=
    List.flatMap_eq_nil_iff.2 fun entry _ => (resolveSequence_points _ entry).1
  rw [hsequences]
  rfl

theorem effectParams_resolveClip_of_pattern (hclip : clip.pattern = some patternId)
    (hpattern : project.patterns.get? patternId = some pattern) :
    (resolveClip project id clip).effectParams = pattern.automation.flatMap fun automation =>
      (curveOf project clip automation).effectParams := by
  rw [resolveClip_of_pattern hclip hpattern, effectParams_foldl_append, List.flatMap_append,
    List.flatMap_map, List.flatMap_map]
  have hsequences : (pattern.sequences.entries.flatMap fun entry => (resolveSequence project
      pattern (patternEffectiveLength pattern) clip entry).effectParams) = [] :=
    List.flatMap_eq_nil_iff.2 fun entry _ => (resolveSequence_points _ entry).2.1
  rw [hsequences]
  rfl

/-- A clip that plays a pattern starts no audio. -/
theorem audioStarts_resolveClip_of_pattern (hclip : clip.pattern = some patternId) :
    (resolveClip project id clip).audioStarts = [] := by
  cases hpattern : project.patterns.get? patternId with
  | none =>
    unfold resolveClip
    rw [pattern_eq_some_iff.1 hclip]
    dsimp only
    rw [hpattern]
  | some pattern =>
    rw [resolveClip_of_pattern hclip hpattern, audioStarts_foldl_append, List.flatMap_append,
      List.flatMap_map, List.flatMap_map]
    refine List.append_eq_nil_iff.2 ⟨rfl, List.append_eq_nil_iff.2 ⟨?_, ?_⟩⟩
    · exact List.flatMap_eq_nil_iff.2 fun entry _ => (resolveSequence_points _ entry).2.2
    · exact List.flatMap_eq_nil_iff.2 fun automation _ => audioStarts_curveOf automation

end

section

variable {source copy : PatternId} {moved : List ClipId} {project project' : Tables}
  {id : ClipId} {clip : Clip}

/-- The notes of a clip that plays the clone are those it played before. -/
theorem Cloned.notes_playing (h : Cloned source copy pattern clone moved project project')
    (hclip : clip.pattern = some source) : (resolveClip project' id (clip.playing copy)).notes =
      (resolveClip project id clip).notes := by
  have hempty : ∀ entry : InstrumentId × NoteSequence, entry.2.empty = true →
      (OneBeat.resolveSequence project pattern (patternEffectiveLength pattern) clip entry).notes =
        [] := by
    intro entry hentry
    unfold OneBeat.resolveSequence
    rw [NoteSequence.empty_iff.1 hentry]
    split
    · dsimp only
      split_ifs <;> rfl
    · rfl
  rw [notes_resolveClip_of_pattern rfl h.added,
    notes_resolveClip_of_pattern hclip h.original, h.playsAs.sequences, h.playsAs.effectiveLength]
  simp only [h.resolveSequence, OrderedMap.filter]
  induction pattern.sequences.entries with
  | nil => rfl
  | cons entry entries ih =>
    rw [List.flatMap_cons, ← ih]
    cases hentry : entry.2.empty with
    | true => rw [List.filter_cons_of_neg (by simp [hentry]), hempty entry hentry, List.nil_append]
    | false => rw [List.filter_cons_of_pos (by simp [hentry]), List.flatMap_cons]

/-- A clip that plays the clone has no curves. -/
theorem Cloned.points_playing (h : Cloned source copy pattern clone moved project project') :
    (resolveClip project' id (clip.playing copy)).params = [] ∧
      (resolveClip project' id (clip.playing copy)).effectParams = [] := by
  rw [params_resolveClip_of_pattern rfl h.added,
    effectParams_resolveClip_of_pattern rfl h.added, h.playsAs.automation]
  exact ⟨rfl, rfl⟩

/-- Every other clip gives what it gave. -/
theorem Cloned.resolveClip_other (h : Cloned source copy pattern clone moved project project')
    (hclip : clip.pattern ≠ some copy) : resolveClip project' id clip = resolveClip project id clip := by
  have hautomation : resolveAutomation project' = resolveAutomation project := by
    funext clip automation
    unfold resolveAutomation
    rw [h.instrumentIndex, h.effectIndex]
  have hsequence : OneBeat.resolveSequence project' = OneBeat.resolveSequence project := by
    funext pattern patternLength clip entry
    unfold OneBeat.resolveSequence
    rw [h.instruments, h.instrumentIndex]
  unfold resolveClip
  rw [hautomation, hsequence, h.audioChannelIndex]
  cases hsource : clip.source with
  | pattern patternId =>
    have hne : patternId ≠ copy := by
      rintro rfl
      exact hclip (pattern_eq_some_iff.2 hsource)
    dsimp only
    rw [h.others patternId hne]
  | audio source => rfl
  | automation source => rfl

/-! ### All clips -/

theorem mem_audibleClips {entry : ClipId × Clip} (h : entry ∈ audibleClips project) :
    project.clips.get? entry.1 = some entry.2 := by
  unfold audibleClips at h
  obtain ⟨id, -, hid⟩ := List.mem_filterMap.1 h
  cases hget : project.clips.get? id with
  | none =>
    rw [hget] at hid
    cases hid
  | some clip =>
    rw [hget] at hid
    dsimp only at hid
    split_ifs at hid
    obtain rfl := Option.some_inj.1 hid
    exact hget

/-- The same clips may sound, some of them with the clone. -/
theorem Cloned.audibleClips (h : Cloned source copy pattern clone moved project project') :
    audibleClips project' = (audibleClips project).map fun entry =>
      (entry.1, if entry.1 ∈ moved then entry.2.playing copy else entry.2) := by
  unfold OneBeat.audibleClips
  rw [← OneBeat.collectedClips, ← OneBeat.collectedClips, h.collectedClips, List.map_filterMap]
  refine List.filterMap_congr fun id _ => ?_
  rw [h.clips, OrderedMap.get?_mapValues]
  cases project.clips.get? id with
  | none => rfl
  | some clip =>
    simp only [Option.map_some]
    by_cases hmoved : id ∈ moved
    · simp only [if_pos hmoved, Clip.playing]
      split_ifs <;> simp [hmoved]
    · simp only [if_neg hmoved]
      split_ifs <;> simp [hmoved]

/-- What the audible clips give, one kind of it. -/
theorem Cloned.flatMap_audibleClips {α : Type}
    (h : Cloned source copy pattern clone moved project project') (f : Resolved → List α)
    (g : ClipId × Clip → List α)
    (hmoved : ∀ entry ∈ OneBeat.audibleClips project, entry.1 ∈ moved →
      f (resolveClip project' entry.1 (entry.2.playing copy)) = g entry)
    (hother : ∀ entry ∈ OneBeat.audibleClips project, entry.1 ∉ moved →
      f (resolveClip project entry.1 entry.2) = g entry) :
    ((OneBeat.audibleClips project').flatMap fun entry => f (resolveClip project' entry.1 entry.2)) =
      (OneBeat.audibleClips project).flatMap g := by
  rw [h.audibleClips, List.flatMap_map]
  refine List.flatMap_congr fun entry hentry => ?_
  dsimp only
  split_ifs with hin
  · exact hmoved entry hentry hin
  · rw [h.resolveClip_other (h.unused entry.1 entry.2 (mem_audibleClips hentry))]
    exact hother entry hentry hin

/-- No curve of the pattern puts a point into one of the clips that may sound. -/
def Uncurved (project : Tables) (pattern : Pattern) (moved : List ClipId) : Prop :=
  ∀ entry ∈ audibleClips project, entry.1 ∈ moved → ∀ automation ∈ pattern.automation,
    (curveOf project entry.2 automation).params = [] ∧
      (curveOf project entry.2 automation).effectParams = []

theorem length_flatMap_ite_le {α β : Type} (as : List α) (p : α → Prop) [DecidablePred p]
    (f : α → List β) :
    (as.flatMap fun a => if p a then [] else f a).length ≤ (as.flatMap f).length ∧
      ((as.flatMap fun a => if p a then [] else f a).length = (as.flatMap f).length →
        ∀ a ∈ as, p a → f a = []) := by
  induction as with
  | nil => simp
  | cons a as ih =>
    obtain ⟨hle, heq⟩ := ih
    simp only [List.flatMap_cons, List.length_append, List.mem_cons, forall_eq_or_imp]
    split_ifs with ha
    · refine ⟨by simpa using hle.trans (Nat.le_add_left _ _), fun hlength => ?_⟩
      simp only [List.length_nil, Nat.zero_add] at hlength
      have hnil : (f a).length = 0 := by omega
      exact ⟨fun _ => List.length_eq_zero_iff.1 hnil, heq (by omega)⟩
    · refine ⟨Nat.add_le_add_left hle _, fun hlength => ⟨fun h => absurd h ha, heq (by omega)⟩⟩

theorem flatMap_ite_eq {α β : Type} {as : List α} {p : α → Prop} [DecidablePred p]
    {f : α → List β} (h : ∀ a ∈ as, p a → f a = []) :
    (as.flatMap fun a => if p a then [] else f a) = as.flatMap f := by
  refine List.flatMap_congr fun a ha => ?_
  split_ifs with hp
  · exact (h a ha hp).symm
  · rfl

/-- The points of a curve, one kind of them, when the moved clips lose theirs. -/
theorem Cloned.points (h : Cloned source copy pattern clone moved project project')
    (f : Resolved → List ResolvedParam)
    (hmoved : ∀ (id : ClipId) (clip : Clip),
      f (resolveClip project' id (clip.playing copy)) = []) :
    ((OneBeat.audibleClips project').flatMap fun entry => f (resolveClip project' entry.1 entry.2)) =
      (OneBeat.audibleClips project).flatMap fun entry =>
        if entry.1 ∈ moved then [] else f (resolveClip project entry.1 entry.2) :=
  h.flatMap_audibleClips f _ (fun entry _ hin => by rw [if_pos hin, hmoved])
    fun entry _ hout => by rw [if_neg hout]

/-- No point is in a clip that moved when no curve puts one there. -/
theorem Cloned.uncurved_iff (h : Cloned source copy pattern clone moved project project') :
    Uncurved project pattern moved ↔ ∀ entry ∈ OneBeat.audibleClips project, entry.1 ∈ moved →
      (resolveClip project entry.1 entry.2).params = [] ∧
        (resolveClip project entry.1 entry.2).effectParams = [] := by
  refine forall_congr' fun entry => forall_congr' fun hentry => forall_congr' fun hin => ?_
  have hclip := h.played entry.1 hin entry.2 (mem_audibleClips hentry)
  rw [params_resolveClip_of_pattern hclip h.original,
    effectParams_resolveClip_of_pattern hclip h.original, List.flatMap_eq_nil_iff,
    List.flatMap_eq_nil_iff]
  exact forall₂_and

theorem params_resolveClips (project : Tables) : (resolveClips project).params =
    (audibleClips project).flatMap fun entry => (resolveClip project entry.1 entry.2).params := by
  rw [resolveClips, params_foldl_append, List.flatMap_map]
  rfl

theorem effectParams_resolveClips (project : Tables) : (resolveClips project).effectParams =
    (audibleClips project).flatMap fun entry =>
      (resolveClip project entry.1 entry.2).effectParams := by
  rw [resolveClips, effectParams_foldl_append, List.flatMap_map]
  rfl

theorem Cloned.notes (h : Cloned source copy pattern clone moved project project') :
    (resolveClips project').notes = (resolveClips project).notes := by
  rw [resolveClips, resolveClips, notes_foldl_append, notes_foldl_append, List.flatMap_map,
    List.flatMap_map]
  refine congrArg ([] ++ ·) (h.flatMap_audibleClips Resolved.notes _ ?_ fun _ _ _ => rfl)
  exact fun entry hentry hin => h.notes_playing (h.played _ hin _ (mem_audibleClips hentry))

theorem Cloned.audioStarts (h : Cloned source copy pattern clone moved project project') :
    (resolveClips project').audioStarts = (resolveClips project).audioStarts := by
  rw [resolveClips, resolveClips, audioStarts_foldl_append, audioStarts_foldl_append,
    List.flatMap_map, List.flatMap_map]
  refine congrArg ([] ++ ·) (h.flatMap_audibleClips Resolved.audioStarts _ ?_ fun _ _ _ => rfl)
  intro entry hentry hin
  have hclip := h.played _ hin _ (mem_audibleClips hentry)
  rw [audioStarts_resolveClip_of_pattern rfl, audioStarts_resolveClip_of_pattern hclip]

/-- **The clone is heard as the pattern exactly when no curve is lost.** -/
theorem flatten_cloned_iff (h : Cloned source copy pattern clone moved project project')
    (options : FlattenOptions) :
    (flatten project' options).schedule.events = (flatten project options).schedule.events ↔
      Uncurved project pattern moved := by
  have hparams := h.points Resolved.params fun _ _ => h.points_playing.1
  have heffects := h.points Resolved.effectParams fun _ _ => h.points_playing.2
  rw [← params_resolveClips] at hparams
  rw [← effectParams_resolveClips] at heffects
  have hsorted : ∀ project : Tables, (flatten project options).schedule.events =
      (scheduleResolved (TimeMap.ofTempo options.sampleRate project.transport.tempo)
        (resolveClips project)).events.insertionSort ScheduleEvent.le := fun _ => rfl
  rw [hsorted, hsorted, h.transport, events_scheduleResolved, events_scheduleResolved, h.notes,
    h.audioStarts, h.uncurved_iff, hparams, heffects, params_resolveClips,
    effectParams_resolveClips]
  obtain ⟨hle, heq⟩ := length_flatMap_ite_le (OneBeat.audibleClips project)
    (fun entry => entry.1 ∈ moved) fun entry => (resolveClip project entry.1 entry.2).params
  obtain ⟨hle', heq'⟩ := length_flatMap_ite_le (OneBeat.audibleClips project)
    (fun entry => entry.1 ∈ moved) fun entry => (resolveClip project entry.1 entry.2).effectParams
  constructor
  · -- a point that is lost is an event less
    intro hevents
    have hlength := congrArg List.length hevents
    simp only [List.length_insertionSort, List.length_append, List.length_map] at hlength
    intro entry hentry hin
    exact ⟨heq (by omega) entry hentry hin, heq' (by omega) entry hentry hin⟩
  · intro hnone
    rw [flatMap_ite_eq fun entry hentry hin => (hnone entry hentry hin).1,
      flatMap_ite_eq fun entry hentry hin => (hnone entry hentry hin).2]

end

end OneBeat
