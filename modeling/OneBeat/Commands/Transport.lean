import OneBeat.Commands.ClipLengths

/-!
# Transport commands

`TransportCommand` of `model/commands.cpp`.  An audio clip is anchored in real time, so a tempo
change rescales the length of every audio clip, after it has recorded what the lengths were.

* `TransportCommand.apply_eq` : what an apply does.
* `TransportCommand.done_of_before` : a command that starts from the project's transport can be
  taken back and made again.
* `TransportCommand.done_coalesceWith` : so can one that absorbed another, when every clip the other
  moved was recorded, and one rescaling gives the lengths the two gave.
-/

namespace OneBeat

/-- A transport to set, the one that was set, and the lengths the audio clips had. -/
structure TransportCommand where
  before : TransportState
  after : TransportState
  /-- Lengths of the audio clips before a tempo change. -/
  originalLengths : List (ClipId × ℤ) := []

/-- The length of an audio clip at another tempo. -/
def rescaledLength (fromTempo toTempo : Double) (length : ℤ) : ℤ :=
  max 1 ((Double.ofInt length).mul (toTempo.div fromTempo)).llround

/-- A change from one tempo to the other rescales audio clips. -/
def tempoChanges (fromTempo toTempo : Double) : Bool :=
  !(fromTempo.le 0 || toTempo.le 0 || fromTempo.beq toTempo)

namespace TransportCommand

/-- The audio clips that have a length. -/
def recordedLengths (project : Tables) : List (ClipId × ℤ) :=
  (project.clips.entries.filter fun entry => entry.2.audio.isSome && 0 < entry.2.length).map
    fun entry => (entry.1, entry.2.length)

/-- Record the lengths of the audio clips, and rescale them. -/
def rescaleAudioClips (project : Tables) (fromTempo toTempo : Double) :
    List (ClipId × ℤ) × Tables :=
  if tempoChanges fromTempo toTempo then
    let lengths := recordedLengths project
    let resized := (lengths.map fun entry =>
      (entry.1, rescaledLength fromTempo toTempo entry.2, entry.2)).filter fun entry =>
        entry.2.1 ≠ entry.2.2
    (lengths, project.setLengths (resized.map fun entry => (entry.1, entry.2.1)))
  else ([], project)

def apply (command : TransportCommand) (project : Tables) : Outcome Tables TransportCommand :=
  let project := project.setTransport command.after
  let (originalLengths, project) :=
    rescaleAudioClips project command.before.tempo command.after.tempo
  ⟨true, { command with originalLengths }, project⟩

def revert (command : TransportCommand) (project : Tables) : Outcome Tables TransportCommand :=
  let project := project.setTransport command.before
  ⟨true, { command with originalLengths := [] }, project.setLengths command.originalLengths⟩

/-- Any transport command absorbs the next one. -/
def coalesceWith (command next : TransportCommand) : TransportCommand :=
  { command with after := next.after }

/-! ### Rescaling -/

/-- The clip at another tempo. -/
def rescaledClip (fromTempo toTempo : Double) (clip : Clip) : Clip :=
  if tempoChanges fromTempo toTempo && (clip.audio.isSome && 0 < clip.length) then
    clip.withLength (rescaledLength fromTempo toTempo clip.length)
  else clip

variable {project : Tables} {fromTempo toTempo : Double}

theorem mem_recordedLengths {id : ClipId} {length : ℤ} :
    (id, length) ∈ recordedLengths project ↔
      ∃ clip, project.clips.get? id = some clip ∧ clip.audio.isSome = true ∧ 0 < clip.length ∧
        clip.length = length := by
  simp only [recordedLengths, List.mem_map, List.mem_filter, Bool.and_eq_true, decide_eq_true_eq,
    Prod.exists, Prod.mk.injEq, OrderedMap.get?_eq_some_iff]
  constructor
  · rintro ⟨k, clip, ⟨hmem, haudio, hpos⟩, rfl, rfl⟩
    exact ⟨clip, hmem, haudio, hpos, rfl⟩
  · rintro ⟨clip, hmem, haudio, hpos, rfl⟩
    exact ⟨id, clip, ⟨hmem, haudio, hpos⟩, rfl, rfl⟩

theorem mem_keys_recordedLengths {id : ClipId} {clip : Clip}
    (hclip : project.clips.get? id = some clip) :
    id ∈ (recordedLengths project).map Prod.fst ↔ clip.audio.isSome = true ∧ 0 < clip.length := by
  simp only [List.mem_map, Prod.exists, exists_and_right, exists_eq_right, mem_recordedLengths]
  constructor
  · rintro ⟨length, other, hother, haudio, hpos, -⟩
    obtain rfl : clip = other := Option.some_inj.1 (hclip.symm.trans hother)
    exact ⟨haudio, hpos⟩
  · rintro ⟨haudio, hpos⟩
    exact ⟨clip.length, clip, hclip, haudio, hpos, rfl⟩

theorem rescaleAudioClips_eq :
    rescaleAudioClips project fromTempo toTempo =
      (if tempoChanges fromTempo toTempo then recordedLengths project else [],
        project.mapClips fun _ => rescaledClip fromTempo toTempo) := by
  unfold rescaleAudioClips
  split_ifs with htempo
  swap
  · have hself : project.mapClips (fun _ => rescaledClip fromTempo toTempo) = project :=
      Tables.mapClips_eq_self fun id clip _ => if_neg (by simp [htempo])
    rw [hself]
  simp only [Prod.mk.injEq, true_and]
  rw [Tables.setLengths_eq]
  refine Tables.mapClips_congr fun id clip hclip => ?_
  set resized := ((recordedLengths project).map fun entry =>
    (entry.1, rescaledLength fromTempo toTempo entry.2, entry.2)).filter fun entry =>
      entry.2.1 ≠ entry.2.2 with hresized
  -- a clip is resized once at most, and to what its own length gives
  have hmem : ∀ l, (id, l) ∈ resized.map (fun entry => (entry.1, entry.2.1)) ↔
      clip.audio.isSome = true ∧ 0 < clip.length ∧
        l = rescaledLength fromTempo toTempo clip.length ∧ l ≠ clip.length := by
    intro l
    simp only [hresized, List.mem_map, List.mem_filter, decide_eq_true_eq, Prod.exists,
      Prod.mk.injEq, ne_eq]
    constructor
    · rintro ⟨k, l₁, l₂, ⟨⟨k', l', hrec, rfl, rfl, rfl⟩, hne⟩, rfl, rfl⟩
      obtain ⟨other, hother, haudio, hpos, rfl⟩ := mem_recordedLengths.1 hrec
      obtain rfl : clip = other := Option.some_inj.1 (hclip.symm.trans hother)
      exact ⟨haudio, hpos, rfl, hne⟩
    · rintro ⟨haudio, hpos, rfl, hne⟩
      exact ⟨id, _, _, ⟨⟨id, clip.length,
        mem_recordedLengths.2 ⟨clip, hclip, haudio, hpos, rfl⟩, rfl, rfl, rfl⟩, hne⟩, rfl, rfl⟩
  unfold rescaledClip
  rw [htempo, Bool.true_and]
  by_cases hkey : id ∈ (resized.map fun entry => (entry.1, entry.2.1)).map Prod.fst
  · obtain ⟨⟨k, l⟩, hl, rfl⟩ := List.mem_map.1 hkey
    obtain ⟨haudio, hpos, rfl, -⟩ := (hmem l).1 hl
    rw [Tables.relength_of_forall hkey fun l' hl' => ((hmem l').1 hl').2.2.1]
    simp [haudio, hpos]
  · rw [Tables.relength_of_notMem hkey]
    split_ifs with h
    · simp only [Bool.and_eq_true, decide_eq_true_eq] at h
      have hsame : rescaledLength fromTempo toTempo clip.length = clip.length := by
        by_contra hne
        exact hkey (List.mem_map_of_mem ((hmem _).2 ⟨h.1, h.2, rfl, hne⟩))
      rw [hsame, Clip.withLength_length]
    · rfl

/-! ### Apply and revert -/

variable {command next : TransportCommand}

/-- The project after a transport command. -/
def result (command : TransportCommand) (project : Tables) : Tables :=
  (project.setTransport command.after).mapClips fun _ =>
    rescaledClip command.before.tempo command.after.tempo

/-- **What an apply does.** -/
theorem apply_eq : command.apply project =
    ⟨true, { command with
      originalLengths := if tempoChanges command.before.tempo command.after.tempo then
        recordedLengths project else [] }, command.result project⟩ := by
  simp only [apply, rescaleAudioClips_eq]
  rfl

theorem revert_eq : command.revert project =
    ⟨true, { command with originalLengths := [] },
      (project.setTransport command.before).mapClips
        (Tables.relength command.originalLengths)⟩ := by
  simp only [revert, Tables.setLengths_eq]

/-- The recorded lengths are those from before the tempo change. -/
theorem relength_recordedLengths {id : ClipId} {clip : Clip}
    (hclip : project.clips.get? id = some clip) :
    Tables.relength
      (if tempoChanges fromTempo toTempo then recordedLengths project else []) id
        (rescaledClip fromTempo toTempo clip) = clip := by
  unfold rescaledClip
  split_ifs with htempo h h
  · simp only [Bool.and_eq_true, decide_eq_true_eq] at h
    rw [Tables.relength_of_forall ((mem_keys_recordedLengths hclip).2 h.2) fun l hl => ?_,
      Clip.withLength_withLength, Clip.withLength_length]
    obtain ⟨other, hother, -, -, rfl⟩ := mem_recordedLengths.1 hl
    rw [Option.some_inj.1 (hclip.symm.trans hother)]
  · refine Tables.relength_of_notMem (fun hmem => h ?_) clip
    simpa [htempo] using (mem_keys_recordedLengths hclip).1 hmem
  · simp [htempo] at h
  · exact Tables.relength_of_notMem (by simp) clip

/-- What a revert does to the result of an apply. -/
theorem revert_result (hbefore : command.before = project.transport) :
    ({ command with
      originalLengths := if tempoChanges command.before.tempo command.after.tempo then
        recordedLengths project else [] } : TransportCommand).revert (command.result project) =
      ⟨true, { command with originalLengths := [] }, project⟩ := by
  rw [revert_eq]
  simp only [result, Tables.setTransport_mapClips, Tables.mapClips_mapClips]
  have hback : (project.setTransport command.before).mapClips (fun id clip => Tables.relength
      (if tempoChanges command.before.tempo command.after.tempo then recordedLengths project
        else []) id (rescaledClip command.before.tempo command.after.tempo clip)) =
      project.setTransport command.before :=
    Tables.mapClips_eq_self fun id clip hclip => relength_recordedLengths hclip
  refine congrArg (Outcome.mk true _) (hback.trans ?_)
  rw [hbefore]; rfl

/-- A command that starts from the project's transport, after it has been taken back. -/
theorem undone_of_before (hbefore : command.before = project.transport) :
    History.Undone apply revert { command with originalLengths := [] } project
      (command.result project) :=
  ⟨_, { command with originalLengths := [] }, apply_eq, revert_result hbefore, apply_eq⟩

/-- **A command that starts from the project's transport can be taken back and made again.** -/
theorem done_of_before (hbefore : command.before = project.transport) :
    History.Done apply revert (command.apply project).command project (command.result project) := by
  rw [apply_eq]
  exact ⟨_, revert_result hbefore, undone_of_before hbefore⟩

/-! ### Coalescing -/

/-- The lengths do not show that two changes were made in a row: every clip the second one moves
was recorded, and one change rescales every clip as the two did. -/
def RescalesAgree (command next : TransportCommand) (project' : Tables) : Prop :=
  ∀ id clip, project'.clips.get? id = some clip →
    (rescaledClip next.before.tempo next.after.tempo clip = clip ∨
      id ∈ command.originalLengths.map Prod.fst) ∧
    rescaledClip command.before.tempo next.after.tempo
        (Tables.relength command.originalLengths id clip) =
      rescaledClip next.before.tempo next.after.tempo clip

/-- **An absorbed change can be taken back and made again**, when the rescaled lengths agree. -/
theorem done_coalesceWith {next' : TransportCommand} {project' project'' : Tables}
    (hdone : History.Done apply revert command project project')
    (hbefore : next.before = project'.transport)
    (happly : next.apply project' = ⟨true, next', project''⟩)
    (hagree : RescalesAgree command next project') :
    History.Done apply revert (command.coalesceWith next') project project'' := by
  obtain ⟨command₁, hrevert, command₂, command₃, hredo, -, -⟩ := hdone
  rw [revert_eq] at hrevert
  obtain ⟨-, rfl, hproject⟩ := Outcome.mk.inj hrevert
  rw [apply_eq] at hredo happly
  obtain ⟨-, -, hproject'⟩ := Outcome.mk.inj hredo
  obtain ⟨-, rfl, rfl⟩ := Outcome.mk.inj happly
  have hproject' : command.result project = project' := hproject'
  have htransport : project.transport = command.before := by rw [← hproject]; rfl
  have hnext : next.before = command.after := by rw [hbefore, ← hproject']; rfl
  -- reverting the first change puts every clip back
  have hback : ∀ id clip, project.clips.get? id = some clip →
      Tables.relength command.originalLengths id
        (rescaledClip command.before.tempo command.after.tempo clip) = clip := by
    intro id clip hclip
    have hget := congrArg (fun q : Tables => q.clips.get? id) hproject
    rw [← hproject'] at hget
    simp only [result, Tables.clips_mapClips, OrderedMap.get?_mapValues, hclip,
      show ∀ (q : Tables) t, (q.setTransport t).clips = q.clips from fun _ _ => rfl,
      Option.map_some, Option.some_inj] at hget
    exact hget
  have hclip' : ∀ id clip, project.clips.get? id = some clip → project'.clips.get? id =
      some (rescaledClip command.before.tempo command.after.tempo clip) := by
    intro id clip hclip
    rw [← hproject', result, Tables.clips_mapClips, OrderedMap.get?_mapValues,
      show (project.setTransport command.after).clips.get? id = some clip from hclip]
    rfl
  set merged : TransportCommand := { command with after := next.after } with hmerged
  have hresult : merged.result project = next.result project' := by
    rw [← hproject']
    simp only [result, Tables.setTransport_mapClips, Tables.mapClips_mapClips]
    refine Tables.mapClips_congr fun id clip hclip => ?_
    have hagree := (hagree id _ (hclip' id clip hclip)).2
    rw [hback id clip hclip] at hagree
    exact hagree
  refine ⟨{ merged with originalLengths := [] }, ?_, hresult ▸ undone_of_before htransport.symm⟩
  refine revert_eq.trans ?_
  refine congrArg (Outcome.mk true _) ?_
  rw [← hresult]
  simp only [result, Tables.setTransport_mapClips, Tables.mapClips_mapClips]
  have hlengths : (project.setTransport merged.before).mapClips (fun id clip =>
      Tables.relength merged.originalLengths id
        (rescaledClip merged.before.tempo merged.after.tempo clip)) =
      project.setTransport merged.before := by
    refine Tables.mapClips_eq_self fun id clip hclip => ?_
    obtain ⟨hrecorded, hagree⟩ := hagree id _ (hclip' id clip hclip)
    rw [hback id clip hclip] at hagree
    rw [hmerged, hagree]
    by_cases hmem : id ∈ command.originalLengths.map Prod.fst
    · refine Eq.trans ?_ (hback id clip hclip)
      generalize rescaledClip command.before.tempo command.after.tempo clip = moved
      unfold rescaledClip
      split_ifs
      · exact Tables.relength_withLength _ _ _ _ hmem
      · rfl
    · rw [hrecorded.resolve_right hmem]
      exact hback id clip hclip
  exact hlengths.trans (congrArg project.setTransport htransport.symm)

end TransportCommand

end OneBeat
