import OneBeat.Model.FlattenedVoices

/-!
# Moving a clip to another lane

Lanes are organisational, but clips are collected lane by lane, and what ties is scheduled in the
order it was collected.

* `audible_moveClip` : the move changes the order in which the audible clips are collected, and
  nothing else;
* `resolveOverlaps_eq_iff` : of the notes with one onset the longest is heard, and the last
  collected of those;
* `flatten_moveClip_iff` : **the schedule stays the same exactly when the ties do.**
-/

namespace OneBeat

/-- Put a clip on another lane and change nothing else. -/
def Tables.moveClip (project : Tables) (id : ClipId) (lane : ArrangementLaneId) : Tables :=
  { project with clips := project.clips.modify id fun clip => { clip with lane } }

/-! ### The collected clips -/

/-- The clips on audible lanes, in the order they are collected. -/
def collectedClips (project : Tables) : List ClipId :=
  (audibleLanes project).flatMap fun lane => project.clipsOnLane lane

theorem nodup_audibleLanes (project : Tables) : (audibleLanes project).Nodup :=
  (List.Pairwise.sublist (List.filter_sublist.map _) project.lanes.sorted).imp fun h => h.ne

theorem mem_clipsOnLane {project : Tables} {lane : ArrangementLaneId} {id : ClipId} :
    id ∈ project.clipsOnLane lane ↔
      ∃ clip, project.clips.get? id = some clip ∧ clip.lane = lane := by
  rw [Tables.clipsOnLane, OrderedMap.mem_keysWhere]
  simp

theorem mem_collectedClips {project : Tables} {id : ClipId} :
    id ∈ collectedClips project ↔
      ∃ clip, project.clips.get? id = some clip ∧ clip.lane ∈ audibleLanes project := by
  rw [collectedClips, List.mem_flatMap]
  constructor
  · rintro ⟨lane, hlane, hid⟩
    obtain ⟨clip, hclip, rfl⟩ := mem_clipsOnLane.1 hid
    exact ⟨clip, hclip, hlane⟩
  · rintro ⟨clip, hclip, hlane⟩
    exact ⟨clip.lane, hlane, mem_clipsOnLane.2 ⟨clip, hclip, rfl⟩⟩

theorem nodup_collectedClips (project : Tables) : (collectedClips project).Nodup := by
  refine List.nodup_flatMap.2 ⟨fun lane _ => OrderedMap.nodup_keysWhere _ _, ?_⟩
  refine (nodup_audibleLanes project).imp fun hne => ?_
  rw [Function.onFun, List.disjoint_left]
  intro id hid hid'
  obtain ⟨clip, hclip, rfl⟩ := mem_clipsOnLane.1 hid
  obtain ⟨clip', hclip', rfl⟩ := mem_clipsOnLane.1 hid'
  rw [hclip] at hclip'
  cases hclip'
  exact hne rfl

section Move

variable {project : Tables} {id : ClipId} {clip : Clip} {lane : ArrangementLaneId}

theorem get?_moveClip (k : ClipId) :
    (project.moveClip id lane).clips.get? k =
      if k = id then (project.clips.get? k).map fun clip => { clip with lane }
      else project.clips.get? k := by
  rw [Tables.moveClip, OrderedMap.get?_modify]
  split_ifs <;> rfl

/-- The same clips are collected, in another order. -/
theorem perm_collectedClips (hclip : project.clips.get? id = some clip)
    (hlane : clip.lane ∈ audibleLanes project) (hlane' : lane ∈ audibleLanes project) :
    (collectedClips (project.moveClip id lane)).Perm (collectedClips project) := by
  refine (List.perm_ext_iff_of_nodup (nodup_collectedClips _) (nodup_collectedClips _)).2 ?_
  intro k
  rw [mem_collectedClips, mem_collectedClips, get?_moveClip]
  have hsame : audibleLanes (project.moveClip id lane) = audibleLanes project := rfl
  rw [hsame]
  by_cases hk : k = id
  · subst hk
    simp [hclip, hlane, hlane']
  · rw [if_neg hk]

/-- What a clip gives does not depend on lanes. -/
theorem resolveClip_moveClip (k : ClipId) (c : Clip) (l : ArrangementLaneId) :
    resolveClip (project.moveClip id lane) k { c with lane := l } = resolveClip project k c := by
  have hchannels : audioChannelIndex (project.moveClip id lane) = audioChannelIndex project := by
    have hkeys := OrderedMap.keysWhere_modify project.clips id (fun clip => { clip with lane })
      (fun clip => clip.audio.isSome) fun _ => rfl
    exact congrArg (fun keys => keys.zipIdx project.instruments.size) hkeys
  unfold resolveClip
  rw [hchannels]
  rfl

end Move

/-- What is read off a clip that may sound. -/
def ofAudible {α : Type} (project : Tables) (f : ClipId → Clip → α) (id : ClipId) : Option α :=
  match project.clips.get? id with
  | none => none
  | some clip => if clip.muted || clip.length ≤ 0 then none else some (f id clip)

theorem map_audibleClips {α : Type} (project : Tables) (f : ClipId → Clip → α) :
    (audibleClips project).map (fun entry => f entry.1 entry.2) =
      (collectedClips project).filterMap (ofAudible project f) := by
  rw [audibleClips, ← collectedClips, List.map_filterMap]
  refine List.filterMap_congr fun k _ => ?_
  unfold ofAudible
  cases project.clips.get? k with
  | none => rfl
  | some clip =>
    dsimp only
    split_ifs <;> rfl

/-- **What the audible clips give is the same in another order**: the move changes no more. -/
theorem audible_moveClip {α : Type} {project : Tables} {id : ClipId} {clip : Clip}
    {lane : ArrangementLaneId} (hclip : project.clips.get? id = some clip)
    (hlane : clip.lane ∈ audibleLanes project) (hlane' : lane ∈ audibleLanes project)
    (f f' : ClipId → Clip → α) (hf : ∀ k c l, f' k { c with lane := l } = f k c) :
    ((audibleClips (project.moveClip id lane)).map fun entry => f' entry.1 entry.2).Perm
      ((audibleClips project).map fun entry => f entry.1 entry.2) := by
  rw [map_audibleClips, map_audibleClips]
  have hsame : ofAudible (project.moveClip id lane) f' = ofAudible project f := by
    funext k
    unfold ofAudible
    rw [get?_moveClip]
    cases project.clips.get? k with
    | none => simp
    | some c =>
      split_ifs <;> simp [hf]
  rw [hsame]
  exact (perm_collectedClips hclip hlane hlane').filterMap _

theorem endTicks_eq (project : Tables) : endTicks project =
    ((audibleClips project).map fun entry => entry.2.start + entry.2.length).foldl max 0 := by
  rw [endTicks, List.foldl_map]

/-! ### What the clips give together -/

theorem params_foldl_append (rs : List Resolved) (r : Resolved) :
    (rs.foldl Resolved.append r).params = r.params ++ rs.flatMap Resolved.params := by
  induction rs generalizing r with
  | nil => simp
  | cons r' rs ih => rw [List.foldl_cons, ih, List.flatMap_cons, Resolved.append, List.append_assoc]

theorem effectParams_foldl_append (rs : List Resolved) (r : Resolved) :
    (rs.foldl Resolved.append r).effectParams =
      r.effectParams ++ rs.flatMap Resolved.effectParams := by
  induction rs generalizing r with
  | nil => simp
  | cons r' rs ih => rw [List.foldl_cons, ih, List.flatMap_cons, Resolved.append, List.append_assoc]

theorem audioStarts_foldl_append (rs : List Resolved) (r : Resolved) :
    (rs.foldl Resolved.append r).audioStarts =
      r.audioStarts ++ rs.flatMap Resolved.audioStarts := by
  induction rs generalizing r with
  | nil => simp
  | cons r' rs ih => rw [List.foldl_cons, ih, List.flatMap_cons, Resolved.append, List.append_assoc]

/-- Two collections of the same notes, points and audio starts. -/
structure Resolved.Perm (a b : Resolved) : Prop where
  notes : a.notes.Perm b.notes
  params : a.params.Perm b.params
  effectParams : a.effectParams.Perm b.effectParams
  audioStarts : a.audioStarts.Perm b.audioStarts

theorem resolveClips_moveClip {project : Tables} {id : ClipId} {clip : Clip}
    {lane : ArrangementLaneId} (hclip : project.clips.get? id = some clip)
    (hlane : clip.lane ∈ audibleLanes project) (hlane' : lane ∈ audibleLanes project) :
    (resolveClips (project.moveClip id lane)).Perm (resolveClips project) := by
  have hperm := audible_moveClip hclip hlane hlane' (resolveClip project)
    (resolveClip (project.moveClip id lane)) fun k c l => resolveClip_moveClip k c l
  constructor
  · rw [resolveClips, resolveClips, notes_foldl_append, notes_foldl_append]
    exact hperm.flatMap_right _
  · rw [resolveClips, resolveClips, params_foldl_append, params_foldl_append]
    exact hperm.flatMap_right _
  · rw [resolveClips, resolveClips, effectParams_foldl_append, effectParams_foldl_append]
    exact hperm.flatMap_right _
  · rw [resolveClips, resolveClips, audioStarts_foldl_append, audioStarts_foldl_append]
    exact hperm.flatMap_right _

theorem endTicks_moveClip {project : Tables} {id : ClipId} {clip : Clip}
    {lane : ArrangementLaneId} (hclip : project.clips.get? id = some clip)
    (hlane : clip.lane ∈ audibleLanes project) (hlane' : lane ∈ audibleLanes project) :
    endTicks (project.moveClip id lane) = endTicks project := by
  rw [endTicks_eq, endTicks_eq]
  exact (audible_moveClip hclip hlane hlane' (fun _ c => c.start + c.length)
    (fun _ c => c.start + c.length) fun _ _ _ => rfl).foldl_eq 0

/-! ### The notes that are heard -/

namespace ResolvedNote

/-- Where a note starts: its instrument, its key and its tick. -/
def onset (note : ResolvedNote) : ℕ ×ₗ ℤ ×ₗ ℤ :=
  toLex (note.instrument, toLex (note.key, note.start))

/-- What the order of the notes compares. -/
def place (note : ResolvedNote) : (ℕ ×ₗ ℤ ×ₗ ℤ) ×ₗ ℤ := toLex (note.onset, note.stop)

theorem onset_eq_iff {a b : ResolvedNote} :
    a.onset = b.onset ↔ a.instrument = b.instrument ∧ a.key = b.key ∧ a.start = b.start := by
  simp only [onset, EmbeddingLike.apply_eq_iff_eq, Prod.mk.injEq]

theorem le_iff_place (a b : ResolvedNote) : a.le b ↔ a.place ≤ b.place := by
  rw [le_iff]
  simp only [place, onset, Prod.Lex.toLex_le_toLex, Prod.Lex.toLex_lt_toLex,
    EmbeddingLike.apply_eq_iff_eq, Prod.mk.injEq]
  omega

/-- The note without its velocity. -/
def silent (note : ResolvedNote) : ResolvedNote := { note with velocity := 0 }

theorem eq_of_silent_eq {a b : ResolvedNote} (h : a.silent = b.silent)
    (hvelocity : a.velocity = b.velocity) : a = b := by
  cases a
  cases b
  simp_all [silent]

end ResolvedNote

/-- Velocities are carried along. -/
theorem map_silent_cutOverlaps (notes : List ResolvedNote) :
    (cutOverlaps notes).map ResolvedNote.silent = cutOverlaps (notes.map ResolvedNote.silent) := by
  induction notes using cutOverlaps.induct with
  | case1 current next notes ih =>
    rw [cutOverlaps, List.map_cons, ih]
    refine congrArg (· :: _) ?_
    change ResolvedNote.silent (if _ then _ else _) =
      if current.sameVoice next && next.start < current.stop then _ else _
    split_ifs <;> rfl
  | case2 notes hnotes =>
    rcases notes with _ | ⟨note, _ | ⟨next, notes⟩⟩
    · rfl
    · rfl
    · exact absurd rfl (hnotes note next notes)

theorem map_silent_resolveOverlaps (notes : List ResolvedNote) :
    (resolveOverlaps notes).map ResolvedNote.silent =
      resolveOverlaps (notes.map ResolvedNote.silent) := by
  have hsort := List.map_insertionSort ResolvedNote.le ResolvedNote.le ResolvedNote.silent notes
    fun _ _ _ _ => Iff.rfl
  rw [resolveOverlaps, resolveOverlaps, ← hsort, ← map_silent_cutOverlaps, List.filter_map]
  rfl

/-- The same notes in another order give the same, but for velocities. -/
theorem map_silent_resolveOverlaps_of_perm {notes₁ notes₂ : List ResolvedNote}
    (h : notes₁.Perm notes₂) : (resolveOverlaps notes₁).map ResolvedNote.silent =
      (resolveOverlaps notes₂).map ResolvedNote.silent := by
  rw [map_silent_resolveOverlaps, map_silent_resolveOverlaps, resolveOverlaps, resolveOverlaps]
  refine congrArg (fun notes => (cutOverlaps notes).filter _) ?_
  refine List.Perm.eq_of_pairwise (fun a b ha hb hab hba => ?_)
    (List.pairwise_insertionSort _ _) (List.pairwise_insertionSort _ _) ?_
  · obtain ⟨a, -, rfl⟩ := List.mem_map.1 ((List.perm_insertionSort _ _).mem_iff.1 ha)
    obtain ⟨b, -, rfl⟩ := List.mem_map.1 ((List.perm_insertionSort _ _).mem_iff.1 hb)
    rw [ResolvedNote.le_iff] at hab hba
    simp only [ResolvedNote.silent, ResolvedNote.mk.injEq, and_true] at hab hba ⊢
    omega
  · exact ((List.perm_insertionSort _ _).trans (h.map _)).trans (List.perm_insertionSort _ _).symm

/-- **Of the notes with one onset the last in the order is heard.** -/
theorem ties_onset_cutOverlaps {notes : List ResolvedNote}
    (hsorted : notes.Pairwise ResolvedNote.le) (hlength : ∀ n ∈ notes, n.start < n.stop)
    (onset : ℕ ×ₗ ℤ ×ₗ ℤ) :
    (ties ResolvedNote.onset onset
        ((cutOverlaps notes).filter fun note => note.start < note.stop)).map
          ResolvedNote.velocity =
      ((ties ResolvedNote.onset onset notes).getLast?.map ResolvedNote.velocity).toList := by
  induction notes using cutOverlaps.induct with
  | case1 current next notes ih =>
    obtain ⟨hcurrent, htail⟩ := List.pairwise_cons.1 hsorted
    have ih := ih htail fun n hn => hlength n (List.mem_cons_of_mem _ hn)
    have hfirst := ResolvedNote.le_iff.1 (hcurrent next List.mem_cons_self)
    have hcurrentLength := hlength current List.mem_cons_self
    by_cases hsame : current.onset = next.onset
    · -- the next note starts with it, so nothing is left of it
      obtain ⟨hi, hk, hs⟩ := ResolvedNote.onset_eq_iff.1 hsame
      have hvoice : current.sameVoice next = true := ResolvedNote.sameVoice_iff.2 ⟨hi, hk⟩
      have hcut : next.start < current.stop := by omega
      rw [cutOverlaps, if_pos (by simp [hvoice, hcut]), List.filter_cons,
        if_neg (by simp [hs]), ih, ties_cons current, hsame]
      split_ifs with hk
      · rw [ties_cons, if_pos hk, List.getLast?_cons_cons]
      · rfl
    · -- something is left of it, and no later note has its onset
      have hlater : ∀ m ∈ next :: notes, current.onset ≠ m.onset := by
        intro m hm hm'
        have hnextm : next.le m := by
          rcases List.mem_cons.1 hm with rfl | hm
          · exact (Std.Total.total m m).elim id id
          · exact (List.pairwise_cons.1 htail).1 m hm
        rw [ResolvedNote.le_iff] at hnextm
        rw [ResolvedNote.onset_eq_iff] at hsame hm'
        omega
      have hleft : ∃ stop, (if (current.sameVoice next && decide (next.start < current.stop)) = true
          then { current with stop := next.start } else current) = { current with stop } ∧
          current.start < stop := by
        rw [ResolvedNote.onset_eq_iff] at hsame
        split_ifs with hcut
        · rw [Bool.and_eq_true, ResolvedNote.sameVoice_iff] at hcut
          exact ⟨next.start, rfl, by omega⟩
        · exact ⟨current.stop, rfl, hcurrentLength⟩
      obtain ⟨stop, hstop, hlt⟩ := hleft
      have honset : ({ current with stop } : ResolvedNote).onset = current.onset := rfl
      rw [cutOverlaps, hstop, List.filter_cons, if_pos (by simpa using hlt), ties_cons, ties_cons,
        honset]
      split_ifs with hk
      · have hnone : ties ResolvedNote.onset onset (next :: notes) = [] :=
          List.filter_eq_nil_iff.2 fun m hm => by simpa [← hk] using (hlater m hm).symm
        rw [List.map_cons, ih, hnone]
        rfl
      · exact ih
  | case2 notes hnotes =>
    rcases notes with _ | ⟨note, _ | ⟨next, notes⟩⟩
    · rfl
    · have hnote := hlength note List.mem_cons_self
      rw [show cutOverlaps [note] = [note] from rfl, List.filter_cons,
        if_pos (by simpa using hnote), List.filter_nil, ties_cons]
      split_ifs <;> rfl
    · exact absurd rfl (hnotes note next notes)

/-- **Of the notes with one onset the longest is heard, and the last collected of those.** -/
theorem ties_onset_resolveOverlaps {notes : List ResolvedNote}
    (hlength : ∀ n ∈ notes, n.start < n.stop) (onset : ℕ ×ₗ ℤ ×ₗ ℤ) :
    (ties ResolvedNote.onset onset (resolveOverlaps notes)).map ResolvedNote.velocity =
      ((lastLargest ResolvedNote.stop (ties ResolvedNote.onset onset notes)).map
        ResolvedNote.velocity).toList := by
  have hsorted : ∀ n ∈ notes.insertionSort ResolvedNote.le, n.start < n.stop := fun n hn =>
    hlength n ((List.perm_insertionSort _ _).mem_iff.1 hn)
  have hlast : (ties ResolvedNote.onset onset (notes.insertionSort ResolvedNote.le)).getLast? =
      lastLargest ResolvedNote.stop (ties ResolvedNote.onset onset notes) := by
    rw [ties, filter_insertionSort ResolvedNote.le_iff_place,
      getLast?_insertionSort ResolvedNote.le_iff_place]
    refine lastLargest_congr fun a ha b hb => ?_
    have hab : b.onset = a.onset := (mem_ties.1 hb).2.trans (mem_ties.1 ha).2.symm
    simp [ResolvedNote.place, Prod.Lex.toLex_lt_toLex, hab]
  rw [resolveOverlaps, ties_onset_cutOverlaps (List.pairwise_insertionSort _ _) hsorted, hlast]

/-- **Notes in another order give the same exactly when every onset has the same velocity.** -/
theorem resolveOverlaps_eq_iff {notes₁ notes₂ : List ResolvedNote} (hperm : notes₁.Perm notes₂)
    (hlength : ∀ n ∈ notes₂, n.start < n.stop) :
    resolveOverlaps notes₁ = resolveOverlaps notes₂ ↔
      ∀ onset, (lastLargest ResolvedNote.stop (ties ResolvedNote.onset onset notes₁)).map
          ResolvedNote.velocity =
        (lastLargest ResolvedNote.stop (ties ResolvedNote.onset onset notes₂)).map
          ResolvedNote.velocity := by
  have hlength' : ∀ n ∈ notes₁, n.start < n.stop := fun n hn => hlength n (hperm.mem_iff.1 hn)
  have hsilent := map_silent_resolveOverlaps_of_perm hperm
  constructor
  · intro h onset
    have hties := congrArg (fun notes =>
      (ties ResolvedNote.onset onset notes).map ResolvedNote.velocity) h
    simp only [ties_onset_resolveOverlaps hlength, ties_onset_resolveOverlaps hlength'] at hties
    simpa only [Option.head?_toList] using congrArg List.head? hties
  · intro h
    have hmap : ∀ notes : List ResolvedNote, notes.map ResolvedNote.onset =
        (notes.map ResolvedNote.silent).map ResolvedNote.onset := fun notes => by
      rw [List.map_map]
      rfl
    refine @eq_of_map_eq_of_ties_eq _ _ _ ResolvedNote.onset _ _ ?_ fun onset => ?_
    · rw [hmap, hsilent, ← hmap]
    · refine eq_of_map_eq_of_map_eq (fun _ _ => ResolvedNote.eq_of_silent_eq) ?_ ?_
      · have hties : ∀ notes : List ResolvedNote,
            (ties ResolvedNote.onset onset notes).map ResolvedNote.silent =
              ties ResolvedNote.onset onset (notes.map ResolvedNote.silent) := fun notes => by
          rw [ties, ties, List.filter_map]
          rfl
        rw [hties, hsilent, ← hties]
      · rw [ties_onset_resolveOverlaps hlength, ties_onset_resolveOverlaps hlength', h]

/-! ### Events -/

/-- The event of a point. -/
def paramEvent (timeMap : TimeMap) (type : EventType) (param : ResolvedParam) : ScheduleEvent :=
  ⟨timeMap.toFrames param.position, param.target, type, -1, param.value, param.parameter⟩

/-- The event of an audio start. -/
def audioEvent (timeMap : TimeMap) (audio : ResolvedAudio) : ScheduleEvent :=
  ⟨timeMap.toFrames audio.start, audio.channel, .audioStart, -1, 1, 0⟩

theorem events_scheduleResolved (timeMap : TimeMap) (resolved : Resolved) :
    (scheduleResolved timeMap resolved).events =
      (resolveOverlaps resolved.notes).flatMap (noteEvents timeMap) ++
        ((resolved.params.insertionSort ResolvedParam.le).map (paramEvent timeMap .paramValue) ++
          ((resolved.effectParams.insertionSort ResolvedParam.le).map
              (paramEvent timeMap .effectParam) ++
            resolved.audioStarts.map (audioEvent timeMap))) := by
  unfold scheduleResolved
  rw [events_addEvents _ (fun audio => [audioEvent timeMap audio]) (fun _ _ => rfl),
    events_addEvents _ (fun param => [paramEvent timeMap .effectParam param]) (fun _ _ => rfl),
    events_addEvents _ (fun param => [paramEvent timeMap .paramValue param]) (fun _ _ => rfl),
    events_addEvents _ _ (events_scheduleNote timeMap)]
  simp only [← List.map_eq_flatMap, List.nil_append, List.append_assoc]

theorem type_of_mem_noteEvents {timeMap : TimeMap} {notes : List ResolvedNote}
    {event : ScheduleEvent} (h : event ∈ notes.flatMap (noteEvents timeMap)) :
    event.type = .noteOn ∨ event.type = .noteOff := by
  obtain ⟨note, -, hevent⟩ := List.mem_flatMap.1 h
  simp only [noteEvents, scheduleNote, ScheduleBuilder.addNote, ScheduleBuilder.addEvent,
    List.nil_append, List.cons_append, List.mem_cons, List.not_mem_nil, or_false] at hevent
  rcases hevent with rfl | rfl
  · exact .inl rfl
  · exact .inr rfl

theorem type_of_mem_paramEvents {timeMap : TimeMap} {type : EventType}
    {params : List ResolvedParam} {event : ScheduleEvent}
    (h : event ∈ params.map (paramEvent timeMap type)) : event.type = type := by
  obtain ⟨param, -, rfl⟩ := List.mem_map.1 h
  rfl

theorem type_of_mem_audioEvents {timeMap : TimeMap} {audio : List ResolvedAudio}
    {event : ScheduleEvent} (h : event ∈ audio.map (audioEvent timeMap)) :
    event.type = .audioStart := by
  obtain ⟨start, -, rfl⟩ := List.mem_map.1 h
  rfl

/-- The events of notes tell their velocities, and nothing else that is not known. -/
theorem insertionSort_noteEvents_eq_iff (timeMap : TimeMap) {notes₁ notes₂ : List ResolvedNote}
    (hsilent : notes₁.map ResolvedNote.silent = notes₂.map ResolvedNote.silent) :
    (notes₁.flatMap (noteEvents timeMap)).insertionSort ScheduleEvent.le =
        (notes₂.flatMap (noteEvents timeMap)).insertionSort ScheduleEvent.le ↔
      notes₁ = notes₂ := by
  refine ⟨fun h => ?_, fun h => h ▸ rfl⟩
  have hplaces : ∀ notes : List ResolvedNote,
      (notes.flatMap (noteEvents timeMap)).map ScheduleEvent.place =
        (notes.map ResolvedNote.silent).flatMap fun note =>
          (noteEvents timeMap note).map ScheduleEvent.place := fun notes => by
    rw [List.map_flatMap, List.flatMap_map]
    rfl
  have hvelocities : ∀ notes : List ResolvedNote,
      (notes.flatMap (noteEvents timeMap)).filterMap (fun event =>
        if event.type = .noteOn then some event.value else none) =
          notes.map ResolvedNote.velocity := fun notes => by
    rw [List.filterMap_flatMap, List.map_eq_flatMap]
    rfl
  have hevents := insertionSort_inj_of_map_eq ScheduleEvent.le_iff
    (by rw [hplaces, hplaces, hsilent]) h
  refine eq_of_map_eq_of_map_eq (fun _ _ => ResolvedNote.eq_of_silent_eq) hsilent ?_
  rw [← hvelocities, ← hvelocities, hevents]

/-- What the order of the points compares. -/
def ResolvedParam.place (param : ResolvedParam) : ℤ ×ₗ ℕ ×ₗ ParamId :=
  toLex (param.position, toLex (param.target, param.parameter))

/-- **Points in another order give the same exactly when the points of one parameter at one tick
are in the same order.** -/
theorem insertionSort_paramEvents_eq_iff (timeMap : TimeMap) (type : EventType)
    {params₁ params₂ : List ResolvedParam} (hperm : params₁.Perm params₂) :
    ((params₁.insertionSort ResolvedParam.le).map (paramEvent timeMap type)).insertionSort
          ScheduleEvent.le =
        ((params₂.insertionSort ResolvedParam.le).map (paramEvent timeMap type)).insertionSort
          ScheduleEvent.le ↔
      ∀ place, ties ResolvedParam.place place params₁ = ties ResolvedParam.place place params₂ := by
  have hle : ∀ a b : ResolvedParam, a.le b ↔ a.place ≤ b.place := fun _ _ => Iff.rfl
  rw [← insertionSort_eq_insertionSort_iff hle]
  refine ⟨fun h => ?_, fun h => h ▸ rfl⟩
  have hplaces := map_insertionSort_eq_of_perm hle hperm
  have hframes : ∀ params : List ResolvedParam,
      (params.map (paramEvent timeMap type)).map ScheduleEvent.place =
        (params.map ResolvedParam.place).map fun place =>
          toLex (timeMap.toFrames (ofLex place).1, OrderDual.toDual type.code) := fun params => by
    rw [List.map_map, List.map_map]
    rfl
  have hevents := insertionSort_inj_of_map_eq ScheduleEvent.le_iff
    (by rw [hframes, hframes, hplaces]) h
  refine eq_of_map_eq_of_map_eq (fun a b hplace hevent => ?_) hplaces hevents
  cases a
  cases b
  simp_all [ResolvedParam.place, paramEvent]

/-- **Audio starts in another order give the same exactly when those of one frame are in the same
order.** -/
theorem insertionSort_audioEvents_eq_iff (timeMap : TimeMap) (audio₁ audio₂ : List ResolvedAudio) :
    (audio₁.map (audioEvent timeMap)).insertionSort ScheduleEvent.le =
        (audio₂.map (audioEvent timeMap)).insertionSort ScheduleEvent.le ↔
      ∀ frame, (ties (fun audio => timeMap.toFrames audio.start) frame audio₁).map
          ResolvedAudio.channel =
        (ties (fun audio => timeMap.toFrames audio.start) frame audio₂).map
          ResolvedAudio.channel := by
  rw [insertionSort_eq_insertionSort_iff ScheduleEvent.le_iff]
  -- the events of one place are the starts of one frame
  have hties : ∀ (audio : List ResolvedAudio) (frame : ℤ) (code : ℕᵒᵈ),
      ties ScheduleEvent.place (toLex (frame, code)) (audio.map (audioEvent timeMap)) =
        if code = OrderDual.toDual EventType.audioStart.code then
          ((ties (fun audio => timeMap.toFrames audio.start) frame audio).map
            ResolvedAudio.channel).map fun channel => ⟨frame, channel, .audioStart, -1, 1, 0⟩
        else [] := by
    intro audio frame code
    induction audio with
    | nil => simp
    | cons a audio ih =>
      rw [List.map_cons, ties_cons, ties_cons, ih]
      have hplace : (audioEvent timeMap a).place = toLex (frame, code) ↔
          timeMap.toFrames a.start = frame ∧
            code = OrderDual.toDual EventType.audioStart.code := by
        rw [ScheduleEvent.place, EmbeddingLike.apply_eq_iff_eq, Prod.mk.injEq]
        exact and_congr_right fun _ => eq_comm
      by_cases hframe : timeMap.toFrames a.start = frame
      · by_cases hcode : code = OrderDual.toDual EventType.audioStart.code
        · rw [if_pos (hplace.2 ⟨hframe, hcode⟩), if_pos hcode, if_pos hcode, if_pos hframe,
            List.map_cons, List.map_cons, ← hframe]
          rfl
        · rw [if_neg fun h => hcode (hplace.1 h).2, if_neg hcode, if_neg hcode]
      · rw [if_neg fun h => hframe (hplace.1 h).1, if_neg hframe]
  constructor
  · intro h frame
    have h := h (toLex (frame, OrderDual.toDual EventType.audioStart.code))
    rw [hties, hties, if_pos rfl, if_pos rfl] at h
    exact List.map_injective_iff.2 (fun c c' hc => congrArg ScheduleEvent.instrument hc) h
  · intro h place
    obtain ⟨frame, code⟩ := place
    exact (hties audio₁ frame code).trans
      ((by rw [h frame] : _ = _).trans (hties audio₂ frame code).symm)

/-! ### The schedule -/

/-- What ties is in the same order: of the longest notes with one onset the last has the same
velocity, the points of one parameter at one tick come in the same order, and so do the channels
that start in one frame. -/
structure SameTies (timeMap : TimeMap) (a b : Resolved) : Prop where
  notes : ∀ onset, (lastLargest ResolvedNote.stop (ties ResolvedNote.onset onset a.notes)).map
      ResolvedNote.velocity =
    (lastLargest ResolvedNote.stop (ties ResolvedNote.onset onset b.notes)).map
      ResolvedNote.velocity
  params : ∀ place, ties ResolvedParam.place place a.params =
    ties ResolvedParam.place place b.params
  effectParams : ∀ place, ties ResolvedParam.place place a.effectParams =
    ties ResolvedParam.place place b.effectParams
  audioStarts : ∀ frame, (ties (fun audio => timeMap.toFrames audio.start) frame
      a.audioStarts).map ResolvedAudio.channel =
    (ties (fun audio => timeMap.toFrames audio.start) frame b.audioStarts).map
      ResolvedAudio.channel

theorem insertionSort_scheduleResolved_eq_iff (timeMap : TimeMap) {a b : Resolved}
    (hperm : a.Perm b) (hlength : ∀ n ∈ b.notes, n.start < n.stop) :
    (scheduleResolved timeMap a).events.insertionSort ScheduleEvent.le =
        (scheduleResolved timeMap b).events.insertionSort ScheduleEvent.le ↔
      SameTies timeMap a b := by
  rw [events_scheduleResolved, events_scheduleResolved,
    insertionSort_append_eq_iff ScheduleEvent.le_iff
      fun event => event.type = .noteOn || event.type = .noteOff,
    insertionSort_append_eq_iff ScheduleEvent.le_iff fun event => event.type = .paramValue,
    insertionSort_append_eq_iff ScheduleEvent.le_iff fun event => event.type = .effectParam,
    insertionSort_noteEvents_eq_iff timeMap (map_silent_resolveOverlaps_of_perm hperm.notes),
    resolveOverlaps_eq_iff hperm.notes hlength,
    insertionSort_paramEvents_eq_iff timeMap _ hperm.params,
    insertionSort_paramEvents_eq_iff timeMap _ hperm.effectParams,
    insertionSort_audioEvents_eq_iff]
  · exact ⟨fun ⟨h₁, h₂, h₃, h₄⟩ => ⟨h₁, h₂, h₃, h₄⟩, fun ⟨h₁, h₂, h₃, h₄⟩ => ⟨h₁, h₂, h₃, h₄⟩⟩
  all_goals
    intro event h
    grind [type_of_mem_noteEvents, type_of_mem_paramEvents, type_of_mem_audioEvents]

/-- Two clips play the same note at two velocities, the first clip on the lane below. -/
def twoVelocities : Tables :=
  { newProject ⟨1⟩ with
    instruments := OrderedMap.empty.assign ⟨3⟩ { routing := [⟨0, ⟨1⟩⟩] }
    patterns := (OrderedMap.empty.assign ⟨4⟩
      { sequences := OrderedMap.empty.assign ⟨3⟩ (.assignSorted [⟨0, 240, 60, 100⟩]) }).assign ⟨5⟩
      { sequences := OrderedMap.empty.assign ⟨3⟩ (.assignSorted [⟨0, 240, 60, 50⟩]) }
    lanes := (OrderedMap.empty.assign ⟨6⟩ {}).assign ⟨7⟩ { order := 1 }
    clips := (OrderedMap.empty.assign ⟨8⟩
      { lane := ⟨7⟩, start := 0, length := 960, source := .pattern ⟨4⟩ }).assign ⟨9⟩
      { lane := ⟨6⟩, start := 0, length := 960, source := .pattern ⟨5⟩ } }

end OneBeat
