import OneBeat.Lib.RunningExtremes
import OneBeat.Model.Flattener
import OneBeat.Model.Invariants

/-!
# Voices of a flattened project

The events on one key of one instrument never overlap.

* `resolveClips_inside`, `resolveClips_within` : every resolved note has a length, and lies inside
  its clip, so between the start of the timeline and the end of the arrangement;
* `resolveOverlaps_pairwise` : after cutting, a note of a voice ends before the next one starts;
* `alternates_noteEvents` : where later ticks are later frames, their events alternate.

**Main theorem** (`flatten_alternates`): in the schedule of a consistent project, the events of
every voice alternate, as long as the time map resolves the ticks of the arrangement.
-/

namespace OneBeat

/-! ### Occurrences -/

/-- One position for each tick is fuel enough: the loop visits every position below the bound. -/
theorem mem_positionsFrom_iff {step bound : ℤ} (hstep : 0 < step) {fuel : ℕ} {position p : ℤ}
    (hfuel : bound - position ≤ fuel) :
    p ∈ positionsFrom step bound fuel position ↔ p < bound ∧ ∃ i : ℕ, p = position + i * step := by
  induction fuel generalizing position with
  | zero =>
    refine iff_of_false List.not_mem_nil fun ⟨hp, i, hi⟩ => ?_
    have : 0 ≤ (i : ℤ) * step := by positivity
    omega
  | succ fuel ih =>
    rw [positionsFrom]
    split_ifs with hbound
    · rw [List.mem_cons, ih (by push_cast at hfuel; omega)]
      constructor
      · rintro (rfl | ⟨hp, i, rfl⟩)
        · exact ⟨hbound, 0, by simp⟩
        · exact ⟨hp, i + 1, by push_cast; ring⟩
      · rintro ⟨hp, i, rfl⟩
        cases i with
        | zero => exact .inl (by simp)
        | succ i => exact .inr ⟨hp, i, by push_cast; ring⟩
    · refine iff_of_false List.not_mem_nil fun ⟨hp, i, hi⟩ => ?_
      have : 0 ≤ (i : ℤ) * step := by positivity
      omega

/-- An occurrence has a length and lies inside the clip. -/
theorem collectOccurrences_bounds {note : Note} {clip : Clip} {patternLength : ℤ} {o : ℤ × ℤ}
    (h : o ∈ collectOccurrences note clip patternLength) :
    0 ≤ o.1 ∧ o.1 < o.2 ∧ o.2 ≤ clip.length := by
  unfold collectOccurrences at h
  split_ifs at h with hempty hloop
  · cases h
  · simp only at h
    split_ifs at h
    · cases h
    · obtain rfl := List.mem_singleton.1 h
      simp only
      omega
    · cases h
  · obtain ⟨position, hposition, hsome⟩ := List.mem_filterMap.1 h
    simp only at hsome
    split_ifs at hsome with hstop
    cases hsome
    have hfirst : 0 ≤ ((note.start - clip.transforms.windowStart).tmod patternLength +
        patternLength).tmod patternLength := by
      refine Int.tmod_nonneg _ ?_
      have := Int.lt_tmod_of_pos (note.start - clip.transforms.windowStart)
        (show 0 < patternLength by omega)
      omega
    obtain ⟨-, i, rfl⟩ := (mem_positionsFrom_iff (show 0 < patternLength by omega)
      (by omega)).1 hposition
    have hlater : 0 ≤ (i : ℤ) * patternLength := mul_nonneg (by positivity) (by omega)
    exact ⟨by omega, hstop, by omega⟩

/-- The note has a length and lies inside its clip. -/
structure ResolvedNote.Inside (clip : Clip) (note : ResolvedNote) : Prop where
  start_le : clip.start ≤ note.start
  start_lt_stop : note.start < note.stop
  stop_le : note.stop ≤ clip.start + clip.length

theorem resolveNote_inside {pattern : Pattern} {patternLength : ℤ} {clip : Clip}
    {settings : ChannelSettings} {index : ℕ} {note : Note} {notes : List ResolvedNote}
    (h : resolveNote pattern patternLength clip settings index note = some notes) :
    ∀ n ∈ notes, n.Inside clip := by
  unfold resolveNote at h
  simp only at h
  split_ifs at h
  cases h
  intro n hn
  obtain ⟨o, ho, rfl⟩ := List.mem_map.1 hn
  obtain ⟨h₁, h₂, h₃⟩ := collectOccurrences_bounds ho
  constructor <;> simp only <;> omega

theorem notes_foldl_append (rs : List Resolved) (r : Resolved) :
    (rs.foldl Resolved.append r).notes = r.notes ++ rs.flatMap Resolved.notes := by
  induction rs generalizing r with
  | nil => simp
  | cons r' rs ih => rw [List.foldl_cons, ih, List.flatMap_cons, Resolved.append, List.append_assoc]

theorem resolveSequence_inside {project : Tables} {pattern : Pattern} {patternLength : ℤ}
    {clip : Clip} {entry : InstrumentId × NoteSequence} :
    ∀ n ∈ (resolveSequence project pattern patternLength clip entry).notes, n.Inside clip := by
  unfold resolveSequence
  intro n hn
  simp only at hn
  split at hn
  · split_ifs at hn
    · cases hn
    · obtain ⟨notes, hnotes, hn⟩ := List.mem_flatMap.1 hn
      obtain ⟨note, -, rfl⟩ := List.mem_map.1 hnotes
      cases hsome : resolveNote pattern patternLength clip _ _ note with
      | none =>
        rw [hsome] at hn
        cases hn
      | some notes =>
        rw [hsome] at hn
        exact resolveNote_inside hsome n hn
  · cases hn

theorem notes_resolveAutomation {project : Tables} {clip : Clip} {automation : AutomationSource}
    {r : Resolved} (h : resolveAutomation project clip automation = some r) : r.notes = [] := by
  unfold resolveAutomation at h
  split at h
  · obtain ⟨index, -, rfl⟩ := Option.map_eq_some_iff.1 h
    rfl
  · obtain ⟨index, -, rfl⟩ := Option.map_eq_some_iff.1 h
    rfl
  · cases h

theorem resolveClip_inside {project : Tables} {id : ClipId} {clip : Clip} :
    ∀ n ∈ (resolveClip project id clip).notes, n.Inside clip := by
  intro n hn
  unfold resolveClip at hn
  split at hn
  · split at hn
    · cases hn
    · simp only at hn
      split_ifs at hn
      · cases hn
      · rw [notes_foldl_append, List.nil_append, List.flatMap_append, List.mem_append] at hn
        rcases hn with hn | hn
        · obtain ⟨r, hr, hn⟩ := List.mem_flatMap.1 hn
          obtain ⟨entry, -, rfl⟩ := List.mem_map.1 hr
          exact resolveSequence_inside n hn
        · obtain ⟨r, hr, hn⟩ := List.mem_flatMap.1 hn
          obtain ⟨automation, -, rfl⟩ := List.mem_map.1 hr
          cases hsome : resolveAutomation project clip automation with
          | none =>
            rw [hsome] at hn
            cases hn
          | some r =>
            rw [hsome, Option.getD_some, notes_resolveAutomation hsome] at hn
            cases hn
  · split at hn <;> cases hn
  · split at hn
    · cases hn
    next r hsome =>
      have hn : n ∈ r.notes := hn
      rw [notes_resolveAutomation hsome] at hn
      cases hn

/-- Every resolved note lies inside an audible clip. -/
theorem resolveClips_inside {project : Tables} {n : ResolvedNote}
    (hn : n ∈ (resolveClips project).notes) : ∃ entry ∈ audibleClips project, n.Inside entry.2 := by
  rw [resolveClips, notes_foldl_append, List.nil_append] at hn
  obtain ⟨r, hr, hn⟩ := List.mem_flatMap.1 hn
  obtain ⟨entry, hentry, rfl⟩ := List.mem_map.1 hr
  exact ⟨entry, hentry, resolveClip_inside n hn⟩

/-- The note has a length and lies inside the arrangement. -/
structure ResolvedNote.Within (last : ℤ) (note : ResolvedNote) : Prop where
  start_nonneg : 0 ≤ note.start
  start_lt_stop : note.start < note.stop
  stop_le : note.stop ≤ last

/-- Every resolved note lies inside the arrangement. -/
theorem resolveClips_within {project : Tables} (h : project.Consistent) :
    ∀ n ∈ (resolveClips project).notes, n.Within (endTicks project) := by
  intro n hn
  obtain ⟨entry, hentry, h₁, h₂, h₃⟩ := resolveClips_inside hn
  have hstop : entry.2.start + entry.2.length ≤ endTicks project :=
    (le_foldl_max (f := fun entry : ClipId × Clip => entry.2.start + entry.2.length)).2 entry hentry
  obtain ⟨id, -, hsome⟩ := List.mem_filterMap.1 hentry
  split at hsome
  · cases hsome
  next clip hclip =>
    split_ifs at hsome
    cases hsome
    exact ⟨(h.clipRanges id clip hclip).1.trans h₁, h₂, h₃.trans hstop⟩

/-! ### Overlaps -/

theorem ResolvedNote.le_iff {a b : ResolvedNote} : a.le b ↔
    a.instrument < b.instrument ∨ a.instrument = b.instrument ∧
      (a.key < b.key ∨ a.key = b.key ∧
        (a.start < b.start ∨ a.start = b.start ∧ a.stop ≤ b.stop)) := by
  unfold ResolvedNote.le ResolvedNote.before
  split_ifs <;> simp only [decide_eq_false_iff_not] <;> omega

theorem ResolvedNote.sameVoice_iff {a b : ResolvedNote} :
    a.sameVoice b = true ↔ a.instrument = b.instrument ∧ a.key = b.key := by
  simp [ResolvedNote.sameVoice]

instance : Std.Total ResolvedNote.le := ⟨fun a b => by simp only [ResolvedNote.le_iff]; omega⟩

instance : IsTrans ResolvedNote ResolvedNote.le :=
  ⟨fun a b c h h' => by simp only [ResolvedNote.le_iff] at *; omega⟩

/-- Cutting moves nothing but ends, and those to an earlier tick. -/
theorem mem_cutOverlaps {notes : List ResolvedNote} {n : ResolvedNote} (h : n ∈ cutOverlaps notes) :
    ∃ m ∈ notes, n.instrument = m.instrument ∧ n.key = m.key ∧ n.start = m.start ∧
      n.stop ≤ m.stop := by
  induction notes using cutOverlaps.induct with
  | case1 current next notes ih =>
    rw [cutOverlaps] at h
    rcases List.mem_cons.1 h with rfl | h
    · refine ⟨current, List.mem_cons_self, ?_⟩
      split_ifs with hcut
      · simp only [Bool.and_eq_true, decide_eq_true_eq] at hcut
        exact ⟨rfl, rfl, rfl, hcut.2.le⟩
      · exact ⟨rfl, rfl, rfl, le_rfl⟩
    · obtain ⟨m, hm, hsame⟩ := ih h
      exact ⟨m, List.mem_cons_of_mem _ hm, hsame⟩
  | case2 notes hnotes =>
    rw [cutOverlaps] at h
    · exact ⟨n, h, rfl, rfl, rfl, le_rfl⟩
    · exact hnotes

/-- After cutting, a note of a voice ends before the next one starts. -/
theorem cutOverlaps_pairwise {notes : List ResolvedNote} (h : notes.Pairwise ResolvedNote.le) :
    (cutOverlaps notes).Pairwise fun a b => a.sameVoice b = true → a.stop ≤ b.start := by
  induction notes using cutOverlaps.induct with
  | case1 current next notes ih =>
    obtain ⟨hcurrent, htail⟩ := List.pairwise_cons.1 h
    rw [cutOverlaps, List.pairwise_cons]
    refine ⟨fun b hb hvoice => ?_, ih htail⟩
    obtain ⟨m, hm, hi, hk, hs, -⟩ := mem_cutOverlaps hb
    have hcurrentNext := ResolvedNote.le_iff.1 (hcurrent next List.mem_cons_self)
    have hnextm : next.le m := by
      rcases List.mem_cons.1 hm with rfl | hm
      · exact (Std.Total.total m m).elim id id
      · exact (List.pairwise_cons.1 htail).1 m hm
    rw [ResolvedNote.le_iff] at hnextm
    -- notes of one voice are next to each other, so the cut was made at `next`
    have hvoice : current.instrument = m.instrument ∧ current.key = m.key := by
      rw [ResolvedNote.sameVoice_iff, hi, hk] at hvoice
      split_ifs at hvoice <;> exact hvoice
    split_ifs with hcut
    · simp only
      omega
    · rw [Bool.and_eq_true, ResolvedNote.sameVoice_iff, decide_eq_true_eq] at hcut
      omega
  | case2 notes hnotes =>
    rw [cutOverlaps]
    · match notes, hnotes with
      | [], _ => exact .nil
      | [note], _ => exact List.pairwise_singleton _ _
      | current :: next :: notes, hnotes => exact absurd rfl (hnotes current next notes)
    · exact hnotes

/-- **No two notes of a voice overlap.** -/
theorem resolveOverlaps_pairwise (notes : List ResolvedNote) :
    (resolveOverlaps notes).Pairwise fun a b => a.sameVoice b = true → a.stop ≤ b.start :=
  (cutOverlaps_pairwise (List.pairwise_insertionSort _ _)).sublist List.filter_sublist

theorem resolveOverlaps_within {notes : List ResolvedNote} {last : ℤ}
    (h : ∀ n ∈ notes, n.Within last) : ∀ n ∈ resolveOverlaps notes, n.Within last := by
  intro n hn
  obtain ⟨hcut, hlength⟩ := List.mem_filter.1 hn
  obtain ⟨m, hm, -, -, hstart, hstop⟩ := mem_cutOverlaps hcut
  obtain ⟨h₁, -, h₃⟩ := h m ((List.perm_insertionSort _ _).mem_iff.1 hm)
  exact ⟨hstart ▸ h₁, by simpa using hlength, hstop.trans h₃⟩

/-! ### Events -/

/-- The events of a note. -/
def noteEvents (timeMap : TimeMap) (note : ResolvedNote) : List ScheduleEvent :=
  (scheduleNote timeMap {} note).events

theorem events_addEvents {α : Type} (add : ScheduleBuilder → α → ScheduleBuilder)
    (event : α → List ScheduleEvent)
    (hadd : ∀ builder a, (add builder a).events = builder.events ++ event a) (as : List α)
    (builder : ScheduleBuilder) :
    (as.foldl add builder).events = builder.events ++ as.flatMap event := by
  induction as generalizing builder with
  | nil => simp
  | cons a as ih => rw [List.foldl_cons, ih, hadd, List.flatMap_cons, List.append_assoc]

theorem events_scheduleNote (timeMap : TimeMap) (builder : ScheduleBuilder) (note : ResolvedNote) :
    (scheduleNote timeMap builder note).events = builder.events ++ noteEvents timeMap note := by
  simp [noteEvents, scheduleNote, ScheduleBuilder.addNote, ScheduleBuilder.addEvent]

/-- The events of a voice come from its notes. -/
theorem filter_addresses_scheduleResolved (timeMap : TimeMap) (resolved : Resolved)
    (instrument : ℕ) {key : ℤ} (hkey : 0 ≤ key) :
    (scheduleResolved timeMap resolved).events.filter (ScheduleEvent.addresses instrument key) =
      ((resolveOverlaps resolved.notes).filter fun note =>
        note.instrument = instrument && note.key = key).flatMap (noteEvents timeMap) := by
  -- parameters and audio starts have no key
  have hother : ∀ {α : Type} (event : α → ScheduleEvent) (as : List α),
      (∀ a, (event a).note = -1) →
      (as.flatMap fun a => [event a]).filter (ScheduleEvent.addresses instrument key) = [] := by
    intro α event as hnote
    rw [List.filter_eq_nil_iff]
    intro e he
    obtain ⟨a, -, he⟩ := List.mem_flatMap.1 he
    obtain rfl := List.mem_singleton.1 he
    have : (-1 : ℤ) ≠ key := by omega
    simp [ScheduleEvent.addresses, hnote, this]
  have hnotes : ∀ notes : List ResolvedNote,
      (notes.flatMap (noteEvents timeMap)).filter (ScheduleEvent.addresses instrument key) =
        (notes.filter fun note =>
          note.instrument = instrument && note.key = key).flatMap (noteEvents timeMap) := by
    intro notes
    induction notes with
    | nil => rfl
    | cons note notes ih =>
      rw [List.flatMap_cons, List.filter_append, ih, List.filter_cons]
      by_cases hvoice : (note.instrument = instrument && note.key = key) = true
      · rw [if_pos hvoice, List.flatMap_cons]
        congr 1
        rw [List.filter_eq_self]
        intro e he
        simp only [noteEvents, scheduleNote, ScheduleBuilder.addNote, ScheduleBuilder.addEvent,
          List.nil_append, List.cons_append, List.mem_cons, List.not_mem_nil, or_false] at he
        rcases he with rfl | rfl <;> exact hvoice
      · rw [if_neg hvoice]
        refine (congrArg (· ++ _) (List.filter_eq_nil_iff.2 fun e he => ?_)).trans
          (List.nil_append _)
        simp only [noteEvents, scheduleNote, ScheduleBuilder.addNote, ScheduleBuilder.addEvent,
          List.nil_append, List.cons_append, List.mem_cons, List.not_mem_nil, or_false] at he
        rcases he with rfl | rfl <;> exact hvoice
  unfold scheduleResolved
  rw [events_addEvents _ _ (fun _ _ => rfl), events_addEvents _ _ (fun _ _ => rfl),
    events_addEvents _ _ (fun _ _ => rfl), events_addEvents _ _ (events_scheduleNote timeMap)]
  simp only [List.nil_append, List.filter_append, hnotes]
  rw [hother _ _ (fun _ => rfl), hother _ _ (fun _ => rfl), hother _ _ (fun _ => rfl)]
  simp

/-- The events of notes that do not overlap alternate, where later ticks are later frames. -/
theorem alternates_noteEvents {timeMap : TimeMap} {last : ℤ} (hmap : timeMap.ResolvesTicks last)
    {notes : List ResolvedNote} (hwithin : ∀ n ∈ notes, n.Within last)
    (hpairwise : notes.Pairwise fun a b => a.stop ≤ b.start) :
    Alternates (notes.flatMap (noteEvents timeMap)) := by
  induction notes with
  | nil => trivial
  | cons note notes ih =>
    obtain ⟨hnote, hpairwise⟩ := List.pairwise_cons.1 hpairwise
    obtain ⟨hstart, hlength, hstop⟩ := hwithin note List.mem_cons_self
    have hlt := TimeMap.toFrames_lt hmap hstart hlength hstop
    have hoff : timeMap.toFrames note.start +
        max 1 (timeMap.toFrames note.stop - timeMap.toFrames note.start) =
          timeMap.toFrames note.stop := by omega
    have htail := ih (fun n hn => hwithin n (List.mem_cons_of_mem _ hn)) hpairwise
    refine ⟨rfl, rfl, hlt.trans_eq hoff.symm, fun next hnext => ?_, htail⟩
    cases notes with
    | nil => cases hnext
    | cons later notes =>
      obtain rfl : _ = next := Option.some_inj.1 hnext
      change timeMap.toFrames note.start + max 1 _ ≤ timeMap.toFrames later.start
      rw [hoff]
      have hle := hnote later List.mem_cons_self
      obtain ⟨-, hlater, hlast⟩ := hwithin later (by simp)
      rcases hle.eq_or_lt with heq | hlt'
      · rw [heq]
      · exact (TimeMap.toFrames_lt hmap (hstart.trans hlength.le) hlt'
          (hlater.le.trans hlast)).le

/-- **Flattened notes never overlap on a voice.** -/
theorem flatten_alternates {project : Tables} {options : FlattenOptions}
    (hconsistent : project.checkReferentialIntegrity = [])
    (hmap : (TimeMap.ofTempo options.sampleRate project.transport.tempo).ResolvesTicks
      (endTicks project)) (instrument : ℕ) {key : ℤ} (hkey : 0 ≤ key) :
    Alternates ((flatten project options).schedule.events.filter
      (ScheduleEvent.addresses instrument key)) := by
  have hconsistent := Tables.checkReferentialIntegrity_eq_nil_iff.1 hconsistent
  have hwithin := resolveOverlaps_within (resolveClips_within hconsistent)
  set builder := (scheduleResolved (TimeMap.ofTempo options.sampleRate project.transport.tempo)
    (resolveClips project)).setLengthFrames
      ((TimeMap.ofTempo options.sampleRate project.transport.tempo).toFrames (endTicks project))
  have hevents : Alternates (builder.events.filter (ScheduleEvent.addresses instrument key)) := by
    change Alternates ((scheduleResolved _ _).events.filter _)
    rw [filter_addresses_scheduleResolved _ _ _ hkey]
    refine alternates_noteEvents hmap (fun n hn => hwithin n (List.mem_filter.1 hn).1) ?_
    refine List.Pairwise.imp_of_mem (fun ha hb hab => ?_)
      ((resolveOverlaps_pairwise _).sublist List.filter_sublist)
    have ha := (List.mem_filter.1 ha).2
    have hb := (List.mem_filter.1 hb).2
    simp only [Bool.and_eq_true, decide_eq_true_eq] at ha hb
    exact hab (ResolvedNote.sameVoice_iff.2 ⟨ha.1.trans hb.1.symm, ha.2.trans hb.2.symm⟩)
  change Alternates ((builder.build _ _).events.filter _)
  rw [builder.filter_events_build _ _ _ hevents]
  exact hevents

/-- Two notes of one tick, one after the other, in a clip that starts at `start`. -/
def stutterProject (start : ℤ) : Tables :=
  { newProject ⟨1⟩ with
    instruments := OrderedMap.empty.assign ⟨3⟩ { routing := [⟨0, ⟨1⟩⟩] }
    patterns := OrderedMap.empty.assign ⟨4⟩
      { sequences := OrderedMap.empty.assign ⟨3⟩ (.assignSorted [⟨0, 1, 60, 100⟩, ⟨1, 1, 60, 100⟩]) }
    lanes := OrderedMap.empty.assign ⟨2⟩ {}
    clips := OrderedMap.empty.assign ⟨5⟩
      { lane := ⟨2⟩, start, length := 960, source := .pattern ⟨4⟩ } }

theorem alternates_stutterProject :
    Alternates ((flatten (stutterProject 0) {}).schedule.events.filter
      (ScheduleEvent.addresses 0 60)) := by
  have hend : endTicks (stutterProject 0) = 960 := by decide +kernel
  have hframes : (TimeMap.ofTempo (.finite 48000)
      (stutterProject 0).transport.tempo).framesPerBeat = .finite 24000 := by decide +kernel
  have hmap : (TimeMap.ofTempo (.finite 48000) (stutterProject 0).transport.tempo).ResolvesTicks
      (endTicks (stutterProject 0)) := by
    rw [hend]
    exact ⟨24000, hframes, by norm_num, .inl ⟨by norm_num, by norm_num⟩⟩
  exact @flatten_alternates (stutterProject 0) {} (by decide +kernel) hmap 0 60 (by decide)

/-- At tick `2 ^ 55` a double no longer tells a tick from the next: there are 25 frames per tick,
and the two notes start at the same frame. -/
theorem not_alternates_stutterProject :
    (stutterProject (2 ^ 55)).checkReferentialIntegrity = [] ∧
      (TimeMap.ofTempo (.finite 48000) (stutterProject (2 ^ 55)).transport.tempo).framesPerBeat =
        .finite 24000 ∧
      ¬Alternates ((flatten (stutterProject (2 ^ 55)) {}).schedule.events.filter
        (ScheduleEvent.addresses 0 60)) :=
  ⟨by decide +kernel, by decide +kernel, by decide +kernel⟩

end OneBeat
