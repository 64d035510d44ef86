import OneBeat.Commands.ClipCuts
import OneBeat.Model.ClonedPatterns
import OneBeat.Model.LaneMoves
import OneBeat.Model.LoopedNotes
import Mathlib.Algebra.Order.Group.Multiset
import Mathlib.Algebra.BigOperators.Group.Finset.Basic

/-!
# Cutting a pattern clip

What the flattener collects after `splitClip` of `model/commands.cpp` has cut a pattern clip.  The
right half keeps the `window_start` of the clip, so it begins its pattern where the clip began it
and not where the left half stopped.

Occurrences are compared as they are collected, before notes of one key that overlap are cut.

* `filter_collectOccurrences` : the occurrence of a note at one tick of a clip.
* `filter_notes_resolveClip` : what a clip starts at one tick of the timeline.
* `cutUnheard_iff` : a cut is not heard exactly when the pattern goes on, after the cut, as it
  began.
-/

namespace OneBeat

/-! ### Occurrences -/

/-- Of the positions, one at most is `x`. -/
theorem filter_positionsFrom {g : ℤ → Option (ℤ × ℤ)} (hg : ∀ p o, g p = some o → o.1 = p)
    {step bound : ℤ} (hstep : 0 < step) (x : ℤ) :
    ∀ (fuel : ℕ) (position : ℤ), bound - position ≤ fuel →
      ((positionsFrom step bound fuel position).filterMap g).filter (fun o => o.1 = x) =
        if position ≤ x ∧ x < bound ∧ (x - position) % step = 0 then (g x).toList else [] := by
  intro fuel
  induction fuel with
  | zero =>
    intro position hfuel
    rw [if_neg (by omega)]
    rfl
  | succ fuel ih =>
    intro position hfuel
    rw [positionsFrom]
    split_ifs with hlt hx hx
    · rw [List.filterMap_cons]
      rcases eq_or_ne position x with rfl | hne
      · have hrest := ih (position + step) (by omega)
        rw [if_neg (by omega)] at hrest
        cases ho : g position with
        | none => simpa using hrest
        | some o =>
          simp [hrest, hg _ _ ho]
      · -- the next position that can be `x` is a whole step on
        have hdvd : step ∣ x - position := Int.dvd_of_emod_eq_zero hx.2.2
        have hle := Int.le_of_dvd (by omega) hdvd
        have hrest := ih (position + step) (by omega)
        have hmod : (x - (position + step)) % step = 0 := by
          rw [← Int.sub_sub, Int.sub_emod_right, hx.2.2]
        rw [if_pos ⟨by omega, hx.2.1, hmod⟩] at hrest
        cases ho : g position with
        | none => simpa using hrest
        | some o => simp [hrest, hg _ _ ho, hne]
    · rw [List.filterMap_cons]
      have hne : position ≠ x := by
        rintro rfl
        exact hx ⟨le_rfl, hlt, by rw [sub_self, Int.zero_emod]⟩
      have hrest := ih (position + step) (by omega)
      rw [if_neg (fun h => hx ⟨by omega, h.2.1, by
        rw [← h.2.2, ← Int.sub_sub, Int.sub_emod_right]⟩)] at hrest
      cases ho : g position with
      | none => simpa using hrest
      | some o => simp [hrest, hg _ _ ho, hne]
    · omega
    · rfl

/-- A note of a pattern begins `x` ticks after the start of the clip, if the clip is that long. -/
def beginsAt (note : Note) (transforms : ClipTransforms) (patternLength x : ℤ) : Bool :=
  if transforms.loop then (x - (note.start - transforms.windowStart)) % patternLength = 0
  else note.start - transforms.windowStart = x

/-- How long a note sounds: at most to the end of its pattern. -/
def bodyOf (note : Note) (patternLength : ℤ) : ℤ := min note.length (patternLength - note.start)

/-- **The occurrence of a note at one tick of a clip.** -/
theorem filter_collectOccurrences (note : Note) (clip : Clip) {patternLength : ℤ}
    (hpattern : 0 < patternLength) (x : ℤ) :
    (collectOccurrences note clip patternLength).filter (fun o => o.1 = x) =
      if (0 ≤ x ∧ x < clip.length) ∧
          (beginsAt note clip.transforms patternLength x = true ∧
            0 < bodyOf note patternLength) then
        [(x, min (x + bodyOf note patternLength) clip.length)]
      else [] := by
  have hstop : ∀ position : ℤ, min (position + note.length)
      (min (position + (patternLength - note.start)) clip.length) =
        min (position + bodyOf note patternLength) clip.length := by
    intro position
    rw [bodyOf]
    omega
  have hstop' : ∀ position : ℤ, min (position + note.length)
      (min clip.length (position + (patternLength - note.start))) =
        min (position + bodyOf note patternLength) clip.length := by
    intro position
    rw [← hstop, min_comm clip.length]
  have hbody : bodyOf note patternLength ≤ note.length := min_le_left _ _
  by_cases hempty : patternLength ≤ 0 ∨ clip.length ≤ 0 ∨ note.length ≤ 0
  · rw [collectOccurrences, if_pos hempty, if_neg (by omega)]
    rfl
  rw [collectOccurrences, if_neg hempty]
  simp only [hstop, hstop']
  cases hloop : clip.transforms.loop with
  | false =>
    simp only [beginsAt, hloop, Bool.not_false, if_true, Bool.false_eq_true, if_false,
      decide_eq_true_eq]
    split_ifs with hoffset hsounds hat hat
    · omega
    · rfl
    · obtain ⟨-, rfl, -⟩ := hat
      simp
    · rw [List.filter_cons_of_neg, List.filter_nil]
      simp only [decide_eq_true_eq]
      rintro rfl
      exact hat ⟨⟨by omega, by omega⟩, rfl, by omega⟩
    · omega
    · rfl
  | true =>
    simp only [beginsAt, hloop, Bool.not_true, Bool.false_eq_true, if_false, if_true,
      decide_eq_true_eq, tmod_add_tmod _ hpattern]
    set phase := note.start - clip.transforms.windowStart with hphase
    have hnonneg := Int.emod_nonneg phase hpattern.ne'
    have hlt := Int.emod_lt_of_pos phase hpattern
    rw [filter_positionsFrom (by
      intro position o ho
      split_ifs at ho
      cases ho
      rfl) hpattern x _ _ (by omega)]
    -- a position of the clip with the remainder of the phase is not before it
    have hat : phase % patternLength ≤ x ∧ x < clip.length ∧
        (x - phase % patternLength) % patternLength = 0 ↔
          (0 ≤ x ∧ x < clip.length) ∧ (x - phase) % patternLength = 0 := by
      rw [← Int.emod_eq_emod_iff_emod_sub_eq_zero, ← Int.emod_eq_emod_iff_emod_sub_eq_zero,
        Int.emod_emod]
      constructor
      · rintro ⟨hle, hx, hmod⟩
        exact ⟨⟨by omega, hx⟩, hmod⟩
      · rintro ⟨⟨hx, hx'⟩, hmod⟩
        refine ⟨?_, hx', hmod⟩
        have hpasses := mul_nonneg hpattern.le (Int.ediv_nonneg hx hpattern.le)
        have hsplit := Int.emod_add_mul_ediv x patternLength
        linarith
    simp only [hat, ← and_assoc]
    by_cases hbegins : (0 ≤ x ∧ x < clip.length) ∧ (x - phase) % patternLength = 0
    · rw [if_pos hbegins]
      by_cases hsounds : 0 < bodyOf note patternLength
      · rw [if_pos (by omega), if_pos ⟨hbegins, hsounds⟩]
        rfl
      · rw [if_neg (by omega), if_neg fun h => hsounds h.2]
        rfl
    · rw [if_neg hbegins, if_neg fun h => hbegins h.1]

/-! ### What a clip starts at a tick -/

/-- The notes of the instruments that may sound. -/
def soundingNotes (project : Tables) (pattern : Pattern) (transforms : ClipTransforms) :
    List SoundingNote :=
  let anySolo := project.instruments.entries.any fun entry => entry.2.soloed
  pattern.sequences.entries.flatMap fun entry =>
    match project.instruments.get? entry.1, Entries.get? (instrumentIndex project) entry.1 with
    | some instrument, some index =>
      if instrument.muted || (anySolo && !instrument.soloed) then []
      else entry.2.notes.filterMap (soundNote pattern transforms instrument.channelSettings index)
    | _, _ => []

theorem notes_resolveClip {project : Tables} {id : ClipId} {clip : Clip} {patternId : PatternId}
    {pattern : Pattern} (hclip : clip.pattern = some patternId)
    (hpattern : project.patterns.get? patternId = some pattern) :
    (resolveClip project id clip).notes =
      (soundingNotes project pattern clip.transforms).flatMap fun s =>
        (collectOccurrences s.note clip (patternEffectiveLength pattern)).map
          (s.occurring clip.start) := by
  rw [resolveClip_of_pattern hclip hpattern, notes_foldl_append, List.nil_append,
    List.flatMap_append]
  have hcurves : (pattern.automation.map (curveOf project clip)).flatMap Resolved.notes = [] := by
    rw [List.flatMap_eq_nil_iff]
    intro curve hcurve
    obtain ⟨automation, -, rfl⟩ := List.mem_map.1 hcurve
    exact notes_curveOf automation
  rw [hcurves, List.append_nil, soundingNotes, List.flatMap_map, List.flatMap_assoc]
  refine List.flatMap_congr fun entry _ => ?_
  rw [resolveSequence]
  cases project.instruments.get? entry.1 with
  | none => rfl
  | some instrument =>
    cases Entries.get? (instrumentIndex project) entry.1 with
    | none => rfl
    | some index =>
      dsimp only
      split_ifs
      · rfl
      · rw [List.flatMap_map, List.filterMap_eq_flatMap_toList, List.flatMap_assoc]
        refine List.flatMap_congr fun note _ => ?_
        rw [resolveNote_eq]
        cases soundNote pattern clip.transforms instrument.channelSettings index note with
        | none => rfl
        | some s => exact (List.flatMap_singleton _ _).symm

/-- The notes a clip starts `x` ticks after its own start, if it is that long. -/
def startsAt (project : Tables) (pattern : Pattern) (transforms : ClipTransforms) (x : ℤ) :
    List SoundingNote :=
  (soundingNotes project pattern transforms).filter fun s =>
    beginsAt s.note transforms (patternEffectiveLength pattern) x &&
      decide (0 < bodyOf s.note (patternEffectiveLength pattern))

theorem flatMap_ite_singleton {α β : Type} (p : α → Prop) [DecidablePred p] (f : α → β)
    (l : List α) : (l.flatMap fun a => if p a then [f a] else []) = (l.filter p).map f := by
  induction l with
  | nil => rfl
  | cons a l ih =>
    rw [List.flatMap_cons, ih, List.filter_cons]
    by_cases ha : p a <;> simp [ha]

/-- **What a clip starts at one tick of the timeline.** -/
theorem filter_notes_resolveClip {project : Tables} {id : ClipId} {clip : Clip}
    {patternId : PatternId} {pattern : Pattern} (hclip : clip.pattern = some patternId)
    (hpattern : project.patterns.get? patternId = some pattern) (t : ℤ) :
    (resolveClip project id clip).notes.filter (fun n => n.start = t) =
      if clip.start ≤ t ∧ t < clip.start + clip.length then
        (startsAt project pattern clip.transforms (t - clip.start)).map fun s =>
          s.occurring clip.start (t - clip.start,
            min (t - clip.start + bodyOf s.note (patternEffectiveLength pattern)) clip.length)
      else [] := by
  have hpos := Tables.patternEffectiveLength_pos pattern
  have hnote : ∀ s : SoundingNote,
      ((collectOccurrences s.note clip (patternEffectiveLength pattern)).map
        (s.occurring clip.start)).filter (fun n => n.start = t) =
      if (clip.start ≤ t ∧ t < clip.start + clip.length) ∧
          (beginsAt s.note clip.transforms (patternEffectiveLength pattern) (t - clip.start) = true ∧
            0 < bodyOf s.note (patternEffectiveLength pattern)) then
        [s.occurring clip.start (t - clip.start,
          min (t - clip.start + bodyOf s.note (patternEffectiveLength pattern)) clip.length)]
      else [] := by
    intro s
    have hfilter := filter_collectOccurrences s.note clip hpos (t - clip.start)
    have htick : (fun n : ResolvedNote => decide (n.start = t)) ∘ s.occurring clip.start =
        fun o => decide (o.1 = t - clip.start) := by
      funext o
      show decide (clip.start + o.1 = t) = decide (o.1 = t - clip.start)
      exact decide_eq_decide.2 ⟨fun h => by omega, fun h => by omega⟩
    rw [List.filter_map, htick, hfilter]
    have hinside : (0 ≤ t - clip.start ∧ t - clip.start < clip.length) ↔
        (clip.start ≤ t ∧ t < clip.start + clip.length) := by omega
    simp only [hinside]
    split_ifs <;> rfl
  rw [notes_resolveClip hclip hpattern, List.filter_flatMap]
  simp only [hnote]
  split_ifs with ht
  · simp only [ht, and_self, true_and]
    rw [flatMap_ite_singleton, startsAt]
    simp only [Bool.decide_and, Bool.decide_eq_true]
  · simp only [ht, false_and, if_false]
    exact List.flatMap_eq_nil_iff.2 fun _ _ => rfl

/-! ### The clips of the project after the cut -/

theorem mem_audibleClips_iff {project : Tables} {id : ClipId} {clip : Clip} :
    (id, clip) ∈ audibleClips project ↔ project.clips.get? id = some clip ∧
      clip.lane ∈ audibleLanes project ∧ clip.muted = false ∧ 0 < clip.length := by
  rw [audibleClips, ← collectedClips, List.mem_filterMap]
  constructor
  · rintro ⟨k, hk, hread⟩
    obtain ⟨c, hc, hlane⟩ := mem_collectedClips.1 hk
    simp only [hc] at hread
    split_ifs at hread with hsilent
    cases hread
    simp only [Bool.or_eq_true, decide_eq_true_eq, not_or, Bool.not_eq_true, not_le] at hsilent
    exact ⟨hc, hlane, hsilent⟩
  · rintro ⟨hc, hlane, hmuted, hlength⟩
    refine ⟨id, mem_collectedClips.2 ⟨clip, hc, hlane⟩, ?_⟩
    simp [hc, hmuted, hlength.not_ge]

theorem nodup_audibleClips (project : Tables) : (audibleClips project).Nodup := by
  rw [audibleClips, ← collectedClips]
  refine List.Nodup.filterMap ?_ (nodup_collectedClips project)
  intro k k' entry hk hk'
  -- an entry keeps the id that it was looked up with
  split at hk
  · cases hk
  split at hk'
  · cases hk'
  split_ifs at hk with hsilent
  · cases hk
  split_ifs at hk' with hsilent'
  · cases hk'
  · exact (congrArg Prod.fst (Option.mem_some.1 hk)).trans
      (congrArg Prod.fst (Option.mem_some.1 hk')).symm

/-- The notes of the audible clips, before overlaps are resolved. -/
def collectedNotes (project : Tables) : Multiset ResolvedNote := (resolveClips project).notes

/-- The notes of one clip. -/
def notesOfClip (project : Tables) (id : ClipId) (clip : Clip) : Multiset ResolvedNote :=
  (resolveClip project id clip).notes

theorem collectedNotes_eq (project : Tables) :
    collectedNotes project =
      ((audibleClips project).flatMap fun entry => (resolveClip project entry.1 entry.2).notes :
        List ResolvedNote) := by
  rw [collectedNotes, resolveClips, notes_foldl_append, List.nil_append, List.flatMap_map]

/-- The notes of the other audible clips. -/
def otherNotes (project : Tables) (id : ClipId) : Multiset ResolvedNote :=
  (((audibleClips project).filter fun entry => entry.1 ≠ id).flatMap fun entry =>
    (resolveClip project entry.1 entry.2).notes : List ResolvedNote)

theorem collectedNotes_eq_add {project : Tables} {id : ClipId} {clip : Clip}
    (haudible : (id, clip) ∈ audibleClips project) :
    collectedNotes project = otherNotes project id + notesOfClip project id clip := by
  have hclip := (mem_audibleClips_iff.1 haudible).1
  have hperm : (audibleClips project).Perm
      (((audibleClips project).filter fun entry => entry.1 ≠ id) ++ [(id, clip)]) := by
    refine (List.perm_ext_iff_of_nodup (nodup_audibleClips _) ?_).2 ?_
    · refine List.nodup_append'.2 ⟨(nodup_audibleClips _).filter _, List.nodup_singleton _, ?_⟩
      rw [List.disjoint_singleton]
      simp
    · rintro ⟨k, c⟩
      rw [List.mem_append, List.mem_filter, List.mem_singleton]
      by_cases hk : k = id
      · subst hk
        constructor
        · intro hmem
          have := (mem_audibleClips_iff.1 hmem).1
          rw [hclip] at this
          exact Or.inr (by rw [Option.some_inj.1 this])
        · rintro (⟨-, hne⟩ | heq)
          · simp at hne
          · exact heq ▸ haudible
      · simp [hk]
  rw [collectedNotes_eq, Multiset.coe_eq_coe.2 (hperm.flatMap_right _), List.flatMap_append,
    List.flatMap_singleton, ← Multiset.coe_add]
  rfl

section Cut

variable {project : Tables} {rightId id : ClipId} {clip : Clip} {patternId : PatternId}
  {pattern : Pattern} {cut : ℤ}

theorem leftHalf_of_pattern (hclip : clip.pattern = some patternId) :
    clip.leftHalf cut = clip.withLength (cut - clip.start) := by
  rw [Clip.leftHalf, shortenTo, pattern_eq_some_iff.1 hclip]

theorem rightHalf_of_pattern (hclip : clip.pattern = some patternId) :
    clip.rightHalf cut =
      { clip with start := cut, length := clip.start + clip.length - cut } := by
  have hsource := pattern_eq_some_iff.1 hclip
  rw [Clip.rightHalf, splitSource, hsource]

/-- The notes of a clip do not depend on the other clips. -/
theorem notes_resolveClip_withCut (k : ClipId) (c : Clip) :
    (resolveClip (project.withCut rightId id clip cut) k c).notes =
      (resolveClip project k c).notes := by
  have haudio : ∀ (project : Tables) (source : AudioSource), c.source = .audio source →
      (resolveClip project k c).notes = [] := by
    intro project source hsource
    rw [resolveClip, hsource]
    dsimp only
    cases Entries.get? (audioChannelIndex project) k <;> rfl
  cases hsource : c.source with
  | audio source => rw [haudio _ _ hsource, haudio _ _ hsource]
  | pattern pattern | automation automation =>
    rw [resolveClip, resolveClip, hsource]
    rfl

theorem collectedNotes_withCut (hclip : clip.pattern = some patternId)
    (haudible : (id, clip) ∈ audibleClips project) (hlow : clip.start < cut)
    (hhigh : cut < clip.start + clip.length) (hfresh : project.clips.get? rightId = none) :
    collectedNotes (project.withCut rightId id clip cut) =
      otherNotes project id + (notesOfClip project id (clip.leftHalf cut) +
        notesOfClip project rightId (clip.rightHalf cut)) := by
  obtain ⟨hget, hlane, hmuted, -⟩ := mem_audibleClips_iff.1 haudible
  have hne : rightId ≠ id := by
    rintro rfl
    rw [hget] at hfresh
    cases hfresh
  have hleft : clip.leftHalf cut = _ := leftHalf_of_pattern hclip
  have hright : clip.rightHalf cut = _ := rightHalf_of_pattern hclip
  have hlanes : audibleLanes (project.withCut rightId id clip cut) = audibleLanes project := rfl
  have hperm : (audibleClips (project.withCut rightId id clip cut)).Perm
      (((audibleClips project).filter fun entry => entry.1 ≠ id) ++
        [(id, clip.leftHalf cut), (rightId, clip.rightHalf cut)]) := by
    refine (List.perm_ext_iff_of_nodup (nodup_audibleClips _) ?_).2 ?_
    · refine List.nodup_append'.2 ⟨(nodup_audibleClips _).filter _, by simp [hne.symm], ?_⟩
      rw [List.disjoint_left]
      rintro ⟨k, c⟩ hmem hhalf
      obtain ⟨hmem, hk⟩ := List.mem_filter.1 hmem
      have hstored := (mem_audibleClips_iff.1 hmem).1
      simp only [List.mem_cons, Prod.mk.injEq, List.not_mem_nil, or_false] at hhalf
      rcases hhalf with ⟨rfl, -⟩ | ⟨rfl, -⟩
      · simp at hk
      · rw [hfresh] at hstored
        cases hstored
    · rintro ⟨k, c⟩
      rw [mem_audibleClips_iff, Tables.get?_withCut, hlanes, List.mem_append, List.mem_filter,
        mem_audibleClips_iff]
      simp only [List.mem_cons, Prod.mk.injEq, List.not_mem_nil, or_false]
      rcases eq_or_ne k rightId with rfl | hkr
      · rw [if_pos rfl, hfresh]
        constructor
        · rintro ⟨hc, -⟩
          exact Or.inr (Or.inr ⟨rfl, (Option.some_inj.1 hc).symm⟩)
        · rintro (⟨⟨hnone, -⟩, -⟩ | ⟨rfl, -⟩ | ⟨-, rfl⟩)
          · cases hnone
          · exact absurd rfl hne
          · rw [hright]
            exact ⟨rfl, hlane, hmuted, by simp only; omega⟩
      · rw [if_neg hkr]
        rcases eq_or_ne k id with rfl | hk
        · rw [if_pos rfl]
          constructor
          · rintro ⟨hc, -⟩
            exact Or.inr (Or.inl ⟨rfl, (Option.some_inj.1 hc).symm⟩)
          · rintro (⟨-, hself⟩ | ⟨-, rfl⟩ | ⟨rfl, -⟩)
            · simp at hself
            · rw [hleft]
              exact ⟨rfl, hlane, hmuted, by rw [Clip.length_withLength]; omega⟩
            · exact absurd rfl hkr
        · simp [hk, hkr]
  rw [collectedNotes_eq, Multiset.coe_eq_coe.2 (hperm.flatMap_right _), List.flatMap_append,
    ← Multiset.coe_add]
  simp only [notes_resolveClip_withCut, List.flatMap_cons, List.flatMap_nil, List.append_nil,
    ← Multiset.coe_add]
  rfl

/-! ### Hearing the cut -/

/-- A note-on: when, and of which voice. -/
def ResolvedNote.on (n : ResolvedNote) : ℤ × ℕ × ℤ × Double :=
  (n.start, n.instrument, n.key, n.velocity)

/-- The note-on of a note that is begun again at the cut. -/
def ResolvedNote.retrigger (cut : ℤ) (n : ResolvedNote) : ℤ × ℕ × ℤ × Double :=
  (cut, n.instrument, n.key, n.velocity)

/-- The occurrence sounds across the cut. -/
def ResolvedNote.Straddles (cut : ℤ) (n : ResolvedNote) : Prop := n.start < cut ∧ cut < n.stop

instance (cut : ℤ) : DecidablePred (ResolvedNote.Straddles cut) :=
  fun _ => inferInstanceAs (Decidable (_ ∧ _))

/-- The occurrences of a clip that sound across the cut. -/
def straddling (project : Tables) (id : ClipId) (clip : Clip) (cut : ℤ) : Multiset ResolvedNote :=
  (notesOfClip project id clip).filter (ResolvedNote.Straddles cut)

/-- The project sounds the same after a cut: the halves tile the clip, every note that does not
straddle the cut is there, and the only new note-ons begin straddling notes again. -/
structure CutUnheard (project project' : Tables) (rightId id : ClipId) (clip : Clip) (cut : ℤ) :
    Prop where
  tiles : ∃ left right, project'.clips.get? id = some left ∧
    project'.clips.get? rightId = some right ∧ left.start = clip.start ∧
    left.start + left.length = cut ∧ right.start = cut ∧
    right.start + right.length = clip.start + clip.length
  kept : collectedNotes project - straddling project id clip cut ≤ collectedNotes project'
  noNew : (collectedNotes project').map ResolvedNote.on ≤
    (collectedNotes project).map ResolvedNote.on +
      (straddling project id clip cut).map (ResolvedNote.retrigger cut)

/-- What the pattern starts at one position of its source, with how long each note sounds when
`limit` ticks of the clip are left. -/
def soundsAt (project : Tables) (pattern : Pattern) (transforms : ClipTransforms) (x limit : ℤ) :
    Multiset ((ℕ × ℤ × Double) × ℤ) :=
  (startsAt project pattern transforms x : Multiset SoundingNote).map fun s =>
    (s.voice, min (bodyOf s.note (patternEffectiveLength pattern)) limit)

/-- The voices that still sound at one position of the source. -/
def heldAt (project : Tables) (pattern : Pattern) (transforms : ClipTransforms) (x : ℤ) :
    Multiset (ℕ × ℤ × Double) :=
  ∑ p ∈ Finset.range x.toNat,
    ((startsAt project pattern transforms p : Multiset SoundingNote).filter fun s =>
      x < p + bodyOf s.note (patternEffectiveLength pattern)).map SoundingNote.voice

/-- The pattern goes on, `leftLength` ticks in, as it began: for the `rest` ticks that are left, it
starts at every position what it started `leftLength` before.  At the cut itself it may have started
more, when that still sounds there. -/
structure Resumes (project : Tables) (pattern : Pattern) (transforms : ClipTransforms)
    (leftLength rest : ℤ) : Prop where
  later : ∀ x, 0 < x → x < rest →
    soundsAt project pattern transforms (leftLength + x) (rest - x) =
      soundsAt project pattern transforms x (rest - x)
  atCut : soundsAt project pattern transforms leftLength rest ≤
    soundsAt project pattern transforms 0 rest
  held : (soundsAt project pattern transforms 0 rest).map Prod.fst ≤
    (soundsAt project pattern transforms leftLength rest).map Prod.fst +
      heldAt project pattern transforms leftLength

/-- The note a sound is at a tick. -/
def noteAt (t : ℤ) (sound : (ℕ × ℤ × Double) × ℤ) : ResolvedNote :=
  { start := t, stop := t + sound.2, instrument := sound.1.1, key := sound.1.2.1,
    velocity := sound.1.2.2 }

theorem noteAt_injective (t : ℤ) : Function.Injective (noteAt t) := by
  rintro ⟨⟨i, k, v⟩, d⟩ ⟨⟨i', k', v'⟩, d'⟩ h
  simp only [noteAt, ResolvedNote.mk.injEq] at h
  obtain ⟨-, hd, rfl, rfl, rfl⟩ := h
  have : d = d' := by omega
  rw [this]

/-- The notes of a clip at one tick. -/
def notesAtTick (project : Tables) (id : ClipId) (clip : Clip) (t : ℤ) : Multiset ResolvedNote :=
  (notesOfClip project id clip).filter fun n => n.start = t

theorem notesAtTick_eq (hclip : clip.pattern = some patternId)
    (hpattern : project.patterns.get? patternId = some pattern) (t : ℤ) :
    notesAtTick project id clip t =
      if clip.start ≤ t ∧ t < clip.start + clip.length then
        (soundsAt project pattern clip.transforms (t - clip.start)
          (clip.start + clip.length - t)).map (noteAt t)
      else 0 := by
  rw [notesAtTick, notesOfClip, Multiset.filter_coe, filter_notes_resolveClip hclip hpattern]
  split_ifs with ht
  · rw [soundsAt, Multiset.map_map, ← Multiset.map_coe]
    refine Multiset.map_congr rfl fun s _ => ?_
    simp only [SoundingNote.occurring, Function.comp_apply, noteAt, SoundingNote.voice,
      ResolvedNote.mk.injEq, and_self, and_true]
    omega
  · rfl

/-- A multiset is below another when it is so class by class. -/
theorem le_iff_filter_le {α β : Type} [DecidableEq α] [DecidableEq β] (f : α → β)
    {s s' : Multiset α} :
    s ≤ s' ↔ ∀ b, s.filter (fun a => f a = b) ≤ s'.filter fun a => f a = b := by
  refine ⟨fun h b => Multiset.filter_le_filter _ h, fun h => Multiset.le_iff_count.2 fun a => ?_⟩
  have hcount := Multiset.le_iff_count.1 (h (f a)) a
  rwa [Multiset.count_filter, Multiset.count_filter, if_pos rfl, if_pos rfl] at hcount

/-- A multiset between two bounds is put together from its classes. -/
theorem filter_range_eq_sum {α : Type} (f : α → ℤ) (base : ℤ) (s : Multiset α) (n : ℕ) :
    s.filter (fun a => base ≤ f a ∧ f a < base + n) =
      ∑ p ∈ Finset.range n, s.filter fun a => f a = base + p := by
  induction n with
  | zero =>
    rw [Finset.range_zero, Finset.sum_empty, Multiset.filter_eq_nil]
    intro a _
    push_cast
    omega
  | succ n ih =>
    have hdisjoint : s.filter (fun a => (base ≤ f a ∧ f a < base + n) ∧ f a = base + n) = 0 :=
      Multiset.filter_eq_nil.2 fun a _ => by omega
    rw [Finset.sum_range_succ, ← ih, Multiset.filter_add_filter, hdisjoint, add_zero]
    refine Multiset.filter_congr fun a _ => ?_
    push_cast
    omega

variable (id cut) in
theorem notesAtTick_leftHalf (hclip : clip.pattern = some patternId)
    (hpattern : project.patterns.get? patternId = some pattern) (t : ℤ) :
    notesAtTick project id (clip.leftHalf cut) t =
      if clip.start ≤ t ∧ t < cut then
        (soundsAt project pattern clip.transforms (t - clip.start) (cut - t)).map (noteAt t)
      else 0 := by
  rw [leftHalf_of_pattern hclip,
    notesAtTick_eq ((Clip.pattern_withLength clip _).trans hclip) hpattern]
  have hend : clip.start + (cut - clip.start) = cut := by omega
  simp only [Clip.withLength, hend]

variable (id cut) in
theorem notesAtTick_rightHalf (hclip : clip.pattern = some patternId)
    (hpattern : project.patterns.get? patternId = some pattern) (t : ℤ) :
    notesAtTick project id (clip.rightHalf cut) t =
      if cut ≤ t ∧ t < clip.start + clip.length then
        (soundsAt project pattern clip.transforms (t - cut)
          (clip.start + clip.length - t)).map (noteAt t)
      else 0 := by
  have hright : ({ clip with start := cut, length := clip.start + clip.length - cut } :
      Clip).pattern = some patternId := hclip
  rw [rightHalf_of_pattern hclip, notesAtTick_eq hright hpattern]
  have hend : cut + (clip.start + clip.length - cut) = clip.start + clip.length := by omega
  simp only [hend]

/-- A note-on of what a tick starts does not know how long the notes sound. -/
theorem map_on_soundsAt (transforms : ClipTransforms) (x limit t : ℤ) :
    ((soundsAt project pattern transforms x limit).map (noteAt t)).map ResolvedNote.on =
      (startsAt project pattern transforms x : Multiset SoundingNote).map fun s => (t, s.voice) := by
  rw [soundsAt, Multiset.map_map, Multiset.map_map]
  rfl

/-- Before the cut, the notes that end in time are in the left half. -/
theorem filter_soundsAt_le (transforms : ClipTransforms) (x t : ℤ) {stop : ℤ} (ht : t < cut)
    (hstop : cut < stop) :
    ((soundsAt project pattern transforms x (stop - t)).map (noteAt t)).filter
        (fun n => ¬n.Straddles cut) ≤
      (soundsAt project pattern transforms x (cut - t)).map (noteAt t) := by
  rw [soundsAt, soundsAt, Multiset.map_map, Multiset.map_map, Multiset.filter_map]
  have hsame : ((startsAt project pattern transforms x : Multiset SoundingNote).filter
        ((fun n : ResolvedNote => ¬n.Straddles cut) ∘ (noteAt t ∘ fun s =>
          (s.voice, min (bodyOf s.note (patternEffectiveLength pattern)) (stop - t))))).map
        (noteAt t ∘ fun s =>
          (s.voice, min (bodyOf s.note (patternEffectiveLength pattern)) (stop - t))) =
      ((startsAt project pattern transforms x : Multiset SoundingNote).filter
        ((fun n : ResolvedNote => ¬n.Straddles cut) ∘ (noteAt t ∘ fun s =>
          (s.voice, min (bodyOf s.note (patternEffectiveLength pattern)) (stop - t))))).map
        (noteAt t ∘ fun s =>
          (s.voice, min (bodyOf s.note (patternEffectiveLength pattern)) (cut - t))) := by
    refine Multiset.map_congr rfl fun s hs => ?_
    have hends := (Multiset.mem_filter.1 hs).2
    simp only [Function.comp_apply, ResolvedNote.Straddles, noteAt, not_and, not_lt] at hends
    have := hends ht
    simp only [Function.comp_apply, noteAt, ResolvedNote.mk.injEq, and_self, and_true, true_and]
    omega
  rw [hsame]
  exact Multiset.map_le_map (Multiset.filter_le _ _)

/-- The voices of the notes that straddle the cut are those the pattern still holds there. -/
theorem map_retrigger_straddling (hclip : clip.pattern = some patternId)
    (hpattern : project.patterns.get? patternId = some pattern) (hlow : clip.start < cut)
    (hhigh : cut < clip.start + clip.length) :
    (straddling project id clip cut).map (ResolvedNote.retrigger cut) =
      (heldAt project pattern clip.transforms (cut - clip.start)).map fun voice => (cut, voice) := by
  have hwhole : straddling project id clip cut =
      (straddling project id clip cut).filter fun n =>
        clip.start ≤ n.start ∧ n.start < clip.start + ((cut - clip.start).toNat : ℤ) := by
    refine (Multiset.filter_eq_self.2 fun n hn => ?_).symm
    obtain ⟨hmem, hbefore, -⟩ := Multiset.mem_filter.1 hn
    have htick : n ∈ notesAtTick project id clip n.start := Multiset.mem_filter.2 ⟨hmem, rfl⟩
    rw [notesAtTick_eq hclip hpattern] at htick
    split_ifs at htick with hinside
    · omega
    · exact absurd htick (Multiset.notMem_zero n)
  have hmap : ∀ f : ℕ → Multiset ResolvedNote, ∀ n : ℕ,
      (∑ p ∈ Finset.range n, f p).map (ResolvedNote.retrigger cut) =
        ∑ p ∈ Finset.range n, (f p).map (ResolvedNote.retrigger cut) :=
    fun f n => map_sum (Multiset.mapAddMonoidHom (ResolvedNote.retrigger cut)) f _
  have hmap' : ∀ f : ℕ → Multiset (ℕ × ℤ × Double), ∀ n : ℕ,
      (∑ p ∈ Finset.range n, f p).map (fun voice => (cut, voice)) =
        ∑ p ∈ Finset.range n, (f p).map fun voice => (cut, voice) :=
    fun f n => map_sum (Multiset.mapAddMonoidHom fun voice => (cut, voice)) f _
  rw [hwhole, filter_range_eq_sum, heldAt, hmap, hmap']
  refine Finset.sum_congr rfl fun p hp => ?_
  rw [Finset.mem_range] at hp
  -- one tick before the cut
  have htick : (straddling project id clip cut).filter (fun n => n.start = clip.start + p) =
      (notesAtTick project id clip (clip.start + p)).filter (ResolvedNote.Straddles cut) := by
    rw [straddling, notesAtTick, Multiset.filter_filter, Multiset.filter_filter]
    exact Multiset.filter_congr fun n _ => and_comm
  have hx : clip.start + (p : ℤ) - clip.start = p := by omega
  rw [htick, notesAtTick_eq hclip hpattern, if_pos (by omega), hx, soundsAt, Multiset.map_map,
    Multiset.filter_map, Multiset.map_map, Multiset.map_map]
  refine congrArg₂ Multiset.map rfl (Multiset.filter_congr fun s _ => ?_)
  simp only [Function.comp_apply, ResolvedNote.Straddles, noteAt]
  omega

theorem filter_map_on (project : Tables) (id : ClipId) (clip : Clip) (t : ℤ) :
    ((notesOfClip project id clip).map ResolvedNote.on).filter (fun on => on.1 = t) =
      (notesAtTick project id clip t).map ResolvedNote.on := by
  rw [Multiset.filter_map]
  rfl

variable (rightId id) in
/-- The ticks of the three clips from the cut on. -/
theorem notesAtTick_afterCut (hclip : clip.pattern = some patternId)
    (hpattern : project.patterns.get? patternId = some pattern) (hlow : clip.start < cut) {x : ℤ}
    (hx : 0 ≤ x) :
    notesAtTick project id (clip.leftHalf cut) (cut + x) = 0 ∧
      (x < clip.start + clip.length - cut →
        notesAtTick project id clip (cut + x) =
            (soundsAt project pattern clip.transforms (cut - clip.start + x)
              (clip.start + clip.length - cut - x)).map (noteAt (cut + x)) ∧
          notesAtTick project rightId (clip.rightHalf cut) (cut + x) =
            (soundsAt project pattern clip.transforms x
              (clip.start + clip.length - cut - x)).map (noteAt (cut + x))) ∧
      (¬x < clip.start + clip.length - cut →
        notesAtTick project id clip (cut + x) = 0 ∧
          notesAtTick project rightId (clip.rightHalf cut) (cut + x) = 0) := by
  have h₁ : cut + x - clip.start = cut - clip.start + x := by omega
  have h₂ : clip.start + clip.length - (cut + x) = clip.start + clip.length - cut - x := by omega
  have h₃ : cut + x - cut = x := by omega
  rw [notesAtTick_leftHalf id cut hclip hpattern, notesAtTick_rightHalf rightId cut hclip hpattern,
    notesAtTick_eq hclip hpattern, if_neg (by omega), h₁, h₂, h₃]
  refine ⟨rfl, fun hrest => ?_, fun hrest => ?_⟩
  · rw [if_pos (by omega), if_pos (by omega)]
    exact ⟨rfl, rfl⟩
  · rw [if_neg (by omega), if_neg (by omega)]
    exact ⟨rfl, rfl⟩

variable (rightId id) in
/-- The ticks of the three clips before the cut. -/
theorem notesAtTick_beforeCut (hclip : clip.pattern = some patternId)
    (hpattern : project.patterns.get? patternId = some pattern)
    (hhigh : cut < clip.start + clip.length) {t : ℤ} (ht : t < cut) :
    notesAtTick project rightId (clip.rightHalf cut) t = 0 ∧
      (notesAtTick project id clip t).filter (fun n => ¬n.Straddles cut) ≤
        notesAtTick project id (clip.leftHalf cut) t ∧
      (notesAtTick project id (clip.leftHalf cut) t).map ResolvedNote.on =
        (notesAtTick project id clip t).map ResolvedNote.on := by
  rw [notesAtTick_leftHalf id cut hclip hpattern, notesAtTick_rightHalf rightId cut hclip hpattern,
    notesAtTick_eq hclip hpattern, if_neg (c := cut ≤ t ∧ _) (by omega)]
  by_cases hstart : clip.start ≤ t
  · rw [if_pos (by omega), if_pos (by omega), map_on_soundsAt, map_on_soundsAt]
    exact ⟨rfl, filter_soundsAt_le _ _ _ ht hhigh, rfl⟩
  · rw [if_neg (by omega), if_neg (by omega)]
    exact ⟨rfl, le_rfl, rfl⟩

/-- What holds before the cut and past the clip is settled by the ticks between them. -/
theorem forall_tick_iff (cut : ℤ) {holds settles : ℤ → Prop} {rest : ℤ}
    (hbefore : ∀ t < cut, holds t)
    (hinside : ∀ x, 0 ≤ x → x < rest → (holds (cut + x) ↔ settles x))
    (hpast : ∀ x, 0 ≤ x → ¬x < rest → holds (cut + x)) :
    (∀ t, holds t) ↔ ∀ x, 0 ≤ x → x < rest → settles x := by
  refine ⟨fun h x hx hx' => (hinside x hx hx').1 (h _), fun h t => ?_⟩
  rcases lt_or_ge t cut with ht | ht
  · exact hbefore t ht
  · obtain ⟨x, rfl⟩ : ∃ x, t = cut + x := ⟨t - cut, by omega⟩
    by_cases hx' : x < rest
    · exact (hinside x (by omega) hx').2 (h x (by omega) hx')
    · exact hpast x (by omega) hx'

variable (rightId id) in
/-- Every note that does not straddle the cut is in one of the halves just when the pattern goes on
with at least what it began with. -/
theorem kept_iff (hclip : clip.pattern = some patternId)
    (hpattern : project.patterns.get? patternId = some pattern) (hlow : clip.start < cut)
    (hhigh : cut < clip.start + clip.length) :
    (notesOfClip project id clip).filter (fun n => ¬n.Straddles cut) ≤
        notesOfClip project id (clip.leftHalf cut) +
          notesOfClip project rightId (clip.rightHalf cut) ↔
      ∀ x, 0 ≤ x → x < clip.start + clip.length - cut →
        soundsAt project pattern clip.transforms (cut - clip.start + x)
            (clip.start + clip.length - cut - x) ≤
          soundsAt project pattern clip.transforms x (clip.start + clip.length - cut - x) := by
  have htick : ∀ t, ((notesOfClip project id clip).filter fun n => ¬n.Straddles cut).filter
        (fun n => n.start = t) =
      (notesAtTick project id clip t).filter fun n => ¬n.Straddles cut := by
    intro t
    rw [notesAtTick, Multiset.filter_filter, Multiset.filter_filter]
    exact Multiset.filter_congr fun n _ => and_comm
  -- nothing that starts at the cut or later straddles it
  have hnone : ∀ x, 0 ≤ x → (notesAtTick project id clip (cut + x)).filter
        (fun n => ¬n.Straddles cut) = notesAtTick project id clip (cut + x) := by
    intro x hx
    refine Multiset.filter_eq_self.2 fun n hn hstraddles => ?_
    have hstart := (Multiset.mem_filter.1 hn).2
    have hbefore := hstraddles.1
    omega
  rw [le_iff_filter_le ResolvedNote.start]
  simp only [htick, Multiset.filter_add]
  refine forall_tick_iff cut (fun t ht => ?_) (fun x hx hx' => ?_) fun x hx hx' => ?_
  · obtain ⟨hright, hleft, -⟩ := notesAtTick_beforeCut rightId id hclip hpattern hhigh ht
    rw [← notesAtTick, ← notesAtTick, hright, add_zero]
    exact hleft
  · obtain ⟨hleft, hinside, -⟩ := notesAtTick_afterCut rightId id hclip hpattern hlow hx
    obtain ⟨hwhole, hright⟩ := hinside hx'
    rw [← notesAtTick, ← notesAtTick, hnone x hx, hleft, hwhole, hright, zero_add,
      Multiset.map_le_map_iff (noteAt_injective _)]
  · rw [hnone x hx, ((notesAtTick_afterCut rightId id hclip hpattern hlow hx).2.2 hx').1]
    exact Multiset.zero_le _

variable (rightId id) in
/-- The only new note-ons begin straddling notes again just when the pattern starts no more than it
began with. -/
theorem noNew_iff (hclip : clip.pattern = some patternId)
    (hpattern : project.patterns.get? patternId = some pattern) (hlow : clip.start < cut)
    (hhigh : cut < clip.start + clip.length) :
    (notesOfClip project id (clip.leftHalf cut) +
          notesOfClip project rightId (clip.rightHalf cut)).map ResolvedNote.on ≤
        (notesOfClip project id clip).map ResolvedNote.on +
          (straddling project id clip cut).map (ResolvedNote.retrigger cut) ↔
      ∀ x, 0 ≤ x → x < clip.start + clip.length - cut →
        (soundsAt project pattern clip.transforms x
            (clip.start + clip.length - cut - x)).map Prod.fst ≤
          (soundsAt project pattern clip.transforms (cut - clip.start + x)
              (clip.start + clip.length - cut - x)).map Prod.fst +
            if x = 0 then heldAt project pattern clip.transforms (cut - clip.start) else 0 := by
  -- the note-ons that begin notes again are all at the cut
  have hheld : ∀ x, ((straddling project id clip cut).map (ResolvedNote.retrigger cut)).filter
        (fun on => on.1 = cut + x) =
      (if x = 0 then heldAt project pattern clip.transforms (cut - clip.start) else 0).map
        fun voice => (cut + x, voice) := by
    intro x
    rw [map_retrigger_straddling hclip hpattern hlow hhigh]
    split_ifs with hx
    · subst hx
      rw [add_zero]
      refine Multiset.filter_eq_self.2 fun on hon => ?_
      obtain ⟨voice, -, rfl⟩ := Multiset.mem_map.1 hon
      rfl
    · refine Multiset.filter_eq_nil.2 fun on hon => ?_
      obtain ⟨voice, -, rfl⟩ := Multiset.mem_map.1 hon
      intro hcut
      simp only at hcut
      omega
  have hfst : ∀ x limit t, ((soundsAt project pattern clip.transforms x limit).map
        (noteAt t)).map ResolvedNote.on =
      ((soundsAt project pattern clip.transforms x limit).map Prod.fst).map fun voice =>
        (t, voice) := by
    intro x limit t
    rw [Multiset.map_map, Multiset.map_map]
    rfl
  have hinj : ∀ t : ℤ, Function.Injective fun voice : ℕ × ℤ × Double => (t, voice) :=
    fun t _ _ h => (Prod.mk.inj h).2
  rw [le_iff_filter_le Prod.fst]
  simp only [Multiset.map_add, Multiset.filter_add, filter_map_on]
  refine forall_tick_iff cut (fun t ht => ?_) (fun x hx hx' => ?_) fun x hx hx' => ?_
  · obtain ⟨hright, -, hleft⟩ := notesAtTick_beforeCut rightId id hclip hpattern hhigh ht
    rw [hright, hleft, Multiset.map_zero, add_zero]
    exact Multiset.le_add_right _ _
  · obtain ⟨hleft, hinside, -⟩ := notesAtTick_afterCut rightId id hclip hpattern hlow hx
    obtain ⟨hwhole, hright⟩ := hinside hx'
    rw [hleft, hwhole, hright, hheld, hfst, hfst, Multiset.map_zero, zero_add, ← Multiset.map_add,
      Multiset.map_le_map_iff (hinj _)]
  · obtain ⟨hleft, -, hpast⟩ := notesAtTick_afterCut rightId id hclip hpattern hlow hx
    rw [hleft, (hpast hx').2, Multiset.map_zero, add_zero]
    exact Multiset.zero_le _

/-- The conditions at every tick, from the cut on, are what `Resumes` asks for. -/
theorem resumes_iff (transforms : ClipTransforms) (leftLength : ℤ) {rest : ℤ} (hrest : 0 < rest) :
    Resumes project pattern transforms leftLength rest ↔
      (∀ x, 0 ≤ x → x < rest →
        soundsAt project pattern transforms (leftLength + x) (rest - x) ≤
          soundsAt project pattern transforms x (rest - x)) ∧
      ∀ x, 0 ≤ x → x < rest →
        (soundsAt project pattern transforms x (rest - x)).map Prod.fst ≤
          (soundsAt project pattern transforms (leftLength + x) (rest - x)).map Prod.fst +
            if x = 0 then heldAt project pattern transforms leftLength else 0 := by
  constructor
  · intro h
    refine ⟨fun x hx hx' => ?_, fun x hx hx' => ?_⟩
    · rcases hx.eq_or_lt with rfl | hpos
      · rw [add_zero, sub_zero]
        exact h.atCut
      · exact (h.later x hpos hx').le
    · rcases hx.eq_or_lt with rfl | hpos
      · rw [add_zero, sub_zero, if_pos rfl]
        exact h.held
      · rw [h.later x hpos hx']
        exact Multiset.le_add_right _ _
  · rintro ⟨hkept, hnew⟩
    refine ⟨fun x hx hx' => ?_, ?_, ?_⟩
    · refine Multiset.eq_of_le_of_card_le (hkept x hx.le hx') ?_
      have hcard := Multiset.card_le_card (hnew x hx.le hx')
      rwa [if_neg hx.ne', add_zero, Multiset.card_map, Multiset.card_map] at hcard
    · have hat := hkept 0 le_rfl hrest
      rwa [add_zero, sub_zero] at hat
    · have hat := hnew 0 le_rfl hrest
      rwa [add_zero, sub_zero, if_pos rfl] at hat

/-- What the other clips start does not matter. -/
theorem cutUnheard_withCut_iff (hclip : clip.pattern = some patternId)
    (haudible : (id, clip) ∈ audibleClips project) (hlow : clip.start < cut)
    (hhigh : cut < clip.start + clip.length) (hfresh : project.clips.get? rightId = none) :
    CutUnheard project (project.withCut rightId id clip cut) rightId id clip cut ↔
      (notesOfClip project id clip).filter (fun n => ¬n.Straddles cut) ≤
          notesOfClip project id (clip.leftHalf cut) +
            notesOfClip project rightId (clip.rightHalf cut) ∧
        (notesOfClip project id (clip.leftHalf cut) +
            notesOfClip project rightId (clip.rightHalf cut)).map ResolvedNote.on ≤
          (notesOfClip project id clip).map ResolvedNote.on +
            (straddling project id clip cut).map (ResolvedNote.retrigger cut) := by
  have hne : id ≠ rightId := by
    rintro rfl
    rw [(mem_audibleClips_iff.1 haudible).1] at hfresh
    cases hfresh
  have hdecomposed := Multiset.filter_add_not (ResolvedNote.Straddles cut)
    (notesOfClip project id clip)
  have hcut := collectedNotes_withCut hclip haudible hlow hhigh hfresh
  have hbefore : collectedNotes project - straddling project id clip cut =
      otherNotes project id +
        (notesOfClip project id clip).filter fun n => ¬n.Straddles cut := by
    rw [collectedNotes_eq_add haudible, ← hdecomposed, straddling, add_left_comm,
      add_tsub_cancel_left, hdecomposed]
  constructor
  · intro h
    have hkept := h.kept
    have hnew := h.noNew
    rw [hbefore, hcut] at hkept
    rw [hcut, collectedNotes_eq_add haudible, Multiset.map_add _ (otherNotes project id),
      Multiset.map_add _ (otherNotes project id), add_assoc] at hnew
    exact ⟨le_of_add_le_add_left hkept, le_of_add_le_add_left hnew⟩
  · rintro ⟨hkept, hnew⟩
    refine ⟨⟨clip.leftHalf cut, clip.rightHalf cut, ?_, ?_, ?_, ?_, rfl, ?_⟩, ?_, ?_⟩
    · rw [Tables.get?_withCut, if_neg hne, if_pos rfl]
    · rw [Tables.get?_withCut, if_pos rfl]
    · rw [leftHalf_of_pattern hclip, Clip.withLength]
    · rw [leftHalf_of_pattern hclip, Clip.withLength]
      simp only
      omega
    · simp only [Clip.rightHalf]
      omega
    · rw [hbefore, hcut]
      exact add_le_add_right hkept _
    · rw [hcut, collectedNotes_eq_add haudible, Multiset.map_add _ (otherNotes project id),
        Multiset.map_add _ (otherNotes project id), add_assoc]
      exact add_le_add_right hnew _

/-- A clip whose pattern is gone plays nothing. -/
theorem notesOfClip_of_missing (hclip : clip.pattern = some patternId)
    (hmissing : project.patterns.get? patternId = none) (id : ClipId) :
    notesOfClip project id clip = 0 := by
  rw [notesOfClip, resolveClip, pattern_eq_some_iff.1 hclip]
  simp only [hmissing]
  rfl

/-- **A cut of a pattern clip is not heard exactly when the pattern goes on as it began.** -/
theorem cutUnheard_iff (hclip : clip.pattern = some patternId)
    (haudible : (id, clip) ∈ audibleClips project) (hlow : clip.start < cut)
    (hhigh : cut < clip.start + clip.length) (hvalid : rightId.valid = true)
    (hfresh : project.clips.get? rightId = none) :
    ∃ command, splitClip project rightId id cut = some command ∧
      (command.apply project).ok = true ∧
      (CutUnheard project (command.apply project).state rightId id clip cut ↔
        ∀ pattern, project.patterns.get? patternId = some pattern →
          Resumes project pattern clip.transforms (cut - clip.start)
            (clip.start + clip.length - cut)) := by
  obtain ⟨command, hsplit, hok, hstate⟩ :=
    apply_splitClip (mem_audibleClips_iff.1 haudible).1 hlow hhigh hvalid hfresh
  refine ⟨command, hsplit, hok, ?_⟩
  rw [hstate, cutUnheard_withCut_iff hclip haudible hlow hhigh hfresh]
  cases hpattern : project.patterns.get? patternId with
  | none =>
    have hleft : (clip.leftHalf cut).pattern = some patternId := by
      rw [leftHalf_of_pattern hclip]
      exact hclip
    have hright : (clip.rightHalf cut).pattern = some patternId := by
      rw [rightHalf_of_pattern hclip]
      exact hclip
    rw [notesOfClip_of_missing hclip hpattern, notesOfClip_of_missing hleft hpattern,
      notesOfClip_of_missing hright hpattern]
    exact iff_of_true ⟨Multiset.zero_le _, Multiset.zero_le _⟩ fun _ h => by cases h
  | some pattern =>
    simp only [Option.some_inj, forall_eq']
    rw [resumes_iff _ _ (by omega), ← kept_iff rightId id hclip hpattern hlow hhigh,
      ← noNew_iff rightId id hclip hpattern hlow hhigh]

end Cut

/-- A looping clip that is cut after whole passes of its pattern resumes. -/
theorem resumes_of_dvd (project : Tables) (pattern : Pattern) {transforms : ClipTransforms}
    (hloop : transforms.loop = true) {leftLength : ℤ}
    (hdvd : patternEffectiveLength pattern ∣ leftLength) (rest : ℤ) :
    Resumes project pattern transforms leftLength rest := by
  have hstarts : ∀ x, startsAt project pattern transforms (leftLength + x) =
      startsAt project pattern transforms x := by
    intro x
    have hbegins : ∀ note : Note,
        beginsAt note transforms (patternEffectiveLength pattern) (leftLength + x) =
          beginsAt note transforms (patternEffectiveLength pattern) x := by
      intro note
      obtain ⟨passes, rfl⟩ := hdvd
      simp only [beginsAt, hloop, if_true, add_sub_assoc, Int.mul_add_emod_self_left]
    simp only [startsAt, hbegins]
  have hsounds : ∀ x limit, soundsAt project pattern transforms (leftLength + x) limit =
      soundsAt project pattern transforms x limit := by
    intro x limit
    rw [soundsAt, soundsAt, hstarts]
  have hzero := fun limit => hsounds 0 limit
  simp only [add_zero] at hzero
  refine ⟨fun x _ _ => hsounds x _, (hzero rest).le, ?_⟩
  rw [hzero]
  exact Multiset.le_add_right _ _

/-- Two passes of a pattern with a note at its start. -/
def twoPasses : Clip :=
  { lane := ⟨6⟩, length := 7680, source := .pattern ⟨4⟩, transforms := { loop := true } }

/-- One clip on one lane. -/
def oneClipProject : Tables :=
  { newProject ⟨1⟩ with
    instruments := OrderedMap.empty.assign ⟨3⟩ { routing := [⟨0, ⟨1⟩⟩] }
    patterns := OrderedMap.empty.assign ⟨4⟩
      { length := 3840
        sequences := OrderedMap.empty.assign ⟨3⟩ (.assignSorted [⟨0, 240, 60, 100⟩]) }
    lanes := OrderedMap.empty.assign ⟨6⟩ {}
    clips := OrderedMap.empty.assign ⟨8⟩ twoPasses }

/-- The cut between the two passes is not heard. -/
theorem cutUnheard_twoPasses : ∃ command,
    splitClip oneClipProject ⟨9⟩ ⟨8⟩ 3840 = some command ∧
      CutUnheard oneClipProject (command.apply oneClipProject).state ⟨9⟩ ⟨8⟩ twoPasses 3840 := by
  obtain ⟨command, hsplit, -, hiff⟩ := cutUnheard_iff
    (rfl : twoPasses.pattern = some ⟨4⟩)
    (by decide +kernel : (⟨8⟩, twoPasses) ∈ audibleClips oneClipProject)
    (by decide : twoPasses.start < 3840) (by decide) (by decide : (⟨9⟩ : ClipId).valid = true) rfl
  refine ⟨command, hsplit, hiff.2 fun pattern hpattern => resumes_of_dvd _ _ rfl ?_ _⟩
  obtain rfl := Option.some.inj hpattern
  decide +kernel

/-- **A cut a beat in plays the first note again**: the right half begins the pattern anew. -/
theorem not_cutUnheard_twoPasses :
    (splitClip oneClipProject ⟨9⟩ ⟨8⟩ 960).isSome = true ∧
      ¬∃ command, splitClip oneClipProject ⟨9⟩ ⟨8⟩ 960 = some command ∧
        CutUnheard oneClipProject (command.apply oneClipProject).state ⟨9⟩ ⟨8⟩ twoPasses 960 := by
  obtain ⟨applied, hsplit, -, hstate⟩ := @apply_splitClip oneClipProject ⟨9⟩ ⟨8⟩
    twoPasses 960 rfl (by decide : twoPasses.start < 960) (by decide) (by decide) rfl
  refine ⟨by rw [hsplit]; rfl, ?_⟩
  rintro ⟨command, hcommand, h⟩
  rw [hsplit, Option.some_inj] at hcommand
  subst hcommand
  have hnew := h.noNew
  rw [hstate] at hnew
  revert hnew
  decide +kernel

end OneBeat
