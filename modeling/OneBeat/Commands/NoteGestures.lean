import OneBeat.Commands.Notes

/-!
# Coalesced note edits

Edits `A → B` and `B → C` of the same notes are kept as one entry `A → C`, which also takes over
the lengths of the clips that either dragged along.

* `NoteCommand.relength_mergeResized_of_mem` : the length recorded first is the one that stays.
* `NoteCommand.TiesSettled.trans` : two edits in a row settle the ties as one.
* `NoteCommand.ClipsAgree` : the clips do not show that two edits were made in a row.
* `NoteCommand.done_coalesceWith` : then the entry can be taken back and made again.
-/

namespace OneBeat

namespace NoteCommand

variable {command : NoteCommand} {project : Tables} {pattern : Pattern}

theorem relength_append_singleton {held : List (ClipId × ℤ)} {entry : ClipId × ℤ} {id : ClipId}
    (h : entry.1 ≠ id) (clip : Clip) :
    Tables.relength (held ++ [entry]) id clip = Tables.relength held id clip := by
  obtain ⟨k, l⟩ := entry
  unfold Tables.relength
  rw [List.reverse_append, List.reverse_singleton, List.singleton_append, Entries.get?_cons,
    if_neg h]

theorem mergeResized_cons (held next : List (ClipId × ℤ)) (entry : ClipId × ℤ) :
    mergeResized held (entry :: next) =
      mergeResized (if entry.1 ∈ held.map Prod.fst then held else held ++ [entry]) next := by
  unfold mergeResized
  rw [List.foldl_cons]
  congr 1
  refine if_congr ?_ rfl rfl
  simp only [List.any_eq_true, decide_eq_true_eq, List.mem_map]

/-- A clip that is recorded keeps its length. -/
theorem relength_mergeResized_of_mem {held : List (ClipId × ℤ)} (next : List (ClipId × ℤ))
    {id : ClipId} (h : id ∈ held.map Prod.fst) (clip : Clip) :
    Tables.relength (mergeResized held next) id clip = Tables.relength held id clip := by
  induction next generalizing held with
  | nil => rfl
  | cons entry next ih =>
    rw [mergeResized_cons]
    split_ifs with hknown
    · exact ih h
    · rw [ih (by simp [h]), relength_append_singleton fun hid => hknown (hid ▸ h)]

/-- A clip that is not recorded yet gets the length the next edit recorded, if it did. -/
theorem relength_mergeResized_of_notMem {held next : List (ClipId × ℤ)} {id : ClipId} {l : ℤ}
    (h : id ∉ held.map Prod.fst) (hl : ∀ l', (id, l') ∈ next → l' = l) (clip : Clip) :
    Tables.relength (mergeResized held next) id clip = Tables.relength next id clip := by
  induction next generalizing held with
  | nil => exact Tables.relength_of_notMem h clip
  | cons entry next ih =>
    have hl' : ∀ l', (id, l') ∈ next → l' = l := fun l' h => hl l' (List.mem_cons_of_mem _ h)
    rw [mergeResized_cons]
    by_cases hid : entry.1 = id
    · subst hid
      rw [if_neg h, relength_mergeResized_of_mem _ (by simp),
        Tables.relength_of_forall (by simp) fun l' hmem => ?_,
        Tables.relength_of_forall (by simp) hl]
      rcases List.mem_append.1 hmem with hmem | hmem
      · exact absurd (List.mem_map_of_mem hmem) h
      · exact hl l' (List.mem_singleton.1 hmem ▸ List.mem_cons_self)
    · rw [ih ?_ hl']
      · unfold Tables.relength
        rw [List.reverse_cons, Entries.get?_append, Entries.get?_cons, if_neg hid,
          Entries.get?_nil, Option.or_none]
      · split_ifs with hknown
        · exact h
        · simpa [Ne.symm hid] using h

/-- Two edits in a row settle the ties as one. -/
theorem TiesSettled.trans {current removed added added' : List Note}
    (h : TiesSettled current removed added)
    (h' : TiesSettled (stableSort (current.diff removed ++ added)) added added') :
    TiesSettled current removed added' := by
  intro place
  obtain ⟨-, h'⟩ := h' place
  rw [tied_edited, (h place).2] at h'
  exact ⟨(h place).1, h'⟩

/-- Of two edits in a row, the second stores what the absorbed one would. -/
theorem TiesSettled.edited_trans {current removed added added' : List Note}
    (h : TiesSettled current removed added) :
    stableSort ((stableSort (current.diff removed ++ added)).diff added ++ added') =
      stableSort (current.diff removed ++ added') := by
  refine stableSort_congr fun place => ?_
  have hplace := (h place).2
  rw [← tied_edited] at hplace
  simp only [tied, ties_append, ties_diff] at hplace ⊢
  rw [hplace]

/-- A clip that follows twice follows once, when the lengths or the clips agree. -/
theorem followed_followed {patternId : PatternId} {e₀ e₁ e₂ : ℤ} {clip : Clip}
    (h : e₁ = e₀ ∨ e₂ = e₁ ∨
      (Tables.follows patternId e₁ (Tables.followed patternId e₀ e₁ clip) = true →
        Tables.follows patternId e₀ clip = true)) :
    Tables.followed patternId e₁ e₂ (Tables.followed patternId e₀ e₁ clip) =
      Tables.followed patternId e₀ e₂ clip := by
  have hsame : ∀ e clip, Tables.followed patternId e e clip = clip := by
    intro e clip
    unfold Tables.followed Tables.follows
    split_ifs with hf
    · simp only [Bool.and_eq_true, decide_eq_true_eq] at hf
      rw [← hf.2, Clip.withLength_length]
    · rfl
  rcases h with rfl | rfl | h
  · rw [hsame]
  · rw [hsame]
  · by_cases hf : Tables.follows patternId e₀ clip = true
    · have hclip : Tables.followed patternId e₀ e₁ clip = clip.withLength e₁ := if_pos hf
      have hfollows : Tables.follows patternId e₁ (clip.withLength e₁) = true := by
        simp only [Tables.follows, Bool.and_eq_true, decide_eq_true_eq] at hf ⊢
        exact ⟨hf.1, rfl⟩
      rw [hclip, Tables.followed, if_pos hfollows, Tables.followed, if_pos hf,
        Clip.withLength_withLength]
    · rw [Tables.followed, if_neg (mt h hf), Tables.followed, Tables.followed, if_neg hf,
        if_neg hf]

/-- The clips do not show that two edits were made in a row: the first or the second kept the
length of the pattern, or every clip that follows the second had followed the first. -/
def ClipsAgree (command next : NoteCommand) (before : Pattern) (project' : Tables)
    (live : Pattern) : Prop :=
  patternEffectiveLength live = patternEffectiveLength before ∨
    next.lengthAfter live = patternEffectiveLength live ∨
    ∀ id clip, project'.clips.get? id = some clip →
      Tables.follows command.pattern (patternEffectiveLength live) clip = true →
        Tables.relength command.resized id clip ≠ clip

theorem coalesceWith_eq_some_iff {command next merged : NoteCommand} :
    command.coalesceWith next = some merged ↔
      (command.coalescable = true ∧ next.coalescable = true ∧ next.pattern = command.pattern ∧
        next.instrument = command.instrument ∧ command.added = next.removed) ∧
      merged = { command with
        added := next.added, resized := mergeResized command.resized next.resized } := by
  unfold coalesceWith
  split_ifs with h
  · refine iff_of_false (by simp) fun hm => ?_
    obtain ⟨⟨h₁, h₂, h₃, h₄, h₅⟩, -⟩ := hm
    simp [h₁, h₂, h₃, h₄, h₅] at h
  · simp only [Bool.or_eq_true, Bool.not_eq_true', decide_eq_true_eq, not_or, ne_eq, not_not,
      Bool.not_eq_false] at h
    obtain ⟨⟨⟨⟨h₁, h₂⟩, h₃⟩, h₄⟩, h₅⟩ := h
    rw [and_iff_right ⟨h₁, h₂, h₃, h₄, h₅⟩, Option.some_inj]
    exact eq_comm

/-- A revert that gives `project` back puts every clip back. -/
theorem relength_of_revert (hpattern : project.patterns.get? command.pattern = some pattern)
    (h : command.Applies project pattern) {command' : NoteCommand}
    (hrevert : command.revert (command.result project pattern) = ⟨true, command', project⟩) :
    (∀ note ∈ command.removed, isValidNote note = true) ∧
      command' = { command with resized := [] } ∧
      ∀ id clip, project.clips.get? id = some clip →
        Tables.relength command.resized id (Tables.followed command.pattern
          (patternEffectiveLength pattern) (command.lengthAfter pattern) clip) = clip := by
  have hresult := revert_result hpattern h command.resized
  rw [show ({ command with resized := command.resized } : NoteCommand) = command from rfl,
    hrevert] at hresult
  split_ifs at hresult with hvalid
  · obtain ⟨-, rfl, hproject⟩ := Outcome.mk.inj hresult
    refine ⟨hvalid, rfl, fun id clip hclip => ?_⟩
    have hget := congrArg (fun q : Tables => q.clips.get? id) hproject
    simp only [Tables.clips_mapClips, OrderedMap.get?_mapValues, Tables.clips_withNotes, hclip,
      Option.map_some, Option.some_inj] at hget
    exact hget.symm
  · cases (Outcome.mk.inj hresult).1

/-- **An absorbed edit can be taken back and made again**, when the ties are settled by both edits
and the clips agree. -/
theorem done_coalesceWith {command next next' merged : NoteCommand}
    {project project' project'' : Tables} {pattern live : Pattern}
    (hpattern : project.patterns.get? command.pattern = some pattern) (hsparse : pattern.Sparse)
    (hlive : project'.patterns.get? command.pattern = some live)
    (hdone : History.Done apply revert command project project')
    (hsettled : TiesSettled (pattern.notesOf command.instrument) command.removed command.added)
    (happly : next.apply project' = ⟨true, next', project''⟩)
    (hnext : TiesSettled (live.notesOf next.instrument) next.removed next.added)
    (hmerged : command.coalesceWith next' = some merged)
    (hclips : ClipsAgree command next pattern project' live) :
    History.Done apply revert merged project project'' ∧
      TiesSettled (pattern.notesOf merged.instrument) merged.removed merged.added := by
  obtain ⟨command₁, hrevert, command₂, command₃, hredo, -, -⟩ := hdone
  obtain ⟨⟨-, -, hpat, hins, hadded⟩, rfl⟩ := coalesceWith_eq_some_iff.1 hmerged
  -- what the second edit did
  obtain ⟨live', hlive', happlies'⟩ := apply_ok_iff.1 (congrArg Outcome.ok happly)
  obtain ⟨-, rfl, rfl⟩ := (apply_eq_ok_iff hlive').1 happly
  simp only at hpat hins hadded
  obtain ⟨pat, ins, removed, added, coalescable, resized⟩ := command
  obtain ⟨pat', ins', removed', added', coalescable', resized'⟩ := next
  simp only at hpat hins hadded hlive hlive' hpattern hsettled hnext
  subst hpat hins hadded
  obtain rfl : live = live' := Option.some_inj.1 (hlive.symm.trans hlive')
  -- what the first edit did, as its redo shows
  have hcommand₁ : command₁ = ⟨pat', ins', removed, added, coalescable, []⟩ := by
    unfold revert at hrevert
    split at hrevert
    · cases (Outcome.mk.inj hrevert).1
    · exact (Outcome.mk.inj hrevert).2.1.symm
  subst hcommand₁
  obtain ⟨happlies, -, hproject'⟩ := (apply_eq_ok_iff hpattern).1 hredo
  have hproject' : project' =
      result ⟨pat', ins', removed, added, coalescable, resized⟩ project pattern := hproject'
  subst hproject'
  obtain ⟨hvalid, -, hback⟩ := @relength_of_revert
    ⟨pat', ins', removed, added, coalescable, resized⟩ project pattern hpattern happlies _ hrevert
  have hlive_eq : live = pattern.withSequence ins'
      (.assignSorted ((pattern.notesOf ins').diff removed ++ added)) :=
    Option.some_inj.1 (hlive.symm.trans (Tables.get?_withNotes hpattern _ _))
  have hnotes : live.notesOf ins' = stableSort ((pattern.notesOf ins').diff removed ++ added) := by
    rw [hlive_eq, Pattern.notesOf_withSequence, NoteSequence.notes_assignSorted]
  rw [hnotes] at hnext
  have hties : TiesSettled (pattern.notesOf ins') removed added' := hsettled.trans hnext
  refine ⟨?_, hties⟩
  -- the second edit stores what the absorbed one stores
  set merged : NoteCommand := ⟨pat', ins', removed, added', coalescable, []⟩ with hmergedDef
  set next : NoteCommand := ⟨pat', ins', added, added', coalescable', resized'⟩ with hnextDef
  have hsort : stableSort (next.edited live) = stableSort (merged.edited pattern) := by
    rw [edited, hnotes]
    exact hsettled.edited_trans
  have hlength : next.lengthAfter live = merged.lengthAfter pattern := by
    unfold lengthAfter
    rw [hlive_eq, Pattern.withSequence_withSequence, ← hlive_eq]
    have : NoteSequence.assignSorted (next.edited live) =
        .assignSorted (merged.edited pattern) :=
      NoteSequence.ext (by simp only [NoteSequence.notes_assignSorted, hsort])
    rw [this]
  have hfirst : (⟨pat', ins', removed, added, coalescable, resized⟩ : NoteCommand).lengthAfter
      pattern = patternEffectiveLength live := by
    rw [hlive_eq]; rfl
  rw [hfirst] at hback
  have hclip : ∀ id clip, project.clips.get? id = some clip →
      Tables.followed pat' (patternEffectiveLength live) (next.lengthAfter live)
          (Tables.followed pat' (patternEffectiveLength pattern) (patternEffectiveLength live)
            clip) =
        Tables.followed pat' (patternEffectiveLength pattern) (merged.lengthAfter pattern)
          clip := by
    intro id clip hget
    rw [← hlength]
    refine followed_followed (hclips.imp_right (Or.imp_right fun hall hfollows => ?_))
    by_contra hf
    have hstay : Tables.followed pat' (patternEffectiveLength pattern)
        (patternEffectiveLength live) clip = clip := if_neg hf
    have hback := hback id clip hget
    rw [hstay] at hback hfollows
    refine hall id clip ?_ hfollows hback
    rw [result, hfirst, Tables.clips_mapClips, OrderedMap.get?_mapValues, Tables.clips_withNotes,
      hget, Option.map_some, hstay]
  have hresult : next.result (result ⟨pat', ins', removed, added, coalescable, resized⟩ project
      pattern) live = merged.result project pattern := by
    unfold result
    rw [hfirst]
    change (((project.withNotes pat' ins' _).mapClips _).withNotes pat' ins'
      (next.edited live)).mapClips (fun _ => Tables.followed pat' _ (next.lengthAfter live)) =
        (project.withNotes pat' ins' (merged.edited pattern)).mapClips fun _ =>
          Tables.followed pat' _ (merged.lengthAfter pattern)
    rw [Tables.withNotes_mapClips, Tables.withNotes_withNotes, Tables.mapClips_mapClips,
      Tables.withNotes_congr hsort]
    exact Tables.mapClips_congr fun id clip hget => hclip id clip hget
  have happliesMerged : merged.Applies project pattern :=
    ⟨happlies.1, happlies.2.1, happlies'.2.2⟩
  rw [hresult]
  refine ⟨merged, ?_, undone_of_restored hpattern hsparse happliesMerged hvalid
    hties.restored⟩
  -- the clips come back from the lengths recorded first
  refine (revert_result hpattern happliesMerged _).trans ?_
  have hstored : project.withNotes pat' ins'
      ((stableSort (merged.edited pattern)).diff added' ++ removed) = project :=
    Tables.withNotes_eq_self hpattern hsparse
      ((stableSort_undo_iff (pattern.stableSort_notesOf _)).2 hties.restored)
  rw [if_pos hvalid]
  change Outcome.mk true merged ((project.withNotes pat' ins'
    ((stableSort (merged.edited pattern)).diff added' ++ removed)).mapClips fun id clip =>
      Tables.relength (mergeResized resized _) id (Tables.followed pat' _ _ clip)) = _
  rw [hstored, Tables.mapClips_eq_self fun id clip hget => ?_]
  have hback := hback id clip hget
  rw [← hclip id clip hget]
  by_cases hmem : id ∈ resized.map Prod.fst
  · rw [relength_mergeResized_of_mem _ hmem]
    refine Eq.trans ?_ hback
    generalize Tables.followed pat' (patternEffectiveLength pattern)
      (patternEffectiveLength live) clip = moved
    unfold Tables.followed
    split_ifs
    · exact Tables.relength_withLength _ _ _ _ hmem
    · rfl
  · rw [Tables.relength_of_notMem hmem] at hback
    have hget' : (result ⟨pat', ins', removed, added, coalescable, resized⟩ project
        pattern).clips.get? id = some clip := by
      rw [result, hfirst, Tables.clips_mapClips, OrderedMap.get?_mapValues,
        Tables.clips_withNotes, hget, Option.map_some, hback]
    obtain ⟨hlengths, -⟩ := Tables.followPatternLength_fst
      (Tables.get?_withNotes hlive ins' (next.edited live))
      (patternEffectiveLength live)
    rw [hback]
    refine (relength_mergeResized_of_notMem hmem (fun l hl => hlengths id l hl) _).trans ?_
    exact @relength_dragged next _ live hlive id clip hget'

end NoteCommand

end OneBeat
