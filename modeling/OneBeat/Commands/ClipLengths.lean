import OneBeat.Commands.Edit

/-!
# Lengths of clips

What commands do to the lengths of clips beside their own edit: a clip that is exactly as long as
its pattern follows it, and an undo puts recorded lengths back.

* `Tables.setLengths_eq` : putting lengths back sets each clip to the last length recorded for it.
* `Tables.followPatternLength_snd` : the clips that follow are those of the pattern's old length.
* `Tables.followPatternLength_fst` : and these are what is recorded.
-/

namespace OneBeat

namespace Tables

variable (project : Tables)

/-- Replace every clip. -/
def mapClips (f : ClipId → Clip → Clip) : Tables :=
  { project with clips := project.clips.mapValues f }

/-- Set the lengths of clips one after the other; a clip that is gone is skipped. -/
def setLengths (lengths : List (ClipId × ℤ)) : Tables :=
  lengths.foldl (fun project entry =>
    (project.updateClip entry.1 fun clip => clip.withLength entry.2).getD project) project

/-- The length `lengths` sets for a clip, the last one that names it. -/
def relength (lengths : List (ClipId × ℤ)) (id : ClipId) (clip : Clip) : Clip :=
  match Entries.get? lengths.reverse id with
  | some length => clip.withLength length
  | none => clip

/-- A clip that is as long as `before` gets the length `after`, and is recorded as moved. -/
def followClip (before after : ℤ) (state : List (ClipId × ℤ) × Tables) (id : ClipId) :
    List (ClipId × ℤ) × Tables :=
  match state.2.clips.get? id with
  | none => state
  | some clip =>
    if clip.length ≠ before then state
    else
      match state.2.updateClip id fun clip => clip.withLength after with
      | some project => (state.1 ++ [(id, before)], project)
      | none => state

/-- The clips that are exactly as long as their pattern was follow it to its new length.  Gives
what was moved, with the length it had. -/
def followPatternLength (pattern : PatternId) (before : ℤ) : List (ClipId × ℤ) × Tables :=
  match project.patterns.get? pattern with
  | none => ([], project)
  | some live =>
    let after := patternEffectiveLength live
    if after = before ∨ after ≤ 0 then ([], project)
    else (project.clipsUsingPattern pattern).foldl (followClip before after) ([], project)

end Tables

/-! ### Clips that follow their pattern -/

namespace Tables

variable {project : Tables}

@[simp] theorem clips_mapClips (f : ClipId → Clip → Clip) :
    (project.mapClips f).clips = project.clips.mapValues f := rfl

@[simp] theorem patterns_mapClips (f : ClipId → Clip → Clip) :
    (project.mapClips f).patterns = project.patterns := rfl

@[simp] theorem instruments_mapClips (f : ClipId → Clip → Clip) :
    (project.mapClips f).instruments = project.instruments := rfl

@[simp] theorem transport_mapClips (f : ClipId → Clip → Clip) :
    (project.mapClips f).transport = project.transport := rfl

@[simp] theorem transport_setTransport (transport : TransportState) :
    (project.setTransport transport).transport = transport := rfl

@[simp] theorem clips_setTransport (transport : TransportState) :
    (project.setTransport transport).clips = project.clips := rfl

theorem setTransport_mapClips (f : ClipId → Clip → Clip) (transport : TransportState) :
    (project.mapClips f).setTransport transport = (project.setTransport transport).mapClips f :=
  rfl

theorem mapClips_mapClips (f g : ClipId → Clip → Clip) :
    (project.mapClips f).mapClips g = project.mapClips fun id clip => g id (f id clip) := by
  unfold mapClips
  rw [OrderedMap.mapValues_mapValues]

theorem mapClips_congr {f g : ClipId → Clip → Clip}
    (h : ∀ id clip, project.clips.get? id = some clip → f id clip = g id clip) :
    project.mapClips f = project.mapClips g := by
  unfold mapClips
  rw [OrderedMap.mapValues_congr h]

theorem mapClips_eq_self {f : ClipId → Clip → Clip}
    (h : ∀ id clip, project.clips.get? id = some clip → f id clip = clip) :
    project.mapClips f = project := by
  unfold mapClips
  rw [OrderedMap.mapValues_eq_self h]

/-- The clip plays the pattern and is as long as `before`. -/
def follows (pattern : PatternId) (before : ℤ) (clip : Clip) : Bool :=
  clip.pattern = some pattern && clip.length = before

/-- The clip after its pattern went from `before` to `after`. -/
def followed (pattern : PatternId) (before after : ℤ) (clip : Clip) : Clip :=
  if follows pattern before clip then clip.withLength after else clip

theorem patternEffectiveLength_pos (pattern : Pattern) : 0 < patternEffectiveLength pattern := by
  have hbar : ticksPerBarFourFour = 3840 := rfl
  unfold patternEffectiveLength patternLoopLength
  simp only [hbar]
  split_ifs <;> omega

theorem setLengths_append (l l' : List (ClipId × ℤ)) :
    project.setLengths (l ++ l') = (project.setLengths l).setLengths l' :=
  List.foldl_append

theorem updateClip_eq_some_iff {id : ClipId} {f : Clip → Clip} {project' : Tables} :
    project.updateClip id f = some project' ↔ (∃ clip, project.clips.get? id = some clip) ∧
      project' = project.mapClips fun k clip => if k = id then f clip else clip := by
  unfold updateClip
  split_ifs with h
  · have hmodify : project.clips.modify id f =
        project.clips.mapValues fun k clip => if k = id then f clip else clip :=
      OrderedMap.mapValues_congr fun k clip _ => by split_ifs <;> rfl
    rw [and_iff_right (OrderedMap.contains_eq_true_iff.1 h), Option.some_inj, hmodify]
    exact eq_comm
  · simp [mt OrderedMap.contains_eq_true_iff.2 h]

theorem getD_updateClip (id : ClipId) (f : Clip → Clip) :
    (project.updateClip id f).getD project =
      project.mapClips fun k clip => if k = id then f clip else clip := by
  cases hget : project.clips.get? id with
  | none =>
    have h : project.clips.contains id = false := OrderedMap.contains_eq_false_iff.2 hget
    rw [updateClip, if_neg (by simp [h]), mapClips_eq_self fun k clip hk => if_neg fun hid => ?_]
    · rfl
    · rw [hid, hget] at hk
      cases hk
  | some clip => rw [updateClip_eq_some_iff.2 ⟨⟨clip, hget⟩, rfl⟩, Option.getD_some]

theorem setLengths_eq (lengths : List (ClipId × ℤ)) :
    project.setLengths lengths = project.mapClips (relength lengths) := by
  induction lengths using List.reverseRecOn with
  | nil => exact (mapClips_eq_self fun _ _ _ => rfl).symm
  | append_singleton lengths entry ih =>
    obtain ⟨id, length⟩ := entry
    rw [setLengths_append, ih]
    unfold setLengths
    rw [List.foldl_cons, List.foldl_nil, getD_updateClip, mapClips_mapClips]
    refine mapClips_congr fun k clip _ => ?_
    unfold relength
    rw [List.reverse_append, List.reverse_singleton, List.singleton_append, Entries.get?_cons]
    by_cases hk : k = id
    · subst hk
      simp only [↓reduceIte]
      cases Entries.get? lengths.reverse k <;> rfl
    · simp only [if_neg hk, if_neg (Ne.symm hk)]

theorem instruments_setLengths (lengths : List (ClipId × ℤ)) :
    (project.setLengths lengths).instruments = project.instruments := by
  rw [setLengths_eq]
  rfl

/-- A clip is set to the one length that is recorded for it. -/
theorem relength_of_forall {lengths : List (ClipId × ℤ)} {id : ClipId} {length : ℤ}
    (hmem : id ∈ lengths.map Prod.fst) (h : ∀ l, (id, l) ∈ lengths → l = length) (clip : Clip) :
    relength lengths id clip = clip.withLength length := by
  unfold relength
  cases hget : Entries.get? lengths.reverse id with
  | none =>
    rw [Entries.get?_eq_none_iff, List.map_reverse, List.mem_reverse] at hget
    exact absurd hmem hget
  | some l => rw [h l (List.mem_reverse.1 (Entries.mem_of_get? hget))]

theorem relength_of_notMem {lengths : List (ClipId × ℤ)} {id : ClipId}
    (h : id ∉ lengths.map Prod.fst) (clip : Clip) : relength lengths id clip = clip := by
  unfold relength
  rw [Entries.get?_eq_none_iff.2 (by rwa [List.map_reverse, List.mem_reverse])]

theorem relength_withLength (lengths : List (ClipId × ℤ)) (id : ClipId) (clip : Clip) (l : ℤ)
    (h : id ∈ lengths.map Prod.fst) :
    relength lengths id (clip.withLength l) = relength lengths id clip := by
  unfold relength
  cases hget : Entries.get? lengths.reverse id with
  | none =>
    rw [Entries.get?_eq_none_iff, List.map_reverse, List.mem_reverse] at hget
    exact absurd h hget
  | some l => rfl

/-- `r` is `state` after those clips of `ids` that were as long as `before` have followed. -/
structure HaveFollowed (ids : List ClipId) (before after : ℤ)
    (state r : List (ClipId × ℤ) × Tables) : Prop where
  tables : r.2 = state.2.mapClips fun id clip =>
    if id ∈ ids ∧ clip.length = before then clip.withLength after else clip
  lengths : ∀ id l, (id, l) ∈ r.1 → (id, l) ∈ state.1 ∨ l = before
  keys : ∀ id, id ∈ r.1.map Prod.fst ↔ id ∈ state.1.map Prod.fst ∨
    id ∈ ids ∧ ∃ clip, state.2.clips.get? id = some clip ∧ clip.length = before

theorem followClip_spec (before after : ℤ) (state : List (ClipId × ℤ) × Tables) (id : ClipId) :
    HaveFollowed [id] before after state (followClip before after state id) := by
  obtain ⟨moved, project⟩ := state
  unfold followClip
  -- a clip of another length does not follow
  have hstay : (∀ clip, project.clips.get? id = some clip → clip.length ≠ before) →
      HaveFollowed [id] before after (moved, project) (moved, project) := by
    intro hne
    refine ⟨?_, fun _ _ => .inl, fun k => ⟨.inl, fun h => h.resolve_right ?_⟩⟩
    · refine (mapClips_eq_self fun k clip hk => if_neg fun h => ?_).symm
      rw [List.mem_singleton.1 h.1] at hk
      exact hne clip hk h.2
    · rintro ⟨hk, clip, hclip, hlength⟩
      rw [List.mem_singleton.1 hk] at hclip
      exact hne clip hclip hlength
  cases hget : project.clips.get? id with
  | none => exact hstay (by simp [hget])
  | some clip =>
    by_cases hlength : clip.length = before
    · simp only [hlength, ne_eq, not_true_eq_false, ↓reduceIte,
        updateClip_eq_some_iff.2 ⟨⟨clip, hget⟩, rfl⟩]
      refine ⟨mapClips_congr fun k other hk => ?_, fun k l h => ?_, fun k => ?_⟩
      · by_cases hkid : k = id
        · subst hkid
          rw [hget, Option.some_inj] at hk
          subst hk
          simp [hlength]
        · simp [hkid]
      · simp only [List.mem_append, List.mem_singleton, Prod.mk.injEq] at h
        exact h.imp_right And.right
      · simp only [List.map_append, List.map_cons, List.map_nil, List.mem_append,
          List.mem_singleton]
        exact or_congr_right ⟨fun h => ⟨h, clip, h ▸ hget, hlength⟩, And.left⟩
    · simp only [ne_eq, hlength, not_false_eq_true, ↓reduceIte]
      refine hstay fun other hother => ?_
      rw [hget, Option.some_inj] at hother
      exact hother ▸ hlength

theorem foldl_followClip_spec {before after : ℤ} (hne : after ≠ before) (ids : List ClipId)
    (state : List (ClipId × ℤ) × Tables) :
    HaveFollowed ids before after state (ids.foldl (followClip before after) state) := by
  induction ids generalizing state with
  | nil => exact ⟨(mapClips_eq_self (by simp)).symm, fun _ _ => .inl, by simp⟩
  | cons id ids ih =>
    obtain ⟨t₁, l₁, k₁⟩ := followClip_spec before after state id
    obtain ⟨t₂, l₂, k₂⟩ := ih (followClip before after state id)
    rw [List.foldl_cons]
    refine ⟨?_, fun k l h => (l₂ k l h).elim (l₁ k l) .inr, fun k => ?_⟩
    · rw [t₂, t₁, mapClips_mapClips]
      refine mapClips_congr fun k clip _ => ?_
      by_cases hk : k = id
      · by_cases hlength : clip.length = before
        · simp [hk, hlength, hne]
        · simp [hk, hlength]
      · simp [hk]
    · rw [k₂, k₁, t₁, or_assoc]
      refine or_congr_right ?_
      simp only [clips_mapClips, OrderedMap.get?_mapValues, Option.map_eq_some_iff,
        List.mem_cons, List.not_mem_nil, or_false]
      constructor
      · rintro (⟨rfl, clip, hclip, hlength⟩ | ⟨hk, clip', ⟨clip, hclip, rfl⟩, hlength⟩)
        · exact ⟨.inl rfl, clip, hclip, hlength⟩
        · refine ⟨.inr hk, clip, hclip, ?_⟩
          split_ifs at hlength with h
          · exact h.2
          · exact hlength
      · rintro ⟨hk, clip, hclip, hlength⟩
        by_cases hkid : k = id
        · exact .inl ⟨hkid, clip, hclip, hlength⟩
        · exact .inr ⟨hk.resolve_left hkid, clip, ⟨clip, hclip, by simp [hkid]⟩, hlength⟩

/-- What `followPatternLength` does to the clips. -/
theorem followPatternLength_snd {pattern : PatternId} {live : Pattern}
    (hlive : project.patterns.get? pattern = some live) (before : ℤ) :
    (project.followPatternLength pattern before).2 =
      project.mapClips fun _ => followed pattern before (patternEffectiveLength live) := by
  unfold followPatternLength
  simp only [hlive, (patternEffectiveLength_pos live).not_ge, or_false]
  split_ifs with hafter
  · refine (mapClips_eq_self fun k clip _ => ?_).symm
    unfold followed follows
    split_ifs with h
    · simp only [Bool.and_eq_true, decide_eq_true_eq] at h
      rw [hafter, ← h.2, Clip.withLength_length]
    · rfl
  · rw [(foldl_followClip_spec hafter _ _).tables]
    refine mapClips_congr fun k clip hk => ?_
    have hk : project.clips.get? k = some clip := hk
    simp [clipsUsingPattern, OrderedMap.mem_keysWhere, hk, followed, follows]

/-- What `followPatternLength` reports: the clips that followed, each with the old length. -/
theorem followPatternLength_fst {pattern : PatternId} {live : Pattern}
    (hlive : project.patterns.get? pattern = some live) (before : ℤ) :
    (∀ id l, (id, l) ∈ (project.followPatternLength pattern before).1 → l = before) ∧
      ∀ id, id ∈ (project.followPatternLength pattern before).1.map Prod.fst ↔
        patternEffectiveLength live ≠ before ∧
          ∃ clip, project.clips.get? id = some clip ∧ follows pattern before clip = true := by
  unfold followPatternLength
  simp only [hlive, (patternEffectiveLength_pos live).not_ge, or_false]
  split_ifs with hafter
  · simp [hafter]
  · obtain ⟨-, hlengths, hkeys⟩ := foldl_followClip_spec hafter
      (project.clipsUsingPattern pattern) ([], project)
    refine ⟨fun id l h => (hlengths id l h).resolve_left List.not_mem_nil, fun id => ?_⟩
    rw [hkeys]
    simp only [List.map_nil, List.not_mem_nil, false_or, clipsUsingPattern,
      OrderedMap.mem_keysWhere, decide_eq_true_eq, ne_eq, hafter, not_false_eq_true, true_and,
      follows, Bool.and_eq_true]
    constructor
    · rintro ⟨⟨clip, hclip, hpattern⟩, other, hother, hlength⟩
      rw [hclip, Option.some_inj] at hother
      exact ⟨clip, hclip, hpattern, hother ▸ hlength⟩
    · rintro ⟨clip, hclip, hpattern, hlength⟩
      exact ⟨⟨clip, hclip, hpattern⟩, clip, hclip, hlength⟩

end Tables

end OneBeat
