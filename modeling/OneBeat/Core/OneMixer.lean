import OneBeat.Core.ChunkMixer

/-!
# One mixer a chunk

What the words of the mixer are in a run (`Followed`), and how far a chunk has come (`Underway`).

* `Followed.describes` : when nothing is on its way, the words are those of the last description;
* `oneMixer_of_run` : **each chunk has one mixer, in every run in which a chunk starts at rest and
  no store changes the words under a chunk.**
-/

namespace OneBeat.ChunkMixer

open SignalFlow

/-! ### What the words are -/

/-- An insert of a shape. -/
def EffectShape.build (starts : EffectId → Bool) (shape : EffectShape) : GraphEffect :=
  ⟨shape.effectId, shape.automationIndex,
    if starts shape.effectId then createBuiltinEffect shape.pluginId else none⟩

/-- Nodes are built from the shapes. -/
theorem buildNodes_eq (starts : EffectId → Bool) (tracks : List MixerTrackDesc) :
    buildNodes starts tracks =
      let shapes := tracks.map MixerTrackDesc.shape
      shapes.map fun shape =>
        { trackId := shape.trackId
          output := shape.outputId.bind fun output =>
            shapes.findIdx? fun other => decide (other.trackId = output)
          effects := shape.effects.map (EffectShape.build starts) } := by
  simp only [buildNodes, List.map_map, List.findIdx?_map, Function.comp_def, MixerTrackDesc.shape]
  rfl

/-- So is a graph. -/
theorem graphOf_congr (starts : EffectId → Bool) {tracks tracks' : List MixerTrackDesc}
    (h : shapes tracks = shapes tracks') : graphOf starts tracks = graphOf starts tracks' := by
  have hshapes : (tracks.take maxMixerTracks).map MixerTrackDesc.shape =
      (tracks'.take maxMixerTracks).map MixerTrackDesc.shape := (Prod.ext_iff.1 h).2
  rw [graphOf, graphOf, buildNodes_eq, buildNodes_eq, hshapes]

/-- The words once some stores are made. -/
def Words.after (words : Words) (stores : List LevelStore) : Words := stores.foldl Words.store words

theorem Words.after_append (words : Words) (stores stores' : List LevelStore) :
    words.after (stores ++ stores') = (words.after stores).after stores' := List.foldl_append

theorem Words.levels_after_congr {words words' : Words} (h : words'.levels = words.levels)
    (stores : List LevelStore) : (words'.after stores).levels = (words.after stores).levels := by
  induction stores generalizing words words' with
  | nil => exact h
  | cons store stores ih =>
    refine ih ?_
    cases store <;> simp only [Words.store, h]

@[simp] theorem Words.store_graph (words : Words) (store : LevelStore) :
    (words.store store).graph = words.graph := by
  cases store <;> rfl

theorem Words.after_track (words : Words) (index : ℕ) (level : TrackLevel) :
    (words.after [.gain index level.gain, .pan index level.pan, .muted index level.muted]).levels =
      Function.update words.levels index level := by
  simp [Words.after, Words.store]

/-- The stores of the tracks from a number on. -/
theorem levels_after (tracks : List Track) (first : ℕ) (words : Words) (index : ℕ) :
    (words.after ((tracks.zipIdx first).map fun entry =>
      let level := entry.1.level.stored
      [.gain entry.2 level.gain, .pan entry.2 level.pan,
        .muted entry.2 level.muted]).flatten).levels index =
      if first ≤ index then
        (tracks[index - first]?.map fun track => track.level.stored).getD (words.levels index)
      else words.levels index := by
  induction tracks generalizing first words with
  | nil => simp [Words.after]
  | cons track tracks ih =>
    rw [List.zipIdx_cons, List.map_cons, List.flatten_cons, Words.after_append, ih]
    dsimp only
    rw [Words.after_track]
    rcases Nat.lt_trichotomy index first with hlt | rfl | hlt
    · rw [if_neg (by omega), if_neg (by omega), Function.update_of_ne (by omega)]
    · rw [if_neg (by omega), if_pos le_rfl, Function.update_self, Nat.sub_self]
      rfl
    · obtain ⟨rest, rfl⟩ : ∃ rest, index = first + 1 + rest := ⟨index - (first + 1), by omega⟩
      rw [if_pos (by omega), if_pos (by omega), Function.update_of_ne (by omega)]
      rw [Nat.add_sub_cancel_left, Nat.add_assoc, Nat.add_sub_cancel_left, Nat.add_comm 1]
      rfl

/-- The levels of as many tracks as the engine has room for. -/
def HasLevels (description : Description) (words : Words) : Prop :=
  ∀ index < (description.tracks.take maxMixerTracks).length,
    words.levels index = description.level index

theorem hasLevels_after (description : Description) (words : Words) :
    HasLevels description (words.after (levelStores description.tracks)) := by
  intro index hindex
  rw [levelStores, levels_after, if_pos (Nat.zero_le _), Nat.sub_zero, Description.level]
  rw [List.length_take, lt_min_iff] at hindex
  rw [List.getElem?_take_of_lt hindex.1, List.getElem?_eq_getElem hindex.2]
  rfl

/-- How far the last description has come. -/
def OnItsWay (s : State) (description : Description) : Prop :=
  match s.pending, s.worker with
  | some tracks, _ => tracks = description.tracks
  | none, some (tracks, stores) =>
    tracks = description.tracks ∧ HasLevels description (s.words.after stores)
  | none, none =>
    HasLevels description s.words ∧
      (IsTree (descs description.tracks) → shapes (descs description.tracks) = shapes s.live)

/-- The graph is that of the live mixer, and the last description is on its way or there. -/
structure Followed (s : State) : Prop where
  graph : ∃ starts, s.words.graph = graphOf starts s.live
  last : ∀ description, s.handed.getLast? = some description → OnItsWay s description

variable {s s' : State} {l : Label}

/-- The audio thread makes no stores and takes no description. -/
theorem stepAudio_spec (h : stepAudio s l = some s') :
    s'.words = s.words ∧ s'.pending = s.pending ∧ s'.worker = s.worker ∧ s'.live = s.live ∧
      s'.handed = s.handed := by
  cases l <;> simp only [stepAudio] at h
  all_goals first
    | cases h
    | split at h
      · obtain rfl := Option.some.inj h
        exact ⟨rfl, rfl, rfl, rfl, rfl⟩
      · cases h

/-- What a pass leaves: the mixer as it was, or the one of its description. -/
theorem Followed.finish (h : Followed s) {starts : EffectId → Bool} {tracks : List Track}
    (hworker : s.worker = some (tracks, [])) (hstep : stepOthers s (.finish starts) = some s') :
    Followed s' := by
  obtain ⟨before, hgraph⟩ := h.graph
  simp only [stepOthers, wordsAfter, hworker] at hstep
  obtain rfl := Option.some.inj hstep
  constructor
  · dsimp only
    rw [graphAfter]
    by_cases hshape : shapes (descs tracks) = shapes s.live
    · rw [if_pos hshape, if_neg (fun hrefused => hrefused.1 hshape), hgraph]
      exact ⟨before, graphOf_congr before hshape.symm⟩
    · rw [if_neg hshape]
      cases hbuilt : graphOf starts (descs tracks) with
      | none =>
        rw [if_pos ⟨hshape, rfl⟩, Option.none_or]
        exact ⟨before, hgraph⟩
      | some graph =>
        rw [if_neg (fun hrefused => Bool.noConfusion hrefused.2), Option.some_or]
        exact ⟨starts, hbuilt.symm⟩
  · intro description hlast
    have hway := h.last description hlast
    simp only [OnItsWay, hworker] at hway ⊢
    cases hpending : s.pending with
    | some tracks =>
      rw [hpending] at hway
      exact hway
    | none =>
      rw [hpending] at hway
      obtain ⟨rfl, hlevels⟩ := hway
      refine ⟨hlevels, fun htree => ?_⟩
      obtain ⟨graph, hbuilt⟩ := htree.graphOf starts
      rw [if_neg fun hrefused => by rw [hbuilt] at hrefused; exact Bool.noConfusion hrefused.2]

/-- What nothing was stored for is where it was. -/
theorem OnItsWay.of_levels {description : Description} (h : OnItsWay s description)
    (hlevels : s'.words.levels = s.words.levels) (hpending : s'.pending = s.pending)
    (hworker : s'.worker = s.worker) (hlive : s'.live = s.live) : OnItsWay s' description := by
  simp only [OnItsWay, hpending, hworker, hlive] at h ⊢
  split at h
  · exact h
  · refine ⟨h.1, fun index hindex => ?_⟩
    rw [Words.levels_after_congr hlevels]
    exact h.2 index hindex
  · exact ⟨fun index hindex => (congrFun hlevels index).trans (h.1 index hindex), h.2⟩

theorem Followed.others (h : Followed s) (hstep : stepOthers s l = some s') : Followed s' := by
  cases l with
  | handOver description =>
    obtain rfl := Option.some.inj hstep
    refine ⟨h.graph, fun last hlast => ?_⟩
    rw [List.getLast?_concat] at hlast
    obtain rfl := Option.some.inj hlast
    rfl
  | setActive channel value | setMixerTrack channel value =>
    obtain rfl := Option.some.inj hstep
    exact ⟨h.graph, fun last hlast => (h.last last hlast).of_levels rfl rfl rfl rfl⟩
  | take =>
    simp only [stepOthers] at hstep
    split at hstep
    next tracks hworker hpending =>
      obtain rfl := Option.some.inj hstep
      refine ⟨h.graph, fun last hlast => ?_⟩
      have hway := h.last last hlast
      simp only [OnItsWay, hpending] at hway ⊢
      subst hway
      exact ⟨rfl, hasLevels_after last s.words⟩
    · cases hstep
  | storeLevel =>
    simp only [stepOthers, wordsAfter] at hstep
    split at hstep
    next tracks store stores hworker =>
      obtain rfl := Option.some.inj hstep
      refine ⟨?_, fun last hlast => ?_⟩
      · obtain ⟨starts, hgraph⟩ := h.graph
        refine ⟨starts, Eq.trans ?_ hgraph⟩
        simp only [Words.store_graph]
      have hway := h.last last hlast
      simp only [OnItsWay, hworker] at hway ⊢
      revert hway
      cases s.pending with
      | some pending => exact id
      | none => exact id
    · cases hstep
  | finish starts =>
    have hfinish := hstep
    simp only [stepOthers] at hstep
    split at hstep
    next tracks hworker => exact h.finish hworker hfinish
    · cases hstep
  | _ => cases hstep

theorem Followed.step (h : Followed s) (hstep : system.step s l = some s') : Followed s' := by
  rcases Option.or_eq_some_iff.1 hstep with hothers | ⟨-, haudio⟩
  · exact h.others hothers
  · obtain ⟨hwords, hpending, hworker, hlive, hhanded⟩ := stepAudio_spec haudio
    refine ⟨hwords ▸ hlive ▸ h.graph, fun last hlast => ?_⟩
    have hlevels : s'.words.levels = s.words.levels := congrArg Words.levels hwords
    exact (h.last last (hhanded ▸ hlast)).of_levels hlevels hpending hworker hlive

theorem followed_init : Followed {} :=
  ⟨⟨fun _ => true, by decide⟩, fun _ hlast => by cases hlast⟩

/-- The words are what a description says, and its routing is a tree. -/
structure Describes (description : Description) (graph : Graph) (words : Words) : Prop where
  built : ∃ starts, graphOf starts (descs description.tracks) = some graph
  published : words.graph = some graph
  levels : ∀ index < graph.nodes.length, words.levels index = description.level index
  channels : ∀ channel < maxRack, words.channel channel = description.routes channel
  tree : IsTree (descs description.tracks)

/-- At rest the words are those of the last description. -/
theorem Followed.describes (h : Followed s) {description : Description}
    (hrest : AtRest s description) : ∃ graph, Describes description graph s.words := by
  obtain ⟨starts, hgraph⟩ := h.graph
  have hway := h.last description hrest.last
  simp only [OnItsWay, hrest.pending, hrest.worker] at hway
  obtain ⟨hlevels, hshapes⟩ := hway
  obtain ⟨graph, hbuilt⟩ := hrest.tree.graphOf starts
  rw [← graphOf_congr starts (hshapes hrest.tree)] at hgraph
  refine ⟨graph, ⟨starts, hbuilt⟩, hgraph.trans hbuilt, fun index hindex => ?_, hrest.channels,
    hrest.tree⟩
  refine hlevels index ?_
  rw [graphOf_length hbuilt, descs, List.length_take, List.length_map] at hindex
  rwa [List.length_take]

/-! ### A chunk under way -/

/-- What some channels have put on a bus. -/
def own (description : Description) (graph : Graph) (chunk : ℕ) (channels : List ℕ) (bus : ℕ) :
    Signal :=
  (channels.map fun channel =>
    if (description.routes channel).map graph.resolve = some bus then rendered chunk channel
    else 0).sum

/-- How far a chunk has come, after its first access. -/
def Underway (description : Description) (graph : Graph) (s : State) : Prop :=
  match s.audioPc with
  | .idle => True
  | .clearing acquired rest =>
    acquired = graph ∧ s.mix.device = 0 ∧
      ∀ a < graph.nodes.length, a ∉ rest → s.mix.buses a = 0
  | .rendering acquired rest =>
    acquired = graph ∧ s.mix.device = 0 ∧ ∃ done, List.range maxRack = done ++ rest ∧
      ∀ a < graph.nodes.length, s.mix.buses a = own description graph s.chunk done a
  | .reacquiring =>
    s.mix.device = 0 ∧ ∀ a < graph.nodes.length,
      s.mix.buses a = own description graph s.chunk (List.range maxRack) a
  | .summing acquired rest =>
    acquired = graph ∧ ∃ done buses, graph.order = done ++ rest ∧
      (∀ a < graph.nodes.length,
        buses a = own description graph s.chunk (List.range maxRack) a) ∧
      s.mix = flow graph.next (stages graph description.level) ⟨buses, 0⟩ done

/-- Every chunk that is done had one mixer, and the one under way has so far. -/
structure OneMixer (s : State) : Prop where
  finished : ∀ chunk ∈ s.finished, chunk.OneMixer s.handed
  underway : s.audioPc ≠ .idle → ∃ description ∈ s.handed, ∃ graph,
    Describes description graph s.words ∧ (∀ use ∈ s.used, use.Belongs description graph) ∧
      Underway description graph s

theorem Chunk.OneMixer.mono {chunk : Chunk} {handed handed' : List Description}
    (h : chunk.OneMixer handed) (hsub : handed ⊆ handed') : chunk.OneMixer handed' := by
  obtain ⟨description, hmem, hrest⟩ := h
  exact ⟨description, hsub hmem, hrest⟩

theorem own_concat (description : Description) (graph : Graph) (chunk : ℕ) (channels : List ℕ)
    (channel bus : ℕ) :
    own description graph chunk (channels ++ [channel]) bus =
      own description graph chunk channels bus +
        if (description.routes channel).map graph.resolve = some bus then rendered chunk channel
        else 0 := by
  simp [own]

/-- What a chunk gives in the end. -/
theorem device_summed {description : Description} {graph : Graph} {starts : EffectId → Bool}
    (hbuilt : graphOf starts (descs description.tracks) = some graph)
    (htree : IsTree (descs description.tracks)) {chunk : ℕ} {buses : ℕ → Signal}
    (hbuses : ∀ a < graph.nodes.length,
      buses a = own description graph chunk (List.range maxRack) a)
    {paths : ℕ → List ℕ} (hpaths : ∀ a < graph.nodes.length, Route graph.next a (paths a)) :
    (flow graph.next (stages graph description.level) ⟨buses, 0⟩ graph.order).device =
      ((List.range maxRack).map fun channel =>
        ((description.routes channel).map graph.resolve).elim 0 fun bus =>
          (stages graph description.level).along (paths bus) (rendered chunk channel)).sum := by
  obtain ⟨hinorder, hmem⟩ := order_spec hbuilt htree
  rw [device_flow hinorder fun a ha => hpaths a ((hmem a).1 ha), zero_add]
  rw [← sum_scattered hinorder.nodup (fun a => (stages graph description.level).along (paths a))
    (fun channel => (description.routes channel).map graph.resolve) (rendered chunk)]
  · refine congrArg List.sum (List.map_congr_left fun a ha => ?_)
    have hown := hbuses a ((hmem a).1 ha)
    exact congrArg ((stages graph description.level).along (paths a)) hown
  · intro channel _ bus hbus
    obtain ⟨track, -, rfl⟩ := Option.map_eq_some_iff.1 hbus
    exact (hmem _).2 (resolve_lt hbuilt track)

/-- The other threads leave the audio thread's state alone. -/
theorem stepOthers_spec (h : stepOthers s l = some s') :
    s'.words = wordsAfter s l ∧ s'.audioPc = s.audioPc ∧ s'.chunk = s.chunk ∧ s'.mix = s.mix ∧
      s'.used = s.used ∧ s'.finished = s.finished ∧ s.handed ⊆ s'.handed := by
  cases l with
  | handOver description =>
    obtain rfl := Option.some.inj h
    exact ⟨rfl, rfl, rfl, rfl, rfl, rfl, List.subset_append_left _ _⟩
  | setActive | setMixerTrack =>
    obtain rfl := Option.some.inj h
    exact ⟨rfl, rfl, rfl, rfl, rfl, rfl, List.Subset.refl _⟩
  | take | storeLevel | finish =>
    simp only [stepOthers] at h
    split at h
    · obtain rfl := Option.some.inj h
      exact ⟨rfl, rfl, rfl, rfl, rfl, rfl, List.Subset.refl _⟩
    · cases h
  | _ => cases h

theorem OneMixer.others (h : OneMixer s) (hstep : stepOthers s l = some s')
    (hundisturbed : Undisturbed s l) : OneMixer s' := by
  obtain ⟨hwords, hpc, hchunk, hmix, hused, hfinished, hhanded⟩ := stepOthers_spec hstep
  refine ⟨fun chunk hmem => (h.finished chunk (hfinished ▸ hmem)).mono hhanded, fun hne => ?_⟩
  rw [hpc] at hne
  obtain ⟨description, hmem, graph, hdescribes, hbelongs, hunderway⟩ := h.underway hne
  have hsame : s'.words = s.words := by
    have hquiet := hundisturbed.2
    rw [hwords]
    split at hquiet
    next hidle => exact absurd hidle hne
    · exact hquiet
  refine ⟨description, hhanded hmem, graph, hsame ▸ hdescribes, hused ▸ hbelongs, ?_⟩
  simp only [Underway, hpc, hchunk, hmix] at hunderway ⊢
  exact hunderway

/-! ### The steps of a chunk -/

/-- A bus that is cleared is empty. -/
theorem OneMixer.clear (h : OneMixer s) (hstep : stepAudio s .clear = some s') : OneMixer s' := by
  rw [stepAudio] at hstep
  split at hstep
  next acquired index rest hpc =>
    obtain rfl := Option.some.inj hstep
    obtain ⟨description, hmem, graph, hdescribes, hbelongs, hunderway⟩ :=
      h.underway (by simp [hpc])
    simp only [Underway, hpc] at hunderway
    obtain ⟨hgraph, hdevice, hcleared⟩ := hunderway
    refine ⟨h.finished, fun _ => ⟨description, hmem, graph, hdescribes, hbelongs, hgraph,
      hdevice, fun a ha hrest => ?_⟩⟩
    dsimp only
    by_cases hindex : a = index
    · rw [hindex, Function.update_self]
    · rw [Function.update_of_ne hindex]
      exact hcleared a ha (by simp [hindex, hrest])
  · cases hstep

/-- Then no channel has rendered yet. -/
theorem OneMixer.cleared (h : OneMixer s) (hstep : stepAudio s .cleared = some s') :
    OneMixer s' := by
  rw [stepAudio] at hstep
  split at hstep
  next acquired hpc =>
    obtain rfl := Option.some.inj hstep
    obtain ⟨description, hmem, graph, hdescribes, hbelongs, hunderway⟩ :=
      h.underway (by simp [hpc])
    simp only [Underway, hpc] at hunderway
    obtain ⟨hgraph, hdevice, hcleared⟩ := hunderway
    exact ⟨h.finished, fun _ => ⟨description, hmem, graph, hdescribes, hbelongs, hgraph,
      hdevice, [], rfl, fun a ha => hcleared a ha List.not_mem_nil⟩⟩
  · cases hstep

/-- A channel goes to the bus that its route says. -/
theorem OneMixer.render (h : OneMixer s) (hstep : stepAudio s .render = some s') :
    OneMixer s' := by
  rw [stepAudio] at hstep
  split at hstep
  next acquired channel rest hpc =>
    obtain rfl := Option.some.inj hstep
    obtain ⟨description, hmem, graph, hdescribes, hbelongs, hunderway⟩ :=
      h.underway (by simp [hpc])
    simp only [Underway, hpc] at hunderway
    obtain ⟨rfl, hdevice, done, hrange, hbuses⟩ := hunderway
    have hchannel : s.words.channel channel = description.routes channel := by
      refine hdescribes.channels channel (List.mem_range.1 ?_)
      rw [hrange]
      simp
    refine ⟨h.finished, fun _ => ⟨description, hmem, acquired, hdescribes, ?_, rfl, ?_,
      done ++ [channel], by rw [hrange, List.append_assoc]; rfl, fun a ha => ?_⟩⟩
    · exact List.forall_mem_append.2 ⟨hbelongs, List.forall_mem_singleton.2 hchannel⟩
    · dsimp only
      split <;> exact hdevice
    · -- the channel is on its own bus now, and on no other
      rw [own_concat, ← hbuses a ha, ← hchannel]
      cases s.words.channel channel with
      | none => simp
      | some track =>
        by_cases hbus : acquired.resolve track = a
        · simp [hbus]
        · simp [hbus, Function.update_of_ne (Ne.symm hbus)]
  · cases hstep

theorem OneMixer.allRendered (h : OneMixer s) (hstep : stepAudio s .allRendered = some s') :
    OneMixer s' := by
  rw [stepAudio] at hstep
  split at hstep
  next acquired hpc =>
    obtain rfl := Option.some.inj hstep
    obtain ⟨description, hmem, graph, hdescribes, hbelongs, hunderway⟩ :=
      h.underway (by simp [hpc])
    simp only [Underway, hpc] at hunderway
    obtain ⟨-, hdevice, done, hrange, hbuses⟩ := hunderway
    rw [List.append_nil] at hrange
    subst hrange
    exact ⟨h.finished, fun _ => ⟨description, hmem, graph, hdescribes, hbelongs, hdevice, hbuses⟩⟩
  · cases hstep

/-- The graph that is acquired again is the one from before. -/
theorem OneMixer.reacquire (h : OneMixer s) (hstep : stepAudio s .reacquire = some s') :
    OneMixer s' := by
  rw [stepAudio] at hstep
  split at hstep
  next acquired hpc hacquired =>
    obtain rfl := Option.some.inj hstep
    obtain ⟨description, hmem, graph, hdescribes, hbelongs, hunderway⟩ :=
      h.underway (by simp [hpc])
    simp only [Underway, hpc] at hunderway
    obtain ⟨hdevice, hbuses⟩ := hunderway
    obtain rfl := Option.some.inj (hacquired.symm.trans hdescribes.published)
    refine ⟨h.finished, fun _ => ⟨description, hmem, acquired, hdescribes, ?_, rfl, [],
      s.mix.buses, rfl, hbuses, ?_⟩⟩
    · exact List.forall_mem_append.2 ⟨hbelongs, List.forall_mem_singleton.2 rfl⟩
    · exact congrArg (Mix.mk s.mix.buses) hdevice
  · cases hstep

/-- A bus is summed at the level of its track. -/
theorem OneMixer.sum (h : OneMixer s) (hstep : stepAudio s .sum = some s') : OneMixer s' := by
  rw [stepAudio] at hstep
  split at hstep
  next acquired index rest hpc =>
    obtain rfl := Option.some.inj hstep
    obtain ⟨description, hmem, graph, hdescribes, hbelongs, hunderway⟩ :=
      h.underway (by simp [hpc])
    obtain ⟨starts, hbuilt⟩ := hdescribes.built
    simp only [Underway, hpc] at hunderway
    obtain ⟨rfl, done, buses, horder, hbuses, hmix⟩ := hunderway
    have hindex : index < acquired.nodes.length := by
      refine ((order_spec hbuilt hdescribes.tree).2 index).1 ?_
      rw [horder]
      simp
    have hlevel := hdescribes.levels index hindex
    refine ⟨h.finished, fun _ => ⟨description, hmem, acquired, hdescribes, ?_, rfl,
      done ++ [index], buses, by rw [horder, List.append_assoc]; rfl, hbuses, ?_⟩⟩
    · exact List.forall_mem_append.2 ⟨hbelongs, List.forall_mem_singleton.2 ⟨hindex, hlevel⟩⟩
    · dsimp only
      rw [hlevel, sumBus_eq hindex, hmix, flow, flow, List.foldl_append]
      rfl
  · cases hstep

/-- The chunk is done, and had one mixer. -/
theorem OneMixer.summed (h : OneMixer s) (hstep : stepAudio s .summed = some s') :
    OneMixer s' := by
  rw [stepAudio] at hstep
  split at hstep
  next acquired hpc =>
    obtain rfl := Option.some.inj hstep
    obtain ⟨description, hmem, graph, hdescribes, hbelongs, hunderway⟩ :=
      h.underway (by simp [hpc])
    obtain ⟨starts, hbuilt⟩ := hdescribes.built
    simp only [Underway, hpc] at hunderway
    obtain ⟨rfl, done, buses, horder, hbuses, hmix⟩ := hunderway
    rw [List.append_nil] at horder
    subst horder
    refine ⟨List.forall_mem_append.2 ⟨h.finished, List.forall_mem_singleton.2 ?_⟩,
      fun hidle => absurd rfl hidle⟩
    choose paths hpaths using fun a => exists_route (graphOf_next hbuilt ▸ hdescribes.tree.ends a)
    refine ⟨description, hmem, starts, acquired, hbuilt, hbelongs, paths, fun a _ => hpaths a, ?_⟩
    rw [hmix]
    exact device_summed hbuilt hdescribes.tree hbuses fun a _ => hpaths a
  · cases hstep

/-- A chunk that starts at rest starts in the mixer that is described. -/
theorem OneMixer.acquire (h : OneMixer s) (hfollowed : Followed s)
    (hstep : stepAudio s .acquire = some s') (hundisturbed : Undisturbed s .acquire) :
    OneMixer s' := by
  obtain ⟨description, hrest⟩ := hundisturbed.1 rfl
  obtain ⟨graph, hdescribes⟩ := hfollowed.describes hrest
  rw [stepAudio] at hstep
  split at hstep
  next acquired _ hacquired =>
    obtain rfl := Option.some.inj hstep
    obtain rfl := Option.some.inj (hacquired.symm.trans hdescribes.published)
    have hmem := List.mem_of_getLast? hrest.last
    refine ⟨h.finished, fun _ => ⟨description, hmem, acquired, hdescribes,
      List.forall_mem_singleton.2 rfl, rfl, rfl, fun a ha hrest => ?_⟩⟩
    exact absurd (List.mem_range.2 ha) hrest
  · cases hstep

/-- What is preserved, access by access. -/
theorem OneMixer.step (h : OneMixer s) (hfollowed : Followed s) (hstep : system.step s l = some s')
    (hundisturbed : Undisturbed s l) : OneMixer s' := by
  rcases Option.or_eq_some_iff.1 hstep with hothers | ⟨-, haudio⟩
  · exact h.others hothers hundisturbed
  · cases l with
    | acquire => exact h.acquire hfollowed haudio hundisturbed
    | clear => exact h.clear haudio
    | cleared => exact h.cleared haudio
    | render => exact h.render haudio
    | allRendered => exact h.allRendered haudio
    | reacquire => exact h.reacquire haudio
    | sum => exact h.sum haudio
    | summed => exact h.summed haudio
    | _ => cases haudio

/-! ### Whole runs -/

theorem followed_of_run {ls : List Label} (hrun : system.run {} ls = some s) : Followed s :=
  TransitionSystem.Reachable.invariant followed_init (fun _ _ _ h hstep => h.step hstep) ⟨ls, hrun⟩

/-- **Each rendered chunk uses one mixer**, in every run in which each chunk starts at rest, and in
which no store or publication changes the words under a chunk. -/
theorem oneMixer_of_run {ls : List Label} (hrun : system.run {} ls = some s)
    (hundisturbed : ∀ before l t, before ++ [l] <+: ls → system.run {} before = some t →
      Undisturbed t l) : ∀ chunk ∈ s.finished, chunk.OneMixer s.handed := by
  suffices h : OneMixer s from h.finished
  revert hundisturbed
  refine TransitionSystem.invariant (I := fun ls s => (∀ before l t, before ++ [l] <+: ls →
    system.run {} before = some t → Undisturbed t l) → OneMixer s) ?_ ?_ hrun
  · exact fun _ => ⟨fun _ h => absurd h List.not_mem_nil, fun h => absurd rfl h⟩
  · intro ls t l t' hrun ih hstep hundisturbed
    refine (ih fun before l t hpre => ?_).step (followed_of_run hrun) hstep
      (hundisturbed ls l t (List.prefix_refl _) hrun)
    exact hundisturbed before l t (hpre.trans (List.prefix_append _ _))

/-- One track at some level, and the first channel of the rack on it. -/
def oneTrack (level : TrackLevel) : Description where
  tracks := [⟨⟨.none, none, []⟩, level⟩]
  routes channel := if channel = 0 then some 0 else none

/-- The housekeeping thread's pass over one track, and the channel's bus. -/
def settle (level : TrackLevel) (rest : List Label) : List Label :=
  .handOver (oneTrack level) :: .setActive 0 true :: .setMixerTrack 0 0 :: .take :: .storeLevel ::
    .storeLevel :: .storeLevel :: .finish (fun _ => true) :: rest

/-- A whole chunk over some tracks. -/
def chunkLabels (tracks : ℕ) : List Label :=
  List.replicate tracks .clear ++ .cleared :: List.replicate maxRack .render ++
    .allRendered :: .reacquire :: List.replicate tracks .sum ++ [.summed]

/-- The rest of a chunk does not disturb it. -/
theorem undisturbed_of_audio (hl : l ∈ chunkLabels 1) : Undisturbed s l := by
  have hquiet : l ≠ .acquire ∧ wordsAfter s l = s.words := by
    simp only [chunkLabels, List.mem_append, List.mem_cons, List.mem_replicate, List.not_mem_nil,
      or_false] at hl
    rcases hl with ((⟨-, rfl⟩ | rfl | ⟨-, rfl⟩) | rfl | rfl | ⟨-, rfl⟩) | rfl <;>
      exact ⟨by simp, rfl⟩
  refine ⟨fun h => absurd h hquiet.1, ?_⟩
  split
  · trivial
  · exact hquiet.2

/-- Before the first chunk there is none to disturb. -/
theorem undisturbed_of_idle (hidle : s.audioPc = .idle) (hl : l ≠ .acquire) : Undisturbed s l := by
  refine ⟨fun h => absurd h hl, ?_⟩
  rw [hidle]
  trivial

/-- A chunk after a pass that is done. -/
theorem oneMixer_of_run_settled :
    ∃ s, system.run {} (settle ⟨1, 0, false⟩ (.acquire :: chunkLabels 1)) = some s ∧
      s.finished.length = 1 ∧ ∀ chunk ∈ s.finished, chunk.OneMixer s.handed := by
  have hdone : (system.run {} (settle ⟨1, 0, false⟩ (.acquire :: chunkLabels 1))).map
      (fun s => s.finished.length) = some 1 := by decide
  obtain ⟨s, hrun, hlength⟩ := Option.map_eq_some_iff.1 hdone
  refine ⟨s, hrun, hlength, oneMixer_of_run hrun ?_⟩
  rw [settle]
  iterate 8
    refine TransitionSystem.forall_steps_cons (undisturbed_of_idle rfl nofun) fun s' hs => ?_
    obtain rfl := Option.some.inj hs
  have htree : IsTree (descs (oneTrack ⟨1, 0, false⟩).tracks) :=
    ⟨by decide, fun a => .stop (by cases a <;> rfl)⟩
  refine TransitionSystem.forall_steps_cons
    ⟨fun _ => ⟨oneTrack ⟨1, 0, false⟩, rfl, rfl, rfl, ?_, htree⟩, trivial⟩ ?_
  · decide
  · intro s' _ before l t hpre _
    exact undisturbed_of_audio (hpre.subset (List.mem_append_right _ (List.mem_singleton_self l)))

/-- How many nodes the graphs that a chunk used had. -/
def Chunk.nodeCounts (chunk : Chunk) : List ℕ :=
  chunk.used.filterMap fun
    | .graph graph => some graph.nodes.length
    | _ => none

/-- Which of the tracks that a chunk used were muted. -/
def Chunk.mutes (chunk : Chunk) : List Bool :=
  chunk.used.filterMap fun
    | .level _ level => some level.muted
    | _ => none

/-- Two tracks, the first muted and before the master. -/
def twoTracks : Description where
  tracks := [⟨⟨⟨1⟩, some .none, []⟩, ⟨1, 0, true⟩⟩, ⟨⟨.none, none, []⟩, ⟨1, 0, false⟩⟩]
  routes channel := if channel = 0 then some 1 else none

/-- The first track of a pass is muted before its graph is there, and the chunk between them plays
the old graph at the new level. -/
theorem not_oneMixer_early : ¬∀ ls s, system.run {} ls = some s →
    ∀ chunk ∈ s.finished, chunk.OneMixer s.handed := by
  intro h
  have hdone : (system.run {} (settle ⟨1, 0, false⟩ (.handOver twoTracks :: .take :: .storeLevel ::
      .storeLevel :: .storeLevel :: .acquire :: chunkLabels 1))).map
        (fun s => s.finished.map fun chunk => (chunk.nodeCounts, chunk.mutes)) =
      some [([1, 1], [true])] := by decide
  obtain ⟨s, hrun, hfinished⟩ := Option.map_eq_some_iff.1 hdone
  have hhanded : s.handed = [oneTrack ⟨1, 0, false⟩, twoTracks] :=
    Option.some.inj ((congrArg (Option.map State.handed) hrun).symm.trans rfl)
  obtain ⟨chunk, rest, hchunks, hchunk, -⟩ := List.map_eq_cons_iff.1 hfinished
  obtain ⟨hcounts, hmutes⟩ := Prod.mk.inj hchunk
  obtain ⟨description, hmem, starts, graph, hbuilt, hbelongs, -⟩ :=
    h _ s hrun chunk (hchunks ▸ List.mem_cons_self ..)
  have hone : graph.nodes.length = 1 := by
    have hcount : 1 ∈ chunk.nodeCounts := hcounts ▸ List.mem_cons_self ..
    obtain ⟨use, huse, hnodes⟩ := List.mem_filterMap.1 hcount
    have hgraph := hbelongs use huse
    cases use with
    | graph used =>
      obtain rfl : used = graph := hgraph
      exact Option.some.inj hnodes
    | _ => cases hnodes
  have hmuted : (description.level 0).muted = true := by
    have htrue : true ∈ chunk.mutes := hmutes ▸ List.mem_cons_self ..
    obtain ⟨use, huse, hmuted⟩ := List.mem_filterMap.1 htrue
    have hlevel := hbelongs use huse
    cases use with
    | level index level =>
      obtain ⟨hindex, rfl⟩ : index < graph.nodes.length ∧ level = description.level index := hlevel
      obtain rfl : index = 0 := by omega
      exact Option.some.inj hmuted
    | _ => cases hmuted
  rw [graphOf_length hbuilt] at hone
  rw [hhanded] at hmem
  rcases List.mem_cons.1 hmem with rfl | hmem
  · exact absurd hmuted (by decide)
  · obtain rfl := List.mem_singleton.1 hmem
    exact absurd hone (by decide)

end OneBeat.ChunkMixer
