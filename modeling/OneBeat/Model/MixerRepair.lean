import OneBeat.Lib.PartialWalk
import OneBeat.Model.Loader

/-!
# The mixer after loading

However the outputs of a file's mixer tracks are spelled, the loader leaves one tree: one track
without an output, which all the others come to.

* `chosen_chooseMaster`, `routed_resolveOutputs` : what the first two passes leave.
* `feedsBack_eq` : a walk that counts its steps finds out whether it ends.
* `breakMixerCycles_spec` : each cycle is cut once, and walks that end stay what they were.

**Main theorem** (`repair_tree`): the three passes end, and leave a tree.
-/

namespace OneBeat

namespace Loader

variable {loader loader' : Loader} {id : MixerTrackId}

/-! ### Small steps -/

@[simp] theorem outputOf_warn (message : String) :
    (loader.warn message).outputOf = loader.outputOf := rfl

@[simp] theorem mixerTracks_warn (message : String) :
    (loader.warn message).mixerTracks = loader.mixerTracks := rfl

@[simp] theorem master_warn (message : String) : (loader.warn message).master = loader.master := rfl

@[simp] theorem pendingTrackOutput_warn (message : String) :
    (loader.warn message).pendingTrackOutput = loader.pendingTrackOutput := rfl

@[simp] theorem master_setOutput (output : MixerTrackId) :
    (loader.setOutput id output).master = loader.master := rfl

@[simp] theorem keys_setOutput (output : MixerTrackId) :
    (loader.setOutput id output).mixerTracks.keys = loader.mixerTracks.keys :=
  OrderedMap.keys_modify _ _ _

theorem outputOf_setOutput (hthere : loader.mixerTracks.contains id = true)
    (output : MixerTrackId) :
    (loader.setOutput id output).outputOf = Function.update loader.outputOf id (some output) := by
  funext other
  rw [outputOf, setOutput, OrderedMap.get?_modify]
  by_cases hid : other = id
  · subst hid
    obtain ⟨track, htrack⟩ := OrderedMap.contains_eq_true_iff.1 hthere
    rw [if_pos rfl, htrack, Function.update_self]
    rfl
  · rw [if_neg hid, Function.update_of_ne hid]
    rfl

theorem contains_iff_mem_keys : loader.mixerTracks.contains id = true ↔
    id ∈ loader.mixerTracks.keys := by
  rw [OrderedMap.contains_eq_true_iff, OrderedMap.mem_keys]

/-- A track with an output is there. -/
theorem mem_keys_of_outputOf {output : MixerTrackId} (h : loader.outputOf id = some output) :
    id ∈ loader.mixerTracks.keys := by
  obtain ⟨track, htrack, -⟩ := Option.bind_eq_some_iff.1 h
  exact OrderedMap.mem_keys.2 ⟨track, htrack⟩

/-! ### Reading -/

/-- The tracks as they have been read: none has an output yet, and what waits is theirs. -/
structure Read (loader : Loader) : Prop where
  unrouted : ∀ id, loader.outputOf id = none
  pending : ∀ id text, loader.pendingTrackOutput.get? id = some text →
    id ∈ loader.mixerTracks.keys

theorem Read.readMixerTrack (h : loader.Read) (record : TrackRecord) :
    (loader.readMixerTrack record).Read := by
  constructor
  · intro id
    have hunrouted := h.unrouted id
    rw [outputOf] at hunrouted
    rw [outputOf, Loader.readMixerTrack, OrderedMap.get?_emplace]
    split_ifs with hid
    · subst hid
      cases hheld : loader.mixerTracks.get? record.id with
      | none => rfl
      | some track => rwa [hheld] at hunrouted
    · exact hunrouted
  · intro id text htext
    have hkeys : id = record.id ∨ id ∈ loader.mixerTracks.keys := by
      rw [Loader.readMixerTrack] at htext
      dsimp only at htext
      split_ifs at htext with hempty
      · exact .inr (h.pending id text htext)
      · rw [OrderedMap.get?_emplace] at htext
        split_ifs at htext with hid
        · exact .inl hid
        · exact .inr (h.pending id text htext)
    rw [OrderedMap.mem_keys, Loader.readMixerTrack, OrderedMap.get?_emplace]
    split_ifs with hid
    · exact ⟨_, rfl⟩
    · exact OrderedMap.mem_keys.1 (hkeys.resolve_left hid)

theorem read_readMixerTracks (records : List TrackRecord) :
    (({} : Loader).readMixerTracks records).Read := by
  have hall : ∀ {loader : Loader}, loader.Read → (loader.readMixerTracks records).Read := by
    induction records with
    | nil => exact fun h => h
    | cons record records ih => exact fun h => ih (h.readMixerTrack record)
  exact hall ⟨fun _ => rfl, nofun⟩

/-! ### The master -/

/-- A master has been chosen: a track without an output, and without one that waits. -/
structure Chosen (loader loader' : Loader) : Prop where
  pending : loader'.pendingTrackOutput = loader.pendingTrackOutput
  mem_keys : ∀ id, id ∈ loader'.mixerTracks.keys ↔
    id ∈ loader.mixerTracks.keys ∨ id = loader'.master
  master_pending : loader.pendingTrackOutput.get? loader'.master = none
  root : loader'.outputOf loader'.master = none
  others : ∀ id ∈ loader'.mixerTracks.keys, loader.pendingTrackOutput.get? id = none →
    id ≠ loader'.master → loader'.outputOf id = some loader'.master

/-- The other tracks without an output get one. -/
theorem foldl_setOutput (master : MixerTrackId) (message : Loader → MixerTrackId → String)
    {roots : List MixerTrackId} (hroots : ∀ id ∈ roots, id ∈ loader.mixerTracks.keys) :
    let routed := roots.foldl
      (fun loader id => (loader.setOutput id master).warn (message loader id)) loader
    routed.mixerTracks.keys = loader.mixerTracks.keys ∧ routed.master = loader.master ∧
      routed.pendingTrackOutput = loader.pendingTrackOutput ∧
      ∀ id, routed.outputOf id = if id ∈ roots then some master else loader.outputOf id := by
  induction roots generalizing loader with
  | nil => simp
  | cons root roots ih =>
    obtain ⟨hroot, hroots⟩ := List.forall_mem_cons.1 hroots
    obtain ⟨hkeys, hmaster, hpending, houtput⟩ := @ih
      ((loader.setOutput root master).warn (message loader root)) (by simpa using hroots)
    refine ⟨by simpa using hkeys, hmaster, hpending, fun id => ?_⟩
    rw [List.foldl_cons, houtput, outputOf_warn,
      outputOf_setOutput (contains_iff_mem_keys.2 hroot)]
    by_cases hid : id = root
    · subst hid
      simp
    · rw [Function.update_of_ne hid]
      simp only [List.mem_cons, hid, false_or]

theorem chosen_chooseMaster (h : loader.Read) {minted : MixerTrackId}
    (hfresh : minted ∉ loader.mixerTracks.keys) : Chosen loader (loader.chooseMaster minted) := by
  have hroots : ∀ id, id ∈ loader.mixerTracks.keys.filter
      (fun id => !loader.pendingTrackOutput.contains id) ↔
        id ∈ loader.mixerTracks.keys ∧ loader.pendingTrackOutput.get? id = none := by
    intro id
    rw [List.mem_filter, Bool.not_eq_true', OrderedMap.contains_eq_false_iff]
  unfold chooseMaster
  cases hfound : loader.mixerTracks.keys.filter
    (fun id => !loader.pendingTrackOutput.contains id) with
  | nil =>
    -- a master is made, and stands beside the tracks that were read
    rw [hfound] at hroots
    have hnone : loader.mixerTracks.get? minted = none := by
      by_contra hheld
      exact hfresh (OrderedMap.mem_keys.2 (Option.ne_none_iff_exists'.1 hheld))
    have hpending : loader.pendingTrackOutput.get? minted = none := by
      by_contra hheld
      obtain ⟨text, htext⟩ := Option.ne_none_iff_exists'.1 hheld
      exact hfresh (h.pending minted text htext)
    have hget : ∀ id, (loader.mixerTracks.emplace minted { name := "Master" }).get? id =
        if id = minted then some { name := "Master" } else loader.mixerTracks.get? id := by
      intro id
      rw [OrderedMap.get?_emplace, hnone]
      split_ifs <;> rfl
    refine ⟨rfl, fun id => ?_, hpending, ?_, fun id hid hidle hne => ?_⟩
    · change id ∈ (loader.mixerTracks.emplace minted _).keys ↔ _ ∨ id = minted
      rw [OrderedMap.mem_keys, OrderedMap.mem_keys, hget]
      split_ifs with hid
      · exact iff_of_true ⟨_, rfl⟩ (.inr hid)
      · exact (or_iff_left hid).symm
    · change ((loader.mixerTracks.emplace minted _).get? minted).bind _ = none
      rw [hget, if_pos rfl]
      rfl
    · -- a track that waits for nothing would have been a root
      change id ∈ (loader.mixerTracks.emplace minted _).keys at hid
      change id ≠ minted at hne
      rw [OrderedMap.mem_keys, hget, if_neg hne, ← OrderedMap.mem_keys] at hid
      exact absurd ((hroots id).2 ⟨hid, hidle⟩) List.not_mem_nil
  | cons master roots =>
    -- the first root is the master, and the later ones go to it
    rw [hfound] at hroots
    dsimp only
    obtain ⟨hkeys, hmaster, hpending, houtput⟩ := @foldl_setOutput { loader with master } master
      (fun loader id => "Mixer track '" ++ loader.trackName id ++
        "' had no output; routed to the master.") roots
      fun id hid => ((hroots id).1 (List.mem_cons_of_mem _ hid)).1
    have hnot : master ∉ roots := by
      have hnodup := (OrderedMap.nodup_keys loader.mixerTracks).filter
        fun id => !loader.pendingTrackOutput.contains id
      rw [hfound] at hnodup
      exact (List.nodup_cons.1 hnodup).1
    obtain ⟨hthere, hmaster_pending⟩ := (hroots master).1 List.mem_cons_self
    refine ⟨hpending, fun id => ?_, ?_, ?_, fun id hid hidle hne => ?_⟩
    · rw [hkeys, hmaster, or_iff_left_of_imp fun hid => ?_]
      exact hid ▸ hthere
    · rw [hmaster]
      exact hmaster_pending
    · rw [hmaster, houtput, if_neg hnot]
      exact h.unrouted master
    · rw [hmaster] at hne ⊢
      rw [hkeys] at hid
      have hroot := (List.mem_cons.1 ((hroots id).2 ⟨hid, hidle⟩)).resolve_left hne
      rw [houtput, if_pos hroot]

/-! ### Outputs -/

/-- One track has no output, and the others go to one that is there. -/
structure Routed (loader : Loader) : Prop where
  master : loader.master ∈ loader.mixerTracks.keys
  root : loader.outputOf loader.master = none
  others : ∀ id ∈ loader.mixerTracks.keys, id ≠ loader.master →
    ∃ output, loader.outputOf id = some output ∧ output ∈ loader.mixerTracks.keys

/-- The loader has changed outputs only. -/
structure SameTracks (loader loader' : Loader) : Prop where
  keys : loader'.mixerTracks.keys = loader.mixerTracks.keys
  master : loader'.master = loader.master
  pending : loader'.pendingTrackOutput = loader.pendingTrackOutput

theorem SameTracks.trans {loader'' : Loader} (h : SameTracks loader loader')
    (h' : SameTracks loader' loader'') : SameTracks loader loader'' :=
  ⟨h'.keys.trans h.keys, h'.master.trans h.master, h'.pending.trans h.pending⟩

/-- What looking a text up does: nothing but report. -/
theorem sameTracks_reference (K : EntityKind) (text owner field : String) :
    SameTracks loader (loader.reference K text owner field).1 ∧
      (loader.reference K text owner field).1.outputOf = loader.outputOf := by
  unfold reference
  split_ifs
  · exact ⟨⟨rfl, rfl, rfl⟩, rfl⟩
  · cases TypedId.parse K text <;> exact ⟨⟨rfl, rfl, rfl⟩, rfl⟩

theorem resolveOutput_spec (hid : id ∈ loader.mixerTracks.keys)
    (hmaster : loader.master ∈ loader.mixerTracks.keys) :
    SameTracks loader (loader.resolveOutput id) ∧
      (loader.pendingTrackOutput.get? id = none →
        (loader.resolveOutput id).outputOf = loader.outputOf) ∧
      (loader.pendingTrackOutput.get? id ≠ none → id ≠ loader.master →
        ∃ output ∈ loader.mixerTracks.keys,
          (loader.resolveOutput id).outputOf = Function.update loader.outputOf id (some output)) := by
  unfold resolveOutput
  cases hpending : loader.pendingTrackOutput.get? id with
  | none => exact ⟨⟨rfl, rfl, rfl⟩, fun _ => rfl, fun h => absurd rfl h⟩
  | some text =>
    obtain ⟨hsame, houtput⟩ := @sameTracks_reference loader .mixerTrack text
      ("Mixer track '" ++ loader.trackName id ++ "'") "output"
    dsimp only
    set found := loader.reference .mixerTrack text
      ("Mixer track '" ++ loader.trackName id ++ "'") "output" with hfound
    have hthere : found.1.mixerTracks.contains id = true := by
      rw [contains_iff_mem_keys, hsame.keys]
      exact hid
    cases hchosen : found.2.filter fun output =>
      found.1.mixerTracks.contains output && output ≠ id with
    | some output =>
      obtain ⟨-, hkeep⟩ := Option.filter_eq_some_iff.1 hchosen
      rw [Bool.and_eq_true, contains_iff_mem_keys, hsame.keys] at hkeep
      refine ⟨hsame.trans ⟨keys_setOutput _, rfl, rfl⟩, fun h => absurd h (Option.some_ne_none _),
        fun _ _ => ⟨output, hkeep.1, ?_⟩⟩
      dsimp only
      rw [outputOf_setOutput hthere, houtput]
    | none =>
      dsimp only
      split_ifs with hne
      · refine ⟨hsame.trans ⟨keys_setOutput _, rfl, rfl⟩, False.elim, fun _ _ =>
          ⟨loader.master, hmaster, ?_⟩⟩
        rw [outputOf_setOutput (by simpa using hthere), outputOf_warn, houtput, master_warn,
          hsame.master]
      · refine ⟨hsame.trans ⟨rfl, rfl, rfl⟩, False.elim, fun _ hne' => absurd ?_ hne'⟩
        rw [master_warn, hsame.master] at hne
        exact not_not.1 hne

/-- The outputs of some tracks have been resolved. -/
theorem foldl_resolveOutput {ids : List MixerTrackId}
    (hids : ∀ id ∈ ids, id ∈ loader.mixerTracks.keys)
    (hmaster : loader.master ∈ loader.mixerTracks.keys)
    (hpending : loader.pendingTrackOutput.get? loader.master = none) :
    let resolved := ids.foldl resolveOutput loader
    SameTracks loader resolved ∧
      (∀ id, loader.pendingTrackOutput.get? id = none →
        resolved.outputOf id = loader.outputOf id) ∧
      (∀ id, (∃ output ∈ loader.mixerTracks.keys, loader.outputOf id = some output) →
        ∃ output ∈ loader.mixerTracks.keys, resolved.outputOf id = some output) ∧
      ∀ id ∈ ids, loader.pendingTrackOutput.get? id ≠ none →
        ∃ output ∈ loader.mixerTracks.keys, resolved.outputOf id = some output := by
  induction ids generalizing loader with
  | nil => exact ⟨⟨rfl, rfl, rfl⟩, fun _ _ => rfl, fun _ h => h, nofun⟩
  | cons id ids ih =>
    obtain ⟨hid, hids⟩ := List.forall_mem_cons.1 hids
    obtain ⟨hthis, hidle, hwaits⟩ := resolveOutput_spec hid hmaster
    obtain ⟨hlater, hidle', hkept, hdone⟩ := @ih (loader.resolveOutput id)
      (by rwa [hthis.keys]) (by rwa [hthis.keys, hthis.master])
      (by rwa [hthis.pending, hthis.master])
    rw [hthis.keys] at hkept hdone
    rw [hthis.pending] at hidle' hdone
    -- what the first of them has done, and who was left alone by it
    have hfirst : ∀ other, (∃ output ∈ loader.mixerTracks.keys,
          (loader.resolveOutput id).outputOf = Function.update loader.outputOf id (some output)) ∨
        (loader.resolveOutput id).outputOf other = loader.outputOf other := by
      intro other
      by_cases hpending' : loader.pendingTrackOutput.get? id = none
      · exact .inr (by rw [hidle hpending'])
      · exact .inl (hwaits hpending' fun heq => hpending' (heq ▸ hpending))
    refine ⟨hthis.trans hlater, fun other hother => ?_, fun other hother => hkept other ?_,
      List.forall_mem_cons.2 ⟨fun hpending' => ?_, hdone⟩⟩
    · rw [List.foldl_cons, hidle' other hother]
      by_cases hpending' : loader.pendingTrackOutput.get? id = none
      · rw [hidle hpending']
      · obtain ⟨output, -, hupdate⟩ := hwaits hpending' fun heq => hpending' (heq ▸ hpending)
        have hne : other ≠ id := fun heq => hpending' (heq ▸ hother)
        rw [hupdate, Function.update_of_ne hne]
    · rcases hfirst other with ⟨output, houtput, hupdate⟩ | hsame
      · by_cases hother' : other = id
        · exact ⟨output, houtput, by rw [hupdate, hother', Function.update_self]⟩
        · rw [hupdate, Function.update_of_ne hother']
          exact hother
      · rw [hsame]
        exact hother
    · obtain ⟨output, houtput, hupdate⟩ := hwaits hpending' fun heq => hpending' (heq ▸ hpending)
      exact hkept id ⟨output, houtput, by rw [hupdate, Function.update_self]⟩

theorem routed_resolveOutputs (h : Chosen loader loader') : Routed loader'.resolveOutputs ∧
    SameTracks loader' loader'.resolveOutputs := by
  have hmaster : loader'.master ∈ loader'.mixerTracks.keys := (h.mem_keys _).2 (.inr rfl)
  have hpending : loader'.pendingTrackOutput.get? loader'.master = none := by
    rw [h.pending]
    exact h.master_pending
  obtain ⟨hsame, hidle, -, hdone⟩ := foldl_resolveOutput (fun _ hid => hid) hmaster hpending
  refine ⟨⟨?_, ?_, fun id hid hne => ?_⟩, hsame⟩
  · rw [resolveOutputs, hsame.keys, hsame.master]
    exact hmaster
  · rw [resolveOutputs, hsame.master, hidle _ hpending]
    exact h.root
  · rw [resolveOutputs, hsame.keys] at hid
    rw [resolveOutputs, hsame.master] at hne
    by_cases hwaits : loader'.pendingTrackOutput.get? id = none
    · refine ⟨loader'.master, ?_, ?_⟩
      · rw [resolveOutputs, hidle _ hwaits]
        exact h.others id hid (h.pending ▸ hwaits) hne
      · rw [resolveOutputs, hsame.keys]
        exact hmaster
    · obtain ⟨output, houtput, hout⟩ := hdone id hid hwaits
      exact ⟨output, hout, by rwa [resolveOutputs, hsame.keys]⟩

/-! ### Walks -/

/-- A walk that ends is over before it has made as many steps as there are tracks. -/
theorem feedsBack_of_ends {walker : MixerTrackId} (h : Ends loader.outputOf walker) {fuel : ℕ}
    {seen : List MixerTrackId} (hnodup : seen.Nodup) (hseen : seen ⊆ loader.mixerTracks.keys)
    (hleads : ∀ s ∈ seen, Leads loader.outputOf s walker)
    (hid : id = walker ∨ Leads loader.outputOf id walker)
    (hfuel : loader.mixerTracks.size < seen.length + fuel) :
    loader.feedsBack id fuel seen.length walker = some false := by
  induction h generalizing fuel seen with
  | @stop walker hnone =>
    have hlength := (hnodup.subperm hseen).length_le
    rw [OrderedMap.length_keys] at hlength
    obtain ⟨fuel, rfl⟩ := Nat.exists_eq_succ_of_ne_zero (show fuel ≠ 0 by omega)
    rw [feedsBack, hnone]
  | @step walker output houtput hends ih =>
    have hnew : walker ∉ seen := fun hmem =>
      (Ends.step houtput hends).not_leads_self (hleads walker hmem)
    have hnodup' : (walker :: seen).Nodup := List.nodup_cons.2 ⟨hnew, hnodup⟩
    have hseen' : walker :: seen ⊆ loader.mixerTracks.keys :=
      List.cons_subset.2 ⟨mem_keys_of_outputOf houtput, hseen⟩
    have hlength := (hnodup'.subperm hseen').length_le
    rw [OrderedMap.length_keys, List.length_cons] at hlength
    obtain ⟨fuel, rfl⟩ := Nat.exists_eq_succ_of_ne_zero (show fuel ≠ 0 by omega)
    have hleads_output : Leads loader.outputOf id output := by
      rcases hid with rfl | hid
      · exact .single houtput
      · exact hid.tail houtput
    have hne : output ≠ id := fun heq => hends.not_leads_self (by
      rw [← heq] at hleads_output
      exact hleads_output)
    rw [feedsBack, houtput]
    dsimp only
    rw [if_neg (not_or.2 ⟨hne, by omega⟩)]
    refine ih hnodup' hseen' (List.forall_mem_cons.2 ⟨.single houtput, fun s hs =>
      (hleads s hs).tail houtput⟩) (.inr hleads_output) ?_
    rw [List.length_cons]
    omega

/-- One that does not is cut short. -/
theorem feedsBack_of_not_ends {fuel steps : ℕ} {walker : MixerTrackId}
    (h : ¬Ends loader.outputOf walker) (hsteps : steps ≤ loader.mixerTracks.size)
    (hfuel : loader.mixerTracks.size < steps + fuel) :
    loader.feedsBack id fuel steps walker = some true := by
  induction fuel generalizing steps walker with
  | zero => omega
  | succ fuel ih =>
    cases houtput : loader.outputOf walker with
    | none => exact absurd (.stop houtput) h
    | some output =>
      rw [feedsBack, houtput]
      dsimp only
      split_ifs with hback
      · rfl
      · exact ih (fun hends => h (.step houtput hends)) (by omega) (by omega)

/-- **Counting steps tells whether a walk ends.** -/
theorem feedsBack_eq (loader : Loader) (id : MixerTrackId) :
    loader.feedsBack id (loader.mixerTracks.size + 1) 0 id = some true ∧
        ¬Ends loader.outputOf id ∨
      loader.feedsBack id (loader.mixerTracks.size + 1) 0 id = some false ∧
        Ends loader.outputOf id := by
  by_cases h : Ends loader.outputOf id
  · exact .inr ⟨feedsBack_of_ends h List.nodup_nil (List.nil_subset _) nofun (.inl rfl) (by simp), h⟩
  · exact .inl ⟨feedsBack_of_not_ends h (Nat.zero_le _) (by omega), h⟩

/-! ### Cycles -/

theorem Routed.sameTracks (h : Routed loader) (hsame : SameTracks loader loader')
    (houtput : loader'.outputOf = loader.outputOf ∨ ∃ id ≠ loader.master,
      loader'.outputOf = Function.update loader.outputOf id (some loader.master)) :
    Routed loader' := by
  refine ⟨by rw [hsame.keys, hsame.master]; exact h.master, ?_, fun other hother hne => ?_⟩
  · rw [hsame.master]
    rcases houtput with heq | ⟨id, hid, heq⟩
    · rw [heq, h.root]
    · rw [heq, Function.update_of_ne hid.symm, h.root]
  · rw [hsame.keys] at hother ⊢
    rw [hsame.master] at hne
    rcases houtput with heq | ⟨id, -, heq⟩
    · rw [heq]
      exact h.others other hother hne
    · rw [heq]
      by_cases hid : other = id
      · exact ⟨loader.master, by rw [hid, Function.update_self], h.master⟩
      · rw [Function.update_of_ne hid]
        exact h.others other hother hne

/-- One track: its walk ends now, and walks that ended are what they were. -/
theorem breakMixerCycle_spec (h : Routed loader) (hid : id ∈ loader.mixerTracks.keys) :
    ∃ broken, loader.breakMixerCycle id = some broken ∧ SameTracks loader broken ∧
      Routed broken ∧ Ends broken.outputOf id ∧
      ∀ other, Ends loader.outputOf other →
        broken.outputOf other = loader.outputOf other ∧ Ends broken.outputOf other := by
  have hmaster : Ends loader.outputOf loader.master := .stop h.root
  rcases feedsBack_eq loader id with ⟨hback, hnot⟩ | ⟨hback, hends⟩
  · have hne : id ≠ loader.master := fun heq => hnot (heq ▸ hmaster)
    set broken := (loader.warn ("Mixer track '" ++ loader.trackName id ++
      "' fed back into itself; routed to the master.")).setOutput id loader.master with hbroken
    have houtput : broken.outputOf = Function.update loader.outputOf id (some loader.master) :=
      outputOf_setOutput (contains_iff_mem_keys.2 hid) _
    have hsame : SameTracks loader broken := ⟨keys_setOutput _, rfl, rfl⟩
    refine ⟨broken, ?_, hsame, h.sameTracks hsame (.inr ⟨id, hne, houtput⟩), ?_,
      fun other hother => ?_⟩
    · rw [breakMixerCycle, hback]
      rfl
    · rw [houtput]
      exact ends_update_self hnot hmaster
    · have hother' : other ≠ id := fun heq => hnot (heq ▸ hother)
      rw [houtput]
      exact ⟨Function.update_of_ne hother' _ _, hother.update hnot _⟩
  · refine ⟨loader, ?_, ⟨rfl, rfl, rfl⟩, h, hends, fun other hother => ⟨rfl, hother⟩⟩
    rw [breakMixerCycle, hback]
    rfl

/-- **Every cycle is cut, and walks that end stay what they were.** -/
theorem breakMixerCycles_spec (h : Routed loader) {ids : List MixerTrackId}
    (hids : ∀ id ∈ ids, id ∈ loader.mixerTracks.keys) :
    ∃ broken, ids.foldlM breakMixerCycle loader = some broken ∧ SameTracks loader broken ∧
      Routed broken ∧ (∀ id ∈ ids, Ends broken.outputOf id) ∧
      ∀ other, Ends loader.outputOf other →
        broken.outputOf other = loader.outputOf other ∧ Ends broken.outputOf other := by
  induction ids generalizing loader with
  | nil => exact ⟨loader, rfl, ⟨rfl, rfl, rfl⟩, h, nofun, fun other hother => ⟨rfl, hother⟩⟩
  | cons id ids ih =>
    obtain ⟨hid, hids⟩ := List.forall_mem_cons.1 hids
    obtain ⟨between, hbetween, hthis, hrouted, hends, hkept⟩ := breakMixerCycle_spec h hid
    obtain ⟨broken, hbroken, hlater, hrouted', hends', hkept'⟩ :=
      @ih between hrouted (by rwa [hthis.keys])
    refine ⟨broken, ?_, hthis.trans hlater, hrouted',
      List.forall_mem_cons.2 ⟨(hkept' id hends).2, hends'⟩, fun other hother => ?_⟩
    · rw [List.foldlM_cons, hbetween]
      exact hbroken
    · obtain ⟨hsame, hother'⟩ := hkept other hother
      obtain ⟨hsame', hother''⟩ := hkept' other hother'
      exact ⟨hsame'.trans hsame, hother''⟩

/-! ### The tree -/

theorem Routed.mem_keys_of_leads (h : Routed loader) {a b : MixerTrackId}
    (ha : a ∈ loader.mixerTracks.keys) (hlead : Leads loader.outputOf a b) :
    b ∈ loader.mixerTracks.keys := by
  have hstep : ∀ {a b}, a ∈ loader.mixerTracks.keys → loader.outputOf a = some b →
      b ∈ loader.mixerTracks.keys := by
    intro a b ha hab
    have hne : a ≠ loader.master := fun heq => by
      rw [heq, h.root] at hab
      cases hab
    obtain ⟨output, houtput, hmem⟩ := h.others a ha hne
    rwa [← Option.some.inj (houtput.symm.trans hab)]
  induction hlead with
  | single hab => exact hstep ha hab
  | tail _ hbc ih => exact hstep ih hbc

/-- A walk that ends, ends at the master. -/
theorem Routed.comes_to_master (h : Routed loader) (hid : id ∈ loader.mixerTracks.keys)
    (hends : Ends loader.outputOf id) :
    id = loader.master ∨ Leads loader.outputOf id loader.master := by
  obtain ⟨last, hlast, hleads⟩ := hends.exists_last
  have hmem : last ∈ loader.mixerTracks.keys :=
    hleads.elim (fun heq => heq ▸ hid) (h.mem_keys_of_leads hid)
  have hmaster : last = loader.master := by
    by_contra hne
    obtain ⟨output, houtput, -⟩ := h.others last hmem hne
    rw [hlast] at houtput
    cases houtput
  rw [← hmaster]
  exact hleads.imp_left Eq.symm

/-- **Loading leaves one tree.**  Whatever outputs the file spells, the repair ends; one track has no
output; every track comes to it; and what came to it before cycles were cut goes where it did. -/
theorem repair_tree (records : List TrackRecord) {minted : MixerTrackId}
    (hfresh : minted ∉ (({} : Loader).readMixerTracks records).mixerTracks.keys) :
    let resolved := ((({} : Loader).readMixerTracks records).chooseMaster minted).resolveOutputs
    ∃ repaired, resolved.breakMixerCycles = some repaired ∧
      repaired.master = resolved.master ∧
      (∀ id, id ∈ repaired.mixerTracks.keys ↔
        id ∈ (({} : Loader).readMixerTracks records).mixerTracks.keys ∨ id = repaired.master) ∧
      (∀ id, id ∈ repaired.mixerTracks.keys ∧ repaired.outputOf id = none ↔
        id = repaired.master) ∧
      (∀ id ∈ repaired.mixerTracks.keys,
        id = repaired.master ∨ Leads repaired.outputOf id repaired.master) ∧
      ∀ id, Leads resolved.outputOf id resolved.master →
        repaired.outputOf id = resolved.outputOf id := by
  intro resolved
  have hchosen := chosen_chooseMaster (read_readMixerTracks records) hfresh
  obtain ⟨hrouted, hresolved⟩ := routed_resolveOutputs hchosen
  obtain ⟨repaired, hrepaired, hsame, hrouted', hends, hkept⟩ :=
    breakMixerCycles_spec hrouted fun _ hid => hid
  refine ⟨repaired, hrepaired, hsame.master, fun id => ?_, fun id => ⟨fun ⟨hid, hnone⟩ => ?_, ?_⟩,
    fun id hid => ?_, fun id hleads => ?_⟩
  · rw [hsame.keys, hsame.master, hresolved.keys, hresolved.master]
    exact hchosen.mem_keys id
  · by_contra hne
    obtain ⟨output, houtput, -⟩ := hrouted'.others id hid hne
    rw [hnone] at houtput
    cases houtput
  · rintro rfl
    exact ⟨hrouted'.master, hrouted'.root⟩
  · exact hrouted'.comes_to_master hid (hends id (hsame.keys ▸ hid))
  · exact (hkept id (hleads.ends (.stop hrouted.root))).1

/-- Two tracks that feed each other, in a file without a master. -/
def feedingBack : List TrackRecord :=
  [⟨⟨2⟩, { name := "Drums" }, (TypedId.mk 3 : MixerTrackId).str⟩,
    ⟨⟨3⟩, { name := "Room" }, (TypedId.mk 2 : MixerTrackId).str⟩]

theorem repair_tree_feedingBack :
    ∃ repaired, ((({} : Loader).readMixerTracks feedingBack).chooseMaster
        ⟨4⟩).resolveOutputs.breakMixerCycles = some repaired ∧
      ∀ id ∈ repaired.mixerTracks.keys,
        id = repaired.master ∨ Leads repaired.outputOf id repaired.master := by
  have hfresh : (⟨4⟩ : MixerTrackId) ∉
      (({} : Loader).readMixerTracks feedingBack).mixerTracks.keys := by decide +kernel
  obtain ⟨repaired, hrepaired, -, -, -, htree, -⟩ := repair_tree feedingBack hfresh
  exact ⟨repaired, hrepaired, htree⟩

end Loader

end OneBeat
