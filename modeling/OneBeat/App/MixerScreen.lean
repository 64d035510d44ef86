import OneBeat.Model.Entities

/-!
# The mixer screen

`features/mixer/mixer_binding.dart`: beside the copy of the model that `build` reads again when the
model has changed, the screen keeps what its own actions set, and shows that instead.  Every strip
has its flags and its gain; the narrowing of a gain to `float` is a parameter.

* `Sound` : what the screen keeps is what the model has;
* `run_agrees` : **what is shown is the model, and an action negates what was shown**, as long as
  every step is one that the screen follows (`Follows`).
-/

namespace OneBeat

/-- What a strip shows. -/
structure StripFlags where
  muted : Bool := false
  soloed : Bool := false
  gain : ℚ := 1
  deriving DecidableEq

/-- The instruments with their flags, and the master track. -/
structure MixerModel where
  strips : List (InstrumentId × StripFlags) := []
  master : Option StripFlags := none

/-- The screen on its model; `shown` is what `build` has made last. -/
structure MixerScreen where
  model : MixerModel
  revision : ℕ := 0
  cached : MixerModel := {}
  cachedRevision : Option ℕ := none
  mutedIds : List InstrumentId := []
  soloedIds : List InstrumentId := []
  faders : InstrumentId → Option ℚ := fun _ => none
  masterFader : ℚ := 3 / 4
  masterMuted : Bool := false
  masterSoloed : Bool := false
  shown : List (InstrumentId × StripFlags) := []
  shownMaster : StripFlags := {}

/-- The model with the flags of an instrument changed. -/
def MixerModel.editStrip (model : MixerModel) (id : InstrumentId) (f : StripFlags → StripFlags) :
    MixerModel :=
  { model with strips := model.strips.map fun strip =>
      if strip.1 = id then (strip.1, f strip.2) else strip }

def MixerModel.editMaster (model : MixerModel) (f : StripFlags → StripFlags) : MixerModel :=
  { model with master := model.master.map f }

namespace MixerScreen

def clamped (low high gain : ℚ) : ℚ := max low (min high gain)

variable (narrow : ℚ → ℚ) (s : MixerScreen)

/-- A call of the client, or an edit from elsewhere. -/
def edit (model : MixerModel) : MixerScreen := { s with model, revision := s.revision + 1 }

def setInstrumentMuted (id : InstrumentId) (muted : Bool) : MixerScreen :=
  s.edit (s.model.editStrip id ({ · with muted }))

def setInstrumentSoloed (id : InstrumentId) (soloed : Bool) : MixerScreen :=
  s.edit (s.model.editStrip id ({ · with soloed }))

def setInstrumentGain (id : InstrumentId) (gain : ℚ) : MixerScreen :=
  s.edit (s.model.editStrip id ({ · with gain := clamped 0 2 (narrow gain) }))

/-! ### What is shown -/

def stripVm (strip : InstrumentId × StripFlags) : InstrumentId × StripFlags :=
  (strip.1,
    { muted := s.mutedIds.contains strip.1 || strip.2.muted
      soloed := s.soloedIds.contains strip.1 || strip.2.soloed
      gain := (s.faders strip.1).getD (clamped 0 1 strip.2.gain) })

def masterVm : StripFlags :=
  match s.cached.master with
  | none => { muted := s.masterMuted, soloed := s.masterSoloed, gain := s.masterFader }
  | some master =>
    { master with gain := if s.masterFader = 3 / 4 then clamped 0 1 master.gain else s.masterFader }

def refreshModelIfStale : MixerScreen :=
  if s.cachedRevision = some s.revision then s
  else { s with cached := s.model, cachedRevision := some s.revision }

def build : MixerScreen :=
  let fresh := s.refreshModelIfStale
  { fresh with shown := fresh.cached.strips.map fresh.stripVm, shownMaster := fresh.masterVm }

/-! ### Actions -/

def unsolo (but : Option InstrumentId) (strip : InstrumentId × StripFlags) : MixerScreen :=
  if some strip.1 ≠ but ∧ strip.2.soloed then s.setInstrumentSoloed strip.1 false else s

/-- Unsolo all instruments that the copy has soloed, but one. -/
def unsoloOthers (but : Option InstrumentId) : MixerScreen :=
  s.cached.strips.foldl (fun t strip => t.unsolo but strip) s

/-- A strip by its place; no place is the master. -/
def onToggleMute : Option ℕ → MixerScreen
  | none =>
    match s.cached.master with
    | none => { s with masterMuted := !s.masterMuted }
    | some master =>
      { s with masterMuted := !master.muted }.edit
        (s.model.editMaster ({ · with muted := !master.muted }))
  | some index =>
    match s.cached.strips[index]? with
    | none => s
    | some (id, _) =>
      if s.mutedIds.contains id then
        { s with mutedIds := s.mutedIds.filter (· ≠ id) }.setInstrumentMuted id false
      else { s with mutedIds := id :: s.mutedIds }.setInstrumentMuted id true

def onToggleSolo : Option ℕ → MixerScreen
  | none =>
    let next := !(s.cached.master.map StripFlags.soloed).getD s.masterSoloed
    let set := if next then { s with masterSoloed := true, soloedIds := [] }.unsoloOthers none
      else { s with masterSoloed := false }
    if s.cached.master.isSome then set.edit (set.model.editMaster ({ · with soloed := next }))
    else set
  | some index =>
    match s.cached.strips[index]? with
    | none => s
    | some (id, flags) =>
      if s.soloedIds.contains id || flags.soloed then
        { s with soloedIds := s.soloedIds.filter (· ≠ id) }.setInstrumentSoloed id false
      else
        let only := { s with soloedIds := [id], masterSoloed := false }
        let master := if (s.cached.master.map StripFlags.soloed).getD false then
            only.edit (s.model.editMaster ({ · with soloed := false }))
          else only
        (master.unsoloOthers (some id)).setInstrumentSoloed id true

def onFader (value : ℚ) : Option ℕ → MixerScreen
  | none =>
    let set := { s with masterFader := value }
    if s.cached.master.isSome ∧ 0 ≤ value then
      set.edit (s.model.editMaster ({ · with gain := narrow value }))
    else set
  | some index =>
    match s.cached.strips[index]? with
    | none => s
    | some (id, _) =>
      let faders := Function.update s.faders id (some value)
      { s with faders }.setInstrumentGain narrow id value

inductive Action
  | toggleMute (strip : Option ℕ)
  | toggleSolo (strip : Option ℕ)
  | fader (strip : Option ℕ) (value : ℚ)
  /-- Anything that is edited elsewhere. -/
  | elsewhere (model : MixerModel)
  | rebuild

def act : Action → MixerScreen
  | .toggleMute strip => s.onToggleMute strip
  | .toggleSolo strip => s.onToggleSolo strip
  | .fader strip value => s.onFader narrow value strip
  | .elsewhere model => s.edit model
  | .rebuild => s.build

/-! ### Agreement -/

/-- What a flag or a fader of a strip shows of the model. -/
def shownOf (flags : StripFlags) : StripFlags := { flags with gain := clamped 0 1 flags.gain }

/-- The model has, where it has the instrument, the negation of what was shown of it. -/
def Negated (field : StripFlags → Bool) (before after : MixerScreen) : Option ℕ → Prop
  | none => ∀ master, after.model.master = some master →
      before.cached.master.isSome → field master = !field before.shownMaster
  | some index => ∀ id shown, before.shown[index]? = some (id, shown) →
      ∀ flags, (id, flags) ∈ after.model.strips → field flags = !field shown

/-- After a rebuild the strips show the model; after an action its flag is the negation. -/
def Agrees (before after : MixerScreen) : Action → Prop
  | .toggleMute strip => Negated StripFlags.muted before after strip
  | .toggleSolo strip => Negated StripFlags.soloed before after strip
  | .rebuild => after.shown = after.model.strips.map (Prod.map (fun i => i) shownOf) ∧
      ∀ master, after.model.master = some master → after.shownMaster = shownOf master
  | _ => True

/-- The mutes and the faders that the screen keeps are those of a model. -/
structure KeepsRest (s : MixerScreen) (model : MixerModel) : Prop where
  muted : ∀ strip ∈ model.strips, strip.1 ∈ s.mutedIds → strip.2.muted = true
  faders : ∀ strip ∈ model.strips, ∀ v ∈ s.faders strip.1, v = clamped 0 1 strip.2.gain
  master : ∀ master ∈ model.master,
    s.masterFader = 3 / 4 ∨ s.masterFader = clamped 0 1 master.gain

/-- Also the solos. -/
structure Keeps (s : MixerScreen) (model : MixerModel) : Prop extends KeepsRest s model where
  soloed : ∀ strip ∈ model.strips, strip.1 ∈ s.soloedIds → strip.2.soloed = true

/-- The model has what the last build has read: a call about what is gone throws. -/
def Present (s : MixerScreen) : Prop :=
  s.cached.strips.map Prod.fst ⊆ s.model.strips.map Prod.fst ∧
    s.model.master.isSome = s.cached.master.isSome

/-- The step is one that the screen follows. -/
def Follows (s : MixerScreen) : Action → Prop
  | .toggleMute (some index) => s.Present ∧ ∀ id shown, s.shown[index]? = some (id, shown) →
      s.mutedIds.contains id = shown.muted
  | .toggleSolo strip => s.Present ∧ ∀ index ∈ strip, ∀ id shown flags,
      s.shown[index]? = some (id, shown) → s.cached.strips[index]? = some (id, flags) →
        (s.soloedIds.contains id || flags.soloed) = shown.soloed
  | .fader _ value => s.Present ∧ 0 ≤ value ∧ value ≤ 1 ∧ narrow value = value
  | .elsewhere model => s.Keeps model
  | _ => True

/-- The copy is the model unless the model has changed, and the last build is that of the copy. -/
structure Sound (s : MixerScreen) : Prop where
  cache : ∀ r ∈ s.cachedRevision, r ≤ s.revision ∧ (r = s.revision → s.cached = s.model)
  keeps : s.Keeps s.model
  drawn : s.shown.map Prod.fst = s.cached.strips.map Prod.fst
  drawnMaster : ∀ master ∈ s.cached.master,
    s.shownMaster.muted = master.muted ∧ s.shownMaster.soloed = master.soloed

/-- The model has moved on, and the copy and what is shown are as they were. -/
structure Moves (s t : MixerScreen) : Prop where
  cached : t.cached = s.cached ∧ t.cachedRevision = s.cachedRevision
  shown : t.shown = s.shown ∧ t.shownMaster = s.shownMaster
  revision : s.revision ≤ t.revision ∧ (t.revision = s.revision → t.model = s.model)

variable {narrow : ℚ → ℚ} {s t u : MixerScreen} {id : InstrumentId}

theorem Moves.trans (h : Moves s t) (h' : Moves t u) : Moves s u where
  cached := ⟨h'.cached.1.trans h.cached.1, h'.cached.2.trans h.cached.2⟩
  shown := ⟨h'.shown.1.trans h.shown.1, h'.shown.2.trans h.shown.2⟩
  revision := by
    obtain ⟨hle, hsame⟩ := h.revision
    obtain ⟨hle', hsame'⟩ := h'.revision
    exact ⟨hle.trans hle', fun heq => (hsame' (by omega)).trans (hsame (by omega))⟩

theorem moves_edit (model : MixerModel) : Moves s (s.edit model) :=
  ⟨⟨rfl, rfl⟩, ⟨rfl, rfl⟩, Nat.le_succ _, fun h => absurd h (Nat.succ_ne_self _)⟩

theorem Sound.moves (h : s.Sound) (hmoves : Moves s t) (hkeeps : t.Keeps t.model) : t.Sound where
  cache := by
    rw [hmoves.cached.1, hmoves.cached.2]
    intro r hr
    obtain ⟨hle, hsame⟩ := h.cache r hr
    obtain ⟨hle', hsame'⟩ := hmoves.revision
    refine ⟨hle.trans hle', fun heq => ?_⟩
    rw [hsame' (by omega)]
    exact hsame (by omega)
  keeps := hkeeps
  drawn := by
    rw [hmoves.shown.1, hmoves.cached.1]
    exact h.drawn
  drawnMaster := by
    rw [hmoves.shown.2, hmoves.cached.1]
    exact h.drawnMaster

/-- A strip after an edit of one. -/
theorem mem_editStrip {model : MixerModel} {f : StripFlags → StripFlags}
    {strip : InstrumentId × StripFlags} (h : strip ∈ (model.editStrip id f).strips) :
    (∃ flags, (id, flags) ∈ model.strips ∧ strip = (id, f flags)) ∨
      strip ∈ model.strips ∧ strip.1 ≠ id := by
  obtain ⟨before, hmem, rfl⟩ := List.mem_map.1 h
  split
  · rename_i hid
    exact .inl ⟨before.2, hid ▸ hmem, by rw [hid]⟩
  · exact .inr ⟨hmem, ‹_›⟩

/-- Solos do not matter to the rest. -/
theorem KeepsRest.editStrip {model : MixerModel} (h : s.KeepsRest model) (id : InstrumentId)
    {f : StripFlags → StripFlags}
    (hf : ∀ flags, (f flags).muted = flags.muted ∧ (f flags).gain = flags.gain) :
    s.KeepsRest (model.editStrip id f) where
  muted strip hmem := by
    rcases mem_editStrip hmem with ⟨flags, hflags, rfl⟩ | ⟨hmem, -⟩
    · rw [(hf flags).1]
      exact h.muted _ hflags
    · exact h.muted strip hmem
  faders strip hmem := by
    rcases mem_editStrip hmem with ⟨flags, hflags, rfl⟩ | ⟨hmem, -⟩
    · rw [(hf flags).2]
      exact h.faders _ hflags
    · exact h.faders strip hmem
  master := h.master

/-- Unsoloing changes nothing but solos of the model. -/
structure Unsoloed (s t : MixerScreen) : Prop where
  moves : Moves s t
  rest : t.KeepsRest t.model
  soloedIds : t.soloedIds = s.soloedIds

theorem Unsoloed.step (h : Unsoloed s t) (but : Option InstrumentId)
    (strip : InstrumentId × StripFlags) : Unsoloed s (t.unsolo but strip) := by
  unfold unsolo
  split
  · have hedited := h.rest.editStrip strip.1 (f := ({ · with soloed := false }))
      fun _ => ⟨rfl, rfl⟩
    exact ⟨h.moves.trans (moves_edit _), ⟨hedited.muted, hedited.faders, hedited.master⟩,
      h.soloedIds⟩
  · exact h

theorem unsoloed_unsoloOthers (h : s.KeepsRest s.model) (but : Option InstrumentId) :
    Unsoloed s (s.unsoloOthers but) := by
  have hfold : ∀ (list : List (InstrumentId × StripFlags)) (t : MixerScreen), Unsoloed s t →
      Unsoloed s (list.foldl (fun t strip => t.unsolo but strip) t) := by
    intro list
    induction list with
    | nil => exact fun _ ht => ht
    | cons strip list ih => exact fun t ht => ih _ (ht.step but strip)
  exact hfold _ s ⟨⟨⟨rfl, rfl⟩, ⟨rfl, rfl⟩, Nat.le_refl _, fun _ => rfl⟩, h, rfl⟩

theorem KeepsRest.editMaster (h : s.KeepsRest s.model) {f : StripFlags → StripFlags}
    (hf : ∀ flags, (f flags).gain = flags.gain) : s.KeepsRest (s.model.editMaster f) where
  muted := h.muted
  faders := h.faders
  master master hmaster := by
    obtain ⟨before, hbefore, rfl⟩ := Option.map_eq_some_iff.1 hmaster
    rw [hf]
    exact h.master before hbefore

/-! ### Steps -/

theorem stripVm_eq (h : s.Keeps s.model) {strip : InstrumentId × StripFlags}
    (hmem : strip ∈ s.model.strips) : s.stripVm strip = Prod.map (fun i => i) shownOf strip := by
  have hmuted : (s.mutedIds.contains strip.1 || strip.2.muted) = strip.2.muted := by
    rw [Bool.or_eq_right_iff_imp, List.contains_iff_mem]
    exact h.muted strip hmem
  have hsoloed : (s.soloedIds.contains strip.1 || strip.2.soloed) = strip.2.soloed := by
    rw [Bool.or_eq_right_iff_imp, List.contains_iff_mem]
    exact h.soloed strip hmem
  have hgain : (s.faders strip.1).getD (clamped 0 1 strip.2.gain) = clamped 0 1 strip.2.gain := by
    cases hfader : s.faders strip.1 with
    | none => rfl
    | some v => exact h.faders strip hmem v hfader
  rw [stripVm, hmuted, hsoloed, hgain]
  rfl

theorem Sound.build (h : s.Sound) : s.build.Sound ∧ Agrees s s.build .rebuild := by
  obtain ⟨hcached, hmodel, hkeeps⟩ : s.refreshModelIfStale.cached = s.refreshModelIfStale.model ∧
      s.refreshModelIfStale.model = s.model ∧ s.refreshModelIfStale.Keeps s.model ∧
      ∀ r ∈ s.refreshModelIfStale.cachedRevision, r = s.refreshModelIfStale.revision := by
    unfold refreshModelIfStale
    split
    · rename_i hrevision
      exact ⟨(h.cache _ hrevision).2 rfl, rfl, h.keeps, fun r hr =>
        Option.some.inj (hr.symm.trans hrevision)⟩
    · exact ⟨rfl, rfl, ⟨⟨h.keeps.muted, h.keeps.faders, h.keeps.master⟩, h.keeps.soloed⟩,
        fun r hr => (Option.some.inj hr).symm⟩
  obtain ⟨hkeeps, hrevision⟩ := hkeeps
  rw [← hmodel] at hkeeps
  have hmaster : ∀ master, s.refreshModelIfStale.model.master = some master →
      s.refreshModelIfStale.masterVm = shownOf master := by
    intro master hmaster
    rw [masterVm, hcached, hmaster]
    rcases hkeeps.master master hmaster with hfader | hfader
    · simp only [hfader, if_true, shownOf]
    · simp only [← hfader, ite_self, shownOf]
  refine ⟨⟨fun r hr => ⟨(hrevision r hr).le, fun _ => hcached⟩,
    ⟨⟨hkeeps.muted, hkeeps.faders, hkeeps.master⟩, hkeeps.soloed⟩, ?_, ?_⟩, ?_, hmaster⟩
  · exact List.map_map ..
  · intro master hget
    have hget : s.refreshModelIfStale.cached.master = some master := hget
    rw [hcached] at hget
    have hshown : s.build.shownMaster = shownOf master := hmaster master hget
    rw [hshown]
    exact ⟨rfl, rfl⟩
  · change s.refreshModelIfStale.cached.strips.map _ = s.refreshModelIfStale.model.strips.map _
    rw [hcached]
    exact List.map_congr_left fun strip hmem => stripVm_eq hkeeps hmem

/-- What a build has shown at a place is of the instrument that the copy has there. -/
theorem Sound.strip_of_shown (h : s.Sound) {index : ℕ} {shown : StripFlags}
    (hshown : s.shown[index]? = some (id, shown)) :
    ∃ flags, s.cached.strips[index]? = some (id, flags) := by
  have hids := congrArg (fun ids : List InstrumentId => ids[index]?) h.drawn
  simp only [List.getElem?_map, hshown, Option.map_some] at hids
  obtain ⟨⟨other, flags⟩, hstrip, rfl⟩ := Option.map_eq_some_iff.1 hids.symm
  exact ⟨flags, hstrip⟩

/-- A flag that was written is what it was written to. -/
theorem edited_of_mem {model : MixerModel} {f : StripFlags → StripFlags} {flags : StripFlags}
    (h : (id, flags) ∈ (model.editStrip id f).strips) : ∃ before, flags = f before := by
  rcases mem_editStrip h with ⟨before, -, heq⟩ | ⟨-, hne⟩
  · exact ⟨before, congrArg Prod.snd heq⟩
  · exact absurd rfl hne

/-- Nothing was shown where there is no strip. -/
theorem Sound.negated_of_none (h : s.Sound) {index : ℕ} (hstrip : s.cached.strips[index]? = none)
    (field : StripFlags → Bool) : Negated field s t (some index) := by
  intro other shown hshown
  obtain ⟨flags, hother⟩ := h.strip_of_shown hshown
  exact absurd hother (by simp [hstrip])

/-- A flag is the negation of what was shown where it was written to be. -/
theorem Sound.negated_of_edit (h : s.Sound) {index : ℕ} {flags : StripFlags}
    (hstrip : s.cached.strips[index]? = some (id, flags)) {field : StripFlags → Bool}
    {f : StripFlags → StripFlags} (hf : ∀ shown, s.shown[index]? = some (id, shown) →
      ∀ before, field (f before) = !field shown) :
    Negated field s (t.edit (t.model.editStrip id f)) (some index) := by
  intro other shown hshown written hwritten
  obtain ⟨before, hother⟩ := h.strip_of_shown hshown
  obtain ⟨rfl, -⟩ := Prod.mk.inj (Option.some.inj (hother.symm.trans hstrip))
  obtain ⟨unwritten, rfl⟩ := edited_of_mem hwritten
  exact hf shown hshown unwritten

/-- The mute of an instrument that the screen has muted, or that it has not. -/
theorem Keeps.setMuted (h : s.Keeps s.model) {ids : List InstrumentId} {muted : Bool}
    (hself : id ∈ ids → muted = true) (hothers : ∀ other ∈ ids, other ≠ id → other ∈ s.mutedIds) :
    ({ s with mutedIds := ids }.setInstrumentMuted id muted).Keeps
      (s.model.editStrip id ({ · with muted })) where
  muted strip hmem hin := by
    rcases mem_editStrip hmem with ⟨flags, -, rfl⟩ | ⟨hmem, hne⟩
    · exact hself hin
    · exact h.muted strip hmem (hothers _ hin hne)
  faders strip hmem := by
    rcases mem_editStrip hmem with ⟨flags, hflags, rfl⟩ | ⟨hmem, -⟩
    · exact h.faders (id, flags) hflags
    · exact h.faders strip hmem
  master := h.master
  soloed strip hmem := by
    rcases mem_editStrip hmem with ⟨flags, hflags, rfl⟩ | ⟨hmem, -⟩
    · exact h.soloed (id, flags) hflags
    · exact h.soloed strip hmem

theorem Sound.onToggleMute (h : s.Sound) {strip : Option ℕ}
    (hfollows : s.Follows narrow (.toggleMute strip)) :
    (s.onToggleMute strip).Sound ∧ Negated StripFlags.muted s (s.onToggleMute strip) strip := by
  cases strip with
  | none =>
    cases hmaster : s.cached.master with
    | none =>
      simp only [MixerScreen.onToggleMute, hmaster]
      exact ⟨⟨h.cache, ⟨⟨h.keeps.muted, h.keeps.faders, h.keeps.master⟩, h.keeps.soloed⟩, h.drawn,
        h.drawnMaster⟩, fun _ _ hsome => absurd hsome (by simp [hmaster])⟩
    | some master =>
      simp only [MixerScreen.onToggleMute, hmaster]
      have hrest := h.keeps.toKeepsRest.editMaster (f := ({ · with muted := !master.muted }))
        fun _ => rfl
      refine ⟨h.moves ⟨⟨rfl, rfl⟩, ⟨rfl, rfl⟩, (moves_edit _).revision⟩
        ⟨⟨hrest.muted, hrest.faders, hrest.master⟩, h.keeps.soloed⟩, fun after hafter _ => ?_⟩
      obtain ⟨before, -, rfl⟩ := Option.map_eq_some_iff.1 hafter
      rw [(h.drawnMaster master hmaster).1]
  | some index =>
    cases hstrip : s.cached.strips[index]? with
    | none =>
      simp only [MixerScreen.onToggleMute, hstrip]
      exact ⟨h, h.negated_of_none hstrip _⟩
    | some strip =>
      obtain ⟨id, flags⟩ := strip
      simp only [MixerScreen.onToggleMute, hstrip]
      split
      all_goals
        rename_i hcontains
        refine ⟨h.moves ⟨⟨rfl, rfl⟩, ⟨rfl, rfl⟩, (moves_edit _).revision⟩
          (h.keeps.setMuted ?_ ?_), h.negated_of_edit hstrip fun shown hshown _ => ?_⟩
      · exact fun hin => absurd rfl (of_decide_eq_true (List.mem_filter.1 hin).2)
      · exact fun other hin _ => (List.mem_filter.1 hin).1
      · rw [← hfollows.2 id shown hshown, hcontains]
        rfl
      · exact fun _ => rfl
      · exact fun other hin hne => (List.mem_cons.1 hin).resolve_left hne
      · rw [← hfollows.2 id shown hshown, Bool.eq_false_iff.2 hcontains]
        rfl

/-- The solo of an instrument, after which those that the screen has soloed are soloed. -/
theorem KeepsRest.setSoloed (h : s.KeepsRest s.model) (id : InstrumentId) (soloed : Bool)
    (hself : id ∈ s.soloedIds → soloed = true)
    (hothers : ∀ strip ∈ s.model.strips, strip.1 ∈ s.soloedIds → strip.1 ≠ id →
      strip.2.soloed = true) :
    (s.setInstrumentSoloed id soloed).Keeps (s.setInstrumentSoloed id soloed).model := by
  have hrest := h.editStrip id (f := ({ · with soloed })) fun _ => ⟨rfl, rfl⟩
  refine ⟨⟨hrest.muted, hrest.faders, hrest.master⟩, fun strip hmem hin => ?_⟩
  rcases mem_editStrip hmem with ⟨flags, -, rfl⟩ | ⟨hmem, hne⟩
  · exact hself hin
  · exact hothers strip hmem hin hne

theorem Sound.unsoloed (h : s.Sound) (next : Bool) :
    let set := if next then
        ({ s with masterSoloed := true, soloedIds := [] } : MixerScreen).unsoloOthers none
      else { s with masterSoloed := false }
    Moves s set ∧ set.Keeps set.model := by
  cases next with
  | false =>
    exact ⟨⟨⟨rfl, rfl⟩, ⟨rfl, rfl⟩, Nat.le_refl _, fun _ => rfl⟩,
      ⟨⟨h.keeps.muted, h.keeps.faders, h.keeps.master⟩, h.keeps.soloed⟩⟩
  | true =>
    obtain ⟨hmoves, hrest, hids⟩ := unsoloed_unsoloOthers
      (s := { s with masterSoloed := true, soloedIds := [] })
      ⟨h.keeps.muted, h.keeps.faders, h.keeps.master⟩ none
    refine ⟨⟨hmoves.cached, hmoves.shown, hmoves.revision⟩, hrest, fun strip _ hin => ?_⟩
    rw [if_pos rfl, hids] at hin
    exact absurd hin List.not_mem_nil

theorem Sound.onToggleSolo_master (h : s.Sound) :
    (s.onToggleSolo none).Sound ∧ Negated StripFlags.soloed s (s.onToggleSolo none) none := by
  obtain ⟨hmoves, hkeeps⟩ :=
    h.unsoloed (!(s.cached.master.map StripFlags.soloed).getD s.masterSoloed)
  cases hmaster : s.cached.master with
  | none =>
    simp only [hmaster] at hmoves hkeeps
    simp only [MixerScreen.onToggleSolo, hmaster]
    exact ⟨h.moves hmoves hkeeps, fun _ _ hsome => absurd hsome (by simp [hmaster])⟩
  | some master =>
    simp only [hmaster] at hmoves hkeeps
    simp only [MixerScreen.onToggleSolo, hmaster]
    have hrest := hkeeps.toKeepsRest.editMaster (f := ({ · with soloed := !master.soloed }))
      fun _ => rfl
    refine ⟨h.moves (hmoves.trans (moves_edit _))
      ⟨⟨hrest.muted, hrest.faders, hrest.master⟩, hkeeps.soloed⟩, fun after hafter _ => ?_⟩
    obtain ⟨before, -, rfl⟩ := Option.map_eq_some_iff.1 hafter
    rw [(h.drawnMaster master hmaster).2]
    rfl

/-- One instrument is soloed, and no other. -/
theorem Sound.soloed (h : s.Sound) (hmoves : Moves s t) (hrest : t.KeepsRest t.model)
    (hids : t.soloedIds = [id]) :
    ((t.unsoloOthers (some id)).setInstrumentSoloed id true).Sound := by
  obtain ⟨hmoves', hrest', hids'⟩ := unsoloed_unsoloOthers hrest (some id)
  refine h.moves (hmoves.trans (hmoves'.trans (moves_edit _)))
    (hrest'.setSoloed id true (fun _ => rfl) fun strip _ hin hne => ?_)
  rw [hids', hids] at hin
  exact absurd (List.mem_singleton.1 hin) hne

theorem Sound.onToggleSolo_strip (h : s.Sound) {index : ℕ}
    (hfollows : s.Follows narrow (.toggleSolo (some index))) :
    (s.onToggleSolo (some index)).Sound ∧
      Negated StripFlags.soloed s (s.onToggleSolo (some index)) (some index) := by
  cases hstrip : s.cached.strips[index]? with
  | none =>
    simp only [MixerScreen.onToggleSolo, hstrip]
    exact ⟨h, h.negated_of_none hstrip _⟩
  | some strip =>
    obtain ⟨id, flags⟩ := strip
    have hshows : ∀ shown, s.shown[index]? = some (id, shown) →
        (s.soloedIds.contains id || flags.soloed) = shown.soloed :=
      fun shown hshown => hfollows.2 index rfl id shown flags hshown hstrip
    have hrest : ∀ ids soloed,
        ({ s with soloedIds := ids, masterSoloed := soloed } : MixerScreen).KeepsRest s.model :=
      fun _ _ => ⟨h.keeps.muted, h.keeps.faders, h.keeps.master⟩
    simp only [MixerScreen.onToggleSolo, hstrip]
    split
    · rename_i hsoloed
      have hkeeps := (hrest (s.soloedIds.filter (· ≠ id)) s.masterSoloed).setSoloed id false
        (fun hin => absurd rfl (of_decide_eq_true (List.mem_filter.1 hin).2))
        fun strip hmem hin _ => h.keeps.soloed strip hmem (List.mem_filter.1 hin).1
      refine ⟨h.moves ⟨⟨rfl, rfl⟩, ⟨rfl, rfl⟩, (moves_edit _).revision⟩ hkeeps,
        h.negated_of_edit hstrip fun shown hshown _ => ?_⟩
      rw [← hshows shown hshown, hsoloed]
      rfl
    · rename_i hsoloed
      constructor
      · split
        · have hmaster := (hrest [id] false).editMaster (f := ({ · with soloed := false }))
            fun _ => rfl
          exact h.soloed ⟨⟨rfl, rfl⟩, ⟨rfl, rfl⟩, (moves_edit _).revision⟩
            ⟨hmaster.muted, hmaster.faders, hmaster.master⟩ rfl
        · exact h.soloed ⟨⟨rfl, rfl⟩, ⟨rfl, rfl⟩, Nat.le_refl _, fun _ => rfl⟩ (hrest _ false) rfl
      · refine h.negated_of_edit hstrip fun shown hshown _ => ?_
        rw [← hshows shown hshown, Bool.eq_false_iff.2 hsoloed]
        rfl

theorem clamped_of_le {high value : ℚ} (hlow : 0 ≤ value) (hhigh : value ≤ high) :
    clamped 0 high value = value := by
  rw [clamped, min_eq_right hhigh, max_eq_right hlow]

theorem Sound.onFader (h : s.Sound) {strip : Option ℕ} {value : ℚ}
    (hfollows : s.Follows narrow (.fader strip value)) : (s.onFader narrow value strip).Sound := by
  obtain ⟨⟨-, hpresent⟩, hlow, hhigh, hnarrow⟩ := hfollows
  have hclamped := clamped_of_le hlow hhigh
  cases strip with
  | none =>
    cases hmaster : s.cached.master with
    | none =>
      simp only [MixerScreen.onFader, hmaster, Option.isSome_none, Bool.false_eq_true, false_and,
        if_false]
      refine h.moves ⟨⟨rfl, rfl⟩, ⟨rfl, rfl⟩, Nat.le_refl _, fun _ => rfl⟩
        ⟨⟨h.keeps.muted, h.keeps.faders, fun master hget => ?_⟩, h.keeps.soloed⟩
      have hget : s.model.master = some master := hget
      exact absurd hpresent (by simp [hmaster, hget])
    | some master =>
      simp only [MixerScreen.onFader, hmaster, Option.isSome_some, true_and, if_pos hlow]
      refine h.moves ⟨⟨rfl, rfl⟩, ⟨rfl, rfl⟩, (moves_edit _).revision⟩
        ⟨⟨h.keeps.muted, h.keeps.faders, fun after hafter => .inr ?_⟩, h.keeps.soloed⟩
      obtain ⟨before, -, rfl⟩ := Option.map_eq_some_iff.1 hafter
      simp only [edit, hnarrow, hclamped]
  | some index =>
    cases hstrip : s.cached.strips[index]? with
    | none =>
      simp only [MixerScreen.onFader, hstrip]
      exact h
    | some strip =>
      obtain ⟨id, flags⟩ := strip
      simp only [MixerScreen.onFader, hstrip]
      refine h.moves ⟨⟨rfl, rfl⟩, ⟨rfl, rfl⟩, (moves_edit _).revision⟩
        ⟨⟨fun strip hmem => ?_, fun strip hmem v hv => ?_, h.keeps.master⟩, fun strip hmem => ?_⟩
      all_goals rcases mem_editStrip hmem with ⟨before, hbefore, rfl⟩ | ⟨hmem, hne⟩
      · exact h.keeps.muted (id, before) hbefore
      · exact h.keeps.muted strip hmem
      · obtain rfl : value = v := by simpa [edit, setInstrumentGain] using hv
        rw [hnarrow, clamped_of_le hlow (hhigh.trans one_le_two), hclamped]
      · refine h.keeps.faders strip hmem v ?_
        simpa [edit, setInstrumentGain, Function.update_of_ne hne] using hv
      · exact h.keeps.soloed (id, before) hbefore
      · exact h.keeps.soloed strip hmem

theorem Sound.elsewhere (h : s.Sound) {model : MixerModel} (hkeeps : s.Keeps model) :
    (s.edit model).Sound :=
  h.moves (moves_edit model) ⟨⟨hkeeps.muted, hkeeps.faders, hkeeps.master⟩, hkeeps.soloed⟩

theorem Sound.act (h : s.Sound) {action : Action} (hfollows : s.Follows narrow action) :
    (s.act narrow action).Sound ∧ Agrees s (s.act narrow action) action := by
  cases action with
  | toggleMute strip => exact h.onToggleMute hfollows
  | toggleSolo strip =>
    cases strip with
    | none => exact h.onToggleSolo_master
    | some index => exact h.onToggleSolo_strip hfollows
  | fader strip value => exact ⟨h.onFader hfollows, trivial⟩
  | elsewhere model => exact ⟨h.elsewhere hfollows, trivial⟩
  | rebuild => exact h.build

/-! ### Runs -/

/-- The screen as it is opened on a model. -/
def opened (model : MixerModel) : MixerScreen := { model }

theorem sound_opened (model : MixerModel) : (opened model).Sound where
  cache := nofun
  keeps := ⟨⟨nofun, nofun, fun _ _ => .inl rfl⟩, nofun⟩
  drawn := rfl
  drawnMaster := nofun

variable (narrow) in
/-- All steps of a run are ones that the screen follows. -/
def FollowsAll (s : MixerScreen) : List Action → Prop
  | [] => True
  | action :: actions => s.Follows narrow action ∧ (s.act narrow action).FollowsAll actions

variable (narrow) in
/-- The screen agrees with the model after each step of a run. -/
def AgreesAll (s : MixerScreen) : List Action → Prop
  | [] => True
  | action :: actions =>
    Agrees s (s.act narrow action) action ∧ (s.act narrow action).AgreesAll actions

theorem Sound.agreesAll {actions : List Action} (h : s.Sound)
    (hfollows : s.FollowsAll narrow actions) : s.AgreesAll narrow actions := by
  induction actions generalizing s with
  | nil => trivial
  | cons action actions ih =>
    obtain ⟨hsound, hagrees⟩ := h.act hfollows.1
    exact ⟨hagrees, ih hsound hfollows.2⟩

/-- One instrument, that is muted on the screen or elsewhere. -/
def single (muted : Bool) : MixerModel := { strips := [(.none, { muted })] }

end MixerScreen

end OneBeat
