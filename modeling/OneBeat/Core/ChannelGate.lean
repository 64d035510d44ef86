import OneBeat.Core.Channels
import OneBeat.Lib.TransitionSystem

/-!
# The gate of a one-shot channel

The three threads around the channels of the rack: the user's thread calls `setChannels`, the
housekeeping thread makes the stores of `applyChannelSync` one by one and may still be at older
descriptions, and the audio thread starts audio clips where the gate is open (`renderChannel`).

**Main theorem** (`System.gated_run`): no clip is started with a sample that its channel was not
described to hold, in every run in which the housekeeping thread opens no gate, and takes no sample
behind an open one, for a description that is not the latest, and in which `setChannels` meets no
hash that stands for another path, nor an open gate without a path (`System.Careful`).
A load that is overtaken by an edit opens the gate too early (`System.not_faithful_overtaken`).

What the threads share is atomic in the source, and a call of `setChannels` and the rendering of a
channel are one step each.
-/

namespace OneBeat.ChannelSync

variable {α : Type*}

/-- The sample a description names. -/
def ChannelDesc.named (load : String → Option α) (desc : ChannelDesc) : Option α :=
  if desc.samplePath = "" then none else load desc.samplePath

structure System (α : Type*) where
  channels : Slot → Channel α
  /-- What `setChannels` was handed last; for the statements only. -/
  latest : List ChannelDesc := []
  pending : Option (List ChannelDesc) := none
  /-- What the housekeeping thread has still to store. -/
  tasks : List (Task α) := []
  /-- `deferred_audio_start`: a clip that waits for its sample. -/
  deferred : Slot → Bool := fun _ => false

inductive Label
  | setChannels (descs : List ChannelDesc)
  /-- The housekeeping thread takes what waits. -/
  | take
  /-- It makes its next store. -/
  | work
  /-- The audio thread renders a channel, with or without the start of an audio clip. -/
  | render (slot : Slot) (audioStart : Bool)
  deriving DecidableEq

namespace System

/-- Rendering the channel starts a clip. -/
def triggers (s : System α) (slot : Slot) (audioStart : Bool) : Bool :=
  (s.channels slot).active &&
    if audioStart then !(s.channels slot).silent
    else (s.channels slot).oneShot && (s.channels slot).sampleReady && s.deferred slot

/-- A clip waits after its channel was rendered. -/
def defers (s : System α) (slot : Slot) (audioStart : Bool) : Bool :=
  if (s.channels slot).active then
    (s.channels slot).silent && (audioStart || s.deferred slot)
  else s.deferred slot

def step (load : String → Option α) (s : System α) : Label → Option (System α)
  | .setChannels descs =>
    some { s with
      channels := ChannelSync.setChannels descs s.channels
      latest := descs, pending := some descs }
  | .take =>
    match s.tasks, s.pending with
    | [], some descs =>
      some { s with pending := none, tasks := passTasks load s.channels descs }
    | _, _ => none
  | .work =>
    match s.tasks with
    | [] => none
    | task :: tasks => some { s with channels := task.run s.channels, tasks }
  | .render slot audioStart =>
    some { s with deferred := Function.update s.deferred slot (s.defers slot audioStart) }

end System

/-- The threads, for the files that can be loaded. -/
def threads (load : String → Option α) : TransitionSystem (System α) Label where
  step := System.step load

/-- The store may open a gate. -/
def Store.opens : Store α → Bool
  | .oneShot value => !value
  | .sampleReady value => value
  | .reopen _ => true
  | _ => false

/-- The store puts another sample into the sampler. -/
def Store.replaces : Store α → Bool
  | .sample _ _ => true
  | _ => false

/-- The store is made for what the latest description says too. -/
def Task.Agrees (desc : ChannelDesc) (task : Task α) : Prop :=
  desc.samplePath ≠ "" ∧ ∃ other ∈ task.desc, other.oneShot = true ∧
    other.samplePath = desc.samplePath

namespace System

/-- The channel is a one-shot, and its sampler holds something else than its description names. -/
def Strange (load : String → Option α) (s : System α) (slot : Slot) : Prop :=
  ∃ desc ∈ s.latest[slot.val]?, desc.oneShot = true ∧
    desc.named load ≠ some (s.channels slot).sample

/-- What makes a step keep the gates right. -/
def Careful (s : System α) : Label → Prop
  | .setChannels descs =>
    ∀ slot : Slot, ∀ desc ∈ descs[slot.val]?, desc.oneShot = true →
      (s.channels slot).sampleReady = true →
      samplePathHash desc.samplePath = (s.channels slot).loadedSampleHash →
      desc.samplePath = (s.channels slot).loadedPath ∧ desc.samplePath ≠ ""
  | .work =>
    ∀ task ∈ s.tasks.head?, ∀ desc ∈ s.latest[task.slot.val]?, desc.oneShot = true →
      (task.store.opens || task.store.replaces && !(s.channels task.slot).silent) = true →
      task.Agrees desc
  | _ => True

/-- Every step of a run is careful when its turn comes. -/
def CarefulAll (load : String → Option α) (s : System α) : List Label → Prop
  | [] => True
  | label :: labels => s.Careful label ∧ ∀ s' ∈ s.step load label, s'.CarefulAll load labels

/-- An engine that was just initialised. -/
def start (fallback : α) : System α := { channels := Rack.initial fallback }

/-- No clip that is started along the run plays a stranger's sample. -/
def Faithful (load : String → Option α) (fallback : α) (labels : List Label) : Prop :=
  ∀ before slot audioStart s, before ++ [.render slot audioStart] <+: labels →
    (threads load).run (start fallback) before = some s →
    s.triggers slot audioStart = true → ¬s.Strange load slot

end System

/-! ### The stores of a pass -/

/-- The path a slot remembers after a store. -/
def Store.pathAfter (path : String) : Store α → String
  | .sample path _ => path
  | .forget => ""
  | _ => path

/-- A store loads the sample of its description, or opens a gate for what is remembered. -/
def Task.Sound (load : String → Option α) (path : String) (task : Task α) : Prop :=
  (∀ loaded sample, task.store = .sample loaded sample →
    load loaded = some sample ∧ ∃ desc ∈ task.desc, desc.samplePath = loaded) ∧
  (task.store.opens = true → ∀ desc ∈ task.desc, desc.oneShot = true → desc.samplePath = path)

/-- Each store is sound for the path its slot remembers when its turn comes. -/
def Legit (load : String → Option α) : List (Task α) → (Slot → String) → Prop
  | [], _ => True
  | task :: tasks, paths =>
    task.Sound load (paths task.slot) ∧
      Legit load tasks (Function.update paths task.slot (task.store.pathAfter (paths task.slot)))

variable {load : String → Option α}

theorem Task.sound_plain {slot : Slot} {desc : Option ChannelDesc} {store : Store α} {path : String}
    (hopens : store.opens = false) (hreplaces : store.replaces = false) :
    (Task.mk slot desc store).Sound load path := by
  refine ⟨fun loaded sample hstore => ?_, fun hopen => ?_⟩
  · subst hstore
    cases hreplaces
  · rw [hopens] at hopen
    cases hopen

/-- The stores for one slot, from the path it remembers on. -/
def LegitStores (load : String → Option α) (slot : Slot) (desc : Option ChannelDesc) :
    List (Store α) → String → Prop
  | [], _ => True
  | store :: stores, path =>
    (Task.mk slot desc store).Sound load path ∧ LegitStores load slot desc stores (store.pathAfter path)

theorem legit_append {slot : Slot} {desc : Option ChannelDesc} {paths : Slot → String}
    {stores : List (Store α)} {tasks : List (Task α)}
    (hstores : LegitStores load slot desc stores (paths slot))
    (htasks : ∀ paths' : Slot → String, (∀ other, other ≠ slot → paths' other = paths other) →
      Legit load tasks paths') :
    Legit load (stores.map (Task.mk slot desc) ++ tasks) paths := by
  induction stores generalizing paths with
  | nil => exact htasks paths fun _ _ => rfl
  | cons store stores ih =>
    refine ⟨hstores.1, ih ?_ fun paths' hpaths => htasks paths' fun other hother => ?_⟩
    · rw [Function.update_self]
      exact hstores.2
    · rw [hpaths other hother, Function.update_of_ne hother]

theorem legitStores_sync {slot : Slot} {desc : ChannelDesc} {path : String} :
    LegitStores load slot (some desc) (syncStores load path desc) path := by
  have hplain : ∀ {store : Store α} {path : String}, store.opens = false → store.replaces = false →
      (Task.mk slot (some desc) store).Sound load path := Task.sound_plain
  -- a store that opens the gate when the path of the description is remembered
  have hopens : ∀ {store : Store α}, store.replaces = false →
      (Task.mk slot (some desc) store).Sound load desc.samplePath := by
    intro store hreplaces
    refine ⟨fun loaded sample hstore => ?_, fun _ other hother _ => ?_⟩
    · subst hstore
      cases hreplaces
    · rw [Option.mem_some_iff.1 hother]
  have hone : (Task.mk slot (some desc) (.oneShot desc.oneShot : Store α)).Sound load path := by
    refine ⟨fun loaded sample hstore => (by cases hstore), fun hopen other hother hshot => ?_⟩
    obtain rfl := Option.mem_some_iff.1 hother
    simp [Store.opens, hshot] at hopen
  unfold syncStores
  refine ⟨hone, ?_⟩
  by_cases hsame : desc.samplePath = path
  · subst hsame
    rw [if_neg (not_not_intro rfl)]
    split_ifs
    · exact ⟨hopens rfl, hplain rfl rfl, trivial⟩
    · exact ⟨hplain rfl rfl, trivial⟩
  · rw [if_pos hsame]
    by_cases hempty : desc.samplePath = ""
    · rw [if_pos hempty]
      have hready : (Task.mk slot (some desc) (.sampleReady true : Store α)).Sound load "" :=
        hempty ▸ hopens rfl
      split_ifs
      · exact ⟨hplain rfl rfl, hplain rfl rfl, hplain rfl rfl, hready, hplain rfl rfl, trivial⟩
      · exact ⟨hplain rfl rfl, hplain rfl rfl, hready, hplain rfl rfl, trivial⟩
    · rw [if_neg hempty]
      cases hload : load desc.samplePath with
      | none =>
        split_ifs
        · exact ⟨hplain rfl rfl, hplain rfl rfl, trivial⟩
        · exact ⟨hplain rfl rfl, trivial⟩
      | some sample =>
        have hsample : ∀ {path : String},
            (Task.mk slot (some desc) (.sample desc.samplePath sample)).Sound load path := by
          refine ⟨fun loaded other hstore => ?_, fun hopen => (by cases hopen)⟩
          obtain ⟨rfl, rfl⟩ := Store.sample.inj hstore
          exact ⟨hload, desc, rfl, rfl⟩
        split_ifs
        · exact ⟨hplain rfl rfl, hsample, hplain rfl rfl, hopens rfl, hplain rfl rfl, trivial⟩
        · exact ⟨hsample, hplain rfl rfl, hopens rfl, hplain rfl rfl, trivial⟩

theorem legitStores_slot {channels : Slot → Channel α} {descs : List ChannelDesc} {slot : Slot} :
    LegitStores load slot descs[slot.val]? (slotStores load channels descs slot)
      (channels slot).loadedPath := by
  unfold slotStores
  cases descs[slot.val]? with
  | some desc => exact legitStores_sync
  | none =>
    have hnone : ∀ {store : Store α} {path : String}, store.replaces = false →
        (Task.mk slot none store).Sound load path := by
      refine fun hreplaces => ⟨fun loaded sample hstore => ?_, fun _ desc hdesc => by cases hdesc⟩
      obtain rfl := hstore
      cases hreplaces
    dsimp only
    split_ifs
    · exact trivial
    · exact ⟨hnone rfl, hnone rfl, hnone rfl, trivial⟩

/-- **A pass stores what its descriptions say.** -/
theorem legit_passTasks {channels : Slot → Channel α} {descs : List ChannelDesc} :
    Legit load (passTasks load channels descs) fun slot => (channels slot).loadedPath := by
  have hall : ∀ (slots : List Slot), slots.Nodup → ∀ paths : Slot → String,
      (∀ slot ∈ slots, paths slot = (channels slot).loadedPath) →
      Legit load (slots.flatMap fun slot =>
        (slotStores load channels descs slot).map (Task.mk slot descs[slot.val]?)) paths := by
    intro slots hslots
    induction slots with
    | nil => exact fun _ _ => trivial
    | cons slot slots ih =>
      obtain ⟨hslot, hslots⟩ := List.nodup_cons.1 hslots
      intro paths hpaths
      rw [List.flatMap_cons]
      refine legit_append ?_ fun paths' hothers => ih hslots paths' fun other hother => ?_
      · rw [hpaths slot List.mem_cons_self]
        exact legitStores_slot
      · rw [hothers other (fun heq => hslot (heq ▸ hother)),
          hpaths other (List.mem_cons_of_mem _ hother)]
  exact hall _ (List.nodup_finRange _) _ fun _ _ => rfl

/-! ### The invariant -/

namespace System

/-- Behind an open gate the sampler holds what the latest description names. -/
structure Guarded (load : String → Option α) (s : System α) : Prop where
  knows : ∀ slot, (s.channels slot).Knows load
  legit : Legit load s.tasks fun slot => (s.channels slot).loadedPath
  named : ∀ slot : Slot, ∀ desc ∈ s.latest[slot.val]?, desc.oneShot = true →
    (s.channels slot).silent = false → desc.named load = some (s.channels slot).sample

variable {s s' : System α} {label : Label}

theorem guarded_start (fallback : α) : (start fallback).Guarded load where
  knows _ hpath := absurd rfl hpath
  legit := trivial
  named _ _ hdesc := by cases hdesc

theorem ChannelDesc.named_of_ne {desc : ChannelDesc} (h : desc.samplePath ≠ "") :
    desc.named load = load desc.samplePath :=
  if_neg h

theorem Guarded.setChannels (h : s.Guarded load) {descs : List ChannelDesc}
    (hcareful : s.Careful (.setChannels descs)) :
    ({ s with
      channels := ChannelSync.setChannels descs s.channels
      latest := descs, pending := some descs } : System α).Guarded load := by
  have hremembers := Rack.setChannels_remembers s.channels descs
  refine ⟨fun slot => ?_, ?_, fun slot desc hdesc hone hopen => ?_⟩
  · unfold Channel.Knows
    rw [(hremembers slot).1, (hremembers slot).2]
    exact h.knows slot
  · have hpaths : (fun slot => (ChannelSync.setChannels descs s.channels slot).loadedPath) =
        fun slot => (s.channels slot).loadedPath := by
      funext slot
      exact (hremembers slot).1
    dsimp only
    rw [hpaths]
    exact h.legit
  · -- the gate is left open only where the hash is that of the sample already loaded
    have hcareful := hcareful slot desc hdesc hone
    dsimp only at hopen ⊢
    rw [(hremembers slot).2]
    unfold ChannelSync.setChannels at hopen
    rw [Option.mem_def.1 hdesc] at hopen
    simp only [Channel.silent, Channel.describe, hone, Bool.true_and, Bool.not_eq_false',
      Bool.not_true, Bool.false_eq_true, if_false] at hopen
    split_ifs at hopen with hhash
    simp only [ne_eq, decide_not, Bool.not_eq_true', decide_eq_false_iff_not, not_not] at hhash
    obtain ⟨hpath, hne⟩ := hcareful hopen hhash
    rw [ChannelDesc.named_of_ne hne, hpath]
    exact h.knows slot (hpath ▸ hne)

section Work

variable {task : Task α}

theorem run_of_ne (channels : Slot → Channel α) {slot : Slot} (hslot : slot ≠ task.slot) :
    task.run channels slot = channels slot :=
  Function.update_of_ne hslot _ _

/-- What a store changes of the path that its slot remembers. -/
theorem loadedPath_run (channels : Slot → Channel α) :
    (fun slot => (task.run channels slot).loadedPath) =
      Function.update (fun slot => (channels slot).loadedPath) task.slot
        (task.store.pathAfter (channels task.slot).loadedPath) := by
  funext slot
  by_cases hslot : slot = task.slot
  · rw [hslot, Task.run, Function.update_self, Function.update_self]
    cases task.store <;> rfl
  · rw [run_of_ne channels hslot, Function.update_of_ne hslot]

theorem knows_run {channels : Slot → Channel α} (hknows : (channels task.slot).Knows load)
    (hsound : task.Sound load (channels task.slot).loadedPath) :
    (task.run channels task.slot).Knows load := by
  rw [Task.run, Function.update_self]
  cases hstore : task.store with
  | sample path sample => exact fun _ => (hsound.1 path sample hstore).1
  | forget => exact fun hne => absurd rfl hne
  | _ => exact hknows

/-- Behind a gate that the store leaves open, or opens, there is what the latest description names. -/
theorem named_run {channels : Slot → Channel α} {desc : ChannelDesc}
    (hknows : (channels task.slot).Knows load)
    (hsound : task.Sound load (channels task.slot).loadedPath)
    (hnamed : (channels task.slot).silent = false →
      desc.named load = some (channels task.slot).sample)
    (hagrees : (task.store.opens ||
        task.store.replaces && !(channels task.slot).silent) = true → task.Agrees desc)
    (hopen : (task.run channels task.slot).silent = false) :
    desc.named load = some (task.run channels task.slot).sample := by
  -- a store that opens the gate for the latest description does so when its sample is loaded
  have hopened : task.store.opens = true →
      desc.named load = some (channels task.slot).sample := by
    intro hopens
    obtain ⟨hne, other, hother, hshot, hsame⟩ := hagrees (by rw [hopens]; rfl)
    have hremembered : other.samplePath = (channels task.slot).loadedPath :=
      hsound.2 hopens other hother hshot
    rw [ChannelDesc.named_of_ne hne, ← hsame, hremembered]
    exact hknows (by rw [← hremembered, hsame]; exact hne)
  rw [Task.run, Function.update_self] at hopen ⊢
  cases hstore : task.store with
  | oneShot value =>
    rw [hstore] at hopen hopened
    cases value with
    | false => exact hopened rfl
    | true => exact hnamed (by simp_all [Channel.silent, Channel.store])
  | sampleReady value =>
    rw [hstore] at hopen hopened
    cases value with
    | true => exact hopened rfl
    | false => exact hnamed (by simp_all [Channel.silent, Channel.store])
  | reopen hash =>
    rw [hstore] at hopened
    exact hopened rfl
  | sample path sample =>
    -- the sampler is given another sample behind an open gate
    rw [hstore] at hopen hagrees
    have hstill : (channels task.slot).silent = false := hopen
    obtain ⟨hne, other, hother, -, hsame⟩ := hagrees (by rw [hstill]; rfl)
    obtain ⟨hload, source, hsource, rfl⟩ := hsound.1 path sample hstore
    obtain rfl : source = other :=
      Option.some_inj.1 ((Option.mem_def.1 hsource).symm.trans (Option.mem_def.1 hother))
    rw [ChannelDesc.named_of_ne hne, ← hsame]
    exact hload
  | _ =>
    rw [hstore] at hopen
    exact hnamed hopen

end Work

/-- The store is the housekeeping thread's next one. -/
theorem Guarded.work (h : s.Guarded load) {task : Task α} {tasks : List (Task α)}
    (htasks : s.tasks = task :: tasks) (hcareful : s.Careful .work) :
    ({ s with channels := task.run s.channels, tasks } : System α).Guarded load := by
  have hlegit := h.legit
  rw [htasks] at hlegit
  obtain ⟨hsound, hrest⟩ := hlegit
  refine ⟨fun slot => ?_, ?_, fun slot desc hdesc hone hopen => ?_⟩
  · dsimp only
    by_cases hslot : slot = task.slot
    · exact hslot ▸ knows_run (h.knows task.slot) hsound
    · rw [run_of_ne s.channels hslot]
      exact h.knows slot
  · dsimp only
    rw [loadedPath_run]
    exact hrest
  · dsimp only at hdesc hopen ⊢
    by_cases hslot : slot = task.slot
    · subst hslot
      exact named_run (h.knows task.slot) hsound (h.named task.slot desc hdesc hone)
        (hcareful task (by rw [htasks]; rfl) desc hdesc hone) hopen
    · rw [run_of_ne s.channels hslot] at hopen ⊢
      exact h.named slot desc hdesc hone hopen

theorem Guarded.step (h : s.Guarded load) (hcareful : s.Careful label)
    (hstep : s.step load label = some s') : s'.Guarded load := by
  cases label with
  | setChannels descs =>
    obtain rfl := Option.some.inj hstep
    exact h.setChannels hcareful
  | take =>
    unfold System.step at hstep
    dsimp only at hstep
    split at hstep
    next descs htasks hpending =>
      obtain rfl := Option.some.inj hstep
      exact ⟨h.knows, legit_passTasks, h.named⟩
    next => cases hstep
  | work =>
    unfold System.step at hstep
    cases htasks : s.tasks with
    | nil =>
      rw [htasks] at hstep
      cases hstep
    | cons task tasks =>
      rw [htasks] at hstep
      obtain rfl := Option.some.inj hstep
      exact h.work htasks hcareful
  | render slot audioStart =>
    obtain rfl := Option.some.inj hstep
    exact ⟨h.knows, h.legit, h.named⟩

theorem Guarded.run (h : s.Guarded load) {labels : List Label}
    (hcareful : s.CarefulAll load labels) {before : List Label} (hbefore : before <+: labels)
    (hrun : (threads load).run s before = some s') : s'.Guarded load := by
  induction before generalizing s labels with
  | nil =>
    obtain rfl := Option.some.inj hrun
    exact h
  | cons label before ih =>
    obtain ⟨rest, rfl⟩ := hbefore
    obtain ⟨between, hstep, hrun⟩ := Option.bind_eq_some_iff.1 hrun
    exact ih (h.step hcareful.1 hstep) (hcareful.2 between hstep) (List.prefix_append _ _) hrun

theorem silent_of_triggers {slot : Slot} {audioStart : Bool}
    (htriggers : s.triggers slot audioStart = true) : (s.channels slot).silent = false := by
  unfold triggers at htriggers
  unfold Channel.silent at htriggers ⊢
  cases hone : (s.channels slot).oneShot with
  | false => rfl
  | true => cases audioStart <;> simp_all

/-- Where the gates are guarded, what is started is what was described. -/
theorem Guarded.not_strange (h : s.Guarded load) {slot : Slot} {audioStart : Bool}
    (htriggers : s.triggers slot audioStart = true) : ¬s.Strange load slot := by
  rintro ⟨desc, hdesc, hone, hother⟩
  exact hother (h.named slot desc hdesc hone (silent_of_triggers htriggers))

/-- **A one-shot channel never plays a stranger's sample**, in every careful run. -/
theorem gated_run {fallback : α} {labels : List Label}
    (hcareful : (start fallback).CarefulAll load labels) : Faithful load fallback labels := by
  intro before slot audioStart s hprefix hrun htriggers
  have hbefore : before <+: labels := (List.prefix_append _ _).trans hprefix
  exact ((guarded_start fallback).run hcareful hbefore hrun).not_strange htriggers

/-- The kick is described, and then the snare: after the housekeeping thread is done with the kick,
or when it has just begun to load it. -/
def twoEdits (overtaken : Bool) : List Label :=
  let kick : Label := .setChannels [{ samplePath := "kick.wav", oneShot := true }]
  let snare : Label := .setChannels [{ samplePath := "snare.wav", oneShot := true }]
  let slot : Slot := ⟨0, by decide⟩
  if overtaken then
    [kick, .take, .work, .work, snare, .work, .work, .work, .render slot true]
  else
    [kick, .take, .work, .work, .work, .work, .work, .render slot true, snare, .render slot true]


instance decidableCareful (s : System α) : (label : Label) → Decidable (s.Careful label)
  | .setChannels _ => inferInstanceAs (Decidable (∀ _ : Slot, ∀ _ ∈ _, _ → _ → _ → _))
  | .work => inferInstanceAs (Decidable (∀ task ∈ s.tasks.head?, ∀ _ ∈ _, _ → _ → _ ∧ _))
  | .take => .isTrue trivial
  | .render _ _ => .isTrue trivial

instance decidableCarefulAll (load : String → Option α) :
    (labels : List Label) → (s : System α) → Decidable (s.CarefulAll load labels)
  | [], _ => .isTrue trivial
  | label :: labels, s =>
    have := decidableCarefulAll load labels
    inferInstanceAs (Decidable (s.Careful label ∧ ∀ s' ∈ s.step load label, s'.CarefulAll load labels))

theorem gated_run_twoEdits : Faithful Rack.twoFiles 0 (twoEdits false) :=
  gated_run (by decide +kernel)

/-- The load of the kick opens the gate that the snare had closed. -/
theorem not_faithful_overtaken : ¬Faithful Rack.twoFiles 0 (twoEdits true) := by
  intro h
  have hrun : ((threads Rack.twoFiles).run (start 0) (twoEdits true).dropLast).map (fun s =>
      (s.triggers ⟨0, by decide⟩ true, (s.channels ⟨0, by decide⟩).sample, s.latest)) =
      some (true, 1, [{ samplePath := "snare.wav", oneShot := true }]) := by decide +kernel
  obtain ⟨s, hrun, hs⟩ := Option.map_eq_some_iff.1 hrun
  obtain ⟨htriggers, hsample, hlatest⟩ := by simpa only [Prod.mk.injEq] using hs
  refine h _ ⟨0, by decide⟩ true s (List.prefix_refl _) hrun htriggers ⟨_, by rw [hlatest]; rfl, rfl, ?_⟩
  rw [hsample]
  decide +kernel

end System

end OneBeat.ChannelSync
