import Mathlib.Data.List.FinRange
import Mathlib.Logic.Function.Basic

/-!
# The channels of the rack

How `core/engine.cpp` brings its channels in line with the project: `setChannels` closes, on the
caller's thread, the gate of each one-shot channel that has another sample to wait for;
`applyChannelSync`, on the housekeeping thread, loads the samples and opens the gates.

Every atomic store of `applyChannelSync` is kept apart (`Store`), so that a pass can be interleaved
with other threads; here the passes are run whole.

**Main theorem** (`Rack.converged_run_iff`): when a pass has run on the last descriptions, the
samplers hold what they were described to exactly when every path names a sample that can be
loaded, or a one-shot channel waits for one that cannot.  The sample of a channel whose path is
empty stays in the sampler.

Levels, routing and the windows of audio clips are left out.
-/

namespace OneBeat

def maxRackChannels : ℕ := 64

namespace ChannelSync

variable {α : Type*}

/-! ### One channel -/

/-- FNV-1a over the bytes of a path. -/
def samplePathHash (path : String) : UInt64 :=
  if path = "" then 0
  else path.toUTF8.toList.foldl (fun hash byte => (hash ^^^ byte.toUInt64) * 0x100000001B3)
    0xCBF29CE484222325

structure ChannelDesc where
  samplePath : String := ""
  oneShot : Bool := false
  deriving DecidableEq

/-- A channel.  Its sampler always holds a sample: `prepare` puts the fallback tone in, and nothing
takes one out. -/
structure Channel (α : Type*) where
  active : Bool := false
  oneShot : Bool := false
  /-- The gate of a one-shot channel. -/
  sampleReady : Bool := true
  loadedSampleHash : UInt64 := 0
  loadedPath : String := ""
  sample : α

/-- A store of `applyChannelSync`. -/
inductive Store (α : Type*)
  | oneShot (value : Bool)
  | sampleReady (value : Bool)
  /-- The sampler takes a sample, and its path is remembered. -/
  | sample (path : String) (sample : α)
  /-- The path is forgotten; the sampler keeps what it holds. -/
  | forget
  | loadedSampleHash (hash : UInt64)
  /-- The gate opens if the sample that was loaded is the one asked for. -/
  | reopen (hash : UInt64)
  | active (value : Bool)

namespace Channel

/-- A channel that sounds nothing new: its gate is closed. -/
def silent (channel : Channel α) : Bool := channel.oneShot && !channel.sampleReady

def store (channel : Channel α) : Store α → Channel α
  | .oneShot value => { channel with oneShot := value }
  | .sampleReady value => { channel with sampleReady := value }
  | .sample path sample => { channel with loadedPath := path, sample }
  | .forget => { channel with loadedPath := "" }
  | .loadedSampleHash hash => { channel with loadedSampleHash := hash }
  | .reopen hash =>
    { channel with sampleReady := channel.sampleReady || hash = channel.loadedSampleHash }
  | .active value => { channel with active := value }

/-- What `setChannels` stores in a channel that is described. -/
def describe (desc : ChannelDesc) (channel : Channel α) : Channel α :=
  { channel with
    active := true
    oneShot := desc.oneShot
    sampleReady :=
      if desc.oneShot && samplePathHash desc.samplePath ≠ channel.loadedSampleHash then false
      else if !desc.oneShot then true
      else channel.sampleReady }

/-- What `setChannels` stores in a channel past the last one; slot 0 of an empty rack stays active. -/
def retire (audition : Bool) (channel : Channel α) : Channel α :=
  { channel with active := audition, oneShot := false, sampleReady := true }

end Channel

/-- The stores for a channel that is described; `load` decodes the file under a path. -/
def syncStores (load : String → Option α) (loadedPath : String) (desc : ChannelDesc) :
    List (Store α) :=
  .oneShot desc.oneShot ::
    (if desc.samplePath ≠ loadedPath then
      (if desc.oneShot then [.sampleReady false] else []) ++
        (if desc.samplePath = "" then [.forget, .loadedSampleHash 0, .sampleReady true]
        else
          match load desc.samplePath with
          | some sample =>
            [.sample desc.samplePath sample,
              .loadedSampleHash (samplePathHash desc.samplePath), .sampleReady true]
          | none => [])
    else if desc.oneShot then [.reopen (samplePathHash desc.samplePath)]
    else []) ++
    [.active true]

/-! ### All channels -/

abbrev Slot : Type := Fin maxRackChannels

def setChannels (descs : List ChannelDesc) (channels : Slot → Channel α) : Slot → Channel α :=
  fun slot =>
    match descs[slot.val]? with
    | some desc => (channels slot).describe desc
    | none => (channels slot).retire (slot.val = 0 && descs.isEmpty)

/-- The stores of a pass for one slot; slot 0 is left as it is when there are no channels. -/
def slotStores (load : String → Option α) (channels : Slot → Channel α) (descs : List ChannelDesc)
    (slot : Slot) : List (Store α) :=
  match descs[slot.val]? with
  | some desc => syncStores load (channels slot).loadedPath desc
  | none => if slot.val = 0 then [] else [.active false, .oneShot false, .sampleReady true]

/-- A store that is still to be made, and the description it is made for. -/
structure Task (α : Type*) where
  slot : Slot
  desc : Option ChannelDesc
  store : Store α

def Task.run (channels : Slot → Channel α) (task : Task α) : Slot → Channel α :=
  Function.update channels task.slot ((channels task.slot).store task.store)

/-- The stores of a pass, in their order. -/
def passTasks (load : String → Option α) (channels : Slot → Channel α) (descs : List ChannelDesc) :
    List (Task α) :=
  (List.finRange maxRackChannels).flatMap fun slot =>
    (slotStores load channels descs slot).map (Task.mk slot descs[slot.val]?)

def applyChannelSync (load : String → Option α) (descs : List ChannelDesc)
    (channels : Slot → Channel α) : Slot → Channel α :=
  (passTasks load channels descs).foldl Task.run channels

variable {load : String → Option α}

theorem foldl_run_map {slot : Slot} {desc : Option ChannelDesc} {stores : List (Store α)}
    {channels : Slot → Channel α} :
    (stores.map (Task.mk slot desc)).foldl Task.run channels =
      Function.update channels slot (stores.foldl Channel.store (channels slot)) := by
  induction stores generalizing channels with
  | nil => exact (Function.update_eq_self slot channels).symm
  | cons store stores ih =>
    rw [List.map_cons, List.foldl_cons, ih, List.foldl_cons]
    simp only [Task.run, Function.update_self, Function.update_idem]

theorem foldl_run_flatMap {stores : Slot → List (Store α)} {desc : Slot → Option ChannelDesc}
    {slots : List Slot} (hslots : slots.Nodup) {channels : Slot → Channel α} {slot : Slot} :
    (slots.flatMap fun slot => (stores slot).map (Task.mk slot (desc slot))).foldl Task.run channels
        slot =
      if slot ∈ slots then (stores slot).foldl Channel.store (channels slot) else channels slot := by
  induction slots generalizing channels with
  | nil => simp
  | cons first slots ih =>
    obtain ⟨hfirst, hslots⟩ := List.nodup_cons.1 hslots
    rw [List.flatMap_cons, List.foldl_append, foldl_run_map, ih hslots]
    by_cases heq : slot = first
    · subst heq
      simp [hfirst]
    · simp [heq]

/-- **A pass makes, in every slot, the stores of that slot.** -/
theorem applyChannelSync_apply {descs : List ChannelDesc} {channels : Slot → Channel α}
    (slot : Slot) :
    applyChannelSync load descs channels slot =
      (slotStores load channels descs slot).foldl Channel.store (channels slot) := by
  unfold applyChannelSync passTasks
  rw [foldl_run_flatMap (List.nodup_finRange _), if_pos (List.mem_finRange slot)]

/-! ### What a pass leaves -/

namespace Channel

/-- What a channel remembers of the sample it loaded last. -/
structure Recorded (load : String → Option α) (channel : Channel α) : Prop where
  hash : channel.loadedSampleHash = samplePathHash channel.loadedPath
  loadable : channel.loadedPath ≠ "" → (load channel.loadedPath).isSome = true

/-- The sampler holds the sample whose path is remembered. -/
def Knows (load : String → Option α) (channel : Channel α) : Prop :=
  channel.loadedPath ≠ "" → load channel.loadedPath = some channel.sample

/-- A pass on the description changes what the channel remembers. -/
def Renews (load : String → Option α) (channel : Channel α) (desc : ChannelDesc) : Prop :=
  desc.samplePath ≠ channel.loadedPath ∧
    (desc.samplePath = "" ∨ (load desc.samplePath).isSome = true)

/-- A channel after a pass. -/
def sync (load : String → Option α) (desc : ChannelDesc) (channel : Channel α) : Channel α :=
  (syncStores load channel.loadedPath desc).foldl store channel

variable {channel : Channel α} {desc : ChannelDesc}

theorem sync_of_empty (hne : desc.samplePath ≠ channel.loadedPath) (hempty : desc.samplePath = "") :
    channel.sync load desc =
      { channel with
        active := true, oneShot := desc.oneShot, sampleReady := true, loadedSampleHash := 0
        loadedPath := "" } := by
  unfold sync syncStores
  rw [if_pos hne, if_pos hempty]
  cases desc.oneShot <;> rfl

theorem sync_of_loaded (hne : desc.samplePath ≠ channel.loadedPath) (hpath : desc.samplePath ≠ "")
    {sample : α} (hload : load desc.samplePath = some sample) :
    channel.sync load desc =
      { channel with
        active := true, oneShot := desc.oneShot, sampleReady := true
        loadedSampleHash := samplePathHash desc.samplePath, loadedPath := desc.samplePath
        sample } := by
  unfold sync syncStores
  rw [if_pos hne, if_neg hpath, hload]
  cases desc.oneShot <;> rfl

theorem sync_of_missing (hne : desc.samplePath ≠ channel.loadedPath) (hpath : desc.samplePath ≠ "")
    (hload : load desc.samplePath = none) :
    channel.sync load desc =
      { channel with
        active := true, oneShot := desc.oneShot
        sampleReady := !desc.oneShot && channel.sampleReady } := by
  unfold sync syncStores
  rw [if_pos hne, if_neg hpath, hload]
  cases desc.oneShot <;> rfl

theorem sync_of_same (hsame : desc.samplePath = channel.loadedPath) :
    channel.sync load desc =
      { channel with
        active := true, oneShot := desc.oneShot
        sampleReady := channel.sampleReady ||
          (desc.oneShot && samplePathHash desc.samplePath = channel.loadedSampleHash) } := by
  unfold sync syncStores
  rw [if_neg (not_not_intro hsame)]
  cases desc.oneShot <;> simp [store]

/-- The four things a pass can do to a channel. -/
theorem sync_cases (load : String → Option α) (channel : Channel α) (desc : ChannelDesc) :
    desc.samplePath = channel.loadedPath ∨
      (desc.samplePath ≠ channel.loadedPath ∧ desc.samplePath = "") ∨
      (desc.samplePath ≠ channel.loadedPath ∧ desc.samplePath ≠ "" ∧
        load desc.samplePath = none) ∨
      ∃ sample, desc.samplePath ≠ channel.loadedPath ∧ desc.samplePath ≠ "" ∧
        load desc.samplePath = some sample := by
  by_cases hsame : desc.samplePath = channel.loadedPath
  · exact .inl hsame
  · by_cases hempty : desc.samplePath = ""
    · exact .inr (.inl ⟨hsame, hempty⟩)
    · cases hload : load desc.samplePath with
      | none => exact .inr (.inr (.inl ⟨hsame, hempty, rfl⟩))
      | some sample => exact .inr (.inr (.inr ⟨sample, hsame, hempty, rfl⟩))

theorem Recorded.sync (h : channel.Recorded load) : (channel.sync load desc).Recorded load := by
  rcases sync_cases load channel desc with hsame | ⟨hne, hempty⟩ | ⟨hne, hpath, hload⟩ |
    ⟨sample, hne, hpath, hload⟩
  · rw [sync_of_same hsame]
    exact ⟨h.hash, h.loadable⟩
  · rw [sync_of_empty hne hempty]
    exact ⟨rfl, fun hpath => absurd rfl hpath⟩
  · rw [sync_of_missing hne hpath hload]
    exact ⟨h.hash, h.loadable⟩
  · rw [sync_of_loaded hne hpath hload]
    exact ⟨rfl, fun _ => by rw [hload]; rfl⟩

theorem sync_of_not_renews (h : ¬channel.Renews load desc) :
    (channel.sync load desc).loadedPath = channel.loadedPath ∧
      (channel.sync load desc).sample = channel.sample := by
  rcases sync_cases load channel desc with hsame | ⟨hne, hempty⟩ | ⟨hne, hpath, hload⟩ |
    ⟨sample, hne, hpath, hload⟩
  · rw [sync_of_same hsame]
    exact ⟨rfl, rfl⟩
  · exact absurd ⟨hne, .inl hempty⟩ h
  · rw [sync_of_missing hne hpath hload]
    exact ⟨rfl, rfl⟩
  · exact absurd ⟨hne, .inr (by rw [hload]; rfl)⟩ h

theorem knows_of_renews (h : channel.Renews load desc) : (channel.sync load desc).Knows load := by
  rcases sync_cases load channel desc with hsame | ⟨hne, hempty⟩ | ⟨hne, hpath, hload⟩ |
    ⟨sample, hne, hpath, hload⟩
  · exact absurd hsame h.1
  · rw [sync_of_empty hne hempty]
    exact fun hpath => absurd rfl hpath
  · rcases h.2 with hempty | hsome
    · exact absurd hempty hpath
    · rw [hload] at hsome
      cases hsome
  · rw [sync_of_loaded hne hpath hload]
    exact fun _ => hload

theorem Knows.sync (h : channel.Knows load) : (channel.sync load desc).Knows load := by
  by_cases hrenews : channel.Renews load desc
  · exact knows_of_renews hrenews
  · obtain ⟨hpath, hsample⟩ := sync_of_not_renews hrenews
    unfold Knows
    rw [hpath, hsample]
    exact h

/-- A channel as the last pass on a description left it. -/
structure Synced (load : String → Option α) (desc : ChannelDesc) (channel : Channel α) : Prop where
  loaded : desc.samplePath ≠ "" → (load desc.samplePath).isSome = true →
    channel.loadedPath = desc.samplePath
  emptied : desc.samplePath = "" → channel.silent = false
  missing : desc.samplePath ≠ "" → load desc.samplePath = none → channel.silent = desc.oneShot

theorem synced_sync (h : channel.Recorded load) : (channel.sync load desc).Synced load desc := by
  rcases sync_cases load channel desc with hsame | ⟨hne, hempty⟩ | ⟨hne, hpath, hload⟩ |
    ⟨sample, hne, hpath, hload⟩
  · rw [sync_of_same hsame]
    refine ⟨fun _ _ => hsame.symm, fun _ => ?_, fun hpath hload => ?_⟩
    · -- what is remembered is what is asked for, so the gate opens
      simp +contextual [silent, hsame, h.hash]
    · have hsome := h.loadable (hsame ▸ hpath)
      rw [← hsame, hload] at hsome
      cases hsome
  · rw [sync_of_empty hne hempty]
    exact ⟨fun hpath => absurd hempty hpath, fun _ => by simp [silent],
      fun hpath => absurd hempty hpath⟩
  · rw [sync_of_missing hne hpath hload]
    refine ⟨fun _ hsome => ?_, fun hempty => absurd hempty hpath, fun _ _ => ?_⟩
    · rw [hload] at hsome
      cases hsome
    · cases desc.oneShot <;> simp [silent]
  · rw [sync_of_loaded hne hpath hload]
    refine ⟨fun _ _ => rfl, fun hempty => absurd hempty hpath, fun _ hnone => ?_⟩
    rw [hload] at hnone
    cases hnone

end Channel

/-! ### Runs of whole passes -/

/-- The rack between passes. -/
structure Rack (load : String → Option α) where
  channels : Slot → Channel α
  recorded : ∀ slot, (channels slot).Recorded load
  /-- What `setChannels` was handed last; for the statements only. -/
  latest : List ChannelDesc := []
  pending : Option (List ChannelDesc) := none
  /-- What each pass so far was run on; for the statements only. -/
  passes : List (List ChannelDesc) := []

inductive Call
  | setChannels (descs : List ChannelDesc)
  | pass

/-- A slot after a pass. -/
theorem applyChannelSync_eq {descs : List ChannelDesc} {channels : Slot → Channel α}
    (slot : Slot) :
    applyChannelSync load descs channels slot =
      match descs[slot.val]? with
      | some desc => (channels slot).sync load desc
      | none =>
        if slot.val = 0 then channels slot
        else { channels slot with active := false, oneShot := false, sampleReady := true } := by
  rw [applyChannelSync_apply, slotStores]
  cases descs[slot.val]? with
  | some desc => rfl
  | none =>
    dsimp only
    split_ifs <;> rfl

theorem recorded_setChannels {descs : List ChannelDesc} {channels : Slot → Channel α}
    (h : ∀ slot, (channels slot).Recorded load) (slot : Slot) :
    (setChannels descs channels slot).Recorded load := by
  unfold setChannels
  cases descs[slot.val]? with
  | some desc | none => exact ⟨(h slot).hash, (h slot).loadable⟩

theorem recorded_applyChannelSync {descs : List ChannelDesc} {channels : Slot → Channel α}
    (h : ∀ slot, (channels slot).Recorded load) (slot : Slot) :
    (applyChannelSync load descs channels slot).Recorded load := by
  rw [applyChannelSync_eq]
  cases descs[slot.val]? with
  | some desc => exact (h slot).sync
  | none =>
    dsimp only
    split_ifs
    · exact h slot
    · exact ⟨(h slot).hash, (h slot).loadable⟩

namespace Rack

/-- The rack after a call; a pass takes what waits. -/
def call (rack : Rack load) : Call → Rack load
  | .setChannels descs =>
    { channels := ChannelSync.setChannels descs rack.channels
      recorded := recorded_setChannels rack.recorded
      latest := descs, pending := some descs, passes := rack.passes }
  | .pass =>
    match rack.pending with
    | none => rack
    | some descs =>
      { channels := applyChannelSync load descs rack.channels
        recorded := recorded_applyChannelSync rack.recorded
        latest := rack.latest, pending := none, passes := rack.passes ++ [descs] }

def run (rack : Rack load) (calls : List Call) : Rack load := calls.foldl call rack

/-- Nothing has been described yet. -/
def start (channels : Slot → Channel α) (recorded : ∀ slot, (channels slot).Recorded load) :
    Rack load := { channels, recorded }

/-- Each channel holds the sample of its path, and is silent when there is none. -/
def Converged (rack : Rack load) : Prop :=
  ∀ (slot : Slot) desc, rack.latest[slot.val]? = some desc →
    match if desc.samplePath = "" then none else load desc.samplePath with
    | some sample => (rack.channels slot).sample = sample
    | none => (rack.channels slot).silent = true

/-- One of the passes changed what the channel remembered at first. -/
def Renewed (channel : Channel α) (slot : Slot) (rack : Rack load) : Prop :=
  ∃ descs ∈ rack.passes, ∃ desc, descs[slot.val]? = some desc ∧ channel.Renews load desc

/-- Every path that was described last names a sample that can be loaded, and that the sampler had
from the start or that a pass could tell from what the channel remembered; or it names one that
cannot be loaded, and the channel is a one-shot. -/
def Loadable (channels : Slot → Channel α) (rack : Rack load) : Prop :=
  ∀ (slot : Slot) desc, rack.latest[slot.val]? = some desc →
    desc.samplePath ≠ "" ∧
      match load desc.samplePath with
      | some sample => (channels slot).sample = sample ∨ rack.Renewed (channels slot) slot
      | none => desc.oneShot = true

/-- What a run has done to the channels it started with. -/
structure Follows (channels : Slot → Channel α) (rack : Rack load) : Prop where
  waiting : ∀ descs, rack.pending = some descs → rack.latest = descs
  unchanged : ∀ slot, ¬rack.Renewed (channels slot) slot →
    (rack.channels slot).loadedPath = (channels slot).loadedPath ∧
      (rack.channels slot).sample = (channels slot).sample
  known : ∀ slot, rack.Renewed (channels slot) slot → (rack.channels slot).Knows load
  synced : rack.pending = none → ∀ slot desc, rack.latest[slot.val]? = some desc →
    (rack.channels slot).Synced load desc

variable {channels : Slot → Channel α} {rack : Rack load}

theorem follows_start (recorded : ∀ slot, (channels slot).Recorded load) :
    (start channels recorded).Follows channels where
  waiting _ hdescs := by cases hdescs
  unchanged _ _ := ⟨rfl, rfl⟩
  known := by
    rintro slot ⟨descs, hdescs, -⟩
    cases hdescs
  synced _ slot desc hdesc := by simp [start] at hdesc

/-- What `setChannels` stores, the housekeeping thread does not remember. -/
theorem setChannels_remembers (channels : Slot → Channel α) (descs : List ChannelDesc) (slot : Slot) :
    (setChannels descs channels slot).loadedPath = (channels slot).loadedPath ∧
      (setChannels descs channels slot).sample = (channels slot).sample := by
  unfold setChannels
  cases descs[slot.val]? <;> exact ⟨rfl, rfl⟩

theorem renewed_concat {passes : List (List ChannelDesc)} {descs : List ChannelDesc}
    {channel : Channel α} {slot : Slot} {after : Rack load} (hafter : after.passes = passes ++ [descs])
    (hbefore : rack.passes = passes) : after.Renewed channel slot ↔
      rack.Renewed channel slot ∨ ∃ desc, descs[slot.val]? = some desc ∧ channel.Renews load desc := by
  unfold Renewed
  rw [hafter, hbefore]
  simp only [List.mem_append, List.mem_singleton, or_and_right, exists_or, exists_eq_left]

/-- A pass that is told nothing about a slot leaves what is remembered. -/
theorem applyChannelSync_none (channels : Slot → Channel α) {descs : List ChannelDesc} {slot : Slot}
    (hnone : descs[slot.val]? = none) :
    (applyChannelSync load descs channels slot).loadedPath = (channels slot).loadedPath ∧
      (applyChannelSync load descs channels slot).sample = (channels slot).sample := by
  rw [applyChannelSync_eq, hnone]
  dsimp only
  split_ifs <;> exact ⟨rfl, rfl⟩

theorem Follows.pass (h : rack.Follows channels) {descs : List ChannelDesc}
    (hpending : rack.pending = some descs) : (rack.call .pass).Follows channels := by
  have hcall : rack.call .pass =
      { channels := applyChannelSync load descs rack.channels
        recorded := recorded_applyChannelSync rack.recorded
        latest := rack.latest, pending := none, passes := rack.passes ++ [descs] } := by
    simp only [call, hpending]
  rw [hcall]
  refine ⟨fun _ hdescs => (by cases hdescs), fun slot hrenewed => ?_, fun slot hrenewed => ?_,
    fun _ slot desc hdesc => ?_⟩
  · rw [renewed_concat rfl rfl, not_or] at hrenewed
    obtain ⟨hpath, hsample⟩ := h.unchanged slot hrenewed.1
    dsimp only
    cases hdesc : descs[slot.val]? with
    | none =>
      obtain ⟨hpath', hsample'⟩ := applyChannelSync_none rack.channels hdesc
      exact ⟨hpath'.trans hpath, hsample'.trans hsample⟩
    | some desc =>
      have hkeeps : ¬(rack.channels slot).Renews load desc := by
        unfold Channel.Renews
        rw [hpath]
        exact fun hrenews => hrenewed.2 ⟨desc, hdesc, hrenews⟩
      obtain ⟨hpath', hsample'⟩ := Channel.sync_of_not_renews hkeeps
      rw [applyChannelSync_eq, hdesc]
      exact ⟨hpath'.trans hpath, hsample'.trans hsample⟩
  · rw [renewed_concat rfl rfl] at hrenewed
    dsimp only
    cases hdesc : descs[slot.val]? with
    | none =>
      have hrenewed : rack.Renewed (channels slot) slot := by
        rcases hrenewed with hrenewed | ⟨desc, hsome, -⟩
        · exact hrenewed
        · rw [hdesc] at hsome
          cases hsome
      obtain ⟨hpath', hsample'⟩ := applyChannelSync_none rack.channels hdesc
      unfold Channel.Knows
      rw [hpath', hsample']
      exact h.known slot hrenewed
    | some desc =>
      rw [applyChannelSync_eq, hdesc]
      dsimp only
      by_cases hold : rack.Renewed (channels slot) slot
      · exact (h.known slot hold).sync
      · -- nothing was renewed before, so the channel remembers what it did at first
        rcases hrenewed with hrenewed | ⟨desc', hdesc', hrenews⟩
        · exact absurd hrenewed hold
        obtain rfl : desc = desc' := Option.some_inj.1 (hdesc.symm.trans hdesc')
        refine Channel.knows_of_renews ?_
        unfold Channel.Renews
        rw [(h.unchanged slot hold).1]
        exact hrenews
  · dsimp only at hdesc ⊢
    rw [h.waiting descs hpending] at hdesc
    rw [applyChannelSync_eq, hdesc]
    exact Channel.synced_sync (rack.recorded slot)

theorem Follows.setChannels (h : rack.Follows channels) (descs : List ChannelDesc) :
    (rack.call (.setChannels descs)).Follows channels := by
  refine ⟨fun _ hdescs => Option.some_inj.1 hdescs, fun slot hrenewed => ?_,
    fun slot hrenewed => ?_, fun hpending => by cases hpending⟩
  · obtain ⟨hpath, hsample⟩ := setChannels_remembers rack.channels descs slot
    obtain ⟨hpath', hsample'⟩ := h.unchanged slot hrenewed
    exact ⟨hpath.trans hpath', hsample.trans hsample'⟩
  · obtain ⟨hpath, hsample⟩ := setChannels_remembers rack.channels descs slot
    unfold Channel.Knows
    simp only [call, hpath, hsample]
    exact h.known slot hrenewed

theorem Follows.run (h : rack.Follows channels) (calls : List Call) :
    (rack.run calls).Follows channels := by
  induction calls generalizing rack with
  | nil => exact h
  | cons head calls ih =>
    refine ih ?_
    cases head with
    | setChannels descs => exact h.setChannels descs
    | pass =>
      cases hpending : rack.pending with
      | none =>
        have hcall : rack.call .pass = rack := by simp only [call, hpending]
        rw [hcall]
        exact h
      | some descs => exact h.pass hpending

/-- **Where nothing waits any more, the channels have converged exactly when their paths can be
loaded.** -/
theorem Follows.converged_iff (h : rack.Follows channels) (hpending : rack.pending = none) :
    rack.Converged ↔ rack.Loadable channels := by
  refine forall_congr' fun slot => forall_congr' fun desc => forall_congr' fun hdesc => ?_
  have hsynced := h.synced hpending slot desc hdesc
  by_cases hempty : desc.samplePath = ""
  · simp [hempty, hsynced.emptied hempty]
  rw [if_neg hempty]
  cases hload : load desc.samplePath with
  | none => simp [hempty, hsynced.missing hempty hload]
  | some sample =>
    simp only [ne_eq, hempty, not_false_eq_true, true_and]
    have hpath := hsynced.loaded hempty (by rw [hload]; rfl)
    by_cases hrenewed : rack.Renewed (channels slot) slot
    · have hknown := h.known slot hrenewed (hpath ▸ hempty)
      rw [hpath, hload, Option.some_inj] at hknown
      simp [hrenewed, hknown]
    · simp [hrenewed, (h.unchanged slot hrenewed).2]

/-- **Channel sync converges exactly where the paths can be loaded.** -/
theorem converged_run_iff (channels : Slot → Channel α)
    (recorded : ∀ slot, (channels slot).Recorded load) (calls : List Call)
    (hpending : ((start channels recorded).run calls).pending = none) :
    ((start channels recorded).run calls).Converged ↔
      ((start channels recorded).run calls).Loadable channels :=
  ((follows_start recorded).run calls).converged_iff hpending

/-- The channels of an engine that was just initialised. -/
def initial (fallback : α) : Slot → Channel α := fun _ => { sample := fallback }

theorem recorded_initial (fallback : α) (slot : Slot) :
    (initial fallback slot).Recorded load :=
  ⟨rfl, fun hpath => absurd rfl hpath⟩

/-- Two files; every other path cannot be loaded. -/
def twoFiles : String → Option ℕ
  | "kick.wav" => some 1
  | "snare.wav" => some 2
  | _ => none

theorem converged_run_iff_twoFiles :
    ((start (initial 0) (recorded_initial 0) : Rack twoFiles).run
        [.setChannels [{ samplePath := "kick.wav" }], .pass]).Converged ↔
      ((start (initial 0) (recorded_initial 0) : Rack twoFiles).run
        [.setChannels [{ samplePath := "kick.wav" }], .pass]).Loadable (initial 0) :=
  converged_run_iff (initial 0) (recorded_initial 0) _ rfl

/-- A lane whose sample is taken away keeps it. -/
theorem not_converged_emptied :
    ¬((start (initial 0) (recorded_initial 0) : Rack twoFiles).run
      [.setChannels [{ samplePath := "kick.wav" }], .pass, .setChannels [{}], .pass]).Converged :=
  fun h => by
    have hsilent := h ⟨0, by decide⟩ {} rfl
    rw [if_pos rfl] at hsilent
    exact absurd hsilent (by decide +kernel)

end Rack

end ChannelSync

end OneBeat
