import OneBeat.Model.Bundle
import OneBeat.Session.HostedRuns
import OneBeat.Session.WrittenValues

/-!
# States that wait for their plug-ins

A project that is opened comes with chunks of plug-in state, by instrument.  A chunk waits until a
publish can hand it over: to the stand-in of a plug-in that is missing, or to whatever runs in the
slot of its instrument (the `pending_project_state` of `abi/onebeat_abi.cpp`).  It goes on waiting
when what it was handed to did not take it.

* `Restoring.Safe.publish` : a publish hands over nothing to a strange plug-in, as long as the
  instruments whose chunks wait have the plug-ins of the file.
* `OpenStates.hosting_of_reachable` : chunks are handed to the plug-ins of the session.
* `OpenStates.own_of_run` : so a run of calls does not, as long as no such instrument is given
  another plug-in (`OpenStates.KeepsOwn`).
* `OpenStates.not_own_thenBass` : one that is given another plug-in hands it the chunk of the old.
-/

namespace OneBeat

open Bundle (Chunk)

/-! ### Slots and their instruments -/

namespace Hosting

variable {h : Hosting} {host : InstrumentId → HostAnswer}

theorem owned_empty : ({} : Hosting).Owned := fun _ _ _ => nofun

/-- What goes on running is recorded where it goes. -/
theorem Owned.remap (howned : h.Owned) (hplaced : h.Placed) (rack : Rack) {channel : ℕ}
    (hlt : channel < maxRackChannels) {plugin : HostedPlugin}
    (hplugin : remapHostedInstruments h.slots (destination rack h.hosted) channel = some plugin) :
    ∃ slot, (kept rack h.hosted).get? plugin.owner = some slot ∧ slot.channel = channel ∧
      slot.pluginId = plugin.pluginId ∧ slot.path = plugin.path := by
  obtain ⟨before, hbefore, hslots, hdest⟩ :=
    (remapHostedInstruments_eq_some_iff (howned.destination_inj hplaced rack) hlt plugin).1 hplugin
  obtain ⟨slot, hslot, rfl, hid⟩ := howned before hbefore plugin hslots
  rw [destination_eq hplaced rack hslot] at hdest
  exact ⟨{ slot with channel }, (get?_kept rack h.hosted).2 ⟨slot, channel, hslot, hdest, rfl⟩,
    rfl, hid⟩

/-- What was installed is recorded. -/
theorem owned_of_mem {rack : Rack} {entry : ToHost}
    (hentry : entry ∈ toHost rack (kept rack h.hosted)) {plugin : HostedPlugin}
    (hplugin : (h.sync rack host).slots entry.channel = some plugin)
    (hinstalled : (host entry.id).installed = true) :
    ∃ slot, (h.sync rack host).hosted.get? plugin.owner = some slot ∧
      slot.channel = entry.channel ∧ slot.pluginId = plugin.pluginId ∧ slot.path = plugin.path := by
  rw [slots_sync_of_mem hentry, if_pos hinstalled, Option.some_inj] at hplugin
  subst hplugin
  exact ⟨hostedSlot host entry, get?_hosted_of_mem hentry, rfl, rfl, rfl⟩

/-- A publish of the same project keeps the records. -/
theorem Owned.sync (howned : h.Owned) (hplaced : h.Placed) (rack : Rack)
    (host : InstrumentId → HostAnswer) : (h.sync rack host).Owned := by
  intro channel hlt plugin hplugin
  by_cases hentry : ∃ entry ∈ toHost rack (kept rack h.hosted), entry.channel = channel
  · obtain ⟨entry, hentry, rfl⟩ := hentry
    cases hinstalled : (host entry.id).installed with
    | true => exact owned_of_mem hentry hplugin hinstalled
    | false =>
      -- the channel of an instrument that is loaded was left by whatever was on it
      rw [slots_sync_of_mem hentry, if_neg (by simp [hinstalled])] at hplugin
      obtain ⟨slot, hkept, hchannel, -⟩ := howned.remap hplaced rack hlt hplugin
      exact absurd hchannel (channel_ne_of_mem_toHost hentry hkept)
  · push Not at hentry
    rw [slots_sync_of_forall hentry] at hplugin
    obtain ⟨slot, hkept, hchannel, hid⟩ := howned.remap hplaced rack hlt hplugin
    exact ⟨slot, get?_hosted_of_kept hkept, hchannel, hid⟩

/-- Every slot that is occupied gets a plug-in of this rack. -/
def Refills (h : Hosting) (rack : Rack) (host : InstrumentId → HostAnswer) : Prop :=
  ∀ channel < maxRackChannels, (h.slots channel).isSome = true →
    (rack.entries[channel]?.any fun entry =>
      isHostedInstrument entry.2 && (host entry.1).installed) = true

instance (h : Hosting) (rack : Rack) (host : InstrumentId → HostAnswer) :
    Decidable (h.Refills rack host) := by
  unfold Refills
  infer_instance

/-- Nothing is kept of a project that was replaced. -/
theorem kept_clear (rack : Rack) (h : Hosting) : kept rack h.clear.hosted = .empty := by
  refine OrderedMap.ext_get? fun id => ?_
  rw [OrderedMap.get?_empty, Option.eq_none_iff_forall_ne_some]
  intro slot hslot
  obtain ⟨old, -, hold, -⟩ := (get?_kept rack h.clear.hosted).1 hslot
  cases hold

/-- Where every slot gets a plug-in of the new project, every slot is recorded. -/
theorem Refills.owned {rack : Rack} (hrefills : h.Refills rack host) :
    (h.clear.sync rack host).Owned := by
  intro channel hlt plugin hplugin
  have hloaded : (h.slots channel).isSome = true →
      ∃ entry ∈ toHost rack (kept rack h.clear.hosted), entry.channel = channel ∧
        (host entry.id).installed = true := by
    intro hsome
    obtain ⟨⟨id, instrument⟩, hindex, hok⟩ := (Option.any_eq_true _ _).1 (hrefills channel hlt hsome)
    obtain ⟨hhosted, hinstalled⟩ := Bool.and_eq_true_iff.1 hok
    refine ⟨⟨id, instrument, channel⟩, mem_toHost.2 ⟨hindex, hhosted, ?_, hlt⟩, rfl, hinstalled⟩
    rw [kept_clear]
    rfl
  by_cases hentry : ∃ entry ∈ toHost rack (kept rack h.clear.hosted), entry.channel = channel
  · obtain ⟨entry, hentry, rfl⟩ := hentry
    cases hinstalled : (host entry.id).installed with
    | true => exact owned_of_mem hentry hplugin hinstalled
    | false =>
      rw [slots_sync_of_mem hentry, if_neg (by simp [hinstalled])] at hplugin
      have hbefore : remapHostedInstruments h.slots
          (destination rack (OrderedMap.empty : OrderedMap InstrumentId HostedSlot)) entry.channel =
            h.slots entry.channel := congrFun remap_clear entry.channel
      obtain ⟨other, hother, hchannel, hinstalled'⟩ :=
        hloaded (by rw [← hbefore]; exact Option.isSome_iff_exists.2 ⟨plugin, hplugin⟩)
      have hsame := (mem_toHost.1 hother).1
      rw [hchannel, (mem_toHost.1 hentry).1, Option.some_inj, Prod.mk.injEq] at hsame
      rw [← hsame.1, hinstalled] at hinstalled'
      cases hinstalled'
  · push Not at hentry
    rw [slots_sync_of_forall hentry] at hplugin
    have hbefore : remapHostedInstruments h.slots
        (destination rack (OrderedMap.empty : OrderedMap InstrumentId HostedSlot)) channel =
          h.slots channel := congrFun remap_clear channel
    obtain ⟨entry, hmem, hchannel, -⟩ :=
      hloaded (by rw [← hbefore]; exact Option.isSome_iff_exists.2 ⟨plugin, hplugin⟩)
    exact absurd hchannel (hentry entry hmem)

end Hosting

/-- A plug-in that is hosted when an instrument has it. -/
def hostable (pluginId : String) : Bool := pluginId ≠ "" && !decide (pluginId = kSamplePluginId)

theorem isHostedInstrument_eq (instrument : Instrument) :
    isHostedInstrument instrument = hostable instrument.plugin.id := rfl

/-! ### Chunks -/

/-- A chunk that was handed over. -/
structure Handover where
  instrument : InstrumentId
  chunk : Chunk
  /-- The plug-in of the instrument in the file that was opened. -/
  referred : Option String
  /-- The plug-in the chunk was given to. -/
  given : String
  deriving DecidableEq

/-- The plug-in is the one that saved the chunk. -/
def Handover.Own (handover : Handover) : Prop := handover.referred = some handover.given

instance (handover : Handover) : Decidable handover.Own := by
  unfold Handover.Own
  infer_instance

/-- The plug-ins, and the chunks that wait for them. -/
structure Restoring where
  hosting : Hosting := {}
  /-- `pending_project_state`. -/
  pending : OrderedMap InstrumentId Chunk := .empty
  /-- The instruments of the file that was opened. -/
  opened : Rack := .empty
  /-- What was handed over so far; for the proofs only. -/
  handed : List Handover := []

namespace Restoring

def referred (r : Restoring) (id : InstrumentId) : Option String :=
  (r.opened.get? id).map fun instrument => instrument.plugin.id

def handOver (r : Restoring) (id : InstrumentId) (chunk : Chunk) (given : String) : Restoring :=
  { r with handed := r.handed ++ [⟨id, chunk, r.referred id, given⟩] }

/-- A stand-in is made with the chunk of its instrument, which goes on waiting. -/
def standIn (host : InstrumentId → HostAnswer) (r : Restoring) (entry : Hosting.ToHost) :
    Restoring :=
  if (Hosting.hostedSlot host entry).missing then
    match r.pending.get? entry.id with
    | none => r
    | some chunk => r.handOver entry.id chunk entry.instrument.plugin.id
  else r

/-- What runs in the slot of an instrument. -/
def pluginOf (r : Restoring) (id : InstrumentId) : Option HostedPlugin :=
  ((channelIndexOf r.hosting.rack id).filter (· < maxRackChannels)).bind r.hosting.slots

/-- Hand a chunk to what runs in the slot of its instrument; `takes` says whether that loads. -/
def load (takes : InstrumentId → Bool) (r : Restoring) (entry : InstrumentId × Chunk) :
    Restoring :=
  match r.pluginOf entry.1 with
  | none => r
  | some plugin =>
    let handed := r.handOver entry.1 entry.2 plugin.pluginId
    if takes entry.1 then { handed with pending := handed.pending.erase entry.1 } else handed

/-- What a publish does to the plug-ins and to the chunks that wait. -/
def publish (takes : InstrumentId → Bool) (r : Restoring) (publish : Publish) : Restoring :=
  let found := r.hosting.found publish
  let stood := (Hosting.toHost publish.rack (Hosting.kept publish.rack found.hosted)).foldl
    (standIn publish.host) r
  let synced := { stood with hosting := found.sync publish.rack publish.host }
  synced.pending.entries.foldl (load takes) synced

/-- The publishes of a call; `takes` answers for each of them in turn. -/
def publishAll : (ℕ → InstrumentId → Bool) → Restoring → List Publish → Restoring
  | _, r, [] => r
  | takes, r, publish :: publishes =>
    publishAll (fun turn => takes (turn + 1)) (r.publish (takes 0) publish) publishes

/-! ### Whose chunks wait -/

/-- If a chunk waits for the instrument, this is the plug-in of the file. -/
def Fits (r : Restoring) (id : InstrumentId) (pluginId : String) : Prop :=
  r.pending.contains id = true → hostable pluginId = true → r.referred id = some pluginId

instance (r : Restoring) (id : InstrumentId) (pluginId : String) :
    Decidable (r.Fits id pluginId) := by
  unfold Fits
  infer_instance

/-- The instruments whose chunks wait have the plug-ins of the file. -/
def Awaits (r : Restoring) (rack : Rack) : Prop :=
  ∀ id instrument, rack.get? id = some instrument → r.Fits id instrument.plugin.id

/-- Chunks were handed over, and no other waits. -/
structure Spends (r r' : Restoring) : Prop where
  opened : r'.opened = r.opened
  pending : ∀ id, r'.pending.contains id = true → r.pending.contains id = true

variable {r r' : Restoring}

theorem Spends.refl (r : Restoring) : r.Spends r := ⟨rfl, fun _ h => h⟩

theorem Spends.trans {r'' : Restoring} (h : r.Spends r') (h' : r'.Spends r'') : r.Spends r'' :=
  ⟨h'.opened.trans h.opened, fun id hid => h.pending id (h'.pending id hid)⟩

theorem Spends.fits (h : r.Spends r') {id : InstrumentId} {pluginId : String}
    (hfits : r.Fits id pluginId) : r'.Fits id pluginId := by
  intro hid hhostable
  rw [referred, h.opened]
  exact hfits (h.pending id hid) hhostable

theorem Spends.awaits (h : r.Spends r') {rack : Rack} (hawaits : r.Awaits rack) :
    r'.Awaits rack := fun id instrument hget => h.fits (hawaits id instrument hget)

/-- Everything was handed to its own plug-in. -/
def HandedOwn (r : Restoring) : Prop := ∀ handover ∈ r.handed, handover.Own

theorem HandedOwn.handOver (h : r.HandedOwn) {id : InstrumentId} (chunk : Chunk) {given : String}
    (hgiven : r.referred id = some given) : (r.handOver id chunk given).HandedOwn :=
  List.forall_mem_append.2 ⟨h, List.forall_mem_singleton.2 hgiven⟩

/-- Stand-ins are handed chunks and change nothing else; those of instruments with the plug-ins of
the file are handed their own. -/
theorem foldl_standIn (host : InstrumentId → HostAnswer) (entries : List Hosting.ToHost)
    (r : Restoring) :
    ∃ handed, entries.foldl (standIn host) r = { r with handed } ∧
      (r.HandedOwn → (∀ entry ∈ entries, r.pending.contains entry.id = true →
        r.referred entry.id = some entry.instrument.plugin.id) → HandedOwn { r with handed }) := by
  induction entries generalizing r with
  | nil => exact ⟨r.handed, rfl, fun hhanded _ => hhanded⟩
  | cons entry entries ih =>
    have hstood : ∃ handed, standIn host r entry = { r with handed } ∧
        (r.HandedOwn → (r.pending.contains entry.id = true →
          r.referred entry.id = some entry.instrument.plugin.id) → HandedOwn { r with handed }) := by
      unfold standIn
      split_ifs
      · split
        · exact ⟨r.handed, rfl, fun hhanded _ => hhanded⟩
        next chunk hchunk =>
          have hwaits := OrderedMap.contains_eq_true_iff.2 ⟨chunk, hchunk⟩
          exact ⟨_, rfl, fun hhanded hown => hhanded.handOver chunk (hown hwaits)⟩
      · exact ⟨r.handed, rfl, fun hhanded _ => hhanded⟩
    obtain ⟨handed, hstood, hhanded⟩ := hstood
    obtain ⟨handed', hrest, hhanded'⟩ := ih { r with handed }
    rw [List.foldl_cons, hstood]
    refine ⟨handed', hrest, fun hfirst hown => ?_⟩
    rw [List.forall_mem_cons] at hown
    exact hhanded' (hhanded hfirst hown.1) hown.2

/-- Loading takes chunks out of what waits, and leaves the slots alone; where the slots run the
plug-ins of the file these are handed their own. -/
theorem foldl_load (takes : InstrumentId → Bool) (entries : List (InstrumentId × Chunk))
    (r : Restoring) :
    ∃ handed, entries.foldl (load takes) r = { r with
        pending := (entries.filter fun entry =>
          (r.pluginOf entry.1).isSome && takes entry.1).foldl (fun pending entry =>
            pending.erase entry.1) r.pending
        handed } ∧
      (r.HandedOwn → (∀ entry ∈ entries, ∀ plugin, r.pluginOf entry.1 = some plugin →
        r.referred entry.1 = some plugin.pluginId) → HandedOwn { r with handed }) := by
  induction entries generalizing r with
  | nil => exact ⟨r.handed, rfl, fun hhanded _ => hhanded⟩
  | cons entry entries ih =>
    rw [List.foldl_cons, load, List.filter_cons]
    cases hplugin : r.pluginOf entry.1 with
    | none =>
      obtain ⟨handed, hrest, hhanded⟩ := ih r
      exact ⟨handed, hrest, fun hfirst hown => hhanded hfirst (List.forall_mem_cons.1 hown).2⟩
    | some plugin =>
      have hgiven : r.HandedOwn → (∀ other ∈ entry :: entries, ∀ plugin,
          r.pluginOf other.1 = some plugin → r.referred other.1 = some plugin.pluginId) →
          (r.handOver entry.1 entry.2 plugin.pluginId).HandedOwn := fun hfirst hown =>
        hfirst.handOver entry.2 ((List.forall_mem_cons.1 hown).1 plugin hplugin)
      cases htakes : takes entry.1 with
      | true =>
        obtain ⟨handed, hrest, hhanded⟩ := ih { r.handOver entry.1 entry.2 plugin.pluginId with
          pending := r.pending.erase entry.1 }
        exact ⟨handed, hrest, fun hfirst hown =>
          hhanded (hgiven hfirst hown) (List.forall_mem_cons.1 hown).2⟩
      | false =>
        obtain ⟨handed, hrest, hhanded⟩ := ih (r.handOver entry.1 entry.2 plugin.pluginId)
        exact ⟨handed, hrest, fun hfirst hown =>
          hhanded (hgiven hfirst hown) (List.forall_mem_cons.1 hown).2⟩

theorem get?_erased (entries : List (InstrumentId × Chunk)) (pending : OrderedMap InstrumentId Chunk)
    (id : InstrumentId) :
    (entries.foldl (fun pending entry => pending.erase entry.1) pending).get? id =
      if id ∈ entries.map Prod.fst then none else pending.get? id := by
  induction entries generalizing pending with
  | nil => rfl
  | cons entry entries ih =>
    rw [List.foldl_cons, ih, OrderedMap.get?_erase, List.map_cons]
    by_cases hid : id = entry.1
    · simp [hid]
    · rw [if_neg hid]
      exact if_congr (by rw [List.mem_cons, or_iff_right hid]) rfl rfl

/-- What runs in the slot of an instrument is the plug-in it has. -/
theorem pluginOf_eq_some (hplaced : r.hosting.Placed) (howned : r.hosting.Owned)
    {id : InstrumentId} {plugin : HostedPlugin} (h : r.pluginOf id = some plugin) :
    ∃ instrument, r.hosting.rack.get? id = some instrument ∧
      isHostedInstrument instrument = true ∧ instrument.plugin.id = plugin.pluginId := by
  obtain ⟨channel, hchannel, hslot⟩ := Option.bind_eq_some_iff.1 h
  obtain ⟨hindexed, hlt⟩ := Option.filter_eq_some_iff.1 hchannel
  obtain ⟨slot, hrecord, rfl, hid, -⟩ := howned channel (of_decide_eq_true hlt) plugin hslot
  obtain ⟨instrument, hindex, -, hhosted, hplugin, -⟩ := hplaced.slot plugin.owner slot hrecord
  obtain ⟨instrument', hindex'⟩ := Hosting.channelIndexOf_eq_some_iff.1 hindexed
  rw [hindex, Option.some_inj, Prod.mk.injEq] at hindex'
  rw [← hindex'.1]
  exact ⟨instrument, Hosting.get?_of_channel hindex, hhosted, hplugin.trans hid⟩

/-! ### Publishes -/

/-- Everything was handed to its own plug-in, and while chunks wait the slots are recorded. -/
structure Safe (r : Restoring) : Prop where
  handed : r.HandedOwn
  placed : r.hosting.Placed
  owned : ∀ id, r.pending.contains id = true → r.hosting.Owned

theorem hosting_sync_rack (h : Hosting) (publish : Publish) :
    (h.sync publish.rack publish.host).rack = publish.rack := Hosting.rack_foldl_hostOne

/-- A publish of instruments with the plug-ins of the file, after which the slots are recorded. -/
theorem safe_publish (takes : InstrumentId → Bool) (publish : Publish) (hhanded : r.HandedOwn)
    (hawaits : r.Awaits publish.rack)
    (howned : ∀ id, r.pending.contains id = true →
      ((r.hosting.found publish).sync publish.rack publish.host).Owned) :
    (r.publish takes publish).Safe ∧ r.Spends (r.publish takes publish) := by
  have hplaced : ((r.hosting.found publish).sync publish.rack publish.host).Placed :=
    Hosting.placed_sync publish.rack publish.host
  have hrack := hosting_sync_rack (r.hosting.found publish) publish
  unfold Restoring.publish
  obtain ⟨handed, hstood, hhandedTo⟩ := foldl_standIn publish.host
    (Hosting.toHost publish.rack (Hosting.kept publish.rack (r.hosting.found publish).hosted)) r
  have hhanded' : HandedOwn { r with handed } := by
    refine hhandedTo hhanded fun entry hentry hwaits => ?_
    obtain ⟨hindex, hhosted, -, -⟩ := Hosting.mem_toHost.1 hentry
    exact hawaits entry.id entry.instrument (Hosting.get?_of_channel hindex) hwaits hhosted
  dsimp only
  rw [hstood]
  dsimp only
  generalize (r.hosting.found publish).sync publish.rack publish.host = hosting at *
  obtain ⟨handed', hloaded, hloadedTo⟩ := foldl_load takes r.pending.entries
    { r with handed, hosting }
  have hhanded'' : HandedOwn { r with handed := handed' } := by
    refine hloadedTo hhanded' fun entry hentry plugin hplugin => ?_
    have hwaits : r.pending.contains entry.1 = true :=
      OrderedMap.contains_eq_true_iff.2 ⟨entry.2, OrderedMap.get?_eq_some_iff.2 hentry⟩
    obtain ⟨instrument, hget, hhosted, hid⟩ :=
      pluginOf_eq_some hplaced (howned entry.1 hwaits) hplugin
    rw [hrack] at hget
    rw [← hid]
    exact hawaits entry.1 instrument hget hwaits hhosted
  rw [hloaded]
  have hpending : ∀ entries : List (InstrumentId × Chunk), ∀ id,
      (entries.foldl (fun pending entry => pending.erase entry.1) r.pending).contains id = true →
        r.pending.contains id = true := by
    intro entries id hid
    rw [OrderedMap.contains_eq_true_iff, get?_erased] at hid
    split_ifs at hid with hin
    · obtain ⟨_, hnone⟩ := hid
      cases hnone
    · exact OrderedMap.contains_eq_true_iff.2 hid
  exact ⟨⟨hhanded'', hplaced, fun id hid => howned id (hpending _ id hid)⟩,
    ⟨rfl, fun id hid => hpending _ id hid⟩⟩

/-- **A publish of the same project hands nothing to a strange plug-in**, as long as the instruments
whose chunks wait have the plug-ins of the file. -/
theorem Safe.publish (h : r.Safe) (takes : InstrumentId → Bool) {publish : Publish}
    (hkeeps : ∀ id, r.pending.contains id = true → publish.replaced = false)
    (hawaits : r.Awaits publish.rack) :
    (r.publish takes publish).Safe ∧ r.Spends (r.publish takes publish) := by
  refine safe_publish takes publish h.handed hawaits fun id hid => ?_
  rw [Hosting.found_of_not_replaced (hkeeps id hid)]
  exact (h.owned id hid).sync h.placed publish.rack publish.host

/-- So do all publishes of a call. -/
theorem Safe.publishAll (h : r.Safe) (takes : ℕ → InstrumentId → Bool) {publishes : List Publish}
    (hall : ∀ publish ∈ publishes,
      (∀ id, r.pending.contains id = true → publish.replaced = false) ∧ r.Awaits publish.rack) :
    (Restoring.publishAll takes r publishes).Safe ∧
      r.Spends (Restoring.publishAll takes r publishes) := by
  induction publishes generalizing r takes with
  | nil => exact ⟨h, .refl r⟩
  | cons publish publishes ih =>
    rw [List.forall_mem_cons] at hall
    obtain ⟨hsafe, hspends⟩ := h.publish (takes 0) hall.1.1 hall.1.2
    obtain ⟨hsafe', hspends'⟩ := ih hsafe (fun turn => takes (turn + 1)) fun publish hpublish =>
      ⟨fun id hid => (hall.2 publish hpublish).1 id (hspends.pending id hid),
        hspends.awaits (hall.2 publish hpublish).2⟩
    exact ⟨hsafe', hspends.trans hspends'⟩

theorem safe_empty : ({} : Restoring).Safe :=
  ⟨nofun, Hosting.placed_empty, fun _ _ => Hosting.owned_empty⟩

/-- Nothing waits any more. -/
theorem Safe.forget (h : r.Safe) : Safe { r with pending := .empty } :=
  ⟨h.handed, h.placed, nofun⟩

/-- Where nothing waits, nothing is handed over. -/
theorem Safe.publishAll_of_none (h : r.Safe) (takes : ℕ → InstrumentId → Bool)
    (publishes : List Publish) (hnone : ∀ id, r.pending.contains id = false) :
    (Restoring.publishAll takes r publishes).Safe ∧
      r.Spends (Restoring.publishAll takes r publishes) :=
  h.publishAll takes fun _ _ =>
    ⟨fun id hid => absurd hid (Bool.eq_false_iff.1 (hnone id)),
      fun id _ _ hid => absurd hid (Bool.eq_false_iff.1 (hnone id))⟩

theorem publish_eq (takes : InstrumentId → Bool) (r : Restoring) (publish : Publish) :
    ∃ handed handed', r.publish takes publish = { r with
      hosting := (r.hosting.found publish).sync publish.rack publish.host
      pending := (r.pending.entries.filter fun entry =>
        (pluginOf { r with
          hosting := (r.hosting.found publish).sync publish.rack publish.host
          handed } entry.1).isSome && takes entry.1).foldl (fun pending entry =>
            pending.erase entry.1) r.pending
      handed := handed' } := by
  unfold Restoring.publish
  dsimp only
  obtain ⟨handed, hstood, -⟩ := foldl_standIn publish.host
    (Hosting.toHost publish.rack (Hosting.kept publish.rack (r.hosting.found publish).hosted)) r
  rw [hstood]
  obtain ⟨handed', hloads, -⟩ := foldl_load takes r.pending.entries { r with
    hosting := (r.hosting.found publish).sync publish.rack publish.host, handed }
  exact ⟨handed, handed', hloads⟩

/-- What is handed over changes no slot. -/
theorem hosting_publish (takes : InstrumentId → Bool) (r : Restoring) (publish : Publish) :
    (r.publish takes publish).hosting =
      (r.hosting.found publish).sync publish.rack publish.host := by
  obtain ⟨_, _, hpublish⟩ := publish_eq takes r publish
  rw [hpublish]

/-- What waits after a publish has waited before, and where every chunk loads it has no plug-in to
wait for. -/
theorem waits_publish {takes : InstrumentId → Bool} {r : Restoring} {publish : Publish}
    {id : InstrumentId} (h : (r.publish takes publish).pending.contains id = true) :
    r.pending.contains id = true ∧
      (takes id = true → (r.publish takes publish).pluginOf id = none) := by
  obtain ⟨handed, handed', hpublish⟩ := publish_eq takes r publish
  rw [hpublish] at h ⊢
  obtain ⟨chunk, hchunk⟩ := OrderedMap.contains_eq_true_iff.1 h
  dsimp only at hchunk
  rw [get?_erased] at hchunk
  split_ifs at hchunk with hloaded
  refine ⟨OrderedMap.contains_eq_true_iff.2 ⟨chunk, hchunk⟩, fun htakes => ?_⟩
  refine Option.eq_none_iff_forall_ne_some.2 fun plugin hplugin => hloaded ?_
  refine List.mem_map.2 ⟨(id, chunk), List.mem_filter.2
    ⟨OrderedMap.get?_eq_some_iff.1 hchunk, ?_⟩, rfl⟩
  rw [htakes, Bool.and_true]
  exact Option.isSome_iff_exists.2 ⟨plugin, hplugin⟩

theorem run_publishAll (takes : ℕ → InstrumentId → Bool) (r : Restoring)
    (publishes : List Publish) :
    Hosting.system.run r.hosting publishes = some (publishAll takes r publishes).hosting := by
  induction publishes generalizing r takes with
  | nil => rfl
  | cons publish publishes ih =>
    rw [publishAll, ← ih (fun turn => takes (turn + 1)), hosting_publish]
    rfl

end Restoring

/-! ### Sessions -/

/-- A session, and the states that wait for its plug-ins. -/
structure OpenStates where
  session : Session
  states : Restoring := {}

/-- A call of the session, with what it finds in files and at plug-ins. -/
structure StateCall where
  call : Call
  /-- The sidecars that can be read and match their checksums, by instrument. -/
  files : InstrumentId → Option Chunk := fun _ => none
  /-- Whether a chunk loads, at each publish of the call. -/
  takes : ℕ → InstrumentId → Bool := fun _ _ => true

namespace OpenStates

/-- The sidecars that are read with a project. -/
def waiting (project : Tables) (files : InstrumentId → Option Chunk) :
    OrderedMap InstrumentId Chunk :=
  project.instruments.entries.foldl (fun pending entry =>
    if entry.2.plugin.stateRef = "" then pending
    else
      match files entry.1 with
      | none => pending
      | some chunk => pending.assign entry.1 chunk) .empty

/-- What waits when a call publishes first. -/
def begun (p : OpenStates) (c : StateCall) : Restoring :=
  match c.call with
  | .projectNew _ _ => { p.states with pending := .empty }
  -- what waited is gone, also when the file cannot be read
  | .projectOpen none _ => { p.states with pending := .empty }
  | .projectOpen (some project) _ =>
    { p.states with pending := waiting project c.files, opened := project.instruments }
  | _ => p.states

def call (p : OpenStates) (c : StateCall) : OpenStates :=
  let called := (p.session.call c.call).2
  { session := called
    states := Restoring.publishAll c.takes (p.begun c)
      (called.publishes.drop p.session.publishes.length) }

/-- A session that was just created. -/
def create (host : InstrumentId → HostAnswer) (ids : FreshIds) (sampleRate : Double) :
    OpenStates :=
  let created := Session.create host ids sampleRate
  { session := created, states := Restoring.publishAll (fun _ _ => true) {} created.publishes }

def system : TransitionSystem OpenStates StateCall where
  step p c := some (p.call c)

/-- No instrument whose chunk waits is given another plug-in: what is minted is new, and a project
that is opened with chunks finds no plug-in in a slot that does not get one of its own. -/
def KeepsOwn (p : OpenStates) (c : StateCall) : Prop :=
  match c.call with
  | .instrumentReplace id plugin _ _ =>
    p.session.project.instruments.contains id = true → p.states.Fits id plugin.id
  | .instrumentDuplicate _ copy _ _ => p.states.pending.contains copy = false
  | .instanceAdd id _ _ _ _ => p.states.pending.contains id = false
  | .projectOpen (some project) host =>
    (waiting project c.files).size = 0 ∨ p.states.hosting.Refills project.instruments host
  | _ => True

instance (p : OpenStates) (c : StateCall) : Decidable (p.KeepsOwn c) := by
  unfold KeepsOwn
  split <;> infer_instance

/-! ### Runs -/

/-- Instruments whose chunks wait have the plug-ins of the file; nothing is asked of reals. -/
def ownPlugins (r : Restoring) : Values where
  plugin id pluginId := r.Fits id pluginId
  real _ := True
  finite _ := trivial

variable {r r' : Restoring} {p : OpenStates}

theorem instrument_ownPlugins {id : InstrumentId} {instrument : Instrument} :
    (ownPlugins r).instrument id instrument ↔ r.Fits id instrument.plugin.id :=
  ⟨fun h => h.1, fun h => ⟨h, trivial, trivial, trivial, trivial⟩⟩

theorem points_ownPlugins (source : AutomationSource) : (ownPlugins r).points source :=
  fun _ _ => trivial

theorem clip_ownPlugins (clip : Clip) : (ownPlugins r).clip clip := by
  refine ⟨?_, trivial, trivial⟩
  cases clip.source with
  | pattern => trivial
  | audio source => exact ⟨trivial, trivial⟩
  | automation source => exact points_ownPlugins source

theorem track_ownPlugins (track : MixerTrack) : (ownPlugins r).track track :=
  ⟨trivial, trivial, fun _ _ _ _ _ => trivial⟩

theorem pattern_ownPlugins (pattern : Pattern) : (ownPlugins r).pattern pattern :=
  ⟨trivial, fun source _ => points_ownPlugins source⟩

/-- The project of a rack whose waiting instruments have the plug-ins of the file. -/
theorem upholds_of_awaits {project : Tables} (h : r.Awaits project.instruments) :
    project.Upholds (ownPlugins r).standard where
  instrument id value hget := instrument_ownPlugins.2 (h id value hget)
  pattern _ value _ := pattern_ownPlugins value
  clip _ value _ := clip_ownPlugins value
  track _ value _ := track_ownPlugins value
  transport := trivial

theorem weakens_of_spends (h : r.Spends r') :
    (ownPlugins r).standard.Weakens (ownPlugins r').standard where
  instrument _ _ hvalue := instrument_ownPlugins.2 (h.fits (instrument_ownPlugins.1 hvalue))
  pattern value _ := pattern_ownPlugins value
  patternMeta _ _ := trivial
  clip value _ := clip_ownPlugins value
  track value _ := track_ownPlugins value
  parameter _ _ := trivial
  transport _ _ := trivial

/-- The history only knows plug-ins of the file for the chunks that wait, and nothing was handed to
another. -/
structure Holds (p : OpenStates) : Prop where
  upholds : p.session.bus.Upholds (ownPlugins p.states).standard
  safe : p.states.Safe

/-- What a call publishes. -/
theorem drop_publishes {s s' : Session} {later : List Publish}
    (h : s'.publishes = s.publishes ++ later) : s'.publishes.drop s.publishes.length = later := by
  rw [h, List.drop_left]

/-- Such a call gives no plug-in to an instrument whose chunk waits. -/
theorem meetsCall {c : StateCall} (h : p.KeepsOwn c) (hkeeps : c.call.replaces = false) :
    Session.MeetsCall (ownPlugins p.states) p.session c.call := by
  have hnever : ∀ {id pluginId}, hostable pluginId = false →
      (ownPlugins p.states).plugin id pluginId := by
    intro id pluginId hid _ hhostable
    rw [hid] at hhostable
    cases hhostable
  have hnew : ∀ {id pluginId}, p.states.pending.contains id = false →
      (ownPlugins p.states).plugin id pluginId := by
    intro id pluginId hid hwaits
    rw [hid] at hwaits
    cases hwaits
  obtain ⟨call, files, takes⟩ := c
  cases call with
  | edit edit host =>
    cases edit with
    | instrumentAddEmpty id => exact hnever rfl
    | _ => first | trivial | exact fun _ => trivial | exact fun _ _ => trivial
  | instrumentReplace id plugin host again => exact h
  | instrumentReplaceSample id name path host => exact fun _ => hnever (by decide)
  | instrumentDuplicate track copy id host => exact fun _ _ => hnew h
  | instrumentAddSample id track name path host => exact hnever (by decide)
  | instanceAdd id track plugin host again => exact hnew h
  | projectOpen loaded host =>
    cases loaded with
    | none => trivial
    | some project => cases hkeeps
  | _ => trivial

theorem begun_of_keeps (h : p.states.Safe) {c : StateCall} (hkeeps : c.call.replaces = false) :
    p.states.Spends (p.begun c) ∧ (p.begun c).Safe := by
  unfold begun
  split
  next hcall =>
    rw [hcall] at hkeeps
    cases hkeeps
  next => exact ⟨⟨rfl, nofun⟩, h.forget⟩
  next hcall =>
    rw [hcall] at hkeeps
    cases hkeeps
  next => exact ⟨.refl _, h⟩

/-- A call that leaves the project in place. -/
theorem Holds.call_of_keeps (h : p.Holds) {c : StateCall} (hkeeps : c.call.replaces = false)
    (hown : p.KeepsOwn c) : (p.call c).Holds := by
  obtain ⟨hbus, later, hlater, hall⟩ := Session.upholds_call
    (Session.upholds_of_bus h.upholds false) c.call hkeeps (meetsCall hown hkeeps)
  dsimp only at hlater hall
  obtain ⟨hbegun, hsafe⟩ := begun_of_keeps h.safe hkeeps
  obtain ⟨hsafe', hspends⟩ := hsafe.publishAll c.takes fun publish hpublish =>
    ⟨fun _ _ => Bool.eq_false_iff.2 fun hreplaced =>
        Bool.false_ne_true ((hall publish hpublish).1 hreplaced),
      hbegun.awaits fun id value hget =>
        instrument_ownPlugins.1 ((hall publish hpublish).2 id value hget)⟩
  unfold OpenStates.call
  dsimp only
  rw [drop_publishes hlater]
  exact ⟨(weakens_of_spends (hbegun.trans hspends)).bus hbus, hsafe'⟩

/-- Nobody waits in a new project. -/
theorem Holds.projectNew (h : p.Holds) (ids : FreshIds) (host : InstrumentId → HostAnswer)
    (files : InstrumentId → Option Chunk) (takes : ℕ → InstrumentId → Bool) :
    (p.call ⟨.projectNew ids host, files, takes⟩).Holds := by
  obtain ⟨hsafe, hspends⟩ := h.safe.forget.publishAll_of_none takes
    ((p.session.call (.projectNew ids host)).2.publishes.drop p.session.publishes.length)
    fun _ => rfl
  have hbus := (Session.upholds_projectNew (W := ownPlugins { p.states with pending := .empty })
    p.session host ids).1
  exact ⟨(weakens_of_spends hspends).bus hbus, hsafe⟩

/-- A publish is recorded with the instruments it finds. -/
theorem publishes_publishModel (host : InstrumentId → HostAnswer) (s : Session) (replaced : Bool) :
    (s.publishModel host replaced).publishes =
      s.publishes ++ [⟨replaced, s.project.instruments, host⟩] := by
  obtain ⟨_, _, _, _, _, hflush⟩ := s.fitClipsToPatterns.flush_eq
  unfold Session.publishModel
  rw [hflush, ← Tables.instruments_setLengths s.fittedClips]
  rfl

theorem awaits_opened (project : Tables) (pending : OrderedMap InstrumentId Chunk) :
    Restoring.Awaits { r with pending, opened := project.instruments } project.instruments := by
  intro id instrument hget _ _
  rw [Restoring.referred, hget]
  rfl

theorem Holds.projectOpen (h : p.Holds) (project : Tables) (host : InstrumentId → HostAnswer)
    (files : InstrumentId → Option Chunk) (takes : ℕ → InstrumentId → Bool)
    (hown : (waiting project files).size = 0 ∨ p.states.hosting.Refills project.instruments host) :
    (p.call ⟨.projectOpen (some project) host, files, takes⟩).Holds := by
  have hawaits := awaits_opened (r := p.states) project (waiting project files)
  obtain ⟨hsafe, hspends⟩ := Restoring.safe_publish (takes 0) (r := { p.states with
      pending := waiting project files, opened := project.instruments })
    ⟨true, project.instruments, host⟩ h.safe.handed hawaits (by
      intro id hwaits
      rcases hown with hempty | hrefills
      · obtain ⟨chunk, hchunk⟩ := OrderedMap.contains_eq_true_iff.1 hwaits
        have hmem := OrderedMap.get?_eq_some_iff.1 hchunk
        rw [List.eq_nil_of_length_eq_zero hempty] at hmem
        cases hmem
      · exact hrefills.owned)
  have hbus := (Session.upholds_projectOpen p.session host (upholds_of_awaits hawaits)).1
  have hpublishes : (p.session.call (.projectOpen (some project) host)).2.publishes.drop
      p.session.publishes.length = [⟨true, project.instruments, host⟩] :=
    drop_publishes (publishes_publishModel host _ true)
  unfold OpenStates.call
  dsimp only
  rw [hpublishes]
  exact ⟨(weakens_of_spends hspends).bus hbus, hsafe⟩

theorem Holds.call (h : p.Holds) {c : StateCall} (hown : p.KeepsOwn c) : (p.call c).Holds := by
  obtain ⟨call, files, takes⟩ := c
  cases call with
  | projectNew ids host => exact h.projectNew ids host files takes
  | projectOpen loaded host =>
    cases loaded with
    | none => exact h.call_of_keeps rfl hown
    | some project => exact h.projectOpen project host files takes hown
  | _ => exact h.call_of_keeps rfl hown

theorem holds_create (host : InstrumentId → HostAnswer) (ids : FreshIds) (sampleRate : Double) :
    (create host ids sampleRate).Holds := by
  obtain ⟨hsafe, hspends⟩ := Restoring.safe_empty.publishAll_of_none (fun _ _ => true)
    (Session.create host ids sampleRate).publishes fun _ => rfl
  exact ⟨(weakens_of_spends hspends).bus
    (Session.upholds_create (ownPlugins {}) host ids sampleRate).1, hsafe⟩

/-- Chunks are handed to the plug-ins of the session. -/
theorem hosting_call (h : p.states.hosting = p.session.hosting) (c : StateCall) :
    (p.call c).states.hosting = (p.call c).session.hosting := by
  obtain ⟨publishes, hlog, hreplays⟩ := Session.replays_call p.session c.call
  have hbegun : (p.begun c).hosting = p.session.hosting := by
    unfold begun
    split <;> exact h
  have hrun := Restoring.run_publishAll c.takes (p.begun c) publishes
  rw [hbegun, hreplays, Option.some_inj] at hrun
  unfold OpenStates.call
  dsimp only
  rw [drop_publishes hlog]
  exact hrun.symm

/-- The plug-ins that are handed chunks are those that sound. -/
theorem hosting_of_reachable {host : InstrumentId → HostAnswer} {ids : FreshIds}
    {sampleRate : Double} (h : system.Reachable (create host ids sampleRate) p) :
    p.states.hosting = p.session.hosting := by
  refine TransitionSystem.Reachable.invariant
    (I := fun p => p.states.hosting = p.session.hosting) ?_ ?_ h
  · have hcreated : Session.system.Reachable (Session.create host ids sampleRate)
        (Session.create host ids sampleRate) := ⟨[], rfl⟩
    have hrun := Restoring.run_publishAll (fun _ _ => true) {}
      (Session.create host ids sampleRate).publishes
    rw [Session.hosting_run hcreated, Option.some_inj] at hrun
    exact hrun.symm
  · intro p c p' hp hstep
    obtain rfl := Option.some_inj.1 hstep
    exact hosting_call hp c

theorem holds_of_run {host : InstrumentId → HostAnswer} {ids : FreshIds} {sampleRate : Double}
    {calls : List StateCall} {p : OpenStates}
    (hrun : system.run (create host ids sampleRate) calls = some p)
    (hown : ∀ before c q, before ++ [c] <+: calls →
      system.run (create host ids sampleRate) before = some q → q.KeepsOwn c) : p.Holds := by
  refine TransitionSystem.invariant (I := fun done p => done <+: calls → p.Holds)
    (fun _ => holds_create host ids sampleRate) ?_ hrun List.prefix_rfl
  intro done p c p' hdone hp hstep hpre
  obtain rfl := Option.some_inj.1 hstep
  exact (hp ((List.prefix_append _ _).trans hpre)).call (hown done c p hpre hdone)

/-- **Every chunk is handed to the plug-in that saved it**, as long as no instrument whose chunk
waits is given another. -/
theorem own_of_run {host : InstrumentId → HostAnswer} {ids : FreshIds} {sampleRate : Double}
    {calls : List StateCall} {p : OpenStates}
    (hrun : system.run (create host ids sampleRate) calls = some p)
    (hown : ∀ before c q, before ++ [c] <+: calls →
      system.run (create host ids sampleRate) before = some q → q.KeepsOwn c) :
    ∀ handover ∈ p.states.handed, handover.Own := (holds_of_run hrun hown).safe.handed

/-! ### A plug-in in the place of another -/

/-- A synth, with a sidecar. -/
def openedSynth : Tables :=
  { freshProject Session.smallIds with
    instruments := OrderedMap.empty.assign ⟨5⟩
      { name := "Synth"
        plugin := { id := "synth", name := "Synth", pathHint := "synth.clap"
                    stateRef := "state/synth.bin" } } }

/-- A machine on which every plug-in is there, and none activates. -/
def installsNone : InstrumentId → HostAnswer := fun _ => ⟨true, false, false, ""⟩

/-- Open the synth, which does not activate. -/
def openSynth : StateCall where
  call := .projectOpen (some openedSynth) installsNone
  files := fun _ => some [7]

/-- Take the synth out and put it back, now that plug-ins load. -/
def backAgain : List StateCall :=
  [openSynth, ⟨.instrumentRemove ⟨5⟩ Session.noPlugins, fun _ => none, fun _ _ => true⟩,
    ⟨.projectUndo Session.loadsAll, fun _ => none, fun _ _ => true⟩]

theorem own_backAgain : ∃ p,
    system.run (create Session.noPlugins Session.smallIds (.finite 48000)) backAgain = some p ∧
      p.states.handed ≠ [] ∧ ∀ handover ∈ p.states.handed, handover.Own := by
  obtain ⟨p, hrun⟩ := Option.isSome_iff_exists.1 (show
    (system.run (create Session.noPlugins Session.smallIds (.finite 48000)) backAgain).isSome = true
      by decide +kernel)
  have hhanded : (system.run (create Session.noPlugins Session.smallIds (.finite 48000))
      backAgain).map (fun p => p.states.handed) = some [⟨⟨5⟩, [7], some "synth", "synth"⟩] := by
    decide +kernel
  rw [hrun, Option.map_some, Option.some_inj] at hhanded
  exact ⟨p, hrun, by simp [hhanded],
    own_of_run hrun (TransitionSystem.forall_steps_of_stepsMeet (by decide +kernel))⟩

/-- Open the synth, and put a bass in its place. -/
def thenBass : List StateCall :=
  [openSynth, ⟨.instrumentReplace ⟨5⟩ { id := "bass", name := "Bass", pathHint := "bass.clap" }
    Session.loadsAll Session.loadsAll, fun _ => none, fun _ _ => true⟩]

/-- The chunk of the synth goes to the bass. -/
theorem not_own_thenBass : ∃ p,
    system.run (create Session.noPlugins Session.smallIds (.finite 48000)) thenBass = some p ∧
      ¬ ∀ handover ∈ p.states.handed, handover.Own := by
  obtain ⟨p, hrun⟩ := Option.isSome_iff_exists.1 (show
    (system.run (create Session.noPlugins Session.smallIds (.finite 48000)) thenBass).isSome = true
      by decide +kernel)
  have hhanded : (system.run (create Session.noPlugins Session.smallIds (.finite 48000))
      thenBass).map (fun p => p.states.handed) = some [⟨⟨5⟩, [7], some "synth", "bass"⟩] := by
    decide +kernel
  rw [hrun, Option.map_some, Option.some_inj] at hhanded
  refine ⟨p, hrun, ?_⟩
  rw [hhanded]
  decide +kernel

end OpenStates

end OneBeat
