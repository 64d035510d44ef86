import OneBeat.Core.Channels
import OneBeat.Core.PlaybackBlocks

/-!
# Which channels a schedule resets

`Engine::publishSchedule` of `core/engine.cpp`: a schedule replaces another, and the channels whose
fingerprint is another one are asked to let go of their voices.

A fingerprint is taken over all events that carry the number of the channel.  `renderChannel` tells
the channel about those of them that are addressed to channels: the number of an effect parameter is
one of an effect, and a tempo change is for the clock.

**Main theorem** (`channelsToReset_iff_delivered`): as far as the fingerprints tell the schedules
apart, a reset is asked for exactly when the channel is told other events, unless the events that it
is not told are others and those that it is told are the same.

The event that announces a schedule is left out.
-/

namespace OneBeat

/-! ### Fingerprints -/

/-- The bits of a `float`. -/
def floatBits : Double → UInt32
  | .finite q =>
    if q = 0 then 0
    else
      let exponent := max (leadingExponent |q| - 23) (-149)
      let mantissa := ⌊|q| / twoPow exponent⌋.toNat
      -- a subnormal has no leading bit
      let magnitude :=
        if mantissa < 2 ^ 23 then mantissa
        else (exponent + 150).toNat * 2 ^ 23 + (mantissa - 2 ^ 23)
      UInt32.ofNat (if q < 0 then 2 ^ 31 + magnitude else magnitude)
  | .infinite negative => if negative then 0xff800000 else 0x7f800000
  | .nan => 0x7fc00000

/-- The words that an event is mixed in as. -/
def ScheduleEvent.words (event : ScheduleEvent) : List UInt64 :=
  [UInt64.ofInt event.frame,
    UInt64.ofNat event.type.code <<< 16 ||| UInt64.ofNat (event.note % 2 ^ 16).toNat,
    (floatBits event.value).toUInt64 <<< 32 ||| UInt64.ofNat event.reserved]

namespace Engine

/-- The FNV-1a offset basis. -/
def hashBasis : UInt64 := 0xcbf29ce484222325

/-- FNV-1a, a word at a time. -/
def mix (value word : UInt64) : UInt64 := (value ^^^ word) * 0x100000001b3

def mixEvent (value : UInt64) (event : ScheduleEvent) : UInt64 := event.words.foldl mix value

/-- One event of the schedule: those of no channel are skipped. -/
def hashStep (hash : List UInt64) (event : ScheduleEvent) : List UInt64 :=
  if maxRackChannels ≤ event.instrument then hash
  else hash.modify event.instrument fun value => mixEvent value event

/-- One fingerprint per channel. -/
def channelHashes (events : List ScheduleEvent) : List UInt64 :=
  events.foldl hashStep (List.replicate maxRackChannels hashBasis)

/-! ### Publishing -/

/-- Of the engine what publishing a schedule reads and writes. -/
structure Published where
  channels : List Channel := []
  publishedChannelHash : List UInt64 := List.replicate maxRackChannels 0
  hasPublishedSchedule : Bool := false
  schedule : Option Schedule := none

def requestChannelReset (channels : List Channel) (index : ℕ) : List Channel :=
  if maxRackChannels ≤ index then channels
  else channels.modify index fun channel => { channel with resetRequested := true }

namespace Published

variable (published : Published)

/-- The channels whose reset is requested.  The first schedule replaces nothing. -/
def channelsToReset (schedule : Schedule) : List ℕ :=
  if published.hasPublishedSchedule then
    (List.range maxRackChannels).filter fun channel =>
      (channelHashes schedule.events)[channel]? ≠ published.publishedChannelHash[channel]?
  else []

def releaseChannelsWhoseEventsChanged (schedule : Schedule) : Published :=
  { published with
    channels := (published.channelsToReset schedule).foldl requestChannelReset published.channels
    publishedChannelHash := channelHashes schedule.events
    hasPublishedSchedule := true }

def publishSchedule (schedule : Schedule) : Published :=
  { published.releaseChannelsWhoseEventsChanged schedule with schedule := some schedule }

end Published

/-! ### Events of a channel -/

/-- The events that carry the number of a channel. -/
def addressed (channel : ℕ) (events : List ScheduleEvent) : List ScheduleEvent :=
  events.filter (·.instrument = channel)

/-- A channel is told about events of the type. -/
def delivers (event : ScheduleEvent) : Bool := (pluginEvent 0 event).isSome

/-- The events of which the channel is told. -/
def delivered (channel : ℕ) (events : List ScheduleEvent) : List ScheduleEvent :=
  (addressed channel events).filter delivers

/-- The events that carry the number of the channel and are not for it, with a gap for each one that
is. -/
def withheld (channel : ℕ) (events : List ScheduleEvent) : List (Option ScheduleEvent) :=
  (addressed channel events).map fun event => if delivers event then none else some event

/-- The fingerprint of the events of one channel. -/
def channelHash (channel : ℕ) (events : List ScheduleEvent) : UInt64 :=
  (addressed channel events).foldl mixEvent hashBasis

/-! ### Fingerprints of a channel -/

theorem getElem?_hashStep (hash : List UInt64) (event : ScheduleEvent) {channel : ℕ}
    (hchannel : channel < maxRackChannels) :
    (hashStep hash event)[channel]? =
      hash[channel]?.map fun value =>
        if event.instrument = channel then mixEvent value event else value := by
  unfold hashStep
  by_cases hrange : maxRackChannels ≤ event.instrument
  · have hne : event.instrument ≠ channel := (hchannel.trans_le hrange).ne'
    simp [hrange, hne]
  · rw [if_neg hrange, List.getElem?_modify]
    rfl

/-- One pass over the schedule takes the fingerprint of every channel. -/
theorem getElem?_channelHashes (events : List ScheduleEvent) {channel : ℕ}
    (hchannel : channel < maxRackChannels) :
    (channelHashes events)[channel]? = some (channelHash channel events) := by
  have hfold : ∀ hash : List UInt64, (events.foldl hashStep hash)[channel]? =
      hash[channel]?.map fun value => (addressed channel events).foldl mixEvent value := by
    induction events with
    | nil => simp [addressed]
    | cons event events ih =>
      intro hash
      rw [List.foldl_cons, ih, getElem?_hashStep hash event hchannel, Option.map_map]
      congr 1
      funext value
      by_cases hinstrument : event.instrument = channel <;> simp [hinstrument, addressed]
  rw [channelHashes, hfold, List.getElem?_replicate, if_pos hchannel]
  rfl

theorem mem_channelsToReset {published : Published} {previous next : Schedule} {channel : ℕ}
    (hchannel : channel < maxRackChannels) :
    channel ∈ (published.publishSchedule previous).channelsToReset next ↔
      channelHash channel previous.events ≠ channelHash channel next.events := by
  change channel ∈ (List.range maxRackChannels).filter (fun channel =>
    (channelHashes next.events)[channel]? ≠ (channelHashes previous.events)[channel]?) ↔ _
  rw [List.mem_filter, List.mem_range, decide_eq_true_eq,
    getElem?_channelHashes next.events hchannel, getElem?_channelHashes previous.events hchannel]
  simp only [hchannel, true_and, ne_eq, Option.some.injEq, eq_comm]

/-- What a channel is told and what is kept from it, with its places, make up what carries its
number. -/
theorem addressed_eq_iff {channel : ℕ} {events events' : List ScheduleEvent} :
    addressed channel events = addressed channel events' ↔
      delivered channel events = delivered channel events' ∧
        withheld channel events = withheld channel events' := by
  constructor
  · intro h
    exact ⟨congrArg (List.filter delivers) h, congrArg (List.map _) h⟩
  · rintro ⟨hdelivered, hwithheld⟩
    have hgap : ∀ event, (if delivers event then none else some event).isNone = delivers event := by
      intro event
      cases delivers event <;> rfl
    have hplaces := congrArg (List.map Option.isNone) hwithheld
    have hothers := congrArg (List.filterMap id) hwithheld
    simp only [withheld, List.map_map, Function.comp_def, hgap] at hplaces
    simp only [withheld, List.filterMap_map, Function.comp_def, id_eq] at hothers
    refine eq_of_map_eq_of_ties_eq hplaces fun told => ?_
    cases told with
    | true => simpa [ties, delivered] using hdelivered
    | false =>
      have hfilter : ∀ events : List ScheduleEvent, ties delivers false events =
          events.filterMap fun event => if delivers event then none else some event := by
        intro events
        induction events with
        | nil => rfl
        | cons event events ih =>
          rw [ties_cons, ih]
          cases hdelivers : delivers event <;> simp [hdelivers]
      rw [hfilter, hfilter, hothers]

/-- A reset is asked for when the channel is told other events, and only then, unless what it is not
told is another and what it is told is the same. -/
theorem channelsToReset_iff_delivered (published : Published) (previous next : Schedule)
    {channel : ℕ} (hchannel : channel < maxRackChannels)
    (hinjective : channelHash channel previous.events = channelHash channel next.events →
      addressed channel previous.events = addressed channel next.events) :
    (channel ∈ (published.publishSchedule previous).channelsToReset next ↔
        delivered channel previous.events ≠ delivered channel next.events) ↔
      delivered channel previous.events ≠ delivered channel next.events ∨
        withheld channel previous.events = withheld channel next.events := by
  have hhash : channelHash channel previous.events = channelHash channel next.events ↔
      delivered channel previous.events = delivered channel next.events ∧
        withheld channel previous.events = withheld channel next.events := by
    rw [← addressed_eq_iff]
    exact ⟨hinjective, congrArg (List.foldl mixEvent hashBasis)⟩
  rw [mem_channelsToReset hchannel, ne_eq, hhash]
  tauto

/-- The fader of the first insert, as a curve has it. -/
def insertAt (value : Double) : Schedule :=
  (({} : ScheduleBuilder).addEffectParam 0 0 value 0).build (.finite 48000) 1

/-- A note of the first channel. -/
def noteAt (frame : ℤ) : Schedule :=
  (({} : ScheduleBuilder).addNote 0 60 1 frame 24000).build (.finite 48000) 1

theorem channelsToReset_iff_delivered_note :
    (0 ∈ (({} : Published).publishSchedule (noteAt 0)).channelsToReset (noteAt 48000) ↔
        delivered 0 (noteAt 0).events ≠ delivered 0 (noteAt 48000).events) ↔
      delivered 0 (noteAt 0).events ≠ delivered 0 (noteAt 48000).events ∨
        withheld 0 (noteAt 0).events = withheld 0 (noteAt 48000).events :=
  channelsToReset_iff_delivered {} (noteAt 0) (noteAt 48000) (by decide) fun heq =>
    absurd heq (by decide +kernel)

/-- An edit of an insert's curve resets the channel that has the insert's number. -/
theorem not_resets_as_told_insert :
    ¬(0 ∈ (({} : Published).publishSchedule (insertAt 0)).channelsToReset (insertAt 1) ↔
      delivered 0 (insertAt 0).events ≠ delivered 0 (insertAt 1).events) := by
  intro h
  exact h.1 (by decide +kernel) (by decide +kernel)

end Engine

end OneBeat
