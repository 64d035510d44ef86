import OneBeat.Model.LoadedRecords

/-!
# The routing of a loaded project

Where a route of a file ends up among the routes of its instrument, and what the checker, whose
findings the loader reports, says of its port.

* `loadedRouting_port` : a route whose track is there keeps its place among those whose tracks are.
* `routesTwice_mem_iff` : the checker complains of its port exactly when another of them has it.
-/

namespace OneBeat

/-- The routes of some records that lead to tracks that are there. -/
def liveRoutes (tables : Tables) (instrumentName : String) (position : ℕ)
    (routing : List Json.Value) : List OutputRoute :=
  (readRouting instrumentName position routing).1.filter fun route =>
    tables.mixerTracks.contains route.track

theorem readRouting_append (instrumentName : String) (position : ℕ) (before after : List Json.Value) :
    (readRouting instrumentName position (before ++ after)).1 =
      (readRouting instrumentName position before).1 ++
        (readRouting instrumentName (position + before.length) after).1 := by
  induction before generalizing position with
  | nil => rfl
  | cons route before ih =>
    simp only [List.cons_append, readRouting, ih, List.length_cons, List.append_assoc]
    rw [Nat.add_right_comm, Nat.add_assoc]

/-- What the checker says of a port that two routes have. -/
def routesTwice (id : InstrumentId) (port : PortId) : String :=
  describe .instrument id.raw ++ " routes port " ++ toString port ++ " twice"

theorem routesTwice_injective (id : InstrumentId) : Function.Injective (routesTwice id) := by
  intro port port' h
  have hports := (String.append_right_inj _).1 ((String.append_left_inj _).1 h)
  rw [Nat.toString_eq_ofList_toDigits, Nat.toString_eq_ofList_toDigits, String.ofList_inj] at hports
  have hvalues := congrArg (fun digits => Nat.ofDigitChars 10 digits 0) hports
  simpa only [Nat.ofDigitChars_toDigits (show 1 < 10 by decide) le_rfl] using hvalues

/-- The checker complains of a port exactly when a second route has it. -/
theorem routesTwice_mem_iff {tables : Tables} {id : InstrumentId} {instrument : Instrument}
    {before after : List OutputRoute} {route : OutputRoute}
    (hrouting : instrument.routing = before ++ route :: after)
    (hlive : ∀ route ∈ instrument.routing, tables.mixerTracks.contains route.track = true) :
    routesTwice id route.port ∈ tables.checkInstrument id instrument ↔
      ∃ other ∈ before ++ after, other.port = route.port := by
  have hreport : ∀ (other : OutputRoute) (seen : Bool), other ∈ instrument.routing →
      (routesTwice id route.port ∈ (if tables.mixerTracks.contains other.track then []
          else [describe .instrument id.raw ++ " routes port " ++ toString other.port ++
            " to missing " ++ describe .mixerTrack other.track.raw]) ++
        (if seen then [routesTwice id other.port] else []) ↔
        other.port = route.port ∧ seen = true) := by
    intro other seen hother
    rw [if_pos (hlive other hother)]
    cases seen with
    | false => simp
    | true => simpa using (routesTwice_injective id).eq_iff.trans eq_comm
  unfold Tables.checkInstrument
  rw [mem_scanKeys]
  constructor
  · rintro ⟨before', other, after', hsplit, hmessage⟩
    have hother : other ∈ instrument.routing := by simp [hsplit]
    obtain ⟨hport, hseen⟩ := (hreport other _ hother).1 hmessage
    -- the port is there twice, so it is there beside the route
    have hcount : 2 ≤ (instrument.routing.map OutputRoute.port).count route.port := by
      have hbefore : 0 < (before'.map OutputRoute.port).count route.port := by
        rw [List.count_pos_iff]
        simpa [hport] using hseen
      rw [hsplit, List.map_append, List.count_append, List.map_cons, hport, List.count_cons_self]
      omega
    have hothers : 0 < ((before ++ after).map OutputRoute.port).count route.port := by
      rw [hrouting, List.map_append, List.count_append, List.map_cons, List.count_cons_self]
        at hcount
      rw [List.map_append, List.count_append]
      omega
    exact List.mem_map.1 (List.count_pos_iff.1 hothers)
  · rintro ⟨other, hother, hport⟩
    rcases List.mem_append.1 hother with hother | hother
    · refine ⟨before, route, after, hrouting, ?_⟩
      refine (hreport route _ (by simp [hrouting])).2 ⟨rfl, ?_⟩
      simpa using ⟨other, hother, hport⟩
    · obtain ⟨between, rest, rfl⟩ := List.append_of_mem hother
      refine ⟨before ++ route :: between, other, rest, by simp [hrouting], ?_⟩
      refine (hreport other _ (by simp [hrouting])).2 ⟨hport, ?_⟩
      simp [hport]

theorem readReference_of_parse {K : EntityKind} {text : String} {id : TypedId K}
    (h : TypedId.parse K text = some id) (owner field : String) :
    readReference K text owner field = (some id, []) := by
  have hne : text ≠ "" := by
    rintro rfl
    simp [TypedId.parse, ulidChars] at h
  simp [readReference, Loader.reference, hne, h]

/-- How the loader reports what the checker finds. -/
def internalError (message : String) : LoadIssue := ⟨.error, "Internal: " ++ message⟩

theorem internalError_injective : Function.Injective internalError := by
  intro message message' h
  exact (String.append_right_inj _).1 (congrArg LoadIssue.message h)

theorem internalError_notMem_readReference (message instrumentName text field : String)
    (K : EntityKind) : internalError message ∉
      (readReference K text ("Instrument '" ++ instrumentName ++ "'") field).2 := by
  unfold readReference Loader.reference
  by_cases htext : text = ""
  · simp [htext]
  · rw [if_neg htext]
    cases TypedId.parse K text with
    | some id => exact List.not_mem_nil
    | none =>
      intro hmem
      have hfourth := congrArg (fun issue => issue.message.toList[3]?) (List.mem_singleton.1 hmem)
      simp [internalError] at hfourth

theorem internalError_notMem_readRouting (message instrumentName : String) (position : ℕ)
    (routing : List Json.Value) :
    internalError message ∉ (readRouting instrumentName position routing).2 := by
  induction routing generalizing position with
  | nil => exact List.not_mem_nil
  | cons route routing ih =>
    rw [readRouting, List.mem_append, not_or]
    exact ⟨internalError_notMem_readReference _ _ _ _ _, ih _⟩

theorem internalError_notMem_resolveRouting (message : String) (tables : Tables)
    (instrumentName : String) (pending : List OutputRoute) :
    internalError message ∉ (resolveRouting tables instrumentName pending).2 := by
  intro hmem
  obtain ⟨route, -, heq⟩ := List.mem_map.1 hmem
  cases congrArg LoadIssue.severity heq

/-- The track of a route, when it is there. -/
def routeTrack (tables : Tables) (route : Json.Object) : Option MixerTrackId :=
  (((Entries.get? route "track_id").bind Json.Value.asString).bind
    (TypedId.parse .mixerTrack)).filter fun track => tables.mixerTracks.contains track

theorem readRoute_port {tables : Tables} {route : Json.Object} {track : MixerTrackId}
    (htrack : routeTrack tables route = some track) (instrumentName : String) (position : ℕ) (n : ℤ) :
    readRoute instrumentName position (.object (withInt route "port" n)) =
      (some ⟨toUInt32 n, track⟩, []) := by
  obtain ⟨hparse, -⟩ := Option.filter_eq_some_iff.1 htrack
  obtain ⟨text, htext, hparse⟩ := Option.bind_eq_some_iff.1 hparse
  simp [readRoute, Json.Value.asString, Json.Value.find, Json.Value.asObject, get?_withInt, htext,
    readReference_of_parse hparse, Json.Value.isNumber, Json.Value.asInt]

/-- The routes of an instrument once it is loaded. -/
def loadedRouting (tables : Tables) (instrumentName : String) (routing : List Json.Value) :
    List OutputRoute :=
  (resolveRouting tables instrumentName (readRouting instrumentName 0 routing).1).1

theorem loadedRouting_port {tables : Tables} {route : Json.Object} {track : MixerTrackId}
    (htrack : routeTrack tables route = some track) (instrumentName : String)
    (before after : List Json.Value) (n : ℤ) :
    loadedRouting tables instrumentName (before ++ .object (withInt route "port" n) :: after) =
      liveRoutes tables instrumentName 0 before ++
        ⟨toUInt32 n, track⟩ :: liveRoutes tables instrumentName (before.length + 1) after := by
  have hlive : tables.mixerTracks.contains track = true := (Option.filter_eq_some_iff.1 htrack).2
  have hroutes : (readRouting instrumentName 0
      (before ++ .object (withInt route "port" n) :: after)).1.filter (fun route =>
        tables.mixerTracks.contains route.track) =
      liveRoutes tables instrumentName 0 before ++
        ⟨toUInt32 n, track⟩ :: liveRoutes tables instrumentName (before.length + 1) after := by
    rw [readRouting_append, List.filter_append, readRouting, readRoute_port htrack]
    simp [liveRoutes, hlive]
  simp only [loadedRouting, resolveRouting, hroutes]
  simp

theorem live_of_mem_loadedRouting {tables : Tables} {route : Json.Object} {track : MixerTrackId}
    (htrack : routeTrack tables route = some track) (instrumentName : String)
    (before after : List Json.Value) (n : ℤ) :
    ∀ other ∈ loadedRouting tables instrumentName
        (before ++ .object (withInt route "port" n) :: after),
      tables.mixerTracks.contains other.track = true := by
  intro other hother
  rw [loadedRouting_port htrack, List.mem_append, List.mem_cons] at hother
  rcases hother with hother | rfl | hother
  · exact (List.mem_filter.1 hother).2
  · exact (Option.filter_eq_some_iff.1 htrack).2
  · exact (List.mem_filter.1 hother).2

end OneBeat
