import OneBeat.Model.LoadedPatterns
import OneBeat.Model.RecordedStates

/-!
# Properties of notes

What a file says about a note that the model has no word for, through a load and a save.

* `components_noteKey` : the key of a note tells its pattern, its instrument and its four values.
* `get?_foldl_or` : where the first one counts, a fold finds what the first that has something has.

**Main theorem** (`sequence_kept_iff`): when a sequence is written as it was.
-/

namespace OneBeat

open Json LexicalPath

/-! ### The first one counts -/

theorem get?_foldl_or {σ ε β : Type*} {step : σ → ε → σ} (look : σ → Option β)
    {found : ε → Option β} (h : ∀ s e, look (step s e) = (look s).or (found e)) (s : σ)
    (entries : List ε) : look (entries.foldl step s) = (look s).or (entries.findSome? found) := by
  induction entries generalizing s with
  | nil => rw [List.foldl_nil, List.findSome?_nil, Option.or_none]
  | cons entry entries ih =>
    rw [List.foldl_cons, ih, h, List.findSome?_cons, Option.or_assoc]
    cases found entry <;> rfl

theorem get?_emplace_or {α β : Type*} [LinearOrder α] (m : OrderedMap α β) (k k' : α) (v : β) :
    (m.emplace k v).get? k' = (m.get? k').or (if k = k' then some v else none) := by
  rw [OrderedMap.get?_emplace]
  by_cases hkey : k = k'
  · subst hkey
    rw [if_pos rfl, if_pos rfl]
    cases m.get? k <;> rfl
  · rw [if_neg (Ne.symm hkey), if_neg hkey, Option.or_none]

/-- Of the members of an object only one has a key. -/
theorem findSome?_of_get? {β : Type*} {map : Json.Object} (hsorted : Entries.Sorted map)
    {key : String} {value : Json.Value} (hget : Entries.get? map key = some value)
    {found : String × Json.Value → Option β}
    (hother : ∀ entry ∈ map, entry.1 ≠ key → found entry = none) :
    map.findSome? found = found (key, value) := by
  cases hfound : map.findSome? found with
  | none => exact (List.findSome?_eq_none_iff.1 hfound _ (Entries.mem_of_get? hget)).symm
  | some result =>
    obtain ⟨entry, hentry, hresult⟩ := List.exists_of_findSome?_eq_some hfound
    by_cases hkey : entry.1 = key
    · have hvalue : Entries.get? map key = some entry.2 :=
        (Entries.get?_eq_some_iff hsorted).2 (hkey ▸ hentry)
      rw [hget, Option.some_inj] at hvalue
      rw [← hresult, hvalue, ← hkey]
    · rw [hother entry hentry hkey] at hresult
      cases hresult

/-! ### Keys -/

theorem slash_notMem_str {K : EntityKind} (id : TypedId K) : '/' ∉ id.str.toList := by
  rw [TypedId.str]
  simp only [String.toList_append, List.mem_append, not_or]
  refine ⟨⟨?_, by decide⟩, fun hmem => ?_⟩
  · cases K <;> decide
  · exact absurd (Bundle.mem_ulidAlphabet_of_mem_encodeUlid hmem) (by decide)

theorem isDigit_of_mem_toString {n : ℕ} {c : Char} (h : c ∈ (toString n).toList) :
    c.isDigit = true := by
  change c ∈ (String.ofList (Nat.toDigits 10 n)).toList at h
  rw [String.toList_ofList] at h
  exact Nat.isDigit_of_mem_toDigits (by decide) le_rfl h

theorem slash_notMem_toString (n : ℤ) : '/' ∉ (toString n).toList := by
  intro h
  cases n with
  | ofNat n => exact absurd (isDigit_of_mem_toString h) (by decide)
  | negSucc n =>
    change '/' ∈ ("-" ++ toString (n + 1)).toList at h
    rw [String.toList_append] at h
    rcases List.mem_append.1 h with h | h
    · exact absurd h (by decide)
    · exact absurd (isDigit_of_mem_toString h) (by decide)

theorem toString_int_injective : Function.Injective (toString : ℤ → String) := by
  have hsign : ∀ m n : ℕ, toString m ≠ "-" ++ toString n := by
    intro m n h
    have hmem : '-' ∈ (toString m).toList := by
      rw [h, String.toList_append]
      exact List.mem_append_left _ (by decide)
    exact absurd (isDigit_of_mem_toString hmem) (by decide)
  intro a b h
  cases a with
  | ofNat a =>
    cases b with
    | ofNat b => exact congrArg Int.ofNat (toString_injective h)
    | negSucc b => exact absurd h (hsign a (b + 1))
  | negSucc a =>
    cases b with
    | ofNat b => exact absurd h.symm (hsign b (a + 1))
    | negSucc b =>
      have hdigits : toString (a + 1) = toString (b + 1) := (String.append_right_inj _).1 h
      exact congrArg Int.negSucc (Nat.succ.inj (toString_injective hdigits))

theorem components_noteKey (pattern : PatternId) (instrument : InstrumentId) (note : Note) :
    components (Residue.noteKey pattern instrument note).toList =
      [pattern.str.toList, instrument.str.toList, (toString note.start).toList,
        (toString note.length).toList, (toString note.key).toList,
        (toString note.velocity).toList] := by
  have hvelocity : '/' ∉ (toString note.velocity).toList := slash_notMem_toString note.velocity
  have htext : (Residue.noteKey pattern instrument note).toList =
      pattern.str.toList ++ '/' :: (instrument.str.toList ++ '/' :: ((toString note.start).toList ++
        '/' :: ((toString note.length).toList ++ '/' :: ((toString note.key).toList ++
          '/' :: (toString note.velocity).toList)))) := by
    simp [Residue.noteKey, List.append_assoc]
  rw [components, htext, List.splitOn_append_cons_self_of_not_mem (slash_notMem_str _),
    List.splitOn_append_cons_self_of_not_mem (slash_notMem_str _),
    List.splitOn_append_cons_self_of_not_mem (slash_notMem_toString _),
    List.splitOn_append_cons_self_of_not_mem (slash_notMem_toString _),
    List.splitOn_append_cons_self_of_not_mem (slash_notMem_toString _),
    List.splitOn_eq_singleton hvelocity]

theorem noteKey_inj {pattern pattern' : PatternId} {instrument instrument' : InstrumentId}
    {note note' : Note} : Residue.noteKey pattern instrument note =
      Residue.noteKey pattern' instrument' note' ↔
        pattern = pattern' ∧ instrument = instrument' ∧ note = note' := by
  refine ⟨fun h => ?_, fun ⟨hpattern, hinstrument, hnote⟩ => by rw [hpattern, hinstrument, hnote]⟩
  have hcomponents := congrArg (fun key : String => components key.toList) h
  simp only [components_noteKey, List.cons.injEq, String.toList_inj, and_true] at hcomponents
  obtain ⟨hpattern, hinstrument, hstart, hlength, hkey, hvelocity⟩ := hcomponents
  refine ⟨str_injective hpattern, str_injective hinstrument, ?_⟩
  cases note
  cases note'
  cases toString_int_injective hstart
  cases toString_int_injective hlength
  cases toString_int_injective hkey
  cases toString_injective hvelocity
  rfl

/-! ### Records -/

/-- A record of a sequence: a note, and what the file says about it besides. -/
structure NoteRecord where
  note : Note
  properties : Option Json.Object

/-- The record in a canonical file. -/
def NoteRecord.write (record : NoteRecord) : Json.Value :=
  .array ([.int record.note.start, .int record.note.length, .int record.note.key,
    .int record.note.velocity] ++ (record.properties.map Json.Value.object).toList)

/-- The records of a canonical file: notes that the model accepts, in canonical order. -/
structure CanonicalRecords (records : List NoteRecord) : Prop where
  valid : ∀ record ∈ records, isValidNote record.note = true
  sorted : (records.map NoteRecord.note).Pairwise Note.le

theorem NoteRecord.write_injective : Function.Injective NoteRecord.write := by
  rintro ⟨⟨start, length, key, velocity⟩, properties⟩
    ⟨⟨start', length', key', velocity'⟩, properties'⟩ h
  simp only [NoteRecord.write, List.cons_append, List.nil_append, Json.Value.array.injEq,
    List.cons.injEq, Json.Value.int.injEq, Nat.cast_inj] at h
  obtain ⟨rfl, rfl, rfl, rfl, hproperties⟩ := h
  cases properties <;> cases properties' <;> simp_all

variable {patternName : String} {records : List NoteRecord} {record : NoteRecord}
  {patternId : PatternId} {instrument : InstrumentId}

/-- A note that the model accepts is read as it was written. -/
theorem readNote_write (h : isValidNote record.note = true) :
    readNote patternName record.write = (some record.note, []) := by
  simp only [isValidNote, Bool.and_eq_true, decide_eq_true_eq] at h
  obtain ⟨⟨⟨⟨⟨hstart, hlength⟩, hlow⟩, hhigh⟩, hvelocity⟩, -⟩ := h
  have hkey : toInt16 record.note.key = record.note.key :=
    Int.bmod_eq_of_le (by omega) (by omega)
  have hclamp : ∀ owner, clampVelocity record.note.velocity owner = (record.note.velocity, []) := by
    intro owner
    rw [clampVelocity, if_neg (by omega), Int.toNat_natCast]
  rw [NoteRecord.write, readNote]
  simp only [Json.Value.asArray, List.cons_append, List.nil_append, Json.Value.asInt, hclamp, hkey]
  rw [if_neg (by omega), if_neg (by omega)]

theorem recordProperties_write : recordProperties record.write = record.properties := by
  rw [recordProperties, NoteRecord.write]
  cases record.properties <;> rfl

theorem readSequence_write (h : CanonicalRecords records) (patternName : String) :
    (readSequence (records.map NoteRecord.write) patternName).1.notes =
      records.map NoteRecord.note := by
  have hnotes : ((records.map NoteRecord.write).map (readNote patternName)).filterMap Prod.fst =
      records.map NoteRecord.note := by
    rw [List.map_map, List.filterMap_map, ← List.filterMap_eq_map]
    refine List.filterMap_congr fun record hrecord => ?_
    simp only [Function.comp_apply, readNote_write (h.valid record hrecord)]
  rw [readSequence, hnotes, NoteSequence.notes_assignSorted]
  exact List.Pairwise.insertionSort_eq h.sorted

/-- What is kept of a record under a key. -/
def propertiesUnder (pattern : PatternId) (instrument : InstrumentId) (patternName key : String)
    (record : Json.Value) : Option Json.Value :=
  match (readNote patternName record).1, recordProperties record with
  | some note, some properties =>
    if Residue.noteKey pattern instrument note = key then some (.object properties) else none
  | _, _ => none

theorem get?_keepProperties (kept : OrderedMap String Json.Value) (key : String)
    (record : Json.Value) :
    (keepProperties patternId instrument patternName kept record).get? key =
      (kept.get? key).or (propertiesUnder patternId instrument patternName key record) := by
  unfold keepProperties propertiesUnder
  cases (readNote patternName record).1 with
  | none => exact Option.or_none.symm
  | some note =>
    cases recordProperties record with
    | none => exact Option.or_none.symm
    | some properties => exact get?_emplace_or kept _ key _

/-- A key has nothing of another sequence. -/
theorem propertiesUnder_of_ne {other : PatternId} {otherInstrument : InstrumentId}
    (h : ¬(other = patternId ∧ otherInstrument = instrument)) (note : Note) (item : Json.Value) :
    propertiesUnder other otherInstrument patternName
      (Residue.noteKey patternId instrument note) item = none := by
  unfold propertiesUnder
  split
  · rw [if_neg fun hkey => h ((noteKey_inj.1 hkey).imp_right And.left)]
  · rfl

/-- The properties of the first record of a note that has some. -/
def firstProperties (records : List NoteRecord) (note : Note) : Option Json.Object :=
  records.findSome? fun record => if record.note = note then record.properties else none

theorem findSome?_propertiesUnder (patternName : String)
    (h : ∀ record ∈ records, isValidNote record.note = true) (note : Note) :
    (records.map NoteRecord.write).findSome?
        (propertiesUnder patternId instrument patternName
          (Residue.noteKey patternId instrument note)) =
      (firstProperties records note).map Json.Value.object := by
  induction records with
  | nil => rfl
  | cons record records ih =>
    obtain ⟨hvalid, h⟩ := List.forall_mem_cons.1 h
    have hown : propertiesUnder patternId instrument patternName
        (Residue.noteKey patternId instrument note) record.write =
          (if record.note = note then record.properties else none).map Json.Value.object := by
      simp only [propertiesUnder, readNote_write hvalid, recordProperties_write, noteKey_inj,
        true_and]
      cases record.properties with
      | none => simp
      | some properties =>
        dsimp only
        split_ifs <;> rfl
    rw [firstProperties, List.map_cons, List.findSome?_cons, List.findSome?_cons, hown, ih h,
      ← firstProperties]
    cases (if record.note = note then record.properties else none) <;> rfl

/-! ### The sequences of a pattern -/

/-- What is kept of a sequence under a key. -/
def sequencePropertiesUnder (pattern : PatternId) (patternName key : String)
    (entry : String × Json.Value) : Option Json.Value :=
  (TypedId.parse .instrument entry.1).bind fun instrument =>
    entry.2.asArray.bind fun records =>
      records.findSome? (propertiesUnder pattern instrument patternName key)

theorem get?_readSequenceEntry_noteProperties (key : String) (loaded : LoadedSequences)
    (entry : String × Json.Value) :
    (readSequenceEntry patternId patternName loaded entry).noteProperties.get? key =
      (loaded.noteProperties.get? key).or
        (sequencePropertiesUnder patternId patternName key entry) := by
  unfold readSequenceEntry sequencePropertiesUnder
  cases TypedId.parse .instrument entry.1 with
  | none => exact Option.or_none.symm
  | some instrument =>
    cases entry.2.asArray with
    | none => exact Option.or_none.symm
    | some records =>
      exact get?_foldl_or (fun kept : OrderedMap String Json.Value => kept.get? key)
        (fun kept record => get?_keepProperties kept key record) _ records

/-- The sequence of an instrument that an entry has. -/
def sequenceFor (patternName : String) (instrument : InstrumentId) (entry : String × Json.Value) :
    Option NoteSequence :=
  if TypedId.parse .instrument entry.1 = some instrument then
    entry.2.asArray.map fun records => (readSequence records patternName).1
  else none

theorem get?_readSequenceEntry_sequences (loaded : LoadedSequences)
    (entry : String × Json.Value) :
    (readSequenceEntry patternId patternName loaded entry).sequences.get? instrument =
      (loaded.sequences.get? instrument).or (sequenceFor patternName instrument entry) := by
  unfold readSequenceEntry sequenceFor
  cases TypedId.parse .instrument entry.1 with
  | none => simp
  | some other =>
    cases entry.2.asArray with
    | none => simp
    | some records =>
      dsimp only
      rw [get?_emplace_or]
      simp only [Option.some_inj, Option.map_some]
      split_ifs <;> rfl

/-- The members of an object that name an entity are under its own text. -/
structure CanonicalKeys (K : EntityKind) (map : Json.Object) : Prop where
  sorted : Entries.Sorted map
  own : ∀ entry ∈ map, ∀ id, TypedId.parse K entry.1 = some id → entry.1 = id.str

/-- Only one member of an object names an entity. -/
theorem CanonicalKeys.findSome?_eq {K : EntityKind} {β : Type*} {map : Json.Object}
    (h : CanonicalKeys K map) {id : TypedId K} {value : Json.Value}
    (hget : Entries.get? map id.str = some value) {found : String × Json.Value → Option β}
    (hother : ∀ entry ∈ map, TypedId.parse K entry.1 ≠ some id → found entry = none) :
    map.findSome? found = found (id.str, value) := by
  refine findSome?_of_get? h.sorted hget fun entry hentry hkey => hother entry hentry fun hparse => ?_
  exact hkey (h.own entry hentry id hparse)

/-- The sequence that is read for an instrument, and what is kept of its records. -/
theorem readSequences_spec (patternId : PatternId) (patternName : String)
    {sequences : Json.Object} (hkeys : CanonicalKeys .instrument sequences)
    (hrecords : CanonicalRecords records)
    (hget : Entries.get? sequences instrument.str = some (.array (records.map NoteRecord.write)))
    (kept : OrderedMap String Json.Value) (report : List LoadIssue) :
    let read := sequences.foldl (readSequenceEntry patternId patternName)
      { noteProperties := kept, report }
    (∃ sequence, read.sequences.get? instrument = some sequence ∧
        sequence.notes = records.map NoteRecord.note) ∧
      ∀ note, read.noteProperties.get? (Residue.noteKey patternId instrument note) =
        (kept.get? (Residue.noteKey patternId instrument note)).or
          ((firstProperties records note).map Json.Value.object) := by
  dsimp only
  constructor
  · refine ⟨_, ?_, readSequence_write hrecords patternName⟩
    rw [get?_foldl_or (fun read : LoadedSequences => read.sequences.get? instrument)
      get?_readSequenceEntry_sequences, OrderedMap.get?_empty, Option.none_or,
      hkeys.findSome?_eq hget]
    · rw [sequenceFor, if_pos (instrument.parse_str)]
      rfl
    · intro entry _ hparse
      rw [sequenceFor, if_neg hparse]
  · intro note
    rw [get?_foldl_or (fun read : LoadedSequences => read.noteProperties.get?
      (Residue.noteKey patternId instrument note)) (get?_readSequenceEntry_noteProperties _),
      hkeys.findSome?_eq hget]
    · rw [sequencePropertiesUnder, instrument.parse_str, Option.bind_some, ← findSome?_propertiesUnder
        patternName hrecords.valid]
      rfl
    · -- the records of another instrument are kept under other keys
      intro entry _ hparse
      rw [sequencePropertiesUnder]
      cases hother : TypedId.parse .instrument entry.1 with
      | none => rfl
      | some other =>
        rw [hother, ne_eq, Option.some_inj] at hparse
        cases entry.2.asArray with
        | none => rfl
        | some items =>
          exact List.findSome?_eq_none_iff.2 fun item _ =>
            propertiesUnder_of_ne (fun h => hparse h.2) note item

/-! ### Patterns -/

/-- What is kept of a pattern under a key. -/
def patternPropertiesUnder (key : String) (entry : String × Json.Value) : Option Json.Value :=
  entry.2.asObject.bind fun fields =>
    (TypedId.parse .pattern entry.1).bind fun id =>
      (membersOf fields "sequences").findSome?
        (sequencePropertiesUnder id (readPattern fields).1.name key)

theorem get?_readPatternEntry_noteProperties (key : String) (loaded : LoadedPatterns)
    (entry : String × Json.Value) :
    (readPatternEntry loaded entry).noteProperties.get? key =
      (loaded.noteProperties.get? key).or (patternPropertiesUnder key entry) := by
  unfold readPatternEntry patternPropertiesUnder
  cases entry.2.asObject with
  | none => exact Option.or_none.symm
  | some fields =>
    cases TypedId.parse .pattern entry.1 with
    | none => exact Option.or_none.symm
    | some id =>
      exact get?_foldl_or
        (fun read : LoadedSequences => read.noteProperties.get? key)
        (get?_readSequenceEntry_noteProperties key) _ _

/-- The sequence that a member of the patterns has for an instrument of a pattern; `none` inside when
the pattern has none. -/
def patternFor (id : PatternId) (instrument : InstrumentId) (entry : String × Json.Value) :
    Option (Option NoteSequence) :=
  entry.2.asObject.bind fun fields =>
    if TypedId.parse .pattern entry.1 = some id then
      some ((membersOf fields "sequences").findSome?
        (sequenceFor (readPattern fields).1.name instrument))
    else none

theorem get?_readPatternEntry_patterns (loaded : LoadedPatterns) (entry : String × Json.Value) :
    ((readPatternEntry loaded entry).patterns.get? patternId).map
        (fun pattern => pattern.sequences.get? instrument) =
      ((loaded.patterns.get? patternId).map fun pattern => pattern.sequences.get? instrument).or
        (patternFor patternId instrument entry) := by
  unfold readPatternEntry patternFor
  cases entry.2.asObject with
  | none => exact Option.or_none.symm
  | some fields =>
    cases TypedId.parse .pattern entry.1 with
    | none => simp
    | some id =>
      dsimp only
      rw [get?_emplace_or, Option.map_or]
      congr 1
      simp only [Option.bind_some, Option.some_inj]
      split_ifs
      · rw [Option.map_some, get?_foldl_or
          (fun read : LoadedSequences => read.sequences.get? instrument)
          get?_readSequenceEntry_sequences]
        rfl
      · rfl

/-- An instrument with an object of its own is there. -/
theorem contains_readInstruments {map fields : Json.Object}
    (hget : takeObject map instrument.str = some fields) :
    (readInstruments map).instruments.contains instrument = true := by
  obtain ⟨value, hvalue, hfields⟩ := Option.bind_eq_some_iff.1 hget
  have hstep : ∀ (loaded : LoadedInstruments) (entry : String × Json.Value),
      ((readInstrumentEntry loaded entry).instruments.get? instrument).map (fun _ => ()) =
        ((loaded.instruments.get? instrument).map fun _ => ()).or
          (entry.2.asObject.bind fun _ =>
            if TypedId.parse .instrument entry.1 = some instrument then some () else none) := by
    intro loaded entry
    unfold readInstrumentEntry
    cases entry.2.asObject with
    | none => exact Option.or_none.symm
    | some fields =>
      cases TypedId.parse .instrument entry.1 with
      | none => simp
      | some id =>
        dsimp only
        rw [get?_emplace_or, Option.map_or]
        simp only [Option.bind_some, Option.some_inj]
        split_ifs <;> rfl
  have hfold := get?_foldl_or (fun loaded : LoadedInstruments =>
    (loaded.instruments.get? instrument).map fun _ => ()) hstep {} map
  cases hfound : (readInstruments map).instruments.get? instrument with
  | some found => exact OrderedMap.contains_eq_true_iff.2 ⟨found, hfound⟩
  | none =>
    rw [← readInstruments, hfound] at hfold
    have hnone := List.findSome?_eq_none_iff.1 hfold.symm _ (Entries.mem_of_get? hvalue)
    simp [hfields, instrument.parse_str] at hnone

/-! ### Documents -/

/-- The records of a sequence in a document. -/
def noteRecords (document : Json.Value) (pattern : PatternId) (instrument : InstrumentId) :
    Option (List Json.Value) :=
  (document.follow ["patterns", pattern.str, "sequences", instrument.str]).bind Json.Value.asArray

/-- The sequences of a canonical file. -/
structure CanonicalSequences (root : Json.Object) : Prop where
  patterns : CanonicalKeys .pattern (membersOf root "patterns")
  sequences : ∀ entry ∈ membersOf root "patterns", ∀ fields, entry.2.asObject = some fields →
    CanonicalKeys .instrument (membersOf fields "sequences")
  records : ∀ pattern instrument items, noteRecords (.object root) pattern instrument = some items →
    ∃ records, CanonicalRecords records ∧ items = records.map NoteRecord.write
  /-- The instrument of a sequence is in the file. -/
  instruments : ∀ pattern instrument items,
    noteRecords (.object root) pattern instrument = some items →
      ∃ fields, takeObject (membersOf root "instruments") instrument.str = some fields

theorem follow_cons_eq_some {value leaf : Json.Value} {key : String} {path : List String}
    (h : value.follow (key :: path) = some leaf) : ∃ members member,
      value.asObject = some members ∧ Entries.get? members key = some member ∧
        member.follow path = some leaf := by
  obtain ⟨member, hmember, hpath⟩ := Option.bind_eq_some_iff.1 h
  obtain ⟨members, hmembers, hget⟩ := Option.bind_eq_some_iff.1 hmember
  exact ⟨members, member, hmembers, hget, hpath⟩

theorem membersOf_eq {object members : Json.Object} {key : String} {member : Json.Value}
    (hget : Entries.get? object key = some member) (hmembers : member.asObject = some members) :
    membersOf object key = members := by
  rw [membersOf, takeObject, hget, Option.bind_some, hmembers]
  rfl

/-- Where the records of a sequence are. -/
theorem path_of_noteRecords {root : Json.Object} {items : List Json.Value}
    (h : noteRecords (.object root) patternId instrument = some items) :
    ∃ entry fields, Entries.get? (membersOf root "patterns") patternId.str = some entry ∧
      entry.asObject = some fields ∧
        Entries.get? (membersOf fields "sequences") instrument.str = some (.array items) := by
  obtain ⟨leaf, hfollow, harray⟩ := Option.bind_eq_some_iff.1 h
  obtain ⟨_, value, hroot, hvalue, hfollow⟩ := follow_cons_eq_some hfollow
  obtain rfl := Option.some.inj hroot
  obtain ⟨patterns, entry, hpatterns, hentry, hfollow⟩ := follow_cons_eq_some hfollow
  obtain ⟨fields, value', hfields, hvalue', hfollow⟩ := follow_cons_eq_some hfollow
  obtain ⟨sequences, held, hsequences, hheld, hleaf⟩ := follow_cons_eq_some hfollow
  obtain rfl := Option.some.inj hleaf
  refine ⟨entry, fields, membersOf_eq hvalue hpatterns ▸ hentry, hfields, ?_⟩
  rw [membersOf_eq hvalue' hsequences, hheld]
  cases held with
  | array items' => exact congrArg (some ∘ Json.Value.array) (Option.some.inj harray)
  | _ => cases harray

/-- The sequence that is loaded. -/
theorem sequences_loadPatterns {root : Json.Object} (h : CanonicalSequences root)
    (hrecords : noteRecords (.object root) patternId instrument =
      some (records.map NoteRecord.write)) (hcanonical : CanonicalRecords records) :
    ∃ pattern sequence, (loadPatterns root).patterns.get? patternId = some pattern ∧
      pattern.sequences.get? instrument = some sequence ∧
        sequence.notes = records.map NoteRecord.note := by
  obtain ⟨entry, fields, hentry, hfields, hget⟩ := path_of_noteRecords hrecords
  obtain ⟨_, hinstrument⟩ := h.instruments patternId instrument _ hrecords
  have hkeys := h.sequences _ (Entries.mem_of_get? hentry) fields hfields
  obtain ⟨⟨sequence, hsequence, hnotes⟩, -⟩ := readSequences_spec patternId
    (readPattern fields).1.name hkeys hcanonical hget .empty []
  rw [get?_foldl_or (fun read : LoadedSequences => read.sequences.get? instrument)
    get?_readSequenceEntry_sequences, OrderedMap.get?_empty, Option.none_or] at hsequence
  have hread : ((readPatterns (membersOf root "patterns")).patterns.get? patternId).map
      (fun pattern => pattern.sequences.get? instrument) = some (some sequence) := by
    rw [readPatterns, get?_foldl_or (fun read : LoadedPatterns =>
      (read.patterns.get? patternId).map fun pattern => pattern.sequences.get? instrument)
      get?_readPatternEntry_patterns, h.patterns.findSome?_eq hentry]
    · rw [patternFor, hfields, Option.bind_some, if_pos patternId.parse_str, hsequence]
      rfl
    · intro other _ hparse
      rw [patternFor]
      cases other.2.asObject with
      | none => rfl
      | some fields => exact if_neg hparse
  obtain ⟨pattern, hpattern, hheld⟩ := Option.map_eq_some_iff.1 hread
  refine ⟨(dropSequences (readInstruments (membersOf root "instruments")).instruments pattern).1,
    sequence, ?_, ?_, hnotes⟩
  · rw [loadPatterns]
    dsimp only
    rw [OrderedMap.get?_mapValues, hpattern, Option.map_some]
  · rw [dropSequences]
    dsimp only
    rw [OrderedMap.get?_filter, hheld, Option.filter_some,
      if_pos (contains_readInstruments hinstrument)]

/-- What is kept of the records of a canonical sequence. -/
theorem noteProperties_loadPatterns {root : Json.Object} (h : CanonicalSequences root)
    (hrecords : noteRecords (.object root) patternId instrument =
      some (records.map NoteRecord.write)) (hcanonical : CanonicalRecords records) (note : Note) :
    (loadPatterns root).noteProperties.get? (Residue.noteKey patternId instrument note) =
      (firstProperties records note).map Json.Value.object := by
  obtain ⟨entry, fields, hentry, hfields, hget⟩ := path_of_noteRecords hrecords
  have hkeys := h.sequences _ (Entries.mem_of_get? hentry) fields hfields
  have hproperties := (readSequences_spec patternId
    (readPattern fields).1.name hkeys hcanonical hget .empty []).2 note
  rw [get?_foldl_or (fun read : LoadedSequences => read.noteProperties.get?
    (Residue.noteKey patternId instrument note)) (get?_readSequenceEntry_noteProperties _),
    OrderedMap.get?_empty, Option.none_or, Option.none_or] at hproperties
  change (readPatterns (membersOf root "patterns")).noteProperties.get? _ = _
  rw [readPatterns, get?_foldl_or (fun read : LoadedPatterns => read.noteProperties.get?
    (Residue.noteKey patternId instrument note)) (get?_readPatternEntry_noteProperties _),
    h.patterns.findSome?_eq hentry]
  · rw [patternPropertiesUnder, hfields, Option.bind_some, patternId.parse_str, Option.bind_some,
      hproperties]
    rfl
  · -- the records of another pattern are kept under other keys
    intro other _ hparse
    rw [patternPropertiesUnder]
    cases other.2.asObject with
    | none => rfl
    | some fields =>
      cases hother : TypedId.parse .pattern other.1 with
      | none => rfl
      | some id =>
        rw [hother, ne_eq, Option.some_inj] at hparse
        refine List.findSome?_eq_none_iff.2 fun member _ => ?_
        rw [sequencePropertiesUnder]
        cases TypedId.parse .instrument member.1 with
        | none => rfl
        | some otherInstrument =>
          cases member.2.asArray with
          | none => rfl
          | some items =>
            exact List.findSome?_eq_none_iff.2 fun item _ =>
              propertiesUnder_of_ne (fun h => hparse h.1) note item

/-! ### Saving again -/

/-- The document that a save writes after a load: the patterns and the properties of notes are those
that were loaded, whatever the rest has become. -/
def resaved (root : Json.Object) (project : Tables) (residue : Json.Value) (createdWith : String)
    (state : OrderedMap InstrumentId Bundle.StateRecord) : Json.Value :=
  projectDocument { project with patterns := (loadPatterns root).patterns }
    { document := residue, noteProperties := (loadPatterns root).noteProperties } createdWith state

/-- The records of a sequence that is written. -/
theorem noteRecords_projectDocument {project : Tables} {residue : Residue} {createdWith : String}
    {state : OrderedMap InstrumentId Bundle.StateRecord} {pattern : Pattern}
    {sequence : NoteSequence} (hpattern : project.patterns.get? patternId = some pattern)
    (hsequence : pattern.sequences.get? instrument = some sequence) :
    noteRecords (projectDocument project residue createdWith state) patternId instrument =
      some (sequence.notes.map (writeNote residue patternId instrument)) := by
  have htable : (Json.Value.object (writeRoot project residue createdWith state)).find "patterns" =
      some (writeTable project.patterns (writePattern residue)) := by
    rw [writeRoot]
    exact find_objectOf (by simp) (by simp)
  have hentry : (writeTable project.patterns (writePattern residue)).find patternId.str =
      some (writePattern residue patternId pattern) := by
    rw [writeTable]
    refine find_objectOf (nodup_keys str_injective fun entry =>
      writePattern residue entry.1 entry.2) ?_
    exact List.mem_map.2 ⟨(patternId, pattern), OrderedMap.get?_eq_some_iff.1 hpattern, rfl⟩
  have hsequences : (writePattern residue patternId pattern).find "sequences" =
      some (.object (objectOf (pattern.sequences.entries.map fun entry =>
        (entry.1.str, .array (entry.2.notes.map (writeNote residue patternId entry.1)))))) := by
    rw [writePattern]
    refine find_objectOf ?_ (by simp)
    simp only [memberIf]
    split_ifs <;> simp
  have hrecords : (Json.Value.object (objectOf (pattern.sequences.entries.map fun entry =>
      (entry.1.str, .array (entry.2.notes.map (writeNote residue patternId entry.1)))))).find
        instrument.str = some (.array (sequence.notes.map (writeNote residue patternId instrument))) :=
    find_objectOf (nodup_keys str_injective fun entry =>
      Json.Value.array (entry.2.notes.map (writeNote residue patternId entry.1)))
      (List.mem_map.2 ⟨(instrument, sequence), OrderedMap.get?_eq_some_iff.1 hsequence, rfl⟩)
  have hfollow : (Json.Value.object (writeRoot project residue createdWith state)).follow
      ["patterns", patternId.str, "sequences", instrument.str] =
        some (.array (sequence.notes.map (writeNote residue patternId instrument))) := by
    rw [Value.follow, htable, Option.bind_some, Value.follow, hentry, Option.bind_some,
      Value.follow, hsequences, Option.bind_some, Value.follow, hrecords]
    rfl
  rw [noteRecords, projectDocument, ← mergeValue, follow_mergeValue rfl _ _ hfollow]
  rfl

/-- **What a load and a save make of a record**: it gets the properties of the first record of its
sequence that agrees with it in all four values and has some. -/
theorem noteRecords_resaved {root : Json.Object} (h : CanonicalSequences root) (project : Tables)
    (residue : Json.Value) (createdWith : String)
    (state : OrderedMap InstrumentId Bundle.StateRecord)
    (hrecords : noteRecords (.object root) patternId instrument =
      some (records.map NoteRecord.write)) (hcanonical : CanonicalRecords records) :
    noteRecords (resaved root project residue createdWith state) patternId instrument =
      some (records.map fun record =>
        NoteRecord.write { record with properties := firstProperties records record.note }) := by
  obtain ⟨pattern, sequence, hpattern, hsequence, hnotes⟩ :=
    sequences_loadPatterns h hrecords hcanonical
  rw [resaved, noteRecords_projectDocument hpattern hsequence, hnotes, List.map_map]
  refine congrArg some (List.map_congr_left fun record _ => ?_)
  rw [Function.comp_apply, writeNote, NoteRecord.write,
    noteProperties_loadPatterns h hrecords hcanonical]

theorem firstProperties_eq_iff : (∀ record ∈ records,
    firstProperties records record.note = record.properties) ↔
      ∀ a ∈ records, ∀ b ∈ records, a.note = b.note → a.properties = b.properties := by
  constructor
  · intro h a ha b hb hnote
    rw [← h a ha, ← h b hb, hnote]
  · intro h record hrecord
    cases hfirst : firstProperties records record.note with
    | none =>
      have := List.findSome?_eq_none_iff.1 hfirst record hrecord
      rw [if_pos rfl] at this
      exact this.symm
    | some properties =>
      obtain ⟨other, hother, hproperties⟩ := List.exists_of_findSome?_eq_some hfirst
      split_ifs at hproperties with hnote
      rw [← hproperties]
      exact h other hother record hrecord hnote

/-- **Properties stay with their note** through a load and a save exactly when records of a sequence
that agree in all four values agree in their properties. -/
theorem sequence_kept_iff {root : Json.Object} (h : CanonicalSequences root) (project : Tables)
    (residue : Json.Value) (createdWith : String)
    (state : OrderedMap InstrumentId Bundle.StateRecord) {pattern : PatternId}
    {instrument : InstrumentId} {records : List NoteRecord}
    (hrecords : noteRecords (.object root) pattern instrument =
      some (records.map NoteRecord.write)) :
    noteRecords (resaved root project residue createdWith state) pattern instrument =
        some (records.map NoteRecord.write) ↔
      ∀ a ∈ records, ∀ b ∈ records, a.note = b.note → a.properties = b.properties := by
  obtain ⟨canonical, hcanonical, hsame⟩ := h.records pattern instrument _ hrecords
  obtain rfl := List.map_injective_iff.2 NoteRecord.write_injective hsame
  rw [noteRecords_resaved h project residue createdWith state hrecords hcanonical, Option.some_inj,
    List.map_inj_left, ← firstProperties_eq_iff]
  refine forall₂_congr fun record _ => ?_
  rw [NoteRecord.write_injective.eq_iff]
  constructor
  · exact congrArg NoteRecord.properties
  · intro hproperties
    rw [hproperties]

/-- A document with one sequence. -/
def soloDocument (records : List NoteRecord) : Json.Object :=
  [("instruments", .object [(TypedId.str (K := .instrument) ⟨2⟩, .object [])]),
    ("patterns", .object [(TypedId.str (K := .pattern) ⟨1⟩, .object [("sequences",
      .object [(TypedId.str (K := .instrument) ⟨2⟩, .array (records.map NoteRecord.write))])])])]

theorem canonicalKeys_singleton {K : EntityKind} (id : TypedId K) (value : Json.Value) :
    CanonicalKeys K [(id.str, value)] := by
  refine ⟨List.pairwise_singleton _ _, fun entry hentry other hparse => ?_⟩
  obtain rfl := List.mem_singleton.1 hentry
  rw [id.parse_str, Option.some_inj] at hparse
  rw [hparse]

theorem canonical_soloDocument (h : CanonicalRecords records) :
    CanonicalSequences (soloDocument records) := by
  have hpath : ∀ pattern instrument items,
      noteRecords (.object (soloDocument records)) pattern instrument = some items →
        instrument = ⟨2⟩ ∧ items = records.map NoteRecord.write := by
    intro pattern instrument items hitems
    obtain ⟨entry, fields, hentry, hfields, hget⟩ := path_of_noteRecords hitems
    obtain ⟨-, rfl⟩ := Prod.ext_iff.1 (List.mem_singleton.1 (Entries.mem_of_get? hentry))
    obtain rfl := Option.some.inj hfields
    obtain ⟨hkey, hvalue⟩ := Prod.ext_iff.1 (List.mem_singleton.1 (Entries.mem_of_get? hget))
    exact ⟨str_injective hkey, Json.Value.array.inj hvalue⟩
  refine ⟨canonicalKeys_singleton _ _, fun entry hentry fields hfields => ?_,
    fun pattern instrument items hitems => ⟨records, h, (hpath _ _ _ hitems).2⟩,
    fun pattern instrument items hitems => ?_⟩
  · obtain rfl := List.mem_singleton.1 hentry
    obtain rfl := Option.some.inj hfields
    exact canonicalKeys_singleton _ _
  · obtain ⟨rfl, -⟩ := hpath _ _ _ hitems
    exact ⟨[], rfl⟩

theorem noteRecords_soloDocument : noteRecords (.object (soloDocument records)) ⟨1⟩ ⟨2⟩ =
    some (records.map NoteRecord.write) := by
  have hpattern : (Json.Value.object (soloDocument records)).find "patterns" =
    some (.object [(TypedId.str (K := .pattern) ⟨1⟩, .object [("sequences",
      .object [(TypedId.str (K := .instrument) ⟨2⟩, .array (records.map NoteRecord.write))])])]) := rfl
  rw [noteRecords, Value.follow, hpattern]
  simp [Value.follow, Value.find, Value.asObject, Value.asArray, Entries.get?]

/-- A quarter note, with a pan and without. -/
def panned : List NoteRecord :=
  [⟨⟨0, 960, 60, 12900⟩, none⟩, ⟨⟨0, 960, 60, 12900⟩, some [("pan", .real (.finite (-1 / 4)))]⟩]

theorem canonical_panned : CanonicalRecords panned := by
  refine ⟨?_, ?_⟩ <;> simp [panned] <;> decide

/-- The note without a pan. -/
theorem sequence_kept_iff_plain :
    noteRecords (resaved (soloDocument (panned.take 1)) {} .null "" .empty) ⟨1⟩ ⟨2⟩ =
        some ((panned.take 1).map NoteRecord.write) ↔
      ∀ a ∈ panned.take 1, ∀ b ∈ panned.take 1, a.note = b.note → a.properties = b.properties :=
  sequence_kept_iff (canonical_soloDocument ⟨fun record hrecord =>
    canonical_panned.valid record (List.mem_of_mem_take hrecord),
      canonical_panned.sorted.sublist ((List.take_sublist _ _).map _)⟩) {} .null "" .empty
    noteRecords_soloDocument

/-- The note that had no pan is written with that of the other. -/
theorem not_kept_panned : CanonicalSequences (soloDocument panned) ∧
    noteRecords (.object (soloDocument panned)) ⟨1⟩ ⟨2⟩ = some (panned.map NoteRecord.write) ∧
      noteRecords (resaved (soloDocument panned) {} .null "" .empty) ⟨1⟩ ⟨2⟩ ≠
        some (panned.map NoteRecord.write) := by
  refine ⟨canonical_soloDocument canonical_panned, noteRecords_soloDocument, fun h => ?_⟩
  rw [noteRecords_resaved (canonical_soloDocument canonical_panned) {} .null "" .empty
    noteRecords_soloDocument canonical_panned, Option.some_inj, List.map_inj_left] at h
  have hproperties := congrArg NoteRecord.properties
    (NoteRecord.write_injective (h _ List.mem_cons_self))
  cases hproperties

end OneBeat
