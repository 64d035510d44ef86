import OneBeat.Model.JsonProgress
import OneBeat.Model.JsonReading

/-!
# Writing a value and parsing it again

* `parse_writeCanonical` : **the parser reads what the writer wrote**, with the reals rounded to six
  decimals, whatever keys are hoisted to the front of the root;
* `roundTrips_iff` : a value whose reals are recovered from six decimals comes back as it was
  exactly when the spelling of every real fits the buffer it is printed into.
-/

namespace OneBeat.Json

mutual

/-- The reals in a value. -/
def Value.reals : Value → List Double
  | .real d => [d]
  | .array items => itemsReals items
  | .object members => membersReals members
  | .null | .bool _ | .int _ | .string _ => []

def itemsReals : List Value → List Double
  | [] => []
  | item :: items => item.reals ++ itemsReals items

def membersReals : Object → List Double
  | [] => []
  | (_, value) :: members => value.reals ++ membersReals members

end

mutual

/-- How deep values nest in a value. -/
def Value.nesting : Value → ℕ
  | .array items => itemsNesting items
  | .object members => membersNesting members
  | .null | .bool _ | .int _ | .real _ | .string _ => 0

def itemsNesting : List Value → ℕ
  | [] => 0
  | item :: items => max (item.nesting + 1) (itemsNesting items)

def membersNesting : Object → ℕ
  | [] => 0
  | (_, value) :: members => max (value.nesting + 1) (membersNesting members)

end

mutual

/-- What the types of the source promise: integers have 64 bits, the keys of an object ascend. -/
def Value.WellTyped : Value → Prop
  | .int n => isInt64 n = true
  | .array items => ItemsWellTyped items
  | .object members => Entries.Sorted members ∧ MembersWellTyped members
  | .null | .bool _ | .real _ | .string _ => True

def ItemsWellTyped : List Value → Prop
  | [] => True
  | item :: items => item.WellTyped ∧ ItemsWellTyped items

def MembersWellTyped : Object → Prop
  | [] => True
  | (_, value) :: members => value.WellTyped ∧ MembersWellTyped members

end

mutual

theorem storable_of : ∀ (value : Value) {depth : ℕ}, value.WellTyped →
    depth + value.nesting ≤ maxDepth → (∀ d ∈ value.reals, WritableReal d) → value.Storable depth
  | .null, _, _, hdepth, _ => hdepth
  | .bool _, _, _, hdepth, _ => hdepth
  | .string _, _, _, hdepth, _ => hdepth
  | .int _, _, htyped, hdepth, _ => ⟨hdepth, htyped⟩
  | .real d, _, _, hdepth, hreals => ⟨hdepth, hreals d (by simp [Value.reals])⟩
  | .array items, depth, htyped, hdepth, hreals => by
    rw [Value.nesting] at hdepth
    exact ⟨by omega, itemsStorable_of items htyped (by omega) (by omega) hreals⟩
  | .object members, depth, htyped, hdepth, hreals => by
    rw [Value.nesting] at hdepth
    exact ⟨by omega, htyped.1, membersStorable_of members htyped.2 (by omega) (by omega) hreals⟩

theorem itemsStorable_of : ∀ (items : List Value) {depth : ℕ}, ItemsWellTyped items →
    depth ≤ maxDepth → depth + itemsNesting items ≤ maxDepth →
      (∀ d ∈ itemsReals items, WritableReal d) → ItemsStorable (depth + 1) items
  | [], _, _, _, _, _ => trivial
  | item :: items, depth, htyped, hdepth, hnesting, hreals => by
    rw [itemsNesting] at hnesting
    simp only [itemsReals, List.mem_append] at hreals
    exact ⟨storable_of item htyped.1 (by omega) fun d hd => hreals d (.inl hd),
      itemsStorable_of items htyped.2 hdepth (by omega) fun d hd => hreals d (.inr hd)⟩

theorem membersStorable_of : ∀ (members : Object) {depth : ℕ}, MembersWellTyped members →
    depth ≤ maxDepth → depth + membersNesting members ≤ maxDepth →
      (∀ d ∈ membersReals members, WritableReal d) → MembersStorable (depth + 1) members
  | [], _, _, _, _, _ => trivial
  | (_, value) :: members, depth, htyped, hdepth, hnesting, hreals => by
    rw [membersNesting] at hnesting
    simp only [membersReals, List.mem_append] at hreals
    exact ⟨storable_of value htyped.1 (by omega) fun d hd => hreals d (.inl hd),
      membersStorable_of members htyped.2 hdepth (by omega) fun d hd => hreals d (.inr hd)⟩

end

mutual

theorem reread_eq_self : ∀ value : Value, (∀ d ∈ value.reals, rereadReal d = d) →
    value.reread = value
  | .null, _ | .bool _, _ | .int _, _ | .string _, _ => rfl
  | .real d, h => by rw [Value.reread, h d (by simp [Value.reals])]
  | .array items, h => by rw [Value.reread, rereadItems_eq_self items h]
  | .object members, h => by rw [Value.reread, rereadMembers_eq_self members h]

theorem rereadItems_eq_self : ∀ items : List Value, (∀ d ∈ itemsReals items, rereadReal d = d) →
    rereadItems items = items
  | [], _ => rfl
  | item :: items, h => by
    simp only [itemsReals, List.mem_append] at h
    rw [rereadItems, reread_eq_self item fun d hd => h d (.inl hd),
      rereadItems_eq_self items fun d hd => h d (.inr hd)]

theorem rereadMembers_eq_self : ∀ members : Object,
    (∀ d ∈ membersReals members, rereadReal d = d) → rereadMembers members = members
  | [], _ => rfl
  | (_, value) :: members, h => by
    simp only [membersReals, List.mem_append] at h
    rw [rereadMembers, reread_eq_self value fun d hd => h d (.inl hd),
      rereadMembers_eq_self members fun d hd => h d (.inr hd)]

end

mutual

theorem isFinite_iff : ∀ value : Value,
    value.isFinite = true ↔ ∀ d ∈ value.reals, d.isFinite = true
  | .null | .bool _ | .int _ | .string _ => by simp [Value.isFinite, Value.reals]
  | .real d => by simp [Value.isFinite, Value.reals]
  | .array items => by rw [Value.isFinite, Value.reals, areFinite_iff items]
  | .object members => by rw [Value.isFinite, Value.reals, membersFinite_iff members]

theorem areFinite_iff : ∀ items : List Value,
    Value.areFinite items = true ↔ ∀ d ∈ itemsReals items, d.isFinite = true
  | [] => by simp [Value.areFinite, itemsReals]
  | item :: items => by
    simp only [Value.areFinite, itemsReals, Bool.and_eq_true, isFinite_iff item,
      areFinite_iff items, List.mem_append]
    exact ⟨fun h d hd => hd.elim (h.1 d) (h.2 d),
      fun h => ⟨fun d hd => h d (.inl hd), fun d hd => h d (.inr hd)⟩⟩

theorem membersFinite_iff : ∀ members : Object,
    Value.membersFinite members = true ↔ ∀ d ∈ membersReals members, d.isFinite = true
  | [] => by simp [Value.membersFinite, membersReals]
  | (_, value) :: members => by
    simp only [Value.membersFinite, membersReals, Bool.and_eq_true, isFinite_iff value,
      membersFinite_iff members, List.mem_append]
    exact ⟨fun h d hd => hd.elim (h.1 d) (h.2 d),
      fun h => ⟨fun d hd => h d (.inl hd), fun d hd => h d (.inr hd)⟩⟩

end

/-! ### What the writer wrote is read -/

/-- The hoisted members are the members. -/
theorem mem_hoist (order : List String) {members : Object} (h : Entries.Sorted members)
    (entry : String × Value) : entry ∈ hoist order members ↔ entry ∈ members := by
  obtain ⟨key, value⟩ := entry
  simp only [hoist, List.mem_append, List.mem_filterMap, List.mem_filter, Option.map_eq_some_iff,
    Prod.mk.injEq, decide_eq_true_eq]
  constructor
  · rintro (⟨k, -, v, hv, rfl, rfl⟩ | ⟨hmem, -⟩)
    · exact Entries.mem_of_get? hv
    · exact hmem
  · intro hmem
    by_cases hkey : key ∈ order
    · exact .inl ⟨key, hkey, value, (Entries.get?_eq_some_iff h).2 hmem, rfl, rfl⟩
    · exact .inr ⟨hmem, hkey⟩

/-- The root is read back whatever is hoisted. -/
theorem reads_hoistRoot (order : List String) {root : Value} (h : root.Storable 0) :
    Starts (writeValue 0 (hoistRoot order root)) ∧
      Reads 0 (writeValue 0 (hoistRoot order root)) root.reread := by
  cases root with
  | object members =>
    cases hmembers : hoist order members with
    | nil =>
      have hempty : members = [] := by
        refine List.eq_nil_iff_forall_not_mem.2 fun entry hmem => ?_
        have := (mem_hoist order h.2.1 entry).2 hmem
        rw [hmembers] at this
        cases this
      subst hempty
      rw [hoistRoot, hmembers]
      exact reads_writeValue _ 0 h
    | cons entry rest =>
      obtain ⟨key, value⟩ := entry
      have hstorable : MembersStorable 1 (hoist order members) := by
        rw [membersStorable_iff]
        exact fun entry hentry =>
          (membersStorable_iff.1 h.2.2) entry ((mem_hoist order h.2.1 entry).1 hentry)
      have hreads := reads_writeMembers (hoist order members) 1 hstorable
      rw [hmembers] at hreads
      rw [hoistRoot, hmembers]
      refine ⟨⟨'{', _, rfl, by decide, by decide, by decide⟩, ?_⟩
      refine hreads.reads_block h.1 (by simp [writeMembers]) (sorted_rereadMembers h.2.1) ?_
      intro entry
      rw [rereadMembers_eq_map, rereadMembers_eq_map, ← hmembers]
      simp only [List.mem_map, mem_hoist order h.2.1]
  | null | bool b | int n | real d | string text | array items => exact reads_writeValue _ 0 h

/-- **The parser reads what the writer wrote**, with the reals rounded to six decimals. -/
theorem parse_writeCanonical {root : Value} (h : root.Storable 0) {order : List String}
    {text : List Char} (htext : writeCanonical root order = some text) :
    parse text = .ok root.reread := by
  obtain ⟨hstarts, hreads⟩ := reads_hoistRoot order h
  have hwritten : text = writeValue 0 (hoistRoot order root) ++ ['\n'] := by
    unfold writeCanonical at htext
    split_ifs at htext
    exact (Option.some.inj htext).symm
  have hmark : dropByteOrderMark text = text := by
    obtain ⟨c, rest, hc, -, -, hne⟩ := hstarts
    unfold dropByteOrderMark
    rw [if_neg]
    rw [hwritten, hc]
    intro heq
    exact hne (List.cons.inj heq).1
  have hskip : (Cursor.skipWhitespace ⟨text, 1, 1⟩).rest =
      writeValue 0 (hoistRoot order root) ++ ['\n'] :=
    rest_skip_nil hwritten (hstarts.solid.append _)
  obtain ⟨cursor, hvalue, hrest⟩ := hreads (fuelFor text) _ _ hskip
    (numeralEnd_cons (by decide)) (by rw [hskip, fuelFor, ← hwritten]; omega)
  have hend : cursor.skipWhitespace.rest = [] := by
    rw [Cursor.rest_skipWhitespace, hrest]
    decide
  rw [parse, hmark, runParser, hvalue, ok_bind]
  dsimp only
  rw [hend]
  rfl

/-! ### Spellings that do not fit -/

/-- A real whose spelling is longer than the buffer. -/
def Overlong (d : Double) : Prop := formatBufferSize ≤ (printReal d).length

theorem nul_mem_formatReal {d : Double} (h : Overlong d) : nul ∈ formatReal d := by
  have hlong : ¬ (printReal d).length < formatBufferSize := not_lt.2 h
  have hmem : nul ∈ (printReal d).take (formatBufferSize - 1) ++ [nul] := by simp
  rw [formatReal, if_neg hlong]
  split_ifs with hzero
  · rw [hzero] at hmem
    exact absurd hmem (by decide)
  · exact hmem

theorem mem_separated {separator text : List Char} {texts : List (List Char)} {c : Char}
    (htext : text ∈ texts) (hc : c ∈ text) : c ∈ separated separator texts := by
  induction texts with
  | nil => cases htext
  | cons t texts ih =>
    cases texts with
    | nil => rwa [separated, ← List.mem_singleton.1 htext]
    | cons u texts =>
      rw [separated_cons_cons]
      rcases List.mem_cons.1 htext with rfl | htext
      · exact List.mem_append_left _ hc
      · exact List.mem_append_right _ (List.mem_append_right _ (ih htext))

theorem mem_block {depth : ℕ} {text : List Char} {texts : List (List Char)} {c : Char}
    (htext : text ∈ texts) (hc : c ∈ text) : c ∈ block depth texts := by
  rw [block]
  refine List.mem_cons_of_mem _ (List.mem_append_left _ ?_)
  exact mem_separated (List.mem_map_of_mem htext) (List.mem_append_right _ hc)

mutual

theorem nul_mem_writeInline : ∀ value : Value,
    (∃ d ∈ value.reals, d.isFinite = true ∧ Overlong d) → nul ∈ writeInline value
  | .null, h | .bool _, h | .int _, h | .string _, h => by
    obtain ⟨d, hd, -⟩ := h
    cases hd
  | .real d, h => by
    obtain ⟨d', hd', hfinite, hlong⟩ := h
    cases List.mem_singleton.1 hd'
    rw [writeInline, writeScalar, if_pos hfinite]
    · exact nul_mem_formatReal hlong
    all_goals exact fun _ he => nomatch he
  | .array items, h => by
    obtain ⟨text, htext, hnul⟩ := nul_mem_writeInlineItems items h
    rw [writeInline]
    exact .tail _ (List.mem_append_left _ (mem_separated htext hnul))
  | .object members, h => by
    obtain ⟨text, htext, hnul⟩ := nul_mem_writeInlineMembers members h
    rw [writeInline]
    exact .tail _ (List.mem_append_left _ (mem_separated htext hnul))

theorem nul_mem_writeInlineItems : ∀ items : List Value,
    (∃ d ∈ itemsReals items, d.isFinite = true ∧ Overlong d) →
      ∃ text ∈ writeInlineItems items, nul ∈ text
  | [], h => by
    obtain ⟨d, hd, -⟩ := h
    cases hd
  | item :: items, h => by
    obtain ⟨d, hd, hlong⟩ := h
    rw [writeInlineItems]
    rcases List.mem_append.1 hd with hd | hd
    · exact ⟨_, List.mem_cons_self, nul_mem_writeInline item ⟨d, hd, hlong⟩⟩
    · obtain ⟨text, htext, hnul⟩ := nul_mem_writeInlineItems items ⟨d, hd, hlong⟩
      exact ⟨text, .tail _ htext, hnul⟩

theorem nul_mem_writeInlineMembers : ∀ members : Object,
    (∃ d ∈ membersReals members, d.isFinite = true ∧ Overlong d) →
      ∃ text ∈ writeInlineMembers members, nul ∈ text
  | [], h => by
    obtain ⟨d, hd, -⟩ := h
    cases hd
  | (key, value) :: members, h => by
    obtain ⟨d, hd, hlong⟩ := h
    rw [writeInlineMembers]
    rcases List.mem_append.1 hd with hd | hd
    · exact ⟨_, List.mem_cons_self,
        List.mem_append_right _ (nul_mem_writeInline value ⟨d, hd, hlong⟩)⟩
    · obtain ⟨text, htext, hnul⟩ := nul_mem_writeInlineMembers members ⟨d, hd, hlong⟩
      exact ⟨text, .tail _ htext, hnul⟩

end

mutual

theorem nul_mem_writeValue : ∀ (value : Value) (depth : ℕ),
    (∃ d ∈ value.reals, d.isFinite = true ∧ Overlong d) → nul ∈ writeValue depth value
  | .null, _, h | .bool _, _, h | .int _, _, h | .string _, _, h => by
    obtain ⟨d, hd, -⟩ := h
    cases hd
  | .real d, depth, h => by
    obtain ⟨d', hd', hfinite, hlong⟩ := h
    cases List.mem_singleton.1 hd'
    have hscalar : writeValue depth (.real d) = formatReal d := by
      have : writeValue depth (.real d) = writeScalar (.real d) := rfl
      rw [this, writeScalar, if_pos hfinite]
    rw [hscalar]
    exact nul_mem_formatReal hlong
  | .array [], _, h => by
    obtain ⟨d, hd, -⟩ := h
    cases hd
  | .array (item :: items), depth, h => by
    obtain ⟨text, htext, hnul⟩ := nul_mem_writeInlineItems (item :: items) h
    obtain ⟨text', htext', hnul'⟩ := nul_mem_writeItems (item :: items) (depth + 1) h
    rw [writeValue]
    split_ifs
    · exact .tail _ (List.mem_append_left _ (mem_separated htext hnul))
    · exact .tail _ (List.mem_append_left _ (mem_block htext' hnul'))
    · exact fun he => nomatch he
  | .object [], _, h => by
    obtain ⟨d, hd, -⟩ := h
    cases hd
  | .object (member :: members), depth, h => by
    obtain ⟨text, htext, hnul⟩ := nul_mem_writeMembers (member :: members) (depth + 1) h
    rw [writeValue]
    · exact .tail _ (List.mem_append_left _ (mem_block htext hnul))
    · exact fun he => nomatch he

theorem nul_mem_writeItems : ∀ (items : List Value) (depth : ℕ),
    (∃ d ∈ itemsReals items, d.isFinite = true ∧ Overlong d) →
      ∃ text ∈ writeItems depth items, nul ∈ text
  | [], _, h => by
    obtain ⟨d, hd, -⟩ := h
    cases hd
  | item :: items, depth, h => by
    obtain ⟨d, hd, hlong⟩ := h
    rw [writeItems]
    rcases List.mem_append.1 hd with hd | hd
    · exact ⟨_, List.mem_cons_self, nul_mem_writeValue item depth ⟨d, hd, hlong⟩⟩
    · obtain ⟨text, htext, hnul⟩ := nul_mem_writeItems items depth ⟨d, hd, hlong⟩
      exact ⟨text, .tail _ htext, hnul⟩

theorem nul_mem_writeMembers : ∀ (members : Object) (depth : ℕ),
    (∃ d ∈ membersReals members, d.isFinite = true ∧ Overlong d) →
      ∃ text ∈ writeMembers depth members, nul ∈ text
  | [], _, h => by
    obtain ⟨d, hd, -⟩ := h
    cases hd
  | (key, value) :: members, depth, h => by
    obtain ⟨d, hd, hlong⟩ := h
    rw [writeMembers]
    rcases List.mem_append.1 hd with hd | hd
    · exact ⟨_, List.mem_cons_self,
        List.mem_append_right _ (nul_mem_writeValue value depth ⟨d, hd, hlong⟩)⟩
    · obtain ⟨text, htext, hnul⟩ := nul_mem_writeMembers members depth ⟨d, hd, hlong⟩
      exact ⟨text, .tail _ htext, hnul⟩

end

/-- The magnitude from which a number has too many digits for the buffer: a minus sign takes the
place of one. -/
def bufferLimit (q : ℚ) : ℕ := if q < 0 then 10 ^ 55 else 10 ^ 56

/-- A real that stays below the limit when it is rounded to six decimals. -/
def FitsBuffer : Double → Prop
  | .finite q => (roundHalfEven (q * 10 ^ 6)).natAbs < bufferLimit q * 10 ^ 6
  | _ => True

/-- The limit is where the spelling gets too long. -/
theorem fitsBuffer_iff (q : ℚ) :
    FitsBuffer (.finite q) ↔ (printReal (.finite q)).length < formatBufferSize := by
  have hfraction := length_paddedDigits (show 0 < 6 by decide)
    (Nat.mod_lt (roundHalfEven (q * 10 ^ 6)).natAbs (by decide : 0 < 10 ^ 6))
  have hwhole : ∀ k, 0 < k →
      ((decimalDigits ((roundHalfEven (q * 10 ^ 6)).natAbs / 10 ^ 6)).length ≤ k ↔
        (roundHalfEven (q * 10 ^ 6)).natAbs < 10 ^ k * 10 ^ 6) := fun k hk =>
    (Nat.length_toDigits_le_iff (by decide) hk).trans (Nat.div_lt_iff_lt_mul (by decide))
  simp only [FitsBuffer, printReal, fixedPoint, List.length_append, List.length_cons, hfraction,
    formatBufferSize, bufferLimit]
  split_ifs
  · rw [← hwhole 55 (by decide), List.length_singleton]
    omega
  · rw [← hwhole 56 (by decide), List.length_nil]
    omega

/-! ### The round trip -/

/-- A real that is recovered from its six decimals. -/
def RecoveredReal (d : Double) : Prop := d.isFinite = true ∧ rereadReal d = d

/-- A value comes back as it was, and is written again as it was. -/
def RoundTrips (value : Value) : Prop :=
  ∃ text, writeCanonical value = some text ∧ parse text = .ok value ∧
    ∀ value', parse text = .ok value' → writeCanonical value' = some text

theorem hoistRoot_nil (root : Value) : hoistRoot [] root = root := by
  cases root <;> simp [hoistRoot, hoist]

/-- A spelling that does not fit cannot be parsed. -/
theorem not_roundTrips {value : Value} {d : Double} (hd : d ∈ value.reals)
    (hfinite : d.isFinite = true) (hlong : Overlong d) : ¬ RoundTrips value := by
  rintro ⟨text, htext, hparse, -⟩
  unfold writeCanonical at htext
  split_ifs at htext
  rw [hoistRoot_nil] at htext
  refine nul_not_mem_of_parse hparse ?_
  rw [← Option.some.inj htext]
  exact List.mem_append_left _ (nul_mem_writeValue value 0 ⟨d, hd, hfinite, hlong⟩)

/-- **The round trip is exact precisely when every real fits the buffer it is printed into.** -/
theorem roundTrips_iff {value : Value} (htyped : value.WellTyped)
    (hdepth : value.nesting ≤ maxDepth) (hreals : ∀ d ∈ value.reals, RecoveredReal d) :
    RoundTrips value ↔ ∀ d ∈ value.reals, FitsBuffer d := by
  have hfits : ∀ d ∈ value.reals, FitsBuffer d ↔ (printReal d).length < formatBufferSize := by
    intro d hd
    obtain ⟨q, rfl⟩ := Double.isFinite_iff.1 (hreals d hd).1
    exact fitsBuffer_iff q
  have hfinite : value.isFinite = true := (isFinite_iff value).2 fun d hd => (hreals d hd).1
  constructor
  · intro hround d hd
    by_contra hlong
    rw [hfits d hd] at hlong
    exact not_roundTrips hd (hreals d hd).1 (not_lt.1 hlong) hround
  · intro hshort
    have hstorable : value.Storable 0 := storable_of value htyped (by omega)
      fun d hd => ⟨(hreals d hd).1, (hfits d hd).1 (hshort d hd)⟩
    have htext : writeCanonical value =
        some (writeValue 0 (hoistRoot [] value) ++ ['\n']) := by rw [writeCanonical, if_pos hfinite]
    have hparse := parse_writeCanonical hstorable htext
    rw [reread_eq_self value fun d hd => (hreals d hd).2] at hparse
    refine ⟨_, htext, hparse, fun value' hvalue' => ?_⟩
    rw [hparse] at hvalue'
    cases hvalue'
    exact htext

/-- A document with a real and a record of numbers. -/
def sampleDocument : Value :=
  .object [("gain", .real (.finite (1 / 2))), ("note", .array [.int 0, .int 960])]

theorem roundTrips_sampleDocument :
    RoundTrips sampleDocument ↔ ∀ d ∈ sampleDocument.reals, FitsBuffer d :=
  roundTrips_iff ⟨by decide, trivial,
    ⟨(by decide : isInt64 0 = true), (by decide : isInt64 960 = true), trivial⟩,
    trivial⟩ (by decide)
    (by
      intro d hd
      rw [List.mem_singleton.1 (show d ∈ [Double.finite (1 / 2)] from hd)]
      exact ⟨rfl, by decide +kernel⟩)

/-- `2 ^ 200` is recovered from its decimals, but they do not fit the buffer. -/
theorem not_roundTrips_twoPow :
    (Value.real (.finite (2 ^ 200))).WellTyped ∧
      (Value.real (.finite (2 ^ 200))).nesting ≤ maxDepth ∧
      (∀ d ∈ (Value.real (.finite (2 ^ 200))).reals, RecoveredReal d) ∧
      ¬ RoundTrips (.real (.finite (2 ^ 200))) := by
  refine ⟨trivial, by decide, fun d hd => ?_,
    not_roundTrips (d := .finite (2 ^ 200)) (by simp [Value.reals]) rfl ?_⟩
  · rw [List.mem_singleton.1 (show d ∈ [Double.finite (2 ^ 200)] from hd)]
    exact ⟨rfl, by decide +kernel⟩
  · unfold Overlong
    decide +kernel

end OneBeat.Json
