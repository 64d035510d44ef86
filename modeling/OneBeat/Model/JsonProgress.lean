import OneBeat.Model.Json

/-!
# The parser goes forward

A step of the parser that succeeds leaves a proper end of the text and never goes past a NUL; a
step that fails says why.  So the fuel `parse` starts with is always enough, and a text with a NUL
in it is not a document.

* `progress_parseValue` : both, for a value at any depth;
* `nul_not_mem_of_parse` : a document has no NUL in it;
* `parse_answers` : so every text is parsed, or refused with a reason.
-/

namespace OneBeat.Json

/-- The terminator of a string of the source. -/
abbrev nul : Char := '\x00'

/-- At least `count` characters lie between two points of the text, none of them a NUL. -/
def Advances (count : ℕ) (before after : List Char) : Prop :=
  ∃ passed, before = passed ++ after ∧ nul ∉ passed ∧ count ≤ passed.length

theorem Advances.refl (text : List Char) : Advances 0 text text := ⟨[], rfl, by simp, by simp⟩

theorem Advances.trans {n m : ℕ} {a b c : List Char} (h : Advances n a b) (h' : Advances m b c) :
    Advances (n + m) a c := by
  obtain ⟨p, rfl, hp, hn⟩ := h
  obtain ⟨q, rfl, hq, hm⟩ := h'
  refine ⟨p ++ q, by rw [List.append_assoc], by simp [hp, hq], ?_⟩
  rw [List.length_append]
  omega

theorem Advances.mono {n m : ℕ} {a b : List Char} (h : Advances n a b) (hm : m ≤ n) :
    Advances m a b := by
  obtain ⟨p, he, hp, hn⟩ := h
  exact ⟨p, he, hp, hm.trans hn⟩

theorem Advances.length {n : ℕ} {a b : List Char} (h : Advances n a b) :
    b.length + n ≤ a.length := by
  obtain ⟨p, rfl, -, hn⟩ := h
  rw [List.length_append]
  omega

theorem Advances.nul_mem {n : ℕ} {a b : List Char} (h : Advances n a b) (hmem : nul ∈ a) :
    nul ∈ b := by
  obtain ⟨p, rfl, hp, -⟩ := h
  exact (List.mem_append.1 hmem).resolve_left hp

theorem advances_cons {c : Char} {rest : List Char} (hc : c ≠ nul) :
    Advances 1 (c :: rest) rest := ⟨[c], rfl, by simpa using hc.symm, by simp⟩

theorem advances_dropWhile {p : Char → Bool} (hp : p nul = false) (text : List Char) :
    Advances 0 text (text.dropWhile p) := by
  refine ⟨text.takeWhile p, (List.takeWhile_append_dropWhile).symm, fun hmem => ?_, by simp⟩
  rw [List.all_eq_true.1 (List.all_takeWhile (l := text)) nul hmem] at hp
  cases hp

/-- A result that is ahead of the cursor by at least `count`, or a failure with a reason. -/
def Progress {α : Type} (count : ℕ) (cursor : Cursor) : Except ParseError (α × Cursor) → Prop
  | .ok (_, next) => Advances count cursor.rest next.rest
  | .error error => error.message ≠ ""

theorem progress_fail {α : Type} {count : ℕ} {cursor : Cursor} (here : Cursor) {message : String}
    (h : message ≠ "") :
    Progress (α := α) count cursor (here.fail message) := h

/-- Two steps after each other. -/
theorem Progress.bind {α β : Type} {n m : ℕ} {cursor : Cursor}
    {x : Except ParseError (α × Cursor)} {f : α × Cursor → Except ParseError (β × Cursor)}
    (hx : Progress n cursor x)
    (hf : ∀ a next, Advances n cursor.rest next.rest → Progress m next (f (a, next))) :
    Progress (n + m) cursor (x >>= f) := by
  cases x with
  | error e => exact hx
  | ok result =>
    obtain ⟨a, next⟩ := result
    have hnext := hf a next hx
    rw [ok_bind]
    cases hfa : f (a, next) with
    | error e => rw [hfa] at hnext; exact hnext
    | ok result =>
      rw [hfa] at hnext
      exact hx.trans hnext

/-- A step that starts further on. -/
theorem Progress.of_advances {α : Type} {n m : ℕ} {cursor next : Cursor}
    {x : Except ParseError (α × Cursor)} (h : Advances n cursor.rest next.rest)
    (hx : Progress m next x) : Progress (n + m) cursor x := by
  cases x with
  | error e => exact hx
  | ok result => exact h.trans hx

theorem Progress.mono {α : Type} {n m : ℕ} {cursor : Cursor} {x : Except ParseError (α × Cursor)}
    (h : Progress n cursor x) (hm : m ≤ n) : Progress m cursor x := by
  cases x with
  | error e => exact h
  | ok result => exact Advances.mono h hm

theorem advances_skipWhitespace (cursor : Cursor) :
    Advances 0 cursor.rest cursor.skipWhitespace.rest := by
  rw [Cursor.rest_skipWhitespace]
  exact advances_dropWhile (by decide) _

theorem advances_one {cursor : Cursor} {c : Char} {rest : List Char} (h : cursor.rest = c :: rest)
    (hc : c ≠ nul) : Advances 1 cursor.rest (cursor.advance 1).rest := by
  rw [Cursor.rest_advance, h]
  exact advances_cons hc

/-- A character, and the blanks behind it. -/
theorem advances_opening {cursor : Cursor} {c : Char} {rest : List Char}
    (h : cursor.rest = c :: rest) (hc : c ≠ nul) :
    Advances 1 cursor.rest (cursor.advance 1).skipWhitespace.rest :=
  (advances_one h hc).trans (advances_skipWhitespace _)

/-! ### Strings -/

theorem hexDigit_nul : hexDigit nul = none := by decide

theorem mapM_hexDigit_nul {text : List Char} {digits : List ℕ}
    (h : text.mapM hexDigit = some digits) : nul ∉ text := by
  induction text generalizing digits with
  | nil => simp
  | cons c text ih =>
    rw [List.mapM_cons] at h
    cases hc : hexDigit c with
    | none => rw [hc] at h; cases h
    | some d =>
      cases htext : text.mapM hexDigit with
      | none => rw [hc, htext] at h; cases h
      | some ds =>
        simp only [List.mem_cons, not_or]
        refine ⟨?_, ih htext⟩
        rintro rfl
        rw [hexDigit_nul] at hc
        cases hc

theorem progress_parseHex4 (cursor : Cursor) : Progress 4 cursor (parseHex4 cursor) := by
  unfold parseHex4
  split_ifs with hlen
  · exact progress_fail _ (by decide)
  · split
    · exact progress_fail _ (by decide)
    · next digits hdigits =>
      refine ⟨cursor.rest.take 4, ?_, mapM_hexDigit_nul hdigits, ?_⟩
      · rw [Cursor.rest_advance, List.take_append_drop]
      · rw [List.length_take]
        omega

theorem progress_parseUnicode (cursor : Cursor) : Progress 0 cursor (parseUnicode cursor) := by
  unfold parseUnicode
  refine ((progress_parseHex4 cursor).mono (by decide)).bind (n := 0) (m := 0) fun code next _ => ?_
  dsimp only
  split_ifs with hpair
  · have hlow := progress_parseHex4 (next.advance 2)
    cases hparse : parseHex4 (next.advance 2) with
    | error e => rw [hparse] at hlow; exact hlow
    | ok result =>
      rw [hparse] at hlow
      rw [ok_bind]
      split_ifs
      · refine Advances.trans (m := 0) ⟨['\\', 'u'], ?_, by decide, by simp⟩
          (Advances.mono hlow (by decide))
        rw [Cursor.rest_advance, ← hpair.2.2, List.take_append_drop]
      · exact Advances.refl _
  · exact Advances.refl _

theorem progress_parseEscape (escape : Char) (cursor : Cursor) :
    Progress 0 cursor (parseEscape escape cursor) := by
  unfold parseEscape
  split
  case h_9 => exact progress_parseUnicode cursor
  case h_10 => exact progress_fail _ (by decide)
  all_goals exact Advances.refl _

theorem parseEscape_nul (cursor : Cursor) {result : List Char × Cursor} :
    parseEscape nul cursor ≠ .ok result := by
  intro h
  have hfail : parseEscape nul cursor = cursor.fail "unrecognised escape" := rfl
  rw [hfail] at h
  cases h

theorem progress_parseCharacters {fuel : ℕ} {cursor : Cursor} (h : cursor.rest.length < fuel) :
    Progress 1 cursor (parseCharacters fuel cursor) := by
  induction fuel generalizing cursor with
  | zero => omega
  | succ fuel ih =>
    rw [parseCharacters]
    cases htext : cursor.rest with
    | nil => exact progress_fail _ (by decide)
    | cons c rest =>
      rw [htext, List.length_cons] at h
      dsimp only
      split_ifs with hquote hslash hcontrol
      · exact advances_one htext (by rw [hquote]; decide)
      · cases rest with
        | nil => exact progress_fail _ (by decide)
        | cons escape rest =>
          dsimp only
          have hrest : (cursor.advance 2).rest = rest := by rw [Cursor.rest_advance, htext]; rfl
          rw [List.length_cons] at h
          -- The escape itself has to be one that is recognised, so it is no NUL.
          have hescape : Progress 0 (cursor.advance 2) (parseEscape escape (cursor.advance 2)) :=
            progress_parseEscape _ _
          cases hparse : parseEscape escape (cursor.advance 2) with
          | error e => rw [hparse] at hescape; exact hescape
          | ok result =>
            obtain ⟨characters, next⟩ := result
            rw [hparse] at hescape
            have hnul : escape ≠ nul := by
              rintro rfl
              exact parseEscape_nul _ hparse
            have htwo : Advances 2 cursor.rest (cursor.advance 2).rest := by
              rw [hrest, htext]
              exact (advances_cons (by rw [hslash]; decide)).trans (advances_cons hnul)
            have hnext : Advances 2 cursor.rest next.rest := htwo.trans hescape
            have hlen := hnext.length
            rw [htext, List.length_cons, List.length_cons] at hlen
            rw [ok_bind]
            refine (Progress.of_advances hnext ?_ : Progress (2 + 1) cursor _).mono (by decide)
            refine (@ih next (by omega)).bind (m := 0) fun tail last _ => ?_
            exact Advances.refl _
      · exact progress_fail _ (by decide)
      · have hc : c ≠ nul := by
          rintro rfl
          exact hcontrol (by decide)
        have hone := advances_one htext hc
        have hlen := hone.length
        rw [htext, List.length_cons] at hlen
        refine (Progress.of_advances hone ?_ : Progress (1 + 1) cursor _).mono (by decide)
        refine (@ih (cursor.advance 1) (by omega)).bind (m := 0) fun tail last _ => ?_
        exact Advances.refl _

theorem progress_parseString {cursor : Cursor} {rest : List Char} (h : cursor.rest = '"' :: rest) :
    Progress 1 cursor (parseString cursor) := by
  have hone := advances_one h (by decide)
  have hlen := hone.length
  unfold parseString
  refine (Progress.of_advances hone ?_ : Progress (1 + 1) cursor _).mono (by decide)
  refine (progress_parseCharacters (by omega)).bind (m := 0) fun characters next _ => ?_
  exact Advances.refl _

/-! ### Numbers -/

theorem advances_scanSign (text : List Char) : Advances 0 text (scanSign text).2 := by
  unfold scanSign
  split
  · exact (advances_cons (by decide)).mono (by decide)
  · exact Advances.refl _

theorem advances_digits (text : List Char) :
    Advances (leadingDigits text).length text (afterDigits text) := by
  refine ⟨leadingDigits text, List.takeWhile_append_dropWhile.symm, fun hmem => ?_, le_rfl⟩
  have := List.all_eq_true.1 (List.all_takeWhile (l := text)) nul hmem
  exact absurd this (by decide)

theorem scanFraction_cases (text : List Char) :
    Advances 1 text (scanFraction text).2 ∨ scanFraction text = (none, text) := by
  unfold scanFraction
  split
  · next rest =>
    exact .inl (((advances_cons (by decide)).trans (advances_digits rest)).mono (by omega))
  · exact .inr rfl

theorem advances_scanExponentSign (text : List Char) :
    Advances 0 text (scanExponentSign text).2 := by
  unfold scanExponentSign
  split
  · exact (advances_cons (by decide)).mono (by decide)
  · exact (advances_cons (by decide)).mono (by decide)
  · exact Advances.refl _

theorem scanExponent_cases (text : List Char) :
    Advances 1 text (scanExponent text).2 ∨ scanExponent text = (none, text) := by
  unfold scanExponent
  split
  · exact .inr rfl
  · next c rest =>
    split_ifs with hc
    · have hnul : c ≠ nul := by rcases hc with rfl | rfl <;> decide
      exact .inl ((((advances_cons hnul).trans (advances_scanExponentSign rest)).trans
        (advances_digits _)).mono (by omega))
    · exact .inr rfl

/-- The scanner goes forward, and finds nothing but a sign when it does not go past a character
of a number. -/
theorem advances_scanNumeral (text : List Char) :
    Advances (if (scanNumeral text).1.blank then 0 else 1) text (scanNumeral text).2 := by
  have hsign := advances_scanSign text
  have hdigits := advances_digits (scanSign text).2
  have hfraction : ∃ n, Advances n (afterDigits (scanSign text).2)
      (scanFraction (afterDigits (scanSign text).2)).2 ∧
        (n = 0 → (scanFraction (afterDigits (scanSign text).2)).1 = none) := by
    rcases scanFraction_cases (afterDigits (scanSign text).2) with h | h
    · exact ⟨1, h, by omega⟩
    · exact ⟨0, by rw [h]; exact Advances.refl _, fun _ => by rw [h]⟩
  obtain ⟨n, hn, hnone⟩ := hfraction
  have hexponent : ∃ m, Advances m (scanFraction (afterDigits (scanSign text).2)).2
      (scanExponent (scanFraction (afterDigits (scanSign text).2)).2).2 ∧
        (m = 0 → (scanExponent (scanFraction (afterDigits (scanSign text).2)).2).1 = none) := by
    rcases scanExponent_cases (scanFraction (afterDigits (scanSign text).2)).2 with h | h
    · exact ⟨1, h, by omega⟩
    · exact ⟨0, by rw [h]; exact Advances.refl _, fun _ => by rw [h]⟩
  obtain ⟨m, hm, hnone'⟩ := hexponent
  refine (((hsign.trans hdigits).trans hn).trans hm).mono ?_
  split_ifs with hblank
  · exact Nat.zero_le _
  · by_contra hzero
    have hempty : leadingDigits (scanSign text).2 = [] := List.length_eq_zero_iff.1 (by omega)
    refine hblank ?_
    simp only [scanNumeral, Numeral.blank, Numeral.integral, hempty, hnone (by omega),
      hnone' (by omega)]
    rfl

theorem progress_parseNumber (cursor : Cursor) : Progress 1 cursor (parseNumber cursor) := by
  have hscan := advances_scanNumeral cursor.rest
  have hrest : (cursor.advance (cursor.rest.length - (scanNumeral cursor.rest).2.length)).rest =
      (scanNumeral cursor.rest).2 := by
    obtain ⟨passed, htext, -, -⟩ := hscan
    rw [Cursor.rest_advance]
    generalize (scanNumeral cursor.rest).2 = rest at *
    rw [htext, List.length_append, Nat.add_sub_cancel, List.drop_left]
  unfold parseNumber
  dsimp only
  split_ifs with hblank
  · exact progress_fail _ (by decide)
  iterate 2
    rw [if_neg hblank] at hscan
    exact show Advances 1 _ _ by rw [hrest]; exact hscan
  · exact progress_fail _ (by decide)

/-! ### Values -/

theorem progress_parseLiteral {word : String} {value : Value} (hword : nul ∉ word.toList)
    (hlen : 1 ≤ word.toList.length) (cursor : Cursor) :
    Progress 1 cursor (parseLiteral word value cursor) := by
  unfold parseLiteral
  split_ifs with h
  · exact progress_fail _ (by decide)
  · refine ⟨word.toList, ?_, hword, hlen⟩
    have happend := List.take_append_drop word.toList.length cursor.rest
    rw [not_not.1 h] at happend
    rw [Cursor.rest_advance]
    exact happend.symm

mutual

theorem progress_parseValue : ∀ (fuel depth : ℕ) (cursor : Cursor),
    2 * cursor.rest.length + 1 ≤ fuel → Progress 1 cursor (parseValue fuel depth cursor)
  | 0, _, _, h => by omega
  | fuel + 1, depth, cursor, h => by
    rw [parseValue]
    split_ifs with hdepth
    · exact progress_fail _ (by decide)
    · split
      · exact progress_fail _ (by decide)
      · next rest htext =>
        have hone := advances_opening htext (by decide)
        have hlen := hone.length
        dsimp only
        split
        · next tail hclose =>
          exact (hone.trans (advances_one hclose (by decide))).mono (by decide)
        · refine (Progress.of_advances hone ?_ : Progress (1 + 1) cursor _).mono (by decide)
          refine (progress_parseMembers fuel depth _ _ (by omega)).bind (m := 0) fun _ _ _ => ?_
          exact Advances.refl _
      · next rest htext =>
        have hone := advances_opening htext (by decide)
        have hlen := hone.length
        dsimp only
        split
        · next tail hclose =>
          exact (hone.trans (advances_one hclose (by decide))).mono (by decide)
        · refine (Progress.of_advances hone ?_ : Progress (1 + 1) cursor _).mono (by decide)
          refine (progress_parseElements fuel depth _ (by omega)).bind (m := 0) fun _ _ _ => ?_
          exact Advances.refl _
      · next rest htext =>
        refine (progress_parseString htext).bind (m := 0) fun _ _ _ => ?_
        exact Advances.refl _
      iterate 3 exact progress_parseLiteral (by decide) (by decide) cursor
      · exact progress_parseNumber cursor

theorem progress_parseMembers : ∀ (fuel depth : ℕ) (cursor : Cursor) (object : Object),
    2 * cursor.rest.length + 1 ≤ fuel → Progress 1 cursor (parseMembers fuel depth cursor object)
  | 0, _, _, _, h => by omega
  | fuel + 1, depth, cursor, object, h => by
    rw [parseMembers]
    have hskip := advances_skipWhitespace cursor
    refine (Progress.of_advances hskip ?_ : Progress (0 + 1) cursor _)
    dsimp only
    split
    · next rest htext =>
      refine (progress_parseString htext).bind (m := 0) fun key next hkey => ?_
      have hcolon := advances_skipWhitespace next
      refine Progress.of_advances (m := 0) hcolon ?_
      dsimp only
      split
      · next rest' htext' =>
        have hvalue := advances_opening htext' (by decide)
        have hlen := (((hskip.trans hkey).trans hcolon).trans hvalue).length
        refine (Progress.of_advances (m := 0) hvalue ?_).mono (by decide)
        refine ((progress_parseValue fuel (depth + 1) _ (by omega)).mono (by decide)).bind
          (n := 0) (m := 0) fun value last hlast => ?_
        have hnext := advances_skipWhitespace last
        have hlen' := (hlast.trans hnext).length
        refine Progress.of_advances (m := 0) hnext ?_
        dsimp only
        split
        · exact progress_fail _ (by decide)
        · next tail htail =>
          have hone := advances_one htail (by decide)
          have := hone.length
          refine (Progress.of_advances hone ?_ : Progress (1 + 1) _ _).mono (by decide)
          exact progress_parseMembers fuel depth _ _ (by omega)
        · next tail htail => exact (advances_one htail (by decide)).mono (by decide)
        · exact progress_fail _ (by decide)
      · exact progress_fail _ (by decide)
    · exact progress_fail _ (by decide)

theorem progress_parseElements : ∀ (fuel depth : ℕ) (cursor : Cursor),
    2 * cursor.rest.length + 2 ≤ fuel → Progress 1 cursor (parseElements fuel depth cursor)
  | 0, _, _, h => by omega
  | fuel + 1, depth, cursor, h => by
    rw [parseElements]
    have hskip := advances_skipWhitespace cursor
    have hlen := hskip.length
    refine (Progress.of_advances hskip ?_ : Progress (0 + 1) cursor _)
    refine (progress_parseValue fuel (depth + 1) _ (by omega)).bind (m := 0)
      fun value next hvalue => ?_
    have hnext := advances_skipWhitespace next
    have hlen' := (hvalue.trans hnext).length
    refine Progress.of_advances (m := 0) hnext ?_
    dsimp only
    split
    · exact progress_fail _ (by decide)
    · next tail htail =>
      have hone := advances_one htail (by decide)
      have := hone.length
      refine (Progress.of_advances hone ?_ : Progress (1 + 1) _ _).mono (by decide)
      refine (progress_parseElements fuel depth _ (by omega)).bind (m := 0) fun _ _ _ => ?_
      exact Advances.refl _
    · next tail htail => exact (advances_one htail (by decide)).mono (by decide)
    · exact progress_fail _ (by decide)

end

/-! ### Documents -/

theorem progress_runParser (text : List Char) :
    (∀ e, runParser text = .error e → e.message ≠ "") ∧
      ∀ value, runParser text = .ok value → nul ∉ text := by
  have hskip := advances_skipWhitespace ⟨text, 1, 1⟩
  have hlen := hskip.length
  have hvalue := progress_parseValue (fuelFor text) 0 (Cursor.skipWhitespace ⟨text, 1, 1⟩)
    (by simp only [fuelFor]; dsimp only at hlen; omega)
  unfold runParser
  cases hparse : parseValue (fuelFor text) 0 (Cursor.skipWhitespace ⟨text, 1, 1⟩) with
  | error e =>
    rw [hparse] at hvalue
    refine ⟨fun e' he => ?_, fun value he => by cases he⟩
    cases he
    exact hvalue
  | ok result =>
    obtain ⟨value, cursor⟩ := result
    rw [hparse] at hvalue
    have hend := (hskip.trans hvalue).trans (advances_skipWhitespace cursor)
    rw [ok_bind]
    dsimp only
    cases hrest : cursor.skipWhitespace.rest with
    | nil =>
      refine ⟨fun e he => (nomatch he), fun value' _ hmem => ?_⟩
      have := hend.nul_mem hmem
      rw [hrest] at this
      cases this
    | cons c rest =>
      refine ⟨fun e he => ?_, fun value' he => by cases he⟩
      have hmessage : e.message = "unexpected trailing content" := by cases he; rfl
      rw [hmessage]
      decide

/-- A document has no NUL in it. -/
theorem nul_not_mem_of_parse {text : List Char} {value : Value} (h : parse text = .ok value) :
    nul ∉ text := by
  unfold parse at h
  cases hrun : runParser (dropByteOrderMark text) with
  | error e => rw [hrun] at h; cases h
  | ok value' =>
    have hnul := (progress_runParser _).2 value' hrun
    intro hmem
    unfold dropByteOrderMark at hnul
    split_ifs at hnul with hmark
    · rw [← List.take_append_drop 3 text, hmark] at hmem
      rcases List.mem_append.1 hmem with hmem | hmem
      · exact absurd hmem (by decide)
      · exact hnul hmem
    · exact hnul hmem

/-- **The parser always answers**: no step of it runs out, so an error says why, and not with the
message that stands in for none; and what is accepted has no NUL in it. -/
theorem parse_answers (text : List Char) :
    parse text = runParser (dropByteOrderMark text) ∧
      (∀ e, parse text = .error e → e.message ≠ "") ∧
        ∀ value, parse text = .ok value → nul ∉ text := by
  obtain ⟨hmessage, -⟩ := progress_runParser (dropByteOrderMark text)
  have hparse : parse text = runParser (dropByteOrderMark text) := by
    unfold parse
    cases hrun : runParser (dropByteOrderMark text) with
    | error e => simp [hmessage e hrun]
    | ok value => rfl
  exact ⟨hparse, hparse ▸ hmessage, fun value => nul_not_mem_of_parse⟩

end OneBeat.Json
