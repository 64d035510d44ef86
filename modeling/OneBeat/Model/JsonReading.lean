import OneBeat.Model.JsonWriter

/-!
# What the writer spells, the parser reads

`Reads depth text value` : at `depth`, the parser reads `text` as `value` whatever comes after it.
Scalars are read one by one (`reads_int`, `reads_real`, `reads_string`), brackets and braces are
read whatever whitespace is between their elements (`ReadsItems.reads`, `ReadsMembers.reads`), and
so the one-line layout and the block layout of the writer are two cases of one argument.

* `reads_writeInline`, `reads_writeValue` : **a value the writer can spell is read back, its reals
  rounded to six decimals.**
-/

namespace OneBeat.Json

/-- The parser, at `depth`, reads `text` as `value`, whatever follows. -/
def Reads (depth : ℕ) (text : List Char) (value : Value) : Prop :=
  ∀ fuel cursor rest, cursor.rest = text ++ rest → NumeralEnd rest →
    2 * cursor.rest.length + 1 ≤ fuel →
      ∃ cursor', parseValue fuel depth cursor = .ok (value, cursor') ∧ cursor'.rest = rest

/-! ### Whitespace -/

/-- Spaces and line ends only. -/
def Blank (text : List Char) : Prop := ∀ c ∈ text, Cursor.isWhitespace c = true

/-- A text that does not start with whitespace. -/
def Solid (text : List Char) : Prop := ∃ c rest, text = c :: rest ∧ Cursor.isWhitespace c = false

theorem Solid.append {text : List Char} (h : Solid text) (rest : List Char) :
    Solid (text ++ rest) := by
  obtain ⟨c, tail, rfl, hc⟩ := h
  exact ⟨c, tail ++ rest, rfl, hc⟩

theorem skip_blank {blank text : List Char} (hb : Blank blank) (ht : Solid text) :
    (blank ++ text).dropWhile Cursor.isWhitespace = text := by
  obtain ⟨c, rest, rfl, hc⟩ := ht
  rw [List.dropWhile_append_of_pos hb, List.dropWhile_cons_of_neg (by simp [hc])]

theorem rest_skip {cursor : Cursor} {blank text : List Char} (h : cursor.rest = blank ++ text)
    (hb : Blank blank) (ht : Solid text) : cursor.skipWhitespace.rest = text := by
  rw [Cursor.rest_skipWhitespace, h, skip_blank hb ht]

theorem blank_nil : Blank [] := fun _ h => nomatch h

theorem blank_space : Blank [' '] := by simp [Blank, Cursor.isWhitespace]

/-- There may be no white space to skip. -/
theorem rest_skip_nil {cursor : Cursor} {text : List Char} (h : cursor.rest = text)
    (ht : Solid text) : cursor.skipWhitespace.rest = text := by
  rw [Cursor.rest_skipWhitespace, h, ← List.nil_append text, skip_blank blank_nil ht]
  rfl

theorem rest_advance_append {cursor : Cursor} {before text : List Char}
    (h : cursor.rest = before ++ text) : (cursor.advance before.length).rest = text := by
  rw [Cursor.rest_advance, h, List.drop_left]

theorem rest_advance_one {cursor : Cursor} {c : Char} {text : List Char}
    (h : cursor.rest = c :: text) : (cursor.advance 1).rest = text := by
  rw [Cursor.rest_advance, h]; rfl

/-! ### Strings -/

theorem hexDigit_hexDigitChar (n : ℕ) (h : n < 16) : hexDigit (hexDigitChar n) = some n := by
  have hall : ∀ n < 16, hexDigit (hexDigitChar n) = some n := by decide
  exact hall n h

theorem parseHex4_control (n : ℕ) (hn : n < 32) {cursor : Cursor} {rest : List Char}
    (h : cursor.rest = '0' :: '0' :: hexDigitChar (n / 16) :: hexDigitChar (n % 16) :: rest) :
    parseHex4 cursor = .ok (n, cursor.advance 4) := by
  have hdigits : (cursor.rest.take 4).mapM hexDigit = some [0, 0, n / 16, n % 16] := by
    rw [h]
    simp [hexDigit_hexDigitChar, show n / 16 < 16 by omega, show n % 16 < 16 by omega,
      show hexDigit '0' = some 0 by decide]
  have hlen : ¬ cursor.rest.length < 4 := by rw [h]; simp
  rw [parseHex4, if_neg hlen, hdigits]
  simp only [List.foldl_cons, List.foldl_nil]
  congr 2
  omega

/-- One escaped character is read back. -/
theorem parseCharacters_escapeChar (c : Char) (fuel : ℕ) {cursor : Cursor} {rest : List Char}
    (h : cursor.rest = escapeChar c ++ rest) :
    ∃ cursor', cursor'.rest = rest ∧ parseCharacters (fuel + 1) cursor = (do
      let (tail, cursor) ← parseCharacters fuel cursor'
      pure (c :: tail, cursor)) := by
  unfold escapeChar at h
  by_cases hquote : c = '"'
  · subst hquote
    rw [if_pos rfl] at h
    refine ⟨cursor.advance 2, by rw [Cursor.rest_advance, h]; rfl, ?_⟩
    rw [parseCharacters, h]
    rfl
  by_cases hslash : c = '\\'
  · subst hslash
    rw [if_neg (by decide), if_pos rfl] at h
    refine ⟨cursor.advance 2, by rw [Cursor.rest_advance, h]; rfl, ?_⟩
    rw [parseCharacters, h]
    rfl
  rw [if_neg hquote, if_neg hslash] at h
  by_cases hcontrol : c.toNat < 0x20
  · rw [if_pos hcontrol] at h
    have hrest : (cursor.advance 2).rest =
        '0' :: '0' :: hexDigitChar (c.toNat / 16) :: hexDigitChar (c.toNat % 16) :: rest := by
      rw [Cursor.rest_advance, h]; rfl
    refine ⟨(cursor.advance 2).advance 4, by rw [Cursor.rest_advance, hrest]; rfl, ?_⟩
    have hunicode : parseUnicode (cursor.advance 2) =
        .ok ([c], (cursor.advance 2).advance 4) := by
      rw [parseUnicode, parseHex4_control c.toNat hcontrol hrest]
      have hlow : ¬ (0xD800 ≤ c.toNat ∧ c.toNat ≤ 0xDBFF ∧
          ((cursor.advance 2).advance 4).rest.take 2 = ['\\', 'u']) := by omega
      rw [ok_bind]
      dsimp only
      rw [if_neg hlow, appendUtf8, if_pos (by omega), Char.ofNat_toNat]
      rfl
    rw [parseCharacters, h]
    simp only [List.cons_append, List.nil_append, show ('\\' = '"') = False by decide,
      if_true, if_false, parseEscape, hunicode, ok_bind]
  · rw [if_neg hcontrol] at h
    refine ⟨cursor.advance 1, by rw [Cursor.rest_advance, h]; rfl, ?_⟩
    rw [parseCharacters, h]
    simp only [List.cons_append, List.nil_append, hquote, hslash, hcontrol, if_false]

theorem length_escapeChar_pos (c : Char) : 0 < (escapeChar c).length := by
  unfold escapeChar
  split_ifs <;> simp

/-- Escaped characters are read back up to the closing quote. -/
theorem parseCharacters_escape (text : List Char) (fuel : ℕ) {cursor : Cursor}
    {rest : List Char} (h : cursor.rest = text.flatMap escapeChar ++ '"' :: rest)
    (hfuel : cursor.rest.length ≤ fuel) :
    ∃ cursor', parseCharacters fuel cursor = .ok (text, cursor') ∧ cursor'.rest = rest := by
  induction text generalizing fuel cursor with
  | nil =>
    simp only [List.flatMap_nil, List.nil_append] at h
    obtain ⟨fuel, rfl⟩ : ∃ k, fuel = k + 1 := ⟨fuel - 1, by
      rw [h, List.length_cons] at hfuel; omega⟩
    refine ⟨cursor.advance 1, ?_, rest_advance_one h⟩
    rw [parseCharacters, h]
    simp
  | cons c text ih =>
    rw [List.flatMap_cons, List.append_assoc] at h
    have hlen := congrArg List.length h
    rw [List.length_append] at hlen
    have hpos := length_escapeChar_pos c
    obtain ⟨fuel, rfl⟩ : ∃ k, fuel = k + 1 := ⟨fuel - 1, by omega⟩
    obtain ⟨next, hnext, hstep⟩ := parseCharacters_escapeChar c fuel h
    obtain ⟨cursor', htail, hrest⟩ := @ih fuel _ hnext (by rw [hnext]; omega)
    refine ⟨cursor', ?_, hrest⟩
    rw [hstep, htail]
    rfl

/-- **A string is read back as it was.** -/
theorem parseString_escapeString (text : String) {cursor : Cursor} {rest : List Char}
    (h : cursor.rest = escapeString text ++ rest) :
    ∃ cursor', parseString cursor = .ok (text, cursor') ∧ cursor'.rest = rest := by
  simp only [escapeString, List.cons_append, List.append_assoc, List.nil_append] at h
  have hopen := rest_advance_one h
  obtain ⟨cursor', hchars, hrest⟩ := parseCharacters_escape text.toList
    cursor.rest.length hopen (by rw [hopen, h]; simp)
  refine ⟨cursor', ?_, hrest⟩
  rw [parseString, hchars]
  simp only [ok_bind]
  rw [String.ofList_toList]
  rfl

/-! ### Numbers -/

/-- A real as it comes back from the file: rounded to six decimals and read again. -/
def rereadReal : Double → Double
  | .finite q => BinaryFormat.double.ofRat (roundHalfEven (q * 10 ^ 6) / 10 ^ 6)
  | d => d

/-- A real the writer can spell. -/
def WritableReal (d : Double) : Prop := d.isFinite = true ∧ (printReal d).length < formatBufferSize

theorem negativeZero_eq {q : ℚ} (h : fixedPoint 6 q = "-0.000000".toList) :
    roundHalfEven (q * 10 ^ 6) = 0 := by
  have hscan := scanNumeral_fixedPoint 6 q numeralEnd_nil
  rw [List.append_nil, h] at hscan
  have hmantissa := mantissa_fixedPointNumeral (by decide : 0 < 6) q
  have hnumeral : (scanNumeral "-0.000000".toList).1 = fixedPointNumeral 6 q := by rw [hscan]
  rw [← hnumeral] at hmantissa
  have hzero : (scanNumeral "-0.000000".toList).1.mantissa = 0 := by decide
  rw [hzero] at hmantissa
  exact Int.natAbs_eq_zero.1 hmantissa.symm

/-- What `formatReal` spells is the fixed-point spelling of a number that rounds to the same. -/
theorem formatReal_eq {q : ℚ} (h : WritableReal (.finite q)) :
    ∃ q', formatReal (.finite q) = fixedPoint 6 q' ∧
      roundHalfEven (q' * 10 ^ 6) = roundHalfEven (q * 10 ^ 6) := by
  have hprint : printReal (.finite q) = fixedPoint 6 q := rfl
  have hlen := h.2
  rw [hprint] at hlen
  by_cases hneg : fixedPoint 6 q = "-0.000000".toList
  · refine ⟨0, ?_, by rw [negativeZero_eq hneg]; simp [roundHalfEven]⟩
    have hzero : fixedPoint 6 0 = "0.000000".toList := by decide +kernel
    rw [formatReal, hprint, if_pos hlen, if_pos hneg, hzero]
  · refine ⟨q, ?_, rfl⟩
    rw [formatReal, hprint, if_pos hlen, if_neg hneg]

theorem reread_value {q q' : ℚ} (h : roundHalfEven (q' * 10 ^ 6) = roundHalfEven (q * 10 ^ 6)) :
    BinaryFormat.double.ofRat (fixedPointNumeral 6 q').value = rereadReal (.finite q) := by
  rw [value_fixedPoint (by decide), h]
  rfl

/-- A numeral is not blank when there is something before the point. -/
theorem not_blank {numeral : Numeral} (h : numeral.whole ≠ []) : numeral.blank = false := by
  cases hw : numeral.whole with
  | nil => exact absurd hw h
  | cons c whole => simp [Numeral.blank, hw]

theorem wellFormed_of {numeral : Numeral} (h : numeral.whole ≠ []) (he : numeral.exponent = none) :
    numeral.wellFormed = true := by
  cases hw : numeral.whole with
  | nil => exact absurd hw h
  | cons c whole => simp [Numeral.wellFormed, hw, he]

/-- **An integer is read back as it was.** -/
theorem parseNumber_decimalInt {n : ℤ} (hn : isInt64 n = true) {cursor : Cursor}
    {rest : List Char} (h : cursor.rest = decimalInt n ++ rest) (hr : NumeralEnd rest) :
    ∃ cursor', parseNumber cursor = .ok (.int n, cursor') ∧ cursor'.rest = rest := by
  have htext : decimalInt n ++ rest =
      (if decide (n < 0) then ['-'] else []) ++ (decimalDigits n.natAbs ++ rest) := by
    unfold decimalInt
    by_cases hneg : n < 0 <;> simp [hneg]
  have hscan : scanNumeral cursor.rest =
      ({ negative := decide (n < 0), whole := decimalDigits n.natAbs }, rest) := by
    rw [h, htext, scanNumeral_digits hr]
  have hint : Numeral.toInt { negative := decide (n < 0), whole := decimalDigits n.natAbs } = n := by
    simp only [Numeral.toInt, Numeral.mantissa, Option.getD_none, List.append_nil,
      Nat.ofDigitChars_ten_toDigits, decide_eq_true_eq]
    split_ifs <;> omega
  refine ⟨cursor.advance (cursor.rest.length - rest.length), ?_, ?_⟩
  · rw [parseNumber, hscan]
    dsimp only
    rw [not_blank (decimalDigits_ne_nil _), hint, hn]
    rfl
  · rw [Cursor.rest_advance, h, List.length_append, Nat.add_sub_cancel, List.drop_left]

/-- **A real is read back rounded to six decimals.** -/
theorem parseNumber_formatReal {d : Double} (hd : WritableReal d) {cursor : Cursor}
    {rest : List Char} (h : cursor.rest = formatReal d ++ rest) (hr : NumeralEnd rest) :
    ∃ cursor', parseNumber cursor = .ok (.real (rereadReal d), cursor') ∧ cursor'.rest = rest := by
  obtain ⟨q, rfl⟩ := Double.isFinite_iff.1 hd.1
  obtain ⟨q', htext, hround⟩ := formatReal_eq hd
  have hscan : scanNumeral cursor.rest = (fixedPointNumeral 6 q', rest) := by
    rw [h, htext, scanNumeral_fixedPoint 6 q' hr]
  have hwhole : (fixedPointNumeral 6 q').whole ≠ [] := decimalDigits_ne_nil _
  refine ⟨cursor.advance (cursor.rest.length - rest.length), ?_, ?_⟩
  · rw [parseNumber, hscan]
    dsimp only
    rw [not_blank hwhole, wellFormed_of hwhole rfl, reread_value hround]
    rfl
  · rw [Cursor.rest_advance, h, List.length_append, Nat.add_sub_cancel, List.drop_left]

/-! ### Scalars -/

/-- A character no other value starts with. -/
theorem parseValue_number {depth : ℕ} (hdepth : depth ≤ maxDepth) {fuel : ℕ} {cursor : Cursor}
    {c : Char} {rest : List Char} (h : cursor.rest = c :: rest)
    (hc : isDigit c = true ∨ c = '-') :
    parseValue (fuel + 1) depth cursor = parseNumber cursor := by
  have hne : c ≠ '{' ∧ c ≠ '[' ∧ c ≠ '"' ∧ c ≠ 't' ∧ c ≠ 'f' ∧ c ≠ 'n' := by
    refine ⟨?_, ?_, ?_, ?_, ?_, ?_⟩ <;> rintro rfl <;> revert hc <;> decide
  obtain ⟨h₁, h₂, h₃, h₄, h₅, h₆⟩ := hne
  rw [parseValue, if_neg (by omega)]
  split
  · next heq => rw [h] at heq; cases heq
  · next heq => rw [h] at heq; exact absurd (List.cons.inj heq).1 h₁
  · next heq => rw [h] at heq; exact absurd (List.cons.inj heq).1 h₂
  · next heq => rw [h] at heq; exact absurd (List.cons.inj heq).1 h₃
  · next heq => rw [h] at heq; exact absurd (List.cons.inj heq).1 h₄
  · next heq => rw [h] at heq; exact absurd (List.cons.inj heq).1 h₅
  · next heq => rw [h] at heq; exact absurd (List.cons.inj heq).1 h₆
  · rfl

theorem decimalInt_head (n : ℤ) : ∃ c rest, decimalInt n = c :: rest ∧
    (isDigit c = true ∨ c = '-') := by
  unfold decimalInt
  split_ifs
  · exact ⟨'-', _, rfl, .inr rfl⟩
  · cases hd : decimalDigits n.natAbs with
    | nil => exact absurd hd (decimalDigits_ne_nil _)
    | cons c rest =>
      exact ⟨c, rest, rfl, .inl (isDigit_decimalDigits n.natAbs c (by rw [hd]; simp))⟩

theorem fixedPoint_head (q : ℚ) : ∃ c rest, fixedPoint 6 q = c :: rest ∧
    (isDigit c = true ∨ c = '-') := by
  unfold fixedPoint
  dsimp only
  split_ifs
  · exact ⟨'-', _, rfl, .inr rfl⟩
  · generalize (roundHalfEven (q * 10 ^ 6)).natAbs / 10 ^ 6 = n
    cases hd : decimalDigits n with
    | nil => exact absurd hd (decimalDigits_ne_nil _)
    | cons c rest =>
      exact ⟨c, _, rfl, .inl (isDigit_decimalDigits n c (by rw [hd]; simp))⟩

theorem fuel_succ {cursor : Cursor} {fuel : ℕ} (h : 2 * cursor.rest.length + 1 ≤ fuel) :
    ∃ k, fuel = k + 1 ∧ 2 * cursor.rest.length ≤ k := ⟨fuel - 1, by omega, by omega⟩

theorem reads_int {depth : ℕ} (hdepth : depth ≤ maxDepth) {n : ℤ} (hn : isInt64 n = true) :
    Reads depth (decimalInt n) (.int n) := by
  intro fuel cursor rest h hr hfuel
  obtain ⟨fuel, rfl, -⟩ := fuel_succ hfuel
  obtain ⟨c, tail, htext, hc⟩ := decimalInt_head n
  rw [parseValue_number hdepth (by rw [h, htext]; rfl) hc]
  exact parseNumber_decimalInt hn h hr

theorem reads_real {depth : ℕ} (hdepth : depth ≤ maxDepth) {d : Double} (hd : WritableReal d) :
    Reads depth (formatReal d) (.real (rereadReal d)) := by
  intro fuel cursor rest h hr hfuel
  obtain ⟨fuel, rfl, -⟩ := fuel_succ hfuel
  obtain ⟨q, rfl⟩ := Double.isFinite_iff.1 hd.1
  obtain ⟨q', hformat, -⟩ := formatReal_eq hd
  obtain ⟨c, tail, htext, hc⟩ := fixedPoint_head q'
  rw [parseValue_number hdepth (by rw [h, hformat, htext]; rfl) hc]
  exact parseNumber_formatReal hd h hr

theorem reads_string {depth : ℕ} (hdepth : depth ≤ maxDepth) (text : String) :
    Reads depth (escapeString text) (.string text) := by
  intro fuel cursor rest h hr hfuel
  obtain ⟨fuel, rfl, -⟩ := fuel_succ hfuel
  obtain ⟨cursor', hparse, hrest⟩ := parseString_escapeString text h
  refine ⟨cursor', ?_, hrest⟩
  have hhead : cursor.rest = '"' :: (text.toList.flatMap escapeChar ++ ['"'] ++ rest) := h
  rw [parseValue, if_neg (by omega), hhead]
  dsimp only
  rw [hparse]
  rfl

theorem reads_literal {depth : ℕ} {word : String} {value : Value}
    (hword : ∀ fuel cursor, (∃ rest, cursor.rest = word.toList ++ rest) →
      parseValue (fuel + 1) depth cursor = parseLiteral word value cursor) :
    Reads depth word.toList value := by
  intro fuel cursor rest h hr hfuel
  obtain ⟨fuel, rfl, -⟩ := fuel_succ hfuel
  refine ⟨cursor.advance word.toList.length, ?_, rest_advance_append h⟩
  rw [hword fuel cursor ⟨rest, h⟩, parseLiteral, h, List.take_left, if_neg (by simp)]

theorem reads_true {depth : ℕ} (hdepth : depth ≤ maxDepth) :
    Reads depth "true".toList (.bool true) := by
  refine reads_literal fun fuel cursor ⟨rest, h⟩ => ?_
  have hhead : cursor.rest = 't' :: ('r' :: 'u' :: 'e' :: rest) := h
  rw [parseValue, if_neg (by omega), hhead]
  rfl

theorem reads_false {depth : ℕ} (hdepth : depth ≤ maxDepth) :
    Reads depth "false".toList (.bool false) := by
  refine reads_literal fun fuel cursor ⟨rest, h⟩ => ?_
  have hhead : cursor.rest = 'f' :: ('a' :: 'l' :: 's' :: 'e' :: rest) := h
  rw [parseValue, if_neg (by omega), hhead]
  rfl

theorem reads_null {depth : ℕ} (hdepth : depth ≤ maxDepth) : Reads depth "null".toList .null := by
  refine reads_literal fun fuel cursor ⟨rest, h⟩ => ?_
  have hhead : cursor.rest = 'n' :: ('u' :: 'l' :: 'l' :: rest) := h
  rw [parseValue, if_neg (by omega), hhead]
  rfl

/-! ### Arrays and objects -/

/-- A text that starts like a value: neither with whitespace nor with the end of an array, and not
with a byte order mark. -/
def Starts (text : List Char) : Prop :=
  ∃ c rest, text = c :: rest ∧ Cursor.isWhitespace c = false ∧ c ≠ ']' ∧ c ≠ '\u00ef'

theorem Starts.solid {text : List Char} (h : Starts text) : Solid text := by
  obtain ⟨c, rest, he, hc, -, -⟩ := h
  exact ⟨c, rest, he, hc⟩

theorem solid_cons {c : Char} (rest : List Char) (hc : Cursor.isWhitespace c = false) :
    Solid (c :: rest) := ⟨c, rest, rfl, hc⟩

theorem numeralEnd_blank {blank rest : List Char} (hb : Blank blank) (hr : NumeralEnd rest) :
    NumeralEnd (blank ++ rest) := by
  cases blank with
  | nil => exact hr
  | cons c blank =>
    refine numeralEnd_cons ?_
    have hc := hb c (by simp)
    simp only [Cursor.isWhitespace, Bool.or_eq_true, decide_eq_true_eq] at hc
    rcases hc with ((rfl | rfl) | rfl) | rfl <;> decide

theorem separated_cons_cons (separator text next : List Char) (texts : List (List Char)) :
    separated separator (text :: next :: texts) =
      text ++ (separator ++ separated separator (next :: texts)) := by
  rw [separated, List.append_assoc]
  simp

/-- Elements that are read one by one are read as a whole. -/
theorem parseElements_separated {depth : ℕ} {gap after : List Char} (hgap : Blank gap)
    (hafter : Blank after) {rest : List Char} {texts : List (List Char)} {values : List Value}
    (h : List.Forall₂ (fun text value => Starts text ∧ Reads (depth + 1) text value) texts values)
    (hne : texts ≠ []) {fuel : ℕ} {cursor : Cursor} {blank : List Char} (hblank : Blank blank)
    (hcursor : cursor.rest =
      blank ++ (separated (',' :: gap) texts ++ (after ++ ']' :: rest)))
    (hfuel : 2 * cursor.rest.length + 2 ≤ fuel) :
    ∃ cursor', parseElements fuel depth cursor = .ok (values, cursor') ∧ cursor'.rest = rest := by
  induction h generalizing fuel cursor blank with
  | nil => exact absurd rfl hne
  | @cons text value texts values hhead htail ih =>
    obtain ⟨fuel, rfl⟩ : ∃ k, fuel = k + 1 := ⟨fuel - 1, by omega⟩
    obtain ⟨hstarts, hreads⟩ := hhead
    have hbracket : NumeralEnd (after ++ ']' :: rest) :=
      numeralEnd_blank hafter (numeralEnd_cons (by decide))
    cases texts with
    | nil =>
      -- the last element: what stands after it is the bracket
      cases htail
      rw [separated] at hcursor
      have hskip := rest_skip hcursor hblank (hstarts.solid.append _)
      have hlen := congrArg List.length hcursor
      obtain ⟨next, hvalue, hnext⟩ := hreads fuel _ _ hskip hbracket (by
        rw [hskip]; simp only [List.length_append] at hlen ⊢; omega)
      have hclose := rest_skip hnext hafter (solid_cons rest (by decide))
      refine ⟨next.skipWhitespace.advance 1, ?_, rest_advance_one hclose⟩
      rw [parseElements, hvalue, ok_bind]
      dsimp only
      rw [hclose]
      rfl
    | cons u texts =>
      rw [separated_cons_cons, List.append_assoc, List.append_assoc, List.cons_append] at hcursor
      have hskip := rest_skip hcursor hblank (hstarts.solid.append _)
      have hlen := congrArg List.length hcursor
      have hcomma : NumeralEnd (',' :: (gap ++ (separated (',' :: gap) (u :: texts) ++
          (after ++ ']' :: rest)))) := numeralEnd_cons (by decide)
      obtain ⟨next, hvalue, hnext⟩ := hreads fuel _ _ hskip hcomma (by
        rw [hskip]; simp only [List.length_append] at hlen ⊢; omega)
      have hcommaNext := rest_skip_nil hnext
        (solid_cons _ (by decide))
      have hopen := rest_advance_one hcommaNext
      obtain ⟨last, helements, hlast⟩ := @ih (by simp) fuel _ _ hgap hopen (by
        rw [hopen]
        simp only [List.length_append, List.length_cons] at hlen ⊢
        omega)
      refine ⟨last, ?_, hlast⟩
      rw [parseElements, hvalue, ok_bind]
      dsimp only
      rw [hcommaNext, helements]
      rfl

/-- A member as it is spelled. -/
def memberText (member : String × List Char × Value) : List Char :=
  escapeString member.1 ++ ": ".toList ++ member.2.1

theorem starts_escapeString (key : String) (rest : List Char) : Starts (escapeString key ++ rest) :=
  ⟨'"', _, rfl, by decide, by decide, by decide⟩

theorem starts_memberText (member : String × List Char × Value) : Starts (memberText member) := by
  rw [memberText, List.append_assoc]
  exact starts_escapeString _ _

/-- One member is read up to what follows its value. -/
theorem parseMembers_member {depth : ℕ} (fuel : ℕ) {cursor : Cursor} (object : Object)
    {blank rest : List Char} {member : String × List Char × Value} (hblank : Blank blank)
    (hstarts : Starts member.2.1) (hreads : Reads (depth + 1) member.2.1 member.2.2)
    (hcursor : cursor.rest = blank ++ (memberText member ++ rest)) (hrest : NumeralEnd rest)
    (hfuel : 2 * cursor.rest.length ≤ fuel) :
    ∃ next : Cursor, next.rest = rest ∧ parseMembers (fuel + 1) depth cursor object =
      (let object := Entries.assign object member.1 member.2.2
        let cursor : Cursor := next.skipWhitespace
        match cursor.rest with
        | [] => cursor.fail "unterminated object"
        | ',' :: _ => parseMembers fuel depth (cursor.advance 1) object
        | '}' :: _ => .ok (object, cursor.advance 1)
        | _ => cursor.fail "expected ',' or '\x7d'") := by
  have hskip := rest_skip hcursor hblank ((starts_memberText member).solid.append rest)
  have hlen := congrArg List.length hcursor
  rw [memberText, List.append_assoc, List.append_assoc] at hskip
  obtain ⟨afterKey, hkey, hafterKey⟩ := parseString_escapeString member.1 hskip
  have hcolon : afterKey.skipWhitespace.rest = ':' :: ([' '] ++ (member.2.1 ++ rest)) :=
    rest_skip_nil hafterKey (solid_cons _ (by decide))
  have hspace := rest_advance_one hcolon
  have hvalueStart := rest_skip hspace blank_space
    (hstarts.solid.append rest)
  obtain ⟨next, hvalue, hnext⟩ := hreads fuel _ _ hvalueStart hrest (by
    rw [hvalueStart]
    have hcolon : ": ".toList.length = 2 := rfl
    simp only [memberText, List.length_append, escapeString, List.length_cons, hcolon] at hlen ⊢
    omega)
  refine ⟨next, hnext, ?_⟩
  have hquote : cursor.skipWhitespace.rest =
      '"' :: (member.1.toList.flatMap escapeChar ++ ['"'] ++ (": ".toList ++ (member.2.1 ++ rest)))
      := hskip
  rw [parseMembers]
  dsimp only
  rw [hquote, hkey, ok_bind]
  dsimp only
  rw [hcolon, hvalue, ok_bind]
  rfl

/-- Members that are read one by one are read as a whole. -/
theorem parseMembers_separated {depth : ℕ} {gap after : List Char} (hgap : Blank gap)
    (hafter : Blank after) {rest : List Char} {members : List (String × List Char × Value)}
    (h : ∀ member ∈ members, Starts member.2.1 ∧ Reads (depth + 1) member.2.1 member.2.2)
    (hne : members ≠ []) {fuel : ℕ} {cursor : Cursor} {object : Object} {blank : List Char}
    (hblank : Blank blank)
    (hcursor : cursor.rest =
      blank ++ (separated (',' :: gap) (members.map memberText) ++ (after ++ '}' :: rest)))
    (hfuel : 2 * cursor.rest.length + 1 ≤ fuel) :
    ∃ cursor', parseMembers fuel depth cursor object =
      .ok (members.foldl (fun object member => Entries.assign object member.1 member.2.2) object,
        cursor') ∧ cursor'.rest = rest := by
  induction members generalizing fuel cursor object blank with
  | nil => exact absurd rfl hne
  | cons member members ih =>
    obtain ⟨fuel, rfl⟩ : ∃ k, fuel = k + 1 := ⟨fuel - 1, by omega⟩
    obtain ⟨hstarts, hreads⟩ := h member (by simp)
    have hbrace : NumeralEnd (after ++ '}' :: rest) :=
      numeralEnd_blank hafter (numeralEnd_cons (by decide))
    cases members with
    | nil =>
      rw [List.map_cons, List.map_nil, separated] at hcursor
      obtain ⟨next, hnext, hparse⟩ := parseMembers_member fuel object hblank
        hstarts hreads hcursor hbrace (by omega)
      have hclose := rest_skip hnext hafter (solid_cons rest (by decide))
      refine ⟨next.skipWhitespace.advance 1, ?_, rest_advance_one hclose⟩
      rw [hparse]
      dsimp only
      rw [hclose]
      rfl
    | cons u members =>
      rw [List.map_cons, List.map_cons, separated_cons_cons, List.append_assoc, List.append_assoc,
        List.cons_append, ← List.map_cons] at hcursor
      have hlen := congrArg List.length hcursor
      obtain ⟨next, hnext, hparse⟩ := parseMembers_member fuel object hblank
        hstarts hreads hcursor (numeralEnd_cons (by decide)) (by omega)
      have hcomma := rest_skip_nil hnext (solid_cons _ (by decide))
      have hopen := rest_advance_one hcomma
      obtain ⟨last, hmembers, hlast⟩ := @ih
        (fun m hm => h m (List.mem_cons_of_mem _ hm)) (by simp) fuel _
        (Entries.assign object member.1 member.2.2) _ hgap hopen (by
          rw [hopen]
          simp only [List.length_append, List.length_cons] at hlen ⊢
          omega)
      refine ⟨last, ?_, hlast⟩
      rw [hparse]
      dsimp only
      rw [hcomma]
      exact hmembers

/-- A bracket opens an array. -/
theorem parseValue_open_bracket {depth fuel : ℕ} (hdepth : depth ≤ maxDepth) {cursor : Cursor}
    {text : List Char} (h : cursor.rest = '[' :: text) :
    parseValue (fuel + 1) depth cursor =
      (match (cursor.advance 1).skipWhitespace.rest with
        | ']' :: _ => .ok (.array [], (cursor.advance 1).skipWhitespace.advance 1)
        | _ => do
          let (items, cursor) ← parseElements fuel depth (cursor.advance 1).skipWhitespace
          pure (.array items, cursor)) := by
  rw [parseValue, if_neg (by omega), h]
  rfl

/-- A brace opens an object. -/
theorem parseValue_open_brace {depth fuel : ℕ} (hdepth : depth ≤ maxDepth) {cursor : Cursor}
    {text : List Char} (h : cursor.rest = '{' :: text) :
    parseValue (fuel + 1) depth cursor =
      (match (cursor.advance 1).skipWhitespace.rest with
        | '}' :: _ => .ok (.object [], (cursor.advance 1).skipWhitespace.advance 1)
        | _ => do
          let (members, cursor) ← parseMembers fuel depth (cursor.advance 1).skipWhitespace []
          pure (.object members, cursor)) := by
  rw [parseValue, if_neg (by omega), h]
  rfl

/-- An array that is not empty goes to the loop over its elements. -/
theorem parseValue_bracket {depth fuel : ℕ} (hdepth : depth ≤ maxDepth) {cursor : Cursor}
    {c : Char} {text tail : List Char} (h : cursor.rest = '[' :: text)
    (hskip : (cursor.advance 1).skipWhitespace.rest = c :: tail) (hc : c ≠ ']') :
    parseValue (fuel + 1) depth cursor = (do
      let (items, cursor) ← parseElements fuel depth (cursor.advance 1).skipWhitespace
      pure (.array items, cursor)) := by
  rw [parseValue_open_bracket hdepth h, hskip]
  split
  · next heq => exact absurd (List.cons.inj heq).1 hc
  · rfl

/-- An object that is not empty goes to the loop over its members. -/
theorem parseValue_brace {depth fuel : ℕ} (hdepth : depth ≤ maxDepth) {cursor : Cursor}
    {text tail : List Char} (h : cursor.rest = '{' :: text)
    (hskip : (cursor.advance 1).skipWhitespace.rest = '"' :: tail) :
    parseValue (fuel + 1) depth cursor = (do
      let (members, cursor) ← parseMembers fuel depth (cursor.advance 1).skipWhitespace []
      pure (.object members, cursor)) := by
  rw [parseValue_open_brace hdepth h, hskip]
  rfl

/-- **An array is read back element by element.** -/
theorem reads_array {depth : ℕ} (hdepth : depth ≤ maxDepth) {blank gap after : List Char}
    (hblank : Blank blank) (hgap : Blank gap) (hafter : Blank after) {texts : List (List Char)}
    {values : List Value} (hne : texts ≠ [])
    (h : List.Forall₂ (fun text value => Starts text ∧ Reads (depth + 1) text value)
      texts values) :
    Reads depth ('[' :: (blank ++ (separated (',' :: gap) texts ++ (after ++ [']']))))
      (.array values) := by
  intro fuel cursor rest hcursor hr hfuel
  obtain ⟨fuel, rfl, hk⟩ := fuel_succ hfuel
  have hbracket : cursor.rest = '[' :: (blank ++ (separated (',' :: gap) texts ++
      (after ++ ']' :: rest))) := by simpa using hcursor
  have hopen := rest_advance_one hbracket
  obtain ⟨text, texts, rfl⟩ : ∃ t ts, texts = t :: ts := List.exists_cons_of_ne_nil hne
  have hstarts : Starts (separated (',' :: gap) (text :: texts) ++ (after ++ ']' :: rest)) := by
    cases h with
    | cons hhead _ =>
      obtain ⟨c, tail, rfl, hc⟩ := hhead.1
      cases texts <;> exact ⟨c, _, rfl, hc⟩
  have hskip := rest_skip hopen hblank hstarts.solid
  obtain ⟨cursor', helements, hrest⟩ := parseElements_separated hgap hafter h hne
    blank_nil (hskip : _ = [] ++ _) (show _ ≤ fuel by
      have hlen := congrArg List.length hbracket
      rw [hskip]
      simp only [List.length_append, List.length_cons] at hlen ⊢
      omega)
  refine ⟨cursor', ?_, hrest⟩
  obtain ⟨c, tail, hc, -, hne', -⟩ := hstarts
  rw [parseValue_bracket hdepth hbracket (hskip.trans hc) hne', helements]
  rfl

/-- **An object is read back member by member.** -/
theorem reads_object {depth : ℕ} (hdepth : depth ≤ maxDepth) {blank gap after : List Char}
    (hblank : Blank blank) (hgap : Blank gap) (hafter : Blank after)
    {members : List (String × List Char × Value)} (hne : members ≠ [])
    (h : ∀ member ∈ members, Starts member.2.1 ∧ Reads (depth + 1) member.2.1 member.2.2) :
    Reads depth
      ('{' :: (blank ++ (separated (',' :: gap) (members.map memberText) ++ (after ++ ['}']))))
      (.object (members.foldl (fun object member => Entries.assign object member.1 member.2.2) []))
      := by
  intro fuel cursor rest hcursor hr hfuel
  obtain ⟨fuel, rfl, hk⟩ := fuel_succ hfuel
  have hbrace : cursor.rest = '{' :: (blank ++ (separated (',' :: gap) (members.map memberText) ++
      (after ++ '}' :: rest))) := by simpa using hcursor
  have hopen := rest_advance_one hbrace
  obtain ⟨member, members, rfl⟩ : ∃ m ms, members = m :: ms := List.exists_cons_of_ne_nil hne
  have hquote : ∃ tail, separated (',' :: gap) ((member :: members).map memberText) ++
      (after ++ '}' :: rest) = '"' :: tail := by
    cases members <;> exact ⟨_, rfl⟩
  obtain ⟨tail, htail⟩ := hquote
  have hskip := rest_skip hopen hblank (by rw [htail]; exact solid_cons _ (by decide))
  obtain ⟨cursor', hmembers, hrest⟩ := parseMembers_separated hgap hafter h hne
    blank_nil (hskip : _ = [] ++ _) (show _ ≤ fuel by
      have hlen := congrArg List.length hbrace
      rw [hskip]
      simp only [List.length_append, List.length_cons] at hlen ⊢
      omega)
  refine ⟨cursor', ?_, hrest⟩
  rw [parseValue_brace hdepth hbrace (hskip.trans htail), hmembers]
  rfl

/-! ### The writer -/

mutual

/-- A value as it comes back from the file: its reals are rounded to six decimals. -/
def Value.reread : Value → Value
  | .real d => .real (rereadReal d)
  | .array items => .array (rereadItems items)
  | .object members => .object (rereadMembers members)
  | value => value

def rereadItems : List Value → List Value
  | [] => []
  | item :: items => item.reread :: rereadItems items

def rereadMembers : Object → Object
  | [] => []
  | (key, value) :: members => (key, value.reread) :: rereadMembers members

end

mutual

/-- What the writer spells so that the parser can read it, at `depth`: the integers and the reals
fit, the keys of an object ascend, and values do not nest too deep. -/
def Value.Storable (depth : ℕ) : Value → Prop
  | .int n => depth ≤ maxDepth ∧ isInt64 n = true
  | .real d => depth ≤ maxDepth ∧ WritableReal d
  | .array items => depth ≤ maxDepth ∧ ItemsStorable (depth + 1) items
  | .object members =>
    depth ≤ maxDepth ∧ Entries.Sorted members ∧ MembersStorable (depth + 1) members
  | .null | .bool _ | .string _ => depth ≤ maxDepth

def ItemsStorable (depth : ℕ) : List Value → Prop
  | [] => True
  | item :: items => item.Storable depth ∧ ItemsStorable depth items

def MembersStorable (depth : ℕ) : Object → Prop
  | [] => True
  | (_, value) :: members => value.Storable depth ∧ MembersStorable depth members

end

theorem membersStorable_iff {depth : ℕ} {members : Object} :
    MembersStorable depth members ↔ ∀ member ∈ members, member.2.Storable depth := by
  induction members with
  | nil => simp [MembersStorable]
  | cons member members ih => simp [MembersStorable, ih]

theorem rereadMembers_eq_map (members : Object) :
    rereadMembers members = members.map fun member => (member.1, member.2.reread) := by
  induction members with
  | nil => rfl
  | cons member members ih => rw [rereadMembers, ih, List.map_cons]

theorem sorted_rereadMembers {members : Object} (h : Entries.Sorted members) :
    Entries.Sorted (rereadMembers members) := by
  have hkeys : (rereadMembers members).map Prod.fst = members.map Prod.fst := by
    rw [rereadMembers_eq_map, List.map_map]
    rfl
  unfold Entries.Sorted
  rw [hkeys]
  exact h

/-- A numeral starts neither like whitespace nor like the end of an array. -/
theorem numeralHead {c : Char} (hc : isDigit c = true ∨ c = '-') :
    Cursor.isWhitespace c = false ∧ c ≠ ']' ∧ c ≠ '\u00ef' := by
  refine ⟨?_, by rintro rfl; revert hc; decide, by rintro rfl; revert hc; decide⟩
  by_contra hne
  have hblank := Bool.of_not_eq_false hne
  simp only [Cursor.isWhitespace, Bool.or_eq_true, decide_eq_true_eq] at hblank
  rcases hblank with ((rfl | rfl) | rfl) | rfl <;> revert hc <;> decide

theorem starts_decimalInt (n : ℤ) : Starts (decimalInt n) := by
  obtain ⟨c, rest, h, hc⟩ := decimalInt_head n
  exact ⟨c, rest, h, numeralHead hc⟩

theorem starts_formatReal {d : Double} (hd : WritableReal d) : Starts (formatReal d) := by
  obtain ⟨q, rfl⟩ := Double.isFinite_iff.1 hd.1
  obtain ⟨q', hformat, -⟩ := formatReal_eq hd
  obtain ⟨c, rest, h, hc⟩ := fixedPoint_head q'
  exact ⟨c, rest, hformat.trans h, numeralHead hc⟩

/-- A value without children is read back. -/
theorem reads_writeScalar {depth : ℕ} {value : Value} (h : value.Storable depth)
    (harray : value.asArray = none) (hobject : value.asObject = none) :
    Starts (writeScalar value) ∧ Reads depth (writeScalar value) value.reread := by
  cases value with
  | null => exact ⟨⟨'n', _, rfl, by decide, by decide, by decide⟩, reads_null h⟩
  | bool b =>
    cases b
    · exact ⟨⟨'f', _, rfl, by decide, by decide, by decide⟩, reads_false h⟩
    · exact ⟨⟨'t', _, rfl, by decide, by decide, by decide⟩, reads_true h⟩
  | int n => exact ⟨starts_decimalInt n, reads_int h.1 h.2⟩
  | real d =>
    rw [writeScalar, if_pos h.2.1]
    exact ⟨starts_formatReal h.2, reads_real h.1 h.2⟩
  | string text => exact ⟨⟨'"', _, rfl, by decide, by decide, by decide⟩, reads_string h text⟩
  | array items => cases harray
  | object members => cases hobject

theorem reads_emptyArray {depth : ℕ} (hdepth : depth ≤ maxDepth) :
    Reads depth "[]".toList (.array []) := by
  intro fuel cursor rest h hr hfuel
  obtain ⟨fuel, rfl, -⟩ := fuel_succ hfuel
  have hbracket : cursor.rest = '[' :: (']' :: rest) := h
  have hclose := rest_skip_nil (rest_advance_one hbracket)
    (solid_cons rest (by decide))
  refine ⟨(cursor.advance 1).skipWhitespace.advance 1, ?_, rest_advance_one hclose⟩
  rw [parseValue_open_bracket hdepth hbracket, hclose]
  rfl

theorem reads_emptyObject {depth : ℕ} (hdepth : depth ≤ maxDepth) :
    Reads depth "{}".toList (.object []) := by
  intro fuel cursor rest h hr hfuel
  obtain ⟨fuel, rfl, -⟩ := fuel_succ hfuel
  have hbrace : cursor.rest = '{' :: ('}' :: rest) := h
  have hclose := rest_skip_nil (rest_advance_one hbrace)
    (solid_cons rest (by decide))
  refine ⟨(cursor.advance 1).skipWhitespace.advance 1, ?_, rest_advance_one hclose⟩
  rw [parseValue_open_brace hdepth hbrace, hclose]
  rfl

/-- Spelled members, each of which is read back. -/
def ReadsMembers (depth : ℕ) (texts : List (List Char)) (members : Object) : Prop :=
  ∃ triples : List (String × List Char × Value), triples.map memberText = texts ∧
    (triples.map fun member => (member.1, member.2.2)) = members ∧
    ∀ member ∈ triples, Starts member.2.1 ∧ Reads depth member.2.1 member.2.2

/-- Spelled items, each of which is read back. -/
def ReadsItems (depth : ℕ) (texts : List (List Char)) (items : List Value) : Prop :=
  List.Forall₂ (fun text value => Starts text ∧ Reads depth text value) texts items

theorem ReadsMembers.cons {depth : ℕ} {key : String} {text : List Char} {value : Value}
    {texts : List (List Char)} {members : Object} (hstarts : Starts text)
    (hreads : Reads depth text value) (h : ReadsMembers depth texts members) :
    ReadsMembers depth ((escapeString key ++ ": ".toList ++ text) :: texts)
      ((key, value) :: members) := by
  obtain ⟨triples, rfl, rfl, hall⟩ := h
  refine ⟨(key, text, value) :: triples, rfl, rfl, ?_⟩
  intro member hm
  rcases List.mem_cons.1 hm with rfl | hm
  · exact ⟨hstarts, hreads⟩
  · exact hall member hm

/-- A brace around spelled members, whatever the layout and the order. -/
theorem ReadsMembers.reads {depth : ℕ} (hdepth : depth ≤ maxDepth) {blank gap after : List Char}
    (hblank : Blank blank) (hgap : Blank gap) (hafter : Blank after) {texts : List (List Char)}
    {members sorted : Object} (hne : texts ≠ []) (h : ReadsMembers (depth + 1) texts members)
    (hsorted : Entries.Sorted sorted) (hmem : ∀ e, e ∈ members ↔ e ∈ sorted) :
    Reads depth ('{' :: (blank ++ (separated (',' :: gap) texts ++ (after ++ ['}']))))
      (.object sorted) := by
  obtain ⟨triples, rfl, rfl, hall⟩ := h
  have hfold := Entries.foldl_assign_eq hsorted hmem
  rw [List.foldl_map] at hfold
  have htriples : triples ≠ [] := by
    rintro rfl
    exact hne rfl
  have hreads := reads_object hdepth hblank hgap hafter htriples hall
  rwa [hfold] at hreads

theorem separated_map_append {separator lead : List Char} (text : List Char)
    (texts : List (List Char)) :
    separated separator ((text :: texts).map (lead ++ ·)) =
      lead ++ separated (separator ++ lead) (text :: texts) := by
  induction texts generalizing text with
  | nil => rfl
  | cons next texts ih =>
    rw [List.map_cons, List.map_cons, separated_cons_cons, ← List.map_cons, ih,
      separated_cons_cons]
    simp only [List.append_assoc]

theorem blank_indent (depth : ℕ) : Blank (indent depth) := by
  intro c hc
  rw [List.eq_of_mem_replicate hc]
  decide

theorem Blank.cons {c : Char} {text : List Char} (hc : Cursor.isWhitespace c = true)
    (h : Blank text) : Blank (c :: text) := by
  intro c' hc'
  rcases List.mem_cons.1 hc' with rfl | hc'
  · exact hc
  · exact h c' hc'

/-- A block is a layout. -/
theorem block_eq {depth : ℕ} {texts : List (List Char)} (hne : texts ≠ []) (close : Char) :
    block depth texts ++ [close] =
      ('\n' :: indent (depth + 1)) ++ (separated (',' :: '\n' :: indent (depth + 1)) texts ++
        (('\n' :: indent depth) ++ [close])) := by
  obtain ⟨text, texts, rfl⟩ := List.exists_cons_of_ne_nil hne
  rw [block, separated_map_append]
  simp [List.append_assoc]

theorem ReadsItems.reads_block {depth level : ℕ} (hlevel : level ≤ maxDepth)
    {texts : List (List Char)} {items : List Value} (hne : texts ≠ [])
    (h : ReadsItems (level + 1) texts items) :
    Reads level ('[' :: (block depth texts ++ [']'])) (.array items) := by
  rw [block_eq hne]
  exact reads_array hlevel (.cons (by decide) (blank_indent _)) (.cons (by decide) (blank_indent _))
    (.cons (by decide) (blank_indent _)) hne h

theorem ReadsMembers.reads_block {depth level : ℕ} (hlevel : level ≤ maxDepth)
    {texts : List (List Char)} {members sorted : Object} (hne : texts ≠ [])
    (h : ReadsMembers (level + 1) texts members) (hsorted : Entries.Sorted sorted)
    (hmem : ∀ e, e ∈ members ↔ e ∈ sorted) :
    Reads level ('{' :: (block depth texts ++ ['}'])) (.object sorted) := by
  rw [block_eq hne]
  exact h.reads hlevel (.cons (by decide) (blank_indent _)) (.cons (by decide) (blank_indent _))
    (.cons (by decide) (blank_indent _)) hne hsorted hmem

theorem ReadsItems.reads_line {level : ℕ} (hlevel : level ≤ maxDepth)
    {texts : List (List Char)} {items : List Value} (hne : texts ≠ [])
    (h : ReadsItems (level + 1) texts items) :
    Reads level ('[' :: (separated ", ".toList texts ++ [']'])) (.array items) := by
  exact reads_array hlevel blank_nil blank_space blank_nil hne h

theorem ReadsMembers.reads_line {level : ℕ} (hlevel : level ≤ maxDepth)
    {texts : List (List Char)} {members : Object} (hne : texts ≠ [])
    (h : ReadsMembers (level + 1) texts members) (hsorted : Entries.Sorted members) :
    Reads level ('{' :: (separated ", ".toList texts ++ ['}'])) (.object members) := by
  exact h.reads hlevel blank_nil blank_space blank_nil hne hsorted fun _ => Iff.rfl

mutual

/-- A value on one line is read back. -/
theorem reads_writeInline : ∀ (value : Value) {depth : ℕ}, value.Storable depth →
    Starts (writeInline value) ∧ Reads depth (writeInline value) value.reread
  | .object [], _, h => ⟨⟨'{', _, rfl, by decide, by decide, by decide⟩, reads_emptyObject h.1⟩
  | .object ((key, value) :: members), _, h =>
    ⟨⟨'{', _, rfl, by decide, by decide, by decide⟩,
      (reads_writeInlineMembers ((key, value) :: members) h.2.2).reads_line h.1
        (by simp [writeInlineMembers]) (sorted_rereadMembers h.2.1)⟩
  | .array [], _, h => ⟨⟨'[', _, rfl, by decide, by decide, by decide⟩, reads_emptyArray h.1⟩
  | .array (item :: items), _, h =>
    ⟨⟨'[', _, rfl, by decide, by decide, by decide⟩,
      (reads_writeInlineItems (item :: items) h.2).reads_line h.1 (by simp [writeInlineItems])⟩
  | .null, _, h => reads_writeScalar h rfl rfl
  | .bool _, _, h => reads_writeScalar h rfl rfl
  | .int _, _, h => reads_writeScalar h rfl rfl
  | .real _, _, h => reads_writeScalar h rfl rfl
  | .string _, _, h => reads_writeScalar h rfl rfl

theorem reads_writeInlineMembers : ∀ (members : Object) {depth : ℕ},
    MembersStorable depth members →
      ReadsMembers depth (writeInlineMembers members) (rereadMembers members)
  | [], _, _ => ⟨[], rfl, rfl, by simp⟩
  | (key, value) :: members, _, h =>
    .cons (reads_writeInline value h.1).1 (reads_writeInline value h.1).2
      (reads_writeInlineMembers members h.2)

theorem reads_writeInlineItems : ∀ (items : List Value) {depth : ℕ}, ItemsStorable depth items →
    ReadsItems depth (writeInlineItems items) (rereadItems items)
  | [], _, _ => .nil
  | item :: items, _, h => .cons (reads_writeInline item h.1) (reads_writeInlineItems items h.2)

end

mutual

/-- A value in its block layout is read back. -/
theorem reads_writeValue : ∀ (value : Value) (depth : ℕ) {level : ℕ}, value.Storable level →
    Starts (writeValue depth value) ∧ Reads level (writeValue depth value) value.reread
  | .object [], _, _, h => ⟨⟨'{', _, rfl, by decide, by decide, by decide⟩, reads_emptyObject h.1⟩
  | .object ((key, value) :: members), depth, _, h =>
    ⟨⟨'{', _, rfl, by decide, by decide, by decide⟩,
      (reads_writeMembers ((key, value) :: members) (depth + 1) h.2.2).reads_block h.1
        (by simp [writeMembers]) (sorted_rereadMembers h.2.1) fun _ => Iff.rfl⟩
  | .array [], _, _, h => ⟨⟨'[', _, rfl, by decide, by decide, by decide⟩, reads_emptyArray h.1⟩
  | .array (item :: items), depth, level, h => by
    have hline := (reads_writeInlineItems (item :: items) h.2).reads_line h.1
      (by simp [writeInlineItems])
    have hitems : writeItems (depth + 1) (item :: items) ≠ [] := by simp [writeItems]
    have hblock := @ReadsItems.reads_block depth _ h.1 _ _ hitems
      (reads_writeItems (item :: items) (depth + 1) h.2)
    rw [writeValue]
    split_ifs
    · exact ⟨⟨'[', _, rfl, by decide, by decide, by decide⟩, hline⟩
    · exact ⟨⟨'[', _, rfl, by decide, by decide, by decide⟩, hblock⟩
    · exact fun h => nomatch h
  | .null, _, _, h => reads_writeScalar h rfl rfl
  | .bool _, _, _, h => reads_writeScalar h rfl rfl
  | .int _, _, _, h => reads_writeScalar h rfl rfl
  | .real _, _, _, h => reads_writeScalar h rfl rfl
  | .string _, _, _, h => reads_writeScalar h rfl rfl

theorem reads_writeMembers : ∀ (members : Object) (depth : ℕ) {level : ℕ},
    MembersStorable level members →
      ReadsMembers level (writeMembers depth members) (rereadMembers members)
  | [], _, _, _ => ⟨[], rfl, rfl, by simp⟩
  | (key, value) :: members, depth, _, h =>
    .cons (reads_writeValue value depth h.1).1 (reads_writeValue value depth h.1).2
      (reads_writeMembers members depth h.2)

theorem reads_writeItems : ∀ (items : List Value) (depth : ℕ) {level : ℕ},
    ItemsStorable level items → ReadsItems level (writeItems depth items) (rereadItems items)
  | [], _, _, _ => .nil
  | item :: items, depth, _, h =>
    .cons (reads_writeValue item depth h.1) (reads_writeItems items depth h.2)

end

end OneBeat.Json
