import Mathlib.Data.Fintype.Card
import OneBeat.Plugin.StockReleases

/-!
# Chords on the stock engines

A chord is several note-ons at one frame: no sample is rendered between them.

* `StockEngine.claim` : the voice a note-on claims.
* `StockEngine.chord_sounds` : a chord of no more notes than voices sounds whole, and a held voice
  goes only when there is no other.
-/

namespace OneBeat

namespace Double

theorem lt_trans {a b c : Double} (hab : a.lt b = true) (hbc : b.lt c = true) :
    a.lt c = true := by
  rcases a with a | (_ | _) | _ <;> rcases b with b | (_ | _) | _ <;>
    rcases c with c | (_ | _) | _ <;> simp_all [lt]
  exact hab.trans hbc

/-- Nothing from zero on is at or below -1. -/
theorem lt_of_le {a : Double} (h : le 0 a = true) : lt (.finite (-1)) a = true := by
  rcases a with a | (_ | _) | _
  · simp only [le, beq, lt, Bool.or_eq_true, decide_eq_true_eq] at h ⊢
    rcases h with h | h
    · linarith
    · injection h with h
      linarith
  all_goals simp_all [lt, le, beq]

theorem le_eq_false_of_lt {a b : Double} (h : a.lt b = true) : b.le a = false := by
  rcases a with a | (_ | _) | _ <;> rcases b with b | (_ | _) | _ <;> simp_all [lt, le, beq]
  exact ⟨h.le, h.ne'⟩

end Double

/-- `keySounding` -/
def StockVoices.keySounding (voices : StockVoices) (key : ℤ) : Bool :=
  (List.finRange 32).any fun i =>
    (voices i).active && !(voices i).released && decide ((voices i).address.key = key)

/-- The engines of the stock instruments. -/
inductive StockEngine
  | piano
  | guitar
  | synth
  deriving DecidableEq

/-- A note-on and its velocity. -/
abbrev ChordNote := NoteAddress × Double

namespace StockEngine

/-- The key a voice is stored under. -/
def storedKey : StockEngine → ℤ → ℤ
  | piano, key | guitar, key => int16 key
  | synth, key => int16 (max 0 (min key 127))

def noteOn : StockEngine → StockVoices → ChordNote → StockVoices
  | piano, voices, note => PianoEngine.noteOn voices note.1
  | guitar, voices, note => GuitarEngine.noteOn voices note.1 note.2
  | synth, voices, note => SynthEngine.noteOn voices note.1 note.2

def noteOff : StockEngine → StockVoices → NoteAddress → Bool → StockVoices
  | piano => PianoEngine.noteOff
  | guitar => GuitarEngine.noteOff
  | synth => SynthEngine.noteOff

/-- The note-ons of a chord, one after the other. -/
def chord (engine : StockEngine) (voices : StockVoices) (notes : List ChordNote) : StockVoices :=
  notes.foldl engine.noteOn voices

/-- The voice a note-on claims. -/
def claim : StockEngine → StockVoices → Option (Fin 32)
  | piano, voices => PianoEngine.selected voices
  | guitar, voices => GuitarEngine.target voices
  | synth, voices => SynthEngine.selected voices

end StockEngine

namespace StockVoices

variable {voices : StockVoices} {i j : Fin 32}

theorem inactive_of_firstInactive (h : voices.firstInactive = some i) :
    (voices i).active = false := by
  have := List.find?_some h
  simpa using this

theorem active_of_firstInactive (h : voices.firstInactive = none) (i : Fin 32) :
    (voices i).active = true := by
  have := List.find?_eq_none.1 h i (List.mem_finRange i)
  simpa using this

/-! ### The quietest voice -/

/-- A turn of the loop passes over a voice that has not been rendered, and keeps a released one. -/
theorem quieter_eq (voices : StockVoices) (selected : Option (Fin 32)) (i : Fin 32) :
    voices.quieter selected i = selected ∨
      voices.quieter selected i = some i ∧ (voices i).age.le 0 = false ∧
        ∀ j, selected = some j → (voices j).released = true → (voices i).released = true := by
  unfold quieter
  by_cases hage : (voices i).age.le 0 = true
  · exact .inl (if_pos hage)
  rw [if_neg hage]
  rw [Bool.not_eq_true] at hage
  cases selected with
  | none => exact .inr ⟨rfl, hage, nofun⟩
  | some j =>
    dsimp only
    split_ifs with hdiffer hreleased hquiet
    · exact .inr ⟨rfl, hage, fun _ _ _ => hreleased⟩
    · exact .inl rfl
    · refine .inr ⟨rfl, hage, fun k hk hkreleased => ?_⟩
      obtain rfl := Option.some_inj.1 hk
      rw [not_not.1 hdiffer]
      exact hkreleased
    · exact .inl rfl

theorem isSome_quieter {selected : Option (Fin 32)}
    (h : selected.isSome = true ∨ (voices i).age.le 0 = false) :
    (voices.quieter selected i).isSome = true := by
  unfold quieter
  by_cases hage : (voices i).age.le 0 = true
  · rw [if_pos hage]
    exact h.resolve_right (by simp [hage])
  rw [if_neg hage]
  cases selected with
  | none => rfl
  | some j =>
    dsimp only
    split_ifs <;> rfl

theorem released_quieter {selected : Option (Fin 32)} (hage : (voices i).age.le 0 = false)
    (hreleased : (voices i).released = true) :
    ∃ j, voices.quieter selected i = some j ∧ (voices j).released = true := by
  unfold quieter
  rw [if_neg (by simp [hage])]
  cases selected with
  | none => exact ⟨i, rfl, hreleased⟩
  | some j =>
    dsimp only
    split_ifs with hdiffer hquiet
    · exact ⟨i, rfl, hreleased⟩
    · exact ⟨i, rfl, hreleased⟩
    · refine ⟨j, rfl, ?_⟩
      rw [← not_not.1 hdiffer]
      exact hreleased

/-- What the scan leaves behind was rendered, or was there before. -/
theorem of_foldl_quieter (scanned : List (Fin 32)) (selected : Option (Fin 32))
    (h : scanned.foldl voices.quieter selected = some j) :
    selected = some j ∨ (voices j).age.le 0 = false := by
  induction scanned generalizing selected with
  | nil => exact .inl h
  | cons i scanned ih =>
    rcases ih _ h with hnext | hage
    · rcases quieter_eq voices selected i with hsame | ⟨hnew, hage, -⟩
      · exact .inl (hsame ▸ hnext)
      · obtain rfl := Option.some_inj.1 (hnew.symm.trans hnext)
        exact .inr hage
    · exact .inr hage

theorem isSome_foldl_quieter (scanned : List (Fin 32)) (selected : Option (Fin 32))
    (h : selected.isSome = true ∨ ∃ i ∈ scanned, (voices i).age.le 0 = false) :
    (scanned.foldl voices.quieter selected).isSome = true := by
  induction scanned generalizing selected with
  | nil => exact h.resolve_right (by simp)
  | cons i scanned ih =>
    refine ih _ ?_
    rcases h with h | ⟨k, hk, hage⟩
    · exact .inl (isSome_quieter (.inl h))
    · rcases List.mem_cons.1 hk with rfl | hk
      · exact .inl (isSome_quieter (.inr hage))
      · exact .inr ⟨k, hk, hage⟩

/-- A released voice that was rendered is preferred. -/
theorem released_foldl_quieter (scanned : List (Fin 32)) (selected : Option (Fin 32))
    (h : (∃ j, selected = some j ∧ (voices j).released = true) ∨
      ∃ i ∈ scanned, (voices i).age.le 0 = false ∧ (voices i).released = true) :
    ∃ j, scanned.foldl voices.quieter selected = some j ∧ (voices j).released = true := by
  induction scanned generalizing selected with
  | nil => exact h.resolve_right (by simp)
  | cons i scanned ih =>
    refine ih _ ?_
    rcases h with ⟨j, rfl, hreleased⟩ | ⟨k, hk, hage, hreleased⟩
    · -- what is selected is replaced by a released voice only
      rcases quieter_eq voices (some j) i with hsame | ⟨hnew, -, hkeeps⟩
      · exact .inl ⟨j, hsame, hreleased⟩
      · exact .inl ⟨i, hnew, hkeeps j rfl hreleased⟩
    · rcases List.mem_cons.1 hk with rfl | hk
      · exact .inl (released_quieter hage hreleased)
      · exact .inr ⟨k, hk, hage, hreleased⟩

/-! ### The longest measure -/

variable {eligible : StockVoice → Bool} {measure : StockVoice → Double}

/-- A turn of the loop for the largest measure. -/
abbrev longer (voices : StockVoices) (eligible : StockVoice → Bool) (measure : StockVoice → Double)
    (best : Double × Option (Fin 32)) (i : Fin 32) : Double × Option (Fin 32) :=
  if eligible (voices i) && best.1.lt (measure (voices i)) then (measure (voices i), some i)
  else best

theorem of_foldl_longer (eligible : StockVoice → Bool) (measure : StockVoice → Double)
    (scanned : List (Fin 32)) (best : Double × Option (Fin 32))
    (h : (scanned.foldl (voices.longer eligible measure) best).2 = some j) :
    best.2 = some j ∨
      eligible (voices j) = true ∧ best.1.lt (measure (voices j)) = true := by
  induction scanned generalizing best with
  | nil => exact .inl h
  | cons i scanned ih =>
    have hnext := ih _ h
    by_cases htaken : (eligible (voices i) && best.1.lt (measure (voices i))) = true
    · rw [longer, if_pos htaken] at hnext
      rw [Bool.and_eq_true] at htaken
      rcases hnext with hnew | ⟨heligible, hlt⟩
      · obtain rfl := Option.some_inj.1 hnew
        exact .inr htaken
      · exact .inr ⟨heligible, Double.lt_trans htaken.2 hlt⟩
    · rwa [longer, if_neg htaken] at hnext

theorem isSome_foldl_longer (eligible : StockVoice → Bool) (measure : StockVoice → Double)
    (scanned : List (Fin 32)) (best : Double × Option (Fin 32))
    (h : best.2.isSome = true ∨
      ∃ i ∈ scanned, eligible (voices i) = true ∧ best.1.lt (measure (voices i)) = true) :
    (scanned.foldl (voices.longer eligible measure) best).2.isSome = true := by
  induction scanned generalizing best with
  | nil => exact h.resolve_right (by simp)
  | cons i scanned ih =>
    refine ih _ ?_
    by_cases htaken : (eligible (voices i) && best.1.lt (measure (voices i))) = true
    · rw [longer, if_pos htaken]
      exact .inl rfl
    · rw [longer, if_neg htaken]
      rcases h with h | ⟨k, hk, heligible, hlt⟩
      · exact .inl h
      · rcases List.mem_cons.1 hk with rfl | hk
        · rw [heligible, hlt] at htaken
          exact absurd rfl htaken
        · exact .inr ⟨k, hk, heligible, hlt⟩

end StockVoices

namespace StockEngine

variable {engine : StockEngine} {voices : StockVoices} {note : ChordNote} {i : Fin 32}

/-! ### What a note-on claims -/

theorem or_firstInactive {other : Option (Fin 32)}
    (h : voices.firstInactive.or other = some i) :
    (voices i).active = false ∨ (∀ j, (voices j).active = true) ∧ other = some i := by
  cases hfirst : voices.firstInactive with
  | some k =>
    rw [hfirst, Option.some_or] at h
    obtain rfl := Option.some_inj.1 h
    exact .inl (StockVoices.inactive_of_firstInactive hfirst)
  | none =>
    rw [hfirst, Option.none_or] at h
    exact .inr ⟨StockVoices.active_of_firstInactive hfirst, h⟩

theorem ne_zero_of_quietest (h : voices.quietest = some i) : (voices i).age ≠ 0 := by
  have hage := (StockVoices.of_foldl_quieter _ none h).resolve_left nofun
  intro hzero
  rw [hzero] at hage
  exact absurd hage (by decide)

theorem ne_zero_of_longest {eligible : StockVoice → Bool} {measure : StockVoice → Double}
    {floor : Double} (h : voices.longest eligible measure floor = some i)
    (hrendered : eligible (voices i) = true → floor.lt (measure (voices i)) = true →
      Double.lt 0 (voices i).age = true) : (voices i).age ≠ 0 := by
  obtain ⟨heligible, hlt⟩ := (StockVoices.of_foldl_longer _ _ _ (floor, none) h).resolve_left nofun
  intro hzero
  have := hrendered heligible hlt
  rw [hzero] at this
  exact absurd this (by decide)

/-- **A voice of the chord is not claimed again.** -/
theorem claim_fresh (h : engine.claim voices = some i) :
    (voices i).active = false ∨ (voices i).age ≠ 0 := by
  cases engine with
  | piano | synth =>
    rcases or_firstInactive h with hinactive | ⟨-, hquietest⟩
    · exact .inl hinactive
    · exact .inr (ne_zero_of_quietest hquietest)
  | guitar =>
    rw [claim, GuitarEngine.target, Option.or_assoc] at h
    rcases or_firstInactive h with hinactive | ⟨-, hlongest⟩
    · exact .inl hinactive
    refine .inr ?_
    rcases Option.or_eq_some_iff.1 hlongest with hreleased | ⟨-, holdest⟩
    · exact ne_zero_of_longest hreleased fun heligible _ => (Bool.and_eq_true _ _ ▸ heligible).1
    · exact ne_zero_of_longest holdest fun _ hlt => hlt

/-- Where a voice is free or was rendered, one is claimed. -/
theorem isSome_claim (engine : StockEngine)
    (h : (voices i).active = false ∨ Double.lt 0 (voices i).age = true) :
    (engine.claim voices).isSome = true := by
  have hquietest (hfirst : voices.firstInactive = none) : voices.quietest.isSome = true := by
    have hage := h.resolve_left (by simp [StockVoices.active_of_firstInactive hfirst i])
    exact StockVoices.isSome_foldl_quieter _ none
      (.inr ⟨i, List.mem_finRange i, Double.le_eq_false_of_lt hage⟩)
  have holdest (hfirst : voices.firstInactive = none) :
      (voices.longest (fun _ => true) StockVoice.age 0).isSome = true := by
    have hage := h.resolve_left (by simp [StockVoices.active_of_firstInactive hfirst i])
    exact StockVoices.isSome_foldl_longer (fun _ => true) StockVoice.age _ (0, none)
      (.inr ⟨i, List.mem_finRange i, rfl, hage⟩)
  cases hfirst : voices.firstInactive with
  | some k =>
    cases engine <;> simp [claim, PianoEngine.selected, SynthEngine.selected,
      GuitarEngine.target, hfirst]
  | none =>
    cases engine with
    | piano | synth =>
      simpa [claim, PianoEngine.selected, SynthEngine.selected, hfirst] using hquietest hfirst
    | guitar =>
      have := holdest hfirst
      simp only [claim, GuitarEngine.target, hfirst, Option.none_or]
      rw [Option.isSome_or, this, Bool.or_true]

/-- Release times are seconds: they start at 0 and sound adds to them. -/
def Timed (voices : StockVoices) : Prop := ∀ i, Double.le 0 (voices i).releaseTime = true

/-- **A held voice is claimed** only when every voice sounds and no released one was rendered. -/
theorem claim_held (htimed : Timed voices) (h : engine.claim voices = some i)
    (hheld : (voices i).Held) (j : Fin 32) : (voices j).active = true ∧
      ¬((voices j).released = true ∧ Double.lt 0 (voices j).age = true) := by
  have hreleased : ¬(voices i).released = true := by simp [hheld.2]
  have hactive : ¬(voices i).active = false := by simp [hheld.1]
  cases engine with
  | piano | synth =>
    obtain ⟨hall, hquietest⟩ := (or_firstInactive h).resolve_left hactive
    refine ⟨hall j, fun hj => ?_⟩
    obtain ⟨k, hk, hkreleased⟩ := StockVoices.released_foldl_quieter (List.finRange 32) none
      (.inr ⟨j, List.mem_finRange j, Double.le_eq_false_of_lt hj.2, hj.1⟩)
    obtain rfl := Option.some_inj.1 (hk.symm.trans hquietest)
    exact hreleased hkreleased
  | guitar =>
    rw [claim, GuitarEngine.target, Option.or_assoc] at h
    obtain ⟨hall, hlongest⟩ := (or_firstInactive h).resolve_left hactive
    refine ⟨hall j, fun hj => ?_⟩
    -- the guitar looks among the released voices first, and there is one
    let eligible (voice : StockVoice) : Bool := Double.lt 0 voice.age && voice.released
    have hsome := StockVoices.isSome_foldl_longer eligible StockVoice.releaseTime
      (List.finRange 32) (.finite (-1), none)
      (.inr ⟨j, List.mem_finRange j, by simp [eligible, hj], Double.lt_of_le (htimed j)⟩)
    rcases Option.or_eq_some_iff.1 hlongest with hfound | ⟨hnone, -⟩
    · obtain ⟨heligible, -⟩ :=
        (StockVoices.of_foldl_longer eligible StockVoice.releaseTime _
          (.finite (-1), none) hfound).resolve_left nofun
      exact hreleased ((Bool.and_eq_true _ _).mp heligible).2
    · rw [StockVoices.longest] at hnone
      rw [hnone] at hsome
      cases hsome

/-- A key of the keyboard is stored as it is. -/
theorem storedKey_eq (engine : StockEngine) {key : ℤ} (hlow : 0 ≤ key) (hhigh : key ≤ 127) :
    engine.storedKey key = key := by
  have hnarrow : int16 key = key := int16_eq (by omega) (by omega)
  cases engine with
  | piano | guitar => exact hnarrow
  | synth =>
    have hclamped : max 0 (min key 127) = key := by omega
    rw [storedKey, hclamped, hnarrow]

/-- A note-on starts the voice it claims on its key. -/
theorem noteOn_eq (engine : StockEngine) (voices : StockVoices)
    (hvelocity : Double.lt 0 note.2 = true) :
    ∃ voice : StockVoice, engine.noteOn voices note = voices.start (engine.claim voices) voice ∧
      voice.Held ∧ voice.age = 0 ∧ voice.releaseTime = 0 ∧
      voice.address.key = engine.storedKey note.1.key := by
  have hpositive : ¬note.2.le 0 = true := by simp [Double.le_eq_false_of_lt hvelocity]
  cases engine with
  | piano => exact ⟨_, rfl, ⟨rfl, rfl⟩, rfl, rfl, rfl⟩
  | guitar =>
    refine ⟨.started note.1.narrowed 0, ?_, ⟨rfl, rfl⟩, rfl, rfl, rfl⟩
    rw [noteOn, GuitarEngine.noteOn, if_neg hpositive, claim]
  | synth =>
    refine ⟨.started (SynthEngine.stored note.1) attackEnvelope, ?_, ⟨rfl, rfl⟩, rfl, rfl, rfl⟩
    rw [noteOn, SynthEngine.noteOn, if_neg hpositive, claim]

/-! ### The chord -/

/-- The voices of the notes so far, on their keys; the others are free or were rendered. -/
structure Sounds (voices : StockVoices) (keys : List ℤ) (fresh : Finset (Fin 32)) : Prop where
  card : fresh.card = keys.length
  held : ∀ i ∈ fresh, (voices i).Held ∧ (voices i).age = 0
  others : ∀ i ∉ fresh, (voices i).active = false ∨ Double.lt 0 (voices i).age = true
  sounding : ∀ key ∈ keys, ∃ i ∈ fresh, (voices i).address.key = key
  timed : Timed voices

/-- **A note takes a voice of its own** as long as there are fewer than voices. -/
theorem Sounds.noteOn {keys : List ℤ} {fresh : Finset (Fin 32)} (h : Sounds voices keys fresh)
    (engine : StockEngine) (hroom : keys.length < 32) (hvelocity : Double.lt 0 note.2 = true) :
    ∃ fresh',
      Sounds (engine.noteOn voices note) (keys ++ [engine.storedKey note.1.key]) fresh' := by
  -- the notes so far took a voice each, and there are more voices than notes
  obtain ⟨free, hfree⟩ : ∃ i, i ∉ fresh := by
    by_contra hall
    have huniv : fresh = Finset.univ :=
      Finset.eq_univ_iff_forall.2 fun i => not_not.1 fun hi => hall ⟨i, hi⟩
    have := h.card
    rw [huniv, Finset.card_univ, Fintype.card_fin] at this
    omega
  obtain ⟨claimed, hclaim⟩ := Option.isSome_iff_exists.1 (isSome_claim engine
    (h.others free hfree))
  -- a voice of the chord sounds and has not been rendered, and such a voice is never claimed
  have hnew : claimed ∉ fresh := by
    intro hmem
    obtain ⟨hheld, hage⟩ := h.held claimed hmem
    rcases claim_fresh hclaim with hinactive | hrendered
    · exact absurd hheld.1 (by simp [hinactive])
    · exact hrendered hage
  obtain ⟨voice, hon, hheld, hage, htime, haddress⟩ := noteOn_eq engine voices hvelocity
  rw [hclaim] at hon
  have hsame : (engine.noteOn voices note) claimed = voice := by
    rw [hon]
    exact Function.update_self ..
  have hother (i : Fin 32) (hi : i ≠ claimed) : (engine.noteOn voices note) i = voices i := by
    rw [hon]
    exact Function.update_of_ne hi ..
  have hfresh (i : Fin 32) (hi : i ∈ fresh) : i ≠ claimed := fun heq => hnew (heq ▸ hi)
  refine ⟨insert claimed fresh, ?_, fun i hi => ?_, fun i hi => ?_, fun key hmem => ?_,
    fun i => ?_⟩
  · rw [Finset.card_insert_of_notMem hnew, h.card, List.length_append, List.length_singleton]
  · rcases Finset.mem_insert.1 hi with rfl | hi
    · rw [hsame]
      exact ⟨hheld, hage⟩
    · rw [hother i (hfresh i hi)]
      exact h.held i hi
  · rw [Finset.mem_insert, not_or] at hi
    rw [hother i hi.1]
    exact h.others i hi.2
  · rcases List.mem_append.1 hmem with hmem | hmem
    · obtain ⟨i, hi, hkey⟩ := h.sounding key hmem
      exact ⟨i, Finset.mem_insert_of_mem hi, by rwa [hother i (hfresh i hi)]⟩
    · obtain rfl := List.mem_singleton.1 hmem
      exact ⟨claimed, Finset.mem_insert_self .., by rw [hsame, haddress]⟩
  · by_cases heq : i = claimed
    · rw [heq, hsame, htime]
      rfl
    · rw [hother i heq]
      exact h.timed i

/-- Note by note, as long as there is room. -/
theorem exists_sounds (engine : StockEngine)
    (hrendered : ∀ i, (voices i).active = true → Double.lt 0 (voices i).age = true)
    (htimed : Timed voices) {notes : List ChordNote} (hlength : notes.length ≤ 32)
    (hvelocity : ∀ note ∈ notes, Double.lt 0 note.2 = true) :
    ∃ fresh, Sounds (engine.chord voices notes)
      (notes.map fun note => engine.storedKey note.1.key) fresh := by
  induction notes using List.reverseRecOn with
  | nil =>
    -- before the chord every voice that is active was rendered
    refine ⟨∅, rfl, nofun, fun i _ => ?_, nofun, htimed⟩
    cases hactive : (voices i).active with
    | false => exact .inl hactive
    | true => exact .inr (hrendered i hactive)
  | append_singleton notes note ih =>
    rw [List.length_append, List.length_singleton] at hlength
    obtain ⟨fresh, h⟩ := ih (by omega)
      (fun note hmem => hvelocity note (List.mem_append_left _ hmem))
    obtain ⟨fresh', h'⟩ := h.noteOn engine (by rw [List.length_map]; omega)
      (hvelocity note (by simp))
    refine ⟨fresh', ?_⟩
    rw [chord, List.foldl_append, List.map_append]
    exact h'

theorem keySounding_of_sounds {keys : List ℤ} {fresh : Finset (Fin 32)}
    (h : Sounds voices keys fresh) {key : ℤ} (hkey : key ∈ keys) :
    voices.keySounding key = true := by
  obtain ⟨i, hi, haddress⟩ := h.sounding key hkey
  obtain ⟨hheld, -⟩ := h.held i hi
  refine List.any_eq_true.2 ⟨i, List.mem_finRange i, ?_⟩
  simp [hheld.1, hheld.2, haddress]

/-- **A chord sounds whole**: every key of at most 32 note-ons sounds, and a voice still held goes
only when no voice is free and no released one was rendered. -/
theorem chord_sounds (engine : StockEngine) (voices : StockVoices) (notes : List ChordNote)
    (hrendered : ∀ i, (voices i).active = true → Double.lt 0 (voices i).age = true)
    (htimed : Timed voices) (hlength : notes.length ≤ 32)
    (hvelocity : ∀ note ∈ notes, Double.lt 0 note.2 = true) :
    (∀ note ∈ notes, 0 ≤ note.1.key → note.1.key ≤ 127 →
      (engine.chord voices notes).keySounding note.1.key = true) ∧
    ∀ (before : List ChordNote) (note : ChordNote), before ++ [note] <+: notes → ∀ i : Fin 32,
      (engine.chord voices before i).Held →
      engine.noteOn (engine.chord voices before) note i ≠ engine.chord voices before i →
      ∀ j, (engine.chord voices before j).active = true ∧
        ¬((engine.chord voices before j).released = true ∧
          Double.lt 0 (engine.chord voices before j).age = true) := by
  refine ⟨fun note hnote hlow hhigh => ?_, fun before note hpart i hheld hstolen j => ?_⟩
  · obtain ⟨fresh, h⟩ := exists_sounds engine hrendered htimed hlength hvelocity
    refine keySounding_of_sounds h (List.mem_map.2 ⟨note, hnote, ?_⟩)
    exact storedKey_eq engine hlow hhigh
  have hsub : ∀ other ∈ before ++ [note], other ∈ notes := fun other hother =>
    hpart.subset hother
  have hshort : before.length ≤ 32 := by
    have := hpart.length_le
    rw [List.length_append] at this
    omega
  obtain ⟨fresh, h⟩ := exists_sounds engine hrendered htimed hshort
    (fun other hother => hvelocity other (hsub other (List.mem_append_left _ hother)))
  obtain ⟨voice, hon, -⟩ := noteOn_eq engine (engine.chord voices before)
    (hvelocity note (hsub note (by simp)))
  -- the voice that changed is the one that was claimed
  have hclaim : engine.claim (engine.chord voices before) = some i := by
    rw [hon] at hstolen
    cases hclaim : engine.claim (engine.chord voices before) with
    | none =>
      rw [hclaim] at hstolen
      exact absurd rfl hstolen
    | some k =>
      rw [hclaim] at hstolen
      by_contra hne
      refine hstolen (Function.update_of_ne (fun heq => hne ?_) ..)
      rw [heq]
  exact claim_held h.timed hclaim hheld j

/-- Two keys struck at once on a silent piano. -/
theorem chord_sounds_twoKeys :
    (piano.chord (fun _ => {}) [(⟨1, 0, 60⟩, .finite 1), (⟨2, 0, 64⟩, .finite 1)]).keySounding
      64 = true :=
  (chord_sounds piano (fun _ => {}) [(⟨1, 0, 60⟩, .finite 1), (⟨2, 0, 64⟩, .finite 1)]
    (fun _ h => nomatch h) (fun _ => rfl) (by decide) (by decide)).1
    (⟨2, 0, 64⟩, .finite 1) (by simp) (by decide) (by decide)

end StockEngine

end OneBeat
