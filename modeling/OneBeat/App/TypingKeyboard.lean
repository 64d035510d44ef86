import Mathlib.Data.Finset.Basic
import Mathlib.Data.List.Induction
import OneBeat.Lib.TransitionSystem

/-!
# The typing keyboard

`features/plugins/typing_keyboard.dart`: the letter rows play notes while the window around them has
the focus.

A run is the events of the keyboard and of the focus, in any order; a key event reaches the handler
only with the focus.  The notes that were sent are kept, the last one first.

* `TypingKeyboard.Plays` : what is asked of the notes.
* `TypingKeyboard.plays_of_run` : no note hangs in a run in which no key is let go under a modifier
  or while another key holds its pitch.
-/

namespace OneBeat

/-- The keys that the keyboard knows, and all others. -/
inductive LogicalKey
  | keyZ | keyS | keyX | keyD | keyC | keyV | keyG | keyB | keyH | keyN | keyJ | keyM
  | comma | keyL | period | semicolon | slash
  | keyQ | digit2 | keyW | digit3 | keyE | keyR | digit5 | keyT | digit6 | keyY | digit7
  | keyU | keyI | digit9 | keyO | digit0 | keyP
  | bracketLeft | bracketRight
  | other (id : ℕ)
  deriving DecidableEq

/-- `kTypingKeyboardSemitones` -/
def LogicalKey.semitone : LogicalKey → Option ℤ
  | keyZ => some 0
  | keyS => some 1
  | keyX => some 2
  | keyD => some 3
  | keyC => some 4
  | keyV => some 5
  | keyG => some 6
  | keyB => some 7
  | keyH => some 8
  | keyN => some 9
  | keyJ => some 10
  | keyM => some 11
  | comma => some 12
  | keyL => some 13
  | period => some 14
  | semicolon => some 15
  | slash => some 16
  | keyQ => some 12
  | digit2 => some 13
  | keyW => some 14
  | digit3 => some 15
  | keyE => some 16
  | keyR => some 17
  | digit5 => some 18
  | keyT => some 19
  | digit6 => some 20
  | keyY => some 21
  | digit7 => some 22
  | keyU => some 23
  | keyI => some 24
  | digit9 => some 25
  | keyO => some 26
  | digit0 => some 27
  | keyP => some 28
  | _ => none

/-- The modifiers that are held when an event arrives. -/
structure Modifiers where
  isMetaPressed : Bool := false
  isControlPressed : Bool := false
  isAltPressed : Bool := false
  deriving DecidableEq

def Modifiers.any (modifiers : Modifiers) : Bool :=
  modifiers.isMetaPressed || modifiers.isControlPressed || modifiers.isAltPressed

inductive KeyEvent
  | keyDown (key : LogicalKey)
  | keyRepeat (key : LogicalKey)
  | keyUp (key : LogicalKey)
  deriving DecidableEq

def KeyEvent.key : KeyEvent → LogicalKey
  | keyDown key | keyRepeat key | keyUp key => key

/-- A note that was sent. -/
inductive SentNote
  | on (note : ℤ)
  | off (note : ℤ)
  deriving DecidableEq

/-- What happens around the widget. -/
inductive TypingEvent
  | key (event : KeyEvent) (modifiers : Modifiers)
  | focus (hasFocus : Bool)
  | dispose
  deriving DecidableEq

/-- The state of the widget, and what is true around it: whether it has the focus, which keys are
down and what was sent. -/
structure TypingKeyboard where
  baseOctave : ℤ := 4
  octaveShift : ℤ := 0
  /-- Each key that holds a note, and the note it started. -/
  held : List (LogicalKey × ℤ) := []
  hasFocus : Bool := false
  down : List LogicalKey := []
  sent : List SentNote := []
  deriving DecidableEq

namespace TypingKeyboard

def clampTo (value low high : ℤ) : ℤ := max low (min value high)

def baseKey (s : TypingKeyboard) : ℤ := clampTo ((s.baseOctave + s.octaveShift) * 12) 0 127

/-- `_releaseAll` -/
def releaseAll (s : TypingKeyboard) : TypingKeyboard :=
  { s with
    held := []
    sent := s.held.foldl (fun sent entry => .off entry.2 :: sent) s.sent }

/-- `_onFocusChange` -/
def onFocusChange (s : TypingKeyboard) (hasFocus : Bool) : TypingKeyboard :=
  if hasFocus then s else s.releaseAll

/-- The note that a key holds. -/
def heldBy (s : TypingKeyboard) (key : LogicalKey) : Option ℤ :=
  (s.held.find? fun entry => entry.1 = key).map Prod.snd

/-- A key goes down. -/
def onKeyDown (s : TypingKeyboard) (key : LogicalKey) (semitone : ℤ) : TypingKeyboard :=
  if (s.heldBy key).isSome then s
  else
    let note := s.baseKey + semitone
    if note < 0 ∨ 127 < note then s
    else { s with held := s.held ++ [(key, note)], sent := .on note :: s.sent }

/-- A key goes up. -/
def onKeyUp (s : TypingKeyboard) (key : LogicalKey) : TypingKeyboard :=
  match s.heldBy key with
  | none => s
  | some note =>
    { s with
      held := s.held.filter fun entry => entry.1 ≠ key
      sent := .off note :: s.sent }

/-- `_onKey`; the octave keys act when they go down, and a repeat does nothing. -/
def onKey (s : TypingKeyboard) (event : KeyEvent) (modifiers : Modifiers) : TypingKeyboard :=
  if modifiers.any then s
  else
    match event with
    | .keyDown .bracketLeft => { s with octaveShift := clampTo (s.octaveShift - 1) (-4) 4 }
    | .keyDown .bracketRight => { s with octaveShift := clampTo (s.octaveShift + 1) (-4) 4 }
    | .keyDown key =>
      match key.semitone with
      | none => s
      | some semitone => s.onKeyDown key semitone
    | .keyUp key => if key.semitone.isSome then s.onKeyUp key else s
    | .keyRepeat _ => s

/-- The keys that are down after an event. -/
def pressed (down : List LogicalKey) : KeyEvent → List LogicalKey
  | .keyDown key => key :: down
  | .keyRepeat _ => down
  | .keyUp key => down.filter (· ≠ key)

def step (s : TypingKeyboard) : TypingEvent → TypingKeyboard
  | .key event modifiers =>
    let s := { s with down := pressed s.down event }
    if s.hasFocus then s.onKey event modifiers else s
  | .focus hasFocus => { s with hasFocus }.onFocusChange hasFocus
  | .dispose => { s.releaseAll with hasFocus := false }

def system : TransitionSystem TypingKeyboard TypingEvent where
  step s event := some (s.step event)

/-! ### What is asked -/

/-- The note sounds: the last that was sent about it is a note-on. -/
def sounds (sent : List SentNote) (note : ℤ) : Bool :=
  match sent with
  | [] => false
  | .on other :: sent => other = note || sounds sent note
  | .off other :: sent => other ≠ note && sounds sent note

/-- Every note-on has its one note-off, or a key that holds the note; a pitch sounds while a key
that is down holds it; and nothing is held or sounds once all keys are up. -/
structure Plays (s : TypingKeyboard) : Prop where
  matched : ∀ note, s.sent.count (.on note) =
    s.sent.count (.off note) + (s.held.map Prod.snd).count note
  sounding : ∀ key note, (key, note) ∈ s.held → key ∈ s.down → sounds s.sent note = true
  silent : s.down = [] → s.held = [] ∧ ∀ note, sounds s.sent note = false

/-- No key that holds a note is let go under a modifier, or while another key holds its pitch. -/
def LetsGo (s : TypingKeyboard) : TypingEvent → Prop
  | .key (.keyUp key) modifiers => ∀ note, s.heldBy key = some note →
      modifiers.any = false ∧ ∀ other, s.heldBy other = some note → other = key
  | _ => True

/-- What holds all along: the keys that hold notes are down and are told apart, without the focus
there are none, and the pitches they hold are the ones that sound. -/
structure Holds (s : TypingKeyboard) : Prop where
  matched : ∀ note, s.sent.count (.on note) =
    s.sent.count (.off note) + (s.held.map Prod.snd).count note
  distinct : (s.held.map Prod.fst).Nodup
  focused : s.hasFocus = false → s.held = []
  down : ∀ key note, (key, note) ∈ s.held → key ∈ s.down
  mapped : ∀ key note, (key, note) ∈ s.held → key.semitone.isSome = true
  sounding : ∀ note, sounds s.sent note = true ↔ note ∈ s.held.map Prod.snd

variable {s : TypingKeyboard}

theorem Holds.plays (h : s.Holds) : s.Plays where
  matched := h.matched
  sounding key note hmem _ := (h.sounding note).2 (List.mem_map.2 ⟨(key, note), hmem, rfl⟩)
  silent hdown := by
    have hheld : s.held = [] := List.eq_nil_iff_forall_not_mem.2 fun entry hentry => by
      have := h.down entry.1 entry.2 hentry
      rw [hdown] at this
      cases this
    refine ⟨hheld, fun note => ?_⟩
    rw [Bool.eq_false_iff, Ne, h.sounding, hheld]
    exact List.not_mem_nil

/-! ### Runs -/

theorem mem_of_heldBy {key : LogicalKey} {note : ℤ} (h : s.heldBy key = some note) :
    (key, note) ∈ s.held := by
  obtain ⟨entry, hfind, rfl⟩ := Option.map_eq_some_iff.1 h
  obtain rfl : entry.1 = key := by simpa using List.find?_some hfind
  exact List.mem_of_find?_eq_some hfind

theorem not_mem_of_heldBy {key : LogicalKey} (h : s.heldBy key = none) (note : ℤ) :
    (key, note) ∉ s.held := by
  intro hmem
  have hfind := List.find?_eq_none.1 (Option.map_eq_none_iff.1 h) _ hmem
  simp at hfind

theorem Holds.heldBy_of_mem (h : s.Holds) {key : LogicalKey} {note : ℤ}
    (hmem : (key, note) ∈ s.held) : s.heldBy key = some note := by
  cases hheld : s.heldBy key with
  | none => exact absurd hmem (not_mem_of_heldBy hheld note)
  | some other =>
    have hsame := List.inj_on_of_nodup_map h.distinct (mem_of_heldBy hheld) hmem rfl
    exact congrArg (fun entry => some entry.2) hsame

/-- What is held and sent is left as it is. -/
theorem Holds.moved (h : s.Holds) {t : TypingKeyboard} (hheld : t.held = s.held)
    (hsent : t.sent = s.sent) (hfocus : t.hasFocus = false → s.held = [])
    (hdown : ∀ key note, (key, note) ∈ s.held → key ∈ t.down) : t.Holds where
  matched note := by
    rw [hheld, hsent]
    exact h.matched note
  distinct := by
    rw [hheld]
    exact h.distinct
  focused hunfocused := by
    rw [hheld]
    exact hfocus hunfocused
  down key note hmem := hdown key note (hheld ▸ hmem)
  mapped key note hmem := h.mapped key note (hheld ▸ hmem)
  sounding note := by
    rw [hheld, hsent]
    exact h.sounding note

/-! #### Everything is let go -/

theorem count_on_cons_off (sent : List SentNote) (note other : ℤ) :
    (SentNote.off other :: sent).count (.on note) = sent.count (.on note) :=
  List.count_cons_of_ne (by simp)

theorem count_off_cons_on (sent : List SentNote) (note other : ℤ) :
    (SentNote.on other :: sent).count (.off note) = sent.count (.off note) :=
  List.count_cons_of_ne (by simp)

theorem count_on_foldl_off (held : List (LogicalKey × ℤ)) (sent : List SentNote) (note : ℤ) :
    (held.foldl (fun sent entry => .off entry.2 :: sent) sent).count (.on note) =
      sent.count (.on note) := by
  induction held generalizing sent with
  | nil => rfl
  | cons entry held ih =>
    rw [List.foldl_cons, ih, count_on_cons_off]

theorem count_off_foldl_off (held : List (LogicalKey × ℤ)) (sent : List SentNote) (note : ℤ) :
    (held.foldl (fun sent entry => .off entry.2 :: sent) sent).count (.off note) =
      sent.count (.off note) + (held.map Prod.snd).count note := by
  induction held generalizing sent with
  | nil => rfl
  | cons entry held ih =>
    rw [List.foldl_cons, ih, List.map_cons, List.count_cons, List.count_cons]
    simp only [beq_iff_eq, SentNote.off.injEq]
    omega

theorem sounds_foldl_off (held : List (LogicalKey × ℤ)) (sent : List SentNote) (note : ℤ) :
    sounds (held.foldl (fun sent entry => .off entry.2 :: sent) sent) note = true ↔
      sounds sent note = true ∧ note ∉ held.map Prod.snd := by
  induction held generalizing sent with
  | nil => simp
  | cons entry held ih =>
    rw [List.foldl_cons, ih, sounds, Bool.and_eq_true, decide_eq_true_eq, List.map_cons,
      List.mem_cons, not_or]
    constructor
    · rintro ⟨⟨hne, hsounds⟩, hnot⟩
      exact ⟨hsounds, Ne.symm hne, hnot⟩
    · rintro ⟨hsounds, hne, hnot⟩
      exact ⟨⟨Ne.symm hne, hsounds⟩, hnot⟩

theorem Holds.releaseAll (h : s.Holds) : s.releaseAll.Holds where
  matched note := by
    have := h.matched note
    rw [TypingKeyboard.releaseAll]
    dsimp only
    rw [count_on_foldl_off, count_off_foldl_off, List.map_nil, List.count_nil]
    omega
  distinct := List.nodup_nil
  focused _ := rfl
  down _ _ := nofun
  mapped _ _ := nofun
  sounding note := by
    rw [TypingKeyboard.releaseAll]
    dsimp only
    rw [sounds_foldl_off, h.sounding]
    simp

/-! #### A key goes down -/

theorem Holds.onKeyDown (h : s.Holds) (hfocus : s.hasFocus = true) {key : LogicalKey}
    {semitone : ℤ} (hsemitone : key.semitone = some semitone) (hdown : key ∈ s.down) :
    (s.onKeyDown key semitone).Holds := by
  unfold TypingKeyboard.onKeyDown
  dsimp only
  split_ifs with hheld hrange
  · exact h
  · exact h
  rw [Bool.not_eq_true, Option.isSome_eq_false_iff, Option.isNone_iff_eq_none] at hheld
  set note := s.baseKey + semitone
  refine ⟨fun other => ?_, ?_, fun hunfocused => ?_, fun k n hmem => ?_, fun k n hmem => ?_,
    fun other => ?_⟩
  · have := h.matched other
    rw [List.map_append, List.count_append, count_off_cons_on]
    simp only [List.map_cons, List.map_nil, List.count_cons, List.count_nil, beq_iff_eq,
      SentNote.on.injEq]
    omega
  · rw [List.map_append, List.nodup_append]
    refine ⟨h.distinct, List.nodup_singleton _, fun k hk k' hk' heq => ?_⟩
    obtain rfl := List.mem_singleton.1 hk'
    obtain ⟨⟨k, n⟩, hmem, rfl⟩ := List.mem_map.1 hk
    exact not_mem_of_heldBy hheld n (heq ▸ hmem)
  · rw [hfocus] at hunfocused
    cases hunfocused
  · rcases List.mem_append.1 hmem with hmem | hmem
    · exact h.down k n hmem
    · cases List.mem_singleton.1 hmem
      exact hdown
  · rcases List.mem_append.1 hmem with hmem | hmem
    · exact h.mapped k n hmem
    · cases List.mem_singleton.1 hmem
      rw [hsemitone]
      rfl
  · rw [sounds, Bool.or_eq_true, decide_eq_true_eq, h.sounding, List.map_append, List.mem_append,
      or_comm]
    simp [eq_comm]

/-! #### A key goes up -/

/-- The entry of a key, and the others. -/
theorem perm_filter_key {held : List (LogicalKey × ℤ)} (hdistinct : (held.map Prod.fst).Nodup)
    {key : LogicalKey} {note : ℤ} (hmem : (key, note) ∈ held) :
    held.Perm ((key, note) :: held.filter fun entry => entry.1 ≠ key) := by
  induction held with
  | nil => cases hmem
  | cons entry held ih =>
    rw [List.map_cons, List.nodup_cons] at hdistinct
    rcases List.mem_cons.1 hmem with rfl | hmem
    · rw [List.filter_cons_of_neg (by simp), List.filter_eq_self.2]
      intro other hother
      have : other.1 ≠ key := fun heq =>
        hdistinct.1 (List.mem_map.2 ⟨other, hother, heq⟩)
      simpa using this
    · have hne : entry.1 ≠ key := fun heq =>
        hdistinct.1 (List.mem_map.2 ⟨(key, note), hmem, heq.symm⟩)
      rw [List.filter_cons_of_pos (by simpa using hne)]
      exact ((ih hdistinct.2 hmem).cons entry).trans (List.Perm.swap ..)

theorem Holds.onKeyUp (h : s.Holds) (hfocus : s.hasFocus = true) {key : LogicalKey} {note : ℤ}
    (hheld : s.heldBy key = some note)
    (halone : ∀ other, s.heldBy other = some note → other = key) {down : List LogicalKey}
    (hdown : ∀ k ∈ s.down, k ≠ key → k ∈ down) :
    Holds { s with
      down
      held := s.held.filter fun entry => entry.1 ≠ key
      sent := .off note :: s.sent } := by
  have hperm := perm_filter_key h.distinct (mem_of_heldBy hheld)
  have hmem {k : LogicalKey} {n : ℤ} (hkn : (k, n) ∈ s.held.filter fun entry => entry.1 ≠ key) :
      (k, n) ∈ s.held ∧ k ≠ key := by
    simpa using List.mem_filter.1 hkn
  refine ⟨fun other => ?_, ?_, fun hunfocused => ?_, fun k n hkn => ?_, fun k n hkn => ?_,
    fun other => ?_⟩
  · have hmatched := h.matched other
    have hcount := (hperm.map Prod.snd).count_eq other
    rw [List.map_cons, List.count_cons] at hcount
    dsimp only at hcount ⊢
    rw [count_on_cons_off, List.count_cons]
    simp only [beq_iff_eq, SentNote.off.injEq] at hcount ⊢
    omega
  · exact h.distinct.sublist ((List.filter_sublist).map _)
  · rw [show s.hasFocus = false from hunfocused] at hfocus
    cases hfocus
  · exact hdown k (h.down k n (hmem hkn).1) (hmem hkn).2
  · exact h.mapped k n (hmem hkn).1
  · have hsplit := (hperm.map Prod.snd).mem_iff (a := other)
    rw [List.map_cons, List.mem_cons] at hsplit
    have hnot : note ∉ (s.held.filter fun entry => entry.1 ≠ key).map Prod.snd := by
      intro hnote
      obtain ⟨⟨k, n⟩, hkn, rfl⟩ := List.mem_map.1 hnote
      exact (hmem hkn).2 (halone k (h.heldBy_of_mem (hmem hkn).1))
    dsimp only
    rw [sounds, Bool.and_eq_true, decide_eq_true_eq, h.sounding, hsplit]
    constructor
    · rintro ⟨hne, rfl | hother⟩
      · exact absurd rfl hne
      · exact hother
    · intro hother
      exact ⟨fun heq => hnot (heq ▸ hother), .inr hother⟩

/-- A key that holds nothing changes what is down and nothing else. -/
theorem Holds.keyMoved (h : s.Holds) (hfocus : s.hasFocus = true) (event : KeyEvent)
    (hfree : ∀ key, event = .keyUp key → s.heldBy key = none) {t : TypingKeyboard}
    (hheld : t.held = s.held) (hsent : t.sent = s.sent) (hthere : t.hasFocus = s.hasFocus)
    (hdown : t.down = pressed s.down event) : t.Holds := by
  refine h.moved hheld hsent (fun hunfocused => ?_) fun key note hmem => ?_
  · rw [hthere, hfocus] at hunfocused
    cases hunfocused
  · have hwas := h.down key note hmem
    rw [hdown]
    cases event with
    | keyDown other => exact List.mem_cons_of_mem _ hwas
    | keyRepeat => exact hwas
    | keyUp other =>
      refine List.mem_filter.2 ⟨hwas, decide_eq_true fun heq => ?_⟩
      exact not_mem_of_heldBy (hfree other rfl) note (heq ▸ hmem)

theorem Holds.keyDown (h : s.Holds) (hfocus : s.hasFocus = true) (key : LogicalKey)
    (modifiers : Modifiers) :
    (onKey { s with down := pressed s.down (.keyDown key) } (.keyDown key) modifiers).Holds := by
  have hdown : Holds { s with down := pressed s.down (.keyDown key) } :=
    h.keyMoved hfocus (.keyDown key) nofun rfl rfl rfl rfl
  unfold TypingKeyboard.onKey
  split_ifs
  · exact hdown
  split
  · exact h.keyMoved hfocus (.keyDown key) nofun rfl rfl rfl rfl
  · exact h.keyMoved hfocus (.keyDown key) nofun rfl rfl rfl rfl
  next other hleft hright hother =>
    obtain rfl := KeyEvent.keyDown.inj hother
    split
    · exact hdown
    next semitone hsemitone =>
      exact hdown.onKeyDown hfocus hsemitone (List.mem_cons_self ..)
  · next hother => cases hother
  · next hother => cases hother

theorem onKeyUp_of_free {key : LogicalKey} (h : s.heldBy key = none) (down : List LogicalKey) :
    onKeyUp { s with down } key = { s with down } := by
  unfold TypingKeyboard.onKeyUp
  change (match s.heldBy key with | none => _ | some note => _) = _
  rw [h]

theorem onKeyUp_of_held {key : LogicalKey} {note : ℤ} (h : s.heldBy key = some note)
    (down : List LogicalKey) :
    onKeyUp { s with down } key =
      { s with
        down
        held := s.held.filter fun entry => entry.1 ≠ key
        sent := .off note :: s.sent } := by
  unfold TypingKeyboard.onKeyUp
  change (match s.heldBy key with | none => _ | some note => _) = _
  rw [h]

theorem Holds.keyUp (h : s.Holds) (hfocus : s.hasFocus = true) (key : LogicalKey)
    (modifiers : Modifiers) (hlets : s.LetsGo (.key (.keyUp key) modifiers)) :
    (onKey { s with down := pressed s.down (.keyUp key) } (.keyUp key) modifiers).Holds := by
  cases hheld : s.heldBy key with
  | none =>
    have hfree : ∀ other, KeyEvent.keyUp key = .keyUp other → s.heldBy other = none :=
      fun other heq => KeyEvent.keyUp.inj heq ▸ hheld
    have hmoved : Holds { s with down := pressed s.down (.keyUp key) } :=
      h.keyMoved hfocus (.keyUp key) hfree rfl rfl rfl rfl
    unfold TypingKeyboard.onKey
    dsimp only
    rw [onKeyUp_of_free hheld]
    split_ifs <;> exact hmoved
  | some note =>
    obtain ⟨hplain, halone⟩ := hlets note hheld
    have hmapped := h.mapped key note (mem_of_heldBy hheld)
    unfold TypingKeyboard.onKey
    dsimp only
    rw [hplain, if_neg Bool.false_ne_true, if_pos hmapped, onKeyUp_of_held hheld]
    refine h.onKeyUp hfocus hheld halone fun k hk hne => ?_
    exact List.mem_filter.2 ⟨hk, decide_eq_true hne⟩

/-- **A step keeps what holds**, where a key is let go as it is asked. -/
theorem Holds.step (h : s.Holds) (event : TypingEvent) (hlets : s.LetsGo event) :
    (s.step event).Holds := by
  cases event with
  | focus hasFocus =>
    cases hasFocus with
    | true => exact h.moved rfl rfl nofun h.down
    | false =>
      have hreleased := h.releaseAll
      exact hreleased.moved rfl rfl (fun _ => rfl) hreleased.down
  | dispose =>
    have hreleased := h.releaseAll
    exact hreleased.moved rfl rfl (fun _ => rfl) hreleased.down
  | key event modifiers =>
    rw [TypingKeyboard.step]
    dsimp only
    by_cases hfocus : s.hasFocus = true
    case neg =>
      -- the event goes elsewhere, and nothing is held
      rw [if_neg hfocus]
      refine h.moved rfl rfl (fun hunfocused => h.focused hunfocused) fun key note hmem => ?_
      rw [h.focused (by simpa using hfocus)] at hmem
      cases hmem
    case pos =>
      rw [if_pos hfocus]
      cases event with
      | keyRepeat key =>
        unfold TypingKeyboard.onKey
        split_ifs <;> exact h.keyMoved hfocus (.keyRepeat key) nofun rfl rfl rfl rfl
      | keyDown key => exact h.keyDown hfocus key modifiers
      | keyUp key => exact h.keyUp hfocus key modifiers hlets

/-- The widget before anything has happened. -/
def start (baseOctave : ℤ) (autofocus : Bool) : TypingKeyboard :=
  { baseOctave, hasFocus := autofocus }

theorem holds_start (baseOctave : ℤ) (autofocus : Bool) : (start baseOctave autofocus).Holds where
  matched _ := rfl
  distinct := List.nodup_nil
  focused _ := rfl
  down _ _ := nofun
  mapped _ _ := nofun
  sounding note := by simp [start, sounds]

/-- **No note hangs** in any state of a run in which no key that holds a note is let go under a
modifier, or while another key holds its pitch. -/
theorem plays_of_run {baseOctave : ℤ} {autofocus : Bool} {events : List TypingEvent}
    (hrun : system.run (start baseOctave autofocus) events = some s)
    (hlets : ∀ before event s', before ++ [event] <+: events →
      system.run (start baseOctave autofocus) before = some s' → s'.LetsGo event) : s.Plays := by
  refine Holds.plays ?_
  induction events using List.reverseRecOn generalizing s with
  | nil =>
    obtain rfl := Option.some_inj.1 hrun
    exact holds_start baseOctave autofocus
  | append_singleton events event ih =>
    obtain ⟨t, hbefore, hstep⟩ := TransitionSystem.run_concat_eq_some.1 hrun
    obtain rfl := Option.some_inj.1 hstep
    have ht := ih hbefore fun before event s' hpre =>
      hlets before event s' (hpre.trans (List.prefix_append _ _))
    exact ht.step event (hlets events event t (List.prefix_refl _) hbefore)

/-- A key goes down and up. -/
def oneKey : List TypingEvent := [.key (.keyDown .keyZ) {}, .key (.keyUp .keyZ) {}]

theorem plays_oneKey : ∃ s, system.run (start 4 true) oneKey = some s ∧ s.Plays := by
  refine ⟨_, rfl, plays_of_run (rfl : system.run (start 4 true) oneKey = some _)
    fun before event s' hpre hbefore => ?_⟩
  change before ++ [event] <+: [.key (.keyDown .keyZ) {}] ++ [.key (.keyUp .keyZ) {}] at hpre
  rcases List.prefix_concat_iff.1 hpre with heq | hpre
  · obtain ⟨rfl, rfl⟩ := List.append_singleton_inj.1 heq
    obtain rfl := Option.some_inj.1 hbefore
    refine fun note _ => ⟨rfl, fun other hother => ?_⟩
    exact congrArg Prod.fst (List.mem_singleton.1 (mem_of_heldBy hother))
  · change before ++ [event] <+: [] ++ _ at hpre
    obtain ⟨-, rfl⟩ := List.append_singleton_inj.1
      ((List.prefix_concat_iff.1 hpre).resolve_right (by simp))
    trivial

/-- **A note hangs** when its key is let go under a modifier, and one stops under a key that is
still down when another key of its pitch is let go. -/
theorem not_plays : (∃ s, system.run (start 4 true)
      [.key (.keyDown .keyZ) {}, .key (.keyUp .keyZ) { isMetaPressed := true }] = some s ∧
        s.down = [] ∧ sounds s.sent 48 = true ∧ ¬s.Plays) ∧
    ∃ s, system.run (start 4 true) [.key (.keyDown .comma) {}, .key (.keyDown .keyQ) {},
      .key (.keyUp .comma) {}] = some s ∧ s.down = [.keyQ] ∧ (.keyQ, 60) ∈ s.held ∧
        sounds s.sent 60 = false ∧ ¬s.Plays := by
  refine ⟨⟨_, rfl, by decide, by decide, fun h => ?_⟩,
    ⟨_, rfl, by decide, by decide, by decide, fun h => ?_⟩⟩
  · exact absurd ((h.silent (by decide)).2 48) (by decide)
  · exact absurd (h.sounding .keyQ 60 (by decide) (by decide)) (by decide)

end TypingKeyboard

end OneBeat
