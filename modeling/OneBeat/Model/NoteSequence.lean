import Mathlib.Data.List.Sort
import Mathlib.Data.Prod.Lex
import Mathlib.Algebra.Group.Int.Defs

/-!
# Notes and note sequences

`model/note_sequence.h`.  Musical time (`Ticks`) is an integer, a velocity has 14 bits.  A `NoteSequence` keeps its notes in the
canonical order (start, then key, then length) at all times, so the order is a field of the
structure; notes that agree in all three are ordered by how they came in.
-/

namespace OneBeat

def ticksPerQuarter : ℤ := 960

def ticksPerBarFourFour : ℤ := ticksPerQuarter * 4

/-- The largest tick of a 64-bit integer. -/
def maxTicks : ℤ := 2 ^ 63 - 1

def maxVelocity : ℕ := 16383

def defaultVelocity : ℕ := 100 * 129

/-- A note, relative to its pattern. -/
structure Note where
  start : ℤ := 0
  length : ℤ := 0
  key : ℤ := 60
  velocity : ℕ := defaultVelocity
  deriving DecidableEq, Inhabited

/-- What the model accepts as a note. -/
def isValidNote (note : Note) : Bool :=
  0 ≤ note.start && 0 < note.length && 0 ≤ note.key && note.key ≤ 127 &&
    note.velocity ≤ maxVelocity && note.length ≤ maxTicks - note.start

/-- The canonical order: start, then key, then length.  Velocity does not count. -/
def noteOrderBefore (a b : Note) : Bool :=
  if a.start ≠ b.start then a.start < b.start
  else if a.key ≠ b.key then a.key < b.key
  else a.length < b.length

/-- The fields the canonical order compares, most significant first. -/
def Note.place (note : Note) : ℤ ×ₗ ℤ ×ₗ ℤ := toLex (note.start, toLex (note.key, note.length))

theorem noteOrderBefore_iff {a b : Note} : noteOrderBefore a b = true ↔ a.place < b.place := by
  simp only [noteOrderBefore, Note.place, Prod.Lex.toLex_lt_toLex]
  split_ifs with h₁ h₂ <;> simp only [decide_eq_true_eq]
  · simp [h₁]
  · simp [not_not.1 h₁, h₂]
  · simp [not_not.1 h₁, not_not.1 h₂]

/-- `a` may stand before `b` in a canonical sequence. -/
def Note.le (a b : Note) : Prop := noteOrderBefore b a = false

instance : DecidableRel Note.le := fun _ _ => inferInstanceAs (Decidable (_ = _))

theorem Note.le_iff (a b : Note) : a.le b ↔ a.place ≤ b.place := by
  rw [Note.le, ← Bool.not_eq_true, noteOrderBefore_iff, not_lt]

instance : Std.Total Note.le := ⟨fun a b => by simpa only [Note.le_iff] using le_total _ _⟩

instance : IsTrans Note Note.le := ⟨fun a b c h h' => by
  rw [Note.le_iff] at *; exact h.trans h'⟩

/-- `std::is_sorted` in the canonical order. -/
def isSorted (notes : List Note) : Bool := decide (notes.Pairwise Note.le)

/-- `std::stable_sort` in the canonical order. -/
def stableSort (notes : List Note) : List Note := notes.insertionSort Note.le

/-- The notes of one instrument in a pattern, in canonical order. -/
structure NoteSequence where
  /-- The notes. -/
  notes : List Note
  /-- They are in canonical order. -/
  sorted : notes.Pairwise Note.le

namespace NoteSequence

theorem ext {a b : NoteSequence} (h : a.notes = b.notes) : a = b := by
  cases a; cases b; cases h; rfl

instance : DecidableEq NoteSequence := fun a b =>
  decidable_of_iff (a.notes = b.notes) ⟨ext, congrArg notes⟩

/-- The sequence without notes. -/
def nil : NoteSequence := ⟨[], List.Pairwise.nil⟩

instance : Inhabited NoteSequence := ⟨nil⟩

/-- No notes at all. -/
def empty (s : NoteSequence) : Bool := s.notes.isEmpty

def size (s : NoteSequence) : ℕ := s.notes.length

/-- Adopt a list of notes in any order: it is sorted unless it already is. -/
def assignSorted (notes : List Note) : NoteSequence :=
  if h : notes.Pairwise Note.le then ⟨notes, h⟩
  else ⟨stableSort notes, List.pairwise_insertionSort _ _⟩

/-- The end of the last note. -/
def contentEnd (s : NoteSequence) : ℤ :=
  s.notes.foldl (fun e note => max e (note.start + note.length)) 0

@[simp] theorem notes_assignSorted (notes : List Note) :
    (assignSorted notes).notes = stableSort notes := by
  unfold assignSorted
  split_ifs with h
  · exact (List.Pairwise.insertionSort_eq h).symm
  · rfl

@[simp] theorem notes_nil : nil.notes = [] := rfl

theorem empty_iff {s : NoteSequence} : s.empty = true ↔ s = nil := by
  rw [empty, List.isEmpty_iff]
  exact ⟨fun h => ext h, fun h => h ▸ rfl⟩

theorem stableSort_notes (s : NoteSequence) : stableSort s.notes = s.notes :=
  List.Pairwise.insertionSort_eq s.sorted

end NoteSequence

theorem perm_stableSort (notes : List Note) : (stableSort notes).Perm notes :=
  List.perm_insertionSort _ _

theorem sorted_stableSort (notes : List Note) : (stableSort notes).Pairwise Note.le :=
  List.pairwise_insertionSort _ _

end OneBeat
