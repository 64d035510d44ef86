import Mathlib.Data.List.Basic
import Mathlib.Data.List.Infix

/-!
# Records in a stream

A reader looks at the front of what it holds and finds a whole record, or too little of one, or
something that is none.  What comes later changes the answer only where it was too little.

* `Parses.unique` : a stream reads as one list of records.
* `Parses.append`, `Parses.append_broken` : reading part of it first reads the same.
* `parses_flatMap` : and what was written whole is read back, each record once.
-/

namespace OneBeat

/-- What stands at the front of a stream. -/
inductive StreamFront (ρ : Type*)
  | short
  | broken
  | record (record : ρ) (size : ℕ)

/-- How to find the record at the front. -/
structure RecordStream (β ρ : Type*) where
  front : List β → StreamFront ρ
  size_le {bytes : List β} {record : ρ} {size : ℕ} :
    front bytes = .record record size → 0 < size ∧ size ≤ bytes.length
  broken_append {bytes : List β} (later : List β) :
    front bytes = .broken → front (bytes ++ later) = .broken
  record_append {bytes : List β} {record : ρ} {size : ℕ} (later : List β) :
    front bytes = .record record size → front (bytes ++ later) = .record record size

namespace RecordStream

variable {β ρ : Type*} {R : RecordStream β ρ} {bytes later rest : List β} {records : List ρ}

/-- The records of a stream, and what is left when no whole one is there any more; nothing is left
of a stream that breaks. -/
inductive Parses (R : RecordStream β ρ) : List β → List ρ → Option (List β) → Prop
  | short {bytes : List β} : R.front bytes = .short → Parses R bytes [] (some bytes)
  | broken {bytes : List β} : R.front bytes = .broken → Parses R bytes [] none
  | record {bytes : List β} {record : ρ} {size : ℕ} {records : List ρ} {left : Option (List β)} :
      R.front bytes = .record record size → Parses R (bytes.drop size) records left →
      Parses R bytes (record :: records) left

theorem Parses.unique {records' : List ρ} {left left' : Option (List β)}
    (h : R.Parses bytes records left) (h' : R.Parses bytes records' left') :
    records = records' ∧ left = left' := by
  induction h generalizing records' left' with
  | short hfront =>
    cases h' with
    | short _ => exact ⟨rfl, rfl⟩
    | broken hfront' | record hfront' => cases hfront.symm.trans hfront'
  | broken hfront =>
    cases h' with
    | short hfront' | record hfront' => cases hfront.symm.trans hfront'
    | broken _ => exact ⟨rfl, rfl⟩
  | record hfront _ ih =>
    cases h' with
    | short hfront' | broken hfront' => cases hfront.symm.trans hfront'
    | record hfront' hrest =>
      cases hfront.symm.trans hfront'
      obtain ⟨rfl, rfl⟩ := ih hrest
      exact ⟨rfl, rfl⟩

/-- A stream that breaks is broken, whatever comes later. -/
theorem Parses.append_broken (h : R.Parses bytes records none) (later : List β) :
    R.Parses (bytes ++ later) records none := by
  generalize hleft : (none : Option (List β)) = left at h
  induction h with
  | short _ => cases hleft
  | broken hfront => exact .broken (R.broken_append later hfront)
  | record hfront _ ih =>
    refine .record (R.record_append later hfront) ?_
    rw [List.drop_append_of_le_length (R.size_le hfront).2]
    exact ih hleft

/-- **What is left is read on** when more comes. -/
theorem Parses.append {records' : List ρ} {left : Option (List β)}
    (h : R.Parses bytes records (some rest)) (h' : R.Parses (rest ++ later) records' left) :
    R.Parses (bytes ++ later) (records ++ records') left := by
  generalize hrest : some rest = r at h
  induction h with
  | short _ =>
    obtain rfl := Option.some_inj.1 hrest
    exact h'
  | broken _ => cases hrest
  | record hfront _ ih =>
    refine .record (R.record_append later hfront) ?_
    rw [List.drop_append_of_le_length (R.size_le hfront).2]
    exact ih hrest

/-- There is no whole record at the front of what is left. -/
theorem Parses.front_left (h : R.Parses bytes records (some rest)) : R.front rest = .short := by
  generalize hrest : some rest = r at h
  induction h with
  | short hfront =>
    obtain rfl := Option.some_inj.1 hrest
    exact hfront
  | broken _ => cases hrest
  | record _ _ ih => exact ih hrest

/-- A way of writing records that are found at the front again. -/
def Writes (R : RecordStream β ρ) (write : ρ → List β) (record : ρ) : Prop :=
  R.front (write record) = .record record (write record).length

/-- There is no whole record in part of one. -/
theorem Writes.front_part {write : ρ → List β} {record : ρ} (h : R.Writes write record)
    (hpart : rest <+: write record) (hlength : rest.length < (write record).length) :
    R.front rest = .short := by
  obtain ⟨later, hlater⟩ := hpart
  cases hfront : R.front rest with
  | short => rfl
  | broken =>
    have hbroken := R.broken_append later hfront
    rw [hlater, h] at hbroken
    cases hbroken
  | record other size =>
    have hother := R.record_append later hfront
    rw [hlater, h] at hother
    cases hother
    exact absurd (R.size_le hfront).2 (not_le.2 hlength)

/-- **What was written whole is read back**, each record once and in order. -/
theorem parses_flatMap {write : ρ → List β} (hwrite : ∀ record ∈ records, R.Writes write record)
    (hrest : R.front rest = .short) :
    R.Parses (records.flatMap write ++ rest) records (some rest) := by
  induction records with
  | nil => exact .short hrest
  | cons record records ih =>
    obtain ⟨hrecord, hrecords⟩ := List.forall_mem_cons.1 hwrite
    rw [List.flatMap_cons, List.append_assoc]
    refine .record (R.record_append _ hrecord) ?_
    rw [List.drop_left]
    exact ih hrecords

end RecordStream

end OneBeat
