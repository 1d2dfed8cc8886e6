-- SUMMARY: Records written one after another in a file that may be cut anywhere, and what a reader gets back.
import Mathlib.Data.List.Forall2
import Mathlib.Data.List.Infix

/-! A record that is cut makes the reader throw. -/

open List

namespace Records

variable {α β : Type*}

structure Reader (β α : Type*) where
  read : List β → Nat → Option (α × Nat)
  advances : ∀ {buf offset x next}, read buf offset = some (x, next) → offset < next

inductive Ending
  | stopped (offset : Nat)
  | threw
  deriving DecidableEq

/-- The records one after another, as long as the offset is in the file. -/
def Reader.readAll (r : Reader β α) (buf : List β) (offset : Nat) : List α × Ending :=
  if offset < buf.length then
    match _h : r.read buf offset with
    | some (x, next) =>
      let rest := r.readAll buf next
      (x :: rest.1, rest.2)
    | none => ([], .threw)
  else ([], .stopped offset)
termination_by buf.length - offset
decreasing_by
  have := r.advances _h
  omega

variable {r : Reader β α} {buf : List β} {offset : Nat}

theorem readAll_of_le (h : buf.length ≤ offset) : r.readAll buf offset = ([], .stopped offset) := by
  rw [Reader.readAll, if_neg (not_lt.mpr h)]

theorem readAll_none (hlt : offset < buf.length) (h : r.read buf offset = none) :
    r.readAll buf offset = ([], .threw) := by
  rw [Reader.readAll, if_pos hlt]
  split
  · simp_all
  · rfl

theorem readAll_some {x : α} {next : Nat} (hlt : offset < buf.length) (h : r.read buf offset = some (x, next)) :
    r.readAll buf offset = (x :: (r.readAll buf next).1, (r.readAll buf next).2) := by
  rw [Reader.readAll, if_pos hlt]
  split
  · simp_all
  · simp_all

/-- The bytes give the record wherever they stand, and make the reader throw where they are cut. -/
structure Reader.Reads (r : Reader β α) (x : α) (bytes : List β) : Prop where
  whole : ∀ before after, r.read (before ++ (bytes ++ after)) before.length = some (x, before.length + bytes.length)
  cut : ∀ before part, part <+: bytes → part ≠ bytes → r.read (before ++ part) before.length = none

theorem Reader.Reads.length_pos {x : α} {bytes : List β} (h : r.Reads x bytes) : 0 < bytes.length := by
  have := r.advances (h.whole [] [])
  simpa using this

/-- The complete records of a file that is cut, and then its end or an exception. -/
theorem readAll_prefix [DecidableEq β] {xs : List α} {recs : List (List β)} (h : Forall₂ r.Reads xs recs)
    (before : List β) {buf : List β} (hbuf : buf <+: recs.flatten) :
    ∃ k ≤ recs.length, (recs.take k).flatten <+: buf ∧ (k < recs.length → ¬ (recs.take (k + 1)).flatten <+: buf) ∧
      r.readAll (before ++ buf) before.length =
        (xs.take k, if (recs.take k).flatten = buf then .stopped (before.length + buf.length) else .threw) := by
  induction h generalizing before buf with
  | nil =>
    have hnil : buf = [] := by simpa using hbuf
    refine ⟨0, le_refl 0, by simp, by simp, ?_⟩
    simp [hnil, readAll_of_le]
  | @cons x bytes xs recs hx hxs ih =>
    have hfirst : bytes <+: (bytes :: recs).flatten := by simp
    by_cases hlen : bytes.length ≤ buf.length
    · -- the first record is there, and the rest is a file of its own
      obtain ⟨rest, rfl⟩ := prefix_of_prefix_length_le hfirst hbuf hlen
      have hrest : rest <+: recs.flatten := by simpa using hbuf
      obtain ⟨k, hk, hin, hnext, hread⟩ := ih (before ++ bytes) hrest
      refine ⟨k + 1, by simpa using hk, by simpa using hin, fun hlt => ?_, ?_⟩
      · simpa using hnext (by simpa using hlt)
      · have hpos := hx.length_pos
        rw [readAll_some (by simp; omega) (hx.whole before rest)]
        simp only [append_assoc, length_append] at hread
        simp [hread, Nat.add_assoc]
    · have hpart : buf <+: bytes := prefix_of_prefix_length_le hbuf hfirst (by omega)
      have hne : buf ≠ bytes := fun heq => hlen (by simp [heq])
      refine ⟨0, by simp, by simp, fun _ hin => hlen (by simpa using hin.length_le), ?_⟩
      cases buf with
      | nil => simp [readAll_of_le]
      | cons b buf => simp [readAll_none _ (hx.cut before (b :: buf) hpart hne)]

/-- A file that is not cut gives back every record. -/
theorem readAll_flatten {xs : List α} {recs : List (List β)} (h : Forall₂ r.Reads xs recs) :
    r.readAll recs.flatten 0 = (xs, .stopped recs.flatten.length) := by
  classical
  obtain ⟨k, hk, _, hnext, hread⟩ := readAll_prefix h [] (prefix_refl _)
  have hall : k = recs.length := hk.antisymm (not_lt.mp fun hlt => hnext hlt ( take_prefix (k + 1) recs).flatten)
  have hlen : recs.length = xs.length := h.length_eq.symm
  simpa [hall, take_of_length_le hlen.ge] using hread

end Records
