-- SUMMARY: Strings as UTF-16 code units: well-formedness, cuts inside a surrogate pair, and their size in UTF-8.
import Mathlib.Algebra.GroupWithZero.Nat
import Mathlib.Data.List.Basic
import Mathlib.Tactic.Common

/-! A string is the list of its code units, so it may hold lone surrogates. -/

open List

namespace Utf16

/-- A string as its UTF-16 code units. -/
abbrev Str := List UInt16

def isHigh (u : UInt16) : Bool := 0xD800 ≤ u && u ≤ 0xDBFF

def isLow (u : UInt16) : Bool := 0xDC00 ≤ u && u ≤ 0xDFFF

theorem not_isHigh_of_isLow {u : UInt16} (h : isLow u) : isHigh u = false := by
  simp only [isLow, isHigh, Bool.and_eq_true, decide_eq_true_eq, Bool.and_eq_false_iff,
    decide_eq_false_iff_not] at h ⊢
  grind

/-- Every high surrogate is followed by a low one, and every low one follows a high one. -/
inductive WellFormed : Str → Prop
  | nil : WellFormed []
  | unit {u : UInt16} {s : Str} (hhigh : isHigh u = false) (hlow : isLow u = false)
      (hs : WellFormed s) : WellFormed (u :: s)
  | pair {h l : UInt16} {s : Str} (hhigh : isHigh h = true) (hlow : isLow l = true)
      (hs : WellFormed s) : WellFormed (h :: l :: s)

namespace WellFormed

theorem append {a b : Str} (ha : WellFormed a) (hb : WellFormed b) : WellFormed (a ++ b) := by
  induction ha with
  | nil => exact hb
  | unit hhigh hlow _ ih => exact .unit hhigh hlow ih
  | pair hhigh hlow _ ih => exact .pair hhigh hlow ih

/-- What follows a unit that is no high surrogate is well formed by itself. -/
theorem tail_of_not_isHigh {u : UInt16} {s : Str} (hu : isHigh u = false)
    (h : WellFormed (u :: s)) : WellFormed s := by
  generalize hw : u :: s = w at h
  cases h with
  | nil => cases hw
  | unit _ _ hs =>
    cases hw
    exact hs
  | pair hhigh _ _ =>
    cases hw
    rw [hu] at hhigh
    contradiction

/-- What follows a pair is well formed by itself. -/
theorem tail_of_isHigh {h l : UInt16} {s : Str} (hhigh : isHigh h)
    (hw : WellFormed (h :: l :: s)) : WellFormed s := by
  cases hw with
  | unit hhigh' _ _ => rw [hhigh] at hhigh'; contradiction
  | pair _ _ hs => exact hs

/-- What follows a well-formed prefix is well formed by itself. -/
theorem append_iff_right {a b : Str} (ha : WellFormed a) : WellFormed (a ++ b) ↔ WellFormed b := by
  refine ⟨fun h => ?_, ha.append⟩
  induction ha with
  | nil => exact h
  | unit hhigh _ _ ih => exact ih (tail_of_not_isHigh hhigh h)
  | pair hhigh _ _ ih => exact ih (tail_of_isHigh hhigh h)

theorem of_append_left {a b : Str} (ha : WellFormed a) (h : WellFormed (a ++ b)) : WellFormed b :=
  ha.append_iff_right.mp h

/-- A string of units that are no surrogates is well formed. -/
theorem of_forall {s : Str} (h : ∀ u ∈ s, isHigh u = false ∧ isLow u = false) : WellFormed s := by
  induction s with
  | nil => exact .nil
  | cons u s ih =>
    obtain ⟨hhigh, hlow⟩ := h u (by simp)
    exact .unit hhigh hlow (ih fun v hv => h v (by simp [hv]))

end WellFormed

def ascii (cs : List Char) : Str := cs.map fun c => UInt16.ofNat c.toNat

/-- The text of a constant in ASCII. -/
def text (s : String) : Str := ascii s.toList

/-! ## Cuts inside a pair -/

/-- The boundary before unit `k` falls inside a surrogate pair: unit `k - 1` is a high surrogate
and unit `k` a low one. -/
def splitsPair : Str → Nat → Bool
  | h :: l :: _, 1 => isHigh h && isLow l
  | _ :: s, k + 1 => splitsPair s k
  | _, _ => false

@[simp] theorem splitsPair_zero (s : Str) : splitsPair s 0 = false := by
  rcases s with _ | ⟨u, _ | ⟨v, s⟩⟩ <;> rfl

@[simp] theorem splitsPair_nil (k : Nat) : splitsPair [] k = false := by
  cases k <;> rfl

@[simp] theorem splitsPair_cons_add_two (u : UInt16) (s : Str) (k : Nat) :
    splitsPair (u :: s) (k + 2) = splitsPair s (k + 1) := by
  cases s <;> rfl

theorem splitsPair_cons_one (u v : UInt16) (s : Str) : splitsPair (u :: v :: s) 1 = (isHigh u && isLow v) := rfl

@[simp] theorem splitsPair_singleton (u : UInt16) (k : Nat) : splitsPair [u] k = false := by
  match k with
  | 0 => rfl
  | 1 => rfl
  | k + 2 => simp

/-- No boundary at or past the end of a string is inside a pair. -/
theorem splitsPair_of_length_le {s : Str} {k : Nat} (h : s.length ≤ k) : splitsPair s k = false := by
  induction s generalizing k with
  | nil => exact splitsPair_nil k
  | cons u s ih =>
    match k, h with
    | 1, h =>
      have hs : s = [] := by simpa using h
      subst hs
      exact splitsPair_singleton u 1
    | k + 2, h =>
      rw [splitsPair_cons_add_two]
      exact ih (by simpa using h)

/-- A prefix of a well-formed string is well formed exactly when its end is not inside a pair. -/
theorem WellFormed.take_iff {s : Str} (hs : WellFormed s) (k : Nat) :
    WellFormed (s.take k) ↔ splitsPair s k = false := by
  induction hs generalizing k with
  | nil => simp [WellFormed.nil]
  | @unit u s hhigh hlow hs ih =>
    match k with
    | 0 => simp [WellFormed.nil]
    | 1 =>
      have hsplit : splitsPair (u :: s) 1 = false := by
        cases s with
        | nil => exact splitsPair_singleton u 1
        | cons v s => rw [splitsPair_cons_one, hhigh]; rfl
      simpa [hsplit] using WellFormed.unit hhigh hlow .nil
    | k + 2 =>
      rw [splitsPair_cons_add_two, ← ih (k + 1)]
      exact ((WellFormed.unit hhigh hlow .nil).append_iff_right (b := s.take (k + 1)))
  | @pair h l s hhigh hlow hs ih =>
    match k with
    | 0 => simp [WellFormed.nil]
    | 1 =>
      have hsplit : splitsPair (h :: l :: s) 1 := by
        rw [splitsPair_cons_one, hhigh, hlow]; rfl
      constructor
      · intro hwf
        cases hwf with
        | unit hhigh' _ _ => rw [hhigh] at hhigh'; contradiction
      · intro hns
        rw [hsplit] at hns; contradiction
    | 2 =>
      have hsplit : splitsPair (h :: l :: s) 2 = false := by
        rw [splitsPair_cons_add_two]
        cases s with
        | nil => exact splitsPair_singleton l 1
        | cons v s => rw [splitsPair_cons_one, not_isHigh_of_isLow hlow]; rfl
      simpa [hsplit] using WellFormed.pair hhigh hlow .nil
    | k + 3 =>
      rw [splitsPair_cons_add_two, splitsPair_cons_add_two, ← ih (k + 1)]
      exact ((WellFormed.pair hhigh hlow .nil).append_iff_right (b := s.take (k + 1)))

/-- The rest of a well-formed string after a cut outside every pair is well formed. -/
theorem WellFormed.drop {s : Str} (hs : WellFormed s) {k : Nat}
    (hk : splitsPair s k = false) : WellFormed (s.drop k) := by
  have htake : WellFormed (s.take k) := (hs.take_iff k).mpr hk
  exact htake.of_append_left (by rwa [take_append_drop])

/-- Where a boundary is inside a pair. -/
theorem WellFormed.exists_pair {s : Str} (hs : WellFormed s) {k : Nat} (hk : splitsPair s k) :
    ∃ a h l b, s = a ++ h :: l :: b ∧ k = a.length + 1 ∧ WellFormed a ∧ isHigh h ∧
      isLow l ∧ WellFormed b := by
  induction hs generalizing k with
  | nil => simp at hk
  | @unit u s hhigh hlow _ ih =>
    match k with
    | 0 => simp at hk
    | 1 =>
      cases s with
      | nil => simp at hk
      | cons v s =>
        rw [splitsPair_cons_one, hhigh] at hk
        cases hk
    | k + 2 =>
      rw [splitsPair_cons_add_two] at hk
      obtain ⟨a, h, l, b, rfl, hlen, ha, hrest⟩ := ih hk
      exact ⟨u :: a, h, l, b, rfl, by simpa using hlen, .unit hhigh hlow ha, hrest⟩
  | @pair u v s hhigh hlow hs ih =>
    match k with
    | 0 => simp at hk
    | 1 => exact ⟨[], u, v, s, rfl, rfl, .nil, hhigh, hlow, hs⟩
    | 2 =>
      rw [splitsPair_cons_add_two] at hk
      cases s with
      | nil => simp at hk
      | cons w s =>
        rw [splitsPair_cons_one, not_isHigh_of_isLow hlow] at hk
        cases hk
    | k + 3 =>
      rw [splitsPair_cons_add_two, splitsPair_cons_add_two] at hk
      obtain ⟨a, h, l, b, rfl, hlen, ha, hrest⟩ := ih hk
      exact ⟨u :: v :: a, h, l, b, rfl, by simpa using hlen, .pair hhigh hlow ha, hrest⟩

/-- The boundaries of the rest of a string are boundaries of the string. -/
theorem splitsPair_drop (s : Str) (j : Nat) {k : Nat} (hk : 0 < k) :
    splitsPair (s.drop j) k = splitsPair s (j + k) := by
  induction j generalizing s with
  | zero => simp
  | succ j ih =>
    cases s with
    | nil => simp
    | cons u s =>
      obtain ⟨m, rfl⟩ := Nat.exists_eq_add_of_lt hk
      rw [drop_succ_cons, ih, show j + 1 + (0 + m + 1) = (j + m) + 2 by omega,
        splitsPair_cons_add_two, show j + (0 + m + 1) = j + m + 1 by omega]

/-- A boundary in the second part of a string is one of that part. -/
theorem splitsPair_append (a b : Str) {k : Nat} (hk : 0 < k) :
    splitsPair (a ++ b) (a.length + k) = splitsPair b k := by
  rw [← splitsPair_drop _ _ hk, drop_left]

/-! ## Size in UTF-8 -/

/-- Bytes of a unit that is not half of a pair: a lone surrogate is written as U+FFFD. -/
def unitBytes (u : UInt16) : Nat :=
  if u < 0x80 then 1 else if u < 0x800 then 2 else 3

/-- Bytes of a string written as UTF-8, each lone surrogate replaced by U+FFFD. -/
def byteLength : Str → Nat
  | [] => 0
  | [u] => unitBytes u
  | u :: v :: s =>
    if isHigh u && isLow v then 4 + byteLength s else unitBytes u + byteLength (v :: s)

theorem unitBytes_pos (u : UInt16) : 1 ≤ unitBytes u := by
  unfold unitBytes
  split
  · exact Nat.le_refl 1
  · split <;> omega

theorem byteLength_cons {u : UInt16} (hu : isHigh u = false) (s : Str) :
    byteLength (u :: s) = unitBytes u + byteLength s := by
  cases s with
  | nil => rfl
  | cons v s => simp [byteLength, hu]

theorem byteLength_pair {h l : UInt16} (hhigh : isHigh h) (hlow : isLow l)
    (s : Str) : byteLength (h :: l :: s) = 4 + byteLength s := by
  simp [byteLength, hhigh, hlow]

theorem unitBytes_le (u : UInt16) : unitBytes u ≤ 3 := by
  unfold unitBytes
  split
  · omega
  · split <;> omega

/-- No unit takes more than three bytes. -/
theorem byteLength_le : ∀ s : Str, byteLength s ≤ 3 * s.length
  | [] => Nat.le_refl 0
  | [u] => unitBytes_le u
  | u :: v :: s => by
      have hu := unitBytes_le u
      have hrest := byteLength_le s
      have htail := byteLength_le (v :: s)
      simp only [byteLength, length_cons] at htail ⊢
      split <;> omega

/-- The size of a well-formed prefix adds up with the size of the rest. -/
theorem byteLength_append {a : Str} (ha : WellFormed a) (b : Str) :
    byteLength (a ++ b) = byteLength a + byteLength b := by
  induction ha with
  | nil => simp [byteLength]
  | @unit u s hhigh _ _ ih =>
    rw [cons_append, byteLength_cons hhigh, byteLength_cons hhigh, ih]
    omega
  | @pair h l s hhigh hlow _ ih =>
    rw [cons_append, cons_append, byteLength_pair hhigh hlow,
      byteLength_pair hhigh hlow, ih]
    omega

/-- The sizes of well-formed parts add up to the size of the whole. -/
theorem byteLength_flatten {cs : List Str} (h : ∀ c ∈ cs, WellFormed c) :
    byteLength cs.flatten = (cs.map byteLength).sum := by
  induction cs with
  | nil => rfl
  | cons c cs ih =>
    rw [flatten_cons, byteLength_append (h c (by simp)), ih fun d hd => h d (by simp [hd]), map_cons, sum_cons]

/-- A string has at least as many bytes as units, except that a pair takes four for two. -/
theorem length_le_byteLength {s : Str} (hs : WellFormed s) : s.length ≤ byteLength s := by
  induction hs with
  | nil => simp
  | @unit u s hhigh _ _ ih =>
    rw [byteLength_cons hhigh, length_cons]
    have := unitBytes_pos u
    omega
  | @pair h l s hhigh hlow _ ih =>
    rw [byteLength_pair hhigh hlow]
    simp only [length_cons]
    omega

end Utf16
