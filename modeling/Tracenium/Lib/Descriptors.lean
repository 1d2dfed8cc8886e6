-- SUMMARY: Tables of file descriptors, whose numbers are given out from the smallest free one.
import Tracenium.Lib.OrderedMap
import Mathlib.Data.List.Perm.Subperm

/-! The number of a file that was closed is soon the number of another one. -/

open OrderedMap Nat
open List hiding count

variable {α : Type*}

structure Descriptors (α : Type*) where
  files : OrderedMap Nat α

namespace Descriptors

def empty : Descriptors α := ⟨.empty⟩

def get (d : Descriptors α) (n : Nat) : Option α := d.files.get n

/-- The first number from `n` that is not in use, among the next ones. -/
def firstFree (used : List Nat) : Nat → Nat → Nat
  | 0, n => n
  | count + 1, n => if n ∈ used then firstFree used count (n + 1) else n

def free (d : Descriptors α) : Nat :=
  let used := d.files.entries.map Prod.fst
  firstFree used used.length 0

def openFile (d : Descriptors α) (f : α) : Descriptors α := ⟨d.files.set d.free f⟩

def close (d : Descriptors α) (n : Nat) : Descriptors α := ⟨d.files.delete n⟩

variable {d : Descriptors α}

theorem get_eq_none_iff {n : Nat} : d.get n = none ↔ n ∉ d.files.entries.map Prod.fst := by
  unfold get
  rw [OrderedMap.get_eq_none_iff]
  constructor
  · intro h hmem
    obtain ⟨⟨m, v⟩, hv, rfl⟩ := mem_map.mp hmem
    exact h v hv
  · exact fun h v hv => h (mem_map_of_mem hv)

/-- The numbers below the one that is found are in use, and it is not. -/
theorem firstFree_spec (used : List Nat) {count n : Nat} (hcount : used.length ≤ n + count)
    (hbelow : ∀ m < n, m ∈ used) : firstFree used count n ∉ used ∧ ∀ m < firstFree used count n, m ∈ used := by
  induction count generalizing n with
  | zero =>
    refine ⟨fun hmem => ?_, hbelow⟩
    -- more numbers would be in use than there are
    have hall : range (n + 1) ⊆ used := by
      intro m hm
      rcases Nat.lt_succ_iff_lt_or_eq.mp (List.mem_range.mp hm) with hlt | rfl
      · exact hbelow m hlt
      · exact hmem
    have hlength := (nodup_range.subperm hall).length_le
    rw [length_range] at hlength
    exact absurd (Nat.le_trans hlength hcount) (Nat.not_succ_le_self n)
  | succ count ih =>
    unfold firstFree
    split
    · rename_i hmem
      apply ih
      · rw [Nat.add_assoc, Nat.add_comm 1]
        exact hcount
      · intro m hm
        rcases Nat.lt_succ_iff_lt_or_eq.mp hm with hlt | rfl
        · exact hbelow m hlt
        · exact hmem
    · exact ⟨‹_›, hbelow⟩

theorem free_spec (d : Descriptors α) : d.get d.free = none ∧ ∀ m < d.free, (d.get m).isSome = true := by
  obtain ⟨hfree, hbelow⟩ := firstFree_spec (d.files.entries.map Prod.fst) (n := 0)
    (le_add_left (d.files.entries.map Prod.fst).length _) (fun m hm => absurd hm (not_lt_zero m))
  refine ⟨get_eq_none_iff.mpr hfree, fun m hm => ?_⟩
  cases hget : d.get m with
  | none => exact absurd (hbelow m hm) (get_eq_none_iff.mp hget)
  | some f => rfl

theorem get_openFile_self (d : Descriptors α) (f : α) : (d.openFile f).get d.free = some f := get_set_self _ _ _

theorem get_openFile_of_ne {f : α} {n : Nat} (hn : n ≠ d.free) : (d.openFile f).get n = d.get n := get_set_of_ne hn

/-- A file that was open is open under its number when another one is opened. -/
theorem get_openFile_of_get {f g : α} {n : Nat} (h : d.get n = some g) : (d.openFile f).get n = some g := by
  rw [get_openFile_of_ne]
  · exact h
  · rintro rfl
    rw [d.free_spec.1] at h
    cases h

theorem of_get_openFile {f g : α} {n : Nat} (h : (d.openFile f).get n = some g) :
    (n = d.free ∧ g = f) ∨ d.get n = some g := by
  by_cases hn : n = d.free
  · subst hn
    rw [get_openFile_self] at h
    exact .inl ⟨rfl, (Option.some.inj h).symm⟩
  · rw [get_openFile_of_ne hn] at h
    exact .inr h

theorem get_close_self (d : Descriptors α) (n : Nat) : (d.close n).get n = none := get_delete_self _ _

theorem get_close_of_ne {n m : Nat} (h : m ≠ n) : (d.close n).get m = d.get m := get_delete_of_ne h

theorem of_get_close {n m : Nat} {f : α} (h : (d.close n).get m = some f) : m ≠ n ∧ d.get m = some f := by
  by_cases hm : m = n
  · subst hm
    rw [get_close_self] at h
    cases h
  · rw [get_close_of_ne hm] at h
    exact ⟨hm, h⟩

end Descriptors
