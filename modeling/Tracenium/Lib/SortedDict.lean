-- SUMMARY: Dictionaries sorted by a number key, and when one with bounded keys is a full sequence.
import Mathlib.Algebra.GroupWithZero.Nat
import Mathlib.Data.List.Sort
import Mathlib.Algebra.Order.BigOperators.Group.List
import Mathlib.Algebra.Order.Group.Nat

open List Prod

variable {α : Type*}

structure SortedDict (α : Type*) where
  entries : List (Nat × α)
  sorted : (entries.map fst).Pairwise (· < ·)

namespace SortedDict

/-- Put an entry at its place, in the place of the one with its key. -/
def setEntries (k : Nat) (x : α) : List (Nat × α) → List (Nat × α)
  | [] => [(k, x)]
  | (k', x') :: es =>
    if k < k' then (k, x) :: (k', x') :: es
    else if k = k' then (k, x) :: es
    else (k', x') :: setEntries k x es

theorem mem_setEntries {k : Nat} {x : α} {es : List (Nat × α)} {e : Nat × α}
    (he : e ∈ setEntries k x es) : e = (k, x) ∨ e ∈ es := by
  induction es with
  | nil => simpa [setEntries] using he
  | cons e' es ih =>
    rw [setEntries] at he
    split at he
    · exact mem_cons.mp he
    split at he
    · exact (mem_cons.mp he).imp_right (mem_cons_of_mem _)
    · rcases mem_cons.mp he with rfl | he
      · exact .inr (by simp)
      · exact (ih he).imp_right (mem_cons_of_mem _)

theorem sorted_setEntries {k : Nat} {x : α} {es : List (Nat × α)} (h : (es.map fst).Pairwise (· < ·)) :
    ((setEntries k x es).map fst).Pairwise (· < ·) := by
  induction es with
  | nil => simp [setEntries]
  | cons e es ih =>
    obtain ⟨hhead, htail⟩ := pairwise_cons.mp h
    rw [setEntries]
    split
    · refine pairwise_cons.mpr ⟨?_, h⟩
      intro k' hk'
      rcases mem_cons.mp hk' with rfl | hk'
      · assumption
      · have := hhead k' hk'
        omega
    split
    · rename_i heq
      subst heq
      exact h
    · refine pairwise_cons.mpr ⟨?_, ih htail⟩
      intro k' hk'
      obtain ⟨e', he', rfl⟩ := mem_map.mp hk'
      rcases mem_setEntries he' with rfl | he'
      · dsimp only
        omega
      · exact hhead _ (mem_map_of_mem he')

/-- A new key adds one entry. -/
theorem perm_setEntries {k : Nat} {x : α} {es : List (Nat × α)} (hk : ∀ e ∈ es, e.1 ≠ k) :
    (setEntries k x es).Perm ((k, x) :: es) := by
  induction es with
  | nil => exact .refl _
  | cons e es ih =>
    obtain ⟨hhead, htail⟩ := forall_mem_cons.mp hk
    rw [setEntries]
    split
    · exact .refl _
    · rw [if_neg (Ne.symm hhead)]
      exact ((ih htail).cons e).trans (.swap _ _ _)

def empty : SortedDict α := ⟨[], .nil⟩

def set (d : SortedDict α) (k : Nat) (x : α) : SortedDict α :=
  ⟨setEntries k x d.entries, sorted_setEntries d.sorted⟩

def containsKey (d : SortedDict α) (k : Nat) : Bool := d.entries.any (·.1 == k)

def count (d : SortedDict α) : Nat := d.entries.length

def values (d : SortedDict α) : List α := d.entries.map snd

variable {d : SortedDict α}

theorem mem_set {k : Nat} {x : α} {e : Nat × α} (he : e ∈ (d.set k x).entries) : e = (k, x) ∨ e ∈ d.entries :=
  mem_setEntries he

theorem perm_set {k : Nat} (hk : d.containsKey k = false) (x : α) : (d.set k x).entries.Perm ((k, x) :: d.entries) :=
  perm_setEntries fun e he => by simpa using (any_eq_false.mp hk) e he

/-- What the values of a new entry add to a sum over the values. -/
theorem sum_set {k : Nat} (hk : d.containsKey k = false) (x : α)
    (f : α → Nat) : ((d.set k x).values.map f).sum = f x + (d.values.map f).sum := by
  have hperm := ((perm_set hk x).map snd).map f
  rw [values, hperm.sum_nat, values]
  simp

/-! ## Bounded keys -/

/-- Keys below `n` are some of `0, …, n - 1`, in order. -/
theorem keys_sublist_range {n : Nat} (h : ∀ e ∈ d.entries, e.1 < n) : (d.entries.map fst).Sublist (range n) := by
  have hnodup : (d.entries.map fst).Nodup := d.sorted.imp Nat.ne_of_lt
  have hsub : (d.entries.map fst).Subperm (range n) := by
    refine subperm_of_subset hnodup fun k hk => ?_
    obtain ⟨e, he, rfl⟩ := mem_map.mp hk
    exact mem_range.mpr (h e he)
  exact sublist_of_subperm_of_pairwise hsub d.sorted pairwise_lt_range

/-- The entries are items of a list, each under its index. -/
def PartOf (d : SortedDict α) (xs : List α) : Prop := ∀ e ∈ d.entries, xs[e.1]? = some e.2

namespace PartOf

theorem empty (xs : List α) : PartOf .empty xs := by
  intro e he
  cases he

variable {d : SortedDict α} {xs : List α}

theorem set (h : d.PartOf xs) {k : Nat} {x : α} (hx : xs[k]? = some x) : (d.set k x).PartOf xs := by
  intro e he
  rcases mem_set he with rfl | he
  · exact hx
  · exact h e he

theorem key_lt (h : d.PartOf xs) : ∀ e ∈ d.entries, e.1 < xs.length :=
  fun e he => (List.getElem?_eq_some_iff.mp (h e he)).1

/-- The values are the items at the keys. -/
theorem values_eq (h : d.PartOf xs) : d.values.map some = (d.entries.map Prod.fst).map (xs[·]?) := by
  rw [values, List.map_map, List.map_map]
  exact map_congr_left fun e he => (h e he).symm

theorem range_map (xs : List α) : (range xs.length).map (xs[·]?) = xs.map some := by
  apply ext_getElem
  · simp
  · intro i hi hi'
    simp at hi
    simp

/-- The values are a part of the list, in its order. -/
theorem values_sublist (h : d.PartOf xs) : d.values.Sublist xs := by
  have hmap := (keys_sublist_range h.key_lt).map (xs[·]?)
  rw [← h.values_eq, range_map] at hmap
  simpa using hmap.filterMap id

/-- With as many entries as the list has items, the values are the list. -/
theorem values_eq_of_count (h : d.PartOf xs) (hcount : xs.length ≤ d.count) : d.values = xs := by
  refine h.values_sublist.eq_of_length_le ?_
  rw [values, length_map]
  exact hcount

theorem sum_le (h : d.PartOf xs) (f : α → Nat) : (d.values.map f).sum ≤ (xs.map f).sum :=
  (h.values_sublist.map f).sum_le_sum fun _ _ => Nat.zero_le _

end PartOf

end SortedDict
