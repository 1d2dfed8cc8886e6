-- SUMMARY: Finite maps that list their entries in the order in which their keys were put.
import Mathlib.Data.List.Nodup

/-! Setting a key that is there keeps its place. What a map holds is stated by membership in its entries. -/

open List Prod

variable {α β : Type*}

structure OrderedMap (α β : Type*) where
  entries : List (α × β)
  nodup : (entries.map fst).Nodup

namespace OrderedMap

def empty : OrderedMap α β := ⟨[], .nil⟩

def size (m : OrderedMap α β) : Nat := m.entries.length

@[simp] theorem entries_empty : (empty : OrderedMap α β).entries = [] := rfl

@[ext] theorem ext {m m' : OrderedMap α β} (h : m.entries = m'.entries) : m = m' := by
  cases m
  cases m'
  cases h
  rfl

variable {m : OrderedMap α β} {k : α}

/-- A key has one value. -/
theorem eq_of_mem {v w : β} (hv : (k, v) ∈ m.entries) (hw : (k, w) ∈ m.entries) : v = w := by
  have h := inj_on_of_nodup_map m.nodup hv hw rfl
  exact congrArg snd h

variable [DecidableEq α]

def get (m : OrderedMap α β) (k : α) : Option β :=
  (m.entries.find? fun e => e.1 = k).map snd

/-- What is got for a key is its entry. -/
theorem get_eq_some_iff {v : β} : m.get k = some v ↔ (k, v) ∈ m.entries := by
  rw [get, Option.map_eq_some_iff]
  constructor
  · rintro ⟨⟨k', v'⟩, hfind, rfl⟩
    have hkey := find?_some hfind
    rw [decide_eq_true_eq] at hkey
    rw [← hkey]
    exact mem_of_find?_eq_some hfind
  · intro h
    cases hfind : m.entries.find? fun e => e.1 = k with
    | none =>
      have hnone := find?_eq_none.mp hfind _ h
      simp at hnone
    | some e =>
      obtain ⟨k', v'⟩ := e
      have hkey := find?_some hfind
      rw [decide_eq_true_eq] at hkey
      obtain rfl : k' = k := hkey
      exact ⟨(k', v'), rfl, eq_of_mem (mem_of_find?_eq_some hfind) h⟩

theorem get_eq_none_iff : m.get k = none ↔ ∀ v, (k, v) ∉ m.entries := by
  rw [Option.eq_none_iff_forall_ne_some]
  exact forall_congr' fun v => not_congr get_eq_some_iff

def delete (m : OrderedMap α β) (k : α) : OrderedMap α β where
  entries := m.entries.filter fun e => e.1 ≠ k
  nodup := m.nodup.sublist (filter_sublist.map fst)

theorem mem_delete {e : α × β} : e ∈ (m.delete k).entries ↔ e ∈ m.entries ∧ e.1 ≠ k := by
  simp [delete]

/-- Put a value, in the place of the one with its key if there is one. -/
def setEntries (k : α) (v : β) : List (α × β) → List (α × β)
  | [] => [(k, v)]
  | e :: es => if e.1 = k then (k, v) :: es else e :: setEntries k v es

theorem keys_setEntries (k : α) (v : β) (es : List (α × β)) : (setEntries k v es).map fst =
      if k ∈ es.map fst then es.map fst else es.map fst ++ [k] := by
  induction es with
  | nil => simp [setEntries]
  | cons e es ih =>
    rw [setEntries]
    by_cases he : e.1 = k
    · simp [he]
    · rw [if_neg he, map_cons, ih, map_cons]
      have hk : k ≠ e.1 := Ne.symm he
      by_cases hmem : k ∈ es.map fst
      · rw [if_pos hmem, if_pos (mem_cons_of_mem _ hmem)]
      · rw [if_neg hmem, if_neg (by simp only [mem_cons, not_or]; exact ⟨hk, hmem⟩)]
        rfl

def set (m : OrderedMap α β) (k : α) (v : β) : OrderedMap α β where
  entries := setEntries k v m.entries
  nodup := by
    rw [keys_setEntries]
    split
    · exact m.nodup
    · exact nodup_append.mpr ⟨m.nodup, by simp, by
        intro a ha b hb
        rw [mem_singleton.mp hb]
        rintro rfl
        exact absurd ha ‹_›⟩

theorem mem_setEntries {v : β} {es : List (α × β)} (h : (es.map fst).Nodup)
    {e : α × β} : e ∈ setEntries k v es ↔ e = (k, v) ∨ (e ∈ es ∧ e.1 ≠ k) := by
  induction es with
  | nil => simp [setEntries]
  | cons e' es ih =>
    obtain ⟨hhead, htail⟩ := nodup_cons.mp h
    rw [setEntries]
    by_cases he' : e'.1 = k
    · have hne : e ∈ es → e.1 ≠ k := by
        rintro hmem rfl
        rw [he'] at hhead
        exact hhead (mem_map_of_mem hmem)
      rw [if_pos he', mem_cons, mem_cons]
      constructor
      · rintro (rfl | hmem)
        · exact .inl rfl
        · exact .inr ⟨.inr hmem, hne hmem⟩
      · rintro (rfl | ⟨rfl | hmem, hk⟩)
        · exact .inl rfl
        · exact absurd he' hk
        · exact .inr hmem
    · rw [if_neg he', mem_cons, ih htail, mem_cons]
      constructor
      · rintro (rfl | rfl | ⟨hmem, hk⟩)
        · exact .inr ⟨.inl rfl, he'⟩
        · exact .inl rfl
        · exact .inr ⟨.inr hmem, hk⟩
      · rintro (rfl | ⟨rfl | hmem, hk⟩)
        · exact .inr (.inl rfl)
        · exact .inl rfl
        · exact .inr (.inr ⟨hmem, hk⟩)

theorem mem_set {v : β} {e : α × β} : e ∈ (m.set k v).entries ↔ e = (k, v) ∨ (e ∈ m.entries ∧ e.1 ≠ k) :=
  mem_setEntries m.nodup

theorem get_set_self (m : OrderedMap α β) (k : α) (v : β) : (m.set k v).get k = some v :=
  get_eq_some_iff.mpr (mem_set.mpr (.inl rfl))

theorem get_set_of_ne {k k' : α} {v : β} (hne : k' ≠ k) : (m.set k v).get k' = m.get k' := by
  apply Option.ext
  intro w
  rw [get_eq_some_iff, get_eq_some_iff, mem_set]
  exact ⟨fun h => h.elim (fun heq => absurd (congrArg fst heq) hne) And.left,
    fun h => .inr ⟨h, hne⟩⟩

theorem get_delete_self (m : OrderedMap α β) (k : α) : (m.delete k).get k = none := by
  rw [get_eq_none_iff]
  exact fun v hv => (mem_delete.mp hv).2 rfl

theorem get_delete_of_ne {k k' : α} (hne : k' ≠ k) : (m.delete k).get k' = m.get k' := by
  apply Option.ext
  intro w
  rw [get_eq_some_iff, get_eq_some_iff, mem_delete]
  exact and_iff_left hne

theorem get_delete_eq_some {k k' : α} {v : β} (h : (m.delete k).get k' = some v) : k' ≠ k ∧ m.get k' = some v := by
  have hmem := mem_delete.mp (get_eq_some_iff.mp h)
  exact ⟨hmem.2, get_eq_some_iff.mpr hmem.1⟩

/-- A map with one entry. -/
theorem set_of_empty (h : m.entries = []) (k : α) (v : β) : (m.set k v).entries = [(k, v)] := by
  simp only [set, h, setEntries]

theorem size_delete_le (m : OrderedMap α β) (k : α) : (m.delete k).size ≤ m.size := length_filter_le _ _

theorem size_set_le (m : OrderedMap α β) (k : α) (v : β) : (m.set k v).size ≤ m.size + 1 := by
  have hkeys := congrArg length (keys_setEntries k v m.entries)
  rw [length_map] at hkeys
  rw [size, size, set, hkeys]
  split <;> simp

/-- The entries that meet `p`. -/
def filter (m : OrderedMap α β) (p : α → β → Bool) : OrderedMap α β where
  entries := m.entries.filter fun e => p e.1 e.2
  nodup := m.nodup.sublist (filter_sublist.map fst)

theorem get_filter_eq_some {p : α → β → Bool} {v : β} :
    (m.filter p).get k = some v ↔ m.get k = some v ∧ p k v = true := by
  rw [get_eq_some_iff, get_eq_some_iff, filter, mem_filter]

omit [DecidableEq α] in
theorem filter_true (m : OrderedMap α β) : (m.filter fun _ _ => true) = m := ext (List.filter_true _)

theorem delete_of_singleton {v : β} (h : m.entries = [(k, v)]) : m.delete k = empty := by
  ext1
  simp [delete, h]

end OrderedMap
