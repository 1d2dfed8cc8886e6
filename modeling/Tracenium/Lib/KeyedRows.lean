-- SUMMARY: Rows in the order of a key, where a row takes the place of the one with its key, and when nothing is lost by that.
import Mathlib.Data.List.Sort

open List

namespace KeyedRows

variable {α κ : Type*} [LinearOrder κ] (key : α → κ)

/-- The row is put at its place, in the place of the one with its key. -/
def replace (rows : List α) (x : α) : List α :=
  (rows.filter fun r => key r ≠ key x).orderedInsert (fun a b => key a ≤ key b) x

def load (xs : List α) : List α := xs.foldl (replace key) []

variable {key}

theorem mem_replace {rows : List α} {x r : α} (h : r ∈ replace key rows x) : r = x ∨ r ∈ rows := by
  simp only [replace, mem_orderedInsert, mem_filter] at h
  exact h.imp_right And.left

/-- A new key adds one row. -/
theorem perm_replace {rows : List α} {x : α} (h : ∀ r ∈ rows, key r ≠ key x) :
    (replace key rows x).Perm (x :: rows) := by
  have hfilter : (rows.filter fun r => key r ≠ key x) = rows := filter_eq_self.mpr fun r hr => by simpa using h r hr
  unfold replace
  rw [hfilter]
  exact perm_orderedInsert _ x rows

theorem perm_foldl_replace {xs rows : List α} (hnodup : (xs.map key).Nodup)
    (hnew : ∀ x ∈ xs, ∀ r ∈ rows, key r ≠ key x) : (xs.foldl (replace key) rows).Perm (xs ++ rows) := by
  induction xs generalizing rows with
  | nil => exact .refl _
  | cons x xs ih =>
    simp only [map_cons, nodup_cons, forall_mem_cons] at hnodup hnew
    refine (ih hnodup.2 ?_).trans ?_
    · intro y hy r hr
      rcases mem_replace hr with rfl | hr
      · exact fun heq => hnodup.1 (heq ▸ mem_map_of_mem hy)
      · exact hnew.2 y hy r hr
    · exact ((perm_replace hnew.1).append_left xs).trans perm_middle

/-- Rows with keys of their own are all kept. -/
theorem perm_load {xs : List α} (h : (xs.map key).Nodup) : (load key xs).Perm xs := by
  have hperm : (xs.foldl (replace key) []).Perm (xs ++ []) := perm_foldl_replace h (by simp)
  simpa [load] using hperm

end KeyedRows
