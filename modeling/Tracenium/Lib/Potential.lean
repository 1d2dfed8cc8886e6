-- SUMMARY: Potentials: what the steps of a machine may cost in all, and totals over the rows of a table.
import Tracenium.Lib.Machine
import Tracenium.Lib.Table
import Mathlib.Algebra.GroupWithZero.Nat
import Mathlib.Algebra.Order.BigOperators.Group.List
import Mathlib.Algebra.Order.Group.Nat

namespace Machine

variable {σ ε : Type*} {M : Machine σ ε} {C : σ → ε → Prop} {I : σ → Prop}

/-- The steps along a run pay for what they cost from the potential. -/
theorem cost_le_of_guardedFrom (cost potential : σ → Nat) (hstep : ∀ s e, I s → C s e →
    I (M.step s e) ∧ cost (M.step s e) + potential (M.step s e) ≤ cost s + potential s) {s : σ} (hs : I s)
    {tr : List ε} (h : M.GuardedFrom C s tr) : cost (M.exec s tr) ≤ cost s + potential s := by
  induction tr generalizing s with
  | nil => exact Nat.le_add_right _ _
  | cons e tr ih =>
    obtain ⟨he, htr⟩ := h
    obtain ⟨hI, hle⟩ := hstep s e hs he
    exact (ih hI htr).trans hle

/-- A guard along a run, cut in two. -/
theorem guardedFrom_append {s : σ} {tr tr' : List ε} :
    M.GuardedFrom C s (tr ++ tr') ↔ M.GuardedFrom C s tr ∧ M.GuardedFrom C (M.exec s tr) tr' := by
  induction tr generalizing s with
  | nil => simp [GuardedFrom]
  | cons e tr ih => simp only [List.cons_append, GuardedFrom, ih, exec_cons, and_assoc]

theorem guardedFrom_and {D : σ → ε → Prop} {s : σ} {tr : List ε} (hC : M.GuardedFrom C s tr)
    (hD : M.GuardedFrom D s tr) : M.GuardedFrom (fun s e => C s e ∧ D s e) s tr := by
  induction tr generalizing s with
  | nil => trivial
  | cons e tr ih => exact ⟨⟨hC.1, hD.1⟩, ih hC.2 hD.2⟩

end Machine

namespace Table

variable {α : Type*}

def total (w : α → Nat) (t : Table α) : Nat := (t.rows.map fun r => w r.2).sum

variable {w : α → Nat} {t t' : Table α} {g : Nat × α → Nat × α}

/-- Rows that get no heavier, where one gets lighter. -/
theorem total_lt_of_map (hrows : t'.rows = t.rows.map g) (hle : ∀ r ∈ t.rows, w (g r).2 ≤ w r.2)
    (hlt : ∃ r ∈ t.rows, w (g r).2 < w r.2) : t'.total w < t.total w := by
  rw [total, total, hrows, List.map_map]
  exact List.sum_lt_sum _ _ hle hlt

end Table
