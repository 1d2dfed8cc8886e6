-- SUMMARY: Folding messages in the order of their ids, where a message may be repeated before the next.
import Mathlib.Data.List.Basic

open List

namespace Replay

variable {σ : Type*}

theorem foldl_eq_of_sorted {f : σ → Nat → σ} (hidem : ∀ s i, f (f s i) i = f s i) {log ids : List Nat}
    (hlog : log.Pairwise (· ≤ ·)) (hids : ids.Pairwise (· < ·)) (hmem : ∀ i, i ∈ log ↔ i ∈ ids)
    (s : σ) : log.foldl f s = ids.foldl f s := by
  induction log generalizing ids s with
  | nil =>
    have hnil : ids = [] := eq_nil_iff_forall_not_mem.mpr fun i hi =>
      not_mem_nil ((hmem i).mpr hi)
    rw [hnil]
  | cons i log ih =>
    obtain ⟨hmin, hsorted⟩ := pairwise_cons.mp hlog
    -- the least id of the log is the first of the ids
    cases ids with
    | nil => exact absurd ((hmem i).mp mem_cons_self) not_mem_nil
    | cons j ids =>
      obtain ⟨hfirst, htail⟩ := pairwise_cons.mp hids
      have hij : i = j := by
        have hle : i ≤ j := by
          rcases mem_cons.mp ((hmem j).mpr mem_cons_self) with rfl | hj
          · exact Nat.le_refl _
          · exact hmin j hj
        rcases mem_cons.mp ((hmem i).mp mem_cons_self) with rfl | hi
        · rfl
        · exact absurd hle (Nat.not_le_of_lt (hfirst i hi))
      subst hij
      rw [foldl_cons, foldl_cons]
      by_cases hagain : i ∈ log
      · have hsame : ∀ k, k ∈ log ↔ k ∈ i :: ids := by
          intro k
          rw [← hmem k, mem_cons]
          exact ⟨.inr, fun hk => hk.elim (fun hk => hk ▸ hagain) id⟩
        rw [ih hsorted hids hsame, foldl_cons, hidem]
      · have hsame : ∀ k, k ∈ log ↔ k ∈ ids := by
          intro k
          have hk := hmem k
          rw [mem_cons, mem_cons] at hk
          constructor
          · intro hk'
            rcases hk.mp (.inr hk') with heq | htail'
            · exact absurd (heq ▸ hk') hagain
            · exact htail'
          · intro hk'
            rcases hk.mpr (.inr hk') with heq | hlog'
            · exact absurd (heq ▸ hfirst k hk') (Nat.lt_irrefl i)
            · exact hlog'
        exact ih hsorted htail hsame (f s i)

end Replay
