-- SUMMARY: Lists of parties that are updated in place, and flags that stand for the locks that they hold.
import Mathlib.Data.List.Basic
import Mathlib.Logic.Function.Basic

/-! # Slots -/

open Function List

namespace Slots

variable {α : Type*} {l : List α} {x y : α} {j k : Nat}

/-- What is found after an update. -/
theorem of_getElem?_set (h : (l.set k x)[j]? = some y) : (j = k ∧ y = x) ∨ (j ≠ k ∧ l[j]? = some y) := by
  by_cases hj : j = k
  · subst hj
    rw [getElem?_set_self'] at h
    obtain ⟨-, -, rfl⟩ := Option.map_eq_some_iff.mp h
    exact .inl ⟨rfl, rfl⟩
  · rw [getElem?_set_ne (Ne.symm hj)] at h
    exact .inr ⟨hj, h⟩

/-- What is found after one is changed. -/
theorem of_getElem?_modify {f : α → α} (h : (l.modify k f)[j]? = some y) :
    ∃ x, l[j]? = some x ∧ y = if k = j then f x else x := by
  rw [getElem?_modify] at h
  cases hx : l[j]? with
  | none => simp [hx] at h
  | some x => exact ⟨x, rfl, by simpa [hx] using h.symm⟩

theorem getElem?_set_of_ne (hj : j ≠ k) (h : l[j]? = some y) : (l.set k x)[j]? = some y :=
  (getElem?_set_ne (Ne.symm hj)).trans h

theorem getElem?_set_self (h : l[k]? = some y) : (l.set k x)[k]? = some x :=
  List.getElem?_set_self (List.getElem?_eq_some_iff.mp h).1

/-- What is found after one is added. -/
theorem of_getElem?_concat (h : (l ++ [x])[k]? = some y) : l[k]? = some y ∨ (k = l.length ∧ y = x) := by
  rcases Nat.lt_trichotomy k l.length with hk | rfl | hk
  · rw [getElem?_append_left hk] at h
    exact .inl h
  · rw [getElem?_concat_length] at h
    exact .inr ⟨rfl, (Option.some.inj h).symm⟩
  · rw [getElem?_append_right (Nat.le_of_lt hk), getElem?_singleton, if_neg (Nat.sub_ne_zero_of_lt hk)] at h
    cases h

end Slots

/-!
# Locks made of flags

A party takes a flag when all of them are down. A flag can also be left up by a party that is gone.
-/

namespace Locks

variable {ι κ : Type*}

/-- One party holds a lock at a time, and its flag is up. -/
structure Sound (up : κ → Bool) (holds : ι → Option κ) : Prop where
  alone : ∀ {i j k l}, holds i = some k → holds j = some l → i = j
  raised : ∀ {i k}, holds i = some k → up k = true

/-- Besides, a flag that is up is held by someone. -/
structure Exact (up : κ → Bool) (holds : ι → Option κ) : Prop extends Sound up holds where
  owned : ∀ {k}, up k = true → ∃ i, holds i = some k

/-- With all flags down nobody holds a lock. -/
theorem Sound.none_of_free {up : κ → Bool} {holds : ι → Option κ} (h : Sound up holds)
    (hfree : ∀ l, up l = false) (i : ι) : holds i = none := by
  cases hi : holds i with
  | none => rfl
  | some k => simpa [hfree k] using h.raised hi

theorem Exact.idle : Exact (fun _ : κ => false) (fun _ : ι => none) where
  alone h := by simp at h
  raised h := by simp at h
  owned h := by simp at h

variable [DecidableEq ι]

/-- The only holder is gone when its lock is released. -/
theorem Sound.none_of_release {up : κ → Bool} {holds : ι → Option κ} (h : Sound up holds) {i : ι}
    {k : κ} (hheld : holds i = some k) (j : ι) : update holds i none j = none := by
  by_cases hj : j = i
  · simp [hj]
  · cases hl : holds j with
    | none => simp [hj, hl]
    | some l => exact absurd (h.alone hl hheld) hj

variable [DecidableEq κ]

/-- What one step does to the flags and their holders. Only a step with `Leaks` may leave a flag
behind. -/
inductive Step (Leaks : Prop) (up : κ → Bool) (holds : ι → Option κ) :
    (κ → Bool) → (ι → Option κ) → Prop
  /-- Nobody takes or releases a lock. -/
  | keep : Step Leaks up holds up holds
  | take (i : ι) (k : κ) (hfree : ∀ l, up l = false) :
      Step Leaks up holds (update up k true) (update holds i (some k))
  | release (i : ι) (k : κ) (hheld : holds i = some k) :
      Step Leaks up holds (update up k false) (update holds i none)
  /-- A flag is raised by a party that goes away. -/
  | leak (k : κ) (hfree : ∀ l, up l = false) (hleaks : Leaks) :
      Step Leaks up holds (update up k true) holds
  /-- The parties are gone, and their flags with them. -/
  | reset : Step Leaks up holds (fun _ => false) (fun _ => none)

variable {Leaks : Prop} {up up' : κ → Bool} {holds holds' : ι → Option κ}

theorem Sound.step (h : Sound up holds) (hstep : Step Leaks up holds up' holds') : Sound up' holds' := by
  cases hstep with
  | keep => exact h
  | take i k hfree =>
    have hnone := h.none_of_free hfree
    have honly : ∀ {j l}, update holds i (some k) j = some l → j = i ∧ k = l := by
      intro j l hj
      by_cases hji : j = i
      · subst hji
        simpa using hj
      · simp [hji, hnone j] at hj
    refine ⟨fun ha hb => (honly ha).1.trans (honly hb).1.symm, fun ha => ?_⟩
    simp [(honly ha).2]
  | release i k hheld =>
    have hnone := h.none_of_release hheld
    exact ⟨fun ha => by simp [hnone] at ha, fun ha => by simp [hnone] at ha⟩
  | leak k hfree hleaks =>
    have hnone := h.none_of_free hfree
    exact ⟨fun ha => by simp [hnone] at ha, fun ha => by simp [hnone] at ha⟩
  | reset => exact Exact.idle.toSound

/-- Flags and holders agree as long as no flag is leaked. -/
theorem Exact.step (h : Exact up holds) (hstep : Step Leaks up holds up' holds') (hclean : ¬ Leaks) :
    Exact up' holds' where
  toSound := h.toSound.step hstep
  owned := by
    intro k hk
    cases hstep with
    | keep => exact h.owned hk
    | take i l hfree =>
      by_cases hkl : k = l
      · exact ⟨i, by simp [hkl]⟩
      · simp [hkl, hfree k] at hk
    | release i l hheld =>
      -- the flag that is still up would have a holder of its own
      by_cases hkl : k = l
      · simp [hkl] at hk
      · obtain ⟨j, hj⟩ := h.owned (by simpa [hkl] using hk)
        rw [h.alone hj hheld, hheld] at hj
        exact absurd (Option.some.inj hj).symm hkl
    | leak l hfree hleaks => exact absurd hleaks hclean
    | reset => simp at hk

end Locks
