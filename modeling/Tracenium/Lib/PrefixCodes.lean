-- SUMMARY: Words none of which begins another one, and texts of such words, which are cut in one way only.
import Mathlib.Data.List.Basic
import Mathlib.Data.Set.Defs

open List

namespace PrefixCodes

variable {α : Type*} {V : Set (List α)}

/-- No word begins what another one begins. -/
def IsPrefixCode (V : Set (List α)) : Prop := ∀ a ∈ V, ∀ b ∈ V, ∀ r s, a ++ r = b ++ s → a = b

theorem IsPrefixCode.cancel (hV : IsPrefixCode V) {a b r s : List α} (ha : a ∈ V) (hb : b ∈ V)
    (h : a ++ r = b ++ s) : a = b ∧ r = s := by
  have hab := hV a ha b hb r s h
  rw [hab] at h
  exact ⟨hab, append_cancel_left h⟩

/-- Words that are not marked, up to what is marked. -/
theorem IsPrefixCode.flatten_append_inj (hV : IsPrefixCode V) {mark : α → Prop} {xs ys : List (List α)} {r s : List α}
    (hxs : ∀ x ∈ xs, x ∈ V ∧ ∃ c ∈ x.head?, ¬ mark c) (hys : ∀ y ∈ ys, y ∈ V ∧ ∃ c ∈ y.head?, ¬ mark c)
    (hr : ∀ c ∈ r.head?, mark c) (hs : ∀ c ∈ s.head?, mark c) (h : xs.flatten ++ r = ys.flatten ++ s) :
    xs = ys ∧ r = s := by
  -- a word that is not marked does not begin what is marked
  have hstuck {x t u : List α} (hx : ∃ c ∈ x.head?, ¬ mark c) (hu : ∀ c ∈ u.head?, mark c) (h : x ++ t = u) :
      False := by
    obtain ⟨c, hc, hnot⟩ := hx
    cases x with
    | nil => cases hc
    | cons d x =>
      cases hc
      exact hnot (hu _ (by rw [← h]; rfl))
  induction xs generalizing ys with
  | nil =>
    cases ys with
    | nil => exact ⟨rfl, h⟩
    | cons y ys =>
      rw [flatten_nil, nil_append, flatten_cons, append_assoc] at h
      exact (hstuck (hys y mem_cons_self).2 hr h.symm).elim
  | cons x xs ih =>
    obtain ⟨hx, hxs⟩ := forall_mem_cons.mp hxs
    cases ys with
    | nil =>
      rw [flatten_nil, nil_append, flatten_cons, append_assoc] at h
      exact (hstuck hx.2 hs h).elim
    | cons y ys =>
      obtain ⟨hy, hys'⟩ := forall_mem_cons.mp hys
      rw [flatten_cons, flatten_cons, append_assoc, append_assoc] at h
      obtain ⟨rfl, hrest⟩ := hV.cancel hx.1 hy.1 h
      obtain ⟨rfl, hrs⟩ := ih hxs hys' hrest
      exact ⟨rfl, hrs⟩

/-- A text is cut into words in one way. -/
theorem IsPrefixCode.flatten_inj (hV : IsPrefixCode V) (hne : [] ∉ V) {xs ys : List (List α)} (hxs : ∀ x ∈ xs, x ∈ V)
    (hys : ∀ y ∈ ys, y ∈ V) (h : xs.flatten = ys.flatten) : xs = ys := by
  have hhead (x : List α) (hx : x ∈ V) : ∃ c ∈ x.head?, ¬ False := by
    cases x with
    | nil => exact (hne hx).elim
    | cons c x => exact ⟨c, rfl, not_false⟩
  have h' : xs.flatten ++ [] = ys.flatten ++ [] := by rw [append_nil, append_nil, h]
  exact (hV.flatten_append_inj (fun x hx => ⟨hxs x hx, hhead x (hxs x hx)⟩)
    (fun y hy => ⟨hys y hy, hhead y (hys y hy)⟩) (by simp) (by simp) h').1

end PrefixCodes
