-- SUMMARY: Checks that accept, refuse with a reason or throw, and lists that are checked element by element.
import Mathlib.Data.List.Forall2

open List

namespace List.Forall₂

variable {α β : Type*} {R : α → β → Prop} {xs : List α} {ys : List β}

theorem exists_of_mem_left (h : Forall₂ R xs ys) {x : α} (hx : x ∈ xs) : ∃ y ∈ ys, R x y := by
  induction h with
  | nil => exact absurd hx not_mem_nil
  | cons hxy _ ih =>
    rcases mem_cons.mp hx with rfl | hx
    · exact ⟨_, mem_cons_self, hxy⟩
    · obtain ⟨y, hy, hR⟩ := ih hx
      exact ⟨y, mem_cons_of_mem _ hy, hR⟩

theorem exists_of_mem_right (h : Forall₂ R xs ys) {y : β} (hy : y ∈ ys) : ∃ x ∈ xs, R x y :=
  h.flip.exists_of_mem_left hy

theorem and {S : α → β → Prop} (h : Forall₂ R xs ys) (h' : Forall₂ S xs ys) :
    Forall₂ (fun x y => R x y ∧ S x y) xs ys := by
  induction h with
  | nil => exact .nil
  | cons hR _ ih =>
    cases h' with
    | cons hS h' => exact .cons ⟨hR, hS⟩ (ih h')

/-- What each element is related to makes a list. -/
theorem exists_of_forall (h : ∀ x ∈ xs, ∃ y, R x y) : ∃ ys, Forall₂ R xs ys := by
  induction xs with
  | nil => exact ⟨[], .nil⟩
  | cons x xs ih =>
    obtain ⟨y, hy⟩ := h x mem_cons_self
    obtain ⟨ys, hys⟩ := ih fun z hz => h z (mem_cons_of_mem _ hz)
    exact ⟨y :: ys, .cons hy hys⟩

end List.Forall₂

inductive Verdict (ε α : Type*)
  | ok (value : α)
  | refused (message : ε)
  | threw
  deriving DecidableEq

namespace Verdict

variable {ε α β : Type*}

/-- One check after the other, each with its index, up to the first that fails. -/
def collect (check : Nat → α → Verdict ε β) (i : Nat) : List α → Verdict ε (List β)
  | [] => .ok []
  | x :: xs =>
    match check i x with
    | .refused message => .refused message
    | .threw => .threw
    | .ok value =>
      match collect check (i + 1) xs with
      | .ok values => .ok (value :: values)
      | .refused message => .refused message
      | .threw => .threw

variable {check : Nat → α → Verdict ε β} {R : α → β → Prop} {B : α → Prop}

theorem collect_ok_iff (hok : ∀ i x y, check i x = .ok y ↔ R x y) (i : Nat) (xs : List α)
    (ys : List β) : collect check i xs = .ok ys ↔ Forall₂ R xs ys := by
  induction xs generalizing i ys with
  | nil =>
    rw [collect, ok.injEq, forall₂_nil_left_iff]
    exact eq_comm
  | cons x xs ih =>
    rw [collect, forall₂_cons_left_iff]
    constructor
    · intro h
      split at h
      · cases h
      · cases h
      · rename_i y hx
        split at h
        · rename_i ys' hxs
          cases h
          exact ⟨y, ys', (hok i x y).mp hx, (ih (i + 1) ys').mp hxs, rfl⟩
        · cases h
        · cases h
    · rintro ⟨y, ys', hx, hxs, rfl⟩
      rw [(hok i x y).mpr hx]
      rw [(ih (i + 1) ys').mpr hxs]

theorem collect_threw_iff (hok : ∀ i x y, check i x = .ok y ↔ R x y)
    (hthrew : ∀ i x, check i x = .threw ↔ B x) (i : Nat) (xs : List α) : collect check i xs = .threw ↔
      ∃ before x after, xs = before ++ x :: after ∧ (∀ v ∈ before, ∃ y, R v y) ∧ B x := by
  induction xs generalizing i with
  | nil =>
    constructor
    · intro h
      cases h
    · rintro ⟨before, x, after, h, -⟩
      exact absurd h.symm (append_ne_nil_of_right_ne_nil _ (cons_ne_nil _ _))
  -- the list ends at the first item that is not taken: here, or in the rest
  | cons x xs ih =>
    rw [collect]
    constructor
    · intro h
      split at h
      · cases h
      · rename_i hx
        exact ⟨[], x, xs, rfl, fun v hv => absurd hv not_mem_nil, (hthrew i x).mp hx⟩
      · rename_i y hx
        split at h
        · cases h
        · cases h
        · rename_i hxs
          obtain ⟨before, z, after, rfl, hbefore, hz⟩ := (ih (i + 1)).mp hxs
          refine ⟨x :: before, z, after, rfl, fun v hv => ?_, hz⟩
          rcases mem_cons.mp hv with rfl | hv
          · exact ⟨y, (hok i v y).mp hx⟩
          · exact hbefore v hv
    · rintro ⟨before, z, after, h, hbefore, hz⟩
      cases before with
      | nil =>
        obtain ⟨rfl, rfl⟩ := cons.inj h
        rw [(hthrew i x).mpr hz]
      | cons v before =>
        obtain ⟨rfl, rfl⟩ := cons.inj h
        obtain ⟨y, hy⟩ := hbefore x mem_cons_self
        have hrest := (ih (i + 1)).mpr
          ⟨before, z, after, rfl, fun v hv => hbefore v (mem_cons_of_mem _ hv), hz⟩
        rw [(hok i x y).mpr hy]
        rw [hrest]

theorem collect_ne_threw (hcheck : ∀ i x, check i x ≠ .threw) (i : Nat) (xs : List α) :
    collect check i xs ≠ .threw := by
  induction xs generalizing i with
  | nil =>
    intro h
    cases h
  | cons x xs ih =>
    intro h
    rw [collect] at h
    split at h
    · cases h
    · rename_i hx
      exact hcheck i x hx
    · split at h
      · cases h
      · cases h
      · rename_i hxs
        exact ih (i + 1) hxs

end Verdict
