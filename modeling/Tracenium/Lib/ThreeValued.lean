-- SUMMARY: Formulas over what may be missing, the verdicts that they have, and why more evidence keeps a verdict.
import Mathlib.Data.List.Forall2

open List

namespace ThreeValued

inductive Verdict (π : Type*)
  | holds
  | fails
  | missing (what : π)
  deriving DecidableEq

namespace Verdict

variable {π : Type*}

def missing? : Verdict π → Option π
  | .missing what => some what
  | _ => none

def isHolds : Verdict π → Bool
  | .holds => true
  | _ => false

def ofBool (b : Bool) : Verdict π := if b then .holds else .fails

def swap : Verdict π → Verdict π
  | .holds => .fails
  | .fails => .holds
  | .missing what => .missing what

/-- Missing as soon as one part is, with what the first one misses. -/
def conj (vs : List (Verdict π)) : Verdict π :=
  match vs.findSome? missing? with
  | some what => .missing what
  | none => ofBool (vs.all isHolds)

/-- Holds as soon as one part does, and otherwise it is missing if one part is. -/
def disj (vs : List (Verdict π)) : Verdict π :=
  if vs.any isHolds then .holds
  else match vs.findSome? missing? with
    | some what => .missing what
    | none => .fails

/-- The second verdict is the first one, if that is settled. -/
def Settles (v w : Verdict π) : Prop := v.missing?.isSome = true ∨ v = w

theorem Settles.refl (v : Verdict π) : Settles v v := .inr rfl

theorem settles_missing (what : π) (w : Verdict π) : Settles (.missing what) w := .inl rfl

theorem Settles.eq {v w : Verdict π} (h : Settles v w) (hv : v.missing? = none) : v = w := by
  rcases h with h | h
  · simp [hv] at h
  · exact h

theorem Settles.swap {v w : Verdict π} (h : Settles v w) : Settles v.swap w.swap := by
  rcases h with h | rfl
  · cases v with
    | missing what => exact settles_missing what _
    | _ => simp [missing?] at h
  · exact .refl _

variable {vs ws : List (Verdict π)}

@[simp] theorem conj_cons (v : Verdict π) (vs : List (Verdict π)) :
    conj (v :: vs) = match v with
      | .holds => conj vs
      | .fails => match conj vs with
        | .missing what => .missing what
        | _ => .fails
      | .missing what => .missing what := by
  cases v with
  | holds => simp [conj, missing?, isHolds, findSome?_cons]
  | fails =>
    simp only [conj, findSome?_cons, missing?]
    cases vs.findSome? missing? with
    | some what => rfl
    | none => cases h : vs.all isHolds <;> simp [ofBool, isHolds]
  | missing what => simp [conj, missing?, findSome?_cons]

@[simp] theorem disj_cons (v : Verdict π) (vs : List (Verdict π)) :
    disj (v :: vs) = match v with
      | .holds => .holds
      | .fails => disj vs
      | .missing what => match disj vs with
        | .holds => .holds
        | _ => .missing what := by
  cases v with
  | holds => simp [disj, isHolds]
  | fails => simp [disj, missing?, isHolds, findSome?_cons]
  | missing what =>
    cases h : vs.any isHolds with
    | true => simp [disj, h]
    | false =>
      simp only [disj, any_cons, h, findSome?_cons, missing?, isHolds]
      cases vs.findSome? missing? <;> simp

@[simp] theorem conj_nil : conj ([] : List (Verdict π)) = .holds := rfl

@[simp] theorem disj_nil : disj ([] : List (Verdict π)) = .fails := rfl

theorem settles_conj (h : Forall₂ Settles vs ws) : Settles (conj vs) (conj ws) := by
  induction h with
  | nil => exact .refl _
  | @cons v w vs ws hv _ ih =>
    cases v with
    | missing what => simpa using settles_missing what _
    | holds =>
      obtain rfl := hv.eq rfl
      simpa using ih
    | fails =>
      obtain rfl := hv.eq rfl
      rw [conj_cons, conj_cons]
      cases hvs : conj vs with
      | missing what => exact settles_missing what _
      | _ => simp [← ih.eq (by simp [hvs, missing?]), hvs, Settles]

theorem settles_disj (h : Forall₂ Settles vs ws) : Settles (disj vs) (disj ws) := by
  induction h with
  | nil => exact .refl _
  | @cons v w vs ws hv _ ih =>
    cases v with
    | holds =>
      obtain rfl := hv.eq rfl
      simpa using Settles.refl (Verdict.holds : Verdict π)
    | fails =>
      obtain rfl := hv.eq rfl
      simpa using ih
    | missing what =>
      rw [disj_cons]
      cases hvs : disj vs with
      | holds =>
        -- what the first part says does not matter any more
        have hws : disj ws = .holds := by rw [← ih.eq (by simp [hvs, missing?]), hvs]
        rw [disj_cons, hws]
        cases w <;> exact .refl _
      | _ => exact settles_missing what _

end Verdict

/-! ## Formulas -/

inductive Formula (α : Type*)
  | atom (a : α)
  | all (fs : List (Formula α))
  | any (fs : List (Formula α))
  | not (f : Formula α)

namespace Formula

variable {α π : Type*}

mutual

def denote (val : α → Verdict π) : Formula α → Verdict π
  | .atom a => val a
  | .all fs => .conj (denotes val fs)
  | .any fs => .disj (denotes val fs)
  | .not f => (denote val f).swap

def denotes (val : α → Verdict π) : List (Formula α) → List (Verdict π)
  | [] => []
  | f :: fs => denote val f :: denotes val fs

end

mutual

def nodes : Formula α → Nat
  | .atom _ => 1
  | .all fs => nodesAll fs + 1
  | .any fs => nodesAll fs + 1
  | .not f => nodes f + 1

def nodesAll : List (Formula α) → Nat
  | [] => 0
  | f :: fs => nodes f + nodesAll fs

end

mutual

def atoms : Formula α → List α
  | .atom a => [a]
  | .all fs => atomsAll fs
  | .any fs => atomsAll fs
  | .not f => atoms f

def atomsAll : List (Formula α) → List α
  | [] => []
  | f :: fs => atoms f ++ atomsAll fs

end

variable {val val' : α → Verdict π}

mutual

/-- What settles the atoms settles the formula. -/
theorem settles_denote : (f : Formula α) → (∀ a ∈ f.atoms, (val a).Settles (val' a)) →
    (f.denote val).Settles (f.denote val')
  | .atom a, h => by simpa [denote] using h a (by simp [atoms])
  | .all fs, h => Verdict.settles_conj (settles_denotes fs h)
  | .any fs, h => Verdict.settles_disj (settles_denotes fs h)
  | .not f, h => (settles_denote f h).swap

theorem settles_denotes : (fs : List (Formula α)) → (∀ a ∈ atomsAll fs, (val a).Settles (val' a)) →
    Forall₂ Verdict.Settles (denotes val fs) (denotes val' fs)
  | [], _ => .nil
  | f :: fs, h =>
    .cons (settles_denote f fun a ha => h a (by simp [atomsAll, ha]))
      (settles_denotes fs fun a ha => h a (by simp [atomsAll, ha]))

end

end Formula

end ThreeValued
