-- SUMMARY: A mark that callers raise one after the other and that expires: who holds it, since when, and when one caller only does.
import Mathlib.Data.List.TakeDrop

/-! The history is a list, the last entry first, so that what happened since a caller looked is a prefix of it. -/

open List

namespace Lease

variable {κ : Type*}

inductive Entry (κ : Type*)
  /-- The caller saw that the mark is down. -/
  | looked (k : κ)
  | raised (k : κ) (t : Nat)
  | renewed (k : κ) (t : Nat)
  /-- The caller gave up. -/
  | closed (k : κ)
  /-- The mark was taken down, whoever raised it. -/
  | settled
  deriving DecidableEq

variable [DecidableEq κ]

def Entry.isBy (k : κ) : Entry κ → Bool
  | .looked i => i = k
  | .raised i _ => i = k
  | .renewed i _ => i = k
  | .closed _ => false
  | .settled => false

/-! ## Holding -/

def heldSince (j : κ) : List (Entry κ) → Option Nat
  | [] => none
  | .looked _ :: rest => heldSince j rest
  | .raised k t :: rest => if k = j then some t else heldSince j rest
  | .renewed k t :: rest => if k = j then some t else heldSince j rest
  | .closed k :: rest => if k = j then none else heldSince j rest
  | .settled :: _ => none

def Held (span now : Nat) (history : List (Entry κ)) (j : κ) : Prop :=
  ∃ t, heldSince j history = some t ∧ now < t + span

def since (k : κ) (history : List (Entry κ)) : List (Entry κ) :=
  history.takeWhile (· ≠ .looked k)

theorem since_cons {k : κ} {e : Entry κ} (hne : e ≠ .looked k) (history : List (Entry κ)) :
    since k (e :: history) = e :: since k history :=
  takeWhile_cons_of_pos (by simpa using hne)

/-- Histories that agree on a caller agree after one more entry. -/
theorem heldSince_cons_congr {j : κ} {history history' : List (Entry κ)} {t : Nat} (e : Entry κ)
    (hagree : heldSince j history = some t → heldSince j history' = some t)
    (h : heldSince j (e :: history) = some t) : heldSince j (e :: history') = some t := by
  cases e with
  | looked k => exact hagree h
  | settled => exact h
  | raised k t' | renewed k t' =>
    rw [heldSince] at h ⊢
    split
    · rename_i hk
      rw [if_pos hk] at h
      exact h
    · rename_i hk
      rw [if_neg hk] at h
      exact hagree h
  | closed k =>
    rw [heldSince] at h ⊢
    split
    · rename_i hk
      rw [if_pos hk] at h
      cases h
    · rename_i hk
      rw [if_neg hk] at h
      exact hagree h

theorem heldSince_of_isBy {j k : κ} {history : List (Entry κ)}
    (hby : ∀ e ∈ history, e.isBy k) (hne : j ≠ k) : heldSince j history = none := by
  induction history with
  | nil => rfl
  | cons e history ih =>
    have hrest := ih fun e' he' => hby e' (mem_cons_of_mem e he')
    have he := hby e mem_cons_self
    cases e with
    | looked i => exact hrest
    | raised i t | renewed i t =>
      rw [Entry.isBy, decide_eq_true_eq] at he
      rw [heldSince, if_neg fun hij => hne (hij.symm.trans he), hrest]
    | closed i => cases he
    | settled => cases he

theorem Held.mono {span now now' : Nat} {history : List (Entry κ)} {j : κ}
    (h : Held span now' history j) (hle : now ≤ now') : Held span now history j := by
  obtain ⟨t, hsince, hrecent⟩ := h
  exact ⟨t, hsince, Nat.lt_of_le_of_lt hle hrecent⟩

/-- Another caller's entry leaves what a caller holds. -/
theorem held_cons_of_ne {span now t : Nat} {history : List (Entry κ)} {j k : κ} {e : Entry κ}
    (hne : j ≠ k) (he : e = .raised k t ∨ e = .renewed k t ∨ e = .closed k) :
    Held span now (e :: history) j ↔ Held span now history j := by
  have hsame : heldSince j (e :: history) = heldSince j history := by
    rcases he with rfl | rfl | rfl <;> exact if_neg (Ne.symm hne)
  rw [Held, hsame]
  exact Iff.rfl

theorem not_held_closed {span now : Nat} {history : List (Entry κ)} {k : κ} :
    ¬ Held span now (.closed k :: history) k := by
  rintro ⟨t, hsince, -⟩
  rw [heldSince, if_pos rfl] at hsince
  cases hsince

/-! ## Boards -/

/-- The mark, what happened to it, and the callers that looked and may still raise or renew it. -/
structure Board (κ : Type*) where
  now : Nat
  up : Bool
  history : List (Entry κ)
  past : κ → Prop

/-- A mark that counts is up, what a caller that looked does not know about came later, and one caller
holds the mark at most. -/
structure Exclusive (span : Nat) (b : Board κ) : Prop where
  up : ∀ k, Held span b.now b.history k → b.up = true
  later : ∀ k, b.past k → ∀ j, j ≠ k → ∀ t, heldSince j b.history = some t → b.now < t + span →
    heldSince j (since k b.history) = some t
  one : ∀ j k, Held span b.now b.history j → Held span b.now b.history k → j = k

namespace Exclusive

variable {span : Nat} {b b' : Board κ}

/-- Time passes, callers go away, and a mark may be put up. -/
theorem mono (h : Exclusive span b) (hnow : b.now ≤ b'.now) (hhistory : b'.history = b.history)
    (hup : b.up → b'.up) (hpast : ∀ k, b'.past k → b.past k) : Exclusive span b' where
  up k hheld := by
    rw [hhistory] at hheld
    exact hup (h.up k (hheld.mono hnow))
  later k hk j hne t hsince hrecent := by
    rw [hhistory] at hsince ⊢
    exact h.later k (hpast k hk) j hne t hsince (Nat.lt_of_le_of_lt hnow hrecent)
  one j k hj hk := by
    rw [hhistory] at hj hk
    exact h.one j k (hj.mono hnow) (hk.mono hnow)

/-- Nobody holds the mark. -/
theorem of_none (hnone : ∀ j, ¬ Held span b'.now b'.history j) : Exclusive span b' where
  up j hheld := absurd hheld (hnone j)
  later _ _ j _ t hsince hrecent := absurd ⟨t, hsince, hrecent⟩ (hnone j)
  one j _ hj := absurd hj (hnone j)

/-- What other callers do after a caller looked is known from what happened since. -/
theorem later_cons {e : Entry κ} (h : Exclusive span b) (hnow : b'.now = b.now)
    (hhistory : b'.history = e :: b.history) (hlook : ∀ k, e ≠ .looked k) (hpast : ∀ k, b'.past k → b.past k) :
    ∀ k, b'.past k → ∀ j, j ≠ k → ∀ t, heldSince j b'.history = some t → b'.now < t + span →
      heldSince j (since k b'.history) = some t := by
  intro k hk j hne t hsince hrecent
  rw [hhistory] at hsince ⊢
  rw [since_cons (hlook k)]
  refine heldSince_cons_congr e (fun hbefore => ?_) hsince
  rw [hnow] at hrecent
  exact h.later k (hpast k hk) j hne t hbefore hrecent

/-- Nobody else holds the mark when nobody raised it since the caller looked. -/
theorem alone {k : κ} (h : Exclusive span b) (hk : b.past k)
    (hnone : ∀ j, j ≠ k → ¬ Held span b.now (since k b.history) j) : ∀ j, j ≠ k → ¬ Held span b.now b.history j := by
  rintro j hne ⟨t, hsince, hrecent⟩
  exact hnone j hne ⟨t, h.later k hk j hne t hsince hrecent, hrecent⟩

/-- Nobody else holds the mark of a caller that holds it. -/
theorem alone_of_held {k : κ} (h : Exclusive span b)
    (hk : Held span b.now b.history k ∨ ∀ j, j ≠ k → ¬ Held span b.now b.history j) :
    ∀ j, j ≠ k → ¬ Held span b.now b.history j := by
  rcases hk with hheld | halone
  · exact fun j hne hj => hne (h.one j k hj hheld)
  · exact halone

/-- The mark is raised or renewed by a caller when nobody else holds it. -/
theorem take {k : κ} {t : Nat} {e : Entry κ} (h : Exclusive span b)
    (he : e = .raised k t ∨ e = .renewed k t) (hnow : b'.now = b.now)
    (hhistory : b'.history = e :: b.history) (hup : b'.up) (hpast : ∀ k, b'.past k → b.past k)
    (halone : ∀ j, j ≠ k → ¬ Held span b.now b.history j) : Exclusive span b' := by
  -- the new entry is about `k` alone, so the others hold what they held
  have hother : ∀ j, Held span b'.now b'.history j → j = k := by
    intro j hheld
    by_contra hne
    rw [hnow, hhistory, held_cons_of_ne hne (he.imp id .inl)] at hheld
    exact halone j hne hheld
  have hlook : ∀ i, e ≠ .looked i := by
    intro i heq
    rcases he with rfl | rfl <;> cases heq
  exact {
    up := fun _ _ => hup
    later := h.later_cons hnow hhistory hlook hpast
    one := fun j i hj hi => (hother j hj).trans (hother i hi).symm }

/-- A caller that gives up takes the mark down, which is sound when nobody else holds it. -/
theorem close {k : κ} (hnow : b'.now = b.now) (hhistory : b'.history = .closed k :: b.history)
    (halone : ∀ j, j ≠ k → ¬ Held span b.now b.history j) : Exclusive span b' := by
  refine of_none fun j hheld => ?_
  rw [hnow, hhistory] at hheld
  by_cases hjk : j = k
  · subst hjk
    exact not_held_closed hheld
  · rw [held_cons_of_ne (t := 0) hjk (.inr (.inr rfl))] at hheld
    exact halone j hjk hheld

/-- A caller that looks finds the mark down. -/
theorem look {k : κ} (h : Exclusive span b) (hdown : b.up = false) (hnow : b'.now = b.now)
    (hhistory : b'.history = .looked k :: b.history) : Exclusive span b' := by
  refine of_none fun j hheld => ?_
  rw [hnow, hhistory] at hheld
  have hup := h.up j hheld
  rw [hdown] at hup
  cases hup

end Exclusive

/-! ## Steps -/

/-- What a step may do to a board. A caller that finds a mark that counts no more clears it. -/
inductive Effect (b b' : Board κ) : Prop
  | quiet (hnow : b.now ≤ b'.now) (hhistory : b'.history = b.history)
      (hup : b.up = true → b'.up = true) (hpast : ∀ k, b'.past k → b.past k)
  | looked (k : κ) (hdown : b.up = false) (hnow : b'.now = b.now)
      (hhistory : b'.history = .looked k :: b.history)
  | cleared (k : κ) (hhistory : b'.history = .looked k :: .settled :: b.history)
  | raised (k : κ) (hk : b.past k) (hnow : b'.now = b.now)
      (hhistory : b'.history = .raised k b.now :: b.history) (hup : b'.up = true)
      (hpast : ∀ k, b'.past k → b.past k)
  | renewed (k : κ) (hk : b.past k) (hnow : b'.now = b.now)
      (hhistory : b'.history = .renewed k b.now :: b.history) (hup : b'.up = true)
      (hpast : ∀ k, b'.past k → b.past k)
  | closed (k : κ) (hnow : b'.now = b.now) (hhistory : b'.history = .closed k :: b.history)

omit [DecidableEq κ] in
theorem Effect.history_subset {b b' : Board κ} (he : Effect b b') : b.history ⊆ b'.history := by
  have hcons : ∀ e : Entry κ, b.history ⊆ e :: b.history := fun e => subset_cons_self ..
  cases he with
  | quiet _ hhistory => rw [hhistory]; exact Subset.refl _
  | looked k _ _ hhistory => rw [hhistory]; exact hcons _
  | cleared k hhistory => rw [hhistory]; exact subset_cons_of_subset _ (hcons _)
  | raised k _ _ hhistory => rw [hhistory]; exact hcons _
  | renewed k _ _ hhistory => rw [hhistory]; exact hcons _
  | closed k _ hhistory => rw [hhistory]; exact hcons _

omit [DecidableEq κ] in
/-- The mark is renewed by a caller that looked. -/
theorem Effect.past_of_renewed {b b' : Board κ} {k : κ} (he : Effect b b')
    (hrenewed : b'.history = .renewed k b.now :: b.history) : b.past k := by
  cases he with
  | quiet _ hhistory => exact absurd (hrenewed.symm.trans hhistory) (cons_ne_self _ _)
  | looked i _ _ hhistory => cases hrenewed.symm.trans hhistory
  | cleared i hhistory => cases hrenewed.symm.trans hhistory
  | raised i _ _ hhistory => cases hrenewed.symm.trans hhistory
  | renewed i hi _ hhistory =>
    cases hrenewed.symm.trans hhistory
    exact hi
  | closed i _ hhistory => cases hrenewed.symm.trans hhistory

/-- The step does not go over the mark of another caller: a mark is raised when nobody raised it since
its caller looked, it is renewed while it counts or nobody else's does, and it is taken down when
nobody else holds it. -/
structure Stands (span : Nat) (b b' : Board κ) : Prop where
  raised : ∀ k, b'.history = .raised k b.now :: b.history → ∀ j, j ≠ k → ¬ Held span b.now (since k b.history) j
  renewed : ∀ k, b'.history = .renewed k b.now :: b.history →
    Held span b.now b.history k ∨ ∀ j, j ≠ k → ¬ Held span b.now b.history j
  closed : ∀ k, b'.history = .closed k :: b.history → ∀ j, j ≠ k → ¬ Held span b.now b.history j

/-- A caller that is alone and does not give up goes over nobody's mark. -/
theorem Stands.of_isBy {span : Nat} {b b' : Board κ} {k : κ}
    (hby : ∀ e ∈ b'.history, e.isBy k) (hsub : b.history ⊆ b'.history) :
    Stands span b b' where
  raised i hhistory := by
    have hi := hby _ (hhistory ▸ mem_cons_self)
    rw [Entry.isBy, decide_eq_true_eq] at hi
    rintro j hne ⟨t, hsince, -⟩
    have hbefore : ∀ e ∈ since i b.history, e.isBy k :=
      fun e he => hby e (hsub (takeWhile_subset _ he))
    rw [heldSince_of_isBy hbefore (hi ▸ hne)] at hsince
    cases hsince
  renewed i hhistory := by
    have hi := hby _ (hhistory ▸ mem_cons_self)
    rw [Entry.isBy, decide_eq_true_eq] at hi
    refine .inr ?_
    rintro j hne ⟨t, hsince, -⟩
    rw [heldSince_of_isBy (fun e he => hby e (hsub he)) (hi ▸ hne)] at hsince
    cases hsince
  closed i hhistory := by
    have hi := hby _ (hhistory ▸ mem_cons_self)
    cases hi

namespace Exclusive

variable {span : Nat} {b b' : Board κ}

/-- Steps that do not go over each other's marks leave one holder at most. -/
theorem step (h : Exclusive span b) (he : Effect b b') (hstands : Stands span b b') : Exclusive span b' := by
  cases he with
  | quiet hnow hhistory hup hpast => exact h.mono hnow hhistory hup hpast
  | looked k hdown hnow hhistory => exact h.look hdown hnow hhistory
  | cleared k hhistory =>
    refine of_none ?_
    rintro j ⟨t, hsince, -⟩
    rw [hhistory] at hsince
    cases hsince
  | raised k hk hnow hhistory hup hpast =>
    exact h.take (.inl rfl) hnow hhistory hup hpast (h.alone hk (hstands.raised k hhistory))
  | renewed k _ hnow hhistory hup hpast =>
    exact h.take (.inr rfl) hnow hhistory hup hpast (h.alone_of_held (hstands.renewed k hhistory))
  | closed k hnow hhistory => exact close hnow hhistory (hstands.closed k hhistory)

end Exclusive

end Lease
