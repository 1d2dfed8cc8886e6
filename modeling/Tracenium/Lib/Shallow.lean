-- SUMMARY: Relations along which no walk from a point is longer than a bound.
import Mathlib.Logic.Relation

open Relation

variable {α : Type*} {r : α → α → Prop} {k : Nat} {a b : α}

/-- No walk from `a` takes `k` steps. -/
def Shallow (r : α → α → Prop) : Nat → α → Prop
  | 0, _ => False
  | k + 1, a => ∀ b, r a b → Shallow r k b

namespace Shallow

theorem step (ha : Shallow r (k + 1) a) (hab : r a b) : Shallow r k b := ha b hab

/-- Steps that go down in rank. -/
theorem of_rank (rank : α → Nat) (hrank : ∀ a b, r a b → rank b < rank a) (ha : rank a < k) : Shallow r k a := by
  induction k generalizing a with
  | zero => exact absurd ha (Nat.not_lt_zero _)
  | succ k ih => exact fun b hab => ih (Nat.lt_of_lt_of_le (hrank a b hab) (Nat.le_of_lt_succ ha))

/-- A shallow point lies on no cycle. -/
theorem not_cycle (ha : Shallow r k a) : ¬ TransGen r a a := by
  induction k generalizing a with
  | zero => exact ha.elim
  | succ k ih =>
    intro hcycle
    obtain ⟨b, hab, hba⟩ := TransGen.head'_iff.mp hcycle
    -- the cycle goes through the next point as well
    exact ih (ha.step hab) (TransGen.tail' hba hab)

end Shallow
