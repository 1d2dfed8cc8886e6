-- SUMMARY: Operations performed in a row that may stop after any of them.
import Mathlib.Data.List.TakeDrop

namespace Cuts

variable {σ α : Type*}

/-- The first `k` of the operations, performed one after the other. -/
def perform (ops : List (σ → σ)) (k : Nat) (s : σ) : σ :=
  (ops.take k).foldl (fun s op => op s) s

@[simp] theorem perform_nil (k : Nat) (s : σ) : perform [] k s = s := by
  simp [perform]

@[simp] theorem perform_zero (ops : List (σ → σ)) (s : σ) : perform ops 0 s = s := by
  simp [perform]

@[simp] theorem perform_cons_succ (op : σ → σ) (ops : List (σ → σ)) (k : Nat) (s : σ) :
    perform (op :: ops) (k + 1) s = perform ops k (op s) := by
  simp [perform]

/-- The second row of operations begins when the first one is through. -/
theorem perform_append (ops ops' : List (σ → σ)) (k : Nat) (s : σ) :
    perform (ops ++ ops') k s = perform ops' (k - ops.length) (perform ops k s) := by
  simp [perform, List.take_append]

/-- What each operation keeps is kept wherever the row stops. -/
theorem perform_induction {I : σ → Prop} {ops : List (σ → σ)} (hops : ∀ op ∈ ops, ∀ s, I s → I (op s))
    (k : Nat) {s : σ} (hs : I s) : I (perform ops k s) := by
  induction ops generalizing k s with
  | nil => simpa using hs
  | cons op ops ih =>
    cases k with
    | zero => simpa using hs
    | succ k =>
      exact ih (fun op' hop' => hops op' (List.mem_cons_of_mem op hop')) k (hops op List.mem_cons_self s hs)

end Cuts
