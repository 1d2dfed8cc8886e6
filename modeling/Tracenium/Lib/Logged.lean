-- SUMMARY: Computations that log events and may fail: what holds of every event, how many there are, and what they compute.
import Mathlib.Algebra.GroupWithZero.Nat
import Mathlib.Data.List.Basic
import Mathlib.Order.Basic

/-! A computation that fails keeps the events before the failure. -/

open List

structure Logged (ε δ : Type) (α : Type) where
  log : List ε
  result : Except δ α

namespace Logged

open Logged

variable {ε δ : Type} {α β : Type}

/-- The second computation is not run after a failure. -/
def andThen (m : Logged ε δ α) (f : α → Logged ε δ β) : Logged ε δ β :=
  match m.result with
  | .error e => ⟨m.log, .error e⟩
  | .ok a => ⟨m.log ++ (f a).log, (f a).result⟩

instance : Monad (Logged ε δ) where
  pure a := ⟨[], .ok a⟩
  bind := andThen

def emit (e : ε) : Logged ε δ Unit := ⟨[e], .ok ⟨⟩⟩

def fail (e : δ) : Logged ε δ α := ⟨[], .error e⟩

/-- A computation without events. -/
def ofExcept (x : Except δ α) : Logged ε δ α := ⟨[], x⟩

/-- The second is run after a failure of the first. -/
def orElse (m : Logged ε δ α) (f : δ → Logged ε δ α) : Logged ε δ α :=
  match m.result with
  | .error e => ⟨m.log ++ (f e).log, (f e).result⟩
  | .ok _ => m

theorem result_pure (a : α) : (pure a : Logged ε δ α).result = .ok a := rfl

theorem ok_of_bind {m : Logged ε δ α} {f : α → Logged ε δ β} {b : β} (h : (m >>= f).result = .ok b) :
    ∃ a, m.result = .ok a ∧ (f a).result = .ok b := by
  change (andThen m f).result = .ok b at h
  cases hm : m.result with
  | error e => simp [andThen, hm] at h
  | ok a => exact ⟨a, rfl, by simpa [andThen, hm] using h⟩

theorem mem_log_bind {m : Logged ε δ α} {f : α → Logged ε δ β} {e : ε} :
    e ∈ (m >>= f).log ↔ e ∈ m.log ∨ ∃ a, m.result = .ok a ∧ e ∈ (f a).log := by
  change e ∈ (andThen m f).log ↔ _
  cases hm : m.result with
  | error e => simp [andThen, hm]
  | ok a => simp [andThen, hm]

section Events

variable {P : ε → Prop} {m : Logged ε δ α} {f : α → Logged ε δ β}

/-- `P` holds of every event. -/
def All (P : ε → Prop) (m : Logged ε δ α) : Prop := ∀ e ∈ m.log, P e

@[simp] theorem all_pure (a : α) : All P (pure a : Logged ε δ α) := fun _ h => nomatch h

@[simp] theorem all_fail (e : δ) : All P (fail e : Logged ε δ α) := fun _ h => nomatch h

@[simp] theorem all_ofExcept (x : Except δ α) : All P (ofExcept x : Logged ε δ α) := fun _ h => nomatch h

@[simp] theorem all_emit {e : ε} : All P (emit e : Logged ε δ Unit) ↔ P e := by simp [All, emit]

theorem all_bind : All P (m >>= f) ↔ All P m ∧ ∀ a, m.result = .ok a → All P (f a) := by
  change All P (andThen m f) ↔ _
  cases h : m.result with
  | error e => simp [All, andThen, h]
  | ok a => simp [All, andThen, h, or_imp, forall_and]

theorem all_orElse {f : δ → Logged ε δ α} :
    All P (orElse m f) ↔ All P m ∧ ∀ e, m.result = .error e → All P (f e) := by
  cases h : m.result with
  | error e => simp [All, orElse, h, or_imp, forall_and]
  | ok a => simp [orElse, h]

theorem All.bind (hm : All P m) (hf : ∀ a, m.result = .ok a → All P (f a)) : All P (m >>= f) := all_bind.mpr ⟨hm, hf⟩

theorem All.orElse {f : δ → Logged ε δ α} (hm : All P m) (hf : ∀ e, m.result = .error e → All P (f e)) :
    All P (orElse m f) := all_orElse.mpr ⟨hm, hf⟩

theorem All.mono {Q : ε → Prop} (h : All P m) (hPQ : ∀ e, P e → Q e) : All Q m := fun e he => hPQ e (h e he)

theorem All.foldlM {γ : Type} {σ : Type} {f : σ → γ → Logged ε δ σ} {l : List γ} (h : ∀ s, ∀ c ∈ l, All P (f s c))
    (s : σ) : All P (l.foldlM f s) := by
  induction l generalizing s with
  | nil => simp
  | cons c l ih =>
    rw [foldlM_cons, all_bind]
    exact ⟨h s c mem_cons_self, fun a _ => ih (fun s c hc => h s c (mem_cons_of_mem _ hc)) a⟩

end Events

section Cost

variable {w : ε → Nat} {m : Logged ε δ α} {f : α → Logged ε δ β} {n k : Nat}

def cost (w : ε → Nat) (m : Logged ε δ α) : Nat := (m.log.map w).sum

@[simp] theorem cost_pure (a : α) : cost w (pure a : Logged ε δ α) = 0 := rfl

@[simp] theorem cost_fail (e : δ) : cost w (fail e : Logged ε δ α) = 0 := rfl

@[simp] theorem cost_ofExcept (x : Except δ α) : cost w (ofExcept x : Logged ε δ α) = 0 := rfl

@[simp] theorem cost_emit (e : ε) : cost w (emit e : Logged ε δ Unit) = w e := by simp [cost, emit]

theorem cost_eq_zero (h : All (fun e => w e = 0) m) : cost w m = 0 := by
  have hzero : m.log.map w = m.log.map fun _ => 0 := map_congr_left h
  rw [cost, hzero]
  simp

theorem cost_bind_le (hm : cost w m ≤ n) (hf : ∀ a, m.result = .ok a → cost w (f a) ≤ k) :
    cost w (m >>= f) ≤ n + k := by
  change cost w (andThen m f) ≤ n + k
  cases h : m.result with
  | error e =>
    simp only [andThen, h]
    exact Nat.le_add_right_of_le hm
  | ok a =>
    simp only [andThen, h, cost, map_append, sum_append]
    exact Nat.add_le_add hm (hf a h)

theorem cost_orElse_le {f : δ → Logged ε δ α} (hm : cost w m ≤ n) (hf : ∀ e, m.result = .error e → cost w (f e) ≤ k) :
    cost w (orElse m f) ≤ n + k := by
  cases h : m.result with
  | error e =>
    simp only [orElse, h, cost, map_append, sum_append]
    exact Nat.add_le_add hm (hf e h)
  | ok a =>
    simp only [orElse, h]
    exact Nat.le_add_right_of_le hm

theorem cost_foldlM_le {γ σ : Type} {f : σ → γ → Logged ε δ σ} {l : List γ} (h : ∀ s, ∀ c ∈ l, cost w (f s c) ≤ n)
    (s : σ) : cost w (l.foldlM f s) ≤ l.length * n := by
  induction l generalizing s with
  | nil => simp
  | cons c l ih =>
    rw [foldlM_cons, length_cons, Nat.succ_mul, Nat.add_comm]
    exact cost_bind_le (h s c mem_cons_self) fun a _ => ih (fun s c hc => h s c (mem_cons_of_mem _ hc)) a

end Cost

section Bounds

variable {P : ε → Prop} {w : ε → Nat} {m : Logged ε δ α} {f : α → Logged ε δ β} {n k : Nat}

structure Within (P : ε → Prop) (w : ε → Nat) (n : Nat) (m : Logged ε δ α) : Prop where
  all : All P m
  cost_le : cost w m ≤ n

theorem Within.pure (a : α) : Within P w n (Pure.pure a : Logged ε δ α) := ⟨all_pure a, by simp⟩

theorem Within.fail (e : δ) : Within P w n (fail e : Logged ε δ α) := ⟨all_fail e, by simp⟩

theorem Within.ofExcept (x : Except δ α) : Within P w n (ofExcept x) := ⟨all_ofExcept x, by simp⟩

theorem Within.mono (h : Within P w n m) (hle : n ≤ k) : Within P w k m := ⟨h.all, Nat.le_trans h.cost_le hle⟩

theorem Within.bind (hm : Within P w n m) (hf : ∀ a, m.result = .ok a → Within P w k (f a)) :
    Within P w (n + k) (m >>= f) :=
  ⟨hm.all.bind fun a ha => (hf a ha).all, cost_bind_le hm.cost_le fun a ha => (hf a ha).cost_le⟩

/-- What comes first costs nothing. -/
theorem Within.free (hm : Within P w 0 m) (hf : ∀ a, m.result = .ok a → Within P w k (f a)) :
    Within P w k (m >>= f) := by
  simpa using hm.bind hf

theorem Within.emit {e : ε} {f : Unit → Logged ε δ β} (he : P e) (hcost : w e ≤ n) (hf : Within P w k (f ())) :
    Within P w (n + k) (emit e >>= f) :=
  Within.bind ⟨all_emit.mpr he, by simpa using hcost⟩ fun _ _ => hf

theorem Within.orElse {f : δ → Logged ε δ α} (hm : Within P w n m)
    (hf : ∀ e, m.result = .error e → Within P w k (f e)) : Within P w (n + k) (orElse m f) :=
  ⟨hm.all.orElse fun e he => (hf e he).all, cost_orElse_le hm.cost_le fun e he => (hf e he).cost_le⟩

theorem Within.foldlM {γ σ : Type} {f : σ → γ → Logged ε δ σ} {l : List γ}
    (h : ∀ s, ∀ c ∈ l, Within P w n (f s c)) (s : σ) : Within P w (l.length * n) (l.foldlM f s) :=
  ⟨All.foldlM (fun s c hc => (h s c hc).all) s, cost_foldlM_le (fun s c hc => (h s c hc).cost_le) s⟩

end Bounds

section Refinement

variable {good : ε → Prop} {m : Logged ε δ α} {f : α → Logged ε δ β} {o : Option α} {g : α → Option β}

/-- If the events are good, the result is that of a plain function. -/
def Refines (good : ε → Prop) (m : Logged ε δ α) (o : Option α) : Prop := All good m → m.result.toOption = o

theorem Refines.pure (a : α) : Refines good (Pure.pure a : Logged ε δ α) (some a) := fun _ => rfl

theorem Refines.fail (e : δ) : Refines good (fail e : Logged ε δ α) none := fun _ => rfl

theorem Refines.ofExcept (x : Except δ α) : Refines good (ofExcept x : Logged ε δ α) x.toOption := fun _ => rfl

theorem Refines.bind (hm : Refines good m o) (hf : ∀ a, m.result = .ok a → Refines good (f a) (g a)) :
    Refines good (m >>= f) (o.bind g) := by
  intro hgood
  rw [all_bind] at hgood
  rw [← hm hgood.1]
  change (andThen m f).result.toOption = _
  cases h : m.result with
  | error e => simp [andThen, h, Except.toOption]
  | ok a =>
    simp only [andThen, h]
    exact hf a h (hgood.2 a h)

/-- A good event, and what comes after it. -/
theorem Refines.emit {e : ε} {m : Logged ε δ α} (h : good e → Refines good m o) :
    Refines good (emit e >>= fun _ => m) o := by
  intro hgood
  rw [all_bind, all_emit] at hgood
  exact h hgood.1 (hgood.2 () rfl)

theorem Refines.orElse {f : δ → Logged ε δ α} {o' : Option α} (hm : Refines good m o)
    (hf : ∀ e, m.result = .error e → Refines good (f e) o') : Refines good (orElse m f) (o.or o') := by
  intro hgood
  rw [all_orElse] at hgood
  rw [← hm hgood.1]
  cases h : m.result with
  | error e =>
    simp only [Logged.orElse, h]
    exact hf e h (hgood.2 e h)
  | ok a => simp [Logged.orElse, h, Except.toOption]

theorem Refines.foldlM {γ σ : Type} {f : σ → γ → Logged ε δ σ} {g : σ → γ → Option σ} {l : List γ}
    (h : ∀ s, ∀ c ∈ l, Refines good (f s c) (g s c)) (s : σ) : Refines good (l.foldlM f s) (l.foldlM g s) := by
  induction l generalizing s with
  | nil => exact Refines.pure s
  | cons c l ih =>
    exact (h s c mem_cons_self).bind fun a _ => ih (fun s c hc => h s c (mem_cons_of_mem _ hc)) a

end Refinement

end Logged
