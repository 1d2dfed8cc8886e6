-- SUMMARY: Event machines, the runs they take, and the rules that lift a step lemma to every run.
import Mathlib.Data.List.Infix

/-!
An event that is not enabled leaves the state as it is, so a run is any list of events. The rules below are the only
inductions over runs. A model states what one step preserves, under which guard, and takes the statement about runs
from here.
-/

/-- A deterministic machine: an initial state and the effect of each event. -/
structure Machine (σ ε : Type*) where
  init : σ
  step : σ → ε → σ

namespace Machine

variable {σ ε : Type*}

/-- The state after the events of `tr`, taken from `s`. -/
def exec (M : Machine σ ε) (s : σ) (tr : List ε) : σ :=
  tr.foldl M.step s

/-- The state after the events of `tr`, taken from the initial state. -/
def run (M : Machine σ ε) (tr : List ε) : σ :=
  M.exec M.init tr

@[simp] theorem exec_nil (M : Machine σ ε) (s : σ) : M.exec s [] = s := rfl

@[simp] theorem exec_cons (M : Machine σ ε) (s : σ) (e : ε) (tr : List ε) :
    M.exec s (e :: tr) = M.exec (M.step s e) tr := rfl

@[simp] theorem exec_append (M : Machine σ ε) (s : σ) (tr tr' : List ε) :
    M.exec s (tr ++ tr') = M.exec (M.exec s tr) tr' := by
  simp [exec]

@[simp] theorem run_nil (M : Machine σ ε) : M.run [] = M.init := rfl

@[simp] theorem run_append (M : Machine σ ε) (tr tr' : List ε) : M.run (tr ++ tr') = M.exec (M.run tr) tr' := by
  simp [run]

/-- `P` holds of every state that the run of `tr` passes through. -/
def Always (M : Machine σ ε) (P : σ → Prop) (tr : List ε) : Prop :=
  ∀ pre, pre <+: tr → P (M.run pre)

/-- Every event of `tr` meets the guard `C` in the state it is taken in. -/
def Guarded (M : Machine σ ε) (C : σ → ε → Prop) (tr : List ε) : Prop :=
  ∀ pre e, pre ++ [e] <+: tr → C (M.run pre) e

variable {M : Machine σ ε}

theorem always_nil {P : σ → Prop} : M.Always P [] ↔ P M.init := by
  constructor
  · intro h
    exact h [] (List.prefix_refl _)
  · intro h pre hpre
    rw [List.prefix_nil.mp hpre]
    exact h

variable {tr : List ε}

/-- The states of a longer run are those of the shorter one and the state it ends in. -/
theorem always_snoc {P : σ → Prop} {e : ε} : M.Always P (tr ++ [e]) ↔ M.Always P tr ∧ P (M.step (M.run tr) e) := by
  constructor
  · intro h
    refine ⟨fun pre hpre => h pre (hpre.trans (List.prefix_append _ _)), ?_⟩
    simpa using h _ (List.prefix_refl _)
  · rintro ⟨h, hlast⟩ pre hpre
    rcases List.prefix_concat_iff.mp hpre with rfl | hpre
    · simpa using hlast
    · exact h pre hpre

variable {C : σ → ε → Prop}

theorem guarded_nil : M.Guarded C [] := by
  intro pre e h
  simp at h

/-- The steps of a longer run are those of the shorter one and the step it ends with. -/
theorem guarded_snoc {e : ε} : M.Guarded C (tr ++ [e]) ↔ M.Guarded C tr ∧ C (M.run tr) e := by
  constructor
  · intro h
    refine ⟨fun pre e' hpre => h pre e' (hpre.trans (List.prefix_append _ _)), ?_⟩
    exact h tr e (List.prefix_refl _)
  · rintro ⟨h, hlast⟩ pre e' hpre
    rcases List.prefix_concat_iff.mp hpre with heq | hpre
    · obtain ⟨rfl, rfl⟩ := List.append_singleton_inj.mp heq
      exact hlast
    · exact h pre e' hpre

theorem guarded_of_forall (h : ∀ e ∈ tr, ∀ s, C s e) : M.Guarded C tr :=
  fun pre e hpre => h e (hpre.subset (by simp)) (M.run pre)

theorem Always.mono {P Q : σ → Prop} (h : M.Always P tr) (hPQ : ∀ s, P s → Q s) : M.Always Q tr :=
  fun pre hpre => hPQ _ (h pre hpre)

/-- The last state of a run is one of its states. -/
theorem Always.last {P : σ → Prop} (h : M.Always P tr) : P (M.run tr) := h tr (List.prefix_refl _)

/-- The guard along the events of `tr`, taken from `s` one by one. -/
def GuardedFrom (M : Machine σ ε) (C : σ → ε → Prop) : σ → List ε → Prop
  | _, [] => True
  | s, e :: tr => C s e ∧ GuardedFrom M C (M.step s e) tr

instance instDecidableGuardedFrom (M : Machine σ ε) (C : σ → ε → Prop) [∀ s e, Decidable (C s e)] :
    ∀ s tr, Decidable (M.GuardedFrom C s tr)
  | _, [] => inferInstanceAs (Decidable True)
  | s, e :: tr =>
    have := instDecidableGuardedFrom M C (M.step s e) tr
    inferInstanceAs (Decidable (C s e ∧ M.GuardedFrom C (M.step s e) tr))

theorem guardedFrom_snoc {s : σ} {e : ε} :
    M.GuardedFrom C s (tr ++ [e]) ↔ M.GuardedFrom C s tr ∧ C (M.exec s tr) e := by
  induction tr generalizing s with
  | nil => simp [GuardedFrom]
  | cons e' tr ih =>
    rw [List.cons_append, GuardedFrom, GuardedFrom, ih, exec_cons, and_assoc]

/-- The guard of a run can be checked event by event. -/
theorem guarded_iff_guardedFrom : M.Guarded C tr ↔ M.GuardedFrom C M.init tr := by
  induction tr using List.reverseRecOn with
  | nil => exact iff_of_true guarded_nil trivial
  | append_singleton tr e ih => rw [guarded_snoc, guardedFrom_snoc, ih, run]

/-- What holds initially and is kept by every step that meets the guard holds along every run
whose steps all meet it. -/
theorem Guarded.always {I : σ → Prop} (hinit : I M.init) (hstep : ∀ s e, I s → C s e → I (M.step s e))
    (h : M.Guarded C tr) : M.Always I tr := by
  induction tr using List.reverseRecOn with
  | nil => exact always_nil.mpr hinit
  | append_singleton tr e ih =>
    obtain ⟨htr, he⟩ := guarded_snoc.mp h
    have hpre : M.Always I tr := ih htr
    exact always_snoc.mpr ⟨hpre, hstep _ _ hpre.last he⟩

/-- A guard ensures what follows from it and from an invariant that the guarded steps keep. -/
theorem Guarded.ensures {C D : σ → ε → Prop} {I : σ → Prop}
    (hinit : I M.init) (hstep : ∀ s e, I s → C s e → I (M.step s e))
    (hensures : ∀ s e, I s → C s e → D s e) (h : M.Guarded C tr) : M.Guarded D tr := by
  intro pre e hpre
  have hI := h.always hinit hstep pre ((List.prefix_append _ _).trans hpre)
  exact hensures _ _ hI (h pre e hpre)

/-- What holds initially and is kept by every step holds after every run. -/
theorem invariant {I : σ → Prop} (hinit : I M.init)
    (hstep : ∀ s e, I s → I (M.step s e)) (tr : List ε) : I (M.run tr) := by
  have hguard : M.Guarded (fun _ _ => True) tr := fun _ _ _ => trivial
  exact (hguard.always hinit (fun s e h _ => hstep s e h)).last

/-- A property is exact for a guard when the guarded steps keep an invariant that gives the
property, and a step that breaks the guard breaks the property: then the runs whose states all
have the property are the runs whose steps all meet the guard. -/
theorem always_iff_guarded {I P : σ → Prop} (hinit : I M.init) (hstep : ∀ s e, I s → C s e → I (M.step s e))
    (hinv : ∀ s, I s → P s) (hbreak : ∀ s e, I s → ¬ C s e → ¬ P (M.step s e))
    (tr : List ε) : M.Always P tr ↔ M.Guarded C tr := by
  constructor
  · intro h
    induction tr using List.reverseRecOn with
    | nil => exact guarded_nil
    | append_singleton tr e ih =>
      obtain ⟨htr, hlast⟩ := always_snoc.mp h
      have hguard : M.Guarded C tr := ih htr
      have hI : I (M.run tr) := (hguard.always hinit hstep).last
      refine guarded_snoc.mpr ⟨hguard, ?_⟩
      by_contra hC
      exact hbreak _ _ hI hC hlast
  · intro h
    exact (h.always hinit hstep).mono hinv

/-- What every step keeps, unless it is a release, holds until a release is taken. -/
theorem exec_until {P : σ → Prop} {R : σ → ε → Prop}
    (hstep : ∀ s e, P s → P (M.step s e) ∨ R s e) {s : σ} (hs : P s) (tr : List ε) :
    P (M.exec s tr) ∨ ∃ pre e post, tr = pre ++ e :: post ∧ P (M.exec s pre) ∧ R (M.exec s pre) e := by
  induction tr using List.reverseRecOn with
  | nil => exact .inl hs
  | append_singleton tr e ih =>
    rcases ih with hP | ⟨pre, e', post, rfl, hP, hR⟩
    · rcases hstep _ e hP with hP' | hR
      · left
        simpa using hP'
      · exact .inr ⟨tr, e, [], rfl, hP, hR⟩
    · exact .inr ⟨pre, e', post ++ [e], by simp, hP, hR⟩

end Machine
