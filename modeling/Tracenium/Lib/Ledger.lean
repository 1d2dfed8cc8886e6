-- SUMMARY: Ledgers of things that are opened and closed, and when every one that was opened is closed once.
import Tracenium.Lib.Machine
import Mathlib.Data.List.Count

/-!
A step slips when it closes something that stays outstanding, or drops something that was never closed. What slipped
once is never made good.
-/

open List Nat

inductive LedgerEntry
  | opens
  | closes
  deriving DecidableEq

structure Ledger (τ : Type*) where
  log : List (τ × LedgerEntry)
  outstanding : τ → Prop

namespace Ledger

variable {τ : Type*} [DecidableEq τ]

def closings (log : List (τ × LedgerEntry)) (t : τ) : Nat := log.count (t, .closes)

/-- Whatever is opened is closed once after that. -/
def Balanced (L : Ledger τ) : Prop :=
  ∀ before t after, L.log = before ++ (t, .opens) :: after → closings after t = 1

inductive Step : Ledger τ → Ledger τ → Prop
  | idle {L L' : Ledger τ} (hlog : L'.log = L.log)
      (hout : ∀ u, L'.outstanding u ↔ L.outstanding u) : Step L L'
  | opens {L L' : Ledger τ} (t : τ) (hlog : L'.log = L.log ++ [(t, .opens)])
      (hnew : ∀ r ∈ L.log, r.1 ≠ t) (hout : ∀ u, L'.outstanding u ↔ u = t ∨ L.outstanding u) :
      Step L L'
  | closes {L L' : Ledger τ} (t : τ) (hlog : L'.log = L.log ++ [(t, .closes)])
      (hopen : L.outstanding t) (hout : ∀ u, L'.outstanding u ↔ u ≠ t ∧ L.outstanding u) : Step L L'
  | refuses {L L' : Ledger τ} (t : τ) (hlog : L'.log = L.log ++ [(t, .closes)])
      (hnew : (t, LedgerEntry.opens) ∉ L.log) (hout : ∀ u, L'.outstanding u ↔ L.outstanding u) :
      Step L L'

inductive Slip : Ledger τ → Ledger τ → Prop
  | again {L L' : Ledger τ} (t : τ) (hlog : L'.log = L.log ++ [(t, .closes)])
      (hopen : L.outstanding t) (hout : ∀ u, L'.outstanding u ↔ L.outstanding u) : Slip L L'
  | drops {L L' : Ledger τ} (t : τ) (hlog : L'.log = L.log) (hopen : L.outstanding t)
      (hgone : ¬ L'.outstanding t) (hsub : ∀ u, L'.outstanding u → L.outstanding u)
      (hunclosed : ∀ u, L.outstanding u → ¬ L'.outstanding u → closings L.log u = 0) : Slip L L'

theorem closings_append (l l' : List (τ × LedgerEntry)) (t : τ) :
    closings (l ++ l') t = closings l t + closings l' t := count_append

theorem closings_opens (t u : τ) : closings [(u, .opens)] t = 0 := count_eq_zero.mpr (by simp)

theorem closings_self (t : τ) : closings [(t, .closes)] t = 1 := count_singleton_self

theorem closings_of_ne {t u : τ} (h : u ≠ t) : closings [(u, .closes)] t = 0 :=
  count_eq_zero.mpr (by simpa using h.symm)

/-- What holds of every ledger: nothing is recorded before it is opened, and what is outstanding was
opened. -/
structure Orderly (L : Ledger τ) : Prop where
  first : L.log.Pairwise fun a b => b.2 = .opens → a.1 ≠ b.1
  opened : ∀ t, L.outstanding t → (t, .opens) ∈ L.log

/-- What is outstanding was not closed, and what was opened and is not outstanding was closed once. -/
structure Sound (L : Ledger τ) : Prop extends Orderly L where
  unclosed : ∀ t, L.outstanding t → closings L.log t = 0
  closed : ∀ t, (t, LedgerEntry.opens) ∈ L.log → ¬ L.outstanding t → closings L.log t = 1

/-- What was opened and can not be closed once any more. -/
def Spoilt (L : Ledger τ) (t : τ) : Prop :=
  (t, .opens) ∈ L.log ∧ ((¬ L.outstanding t ∧ closings L.log t = 0) ∨ (L.outstanding t ∧ 1 ≤ closings L.log t) ∨
      2 ≤ closings L.log t)

section Steps

variable {L L' : Ledger τ}

omit [DecidableEq τ] in
theorem first_append {log : List (τ × LedgerEntry)} {t : τ} {entry : LedgerEntry}
    (h : log.Pairwise fun a b => b.2 = .opens → a.1 ≠ b.1) (hnew : entry = .opens → ∀ r ∈ log, r.1 ≠ t) :
    (log ++ [(t, entry)]).Pairwise fun a b => b.2 = .opens → a.1 ≠ b.1 := by
  refine pairwise_append.mpr ⟨h, pairwise_singleton _ _, ?_⟩
  intro r hr r' hr' hopens
  obtain rfl := mem_singleton.mp hr'
  exact hnew hopens r hr

omit [DecidableEq τ] in
theorem Orderly.step (hL : Orderly L) (h : Step L L') : Orderly L' := by
  cases h with
  | idle hlog hout =>
    constructor
    · rw [hlog]
      exact hL.first
    · intro t ht
      rw [hlog]
      exact hL.opened t ((hout t).mp ht)
  | opens t hlog hnew hout =>
    constructor
    · rw [hlog]
      exact first_append hL.first fun _ => hnew
    · intro u hu
      rw [hlog]
      rcases (hout u).mp hu with rfl | hu
      · exact mem_append_right _ (mem_singleton_self _)
      · exact mem_append_left _ (hL.opened u hu)
  | closes t hlog hopen hout =>
    constructor
    · rw [hlog]
      exact first_append hL.first nofun
    · intro u hu
      rw [hlog]
      exact mem_append_left _ (hL.opened u ((hout u).mp hu).2)
  | refuses t hlog hnew hout =>
    constructor
    · rw [hlog]
      exact first_append hL.first nofun
    · intro u hu
      rw [hlog]
      exact mem_append_left _ (hL.opened u ((hout u).mp hu))

theorem Orderly.slip (hL : Orderly L) (h : Slip L L') : Orderly L' := by
  cases h with
  | again t hlog hopen hout =>
    constructor
    · rw [hlog]
      exact first_append hL.first nofun
    · intro u hu
      rw [hlog]
      exact mem_append_left _ (hL.opened u ((hout u).mp hu))
  | drops t hlog hopen hgone hsub hunclosed =>
    constructor
    · rw [hlog]
      exact hL.first
    · intro u hu
      rw [hlog]
      exact hL.opened u (hsub u hu)

theorem Sound.step (hL : Sound L) (h : Step L L') : Sound L' := by
  refine ⟨hL.toOrderly.step h, ?_, ?_⟩
  · intro u hu
    cases h with
    | idle hlog hout =>
      rw [hlog]
      exact hL.unclosed u ((hout u).mp hu)
    | opens t hlog hnew hout =>
      rw [hlog, closings_append, closings_opens]
      rcases (hout u).mp hu with rfl | hu
      · exact count_eq_zero.mpr fun hmem => hnew _ hmem rfl
      · exact hL.unclosed u hu
    | closes t hlog hopen hout =>
      obtain ⟨hne, hu⟩ := (hout u).mp hu
      rw [hlog, closings_append, closings_of_ne hne.symm]
      exact hL.unclosed u hu
    | refuses t hlog hnew hout =>
      have hu := (hout u).mp hu
      have hne : t ≠ u := by
        rintro rfl
        exact hnew (hL.opened t hu)
      rw [hlog, closings_append, closings_of_ne hne]
      exact hL.unclosed u hu
  · intro u hmem hu
    cases h with
    | idle hlog hout =>
      rw [hlog] at hmem ⊢
      exact hL.closed u hmem fun h => hu ((hout u).mpr h)
    | opens t hlog hnew hout =>
      have hne : u ≠ t := fun h => hu ((hout u).mpr (.inl h))
      rw [hlog] at hmem ⊢
      rw [closings_append, closings_opens]
      refine hL.closed u ?_ fun h => hu ((hout u).mpr (.inr h))
      rcases mem_append.mp hmem with hmem | hmem
      · exact hmem
      · exact absurd (congrArg Prod.fst (mem_singleton.mp hmem)) hne
    | closes t hlog hopen hout =>
      rw [hlog] at hmem ⊢
      rw [closings_append]
      by_cases hut : u = t
      · subst hut
        rw [closings_self, hL.unclosed u hopen]
      · rw [closings_of_ne (Ne.symm hut)]
        refine hL.closed u ?_ fun h => hu ((hout u).mpr ⟨hut, h⟩)
        rcases mem_append.mp hmem with hmem | hmem
        · exact hmem
        · cases congrArg Prod.snd (mem_singleton.mp hmem)
    | refuses t hlog hnew hout =>
      rw [hlog] at hmem ⊢
      have hmem : (u, .opens) ∈ L.log := by
        rcases mem_append.mp hmem with hmem | hmem
        · exact hmem
        · cases congrArg Prod.snd (mem_singleton.mp hmem)
      have hne : t ≠ u := by
        rintro rfl
        exact hnew hmem
      rw [closings_append, closings_of_ne hne]
      exact hL.closed u hmem fun h => hu ((hout u).mpr h)

/-- What a slip leaves is spoilt. -/
theorem Sound.slip (hL : Sound L) (h : Slip L L') : ∃ t, Spoilt L' t := by
  cases h with
  | again t hlog hopen hout =>
    refine ⟨t, ?_, .inr (.inl ⟨(hout t).mpr hopen, ?_⟩)⟩
    · rw [hlog]
      exact mem_append_left _ (hL.opened t hopen)
    · rw [hlog, closings_append, closings_self]
      exact le_add_left _ _
  | drops t hlog hopen hgone hsub hunclosed =>
    refine ⟨t, ?_, .inl ⟨hgone, ?_⟩⟩
    · rw [hlog]
      exact hL.opened t hopen
    · rw [hlog]
      exact hunclosed t hopen hgone

/-- What was closed more often than once stays so. -/
theorem Spoilt.of_append {t : τ} {rest : List (τ × LedgerEntry)} (hlog : L'.log = L.log ++ rest)
    (hmem : (t, LedgerEntry.opens) ∈ L.log) (h : 2 ≤ closings L.log t) : Spoilt L' t := by
  refine ⟨?_, .inr (.inr ?_)⟩
  · rw [hlog]
    exact mem_append_left _ hmem
  · rw [hlog, closings_append]
    exact le_add_right_of_le h

/-- Records of another thing change nothing about one. -/
theorem Spoilt.of_ne {t u : τ} {entry : LedgerEntry} (h : Spoilt L u) (hne : t ≠ u)
    (hlog : L'.log = L.log ++ [(t, entry)]) (hout : L'.outstanding u ↔ L.outstanding u) : Spoilt L' u := by
  have hsame : closings L'.log u = closings L.log u := by
    rw [hlog, closings_append]
    cases entry with
    | opens => rw [closings_opens, Nat.add_zero]
    | closes => rw [closings_of_ne hne, Nat.add_zero]
  refine ⟨?_, ?_⟩
  · rw [hlog]
    exact mem_append_left _ h.1
  · rw [hsame, hout]
    exact h.2

theorem Spoilt.step {u : τ} (hu : Spoilt L u) (h : Step L L') : Spoilt L' u := by
  cases h with
  | idle hlog hout =>
    unfold Spoilt
    rw [hlog, hout]
    exact hu
  | opens t hlog hnew hout =>
    have hne : t ≠ u := (hnew _ hu.1).symm
    apply hu.of_ne hne hlog
    rw [hout]
    exact or_iff_right hne.symm
  | closes t hlog hopen hout =>
    by_cases hut : t = u
    · subst hut
      rcases hu.2 with ⟨hgone, -⟩ | ⟨-, hone⟩ | htwo
      · exact absurd hopen hgone
      · refine ⟨?_, .inr (.inr ?_)⟩
        · rw [hlog]
          exact mem_append_left _ hu.1
        · rw [hlog, closings_append, closings_self]
          exact succ_le_succ hone
      · exact .of_append hlog hu.1 htwo
    · apply hu.of_ne hut hlog
      rw [hout]
      exact and_iff_right (Ne.symm hut)
  | refuses t hlog hnew hout =>
    have hne : t ≠ u := by
      rintro rfl
      exact hnew hu.1
    exact hu.of_ne hne hlog (hout u)

theorem Spoilt.slip {u : τ} (hu : Spoilt L u) (h : Slip L L') : Spoilt L' u := by
  cases h with
  | again t hlog hopen hout =>
    by_cases hut : t = u
    · subst hut
      rcases hu.2 with ⟨hgone, -⟩ | ⟨-, hone⟩ | htwo
      · exact absurd hopen hgone
      · refine ⟨?_, .inr (.inr ?_)⟩
        · rw [hlog]
          exact mem_append_left _ hu.1
        · rw [hlog, closings_append, closings_self]
          exact succ_le_succ hone
      · exact .of_append hlog hu.1 htwo
    · exact hu.of_ne hut hlog (hout u)
  | drops t hlog hopen hgone hsub hunclosed =>
    unfold Spoilt
    rw [hlog]
    refine ⟨hu.1, ?_⟩
    rcases hu.2 with ⟨hnot, hzero⟩ | ⟨hout, hone⟩ | htwo
    · exact .inl ⟨fun h => hnot (hsub u h), hzero⟩
    · by_cases hkept : L'.outstanding u
      · exact .inr (.inl ⟨hkept, hone⟩)
      · rw [hunclosed u hout hkept] at hone
        exact absurd hone (not_succ_le_zero 0)
    · exact .inr (.inr htwo)

end Steps

/-! ## Ledgers that are settled -/

/-- Where something is opened, all its closings come after. -/
theorem Orderly.closings_eq {L : Ledger τ} (hL : Orderly L) {before after : List (τ × LedgerEntry)}
    {t : τ} (hlog : L.log = before ++ (t, .opens) :: after) : closings L.log t = closings after t := by
  have hbefore : closings before t = 0 := by
    refine List.count_eq_zero.mpr fun hmem => ?_
    have hfirst := hL.first
    rw [hlog] at hfirst
    exact (List.pairwise_append.mp hfirst).2.2 _ hmem _ List.mem_cons_self rfl rfl
  rw [hlog, closings_append, hbefore, Nat.zero_add, ← List.singleton_append, closings_append,
    closings_opens, Nat.zero_add]

theorem Sound.balanced {L : Ledger τ} (hL : Sound L) (hsettled : ∀ t, ¬ L.outstanding t) : Balanced L := by
  intro before t after hlog
  rw [← hL.toOrderly.closings_eq hlog]
  apply hL.closed t _ (hsettled t)
  rw [hlog]
  exact mem_append_right _ mem_cons_self

theorem Spoilt.not_balanced {L : Ledger τ} {t : τ} (ht : Spoilt L t) (hL : Orderly L)
    (hsettled : ∀ t, ¬ L.outstanding t) : ¬ Balanced L := by
  intro hbalanced
  obtain ⟨before, after, hlog⟩ := append_of_mem ht.1
  have hone := hbalanced before t after hlog
  rw [← hL.closings_eq hlog] at hone
  rcases ht.2 with ⟨-, hzero⟩ | ⟨hout, -⟩ | htwo
  · rw [hzero] at hone
    cases hone
  · exact hsettled t hout
  · rw [hone] at htwo
    exact absurd htwo (by decide)

/-! ## Machines with a ledger -/

/-- Sound steps, one after the other. -/
inductive Steps : Ledger τ → Ledger τ → Prop
  | refl {L} : Steps L L
  | step {L L' L''} : Step L L' → Steps L' L'' → Steps L L''

omit [DecidableEq τ] in
theorem Step.steps {L L' : Ledger τ} (h : Step L L') : Steps L L' := .step h .refl

omit [DecidableEq τ] in
theorem Steps.preserves {P : Ledger τ → Prop} (hP : ∀ L L', P L → Step L L' → P L') {L L' : Ledger τ}
    (h : Steps L L') (hL : P L) : P L' := by
  induction h with
  | refl => exact hL
  | step hstep _ ih => exact ih (hP _ _ hL hstep)

/-- A machine whose steps are sound while a guard is met, and slip first when it is not, ends
balanced exactly when the guard was always met. -/
theorem balanced_iff_guarded {σ ε : Type*} {M : Machine σ ε} {C : σ → ε → Prop} {I : σ → Prop}
    (view : σ → Ledger τ) (hlog : (view M.init).log = []) (hout : ∀ t, ¬ (view M.init).outstanding t)
    (hinit : I M.init) (hkeep : ∀ s e, I s → I (M.step s e))
    (hstep : ∀ s e, I s → C s e → Steps (view s) (view (M.step s e)))
    (hslip : ∀ s e, I s → ¬ C s e → ∃ L, Slip (view s) L ∧ Steps L (view (M.step s e)))
    {tr : List ε} (hsettled : ∀ t, ¬ (view (M.run tr)).outstanding t) :
    Balanced (view (M.run tr)) ↔ M.Guarded C tr := by
  have hrun : ∀ tr, (M.Guarded C tr ∧ Sound (view (M.run tr))) ∨
      (¬ M.Guarded C tr ∧ Orderly (view (M.run tr)) ∧ ∃ t, Spoilt (view (M.run tr)) t) := by
    intro tr
    induction tr using reverseRecOn with
    | nil =>
      refine .inl ⟨Machine.guarded_nil, ⟨⟨?_, fun t ht => absurd ht (hout t)⟩, ?_, ?_⟩⟩
      · rw [Machine.run_nil, hlog]
        exact .nil
      · exact fun t ht => absurd ht (hout t)
      · intro t hmem
        rw [Machine.run_nil, hlog] at hmem
        cases hmem
    | append_singleton tr e ih =>
      have hI : I (M.run tr) := Machine.invariant hinit hkeep tr
      have hrunstep : M.run (tr ++ [e]) = M.step (M.run tr) e := by simp
      rw [hrunstep, Machine.guarded_snoc]
      have hspoil : ∀ {L : Ledger τ} {u : τ}, Orderly L → Spoilt L u → Steps L (view (M.step (M.run tr) e)) →
          Orderly (view (M.step (M.run tr) e)) ∧ ∃ t, Spoilt (view (M.step (M.run tr) e)) t := by
        intro L u horder hu hsteps
        refine ⟨hsteps.preserves (fun _ _ h => h.step) horder, u, ?_⟩
        exact hsteps.preserves (P := fun L => Spoilt L u) (fun _ _ h => h.step) hu
      by_cases hC : C (M.run tr) e
      · have hsteps := hstep _ e hI hC
        rcases ih with ⟨hguard, hsound⟩ | ⟨hguard, horder, u, hu⟩
        · exact .inl ⟨⟨hguard, hC⟩, hsteps.preserves (fun _ _ h => h.step) hsound⟩
        · exact .inr ⟨fun h => hguard h.1, hspoil horder hu hsteps⟩
      · obtain ⟨L, hfirst, hsteps⟩ := hslip _ e hI hC
        rcases ih with ⟨hguard, hsound⟩ | ⟨hguard, horder, u, hu⟩
        · obtain ⟨u, hu⟩ := hsound.slip hfirst
          exact .inr ⟨fun h => hC h.2, hspoil (hsound.toOrderly.slip hfirst) hu hsteps⟩
        · exact .inr ⟨fun h => hguard h.1, hspoil (horder.slip hfirst) (hu.slip hfirst) hsteps⟩
  rcases hrun tr with ⟨hguard, hsound⟩ | ⟨hguard, horder, u, hu⟩
  · exact iff_of_true (hsound.balanced hsettled) hguard
  · exact iff_of_false (hu.not_balanced horder hsettled) hguard

end Ledger
