-- SUMMARY: Logs whose entries are permitted by the entries before them.
import Mathlib.Data.List.Infix

/-! A log lists what was done, the last entry first. -/

variable {α : Type*} {P Q : List α → α → Prop}

/-- Each entry is permitted by those before it. -/
def Each (P : List α → α → Prop) (log : List α) : Prop :=
  ∀ a before, a :: before <:+ log → P before a

@[simp] theorem each_nil : Each P [] := by
  intro a before h
  simp at h

@[simp] theorem each_cons {a : α} {log : List α} : Each P (a :: log) ↔ P log a ∧ Each P log := by
  constructor
  · intro h
    exact ⟨h a log List.suffix_rfl, fun b before hb => h b before (hb.trans (List.suffix_cons a log))⟩
  · rintro ⟨ha, hlog⟩ b before hb
    rcases List.suffix_cons_iff.mp hb with heq | hb
    · cases heq
      exact ha
    · exact hlog b before hb

theorem Each.mono {log : List α} (h : Each P log) (hPQ : ∀ before a, P before a → Q before a) : Each Q log :=
  fun a before ha => hPQ before a (h a before ha)

/-- Entries that are permitted on any log. -/
theorem Each.append {log acts : List α} (h : Each P log) (hacts : ∀ a ∈ acts, ∀ before, P before a) :
    Each P (acts ++ log) := by
  induction acts with
  | nil => exact h
  | cons a acts ih =>
    obtain ⟨ha, hacts⟩ := List.forall_mem_cons.mp hacts
    exact each_cons.mpr ⟨ha _, ih hacts⟩

/-- What a log leaves out permits what it did before. -/
theorem each_of_notMem {a : α} {log : List α} (h : a ∉ log) : Each (fun before _ => a ∉ before) log :=
  fun b _ hb hmem => h ((List.suffix_cons b _ |>.trans hb).subset hmem)

/-- The entries of a part of a log are permitted by those of that part. -/
theorem each_of_filterMap {β : Type*} {R : List β → β → Prop} {f : α → Option β} {log : List α}
    (h : Each R (log.filterMap f)) : Each (fun before a => ∀ b, f a = some b → R (before.filterMap f) b) log := by
  induction log with
  | nil => exact each_nil
  | cons a log ih =>
    cases ha : f a with
    | none => exact each_cons.mpr ⟨by simp [ha], ih (by simpa [ha] using h)⟩
    | some b =>
      have hcons : R (log.filterMap f) b ∧ Each R (log.filterMap f) := by simpa [ha] using h
      exact each_cons.mpr ⟨fun c hc => Option.some.inj (ha.symm.trans hc) ▸ hcons.1, ih hcons.2⟩
