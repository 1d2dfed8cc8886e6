-- SUMMARY: Passes over a registry list that nobody else edits: what was there stays, what is asked for comes after it.
import Tracenium.Lib.Lists
import Tracenium.Amp.ExtensionPolicy

/-! The plans of `planPolicyList` one after the other, each on the list and the ownership the one before it left. -/

open Utf16 Firsts List Bool

namespace Amp.ExtensionPolicy

structure Registry where
  list : List Str
  owned : List Str

def Registry.plan (s : Registry) (desired : List Str) : PolicyListPlan := planPolicyList s.list desired s.owned

def Registry.pass (s : Registry) (desired : List Str) : Registry := ⟨(s.plan desired).next, (s.plan desired).owned⟩

/-- An event is the desired list of a pass. -/
def passes (list : List Str) : Machine Registry (List Str) where
  init := ⟨list, []⟩
  step := Registry.pass

/-! ## The plan as a list -/

section Plan

variable {current desired owned : List Str}

def stays (desired owned : List Str) (id : Str) : Bool := !(owned.contains id && !desired.contains id)

theorem foldl_keep (acc : List Str × List Str) : (current.foldl (fun (next, removed) id =>
        if next.contains id then (next, removed)
        else if owned.contains id && !desired.contains id then (next, removed ++ [id])
        else (next ++ [id], removed)) acc).1 = (current.filter (stays desired owned)).foldl add acc.1 := by
  induction current generalizing acc with
  | nil => simp
  | cons head tail ih =>
    obtain ⟨next, removed⟩ := acc
    rw [foldl_cons, ih]
    dsimp only
    cases hgoes : owned.contains head && !desired.contains head with
    | true =>
      rw [filter_cons_of_neg (by simp only [stays, hgoes]; decide)]
      split <;> simp
    | false =>
      rw [filter_cons_of_pos (by simp only [stays, hgoes]; decide), foldl_cons, add]
      split <;> simp

theorem keepCurrent_fst : (keepCurrent desired owned current).1 = current.eraseDups.filter (stays desired owned) := by
  unfold keepCurrent
  rw [foldl_keep, foldl_add, nil_append, filter_eq_self.mpr (by simp), eraseDups_filter]

theorem foldl_addDesired (acc : List Str × List Str) : (desired.foldl (fun (next, added) id =>
        if next.contains id then (next, added) else (next ++ [id], added ++ [id])) acc).1 =
      desired.foldl add acc.1 := by
  induction desired generalizing acc with
  | nil => simp
  | cons head tail ih =>
    obtain ⟨next, added⟩ := acc
    rw [foldl_cons, foldl_cons, ih, add]
    dsimp only
    split <;> simp

/-- What stays keeps its place, and what is desired and not there comes after it. -/
theorem plan_next : (planPolicyList current desired owned).next = current.eraseDups.filter (stays desired owned) ++
      (desired.filter fun id => !(current.eraseDups.filter (stays desired owned)).contains id).eraseDups := by
  unfold planPolicyList addDesired
  dsimp only
  rw [foldl_addDesired, foldl_add, keepCurrent_fst]

theorem nodup_next : (planPolicyList current desired owned).next.Nodup := by
  rw [plan_next, nodup_append]
  refine ⟨(nodup_eraseDups _).filter _, nodup_eraseDups _, ?_⟩
  rintro id hkept _ hadded rfl
  have hnot := (mem_filter.mp (mem_eraseDups.mp hadded)).2
  rw [contains_iff_mem.mpr hkept] at hnot
  simp at hnot

theorem plan_owned : (planPolicyList current desired owned).owned =
    desired.filter fun id => owned.contains id || !current.contains id := by
  have howned : (planPolicyList current desired owned).owned = desired.filter fun id =>
      (planPolicyList current desired owned).next.contains id &&
        (owned.contains id || (planPolicyList current desired owned).added.contains id) := rfl
  rw [howned]
  refine filter_congr fun id hid => eq_iff_iff.mpr ?_
  have hnext : id ∈ (planPolicyList current desired owned).next := mem_next.mpr (.inr hid)
  simp [hnext, mem_added, hid]

end Plan

/-! ## Between two passes -/

section Standing

variable {c0 : List Str} {s : Registry} {mine : List Str}

/-- Repetitions aside, the list is what it began with and then ours. -/
structure Standing (c0 : List Str) (s : Registry) (mine : List Str) : Prop where
  list : s.list.eraseDups = c0.eraseDups ++ mine
  owned : ∀ id, id ∈ s.owned ↔ id ∈ mine
  fresh : ∀ id ∈ mine, id ∉ c0

theorem standing_init (c0 : List Str) : Standing c0 (passes c0).init [] where
  list := by simp [passes]
  owned := by simp [passes]
  fresh := by simp

theorem Standing.mem_list (hs : Standing c0 s mine) {id : Str} : id ∈ s.list ↔ id ∈ c0 ∨ id ∈ mine := by
  rw [← mem_eraseDups, hs.list, mem_append, mem_eraseDups]

/-- What was there is not ours and stays, and what is ours stays where it is desired. -/
theorem Standing.keeps (hs : Standing c0 s mine) (desired : List Str) :
    s.list.eraseDups.filter (stays desired s.owned) = c0.eraseDups ++ mine.filter desired.contains := by
  have hforeign : c0.eraseDups.filter (stays desired s.owned) = c0.eraseDups :=
    filter_eq_self.mpr fun id hid => by
      have hid : id ∈ c0 := mem_eraseDups.mp hid
      have : id ∉ s.owned := fun howned => hs.fresh id ((hs.owned id).mp howned) hid
      simp [stays, this]
  have hmine : mine.filter (stays desired s.owned) = mine.filter desired.contains :=
    filter_congr fun id hid => by simp [stays, (hs.owned id).mpr hid]
  rw [hs.list, filter_append, hforeign, hmine]

/-- The list after a pass is what it began with, and then the desired entries that were not there. -/
theorem Standing.pass (hs : Standing c0 s mine) (desired : List Str) :
    ∃ mine', (s.pass desired).list = c0.eraseDups ++ mine' ∧ (∀ id, id ∈ mine' ↔ id ∈ desired ∧ id ∉ c0) ∧
      (s.pass desired).owned = desired.filter fun id => !c0.contains id := by
  refine ⟨mine.filter desired.contains ++ (desired.filter fun id =>
    !(c0.eraseDups ++ mine.filter desired.contains).contains id).eraseDups, ?_, ?_, ?_⟩
  · have hnext : (s.pass desired).list = _ := plan_next
    rw [hs.keeps, append_assoc] at hnext
    exact hnext
  · intro id
    have hfresh := hs.fresh id
    simp only [mem_append, mem_filter, mem_eraseDups, contains_eq_mem, decide_eq_true_eq,
      not_eq_true', decide_eq_false_iff_not]
    grind
  · refine plan_owned.trans (filter_congr fun id _ => eq_iff_iff.mpr ?_)
    have hfresh := hs.fresh id
    simp only [contains_eq_mem, or_eq_true, decide_eq_true_eq, not_eq_true', decide_eq_false_iff_not,
      hs.mem_list, hs.owned]
    grind

theorem Standing.step (hs : Standing c0 s mine) (desired : List Str) :
    ∃ mine', Standing c0 (s.pass desired) mine' := by
  obtain ⟨mine', hlist, hmem, howned⟩ := hs.pass desired
  refine ⟨mine', ?_, fun id => ?_, fun id hid => ((hmem id).mp hid).2⟩
  · have hnodup : (s.pass desired).list.Nodup := nodup_next
    rw [eraseDups_of_nodup hnodup, hlist]
  · simp [howned, hmem]

theorem standing_run (c0 : List Str) (ds : List (List Str)) : ∃ mine, Standing c0 ((passes c0).run ds) mine :=
  Machine.invariant (I := fun s => ∃ mine, Standing c0 s mine) ⟨[], standing_init c0⟩
    (fun _ desired hs => hs.choose_spec.step desired) ds

/-- A second pass with the same list finds it as it is to be. -/
theorem Standing.pass_again (hs : Standing c0 s mine) (desired : List Str) :
    ((s.pass desired).plan desired).changed = false ∧ (s.pass desired).pass desired = s.pass desired := by
  obtain ⟨mine', hlist, hmem, howned⟩ := hs.pass desired
  obtain ⟨_, hs'⟩ := hs.step desired
  have hnodup : (s.pass desired).list.Nodup := nodup_next
  have hstays : (s.pass desired).list.eraseDups.filter (stays desired (s.pass desired).owned) =
      (s.pass desired).list := by
    rw [eraseDups_of_nodup hnodup]
    refine filter_eq_self.mpr fun id _ => ?_
    simp only [stays]
    grind
  have hdesired : ∀ id ∈ desired, id ∈ (s.pass desired).list := fun id hid => mem_next.mpr (.inr hid)
  have hnext : ((s.pass desired).plan desired).next = (s.pass desired).list := by
    refine plan_next.trans ?_
    rw [hstays, filter_eq_nil_iff.mpr (by simpa using hdesired), eraseDups_nil, append_nil]
  have hagain : ((s.pass desired).plan desired).owned = (s.pass desired).owned := by
    refine plan_owned.trans ((filter_congr fun id hid => eq_iff_iff.mpr ?_).trans howned.symm)
    simp only [howned, contains_iff_mem.mpr (hdesired id hid)]
    simp [hid]
  have hchanged : ((s.pass desired).plan desired).changed =
      decide (((s.pass desired).plan desired).next ≠ (s.pass desired).list) := rfl
  refine ⟨by simp [hchanged, hnext], ?_⟩
  rw [Registry.pass, hnext, hagain]

end Standing

/-- What is asked for is applied after what was there, and it is gone when nothing is asked for any more. -/
theorem applied_and_retired (c0 : List Str) (ds : List (List Str)) (desired : List Str) :
    let s := (passes c0).run ds
    let plan := s.plan desired
    let again := (s.pass desired).plan desired
    let last := s.plan []
    plan.next.Nodup ∧ desired ⊆ plan.next ∧ c0.eraseDups.Sublist plan.next ∧
      (∀ id ∈ plan.next, id ∈ c0 ∨ id ∈ desired) ∧
      again.changed = false ∧ again.next = plan.next ∧ again.owned = plan.owned ∧
      last.next = c0.eraseDups ∧ last.owned = [] := by
  intro s plan again last
  obtain ⟨mine, hs⟩ : ∃ mine, Standing c0 s mine := standing_run c0 ds
  obtain ⟨mine', hlist, hmem, howned⟩ := hs.pass desired
  obtain ⟨hchanged, hagain⟩ := hs.pass_again desired
  obtain ⟨none, hlast, hnone, hretired⟩ := hs.pass []
  have hlist : plan.next = c0.eraseDups ++ mine' := hlist
  refine ⟨nodup_next, fun id hid => mem_next.mpr (.inr hid), ?_, ?_, hchanged, congrArg Registry.list hagain,
    congrArg Registry.owned hagain, ?_, hretired⟩
  · rw [hlist]
    exact sublist_append_left _ _
  · intro id hid
    rw [hlist, mem_append, mem_eraseDups, hmem] at hid
    exact hid.imp_right And.left
  · have hempty : none = [] := eq_nil_iff_forall_not_mem.mpr fun id hid => by simp [hnone] at hid
    rw [hempty, append_nil] at hlast
    exact hlast

end Amp.ExtensionPolicy
