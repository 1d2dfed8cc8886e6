-- SUMMARY: When a hardening call leaves the audit rules, the drop-ins of sshd and the one of GRUB as they were, if its change is refused.
import Tracenium.Hardening.Apply

/-!
The literal lines are no plan that is taken back: a file that is loaded by the audit system stays as written when the
load fails, or when a later file of the group throws.
-/

open Utf16 Json Transactions List Function

namespace Hardening

variable (l : Library) (host : Host) (ws : List LinuxWrite)

/-! ## Parts -/

variable {s s' : Files}

theorem readFile_congr {path : Str} (h : s' path = s path) : readFile host s' path = readFile host s path := by
  rw [readFile, readFile, h]

theorem planFile_paths {path : Str} {before next : Option Str} {blocked reportFails : Bool} {answer : Answer} :
    (planFile host path before next blocked answer reportFails).changes.map Change.path ⊆ [path] := by
  unfold planFile
  split
  · exact nil_subset _
  · exact Subset.refl _

def auditPart : Part Str Bytes :=
  .ofPlan [AUDIT_RULES_FILE] (auditPlan host ws) (fun _ => planFile_paths host) fun s s' h => by
    rw [auditPlan, auditPlan, readFile_congr host (h _ mem_cons_self)]

def sshdPart : Part Str Bytes :=
  .ofPlan [SSHD_DROPIN_FILE, LEGACY_SSHD_DROPIN_FILE] (sshdPlan l host ws)
    (fun s => by
      rw [sshdPlan, sshdChanges, map_map]
      exact (filter_sublist.map Prod.fst).subset)
    fun s s' h => by
      rw [sshdPlan, sshdPlan, readFile_congr host (h _ mem_cons_self),
        readFile_congr host (h _ (mem_cons_of_mem _ mem_cons_self))]

def grubPart : Part Str Bytes :=
  .ofPlan [GRUB_AUDIT_DROPIN] (grubPlan host ws) (fun _ => planFile_paths host) fun s s' h => by
    rw [grubPlan, grubPlan, readFile_congr host (h _ mem_cons_self)]

def linePaths : List Str := LINE_FILES.entries.map Prod.fst

def auditLinePaths : List Str := (LINE_FILES.entries.filter fun e => e.2.augenrules).map Prod.fst

variable {file : Str} {policy : LinePolicy}

theorem own_mem_linePaths (h : LINE_FILES.own file = some policy) :
    file ∈ linePaths := mem_map_of_mem (f := Prod.fst) (Literal.mem_of_own h)

theorem applyLine_frame {file path : Str} (h : path ≠ file) (s : Files) :
    (applyLine host ws file s).1 path = s path := by
  unfold applyLine
  split
  · rfl
  · split
    · rfl
    · split
      · rfl
      · exact update_of_ne h _ _

theorem applyLine_unlisted (h : file ∉ linePaths) (s : Files) : applyLine host ws file s = (s, .threw) := by
  unfold applyLine
  split
  · rfl
  · rename_i policy hown
    exact absurd (own_mem_linePaths hown) h

theorem applyLine_of_notMem (file : Str) {path : Str} (h : path ∉ linePaths) (s : Files) :
    (applyLine host ws file s).1 path = s path := by
  by_cases heq : path = file
  · subst heq
    rw [applyLine_unlisted host ws h]
  · exact applyLine_frame host ws heq s

theorem applyLine_congr (h : s' file = s file) : (applyLine host ws file s').2 = (applyLine host ws file s).2 ∧
      (applyLine host ws file s').1 file = (applyLine host ws file s).1 file := by
  unfold applyLine lineChange
  rw [readFile_congr host h]
  split
  · exact ⟨rfl, h⟩
  · dsimp only
    split
    · exact ⟨rfl, h⟩
    · split
      · exact ⟨rfl, h⟩
      · rename_i next _ _
        refine ⟨rfl, ?_⟩
        show update s' file (bytes next) file = update s file (bytes next) file
        rw [update_self, update_self]

/-- One file reads the listed files only. -/
theorem applyLine_local (file : Str) (h : ∀ path ∈ linePaths, s' path = s path) :
    (applyLine host ws file s').2 = (applyLine host ws file s).2 ∧ ∀ path ∈ linePaths,
        (applyLine host ws file s').1 path = (applyLine host ws file s).1 path := by
  by_cases hfile : file ∈ linePaths
  · obtain ⟨hending, hcontent⟩ := applyLine_congr host ws (h file hfile)
    refine ⟨hending, fun path hpath => ?_⟩
    by_cases heq : path = file
    · rw [heq, hcontent]
    · rw [applyLine_frame host ws heq, applyLine_frame host ws heq, h path hpath]
  · rw [applyLine_unlisted host ws hfile, applyLine_unlisted host ws hfile]
    exact ⟨rfl, h⟩

theorem applyLines_cons (file : Str) (files : List Str) (s : Files) : applyLines host ws (file :: files) s =
      if (applyLine host ws file s).2 = .threw then ((applyLine host ws file s).1, .threw) else
        ((applyLines host ws files (applyLine host ws file s).1).1,
          if (applyLines host ws files (applyLine host ws file s).1).2 = .settled then (applyLine host ws file s).2
          else (applyLines host ws files (applyLine host ws file s).1).2) := by
  rw [applyLines]
  split
  · rename_i s' heq
    rw [heq, if_pos rfl]
  · rename_i s' ending hthrew heq
    rw [heq, if_neg hthrew]
    split
    · rename_i s'' hrest
      rw [hrest, if_pos rfl]
    · rename_i s'' ending' hsettled hrest
      rw [hrest, if_neg hsettled]

variable {files : List Str}

theorem applyLines_frame {path : Str} (h : path ∉ files) (s : Files) :
    (applyLines host ws files s).1 path = s path := by
  induction files generalizing s with
  | nil => rfl
  | cons file files ih =>
    rw [mem_cons, not_or] at h
    have hline := applyLine_frame host ws h.1 s
    rw [applyLines_cons]
    split
    · exact hline
    · exact (ih h.2 _).trans hline

theorem applyLines_congr (h : ∀ path ∈ linePaths, s' path = s path) :
    (applyLines host ws files s').2 = (applyLines host ws files s).2 ∧
      ∀ path ∈ linePaths, (applyLines host ws files s').1 path = (applyLines host ws files s).1 path := by
  induction files generalizing s s' with
  | nil => exact ⟨rfl, h⟩
  | cons file files ih =>
    obtain ⟨hending, hcontent⟩ := applyLine_local host ws file h
    obtain ⟨hendings, hcontents⟩ := ih hcontent
    rw [applyLines_cons, applyLines_cons, hending]
    split
    · exact ⟨rfl, hcontent⟩
    · rw [hendings]
      exact ⟨rfl, hcontents⟩

theorem applyLines_unlisted {path : Str} (h : path ∉ linePaths) (s : Files) :
    (applyLines host ws files s).1 path = s path := by
  induction files generalizing s with
  | nil => rfl
  | cons file files ih =>
    have hline := applyLine_of_notMem host ws file h s
    rw [applyLines_cons]
    split
    · exact hline
    · exact (ih _).trans hline

def linesPart : Part Str Bytes where
  owned := linePaths
  watched := auditLinePaths
  watched_owned := (filter_sublist.map Prod.fst).subset
  body := applyLines host ws (lineFiles ws)
  frame s _ h := applyLines_unlisted host ws h s
  locality _ _ h := applyLines_congr host ws h

/-! ## The lines of one file -/

/-- Its turn ends the call: a file is not listed, the change fails, or the load cannot be started. -/
def LineThrows (s : Files) (file : Str) : Prop :=
  ∀ policy, LINE_FILES.own file = some policy → (lineChange host ws policy file s).isSome = true ∧
    (lineFails host policy file = true ∨ lineAnswer host policy file = .throws)

/-- The rules are changed, and the load refuses them. -/
def LineReports (s : Files) (file : Str) : Prop :=
  ∃ policy, LINE_FILES.own file = some policy ∧ (lineChange host ws policy file s).isSome = true ∧
    lineFails host policy file = false ∧ lineAnswer host policy file = .refuses

def LineWrites (s : Files) (file : Str) (next : Option Str) : Prop :=
  ∃ policy, LINE_FILES.own file = some policy ∧ lineChange host ws policy file s = some next ∧
    lineFails host policy file = false

theorem lineChange_congr
    (h : s' file = s file) : lineChange host ws policy file s' = lineChange host ws policy file s := by
  rw [lineChange, lineChange, readFile_congr host h]

theorem lineThrows_congr (h : s' file = s file) : LineThrows host ws s' file ↔ LineThrows host ws s file := by
  simp only [LineThrows, lineChange_congr host ws h]

theorem lineReports_congr (h : s' file = s file) : LineReports host ws s' file ↔ LineReports host ws s file := by
  simp only [LineReports, lineChange_congr host ws h]

variable {host ws} {s : Files}

theorem lineThrows_iff (hown : LINE_FILES.own file = some policy) :
    LineThrows host ws s file ↔ (lineChange host ws policy file s).isSome ∧
      (lineFails host policy file ∨ lineAnswer host policy file = .throws) := by
  refine ⟨fun h => h policy hown, fun h policy' hown' => ?_⟩
  cases hown.symm.trans hown'
  exact h

theorem lineReports_iff (hown : LINE_FILES.own file = some policy) :
    LineReports host ws s file ↔ (lineChange host ws policy file s).isSome ∧
      lineFails host policy file = false ∧ lineAnswer host policy file = .refuses := by
  refine ⟨fun ⟨policy', hown', h⟩ => ?_, fun h => ⟨policy, hown, h⟩⟩
  cases hown.symm.trans hown'
  exact h

variable (host ws) in
/-- How the turn of a file ends. -/
theorem applyLine_ending (s : Files) (file : Str) :
    ((applyLine host ws file s).2 = .threw ∧ LineThrows host ws s file) ∨
    (((applyLine host ws file s).2 = .reported ∧ LineReports host ws s file ∨
      (applyLine host ws file s).2 = .settled ∧ ¬ LineReports host ws s file) ∧ ¬ LineThrows host ws s file) := by
  unfold applyLine
  split
  · rename_i hown
    refine .inl ⟨rfl, fun policy h => ?_⟩
    cases hown.symm.trans h
  · rename_i policy hown
    rw [lineThrows_iff hown, lineReports_iff hown]
    split
    · rename_i hchange
      rw [hchange]
      exact .inr ⟨.inr ⟨rfl, fun h => Bool.noConfusion h.1⟩, fun h => Bool.noConfusion h.1⟩
    · rename_i next hchange
      rw [hchange, Option.isSome_some, eq_self, true_and, true_and]
      split
      · rename_i hfails
        exact .inl ⟨rfl, .inl hfails⟩
      · rename_i hfails
        rw [Bool.not_eq_true] at hfails
        rw [hfails]
        cases lineAnswer host policy file with
        | accepts =>
          exact .inr ⟨.inr ⟨rfl, fun h => Answer.noConfusion h.2⟩,
            fun h => h.elim Bool.noConfusion Answer.noConfusion⟩
        | refuses =>
          exact .inr ⟨.inl ⟨rfl, rfl, rfl⟩, fun h => h.elim Bool.noConfusion Answer.noConfusion⟩
        | throws => exact .inl ⟨rfl, .inr rfl⟩

theorem applyLine_threw (h : LineThrows host ws s file) : (applyLine host ws file s).2 = .threw :=
  ((applyLine_ending host ws s file).resolve_right fun hr => hr.2 h).1

theorem lineThrows_of_threw (h : (applyLine host ws file s).2 = .threw) : LineThrows host ws s file := by
  rcases applyLine_ending host ws s file with
    ⟨-, hthrows⟩ | ⟨⟨hending, -⟩ | ⟨hending, -⟩, -⟩
  · exact hthrows
  · cases h.symm.trans hending
  · cases h.symm.trans hending

theorem applyLine_content {next : Option Str}
    (h : LineWrites host ws s file next) : (applyLine host ws file s).1 file = bytes next := by
  obtain ⟨policy, hown, hchange, hfails⟩ := h
  rw [applyLine, hown]
  dsimp only
  rw [hchange]
  dsimp only
  rw [if_neg (by rw [hfails]; exact Bool.noConfusion)]
  exact update_self ..

theorem applyLine_unwritten (h : ¬ ∃ next, LineWrites host ws s file next) :
    (applyLine host ws file s).1 file = s file := by
  unfold applyLine
  split
  · rfl
  · rename_i policy hown
    split
    · rfl
    · rename_i next hchange
      split
      · rfl
      · rename_i hfails
        exact absurd ⟨next, policy, hown, hchange, Bool.not_eq_true _ ▸ hfails⟩ h

/-! ## The lines of all files -/

variable (host ws) in
/-- The later files are as before when their turn comes. -/
theorem applyLine_later {file f : Str} (hnodup : (file :: files).Nodup)
    (hf : f ∈ files) (s : Files) : (applyLine host ws file s).1 f = s f := by
  refine applyLine_frame host ws ?_ s
  rintro rfl
  exact (nodup_cons.mp hnodup).1 hf

theorem applyLines_settled_iff (hnodup : files.Nodup) (s : Files) : (applyLines host ws files s).2 = .settled ↔
      ∀ file ∈ files, ¬ LineThrows host ws s file ∧ ¬ LineReports host ws s file := by
  induction files generalizing s with
  | nil => exact iff_of_true rfl (forall_mem_nil _)
  | cons file files ih =>
    rw [applyLines_cons, forall_mem_cons]
    -- the turn of the first file throws, reports a refusal or settles
    rcases applyLine_ending host ws s file with
      ⟨hending, hthrows⟩ | ⟨⟨hending, hreports⟩ | ⟨hending, hreports⟩, hthrows⟩
    · rw [if_pos hending]
      exact iff_of_false Ending.noConfusion fun h => h.1.1 hthrows
    · rw [hending, if_neg Ending.noConfusion]
      refine iff_of_false (fun h => ?_) fun h => h.1.2 hreports
      split at h
      · cases h
      · rename_i hne
        exact hne h
    · rw [hending, if_neg Ending.noConfusion, and_iff_right ⟨hthrows, hreports⟩]
      -- after this turn the later files read what they would have read before it
      have hlater := fun f (hf : f ∈ files) =>
        applyLine_later host ws hnodup hf s
      have hrest := ih hnodup.of_cons (applyLine host ws file s).1
      rw [forall₂_congr fun f hf => and_congr
        (not_congr (lineThrows_congr host ws (hlater f hf)))
        (not_congr (lineReports_congr host ws (hlater f hf)))] at hrest
      rw [← hrest]
      split
      · rename_i hsettled
        exact iff_of_true rfl hsettled
      · exact Iff.rfl

theorem applyLines_stops_iff (hnodup : files.Nodup) (s : Files) :
    (applyLines host ws files s).2.stops = false ↔ ∀ file ∈ files, ¬ LineThrows host ws s file := by
  induction files generalizing s with
  | nil => exact iff_of_true rfl (forall_mem_nil _)
  | cons file files ih =>
    rw [applyLines_cons, forall_mem_cons]
    have hlater := fun f (hf : f ∈ files) => applyLine_later host ws hnodup hf s
    have hrest := ih hnodup.of_cons (applyLine host ws file s).1
    rw [forall₂_congr fun f hf => not_congr (lineThrows_congr host ws (hlater f hf))] at hrest
    rcases applyLine_ending host ws s file with
      ⟨hending, hthrows⟩ | ⟨hgoesOn, hthrows⟩
    · rw [if_pos hending]
      exact iff_of_false Bool.noConfusion fun h => h.1 hthrows
    · have hstops : (applyLine host ws file s).2.stops = false := by
        rcases hgoesOn with h | h <;> rw [h.1] <;> rfl
      rw [if_neg (by rintro h; rw [h] at hstops; cases hstops), and_iff_right hthrows, ← hrest]
      split
      · rename_i hsettled
        rw [hsettled]
        exact iff_of_true hstops rfl
      · exact Iff.rfl

/-- A file whose turn comes gets what its turn gives it. -/
theorem applyLines_content {before after : List Str} (hnodup : (before ++ file :: after).Nodup)
    (h : ∀ f ∈ before, ¬ LineThrows host ws s f) :
    (applyLines host ws (before ++ file :: after) s).1 file = (applyLine host ws file s).1 file := by
  induction before generalizing s with
  | nil =>
    rw [nil_append, applyLines_cons]
    split
    · rfl
    · exact applyLines_frame host ws (nodup_cons.mp hnodup).1 _
  | cons f before ih =>
    have hlater := fun g (hg : g ∈ before ++ file :: after) =>
      applyLine_later host ws hnodup hg s
    -- the earlier files do not throw, so the turn comes
    have hgoesOn : (applyLine host ws f s).2 ≠ .threw := fun hthrew =>
      h f mem_cons_self (lineThrows_of_threw hthrew)
    rw [cons_append, applyLines_cons, if_neg hgoesOn]
    rw [ih hnodup.of_cons fun g hg => ?_]
    · exact (applyLine_congr host ws
        (hlater file (mem_append_right _ mem_cons_self))).2
    · rw [lineThrows_congr host ws (hlater g (mem_append_left _ hg))]
      exact h g (mem_cons_of_mem _ hg)

theorem applyLines_unreached {before after : List Str} (hnodup : (before ++ file :: after).Nodup)
    (h : ∃ f ∈ before, LineThrows host ws s f) :
    (applyLines host ws (before ++ file :: after) s).1 file = s file := by
  induction before generalizing s with
  | nil =>
    obtain ⟨f, hf, -⟩ := h
    exact absurd hf not_mem_nil
  | cons f before ih =>
    have hlater := fun g (hg : g ∈ before ++ file :: after) =>
      applyLine_later host ws hnodup hg s
    have hfile := hlater file (mem_append_right _ mem_cons_self)
    rw [cons_append, applyLines_cons]
    split
    · exact hfile
    · rename_i hgoesOn
      obtain ⟨g, hg, hthrows⟩ := h
      have hne : g ∈ before := by
        rcases mem_cons.mp hg with rfl | hg
        · exact absurd (applyLine_threw hthrows) hgoesOn
        · exact hg
      refine (ih hnodup.of_cons ⟨g, hne, ?_⟩).trans hfile
      rw [lineThrows_congr host ws (hlater g (mem_append_left _ hne))]
      exact hthrows

/-! ## The call -/

variable (host ws)

/-- If a file that the audit system loads is changed, then nothing of the lines throws or is
refused. -/
def LinesSafe (s : Files) : Prop :=
  ∀ before file after next, lineFiles ws = before ++ file :: after → file ∈ auditLinePaths →
    (∀ f ∈ before, ¬ LineThrows host ws s f) → LineWrites host ws s file next →
    bytes next ≠ s file →
    ∀ f ∈ lineFiles ws, ¬ LineThrows host ws s f ∧ ¬ LineReports host ws s f

theorem nodup_eraseDups {α : Type} [BEq α] [LawfulBEq α] (xs : List α) : xs.eraseDups.Nodup := by
  induction hn : xs.length using Nat.strongRecOn generalizing xs with
  | _ n ih =>
    cases xs with
    | nil => exact nodup_nil
    | cons x xs =>
      rw [eraseDups_cons, nodup_cons, mem_eraseDups, mem_filter]
      refine ⟨fun h => ?_, ih _ ?_ _ rfl⟩
      · rw [beq_self_eq_true] at h
        cases h.2
      · rw [← hn, length_cons]
        exact Nat.lt_succ_of_le (length_filter_le _ xs)

theorem nodup_lineFiles : (lineFiles ws).Nodup := nodup_eraseDups _

theorem linesPart_keepsOwn_iff (s : Files) : (linesPart host ws).KeepsOwn s ↔ LinesSafe host ws s := by
  have hsettled : (applyLines host ws (lineFiles ws) s).2 = .settled ↔
      ∀ file ∈ lineFiles ws, ¬ LineThrows host ws s file ∧ ¬ LineReports host ws s file :=
    applyLines_settled_iff (nodup_lineFiles ws) s
  -- a watched file differs only if its turn came and wrote something else
  constructor
  · intro h before file after next hfiles hwatched hbefore hwrites hne
    rw [← hsettled]
    by_contra hending
    have hnodup := nodup_lineFiles ws
    have hkept := h hending file hwatched
    rw [hfiles] at hnodup
    rw [linesPart] at hkept
    dsimp only at hkept
    rw [hfiles, applyLines_content hnodup hbefore, applyLine_content hwrites] at hkept
    exact hne hkept
  · intro h hending path hwatched
    rw [linesPart] at hending ⊢
    dsimp only at hending ⊢
    by_cases hmem : path ∈ lineFiles ws
    · obtain ⟨before, after, hfiles⟩ := append_of_mem hmem
      have hnodup := nodup_lineFiles ws
      rw [hfiles] at hnodup
      by_cases hbefore : ∀ f ∈ before, ¬ LineThrows host ws s f
      · rw [hfiles, applyLines_content hnodup hbefore]
        by_cases hwrites : ∃ next, LineWrites host ws s path next
        · obtain ⟨next, hwrites⟩ := hwrites
          rw [applyLine_content hwrites]
          by_contra hne
          exact hending (hsettled.mpr
            (h before path after next hfiles hwatched hbefore hwrites hne))
        · exact applyLine_unwritten hwrites
      · rw [hfiles]
        refine applyLines_unreached hnodup ?_
        simpa only [not_forall, Classical.not_not, exists_prop] using hbefore
    · exact applyLines_frame host ws hmem s

/-- The groups in their order, and whether the call gets to them. -/
def parts : List (Bool × Part Str Bytes) :=
  [(host.reaches .audit, auditPart host ws), (host.reaches .lines, linesPart host ws),
    (host.reaches .sshd, sshdPart l host ws), (host.reaches .grub, grubPart host ws)]

theorem separate_parts : Part.Separate (parts l host ws) := by
  have hdisjoint : ([[AUDIT_RULES_FILE], linePaths, [SSHD_DROPIN_FILE, LEGACY_SSHD_DROPIN_FILE],
      [GRUB_AUDIT_DROPIN]] : List (List Str)).Pairwise fun a b => ∀ x ∈ a, x ∉ b := by
    decide
  exact (pairwise_map (l := parts l host ws) (f := fun q => q.2.owned)).mp
    (hdisjoint.imp fun h x hx hx' => h x hx hx')

/-- A request that is not refused at once is carried out group by group. -/
def applyGeneric (params : Json) (s : Files) : Files × List (Part Str Bytes × Ending) :=
  match parseWrites l params with
  | .ok ws => Part.call (parts l host ws) s
  | _ => (s, [])

/-- The files of a group whose change is refused, or that throws, are as they were before the call. -/
def RefusalsLeave (params : Json) (s : Files) : Prop :=
  ∀ e ∈ (applyGeneric l host params s).2, e.2 ≠ .settled →
    ∀ path ∈ e.1.watched, (applyGeneric l host params s).1 path = s path

/-- No group that the call gets to leaves something behind. -/
def Undoable (s : Files) : Prop :=
  host.reaches .audit = true → (auditPlan host ws s).Safe s ∧ ((auditPlan host ws s).Settles →
  host.reaches .lines = true → LinesSafe host ws s ∧ ((∀ file ∈ lineFiles ws, ¬ LineThrows host ws s file) →
  host.reaches .sshd = true → (sshdPlan l host ws s).Safe s ∧ ((sshdPlan l host ws s).Settles →
  host.reaches .grub = true → (grubPlan host ws s).Safe s)))

theorem allKeep_parts_iff (s : Files) : Part.AllKeep (parts l host ws) s ↔ Undoable l host ws s := by
  have haudit : ((auditPart host ws).body s).2.stops = false ↔ (auditPlan host ws s).Settles :=
    Plan.commit_stops_iff _
  have hlines : ((linesPart host ws).body s).2.stops = false ↔ ∀ file ∈ lineFiles ws, ¬ LineThrows host ws s file :=
    applyLines_stops_iff (nodup_lineFiles ws) s
  have hsshd : ((sshdPart l host ws).body s).2.stops = false ↔ (sshdPlan l host ws s).Settles :=
    Plan.commit_stops_iff _
  have hauditKeeps : (auditPart host ws).KeepsOwn s ↔ (auditPlan host ws s).Safe s := Part.keepsOwn_ofPlan
  have hsshdKeeps : (sshdPart l host ws).KeepsOwn s ↔ (sshdPlan l host ws s).Safe s := Part.keepsOwn_ofPlan
  have hgrubKeeps : (grubPart host ws).KeepsOwn s ↔ (grubPlan host ws s).Safe s := Part.keepsOwn_ofPlan
  simp only [parts, Part.AllKeep, Undoable, haudit, hlines, hsshd, hauditKeeps, hsshdKeeps,
    hgrubKeeps, linesPart_keepsOwn_iff, implies_true, and_true]

/-- A call leaves nothing of what is refused for exactly the writes that are undoable. -/
theorem refusalsLeave_iff (params : Json) (s : Files) : RefusalsLeave l host params s ↔
      ∀ ws, parseWrites l params = .ok ws → Undoable l host ws s := by
  unfold RefusalsLeave applyGeneric
  split
  · rename_i ws hok
    -- the groups own different files, so each is looked at by itself
    have hkeeps := Part.keepsRefused_iff (separate_parts l host ws) s
    refine (hkeeps.trans (allKeep_parts_iff l host ws s)).trans
      ⟨fun h ws' hok' => ?_, fun h => h ws hok⟩
    cases hok.symm.trans hok'
    exact h
  · rename_i hnot
    exact iff_of_true (fun e he => absurd he not_mem_nil) fun ws hok => absurd hok (hnot ws)

/-- A host on which everything works, but for the load of the rules after a literal line. -/
def refusingHost : Host where
  readable _ := true
  copies _ := true
  makes _ := true
  changes _ := true
  restores _ := true
  auditctl := some (some false)
  augenrules := true
  auditLoad := .accepts
  auditReload := .accepts
  lineLoad _ := .refuses
  supports _ _ := true
  sshdTest := .accepts
  updateGrub := .accepts
  reaches _ := true

def CONTINUE_FILE : Str := text "/etc/audit/rules.d/01-tracenium-continue.rules"

def continueRequest : Json :=
  .obj [(text "writes", .arr [.obj [(text "kind", .str (text "line")),
    (text "file", .str CONTINUE_FILE), (text "line", .str (text "-c")),
    (text "present", .bool true)]])]

/-- The rules that were refused are still there. -/
theorem not_refusalsLeave_continue : ¬ RefusalsLeave asciiLibrary refusingHost continueRequest fun _ => none := by
  intro h
  have hws : parseWrites asciiLibrary continueRequest =
      .ok [.line CONTINUE_FILE (text "-c") true] := by decide
  unfold RefusalsLeave applyGeneric at h
  have hall := (Part.keepsRefused_iff (separate_parts ..) _).mp h
  have hlines := ((hall rfl).2 (by decide) rfl).1 (by decide) CONTINUE_FILE
    (by decide)
  have hwritten : (((linesPart refusingHost [.line CONTINUE_FILE (text "-c") true]).body
      fun _ => none).1 CONTINUE_FILE).isSome := by decide
  rw [hlines] at hwritten
  cases hwritten

end Hardening
