-- SUMMARY: When the results of a Linux patch install account for every requested id, and when they say what happened.
import Tracenium.LinuxPatch.Results

/-! Each entry is put under the id that was requested for the last item with its id. -/

open Utf16 Json Words List Option

namespace LinuxPatch.Account

open World AptHost DnfHost

/-! ## The entries -/

section Entries

variable {mode : Mode} {S : List Placed} {e : Entry} {it : Placed}

structure Fresh (e : Entry) : Prop where
  updateId : e.updateId = e.item.item.hotFixId
  kb : e.kb = none

@[simp] theorem mem_eachAs {result : ItemResult} {message : Str} :
    e ∈ eachAs S result message ↔ ∃ it ∈ S, e = ⟨it, it.item.hotFixId, it.item.title, result,
      if message = [] then none else some message, none⟩ := by
  simp [eachAs, eq_comm]

@[simp] theorem map_item_eachAs (S : List Placed) (result : ItemResult) (message : Str) :
    (eachAs S result message).map Entry.item = S := by
  simp [eachAs, Function.comp_def]

theorem sent_append_unresolved (w : AptHost) (S : List Placed) : (w.sent S ++ w.unresolved S).Perm S := by
  have hnot : w.unresolved S = S.filter fun it => !(resolve w.fresh it.item).isSome := by
    simp [unresolved]
  rw [hnot]
  exact filter_append_perm _ S

/-- dnf is there, and is given nothing to do. -/
def World.silent (mode : Mode) (S : List Placed) : World → Bool
  | debian _ => false
  | rhel w => w.binary && !DnfHost.hasArguments mode S
  | suse => false
  | unsupported _ _ => false

theorem fresh_of_mem (w : World) (he : e ∈ (w.results mode S).results) : Fresh e := by
  have heach {items : List Placed} {result : ItemResult} {message : Str} (h : e ∈ eachAs items result message) :
      Fresh e := by
    obtain ⟨it, -, rfl⟩ := mem_eachAs.mp h
    exact ⟨rfl, rfl⟩
  have hmap {items : List Placed} {result : ItemResult} {message : Option Str}
      (h : e ∈ items.map fun it => (⟨it, it.item.hotFixId, it.item.title, result, message, none⟩ : Entry)) :
      Fresh e := by
    obtain ⟨it, -, rfl⟩ := mem_map.mp h
    exact ⟨rfl, rfl⟩
  cases w with
  | debian w =>
    simp only [World.results, AptHost.results] at he
    split at he
    · exact heach he
    · split at he
      · exact heach he
      · split at he
        · exact heach he
        · split at he
          · split at he
            · exact heach he
            · rcases mem_append.mp he with he | he
              · exact heach he
              · exact heach he
          · split at he
            · rcases mem_append.mp he with he | he
              · exact hmap he
              · exact hmap he
            · exact heach he
  | rhel w =>
    simp only [World.results, DnfHost.results] at he
    split at he
    · exact heach he
    · split at he
      · simp at he
      · split at he
        · exact heach he
        · exact heach he
  | suse => exact heach he
  | unsupported family id => exact heach he

/-- Every selected item has one entry, if there are any. -/
theorem items_perm (w : World) (mode : Mode) (S : List Placed) (hloud : w.silent mode S = false) :
    ((w.results mode S).results.map Entry.item).Perm S := by
  cases w with
  | debian w =>
    simp only [World.results, AptHost.results]
    split
    · simp
    · split
      · simp
      · split
        · simp
        · split
          · split
            · simp
            · simpa using sent_append_unresolved w S
          · split
            · simp [Function.comp_def]
            · simp
  | rhel w =>
    simp only [silent] at hloud
    simp only [World.results, DnfHost.results]
    split
    · simp
    · rename_i hbinary
      split
      · rename_i hnone
        simp_all
      · split <;> simp
  | suse => simp [World.results]
  | unsupported family id => simp [World.results]

theorem results_of_silent {w : World} (hsilent : w.silent mode S) : (w.results mode S).results = [] := by
  cases w with
  | rhel w =>
    simp only [silent, Bool.and_eq_true] at hsilent
    simp [World.results, DnfHost.results, hsilent.1, hsilent.2]
  | debian w => simp [silent] at hsilent
  | suse => simp [silent] at hsilent
  | unsupported family id => simp [silent] at hsilent

end Entries

/-! ## What an entry says -/

namespace World

variable (S : List Placed)

/-- The items that are taken for installed: those that were handed over if the exit code is 0, and else the first ones,
as many as there are packages set up. -/
def credited : World → List Placed
  | debian w =>
    if w.outcome.code = some 0 then w.sent S
    else if w.someSetUp S then S.take (setUpLines w.outcome.stdout).length
    else []
  | rhel w => if w.outcome.code = some 0 then S else []
  | suse => []
  | unsupported _ _ => []

/-- Every selected item was handed over. -/
def allSent : World → Bool
  | debian w => (w.unresolved S).isEmpty
  | _ => true

/-- A failure that is taken for a partial one. -/
def partlySetUp : World → Bool
  | debian w => w.someSetUp S
  | _ => false

end World

section Says

variable {mode : Mode} {S : List Placed} {it : Placed} {o : Outcome}

theorem AptHost.results_of_runs {w : AptHost} (h : w.runs mode S) : w.results mode S =
      if w.outcome.code = some 0 then if w.unresolved S = [] then ⟨.success, eachAs S (successResult mode) []⟩
        else ⟨.partly, eachAs (w.sent S) (successResult mode) [] ++ eachAs (w.unresolved S) .failed UNRESOLVED_REASON⟩
      else if w.someSetUp S then ⟨.partly, (S.take (setUpLines w.outcome.stdout).length).map
            (fun it => ⟨it, it.item.hotFixId, it.item.title, successResult mode, none, none⟩) ++
          (S.drop (setUpLines w.outcome.stdout).length).map fun it =>
            ⟨it, it.item.hotFixId, it.item.title, .failed, some (lastLines 5 w.outcome.stderr), none⟩⟩ else
        ⟨.failed, eachAs S .failed (if lastLines 5 w.outcome.stderr = [] then exited (text "apt-get") w.outcome.code
          else lastLines 5 w.outcome.stderr)⟩ := by
  simp only [runs, Bool.and_eq_true, Bool.not_eq_true', isEmpty_eq_false_iff, isNone_iff_eq_none] at h
  obtain ⟨⟨hholder, hrepair⟩, hnames⟩ := h
  have hnone : (if mode = .install then w.repairFailure else none) = none := by
    cases mode with
    | install => simpa using hrepair
    | download => rfl
  simp only [results, hholder, hnone, hnames, if_false]

/-- Where apt-get is not run every entry says failed. -/
theorem AptHost.results_of_not_runs {w : AptHost} (h : w.runs mode S = false) :
    ∃ status message, (status = .busy ∨ status = .failed) ∧ w.results mode S = ⟨status, eachAs S .failed message⟩ := by
  unfold results
  cases hholder : w.holder with
  | some holder => exact ⟨_, _, .inl rfl, rfl⟩
  | none =>
    cases hrepair : if mode = .install then w.repairFailure else none with
    | some tail => exact ⟨_, _, .inr rfl, rfl⟩
    | none =>
      have hnames : w.packageNames S = [] := by
        cases mode with
        | install => simpa [runs, hholder, (by simpa using hrepair : w.repairFailure = none)] using h
        | download => simpa [runs, hholder] using h
      exact ⟨_, UNRESOLVED_REASON, .inr rfl, by simp [hnames]⟩

theorem DnfHost.results_of_runs {w : DnfHost} (h : w.runs mode S) : w.results mode S =
      if w.outcome.code = some 0 then ⟨.success, eachAs S (successResult mode) []⟩ else ⟨.failed, eachAs S .failed
          (if lastLines 10 (if w.outcome.stderr = [] then w.outcome.stdout else w.outcome.stderr) = [] then
            exited (text "dnf") w.outcome.code
          else lastLines 10 (if w.outcome.stderr = [] then w.outcome.stdout else w.outcome.stderr))⟩ := by
  simp only [runs, Bool.and_eq_true] at h
  simp only [results, h.1, h.2, Bool.not_true, Bool.false_eq_true, if_false]

theorem DnfHost.results_of_not_runs {w : DnfHost} (h : w.runs mode S = false) :
    (∃ message, w.results mode S = ⟨.failed, eachAs S .failed message⟩) ∨ w.results mode S = ⟨.noUpdates, []⟩ := by
  unfold results
  cases hbinary : w.binary with
  | false => exact .inl ⟨_, rfl⟩
  | true =>
    right
    have hnone : hasArguments mode S = false := by simpa [runs, hbinary] using h
    simp [hnone]

theorem installed_eachAs (items : List Placed) (result : ItemResult) (message : Str) :
    (∃ e ∈ eachAs items result message, e.item = it ∧ e.result = .installed) ↔ result = .installed ∧ it ∈ items := by
  constructor
  · rintro ⟨e, he, rfl, hresult⟩
    obtain ⟨it, hit, rfl⟩ := mem_eachAs.mp he
    exact ⟨hresult, hit⟩
  · rintro ⟨rfl, hit⟩
    exact ⟨_, mem_eachAs.mpr ⟨it, hit, rfl⟩, rfl, rfl⟩

theorem successResult_eq_installed : successResult mode = .installed ↔ mode = .install := by
  cases mode <;> simp [successResult]

/-- The items that an entry says are installed. -/
theorem installed_iff (w : World) : (∃ e ∈ (w.results mode S).results, e.item = it ∧ e.result = .installed) ↔
      mode = .install ∧ (w.ran mode S).isSome ∧ it ∈ w.credited S := by
  cases w with
  | debian w =>
    cases hruns : w.runs mode S with
    | false =>
      obtain ⟨status, message, -, hresults⟩ := AptHost.results_of_not_runs hruns
      simp [World.results, World.ran, hresults, hruns]
    | true =>
      simp only [World.results, World.ran, World.credited, AptHost.results_of_runs hruns, hruns, if_true,
        isSome_some, true_and]
      split
      · split
        · rename_i hunresolved
          have hsent : w.sent S = S := by
            have hperm := sent_append_unresolved w S
            rw [hunresolved, append_nil] at hperm
            exact filter_eq_self.mpr fun it hit => (mem_filter.mp (hperm.mem_iff.mpr hit)).2
          rw [installed_eachAs, successResult_eq_installed, hsent]
        · simp only [mem_append, or_and_right, exists_or, installed_eachAs, successResult_eq_installed]
          simp
      · split
        · simp only [List.mem_append, or_and_right, exists_or, List.mem_map]
          constructor
          · rintro (⟨e, ⟨it, hit, rfl⟩, rfl, hresult⟩ | ⟨e, ⟨it, hit, rfl⟩, rfl, hresult⟩)
            · exact ⟨successResult_eq_installed.mp hresult, hit⟩
            · cases hresult
          · rintro ⟨hmode, hit⟩
            exact .inl ⟨_, ⟨it, hit, rfl⟩, rfl, successResult_eq_installed.mpr hmode⟩
        · simp
  | rhel w =>
    cases hruns : w.runs mode S with
    | false =>
      rcases DnfHost.results_of_not_runs hruns with ⟨message, hresults⟩ | hresults
      · simp [World.results, World.ran, hresults, hruns]
      · simp [World.results, World.ran, hresults, hruns]
    | true =>
      simp only [World.results, World.ran, World.credited, DnfHost.results_of_runs hruns, hruns, if_true,
        Option.isSome_some, true_and]
      split
      · rw [installed_eachAs, successResult_eq_installed]
      · simp
  | suse => simp [World.results, World.ran]
  | unsupported family id => simp [World.results, World.ran]

theorem success_iff (w : World) :
    (w.results mode S).status = .success ↔ (∃ o ∈ w.ran mode S, o.code = some 0) ∧ w.allSent S := by
  cases w with
  | debian w =>
    cases hruns : w.runs mode S with
    | false =>
      obtain ⟨status, message, hstatus, hresults⟩ := AptHost.results_of_not_runs hruns
      rcases hstatus with rfl | rfl <;> simp [World.results, World.ran, hresults, hruns]
    | true =>
      simp only [World.results, World.ran, World.allSent, AptHost.results_of_runs hruns]
      split
      · split <;> simp_all
      · split <;> simp_all
  | rhel w =>
    cases hruns : w.runs mode S with
    | false =>
      rcases DnfHost.results_of_not_runs hruns with ⟨message, hresults⟩ | hresults <;>
        simp [World.results, World.ran, hresults, hruns]
    | true =>
      simp only [World.results, World.ran, World.allSent, DnfHost.results_of_runs hruns]
      split <;> simp_all
  | suse => simp [World.results, World.ran]
  | unsupported family id => simp [World.results, World.ran]

theorem failed_iff {w : World} (hran : w.ran mode S = some o) :
    (w.results mode S).status = .failed ↔ o.code ≠ some 0 ∧ w.partlySetUp S = false := by
  cases w with
  | debian w =>
    cases hruns : w.runs mode S with
    | false => simp [ran, hruns] at hran
    | true =>
      obtain rfl : w.outcome = o := by simpa [ran, hruns] using hran
      simp only [World.results, World.partlySetUp, AptHost.results_of_runs hruns]
      split
      · split <;> simp_all
      · split <;> simp_all
  | rhel w =>
    cases hruns : w.runs mode S with
    | false => simp [World.ran, hruns] at hran
    | true =>
      obtain rfl : w.outcome = o := by simpa [ran, hruns] using hran
      simp only [World.results, World.partlySetUp, DnfHost.results_of_runs hruns]
      split <;> simp_all
  | suse => simp [World.ran] at hran
  | unsupported family id => simp [ran] at hran

end Says

/-! ## Under which id -/

section Keys

variable {live : List ScanItem} {ids : List Str} {R : List (Placed × Str)} {id h want : Str} {it : Placed}

/-- The items that are selected, each with the first id that was requested for it. -/
structure Requested (live : List ScanItem) (ids : List Str) (R : List (Placed × Str)) : Prop where
  hit : ∀ p ∈ R, hit live p.2 = some p.1
  mem : ∀ p ∈ R, p.2 ∈ ids
  nodup : (R.map Prod.fst).Nodup

theorem requested_matchRequestedItems (live : List ScanItem) (ids : List Str) :
    Requested live ids (matchRequestedItems live ids).requestedFor := by
  induction ids using reverseRecOn with
  | nil => exact ⟨by simp [matchRequestedItems], by simp [matchRequestedItems], by simp [matchRequestedItems]⟩
  | append_singleton ids want ih =>
    rw [matchRequestedItems, foldl_append, foldl_cons, foldl_nil, ← matchRequestedItems]
    generalize matchRequestedItems live ids = m at ih ⊢
    have hold : Requested live (ids ++ [want]) m.requestedFor :=
      ⟨ih.hit, fun p hp => mem_append_left _ (ih.mem p hp), ih.nodup⟩
    unfold Matching.request
    cases hhit : LinuxPatch.hit live want with
    | none => exact hold
    | some it =>
      dsimp only
      split
      · exact hold
      · rename_i hnew
        refine ⟨fun p hp => ?_, fun p hp => ?_, ?_⟩
        · rcases mem_append.mp hp with hp | hp
          · exact ih.hit p hp
          · rw [mem_singleton.mp hp]
            exact hhit
        · rcases mem_append.mp hp with hp | hp
          · exact mem_append_left _ (ih.mem p hp)
          · rw [mem_singleton.mp hp]
            simp
        · rw [map_append, nodup_append]
          exact ⟨ih.nodup, by simp, fun it' hit' it'' hit'' => by
            rw [map_singleton, mem_singleton] at hit''
            exact fun heq => hnew (by simpa [heq, hit''] using hit')⟩

/-- An id stands for one item. -/
theorem Requested.fst_eq (hR : Requested live ids R) {p q : Placed × Str} (hp : p ∈ R) (hq : q ∈ R)
    (h : p.2 = q.2) : p.1 = q.1 :=
  some.inj ((hR.hit p hp).symm.trans ((congrArg (LinuxPatch.hit live) h).trans (hR.hit q hq)))

theorem exists_of_wantedFor (hwant : wantedFor R h = some want) :
    ∃ p ∈ R, p.1.item.hotFixId = h ∧ p.2 = want ∧ h ≠ [] := by
  unfold wantedFor at hwant
  split at hwant
  · simp at hwant
  · rename_i hne
    obtain ⟨p, hp, rfl⟩ := map_eq_some_iff.mp hwant
    have hid := find?_some hp
    exact ⟨p, mem_reverse.mp (mem_of_find?_eq_some hp), by simpa using hid, rfl, hne⟩

theorem wantedFor_isSome {p : Placed × Str} (hp : p ∈ R) (hne : p.1.item.hotFixId ≠ []) :
    ∃ want, wantedFor R p.1.item.hotFixId = some want := by
  rw [wantedFor, if_neg hne, ← isSome_iff_exists, isSome_map, find?_isSome]
  exact ⟨p, mem_reverse.mpr hp, by simp⟩

/-- The selected items that have an id have different ones. -/
def Distinct (R : List (Placed × Str)) : Prop :=
  ∀ p ∈ R, ∀ q ∈ R, p.1.item.hotFixId ≠ [] → p.1.item.hotFixId = q.1.item.hotFixId → p.1 = q.1

theorem wantedFor_of_distinct (hR : Requested live ids R) (hdistinct : Distinct R) {p : Placed × Str} (hp : p ∈ R)
    (hne : p.1.item.hotFixId ≠ []) : wantedFor R p.1.item.hotFixId = some p.2 := by
  obtain ⟨want, hwant⟩ := wantedFor_isSome hp hne
  obtain ⟨q, hq, hid, rfl, -⟩ := exists_of_wantedFor hwant
  have hfst : p.1 = q.1 := hdistinct p hp q hq hne hid.symm
  have hpq : p = q := inj_on_of_nodup_map hR.nodup hp hq hfst
  rw [hwant, hpq]

end Keys

section Rekeyed

variable {R : List (Placed × Str)} {lower : Str → Str} {e : Entry} {id : Str}

@[simp] theorem item_rekey : (rekey R e).item = e.item := by
  unfold rekey
  split
  · rfl
  · split <;> rfl

@[simp] theorem result_rekey : (rekey R e).result = e.result := by
  unfold rekey
  split
  · rfl
  · split <;> rfl

@[simp] theorem updateId_rekey : (rekey R e).updateId = e.updateId := by
  unfold rekey
  split
  · rfl
  · split <;> rfl

theorem kb_rekey (hwants : ∀ p ∈ R, p.2 ≠ []) (hfresh : Fresh e) :
    (rekey R e).kb = wantedFor R e.item.item.hotFixId := by
  rw [← hfresh.updateId]
  unfold rekey
  cases hwant : wantedFor R e.updateId with
  | none => exact hfresh.kb
  | some want =>
    obtain ⟨p, hp, -, rfl, -⟩ := exists_of_wantedFor hwant
    simp [hwants p hp]

/-- An id is, up to case, the one that a selected item is put under, the id of the item, or that with `uid:` before
it. -/
def IsCovered (lower : Str → Str) (R : List (Placed × Str)) (S : List Placed) (id : Str) : Prop :=
  ∃ it ∈ S, it.item.hotFixId ≠ [] ∧ ((∃ want ∈ wantedFor R it.item.hotFixId, lower id = lower want) ∨
    lower id = lower it.item.hotFixId ∨ lower id = text "uid:" ++ lower it.item.hotFixId)

theorem mem_covered_rekey (hwants : ∀ p ∈ R, p.2 ≠ []) (hfresh : Fresh e) :
    lower id ∈ covered lower (rekey R e) ↔ IsCovered lower R [e.item] id := by
  have hkb := kb_rekey hwants hfresh
  simp only [IsCovered, mem_singleton, exists_eq_left, covered, hkb, updateId_rekey, hfresh.updateId]
  cases hwant : wantedFor R e.item.item.hotFixId with
  | none =>
    by_cases hne : e.item.item.hotFixId = []
    · simp
    · simp [hne]
  | some want =>
    obtain ⟨p, hp, -, rfl, hne⟩ := exists_of_wantedFor hwant
    simp [hwants p hp, hne]

end Rekeyed

section Accounted

variable {w : World} {mode : Mode} {live : List ScanItem} {ids : List Str} {lower : Str → Str} {id : Str}

theorem ne_nil_of_isPatchId (h : isPatchId id) : id ≠ [] := by
  rintro rfl
  simp [isPatchId] at h

/-- The selected items that have an id have different ones, and every requested id is the first one for such an item,
or unlike everything that an entry covers, up to case. -/
structure Distinguished (lower : Str → Str) (live : List ScanItem) (ids : List Str) : Prop where
  distinct : Distinct (matchRequestedItems live ids).requestedFor
  told : ∀ id ∈ ids, (∃ p ∈ (matchRequestedItems live ids).requestedFor, p.2 = id ∧ p.1.item.hotFixId ≠ []) ∨
      ∀ p ∈ (matchRequestedItems live ids).requestedFor, p.1.item.hotFixId ≠ [] →
        lower id ≠ lower p.2 ∧ lower id ≠ lower p.1.item.hotFixId ∧
          lower id ≠ text "uid:" ++ lower p.1.item.hotFixId

theorem results_handlePatchInstall (w : World) (mode : Mode) (live : List ScanItem) (ids : List Str) :
    (handlePatchInstall w mode live ids).results = if (matchRequestedItems live ids).selected = [] then []
      else (w.results mode (matchRequestedItems live ids).selected).results.map
        (rekey (matchRequestedItems live ids).requestedFor) := by
  rw [handlePatchInstall]
  split <;> rfl

/-- The count and the join over the selected items. -/
theorem accounted_iff_selected (hids : ∀ id ∈ ids, id ≠ [])
    (hloud : w.silent mode (matchRequestedItems live ids).selected = false) :
    Accounted w mode live ids lower ↔ ∀ id ∈ ids, ((matchRequestedItems live ids).selected.countP fun it =>
        wantedFor (matchRequestedItems live ids).requestedFor it.item.hotFixId == some id) = 1 ∨
      ¬ IsCovered lower (matchRequestedItems live ids).requestedFor (matchRequestedItems live ids).selected id := by
  have hR := requested_matchRequestedItems live ids
  rw [Accounted, results_handlePatchInstall]
  generalize matchRequestedItems live ids = m at hR hloud ⊢
  have hwants : ∀ p ∈ m.requestedFor, p.2 ≠ [] := fun p hp => hids _ (hR.mem p hp)
  have hperm := items_perm w mode m.selected hloud
  have hfresh : ∀ e ∈ (w.results mode m.selected).results, Fresh e := fun e he => fresh_of_mem w he
  refine forall₂_congr fun id hid => ?_
  split
  · rename_i hnil
    simp [hnil, unmatchedRequested, IsCovered, hid]
  · have hcount : ((w.results mode m.selected).results.map (rekey m.requestedFor)).countP (fun r => r.kb == some id) =
        m.selected.countP fun it => wantedFor m.requestedFor it.item.hotFixId == some id := by
      rw [countP_map, ← hperm.countP_eq, countP_map]
      refine countP_congr fun e he => ?_
      simp [kb_rekey hwants (hfresh e he)]
    have hcovered : id ∈ unmatchedRequested lower ids
        ((w.results mode m.selected).results.map (rekey m.requestedFor)) ↔
          ¬ IsCovered lower m.requestedFor m.selected id := by
      have hmem : lower id ∈ ((w.results mode m.selected).results.map (rekey m.requestedFor)).flatMap (covered lower) ↔
          IsCovered lower m.requestedFor m.selected id := by
        simp only [List.mem_flatMap, List.mem_map, exists_exists_and_eq_and]
        constructor
        · rintro ⟨e, he, hmem⟩
          obtain ⟨it, hit, hit'⟩ := (mem_covered_rekey hwants (hfresh e he)).mp hmem
          rw [List.mem_singleton.mp hit] at hit'
          exact ⟨e.item, hperm.mem_iff.mp (mem_map.mpr ⟨e, he, rfl⟩), hit'⟩
        · rintro ⟨it, hit, hit'⟩
          obtain ⟨e, he, rfl⟩ := mem_map.mp (hperm.mem_iff.mpr hit)
          exact ⟨e, he, (mem_covered_rekey hwants (hfresh e he)).mpr ⟨e.item, List.mem_singleton_self _, hit'⟩⟩
      rw [unmatchedRequested, mem_filter]
      simp [hid, ← hmem]
    rw [hcount, hcovered]

/-- Every requested id is accounted for exactly if the entries tell them apart. -/
theorem accounted_iff (s : Selection) : Accounted w mode live s.ids lower ↔
      w.silent mode (matchRequestedItems live s.ids).selected ∨ Distinguished lower live s.ids := by
  have hids : ∀ id ∈ s.ids, id ≠ [] := fun id hid => ne_nil_of_isPatchId (s.well_formed id hid)
  cases hsilent : w.silent mode (matchRequestedItems live s.ids).selected with
  | true =>
    refine iff_of_true (fun id hid => .inr ?_) (.inl rfl)
    rw [results_handlePatchInstall, results_of_silent hsilent]
    split <;> simp [unmatchedRequested, hid]
  | false =>
    have hR := requested_matchRequestedItems live s.ids
    have hknown := (sound_matchRequestedItems live s.ids).known
    rw [accounted_iff_selected hids hsilent]
    simp only [Bool.false_eq_true, false_or]
    have hselected {it : Placed} : it ∈ (matchRequestedItems live s.ids).selected ↔
        ∃ p ∈ (matchRequestedItems live s.ids).requestedFor, p.1 = it := by
      rw [← hknown, List.mem_map]
    have hnodup : (matchRequestedItems live s.ids).selected.Nodup := hknown ▸ hR.nodup
    constructor
    · intro haccounted
      have hdistinct : Distinct (matchRequestedItems live s.ids).requestedFor := by
        intro p hp q hq hne hid
        obtain ⟨want, hwant⟩ := wantedFor_isSome hp hne
        obtain ⟨r, hr, -, rfl, -⟩ := exists_of_wantedFor hwant
        rcases haccounted r.2 (hR.mem r hr) with hone | hnot
        · -- both items are put under the id
          rw [countP_eq_length_filter, length_eq_one_iff] at hone
          obtain ⟨it, hone⟩ := hone
          have hmem {p : Placed × Str} (hp : p ∈ (matchRequestedItems live s.ids).requestedFor)
              (hwant : wantedFor (matchRequestedItems live s.ids).requestedFor p.1.item.hotFixId = some r.2) :
              p.1 = it := by
            rw [← mem_singleton, ← hone, mem_filter]
            exact ⟨hselected.mpr ⟨p, hp, rfl⟩, by simp [hwant]⟩
          rw [hmem hp hwant, hmem hq (hid ▸ hwant)]
        · exact absurd ⟨p.1, hselected.mpr ⟨p, hp, rfl⟩, hne, .inl ⟨_, hwant, rfl⟩⟩ hnot
      refine ⟨hdistinct, fun id hid => ?_⟩
      rcases haccounted id hid with hone | hnot
      · left
        have hpos : 0 < (matchRequestedItems live s.ids).selected.countP fun it =>
            wantedFor (matchRequestedItems live s.ids).requestedFor it.item.hotFixId == some id := by simp [hone]
        obtain ⟨it, -, hwant⟩ := countP_pos_iff.mp hpos
        obtain ⟨p, hp, hpid, rfl, hne⟩ := exists_of_wantedFor (by simpa using hwant)
        exact ⟨p, hp, rfl, hpid ▸ hne⟩
      · right
        intro p hp hne
        have hmem := hselected.mpr ⟨p, hp, rfl⟩
        have hwant := wantedFor_of_distinct hR hdistinct hp hne
        exact ⟨fun h => hnot ⟨p.1, hmem, hne, .inl ⟨_, hwant, h⟩⟩, fun h => hnot ⟨p.1, hmem, hne, .inr (.inl h)⟩,
          fun h => hnot ⟨p.1, hmem, hne, .inr (.inr h)⟩⟩
    · intro hdistinguished id hid
      rcases hdistinguished.told id hid with ⟨p, hp, rfl, hne⟩ | hnone
      · left
        have hsame : ∀ it ∈ (matchRequestedItems live s.ids).selected,
            (wantedFor (matchRequestedItems live s.ids).requestedFor it.item.hotFixId == some p.2) ↔
              (it == p.1) := by
          intro it hit
          obtain ⟨q, hq, rfl⟩ := hselected.mp hit
          rw [beq_iff_eq, beq_iff_eq]
          constructor
          · intro hwant
            obtain ⟨-, -, -, -, hqne⟩ := exists_of_wantedFor hwant
            rw [wantedFor_of_distinct hR hdistinguished.distinct hq hqne] at hwant
            exact hR.fst_eq hq hp (some.inj hwant)
          · intro hfst
            rw [hfst]
            exact wantedFor_of_distinct hR hdistinguished.distinct hp hne
        rw [countP_congr hsame]
        exact count_eq_one_of_mem hnodup (hselected.mpr ⟨p, hp, rfl⟩)
      · right
        rintro ⟨it, hit, hne, hcovered⟩
        obtain ⟨p, hp, rfl⟩ := hselected.mp hit
        obtain ⟨hfirst, hown, huid⟩ := hnone p hp hne
        rw [wantedFor_of_distinct hR hdistinguished.distinct hp hne] at hcovered
        rcases hcovered with ⟨_, ⟨⟩, heq⟩ | heq | heq
        · exact hfirst heq
        · exact hown heq
        · exact huid heq

end Accounted

/-! ## What happened -/

theorem ran_debian {w : AptHost} {mode : Mode} {S : List Placed} (h : w.runs mode S) :
    (debian w).ran mode S = some w.outcome := if_pos h

section Happened

variable {w : World} {mode : Mode} {live : List ScanItem} {ids : List Str} {advisoryPackages : Str → List Str}

/-- The packages of the items that are taken for installed are configured. -/
def CreditedConfigured (w : World) (mode : Mode) (live : List ScanItem) (ids : List Str)
    (advisoryPackages : Str → List Str) : Prop :=
  mode = .install → ∀ o ∈ w.ran mode (matchRequestedItems live ids).selected,
    ∀ it ∈ w.credited (matchRequestedItems live ids).selected, ConfiguredBy advisoryPackages o it

/-- An exit code of 0 means that all is configured, where all was handed over, and any other one that nothing is, where
it is not taken for a partial failure. -/
def CodeTells (w : World) (mode : Mode) (live : List ScanItem) (ids : List Str)
    (advisoryPackages : Str → List Str) : Prop :=
  ∀ o ∈ w.ran mode (matchRequestedItems live ids).selected,
    if o.code = some 0 then
      w.allSent (matchRequestedItems live ids).selected = true →
        ∀ it ∈ (matchRequestedItems live ids).selected, ConfiguredBy advisoryPackages o it
    else
      w.partlySetUp (matchRequestedItems live ids).selected = false →
        ∀ it ∈ (matchRequestedItems live ids).selected, ¬ ConfiguredBy advisoryPackages o it

theorem credited_nil (w : World) : w.credited [] = [] := by
  cases w with
  | debian w => simp [credited, sent]
  | rhel w => simp [credited]
  | suse => rfl
  | unsupported family id => rfl

theorem honest_iff :
    Honest w mode live ids advisoryPackages ↔ CreditedConfigured w mode live ids advisoryPackages := by
  rw [Honest, results_handlePatchInstall, CreditedConfigured]
  unfold Configured
  generalize matchRequestedItems live ids = m
  split
  · rename_i hnil
    simp [hnil, credited_nil]
  · have hinstalled (it : Placed) := @installed_iff mode m.selected it w
    constructor
    · intro hhonest hmode o hran it hit
      obtain ⟨e, he, rfl, hresult⟩ := (hinstalled it).mpr ⟨hmode, by rw [hran]; rfl, hit⟩
      obtain ⟨o', hran', hconfigured⟩ := hhonest _ (mem_map_of_mem he) (by simpa using hresult)
      obtain rfl : o = o' := some.inj (hran.symm.trans hran')
      simpa using hconfigured
    · intro hcredited r hr hresult
      obtain ⟨e, he, rfl⟩ := mem_map.mp hr
      obtain ⟨hmode, hran, hit⟩ := (hinstalled e.item).mp ⟨e, he, rfl, by simpa using hresult⟩
      obtain ⟨o, hran⟩ := isSome_iff_exists.mp hran
      exact ⟨o, hran, by simpa using hcredited hmode o hran e.item hit⟩

theorem settled_iff : Settled w mode live ids advisoryPackages ↔ CodeTells w mode live ids advisoryPackages := by
  have hstatus : (matchRequestedItems live ids).selected ≠ [] → (handlePatchInstall w mode live ids).status =
      (w.results mode (matchRequestedItems live ids).selected).status := by
    intro hne
    rw [handlePatchInstall, if_neg hne]
  have hsettled : Settled w mode live ids advisoryPackages ↔ ((handlePatchInstall w mode live ids).status = .success →
        ∀ it ∈ (matchRequestedItems live ids).selected, Configured w mode live ids advisoryPackages it) ∧
      ((handlePatchInstall w mode live ids).status = .failed →
        ∀ it ∈ (matchRequestedItems live ids).selected, ¬ Configured w mode live ids advisoryPackages it) :=
    ⟨fun h => ⟨h.success, h.failed⟩, fun h => ⟨h.1, h.2⟩⟩
  rw [hsettled, CodeTells]
  unfold Configured
  by_cases hne : (matchRequestedItems live ids).selected = []
  · simp [hne]
  rw [hstatus hne, success_iff]
  cases hran : w.ran mode (matchRequestedItems live ids).selected with
  | none => simp
  | some o =>
    rw [failed_iff hran]
    by_cases hcode : o.code = some 0
    · simp [hcode]
    · simp [hcode]

end Happened

/-! ## The result -/

/-- The results account for every requested id, and claim only what happened, exactly if the entries tell the ids
apart and the exit code, or the number of packages set up, tells which items are configured. -/
theorem accounts_iff (lower : Str → Str) (advisoryPackages : Str → List Str) (w : World) (mode : Mode)
    (live : List ScanItem) (s : Selection) : (Accounted w mode live s.ids lower ↔
      w.silent mode (matchRequestedItems live s.ids).selected = true ∨ Distinguished lower live s.ids) ∧
    (Honest w mode live s.ids advisoryPackages ↔ CreditedConfigured w mode live s.ids advisoryPackages) ∧
    (Settled w mode live s.ids advisoryPackages ↔ CodeTells w mode live s.ids advisoryPackages) :=
  ⟨accounted_iff s, honest_iff, settled_iff⟩

/-! ## Two requests for a package, and a failure -/

def openssl : ScanItem := aptItem (text "openssl") (text "jammy-security") (text "3.0.2") none

def curl : ScanItem := aptItem (text "curl") (text "jammy-security") (text "7.81") none

def opensslSetUp : Str := text "Setting up openssl (3.0.2) ...\n"

theorem setUpLines_opensslSetUp : ((setUpLines opensslSetUp).map settingUp).Perm [text "openssl"] := by
  decide

/-- An exit code, and one package set up. -/
def aptHost (code : Nat) : AptHost where
  holder := none
  repairFailure := none
  fresh := [openssl, curl]
  outcome := ⟨some code, opensslSetUp, [], [text "openssl"]⟩
  printed := setUpLines_opensslSetUp

/-- The older version that was scanned, and the one that is pending. -/
def bothVersions : Selection where
  ids := [text "openssl-3.0.1", text "openssl-3.0.2"]
  some_id := by decide
  well_formed := by decide

def curlFirst : Selection where
  ids := [text "curl-7.81", text "openssl-3.0.2"]
  some_id := by decide
  well_formed := by decide

def opensslOnly : Selection where
  ids := [text "openssl-3.0.2"]
  some_id := by decide
  well_formed := by decide

/-- The second id is in no entry and not named, the first item is said to be installed where the second one is, and a
package that is configured is said to have failed. -/
theorem not_accounts_openssl :
    ¬ Accounted (.debian (aptHost 0)) .install [openssl, curl] bothVersions.ids LinuxPatch.lower ∧
    ¬ Honest (.debian (aptHost 100)) .install [openssl, curl] curlFirst.ids (fun _ => []) ∧
    ¬ Settled (.debian (aptHost 100)) .install [openssl, curl] opensslOnly.ids (fun _ => []) := by
  refine ⟨fun haccounted => ?_, fun hhonest => ?_, fun hsettled => ?_⟩
  · rcases haccounted (text "openssl-3.0.2") (by decide) with hone | hnamed
    · exact absurd hone (by decide)
    · exact absurd hnamed (by decide)
  · have hruns : (aptHost 100).runs .install (matchRequestedItems [openssl, curl] curlFirst.ids).selected := by
      decide
    have hcredited : ⟨curl, 1⟩ ∈ (debian (aptHost 100)).credited
        (matchRequestedItems [openssl, curl] curlFirst.ids).selected := by decide
    have hcurl := (honest_iff.mp hhonest rfl _ (ran_debian hruns) _ hcredited).2 (text "curl") (by decide)
    exact absurd hcurl (by decide)
  · have hruns : (aptHost 100).runs .install (matchRequestedItems [openssl, curl] opensslOnly.ids).selected := by
      decide
    have hselected : ⟨openssl, 0⟩ ∈ (matchRequestedItems [openssl, curl] opensslOnly.ids).selected := by
      decide
    have htells := settled_iff.mp hsettled _ (ran_debian hruns)
    exact htells (by decide) _ hselected ⟨by decide, by decide⟩

end LinuxPatch.Account
