-- SUMMARY: Which requests the validator reads as a whitelist does: it does not throw, and what it takes is listed.
import Tracenium.Hardening.Listed

/-!
Requests escape the lists by names that every object inherits, by spellings of zero, and by names of directories that
stand for the listed one or go beyond it.
-/

open Utf16 Json List

namespace Hardening

def IsEntryName (name : Str) : Prop :=
  name ≠ [] ∧ slash ∉ name ∧ 0 ∉ name ∧ name ≠ [dot] ∧ name ≠ [dot, dot]

def PermScope.Confines (scope : PermScope) (path file : Str) : Prop :=
  match scope with
  | .path => file = path
  | .files => ∃ name, IsEntryName name ∧ file = path ++ slash :: name

/-- What a write names is listed and has no guard against it. `readsZero` is how the kernel reads
numbers. -/
def Sanctioned (l : Library) (readsZero : Str → Bool) (w : Json) : LinuxWrite → Prop
  | .sysctl key value _ =>
    sysctlGuard l key value = none ∧ (isForwarding (l.lower key) = true → readsZero value = false)
  | .kmod module disable =>
    ∃ policy, KMOD_POLICY.own module = some policy ∧ (disable = true → policy.guard = none)
  | .auditRule line _ => isAuditRule line = true
  | .conf file key value =>
    ∃ policy entry, CONF_FILES.own file = some policy ∧ policy.keys.own key = some entry ∧
      (value.isSome = true → entry.guard = none)
  | .sshd key value _ =>
    ∃ directive policy, SSHD_DIRECTIVES.own directive = some policy ∧ key = some policy.name ∧
      ∀ v, value = some v → some (l.lower v) = policy.guardValue → policy.guard = none
  | .line file line present =>
    ∃ policy entry, LINE_FILES.own file = some policy ∧ policy.lines.own line = some entry ∧
      (present = true → entry.guard = none)
  | .pkg name installed =>
    ∃ rule, PKG_POLICY.own name = some rule ∧
      rule.guard installed (boolField w "accepted" = some true) = none
  | .unit unit enabled => ∃ rule, UNIT_POLICY.own unit = some rule ∧ rule.guard enabled = none
  | .perm path _ restore =>
    ∃ policy, PERM_POLICY.own path = some policy ∧
      ∀ entries, restore = some entries → ∀ r ∈ entries, policy.scope.Confines path r.file
  | .banner file _ _ => file ∈ BANNER_FILES
  | .grubAudit _ => True

/-- The validator does not throw, and what it reads off the writes is sanctioned. -/
structure Whitelisted (l : Library) (readsZero : Str → Bool) (params : Json) : Prop where
  total : parseWrites l params ≠ .threw
  sound : ∀ raw outs, params.field (text "writes") = some (.arr raw) →
    parseWrites l params = .ok outs → Forall₂ (Sanctioned l readsZero) raw outs

/-! ## What gets past the lists -/

/-- A file that ends with a slash or names the directory itself, or no file at all. -/
def isOddEntry (file : Str) : Bool :=
  file.getLast? == some slash || [slash, dot].isSuffixOf file || file.contains 0

/-- What is permitted all the same: another spelling of zero, or an odd entry. -/
def LinuxWrite.Evades (l : Library) (readsZero : Str → Bool) : LinuxWrite → Prop
  | .sysctl key value _ => isForwarding (l.lower key) = true ∧ readsZero value = true
  | .perm path _ restore =>
    ∃ policy entries, PERM_POLICY.own path = some policy ∧ policy.scope = .files ∧
      restore = some entries ∧ ∃ r ∈ entries, isOddEntry r.file = true
  | _ => False

/-- What a write asks for gets past the lists. -/
def Strays (l : Library) (readsZero : Str → Bool) (w : Json) : Prop :=
  ∃ out, Leaks l w out ∨ Permits l w out ∧ out.Evades l readsZero

/-- No write that is reached throws, and if all are taken, none strays. -/
def Harmless (l : Library) (readsZero : Str → Bool) (params : Json) : Prop :=
  ∀ raw, params.field (text "writes") = some (.arr raw) → raw ≠ [] → raw.length ≤ 64 →
    (∀ before w after, raw = before ++ w :: after → (∀ v ∈ before, ∃ out, Takes l v out) → ¬ Breaks l w) ∧
    ((∀ w ∈ raw, ∃ out, Takes l w out) → ∀ w ∈ raw, ¬ Strays l readsZero w)

/-! ## Entries of the listed directories -/

theorem hasDotDot_append_cons (s t : Str) : hasDotDot (s ++ dot :: dot :: t) := by
  induction s with
  | nil => rfl
  | cons u s ih =>
    cases s with
    | nil =>
      exact Bool.or_eq_true_iff.mpr (.inr rfl)
    | cons v s =>
      exact Bool.or_eq_true_iff.mpr (.inr ih)

theorem permPath_plain {path : Str} {policy : PermPolicy} (hown : PERM_POLICY.own path = some policy) :
    1 < path.length ∧ path ≠ [slash, slash] ∧ 0 ∉ path := by
  have hall : ∀ e ∈ PERM_POLICY.entries, 1 < e.1.length ∧ e.1 ≠ [slash, slash] ∧ 0 ∉ e.1 := by
    decide
  exact hall _ (Literal.mem_of_own hown)

theorem isOddEntry_eq_false_iff {file : Str} : isOddEntry file = false ↔
      file.getLast? ≠ some slash ∧ ¬ [slash, dot] <:+ file ∧ 0 ∉ file := by
  rw [isOddEntry, Bool.or_eq_false_iff, Bool.or_eq_false_iff, beq_eq_false_iff_ne, and_assoc,
    ← Bool.not_eq_true, ← Bool.not_eq_true, isSuffixOf_iff_suffix, contains_iff_mem]

/-- The name of an entry is not odd. -/
theorem isOddEntry_of_entry {path name : Str} (hname : IsEntryName name) (hpath : 0 ∉ path) :
    isOddEntry (path ++ slash :: name) = false := by
  obtain ⟨hne, hslash, hzero, hdot, -⟩ := hname
  -- how the file ends is how its name ends
  obtain ⟨init, c, rfl⟩ := (eq_nil_or_concat' name).resolve_left hne
  rw [← cons_append, ← append_assoc, isOddEntry_eq_false_iff]
  refine ⟨?_, ?_, ?_⟩
  · rw [getLast?_concat]
    intro h
    rw [Option.some.inj h] at hslash
    exact hslash (mem_append_right _ mem_cons_self)
  · rintro ⟨before, hbefore⟩
    have hsplit : (before ++ [slash]) ++ [dot] = path ++ slash :: init ++ [c] := by
      rw [append_assoc]
      exact hbefore
    obtain ⟨hinit, hc⟩ := append_inj' hsplit rfl
    rcases eq_nil_or_concat' init with rfl | ⟨init', d, rfl⟩
    · exact hdot hc.symm
    · rw [← cons_append, ← append_assoc] at hinit
      have hd := (append_inj' hinit rfl).2
      rw [← hd] at hslash
      exact hslash (mem_append_left _ (mem_append_right _ mem_cons_self))
  · rw [append_assoc, mem_append, cons_append, mem_cons]
    rintro (h | h | h)
    · exact hpath h
    · exact absurd h (by decide)
    · exact hzero h

/-- What `dirname` takes to be in the directory is an entry of it, unless it is odd. -/
theorem entry_of_dirname {path file : Str} (hdirname : dirname file = path)
    (hpath : 1 < path.length) (hroot : path ≠ [slash, slash]) (hdots : hasDotDot file = false)
    (hodd : isOddEntry file = false) : ∃ name, IsEntryName name ∧ file = path ++ slash :: name := by
  obtain ⟨hlast, hsuffix, hzero⟩ := isOddEntry_eq_false_iff.mp hodd
  obtain ⟨name, n, hslash, hne, rfl⟩ := eq_of_dirname hdirname hpath hroot
  -- `dirname` skips the slashes that the file ends with
  cases n with
  | succ n =>
    rw [replicate_succ', ← append_assoc, getLast?_concat] at hlast
    exact absurd rfl hlast
  | zero =>
    rw [replicate_zero, append_nil] at *
    refine ⟨name, ⟨hne, hslash, ?_, ?_, ?_⟩, rfl⟩
    · exact fun hmem => hzero (mem_append_right _ (mem_cons_of_mem _ hmem))
    · rintro rfl
      exact hsuffix (suffix_append path [slash, dot])
    · rintro rfl
      have hfound := hasDotDot_append_cons (path ++ [slash]) []
      rw [append_assoc] at hfound
      rw [singleton_append, hdots] at hfound
      cases hfound

theorem confines_iff {path file : Str} {policy : PermPolicy}
    (hown : PERM_POLICY.own path = some policy) (hadmits : policy.scope.admits path file) :
    policy.scope.Confines path file ↔ ¬ (policy.scope = .files ∧ isOddEntry file) := by
  obtain ⟨hlength, hroot, hzero⟩ := permPath_plain hown
  unfold PermScope.admits at hadmits
  rw [Bool.and_eq_true, Bool.not_eq_true'] at hadmits
  cases hscope : policy.scope with
  | path =>
    rw [hscope] at hadmits
    exact iff_of_true (eq_of_beq hadmits.2) fun h => PermScope.noConfusion h.1
  | files =>
    rw [hscope] at hadmits
    rw [eq_self, true_and, Bool.not_eq_true]
    constructor
    · rintro ⟨name, hname, rfl⟩
      exact isOddEntry_of_entry hname hzero
    · exact entry_of_dirname (eq_of_beq hadmits.2) hlength hroot hadmits.1

/-! ## What is taken -/

section Writes

variable {l : Library} {readsZero : Str → Bool} {w : Json} {out : LinuxWrite}

theorem admits_of_parseRestoreEntry {scope : PermScope} {path : Str} {r : Json} {e : PermRestore}
    (h : parseRestoreEntry l scope path r = .ok e) : scope.admits path e.file := by
  unfold parseRestoreEntry at h
  split at h
  · cases h
  · rename_i file hfile
    have hadmits := (Option.filter_eq_some_iff.mp hfile).2
    split at h
    · cases h
    · split at h
      · cases h
        exact hadmits
      · cases h

theorem admits_of_parseRestore {scope : PermScope} {path : Str} {restore : Option Json}
    {entries : List PermRestore} (h : parseRestore l scope path restore = .ok (some entries)) :
    ∀ e ∈ entries, scope.admits path e.file := by
  unfold parseRestore at h
  split at h
  · cases h
  · split at h
    · cases h
    · split at h
      · rename_i entries' hcollect
        cases h
        have hall := (Verdict.collect_ok_iff (R := fun r e => parseRestoreEntry l scope path r = .ok e)
          (fun _ _ _ => Iff.rfl) 0 _ _).mp hcollect
        intro e he
        obtain ⟨r, -, hr⟩ := hall.exists_of_mem_right he
        exact admits_of_parseRestoreEntry hr
      · cases h
      · cases h
  · cases h

/-- What is permitted is sanctioned, up to spellings of zero and odd entries. -/
theorem sanctioned_iff (h : Permits l w out) : Sanctioned l readsZero w out ↔ ¬ out.Evades l readsZero := by
  cases h with
  | sysctl _ _ _ _ _ _ hguard =>
    rw [Sanctioned, LinuxWrite.Evades, not_and, Bool.not_eq_true]
    exact and_iff_right hguard
  | kmod _ _ hown _ hguard => exact iff_of_true ⟨_, hown, hguard⟩ not_false
  | auditRule _ _ hgrammar _ => exact iff_of_true hgrammar not_false
  | conf _ _ hown _ hentry _ _ hguard =>
    exact iff_of_true ⟨_, _, hown, hentry, hguard⟩ not_false
  | unset _ _ hown _ =>
    exact iff_of_true ⟨_, _, hown, rfl, fun v hv => Option.noConfusion rfl (heq_of_eq hv)⟩ not_false
  | sshd _ _ hown _ _ _ hguard =>
    refine iff_of_true ⟨_, _, hown, rfl, fun v hv => ?_⟩ not_false
    cases hv
    exact hguard
  | line _ _ hown _ hentry _ hguard => exact iff_of_true ⟨_, _, hown, hentry, hguard⟩ not_false
  | pkg _ _ hown _ hguard => exact iff_of_true ⟨_, hown, hguard⟩ not_false
  | unit _ _ hown _ hguard => exact iff_of_true ⟨_, hown, hguard⟩ not_false
  | banner _ _ hmem _ _ => exact iff_of_true hmem not_false
  | grubAudit _ _ => exact iff_of_true trivial not_false
  -- only here `dirname` decides, and it lets odd entries through
  | @perm path policy restore _ _ hown _ hrestore =>
    constructor
    · rintro ⟨policy', hown', hconfines⟩ ⟨policy'', entries, hown'', hscope, rfl, r, hr, hodd⟩
      cases hown.symm.trans hown'
      cases hown.symm.trans hown''
      have hadmits := admits_of_parseRestore hrestore r hr
      exact (confines_iff hown hadmits).mp (hconfines entries rfl r hr) ⟨hscope, hodd⟩
    · intro hevades
      refine ⟨policy, hown, fun entries hentries r hr => ?_⟩
      subst hentries
      refine (confines_iff hown (admits_of_parseRestore hrestore r hr)).mpr fun h => ?_
      exact hevades ⟨policy, entries, hown, h.1, rfl, r, hr, h.2⟩

/-- What leaks names no entry of the lists. -/
theorem not_sanctioned (h : Leaks l w out) : ¬ Sanctioned l readsZero w out := by
  cases h with
  | conf =>
    rintro ⟨policy, entry, hown, -⟩
    have hinherits : CONF_FILES.Inherits (text "constructor") := by decide
    cases hown
  | sshd _ _ hinherits _ _ _ =>
    rintro ⟨directive, policy, hown, hname, -⟩
    -- the name that is written is the one of an inherited function, which no directive has
    have hnone : ∀ k ∈ Literal.inheritedNames, ∀ e ∈ SSHD_DIRECTIVES.entries,
        inheritedName k ≠ some e.2.name := by
      decide
    exact hnone _ hinherits.2 _ (Literal.mem_of_own hown) hname

end Writes

/-! ## The request -/

section Request

variable {l : Library} {params : Json}

/-- A request is a list of one to 64 writes. -/
theorem parseWrites_cases (l : Library) (params : Json) :
    (∃ raw, params.field (text "writes") = some (.arr raw) ∧ raw ≠ [] ∧ raw.length ≤ 64 ∧
      parseWrites l params = Verdict.collect (parseWrite l) 0 raw) ∨
    (¬ ∃ raw, params.field (text "writes") = some (.arr raw) ∧ raw ≠ [] ∧ raw.length ≤ 64) ∧
      ∃ message, parseWrites l params = .refused message := by
  unfold parseWrites
  split
  · rename_i raw hraw
    by_cases hshape : raw ≠ [] ∧ raw.length ≤ 64
    · refine .inl ⟨raw, hraw, hshape.1, hshape.2, if_neg ?_⟩
      rw [Bool.or_eq_true, List.isEmpty_iff, decide_eq_true_eq, not_or, Nat.not_lt]
      exact hshape
    · refine .inr ⟨?_, _, if_pos ?_⟩
      · rintro ⟨raw', heq, hshape'⟩
        cases hraw.symm.trans heq
        exact hshape hshape'
      · rw [Bool.or_eq_true, List.isEmpty_iff, decide_eq_true_eq]
        rw [not_and_or, Classical.not_not, Nat.not_le] at hshape
        exact hshape
  · rename_i hraw
    refine .inr ⟨?_, _, rfl⟩
    rintro ⟨raw, heq, -⟩
    exact hraw raw heq

theorem parseWrites_ok_iff {outs : List LinuxWrite} :
    parseWrites l params = .ok outs ↔ ∃ raw, params.field (text "writes") = some (.arr raw) ∧
      raw ≠ [] ∧ raw.length ≤ 64 ∧ Forall₂ (Takes l) raw outs := by
  have hok : ∀ i w out, parseWrite l i w = .ok out ↔ Takes l w out := fun _ _ _ => parseWrite_ok_iff
  have hcollect := fun raw => Verdict.collect_ok_iff hok 0 raw outs
  rcases parseWrites_cases l params with ⟨raw, hraw, hne, hlength, heq⟩ | ⟨hshape, message, heq⟩
  · rw [heq, hcollect]
    constructor
    · exact fun h => ⟨raw, hraw, hne, hlength, h⟩
    · rintro ⟨raw', hraw', -, -, h⟩
      cases hraw.symm.trans hraw'
      exact h
  · rw [heq]
    constructor
    · intro h
      cases h
    · rintro ⟨raw, hraw, hne, hlength, -⟩
      exact absurd ⟨raw, hraw, hne, hlength⟩ hshape

theorem parseWrites_threw_iff :
    parseWrites l params = .threw ↔ ∃ raw, params.field (text "writes") = some (.arr raw) ∧
      raw ≠ [] ∧ raw.length ≤ 64 ∧ ∃ before w after, raw = before ++ w :: after ∧
        (∀ v ∈ before, ∃ out, Takes l v out) ∧ Breaks l w := by
  have hok : ∀ i w out, parseWrite l i w = .ok out ↔ Takes l w out := fun _ _ _ => parseWrite_ok_iff
  have hthrew : ∀ i w, parseWrite l i w = .threw ↔ Breaks l w := fun _ _ => parseWrite_threw_iff
  have hcollect := Verdict.collect_threw_iff hok hthrew 0
  rcases parseWrites_cases l params with ⟨raw, hraw, hne, hlength, heq⟩ | ⟨hshape, message, heq⟩
  · rw [heq, hcollect]
    constructor
    · exact fun h => ⟨raw, hraw, hne, hlength, h⟩
    · rintro ⟨raw', hraw', -, -, h⟩
      cases hraw.symm.trans hraw'
      exact h
  · rw [heq]
    constructor
    · intro h
      cases h
    · rintro ⟨raw, hraw, hne, hlength, -⟩
      exact absurd ⟨raw, hraw, hne, hlength⟩ hshape

end Request

/-- The validator is a sound and total whitelist for exactly the harmless requests. -/
theorem whitelisted_iff (l : Library) (readsZero : Str → Bool) (params : Json) :
    Whitelisted l readsZero params ↔ Harmless l readsZero params := by
  -- a list is cut at its first throw, or every write of it is taken
  constructor
  · intro h raw hraw hne hlength
    refine ⟨fun before w after heq hbefore hbreaks => ?_, fun htaken w hw => ?_⟩
    · exact h.total (parseWrites_threw_iff.mpr
        ⟨raw, hraw, hne, hlength, before, w, after, heq, hbefore, hbreaks⟩)
    · rintro ⟨out, hstrays⟩
      obtain ⟨outs, houts⟩ := Forall₂.exists_of_forall htaken
      have hsound := h.sound raw outs hraw (parseWrites_ok_iff.mpr ⟨raw, hraw, hne, hlength, houts⟩)
      obtain ⟨out', -, htakes, hsanctioned⟩ := (houts.and hsound).exists_of_mem_left hw
      rcases hstrays with hleaks | ⟨hpermits, hevades⟩
      · cases htakes.unique (.inr hleaks)
        exact not_sanctioned hleaks hsanctioned
      · cases htakes.unique (.inl hpermits)
        exact (sanctioned_iff hpermits).mp hsanctioned hevades
  · intro h
    refine ⟨fun hthrew => ?_, fun raw outs hraw hok => ?_⟩
    · obtain ⟨raw, hraw, hne, hlength, before, w, after, heq, hbefore, hbreaks⟩ := parseWrites_threw_iff.mp hthrew
      exact (h raw hraw hne hlength).1 before w after heq hbefore hbreaks
    · obtain ⟨raw', hraw', hne, hlength, houts⟩ := parseWrites_ok_iff.mp hok
      cases hraw.symm.trans hraw'
      have htaken : ∀ w ∈ raw, ∃ out, Takes l w out := fun w hw => by
        obtain ⟨out, -, htakes⟩ := houts.exists_of_mem_left hw
        exact ⟨out, htakes⟩
      have hclean := (h raw hraw hne hlength).2 htaken
      refine ((forall₂_and_left _ _).mpr ⟨hclean, houts⟩).imp fun w out hw => ?_
      obtain ⟨hstrays, hpermits | hleaks⟩ := hw
      · exact (sanctioned_iff hpermits).mpr fun hevades =>
          hstrays ⟨out, .inr ⟨hpermits, hevades⟩⟩
      · exact absurd ⟨out, .inl hleaks⟩ hstrays

/-- A key of the file `constructor`, which every object inherits. -/
def constructorWrite : Json :=
  .obj [(text "kind", .str (text "conf")), (text "file", .str (text "constructor")),
    (text "key", .str (text "length")), (text "value", .null)]

def constructorRequest : Json := .obj [(text "writes", .arr [constructorWrite])]

theorem not_whitelisted_constructor :
    ¬ Whitelisted asciiLibrary (fun value => Ipc.trim value == text "0") constructorRequest := by
  intro h
  have hok : parseWrites asciiLibrary constructorRequest =
      .ok [.conf (text "constructor") (text "length") none] := by decide
  have hsound := h.sound [constructorWrite] _ rfl hok
  obtain ⟨⟨policy, entry, hown, -⟩, -⟩ := forall₂_cons.mp hsound
  have hinherits : CONF_FILES.Inherits (text "constructor") := by decide
  cases hinherits.1.symm.trans hown

end Hardening
