-- SUMMARY: What the closed lists permit, what gets past them, and where the validator throws.
import Tracenium.Hardening.Writes

open Utf16 Json Option

namespace Hardening

open Literal

variable (l : Library)

/-- The lists permit what a write asks for. -/
inductive Permits (w : Json) : LinuxWrite → Prop
  | sysctl {key value : Str} {persist : Bool} (hkind : kindOf w = some .sysctl)
      (hkey : strField w "key" = some key) (hgrammar : isSysctlKey key = true)
      (hvalue : strField w "value" = some value) (hsafe : isSafeValue value = true)
      (hpersist : boolField w "persist" = some persist)
      (hguard : sysctlGuard l key value = none) : Permits w (.sysctl key value persist)
  | kmod {module : Str} {policy : Guarded} {disable : Bool} (hkind : kindOf w = some .kmod)
      (hmodule : strField w "module" = some module) (hown : KMOD_POLICY.own module = some policy)
      (hdisable : boolField w "disable" = some disable)
      (hguard : disable = true → policy.guard = none) : Permits w (.kmod module disable)
  | auditRule {line : Str} {present : Bool} (hkind : kindOf w = some .auditRule)
      (hline : strField w "line" = some line) (hgrammar : isAuditRule line = true)
      (hpresent : boolField w "present" = some present) : Permits w (.auditRule line present)
  | conf {file key : Str} {policy : ConfPolicy} {entry : Guarded} {value : Option Str}
      (hkind : kindOf w = some .conf) (hfile : strField w "file" = some file)
      (hown : CONF_FILES.own file = some policy) (hkey : strField w "key" = some key)
      (hentry : policy.keys.own key = some entry) (hvalue : nullableField w "value" = some value)
      (hgrammar : value.all isConfValue = true)
      (hguard : value.isSome = true → entry.guard = none) : Permits w (.conf file key value)
  | unset {key : Str} {policy : SshdPolicy} (hkind : kindOf w = some .sshd)
      (hkey : strField w "key" = some key) (hown : SSHD_DIRECTIVES.own (l.lower key) = some policy)
      (hvalue : nullableField w "value" = some none) :
      Permits w (.sshd (some policy.name) none none)
  | sshd {key value : Str} {policy : SshdPolicy} {required : Option (List Str)}
      (hkind : kindOf w = some .sshd) (hkey : strField w "key" = some key)
      (hown : SSHD_DIRECTIVES.own (l.lower key) = some policy)
      (hvalue : nullableField w "value" = some (some value))
      (hgrammar : parseSshdValue policy value w = .ok required)
      (hvalues : ∀ values, policy.values = some values → value ∈ values)
      (hguard : some (l.lower value) = policy.guardValue → policy.guard = none) :
      Permits w (.sshd (some policy.name) (some value) required)
  | line {file line : Str} {policy : LinePolicy} {entry : Guarded} {present : Bool}
      (hkind : kindOf w = some .line) (hfile : strField w "file" = some file)
      (hown : LINE_FILES.own file = some policy) (hline : strField w "line" = some line)
      (hentry : policy.lines.own line = some entry)
      (hpresent : boolField w "present" = some present)
      (hguard : present = true → entry.guard = none) : Permits w (.line file line present)
  | pkg {name : Str} {rule : PkgRule} {installed : Bool} (hkind : kindOf w = some .pkg)
      (hname : strField w "name" = some name) (hown : PKG_POLICY.own name = some rule)
      (hinstalled : boolField w "installed" = some installed)
      (hguard : rule.guard installed (boolField w "accepted" = some true) = none) :
      Permits w (.pkg name installed)
  | unit {unit : Str} {rule : UnitRule} {enabled : Bool} (hkind : kindOf w = some .unit)
      (hunit : strField w "unit" = some unit) (hown : UNIT_POLICY.own unit = some rule)
      (henabled : boolField w "enabled" = some enabled) (hguard : rule.guard enabled = none) :
      Permits w (.unit unit enabled)
  | banner {file : Str} {restore : Option (Option Str)} (hkind : kindOf w = some .banner)
      (hfile : strField w "file" = some file) (hmem : file ∈ BANNER_FILES)
      (htext : strField w "text" = some BANNER_TEXT) (hrestore : bannerRestore w = some restore) :
      Permits w (.banner file BANNER_TEXT restore)
  | grubAudit {present : Bool} (hkind : kindOf w = some .grubAudit)
      (hpresent : boolField w "present" = some present) : Permits w (.grubAudit present)
  | perm {path : Str} {policy : PermPolicy} {restore : Option (List PermRestore)}
      (hkind : kindOf w = some .perm) (hpath : strField w "path" = some path)
      (hown : PERM_POLICY.own path = some policy)
      (hmode : strField w "maxMode" = some policy.maxMode)
      (hrestore : parseRestore l policy.scope path (w.field (text "restore")) = .ok restore) :
      Permits w (.perm path policy.maxMode restore)

/-- An inherited member answers the lookup, and the write goes through. -/
inductive Leaks (w : Json) : LinuxWrite → Prop
  | conf {key : Str} {value : Option Str} (hkind : kindOf w = some .conf)
      (hfile : strField w "file" = some (text "constructor"))
      (hkey : strField w "key" = some key) (hmember : key = text "length" ∨ key = text "name")
      (hvalue : nullableField w "value" = some value) (hgrammar : value.all isConfValue = true) :
      Leaks w (.conf (text "constructor") key value)
  | sshd {key : Str} {value : Option Str} (hkind : kindOf w = some .sshd)
      (hkey : strField w "key" = some key) (hinherits : SSHD_DIRECTIVES.Inherits (l.lower key))
      (hvalue : nullableField w "value" = some value) (hgrammar : value.all isSshdValue = true)
      (hnull : l.lower key = text "constructor" → value = none) :
      Leaks w (.sshd (inheritedName (l.lower key)) value none)

/-- An inherited member answers the lookup, and reading on from there throws. -/
inductive Breaks (w : Json) : Prop
  | conf {file key : Str} (hkind : kindOf w = some .conf) (hfile : strField w "file" = some file)
      (hinherits : CONF_FILES.Inherits file) (hfunction : file ≠ text "constructor")
      (hkey : strField w "key" = some key)
  | sshd {key value : Str} (hkind : kindOf w = some .sshd) (hkey : strField w "key" = some key)
      (hfunction : l.lower key = text "constructor")
      (hvalue : nullableField w "value" = some (some value)) (hgrammar : isSshdValue value = true)
  | line {file line : Str} (hkind : kindOf w = some .line)
      (hfile : strField w "file" = some file) (hinherits : LINE_FILES.Inherits file)
      (hline : strField w "line" = some line)

/-- A write that is taken, as what. -/
def Takes (w : Json) (out : LinuxWrite) : Prop := Permits l w out ∨ Leaks l w out

/-! ## One kind after the other -/

theorem unlessGuarded_ok_iff {guard : Option Str} {w out : LinuxWrite} :
    unlessGuarded guard w = .ok out ↔ guard = none ∧ w = out := by
  cases guard with
  | none => simp only [unlessGuarded, Verdict.ok.injEq, true_and]
  | some guard => simp only [unlessGuarded, reduceCtorEq, false_and]

theorem unlessGuarded_ne_threw {guard : Option Str} {w : LinuxWrite} : unlessGuarded guard w ≠ .threw := by
  cases guard <;> simp only [unlessGuarded, ne_eq, reduceCtorEq, not_false_eq_true]

section Kinds

variable {l} {w : Json} {out : LinuxWrite}

theorem permits_of_parseSysctl (hkind : kindOf w = some .sysctl)
    (h : parseSysctl l w = .ok out) : Permits l w out := by
  unfold parseSysctl at h
  repeat' split at h
  any_goals contradiction
  rename_i key hkey _ value hvalue _ persist hpersist
  obtain ⟨hkey, hgrammar⟩ := filter_eq_some_iff.mp hkey
  obtain ⟨hvalue, hsafe⟩ := filter_eq_some_iff.mp hvalue
  obtain ⟨hguard, rfl⟩ := unlessGuarded_ok_iff.mp h
  exact .sysctl hkind hkey hgrammar hvalue hsafe hpersist hguard

theorem permits_of_parseKmod (hkind : kindOf w = some .kmod) (h : parseKmod w = .ok out) : Permits l w out := by
  unfold parseKmod at h
  iterate 3
    split at h
    · cases h
  rename_i module hmodule _ policy hown _ disable hdisable
  obtain ⟨hguard, rfl⟩ := unlessGuarded_ok_iff.mp h
  exact .kmod hkind hmodule hown hdisable (ite_eq_right_iff.mp hguard)

theorem permits_of_parseAuditRule (hkind : kindOf w = some .auditRule)
    (h : parseAuditRule w = .ok out) : Permits l w out := by
  unfold parseAuditRule at h
  repeat' split at h
  any_goals contradiction
  rename_i line hline _ present hpresent
  obtain ⟨hline, hgrammar⟩ := filter_eq_some_iff.mp hline
  cases h
  exact .auditRule hkind hline hgrammar hpresent

theorem confKeys_own {file : Str} {policy : ConfPolicy} (hown : CONF_FILES.own file = some policy) :
    confKeys file = some (some policy.keys) := by
  rw [confKeys, member_own_iff.mpr hown]

theorem confKeys_object : confKeys (text "constructor") = some (some objectKeys) := by
  have hinherits : CONF_FILES.Inherits (text "constructor") := by decide
  rw [confKeys, member_inherited_iff.mpr ⟨hinherits, rfl⟩]
  exact congrArg some (if_pos rfl)

theorem confKeys_cases {file : Str} {keys : Option (Literal Guarded)} (h : confKeys file = some keys) :
    (∃ policy, CONF_FILES.own file = some policy ∧ keys = some policy.keys) ∨
    (file = text "constructor" ∧ keys = some objectKeys) ∨
    (CONF_FILES.Inherits file ∧ file ≠ text "constructor" ∧ keys = none) := by
  unfold confKeys at h
  split at h
  · rename_i policy hmember
    cases h
    exact .inl ⟨policy, member_own_iff.mp hmember, rfl⟩
  · rename_i name hmember
    cases h
    obtain ⟨hinherits, rfl⟩ := member_inherited_iff.mp hmember
    by_cases hfunction : name = text "constructor"
    · exact .inr (.inl ⟨hfunction, if_pos hfunction⟩)
    · exact .inr (.inr ⟨hinherits, hfunction, if_neg hfunction⟩)
  · cases h

theorem objectKeys_own_iff {key : Str} {entry : Guarded} :
    objectKeys.own key = some entry ↔ (key = text "length" ∨ key = text "name") ∧ entry = free := by
  rw [objectKeys, own_cons, own_cons, own_nil]
  split
  · rename_i hlength
    rw [some.injEq, ← hlength, eq_self, true_or, true_and]
    exact eq_comm
  · rename_i hlength
    split
    · rename_i hname
      rw [some.injEq, ← hname, eq_self, or_true, true_and]
      exact eq_comm
    · rename_i hname
      constructor
      · intro h
        cases h
      · rintro ⟨h | h, -⟩
        · exact absurd h.symm hlength
        · exact absurd h.symm hname

theorem takes_of_parseConf (hkind : kindOf w = some .conf) (h : parseConf w = .ok out) : Takes l w out := by
  unfold parseConf at h
  iterate 6
    split at h
    · cases h
  rename_i file hfile _ _ key hkey _ entries hkeys _ entry hentry _ value hvalue
  obtain ⟨hvalue, hgrammar⟩ := filter_eq_some_iff.mp hvalue
  obtain ⟨hguard, rfl⟩ := unlessGuarded_ok_iff.mp h
  -- a listed file, the one whose inherited value has keys, or one whose value has none
  rcases confKeys_cases hkeys with ⟨policy, hown, hpolicy⟩ | ⟨rfl, hobject⟩ | ⟨-, -, hnone⟩
  · cases hpolicy
    exact .inl (.conf hkind hfile hown hkey hentry hvalue hgrammar (ite_eq_right_iff.mp hguard))
  · cases hobject
    exact .inr (.conf hkind hfile hkey (objectKeys_own_iff.mp hentry).1 hvalue hgrammar)
  · cases hnone

theorem any_not_contains_iff {values : Option (List Str)} {value : Str} :
    (values.any fun vs => !vs.contains value) = true ↔ ¬ ∀ vs, values = some vs → value ∈ vs := by
  cases values with
  | none => simp only [any_none, Bool.false_eq_true, reduceCtorEq, false_implies, implies_true, not_true_eq_false]
  | some vs => simp only [any_some, Bool.not_eq_true', some.injEq, forall_eq',
      ← List.contains_iff_mem, Bool.not_eq_true]

theorem permits_of_parseSshdOwn {key : Str} {policy : SshdPolicy} (hkind : kindOf w = some .sshd)
    (hkey : strField w "key" = some key) (hown : SSHD_DIRECTIVES.own (l.lower key) = some policy)
    (h : parseSshdOwn l policy w = .ok out) : Permits l w out := by
  unfold parseSshdOwn at h
  split at h
  · cases h
  · rename_i hvalue
    cases h
    exact .unset hkind hkey hown hvalue
  · rename_i value hvalue
    split at h
    · rename_i required hgrammar
      split at h
      · cases h
      · rename_i hvalues
        obtain ⟨hguard, rfl⟩ := unlessGuarded_ok_iff.mp h
        rw [any_not_contains_iff, Classical.not_not] at hvalues
        exact .sshd hkind hkey hown hvalue hgrammar hvalues (ite_eq_right_iff.mp hguard)
    · cases h
    · cases h

theorem takes_of_parseSshd (hkind : kindOf w = some .sshd) (h : parseSshd l w = .ok out) : Takes l w out := by
  unfold parseSshd at h
  split at h
  · cases h
  · rename_i key hkey
    split at h
    · rename_i policy hmember
      exact .inl (permits_of_parseSshdOwn hkind hkey (member_own_iff.mp hmember) h)
    · rename_i name hmember
      obtain ⟨hinherits, rfl⟩ := member_inherited_iff.mp hmember
      -- no inherited value has a guardrail, and `constructor` alone has `values`
      unfold parseSshdInherited at h
      split at h
      · cases h
      · rename_i value hvalue
        obtain ⟨hvalue, hgrammar⟩ := filter_eq_some_iff.mp hvalue
        split at h
        · cases h
        · rename_i hfunction
          cases h
          exact .inr (.sshd hkind hkey hinherits hvalue hgrammar fun heq =>
            Classical.not_not.mp fun hne => hfunction ⟨heq, hne⟩)
    · cases h

theorem permits_of_parseLine (hkind : kindOf w = some .line) (h : parseLine w = .ok out) : Permits l w out := by
  unfold parseLine at h
  split at h
  · cases h
  split at h
  · cases h
  · split at h <;> cases h
  iterate 3
    split at h
    · cases h
  rename_i file hfile _ policy hmember _ line hline _ entry hentry _ present hpresent
  obtain ⟨hguard, rfl⟩ := unlessGuarded_ok_iff.mp h
  exact .line hkind hfile (member_own_iff.mp hmember) hline hentry hpresent (ite_eq_right_iff.mp hguard)

theorem permits_of_parsePkg (hkind : kindOf w = some .pkg) (h : parsePkg w = .ok out) : Permits l w out := by
  unfold parsePkg at h
  repeat' split at h
  any_goals contradiction
  rename_i name hname _ rule hown _ installed hinstalled
  obtain ⟨hguard, rfl⟩ := unlessGuarded_ok_iff.mp h
  exact .pkg hkind hname hown hinstalled hguard

theorem permits_of_parseUnit (hkind : kindOf w = some .unit) (h : parseUnit w = .ok out) : Permits l w out := by
  unfold parseUnit at h
  repeat' split at h
  any_goals contradiction
  rename_i unit hunit _ rule hown _ enabled henabled
  obtain ⟨hguard, rfl⟩ := unlessGuarded_ok_iff.mp h
  exact .unit hkind hunit hown henabled hguard

theorem permits_of_parseBanner (hkind : kindOf w = some .banner) (h : parseBanner w = .ok out) : Permits l w out := by
  unfold parseBanner at h
  repeat' split at h
  any_goals contradiction
  rename_i file hfile htext _ restore hrestore
  obtain ⟨hfile, hmem⟩ := filter_eq_some_iff.mp hfile
  cases h
  exact .banner hkind hfile (List.contains_iff_mem.mp hmem) (Classical.not_not.mp htext) hrestore

theorem permits_of_parseGrubAudit (hkind : kindOf w = some .grubAudit)
    (h : parseGrubAudit w = .ok out) : Permits l w out := by
  unfold parseGrubAudit at h
  repeat' split at h
  any_goals contradiction
  rename_i present hpresent
  cases h
  exact .grubAudit hkind hpresent

theorem permits_of_parsePerm (hkind : kindOf w = some .perm) (h : parsePerm l w = .ok out) : Permits l w out := by
  unfold parsePerm at h
  repeat' split at h
  any_goals contradiction
  rename_i path hpath _ policy hown hmode _ restore hrestore
  cases h
  exact .perm hkind hpath hown (Classical.not_not.mp hmode) hrestore

theorem takes_of_parseKind {kind : Kind} (hkind : kindOf w = some kind)
    (h : parseKind l w kind = .ok out) : Takes l w out := by
  cases kind with
  | sysctl => exact .inl (permits_of_parseSysctl hkind h)
  | kmod => exact .inl (permits_of_parseKmod hkind h)
  | auditRule => exact .inl (permits_of_parseAuditRule hkind h)
  | conf => exact takes_of_parseConf hkind h
  | sshd => exact takes_of_parseSshd hkind h
  | line => exact .inl (permits_of_parseLine hkind h)
  | pkg => exact .inl (permits_of_parsePkg hkind h)
  | unit => exact .inl (permits_of_parseUnit hkind h)
  | banner => exact .inl (permits_of_parseBanner hkind h)
  | grubAudit => exact .inl (permits_of_parseGrubAudit hkind h)
  | perm => exact .inl (permits_of_parsePerm hkind h)

/-- What is taken is what the code writes. -/
theorem parseKind_of_takes (h : Takes l w out) : ∃ kind, kindOf w = some kind ∧ parseKind l w kind = .ok out := by
  rcases h with h | h
  · cases h with
    | sysctl hkind hkey hgrammar hvalue hsafe hpersist hguard =>
      refine ⟨_, hkind, ?_⟩
      simp only [parseKind, parseSysctl, hkey, hvalue, hpersist, filter_some, hgrammar,
        hsafe, if_true, hguard, unlessGuarded]
    | kmod hkind hmodule hown hdisable hguard =>
      refine ⟨_, hkind, ?_⟩
      simp only [parseKind, parseKmod, hmodule, hown, hdisable]
      exact unlessGuarded_ok_iff.mpr ⟨ite_eq_right_iff.mpr hguard, rfl⟩
    | auditRule hkind hline hgrammar hpresent =>
      refine ⟨_, hkind, ?_⟩
      simp only [parseKind, parseAuditRule, hline, filter_some, hgrammar, if_true, hpresent]
    | conf hkind hfile hown hkey hentry hvalue hgrammar hguard =>
      refine ⟨_, hkind, ?_⟩
      simp only [parseKind, parseConf, hfile, confKeys_own hown, hkey, hentry, hvalue, filter_some, hgrammar, if_true]
      exact unlessGuarded_ok_iff.mpr ⟨ite_eq_right_iff.mpr hguard, rfl⟩
    | unset hkind hkey hown hvalue =>
      refine ⟨_, hkind, ?_⟩
      simp only [parseKind, parseSshd, hkey, member_own_iff.mpr hown, parseSshdOwn, hvalue]
    | sshd hkind hkey hown hvalue hgrammar hvalues hguard =>
      refine ⟨_, hkind, ?_⟩
      simp only [parseKind, parseSshd, hkey, member_own_iff.mpr hown, parseSshdOwn, hvalue, hgrammar]
      rw [if_neg (by rw [any_not_contains_iff]; exact fun h => h hvalues)]
      exact unlessGuarded_ok_iff.mpr ⟨ite_eq_right_iff.mpr hguard, rfl⟩
    | line hkind hfile hown hline hentry hpresent hguard =>
      refine ⟨_, hkind, ?_⟩
      simp only [parseKind, parseLine, hfile, member_own_iff.mpr hown, hline, hentry, hpresent]
      exact unlessGuarded_ok_iff.mpr ⟨ite_eq_right_iff.mpr hguard, rfl⟩
    | pkg hkind hname hown hinstalled hguard =>
      refine ⟨_, hkind, ?_⟩
      simp only [parseKind, parsePkg, hname, hown, hinstalled, hguard, unlessGuarded]
    | unit hkind hunit hown henabled hguard =>
      refine ⟨_, hkind, ?_⟩
      simp only [parseKind, parseUnit, hunit, hown, henabled, hguard, unlessGuarded]
    | banner hkind hfile hmem htext hrestore =>
      refine ⟨_, hkind, ?_⟩
      simp only [parseKind, parseBanner, hfile, filter_some, List.contains_iff_mem.mpr hmem,
        if_true, htext, ne_eq, not_true_eq_false, if_false, hrestore]
    | grubAudit hkind hpresent =>
      refine ⟨_, hkind, ?_⟩
      simp only [parseKind, parseGrubAudit, hpresent]
    | perm hkind hpath hown hmode hrestore =>
      refine ⟨_, hkind, ?_⟩
      simp only [parseKind, parsePerm, hpath, hown, hmode, ne_eq, not_true_eq_false, if_false, hrestore]
  · -- the leaks take the branches of the inherited values
    cases h with
    | conf hkind hfile hkey hmember hvalue hgrammar =>
      refine ⟨_, hkind, ?_⟩
      simp only [parseKind, parseConf, hfile, confKeys_object, hkey,
        objectKeys_own_iff.mpr ⟨hmember, rfl⟩, hvalue, filter_some, hgrammar, if_true]
      exact unlessGuarded_ok_iff.mpr ⟨ite_self none, rfl⟩
    | sshd hkind hkey hinherits hvalue hgrammar hnull =>
      refine ⟨_, hkind, ?_⟩
      simp only [parseKind, parseSshd, hkey, member_inherited_iff.mpr ⟨hinherits, rfl⟩,
        parseSshdInherited, hvalue, filter_some, hgrammar, if_true]
      rw [if_neg fun h => h.2 (hnull h.1)]

/-! ## Throwing -/

theorem parseRestoreEntry_ne_threw (scope : PermScope) (path : Str) (r : Json) :
    parseRestoreEntry l scope path r ≠ .threw := by
  intro h
  unfold parseRestoreEntry at h
  repeat' split at h
  all_goals contradiction

theorem parseRestore_ne_threw (scope : PermScope) (path : Str) (restore : Option Json) :
    parseRestore l scope path restore ≠ .threw := by
  intro h
  unfold parseRestore at h
  repeat' split at h
  any_goals contradiction
  rename_i hcollect
  exact Verdict.collect_ne_threw (fun _ r => parseRestoreEntry_ne_threw scope path r) _ _ hcollect

theorem parseSshdValue_ne_threw (policy : SshdPolicy) (value : Str) : parseSshdValue policy value w ≠ .threw := by
  intro h
  unfold parseSshdValue at h
  dsimp only at h
  repeat' split at h
  all_goals contradiction

theorem breaks_of_parseConf (hkind : kindOf w = some .conf) (h : parseConf w = .threw) : Breaks l w := by
  unfold parseConf at h
  repeat' split at h
  any_goals contradiction
  · rename_i file hfile _ _ key hkey _ hkeys
    -- only an inherited value has no keys to look in
    rcases confKeys_cases hkeys with ⟨policy, -, hpolicy⟩ | ⟨-, hobject⟩ | ⟨hinherits, hne, -⟩
    · cases hpolicy
    · cases hobject
    · exact .conf hkind hfile hinherits hne hkey
  · exact absurd h unlessGuarded_ne_threw

theorem breaks_of_parseSshd (hkind : kindOf w = some .sshd) (h : parseSshd l w = .threw) : Breaks l w := by
  unfold parseSshd at h
  split at h
  · cases h
  · rename_i key hkey
    split at h
    · unfold parseSshdOwn at h
      split at h
      · cases h
      · cases h
      · split at h
        · split at h
          · cases h
          · exact absurd h unlessGuarded_ne_threw
        · cases h
        · rename_i hvalue
          exact absurd hvalue (parseSshdValue_ne_threw _ _)
    · rename_i name hmember
      obtain ⟨-, rfl⟩ := member_inherited_iff.mp hmember
      unfold parseSshdInherited at h
      split at h
      · cases h
      · rename_i value hvalue
        obtain ⟨hvalue, hgrammar⟩ := filter_eq_some_iff.mp hvalue
        split at h
        · rename_i hfunction
          obtain ⟨hfunction, hsome⟩ := hfunction
          obtain ⟨value, rfl⟩ := ne_none_iff_exists'.mp hsome
          exact .sshd hkind hkey hfunction hvalue hgrammar
        · cases h
    · cases h

theorem breaks_of_parseLine (hkind : kindOf w = some .line) (h : parseLine w = .threw) : Breaks l w := by
  unfold parseLine at h
  repeat' split at h
  any_goals contradiction
  · rename_i file hfile _ name hmember _ line hline
    exact .line hkind hfile (member_inherited_iff.mp hmember).1 hline
  · exact absurd h unlessGuarded_ne_threw

/-- Only three kinds look up what may be inherited. -/
theorem breaks_of_parseKind {kind : Kind} (hkind : kindOf w = some kind)
    (h : parseKind l w kind = .threw) : Breaks l w := by
  cases kind with
  | conf => exact breaks_of_parseConf hkind h
  | sshd => exact breaks_of_parseSshd hkind h
  | line => exact breaks_of_parseLine hkind h
  | perm =>
    unfold parseKind parsePerm at h
    repeat' split at h
    any_goals contradiction
    rename_i hrestore
    exact absurd hrestore (parseRestore_ne_threw _ _ _)
  | sysctl | kmod | auditRule | pkg | unit | banner | grubAudit =>
    simp only [parseKind, parseSysctl, parseKmod, parseAuditRule, parsePkg, parseUnit, parseBanner, parseGrubAudit] at h
    -- every branch gives an answer
    repeat' split at h
    all_goals first | contradiction | exact absurd h unlessGuarded_ne_threw

theorem parseKind_of_breaks (h : Breaks l w) : ∃ kind, kindOf w = some kind ∧ parseKind l w kind = .threw := by
  cases h with
  | conf hkind hfile hinherits hfunction hkey =>
    refine ⟨_, hkind, ?_⟩
    have hkeys := member_inherited_iff.mpr ⟨hinherits, rfl⟩
    simp only [parseKind, parseConf, hfile, confKeys, hkeys, if_neg hfunction, hkey]
  | sshd hkind hkey hfunction hvalue hgrammar =>
    refine ⟨_, hkind, ?_⟩
    have hmember : SSHD_DIRECTIVES.member (text "constructor") = .inherited (text "constructor") := by
      rw [member_inherited_iff]
      decide
    simp only [parseKind, parseSshd, hkey, hfunction, hmember, parseSshdInherited, hvalue,
      filter_some, all_some, hgrammar, if_true, ne_eq, reduceCtorEq,
      not_false_eq_true, and_self]
  | line hkind hfile hinherits hline =>
    refine ⟨_, hkind, ?_⟩
    simp only [parseKind, parseLine, hfile, member_inherited_iff.mpr ⟨hinherits, rfl⟩, hline]

/-! ## A write of the list -/

theorem isObject_of_kindOf {kind : Kind} (hkind : kindOf w = some kind) : ∃ ms, w = .obj ms := by
  cases w with
  | obj ms => exact ⟨ms, rfl⟩
  | _ => cases hkind

theorem parseWrite_ok_iff {i : Nat} : parseWrite l i w = .ok out ↔ Takes l w out := by
  constructor
  · intro h
    unfold parseWrite at h
    split at h
    · split at h
      · cases h
      · rename_i kind hkind
        split at h
        · rename_i write hwrite
          cases h
          exact takes_of_parseKind hkind hwrite
        · cases h
        · cases h
    · cases h
  · intro h
    obtain ⟨kind, hkind, hwrite⟩ := parseKind_of_takes h
    obtain ⟨ms, rfl⟩ := isObject_of_kindOf hkind
    simp only [parseWrite, hkind, hwrite]

theorem parseWrite_threw_iff {i : Nat} : parseWrite l i w = .threw ↔ Breaks l w := by
  constructor
  · intro h
    unfold parseWrite at h
    split at h
    · split at h
      · cases h
      · rename_i kind hkind
        split at h
        · cases h
        · cases h
        · rename_i hthrew
          exact breaks_of_parseKind hkind hthrew
    · cases h
  · intro h
    obtain ⟨kind, hkind, hthrew⟩ := parseKind_of_breaks h
    obtain ⟨ms, rfl⟩ := isObject_of_kindOf hkind
    simp only [parseWrite, hkind, hthrew]

/-- A write is taken as one thing only. -/
theorem Takes.unique {out' : LinuxWrite} (h : Takes l w out) (h' : Takes l w out') : out = out' :=
  Verdict.ok.inj ((parseWrite_ok_iff (i := 0)).mpr h |>.symm.trans (parseWrite_ok_iff.mpr h'))

end Kinds

end Hardening
