-- SUMMARY: What an edit of the sources does, and when a call takes trust away from the requested anchor only.
import Tracenium.Anchors.TrustStore

/-!
A renamed file is no `*.crt` any more, so after the edit what is extracted comes from the sources that the edit leaves.
-/

open Utf16 List OrderedMap

namespace Anchors

/-! ## Lines -/

theorem confLine_deselect {raw name : Str} (h : confLine raw = .selected name) :
    confLine (deselect raw) = .deselected name := by
  have hbang : Ipc.isSpace bang = false := by decide
  unfold confLine at h ⊢
  dsimp only at h ⊢
  rw [deselect, Ipc.trim_cons_trim hbang]
  simp only [Ipc.trim_trim]
  split at h
  · cases h
  · rename_i u rest hline
    split at h
    · cases h
    · split at h
      · cases h
      · cases h
        rfl

theorem confLine_selected_ne {raw name name' : Str} (h : confLine raw = .selected name) :
    confLine (deselect raw) ≠ .selected name' := by
  rw [confLine_deselect h]
  exact ConfLine.noConfusion

/-! ## Names -/

theorem not_isCrt_distrusted (p : LocalPath) : p.distrusted.isCrt = false := by
  rw [LocalPath.isCrt, ← Bool.not_eq_true, isSuffixOf_iff_suffix]
  intro hsuffix
  have hshort : CRT <:+ DISTRUSTED_SUFFIX := suffix_of_suffix_length_le hsuffix
    (suffix_append p.name DISTRUSTED_SUFFIX) (by decide)
  exact absurd hshort (by decide)

theorem isDistrusted_distrusted {p : LocalPath} (h : p.isCrt) : p.distrusted.isDistrusted := by
  rw [LocalPath.isCrt, isSuffixOf_iff_suffix] at h
  obtain ⟨base, hbase⟩ := h
  rw [LocalPath.isDistrusted, isSuffixOf_iff_suffix, LocalPath.distrusted, ← hbase]
  exact ⟨base, (append_assoc ..).symm⟩

section

variable {Cert : Type} {d : Digests Cert} {fp : Str}

theorem mem_renameLocal {locals : OrderedMap LocalPath (CertFile Cert)} {p : LocalPath}
    {e : LocalPath × CertFile Cert} (hcrt : e.1.isCrt) :
    e ∈ (renameLocal locals p).entries ↔ e ∈ locals.entries ∧ e.1 ≠ p := by
  unfold renameLocal
  split
  · rename_i hget
    refine (and_iff_left_of_imp fun hmem heq => ?_).symm
    subst heq
    exact get_eq_none_iff.mp hget e.2 hmem
  · -- the new name does not end in `.crt`
    have hne : e.1 ≠ p.distrusted := by
      rintro heq
      rw [heq, not_isCrt_distrusted] at hcrt
      cases hcrt
    rw [OrderedMap.mem_set, OrderedMap.mem_delete]
    constructor
    · rintro (rfl | ⟨hmem, -⟩)
      · exact absurd rfl hne
      · exact hmem
    · exact fun h => .inr ⟨h, hne⟩

/-- The `*.crt` files after the renames are the ones that are not renamed. -/
theorem mem_renameAll {renames : LocalPath → Bool} {ps : List LocalPath}
    {locals : OrderedMap LocalPath (CertFile Cert)} {e : LocalPath × CertFile Cert} (hcrt : e.1.isCrt) :
    e ∈ (renameAll renames ps locals).1.entries ↔ e ∈ locals.entries ∧ e.1 ∉ ps.takeWhile renames := by
  induction ps generalizing locals with
  | nil => exact (and_iff_left not_mem_nil).symm
  | cons p ps ih =>
    rw [renameAll, takeWhile_cons]
    split
    · rw [ih, mem_renameLocal hcrt, mem_cons, not_or, and_assoc]
    · exact (and_iff_left not_mem_nil).symm

theorem renameAll_done {renames : LocalPath → Bool} {ps : List LocalPath}
    (locals : OrderedMap LocalPath (CertFile Cert)) : (renameAll renames ps locals).2 = ps.all renames := by
  induction ps generalizing locals with
  | nil => rfl
  | cons p ps ih =>
    rw [renameAll, all_cons]
    split
    · rename_i hp
      rw [ih, hp, Bool.true_and]
    · rename_i hp
      rw [Bool.not_eq_true] at hp
      rw [hp, Bool.false_and]

/-! ## Debian -/

variable (d fp)

def Edits (a : Attempt Cert) (s : Debian Cert) : Prop :=
  s.confReadable = true ∧ (s.lines.any (isConfLine d fp s) = true ∨ localFiles d fp s ≠ []) ∧
    (s.lines.any (isConfLine d fp s) = true → a.writes = true)

def renamed (a : Attempt Cert) (s : Debian Cert) : List LocalPath :=
  (localFiles d fp s).takeWhile a.renames

/-- A line that is deselected, or a file that is renamed, holds the certificate. -/
def Touches (a : Attempt Cert) (s : Debian Cert) (c : Cert) : Prop :=
  (∃ raw ∈ s.lines, isConfLine d fp s raw = true ∧
    ∃ name file, confLine raw = .selected name ∧ s.share name = some file ∧ c ∈ file.certs) ∨
  ∃ e ∈ s.locals.entries, e.1 ∈ renamed d fp a s ∧ c ∈ e.2.certs

def Keeps (a : Attempt Cert) (s : Debian Cert) (c : Cert) : Prop :=
  (∃ raw ∈ s.lines, isConfLine d fp s raw = false ∧
    ∃ name file, confLine raw = .selected name ∧ s.share name = some file ∧ c ∈ file.certs) ∨
  ∃ e ∈ s.locals.entries, e.1.isCrt = true ∧ e.1 ∉ renamed d fp a s ∧ c ∈ e.2.certs

variable {d fp} {s : Debian Cert}

theorem isCrt_of_mem_localFiles {p : LocalPath} (h : p ∈ localFiles d fp s) : p.isCrt := by
  obtain ⟨e, he, rfl⟩ := mem_map.mp h
  have hfilter := (mem_filter.mp he).2
  rw [Bool.and_eq_true] at hfilter
  exact hfilter.1

variable {a : Attempt Cert}

theorem extracts_iff {c : Cert} : (Mechanism.debian s).Extracts c ↔ Touches d fp a s c ∨ Keeps d fp a s c := by
  constructor
  · rintro (⟨raw, hraw, hc⟩ | ⟨e, he, hcrt, hc⟩)
    · cases hline : isConfLine d fp s raw with
      | true => exact .inl (.inl ⟨raw, hraw, hline, hc⟩)
      | false => exact .inr (.inl ⟨raw, hraw, hline, hc⟩)
    · by_cases hmem : e.1 ∈ renamed d fp a s
      · exact .inl (.inr ⟨e, he, hmem, hc⟩)
      · exact .inr (.inr ⟨e, he, hcrt, hmem, hc⟩)
  · rintro ((⟨raw, hraw, -, hc⟩ | ⟨e, he, hmem, hc⟩) | (⟨raw, hraw, -, hc⟩ | ⟨e, he, hcrt, -, hc⟩))
    · exact .inl ⟨raw, hraw, hc⟩
    · exact .inr ⟨e, he, isCrt_of_mem_localFiles ((takeWhile_sublist _).subset hmem), hc⟩
    · exact .inl ⟨raw, hraw, hc⟩
    · exact .inr ⟨e, he, hcrt, hc⟩

theorem editDebian_of_not (h : ¬ Edits d fp a s) : (editDebian d fp a s).1 = s := by
  unfold editDebian
  split
  · rfl
  · rename_i hconf
    dsimp only
    split
    · rfl
    · rename_i hfound
      split
      · rfl
      · rename_i hwrites
        refine absurd ⟨by simpa only [Bool.not_eq_true, Bool.not_eq_false'] using hconf, ?_, ?_⟩ h
        · rw [Bool.and_eq_true, Bool.not_eq_true', List.isEmpty_iff, not_and_or, Bool.not_eq_false] at hfound
          exact hfound
        · intro hhits
          rw [hhits, Bool.true_and, Bool.not_eq_true', Bool.not_eq_false] at hwrites
          exact hwrites

/-- The sources after the edit, and how it ends. -/
theorem editDebian_of_edits (h : Edits d fp a s) :
    editDebian d fp a s = ({ s with
          lines := deselectLines d fp s
          locals := (renameAll a.renames (localFiles d fp s) s.locals).1 },
        if (localFiles d fp s).all a.renames then
          .ok ((if s.lines.any (isConfLine d fp s) then [.conf] else []) ++ (localFiles d fp s).map .local)
        else .error .distrustFailed) := by
  obtain ⟨hconf, hfound, hwrites⟩ := h
  have hnone : ¬ (!s.lines.any (isConfLine d fp s) && (localFiles d fp s).isEmpty) := by
    rw [Bool.and_eq_true, Bool.not_eq_true', List.isEmpty_iff, not_and_or, Bool.not_eq_false]
    exact hfound
  have hfails : ¬ (s.lines.any (isConfLine d fp s) && !a.writes) := by
    rw [Bool.and_eq_true, Bool.not_eq_true', not_and, Bool.not_eq_false]
    exact hwrites
  unfold editDebian
  rw [hconf]
  dsimp only
  rw [if_neg (by decide), if_neg hnone, if_neg hfails, renameAll_done]

/-- After the edit what is extracted is what the sources hold that stay. -/
theorem extracts_editDebian (h : Edits d fp a s) {c : Cert} :
    (Mechanism.debian (editDebian d fp a s).1).Extracts c ↔ Keeps d fp a s c := by
  rw [editDebian_of_edits h]
  -- the lines of the configuration first, then the local files
  refine or_congr ?_ ?_
  · constructor
    · rintro ⟨raw, hraw, name, file, hselected, hfile⟩
      obtain ⟨raw', hraw', rfl⟩ := mem_map.mp hraw
      split at hselected
      · rename_i hline
        unfold isConfLine at hline
        split at hline
        · rename_i hselected'
          exact absurd hselected (confLine_selected_ne hselected')
        · cases hline
      · rename_i hline
        exact ⟨raw', hraw', Bool.not_eq_true _ ▸ hline, name, file, hselected, hfile⟩
    · rintro ⟨raw, hraw, hline, hfile⟩
      refine ⟨raw, mem_map.mpr ⟨raw, hraw, ?_⟩, hfile⟩
      rw [hline]
      rfl
  · constructor
    · rintro ⟨e, he, hcrt, hc⟩
      obtain ⟨hmem, hstays⟩ := (mem_renameAll hcrt).mp he
      exact ⟨e, hmem, hcrt, hstays, hc⟩
    · rintro ⟨e, he, hcrt, hstays, hc⟩
      exact ⟨e, (mem_renameAll hcrt).mpr ⟨he, hstays⟩, hcrt, hc⟩

end

end Anchors

/-!
# What a call takes away

A request is for a certificate, an edit on Debian is of whole files. The safeguard of the agent's own
anchors reads their files like any other, so a file that cannot be read protects nothing.
-/

namespace Anchors

variable {Cert : Type} (d : Digests Cert) (regenerate : Mechanism Cert → Extracted Cert)

/-- What is not extracted any more after the call was requested, and is no anchor of the agent. -/
def TakesOnlyRequested (rawFingerprint : Str) (a : Attempt Cert) (t : TrustStore Cert) : Prop :=
  ∀ c, t.mechanism.Extracts c → ¬ (distrustAnchor d regenerate rawFingerprint a t).1.mechanism.Extracts c →
      matchesPrint d (normalizeFingerprint rawFingerprint) c = true ∧ ∀ file ∈ t.own, c ∉ file.certs

/-- The call goes as far as the edit, with this certificate from the extracted files. -/
def Reaches (fp : Str) (t : TrustStore Cert) (pem : Cert) : Prop :=
  (fp.length = 40 ∨ fp.length = 64) ∧ (∀ file ∈ t.own, isIn d fp file = false) ∧
    findTrusted d t.extracted fp = some pem

/-- On Debian the files that are deselected or renamed hold nothing but the requested certificate, up
to what other sources hold too. What is taken away is in no file of the agent's own anchors. -/
def EditIsExact (fp : Str) (a : Attempt Cert) (own : List (CertFile Cert)) (pem : Cert) :
    Mechanism Cert → Prop
  | .p11kit s => inBlocklist d fp s = false → a.writes = true → (Mechanism.p11kit s).Extracts pem →
      ∀ file ∈ own, pem ∉ file.certs
  | .debian s => Edits d fp a s → ∀ c, Touches d fp a s c → ¬ Keeps d fp a s c →
      matchesPrint d fp c = true ∧ ∀ file ∈ own, c ∉ file.certs
  | .unsupported => True

structure Admits (fp : Str) (t : TrustStore Cert) : Prop where
  length : ¬ (fp.length ≠ 40 ∧ fp.length ≠ 64)
  supported : ¬ t.mechanism.isUnsupported = true
  own : ¬ t.own.any (isIn d fp) = true

variable {d regenerate} {t : TrustStore Cert}

theorem Reaches.admits {fp : Str} {pem : Cert} (h : Reaches d fp t pem)
    (hmech : t.mechanism ≠ .unsupported) : Admits d fp t where
  length hnot := h.1.elim hnot.1 hnot.2
  supported := by
    cases hm : t.mechanism with
    | unsupported => exact absurd hm hmech
    | p11kit => exact Bool.noConfusion
    | debian => exact Bool.noConfusion
  own := by
    rw [any_eq_true]
    rintro ⟨file, hfile, hin⟩
    rw [h.2.1 file hfile] at hin
    cases hin

variable {a : Attempt Cert} {raw : Str}

theorem distrustAnchor_of_none (h : Admits d (normalizeFingerprint raw) t)
    (hnone : findTrusted d t.extracted (normalizeFingerprint raw) = none) : distrustAnchor d regenerate raw a t =
      (t, if alreadyDistrusted d (normalizeFingerprint raw) t.mechanism then .ok true []
        else .failed .anchorNotPresent) := by
  unfold distrustAnchor
  rw [if_neg h.length, if_neg h.supported, if_neg h.own, hnone]

/-- An edit that fails ends the call. -/
theorem distrustAnchor_of_error {pem : Cert}
    {m : Mechanism Cert} {code : Code} (h : Admits d (normalizeFingerprint raw) t)
    (hpem : findTrusted d t.extracted (normalizeFingerprint raw) = some pem)
    (hedit : editSources d (normalizeFingerprint raw) a t.mechanism pem = (m, .error code)) :
    distrustAnchor d regenerate raw a t = ({ t with mechanism := m }, .failed code) := by
  unfold distrustAnchor
  rw [if_neg h.length, if_neg h.supported, if_neg h.own, hpem]
  dsimp only
  rw [hedit]

/-- After an edit the bundles are rebuilt. -/
theorem distrustAnchor_of_edit {pem : Cert}
    {m : Mechanism Cert} {changed : List Changed} (h : Admits d (normalizeFingerprint raw) t)
    (hpem : findTrusted d t.extracted (normalizeFingerprint raw) = some pem)
    (hedit : editSources d (normalizeFingerprint raw) a t.mechanism pem = (m, .ok changed)) :
    distrustAnchor d regenerate raw a t =
      rebuild d regenerate (normalizeFingerprint raw) a { t with mechanism := m } changed := by
  unfold distrustAnchor
  rw [if_neg h.length, if_neg h.supported, if_neg h.own, hpem]
  dsimp only
  rw [hedit]

theorem mechanism_rebuild {fp : Str} {changed : List Changed} :
    (rebuild d regenerate fp a t changed).1.mechanism = t.mechanism := by
  unfold rebuild
  split <;> rfl

/-- The sources are edited by the calls that get there, and by no others. -/
theorem mechanism_of_reaches {pem : Cert}
    (h : Reaches d (normalizeFingerprint raw) t pem) (hmech : t.mechanism ≠ .unsupported) :
    (distrustAnchor d regenerate raw a t).1.mechanism =
      (editSources d (normalizeFingerprint raw) a t.mechanism pem).1 := by
  cases hedit : editSources d (normalizeFingerprint raw) a t.mechanism pem with
  | mk m result =>
    cases result with
    | error code => rw [distrustAnchor_of_error (h.admits hmech) h.2.2 hedit]
    | ok changed =>
      rw [distrustAnchor_of_edit (h.admits hmech) h.2.2 hedit]
      exact mechanism_rebuild

theorem mechanism_of_not_reaches (h : ∀ pem, ¬ Reaches d (normalizeFingerprint raw) t pem) :
    (distrustAnchor d regenerate raw a t).1.mechanism = t.mechanism := by
  unfold distrustAnchor
  dsimp only
  split
  · rfl
  · rename_i hlength
    split
    · rfl
    · split
      · rfl
      · rename_i hown
        split
        · rfl
        · rename_i pem hpem
          -- past all guards the call would have reached the edit
          rw [not_and_or, Classical.not_not, Classical.not_not] at hlength
          rw [Bool.not_eq_true, any_eq_false] at hown
          exact absurd ⟨hlength, fun file hfile => Bool.not_eq_true _ ▸ hown file hfile, hpem⟩
            (h pem)

theorem mechanism_unsupported (h : t.mechanism = .unsupported) :
    (distrustAnchor d regenerate raw a t).1.mechanism = t.mechanism := by
  unfold distrustAnchor
  dsimp only
  split
  · rfl
  · rw [if_pos (by rw [h]; rfl)]

/-- A new file on the blocklist takes one certificate away. -/
theorem extracts_editP11kit {fp : Str} {s : P11kit Cert} {pem c : Cert} (h : (Mechanism.p11kit s).Extracts c) :
    ¬ (Mechanism.p11kit (editP11kit d fp a s pem).1).Extracts c ↔
      inBlocklist d fp s = false ∧ a.writes ∧ c = pem := by
  unfold editP11kit
  split
  · rename_i hblocked
    rw [hblocked]
    exact iff_of_false (fun hnot => hnot h) fun hedit => Bool.noConfusion hedit.1
  · rename_i hblocked
    rw [Bool.not_eq_true] at hblocked
    rw [hblocked, eq_self, true_and]
    split
    · rename_i hwrites
      rw [Bool.not_eq_true'] at hwrites
      rw [hwrites]
      exact iff_of_false (fun hnot => hnot h) fun hedit => Bool.noConfusion hedit.1
    · rename_i hwrites
      rw [Bool.not_eq_true', Bool.not_eq_false] at hwrites
      rw [hwrites, eq_self, true_and]
      constructor
      · intro hnot
        by_contra hne
        refine hnot ⟨h.1, fun e he hc => ?_⟩
        rcases mem_set.mp he with rfl | ⟨hmem, -⟩
        · exact hne (mem_singleton.mp hc)
        · exact h.2 e hmem hc
      · rintro rfl hextracts
        exact hextracts.2 _ (mem_set.mpr (.inl rfl)) mem_cons_self

/-- A call takes away only what was requested, and nothing of the agent, exactly when its edit is
exact. -/
theorem takesOnlyRequested_iff (rawFingerprint : Str) (a : Attempt Cert) (t : TrustStore Cert) :
    TakesOnlyRequested d regenerate rawFingerprint a t ↔
      ∀ pem, Reaches d (normalizeFingerprint rawFingerprint) t pem →
        EditIsExact d (normalizeFingerprint rawFingerprint) a t.own pem t.mechanism := by
  unfold TakesOnlyRequested
  -- a call that does not get to its edit leaves the sources as they are
  by_cases hmech : t.mechanism = .unsupported
  · rw [mechanism_unsupported hmech, hmech]
    exact iff_of_true (fun c hc => absurd hc id) fun pem _ => trivial
  · by_cases hreaches : ∃ pem, Reaches d (normalizeFingerprint rawFingerprint) t pem
    · obtain ⟨pem, hpem⟩ := hreaches
      have honly : ∀ pem', Reaches d (normalizeFingerprint rawFingerprint) t pem' → pem' = pem :=
        fun pem' h => Option.some.inj (h.2.2.symm.trans hpem.2.2)
      have hmatches := (findTrusted_some d hpem.2.2).2
      rw [mechanism_of_reaches hpem hmech]
      have hiff : ∀ {P : Cert → Prop},
          (∀ pem', Reaches d (normalizeFingerprint rawFingerprint) t pem' → P pem') ↔ P pem :=
        fun {P} => ⟨fun h => h pem hpem, fun h pem' h' => honly pem' h' ▸ h⟩
      rw [hiff]
      cases hm : t.mechanism with
      | unsupported => exact absurd hm hmech
      | p11kit s =>
        constructor
        · intro h hblocked hwrites hextracts
          exact (h pem hextracts
            ((extracts_editP11kit hextracts).mpr ⟨hblocked, hwrites, rfl⟩)).2
        · intro h c hextracts hnot
          obtain ⟨hblocked, hwrites, rfl⟩ := (extracts_editP11kit hextracts).mp hnot
          exact ⟨hmatches, h hblocked hwrites hextracts⟩
      | debian s =>
        by_cases hedits : Edits d (normalizeFingerprint rawFingerprint) a s
        · constructor
          · intro h _ c htouches hkeeps
            exact h c (extracts_iff.mpr (.inl htouches))
              fun hextracts => hkeeps ((extracts_editDebian hedits).mp hextracts)
          · intro h c hextracts hnot
            have hkeeps := fun hk => hnot ((extracts_editDebian hedits).mpr hk)
            exact h hedits c ((extracts_iff.mp hextracts).resolve_right hkeeps) hkeeps
        · refine iff_of_true (fun c hextracts hnot => ?_) fun h => absurd h hedits
          have hsame : (editSources d (normalizeFingerprint rawFingerprint) a (.debian s) pem).1 =
              .debian s := congrArg Mechanism.debian (editDebian_of_not hedits)
          rw [hsame] at hnot
          exact absurd hextracts hnot
    · rw [mechanism_of_not_reaches fun pem hpem => hreaches ⟨pem, hpem⟩]
      exact iff_of_true (fun c hc hnot => absurd hc hnot)
        fun pem hpem => absurd ⟨pem, hpem⟩ hreaches

/-! ## A file with two certificates -/

def twoDigests : Digests Bool where
  fingerprint algo c := replicate (match algo with | .sha1 => 40 | .sha256 => 64) (if c then 0x41 else 0x42)

def printA : Str := replicate 40 0x41

def companyFile : LocalPath := ⟨[], text "company.crt"⟩

def companyStore (certs : List Bool) : Debian Bool where
  confReadable := true
  lines := []
  share _ := none
  localListable := true
  locals := ⟨[(companyFile, ⟨true, certs⟩)], nodup_singleton _⟩

def companyTrust (certs : List Bool) : TrustStore Bool where
  own := []
  mechanism := .debian (companyStore certs)
  extracted := ⟨[⟨true, certs⟩], []⟩

/-- The other certificate of the file goes with the requested one. -/
theorem not_takesOnlyRequested_company :
    ¬ TakesOnlyRequested twoDigests (fun _ => ⟨[], []⟩) printA ⟨true, fun _ => true, none⟩
      (companyTrust [true, false]) := by
  intro h
  have hextracts : (companyTrust [true, false]).mechanism.Extracts false :=
    .inr ⟨_, mem_singleton_self _, by decide, by decide⟩
  have hreaches : Reaches twoDigests (normalizeFingerprint printA) (companyTrust [true, false]) true :=
    ⟨by decide, fun file hfile => absurd hfile not_mem_nil, by decide⟩
  have hedits : Edits twoDigests (normalizeFingerprint printA) ⟨true, fun _ => true, none⟩
      (companyStore [true, false]) := ⟨rfl, .inr (by decide), fun _ => rfl⟩
  have hnot : ¬ Keeps twoDigests (normalizeFingerprint printA) ⟨true, fun _ => true, none⟩
      (companyStore [true, false]) false := by
    rintro (⟨raw, hraw, -⟩ | ⟨e, he, -, hstays, -⟩)
    · exact absurd hraw not_mem_nil
    · cases mem_singleton.mp he
      exact hstays (by decide)
  refine absurd (h false hextracts ?_).1 (by decide)
  exact fun hc => hnot ((extracts_editDebian hedits).mp hc)

end Anchors
