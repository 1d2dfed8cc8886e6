-- SUMMARY: When an anchor whose bundles could not be rebuilt is distrusted by calling again.
import Tracenium.Anchors.Exact

/-!
A rebuild that fails leaves the sources edited. The next call looks at the extracted files first, and on Debian it
looks for a source that is still active and finds none.
-/

open Utf16 List

namespace Anchors

section Calls

variable {Cert : Type} (d : Digests Cert) (regenerate : Mechanism Cert → Extracted Cert)

def working (rebuild : Option (Extracted Cert)) : Attempt Cert := ⟨true, fun _ => true, rebuild⟩

/-- Calls whose rebuilds fail, with what each of these rebuilds leaves. -/
def failing (rawFingerprint : Str) (fails : List (Extracted Cert)) (t : TrustStore Cert) :
    TrustStore Cert :=
  fails.foldl (fun t left => (distrustAnchor d regenerate rawFingerprint (working (some left)) t).1) t

def lastCall (rawFingerprint : Str) (fails : List (Extracted Cert)) (t : TrustStore Cert) :
    TrustStore Cert × DistrustOutcome :=
  distrustAnchor d regenerate rawFingerprint (working none)
    (failing d regenerate rawFingerprint fails t)

/-- The last call succeeds and the certificate is gone; whatever call comes after it succeeds too. -/
structure Completes (rawFingerprint : Str) (fails : List (Extracted Cert)) (t : TrustStore Cert) :
    Prop where
  ok : (lastCall d regenerate rawFingerprint fails t).2.isOk = true
  gone : findTrusted d (lastCall d regenerate rawFingerprint fails t).1.extracted
    (normalizeFingerprint rawFingerprint) = none
  again (a : Attempt Cert) : (distrustAnchor d regenerate rawFingerprint a
    (lastCall d regenerate rawFingerprint fails t).1).2.isOk = true

/-- With p11-kit the blocklist can be listed. On Debian there is a source that the agent can read, and
what is left of trust does not hold: without a failed rebuild every source of the certificate is one
that the agent can read, with one it is the first of them that already took the certificate out. -/
def Completable (fp : Str) (fails : List (Extracted Cert)) : Mechanism Cert → Prop
  | .p11kit s => s.listable = true
  | .debian s =>
    s.confReadable = true ∧ (s.lines.any (isConfLine d fp s) = true ∨ localFiles d fp s ≠ []) ∧
      match fails with
      | [] => ∀ c, Keeps d fp (working none) s c → matchesPrint d fp c = false
      | left :: _ => ∀ c, left.Shows c → matchesPrint d fp c = false
  | .unsupported => False

end Calls

variable {Cert : Type} {d : Digests Cert} {regenerate : Mechanism Cert → Extracted Cert} {raw : Str}

/-! ## Calls that change nothing -/

variable {t : TrustStore Cert}

theorem failing_of_fixed (hfixed : ∀ left, (distrustAnchor d regenerate raw (working (some left)) t).1 = t)
    (fails : List (Extracted Cert)) : failing d regenerate raw fails t = t := by
  induction fails with
  | nil => rfl
  | cons left fails ih =>
    rw [failing, foldl_cons, hfixed]
    exact ih

variable {fails : List (Extracted Cert)}

/-- The certificate is gone, and the sources tell. -/
theorem completes_of_gone (h : Admits d (normalizeFingerprint raw) t)
    (hnone : findTrusted d t.extracted (normalizeFingerprint raw) = none)
    (hknown : alreadyDistrusted d (normalizeFingerprint raw) t.mechanism) :
    Completes d regenerate raw fails t := by
  have hcall : ∀ a, distrustAnchor d regenerate raw a t = (t, .ok true []) := by
    intro a
    rw [distrustAnchor_of_none h hnone, if_pos hknown]
  have hfailing : failing d regenerate raw fails t = t := failing_of_fixed (fun left => by rw [hcall]) fails
  have hlast : lastCall d regenerate raw fails t = (t, .ok true []) := by
    rw [lastCall, hfailing, hcall]
  exact {
    ok := by
      rw [hlast]
      rfl
    gone := by
      rw [hlast]
      exact hnone
    again := fun a => by
      rw [hlast, hcall]
      rfl }

/-- The certificate is there, and the edit gives up. -/
theorem not_completes_of_stuck {pem : Cert} {code : Code} (h : Admits d (normalizeFingerprint raw) t)
    (hpem : findTrusted d t.extracted (normalizeFingerprint raw) = some pem)
    (hstuck : ∀ rebuild, editSources d (normalizeFingerprint raw) (working rebuild) t.mechanism pem =
      (t.mechanism, .error code)) : ¬ Completes d regenerate raw fails t := by
  have hcall : ∀ rebuild, distrustAnchor d regenerate raw (working rebuild) t =
      (t, .failed code) := fun rebuild => distrustAnchor_of_error h hpem (hstuck rebuild)
  have hfailing : failing d regenerate raw fails t = t := failing_of_fixed (fun left => by rw [hcall]) fails
  intro hcompletes
  have hok := hcompletes.ok
  rw [lastCall, hfailing, hcall] at hok
  cases hok

/-! ## p11-kit -/

/-- A file of the blocklist holds the fingerprint, whether or not the blocklist can be listed. -/
def Blocked (d : Digests Cert) (fp : Str) (s : P11kit Cert) : Prop :=
  ∃ e ∈ s.blocklist.entries, isIn d fp e.2 = true

theorem inBlocklist_iff {fp : Str} {s : P11kit Cert} :
    inBlocklist d fp s ↔ s.listable ∧ Blocked d fp s := by
  rw [inBlocklist, Bool.and_eq_true, any_eq_true]
  exact Iff.rfl

/-- After the edit the certificate is on the blocklist. -/
theorem editP11kit_blocks {fp : Str} {a : Attempt Cert} {s : P11kit Cert} {pem : Cert}
    (hwrites : a.writes) (hpem : matchesPrint d fp pem) :
    ∃ s' changed, editP11kit d fp a s pem = (s', .ok changed) ∧ s'.listable = s.listable ∧ Blocked d fp s' := by
  unfold editP11kit
  split
  · rename_i hblocked
    exact ⟨s, [], rfl, rfl, (inBlocklist_iff.mp hblocked).2⟩
  · rw [hwrites]
    refine ⟨_, _, rfl, rfl, _, OrderedMap.mem_set.mpr (.inl rfl), ?_⟩
    exact (isIn_iff d fp).mpr ⟨rfl, pem, mem_singleton_self _, hpem⟩

/-- What is on the blocklist is not extracted. -/
theorem not_matches_of_blocked {fp : Str} {s : P11kit Cert} {c : Cert}
    (hunique : ∀ c c', matchesPrint d fp c → matchesPrint d fp c' → c = c')
    (hblocked : Blocked d fp s) (hextracts : (Mechanism.p11kit s).Extracts c) : matchesPrint d fp c = false := by
  obtain ⟨e, he, hin⟩ := hblocked
  obtain ⟨-, c', hc', hmatches⟩ := (isIn_iff d fp).mp hin
  by_contra hc
  rw [Bool.not_eq_false] at hc
  rw [hunique c c' hc hmatches] at hextracts
  exact hextracts.2 e he hc'

theorem Admits.congr {fp : Str} {t t' : TrustStore Cert} (h : Admits d fp t) (hown : t'.own = t.own)
    (hsupported : t'.mechanism.isUnsupported = false) : Admits d fp t' where
  length := h.length
  supported := by rw [hsupported]; exact Bool.noConfusion
  own := by rw [hown]; exact h.own

theorem completes_cons {left : Extracted Cert} :
    Completes d regenerate raw (left :: fails) t ↔ Completes d regenerate raw fails
      (distrustAnchor d regenerate raw (working (some left)) t).1 :=
  ⟨fun h => ⟨h.ok, h.gone, h.again⟩, fun h => ⟨h.ok, h.gone, h.again⟩⟩

/-- A last call that succeeds completes if the sources tell. -/
theorem completes_nil_iff {t t' : TrustStore Cert} {already : Bool} {changed : List Changed}
    (hlast : distrustAnchor d regenerate raw (working none) t = (t', .ok already changed))
    (h : Admits d (normalizeFingerprint raw) t')
    (hgone : findTrusted d t'.extracted (normalizeFingerprint raw) = none) : Completes d regenerate raw [] t ↔
      alreadyDistrusted d (normalizeFingerprint raw) t'.mechanism := by
  have hcall : lastCall d regenerate raw [] t = (t', .ok already changed) := hlast
  -- a certificate that is gone leaves the answer of the next call to the sources
  constructor
  · intro hcompletes
    have hagain := hcompletes.again (working none)
    rw [hcall, distrustAnchor_of_none h hgone] at hagain
    by_contra hunknown
    rw [if_neg hunknown] at hagain
    cases hagain
  · intro hknown
    exact {
      ok := by
        rw [hcall]
        rfl
      gone := by
        rw [hcall]
        exact hgone
      again := fun a => by
        rw [hcall, distrustAnchor_of_none h hgone, if_pos hknown]
        rfl }

/-- With p11-kit every call rebuilds while the certificate is found, so calling again is enough. -/
theorem completes_p11kit_iff (hunique : ∀ c c', matchesPrint d (normalizeFingerprint raw) c →
      matchesPrint d (normalizeFingerprint raw) c' → c = c')
    (hregenerate : ∀ m c, (regenerate m).Shows c ↔ m.Extracts c) {s : P11kit Cert}
    (h : Admits d (normalizeFingerprint raw) t) (hmech : t.mechanism = .p11kit s)
    (hknown : findTrusted d t.extracted (normalizeFingerprint raw) ≠ none ∨ Blocked d (normalizeFingerprint raw) s) :
    Completes d regenerate raw fails t ↔ s.listable := by
  -- after a failed rebuild the certificate is on the blocklist: this carries the induction
  induction fails generalizing t s with
  | nil =>
    cases hpem : findTrusted d t.extracted (normalizeFingerprint raw) with
    | none =>
      have hblocked := hknown.resolve_left fun hne => hne hpem
      have halready : alreadyDistrusted d (normalizeFingerprint raw) t.mechanism ↔
          s.listable := by
        rw [hmech]
        exact inBlocklist_iff.trans (and_iff_left hblocked)
      refine ⟨fun hcompletes => ?_, fun hlistable =>
        completes_of_gone h hpem (halready.mpr hlistable)⟩
      have hok := hcompletes.ok
      rw [lastCall, failing, foldl_nil, distrustAnchor_of_none h hpem] at hok
      by_contra hlistable
      rw [if_neg fun hyes => hlistable (halready.mp hyes)] at hok
      cases hok
    | some pem =>
      obtain ⟨s', changed, hedit, hlistable, hblocked⟩ := editP11kit_blocks (a := working none)
        (s := s) rfl (findTrusted_some d hpem).2
      have hsources : editSources d (normalizeFingerprint raw) (working none) t.mechanism pem =
          (.p11kit s', .ok changed) := by
        rw [hmech, editSources, hedit]
      have hgone : findTrusted d (regenerate (.p11kit s')) (normalizeFingerprint raw) = none :=
        (findTrusted_eq_none_iff d).mpr fun c hshows =>
          not_matches_of_blocked hunique hblocked ((hregenerate _ c).mp hshows)
      have hlast : distrustAnchor d regenerate raw (working none) t =
          rebuild d regenerate (normalizeFingerprint raw) (working none)
            { t with mechanism := .p11kit s' } changed := distrustAnchor_of_edit h hpem hsources
      rw [rebuild] at hlast
      dsimp only at hlast
      rw [hgone] at hlast
      refine (completes_nil_iff hlast (h.congr rfl rfl) hgone).trans ?_
      rw [← hlistable]
      exact inBlocklist_iff.trans (and_iff_left hblocked)
  | cons left fails ih =>
    rw [completes_cons]
    cases hpem : findTrusted d t.extracted (normalizeFingerprint raw) with
    | none =>
      rw [distrustAnchor_of_none h hpem]
      exact ih h hmech hknown
    | some pem =>
      obtain ⟨s', changed, hedit, hlistable, hblocked⟩ := editP11kit_blocks
        (a := working (some left)) (s := s) rfl (findTrusted_some d hpem).2
      have hsources : editSources d (normalizeFingerprint raw) (working (some left)) t.mechanism pem =
          (.p11kit s', .ok changed) := by
        rw [hmech, editSources, hedit]
      rw [distrustAnchor_of_edit h hpem hsources, ← hlistable]
      exact ih (h.congr rfl rfl) rfl (.inr hblocked)

/-! ## Debian -/

section Debian

variable {fp : Str}

def edited (d : Digests Cert) (fp : Str) (s : Debian Cert) : Debian Cert :=
  { s with
    lines := deselectLines d fp s
    locals := (renameAll (fun _ => true) (localFiles d fp s) s.locals).1 }

theorem editDebian_working {s : Debian Cert} {rebuild : Option (Extracted Cert)} (hconf : s.confReadable)
    (hfound : s.lines.any (isConfLine d fp s) ∨ localFiles d fp s ≠ []) :
    ∃ changed, editDebian d fp (working rebuild) s = (edited d fp s, .ok changed) := by
  rw [editDebian_of_edits ⟨hconf, hfound, fun _ => rfl⟩]
  have hall : (localFiles d fp s).all (working rebuild).renames := all_eq_true.mpr fun _ _ => rfl
  rw [if_pos hall]
  exact ⟨_, rfl⟩

theorem any_isConfLine_edited (s : Debian Cert) :
    (edited d fp s).lines.any (isConfLine d fp (edited d fp s)) = false := by
  rw [any_eq_false]
  intro raw hraw
  obtain ⟨raw', -, rfl⟩ := mem_map.mp hraw
  split
  · rename_i hline
    unfold isConfLine at hline
    split at hline
    · rename_i name hselected
      rw [isConfLine, confLine_deselect hselected]
      exact Bool.noConfusion
    · cases hline
  · assumption

theorem localFiles_edited (s : Debian Cert) : localFiles d fp (edited d fp s) = [] := by
  rw [localFiles, map_eq_nil_iff, filter_eq_nil_iff]
  intro e he hholds
  obtain ⟨hmem, hwalked⟩ := mem_filter.mp he
  have hcrt := (Bool.and_eq_true _ _ ▸ hholds).1
  obtain ⟨hbefore, hstays⟩ := (mem_renameAll hcrt).mp hmem
  refine hstays ?_
  rw [takeWhile_eq_self_iff.mpr fun _ _ => rfl]
  exact mem_map.mpr ⟨e, mem_filter.mpr ⟨mem_filter.mpr ⟨hbefore, hwalked⟩, hholds⟩, rfl⟩

theorem nodup_localFiles (s : Debian Cert) : (localFiles d fp s).Nodup :=
  ((filter_sublist.trans filter_sublist).map _).nodup s.locals.nodup

/-- The file that is renamed last is there under its new name. -/
theorem exists_renamed {ps : List LocalPath} {locals : OrderedMap LocalPath (CertFile Cert)}
    (hne : ps ≠ []) (hnodup : ps.Nodup)
    (hcrt : ∀ p ∈ ps, p.isCrt ∧ ∃ file, (p, file) ∈ locals.entries ∧ isIn d fp file) :
    ∃ p ∈ ps, ∃ file, (p.distrusted, file) ∈ (renameAll (fun _ => true) ps locals).1.entries ∧
      isIn d fp file := by
  induction ps generalizing locals with
  | nil => exact absurd rfl hne
  | cons p ps ih =>
    obtain ⟨hp, hrest⟩ := nodup_cons.mp hnodup
    -- nothing is renamed over the last one
    cases ps with
    | nil =>
      obtain ⟨-, file, hfile, hin⟩ := hcrt p mem_cons_self
      refine ⟨p, mem_cons_self, file, ?_, hin⟩
      rw [renameAll, renameLocal, OrderedMap.get_eq_some_iff.mpr hfile]
      exact OrderedMap.mem_set.mpr (.inl rfl)
    | cons q qs =>
      obtain ⟨r, hr, hrenamed⟩ := ih (cons_ne_nil q qs) hrest fun r hr => by
        obtain ⟨hrcrt, file, hfile, hin⟩ := hcrt r (mem_cons_of_mem _ hr)
        have hother : r ≠ p := fun heq => hp (heq ▸ hr)
        exact ⟨hrcrt, file, (mem_renameLocal (e := (r, file)) hrcrt).mpr ⟨hfile, hother⟩, hin⟩
      exact ⟨r, mem_cons_of_mem _ hr, hrenamed⟩

/-- The edited sources tell that the certificate was there. -/
theorem alreadyDistrusted_edited {s : Debian Cert} (hconf : s.confReadable)
    (hfound : s.lines.any (isConfLine d fp s) ∨ localFiles d fp s ≠ []) :
    alreadyDistrusted d fp (.debian (edited d fp s)) := by
  refine Bool.and_eq_true _ _ ▸ ⟨hconf, ?_⟩
  rw [Bool.or_eq_true]
  -- a deselected line tells, and so does a renamed file
  rcases hfound with hline | hfiles
  · left
    obtain ⟨raw, hraw, hholds⟩ := any_eq_true.mp hline
    refine any_eq_true.mpr ⟨deselect raw, mem_map.mpr ⟨raw, hraw, if_pos hholds⟩, ?_⟩
    unfold isConfLine at hholds
    split at hholds
    · rename_i name hselected
      rw [isDeselected, confLine_deselect hselected]
      exact hholds
    · cases hholds
  · right
    have hlocal : ∀ p ∈ localFiles d fp s, p.isCrt ∧ isWalked s p ∧
        ∃ file, (p, file) ∈ s.locals.entries ∧ isIn d fp file := by
      intro p hp
      obtain ⟨e, he, rfl⟩ := mem_map.mp hp
      obtain ⟨hwalk, hholds⟩ := mem_filter.mp he
      obtain ⟨hmem, hwalked⟩ := mem_filter.mp hwalk
      rw [Bool.and_eq_true] at hholds
      exact ⟨hholds.1, hwalked, e.2, hmem, hholds.2⟩
    obtain ⟨p, hp, file, hfile, hin⟩ := exists_renamed hfiles (nodup_localFiles s)
      fun p hp => ⟨(hlocal p hp).1, (hlocal p hp).2.2⟩
    obtain ⟨hcrt, hwalked, -⟩ := hlocal p hp
    refine any_eq_true.mpr ⟨(p.distrusted, file), mem_filter.mpr ⟨hfile, hwalked⟩, ?_⟩
    rw [isDistrusted_distrusted hcrt, not_isCrt_distrusted, hin]
    rfl

/-- An edit that does not get to the sources leaves them, and says so. -/
theorem editDebian_stuck {s : Debian Cert} (hstuck : ¬ (s.confReadable ∧
      (s.lines.any (isConfLine d fp s) ∨ localFiles d fp s ≠ []))) :
    ∃ code, ∀ a, editDebian d fp a s = (s, .error code) := by
  cases hconf : s.confReadable with
  | false => exact ⟨.distrustFailed, fun a => by rw [editDebian, hconf]; rfl⟩
  | true =>
    rw [hconf, eq_self, true_and, not_or, Bool.not_eq_true, Classical.not_not] at hstuck
    refine ⟨.anchorSourceUnknown, fun a => ?_⟩
    rw [editDebian, hconf, hstuck.1, hstuck.2]
    rfl

theorem not_found_edited (d : Digests Cert) (fp : Str) (s : Debian Cert) : ¬ ((edited d fp s).confReadable ∧
      ((edited d fp s).lines.any (isConfLine d fp (edited d fp s)) ∨
        localFiles d fp (edited d fp s) ≠ [])) := by
  rw [any_isConfLine_edited, localFiles_edited]
  rintro ⟨-, hline | hfiles⟩
  · cases hline
  · exact hfiles rfl

/-- The rebuild takes the certificate out unless a source stays that holds it. -/
theorem findTrusted_regenerate (hregenerate : ∀ m c, (regenerate m).Shows c ↔ m.Extracts c)
    {s : Debian Cert} (hconf : s.confReadable)
    (hfound : s.lines.any (isConfLine d fp s) ∨ localFiles d fp s ≠ []) :
    findTrusted d (regenerate (.debian (edited d fp s))) fp = none ↔
      ∀ c, Keeps d fp (working none) s c → matchesPrint d fp c = false := by
  obtain ⟨changed, hedit⟩ := editDebian_working hconf hfound
  rw [findTrusted_eq_none_iff]
  refine forall_congr' fun c => imp_congr ?_ Iff.rfl
  rw [hregenerate, ← extracts_editDebian ⟨hconf, hfound, fun _ => rfl⟩, hedit]

end Debian

/-- On Debian only the first call edits, so its rebuild decides. -/
theorem completes_debian_iff (hregenerate : ∀ m c, (regenerate m).Shows c ↔ m.Extracts c)
    {s : Debian Cert} {pem : Cert} (h : Admits d (normalizeFingerprint raw) t) (hmech : t.mechanism = .debian s)
    (hpem : findTrusted d t.extracted (normalizeFingerprint raw) = some pem) : Completes d regenerate raw fails t ↔
      Completable d (normalizeFingerprint raw) fails (.debian s) := by
  by_cases hsource : s.confReadable ∧ (s.lines.any (isConfLine d (normalizeFingerprint raw) s) ∨
        localFiles d (normalizeFingerprint raw) s ≠ [])
  · obtain ⟨hconf, hfound⟩ := hsource
    have hrest : Completable d (normalizeFingerprint raw) fails (.debian s) ↔
        match fails with
        | [] => ∀ c, Keeps d (normalizeFingerprint raw) (working none) s c →
          matchesPrint d (normalizeFingerprint raw) c = false
        | left :: _ => ∀ c, left.Shows c → matchesPrint d (normalizeFingerprint raw) c = false :=
      ⟨fun hcompletable => hcompletable.2.2, fun hrest => ⟨hconf, hfound, hrest⟩⟩
    rw [hrest]
    have hknown := alreadyDistrusted_edited hconf hfound
    have hsources : ∀ rebuild, ∃ changed, editSources d (normalizeFingerprint raw) (working rebuild) t.mechanism pem =
          (.debian (edited d (normalizeFingerprint raw) s), .ok changed) := by
      intro rebuild
      obtain ⟨changed, hedit⟩ := editDebian_working hconf hfound
      exact ⟨changed, by rw [hmech, editSources, hedit]⟩
    cases fails with
    | nil =>
      obtain ⟨changed, hedit⟩ := hsources none
      have hlast : distrustAnchor d regenerate raw (working none) t =
          rebuild d regenerate (normalizeFingerprint raw) (working none)
            { t with mechanism := .debian (edited d (normalizeFingerprint raw) s) } changed :=
        distrustAnchor_of_edit h hpem hedit
      rw [rebuild] at hlast
      dsimp only [working] at hlast
      rw [← findTrusted_regenerate hregenerate hconf hfound]
      cases hgone : findTrusted d (regenerate (.debian (edited d (normalizeFingerprint raw) s)))
          (normalizeFingerprint raw) with
      | none =>
        rw [hgone] at hlast
        exact iff_of_true ((completes_nil_iff hlast (h.congr rfl rfl) hgone).mpr hknown) rfl
      | some pem' =>
        refine iff_of_false (fun hcompletes => ?_) fun hnone => by cases hnone
        have hok := hcompletes.ok
        rw [hgone] at hlast
        unfold lastCall at hok
        dsimp only [failing, foldl_nil, working] at hok
        rw [hlast] at hok
        cases hok
    | cons left fails =>
      obtain ⟨changed, hedit⟩ := hsources (some left)
      rw [completes_cons, distrustAnchor_of_edit h hpem hedit, rebuild]
      dsimp only
      rw [← findTrusted_eq_none_iff]
      -- from here on the sources are as they are: only the files decide
      cases hleft : findTrusted d left (normalizeFingerprint raw) with
      | none => exact iff_of_true (completes_of_gone (h.congr rfl rfl) hleft hknown) rfl
      | some pem' =>
        refine iff_of_false ?_ fun hnone => by cases hnone
        obtain ⟨code, hstuck⟩ := editDebian_stuck (not_found_edited d (normalizeFingerprint raw) s)
        have hsame : ∀ rebuild, editSources d (normalizeFingerprint raw) (working rebuild)
            (.debian (edited d (normalizeFingerprint raw) s)) pem' =
              (.debian (edited d (normalizeFingerprint raw) s), .error code) := by
          intro rebuild
          rw [editSources, hstuck]
        exact not_completes_of_stuck (h.congr rfl rfl) hleft hsame
  · refine iff_of_false ?_ fun hcompletable => hsource ⟨hcompletable.1, hcompletable.2.1⟩
    obtain ⟨code, hstuck⟩ := editDebian_stuck hsource
    have hsame : ∀ rebuild, editSources d (normalizeFingerprint raw) (working rebuild) t.mechanism
        pem = (t.mechanism, .error code) := by
      intro rebuild
      rw [hmech, editSources, hstuck]
    exact not_completes_of_stuck h hpem hsame

/-- Calling again completes exactly from these stores. -/
theorem completes_iff {rawFingerprint : Str} {t : TrustStore Cert} {pem : Cert}
    (h : Reaches d (normalizeFingerprint rawFingerprint) t pem)
    (hunique : ∀ c c', matchesPrint d (normalizeFingerprint rawFingerprint) c = true →
      matchesPrint d (normalizeFingerprint rawFingerprint) c' = true → c = c')
    (hregenerate : ∀ m c, (regenerate m).Shows c ↔ m.Extracts c) (fails : List (Extracted Cert)) :
    Completes d regenerate rawFingerprint fails t ↔
      Completable d (normalizeFingerprint rawFingerprint) fails t.mechanism := by
  cases hmech : t.mechanism with
  | p11kit s =>
    have htrusted : findTrusted d t.extracted (normalizeFingerprint rawFingerprint) ≠ none := by
      rw [h.2.2]
      exact Option.some_ne_none pem
    have hadmits := h.admits fun hm => by rw [hmech] at hm; cases hm
    exact completes_p11kit_iff hunique hregenerate hadmits hmech (.inl htrusted)
  | debian s =>
    have hadmits := h.admits fun hm => by rw [hmech] at hm; cases hm
    exact completes_debian_iff hregenerate hadmits hmech h.2.2
  | unsupported =>
    refine iff_of_false (fun hcompletes => ?_) id
    have hok := hcompletes.ok
    have hcall : ∀ a, distrustAnchor d regenerate rawFingerprint a t =
        (t, .failed .trustStoreUnsupported) := by
      intro a
      unfold distrustAnchor
      rw [if_neg fun hnot => h.1.elim hnot.1 hnot.2, if_pos (by rw [hmech]; rfl)]
    rw [lastCall, failing_of_fixed (fun left => by rw [hcall]), hcall] at hok
    cases hok

/-! ## A local file -/

def oneBundle [DecidableEq Cert] (m : Mechanism Cert) : Extracted Cert :=
  let certs := match m with
    | .p11kit s => s.anchors.filter fun c => s.blocklist.entries.all fun e => !e.2.certs.contains c
    | .debian s =>
      (s.lines.flatMap fun raw =>
        match confLine raw with
        | .selected name => ((s.share name).map CertFile.certs).getD []
        | _ => []) ++
      (s.locals.entries.filter fun e => e.1.isCrt).flatMap fun e => e.2.certs
    | .unsupported => []
  ⟨[⟨true, certs⟩], []⟩

theorem shows_oneBundle [DecidableEq Cert] (m : Mechanism Cert) (c : Cert) :
    (oneBundle m).Shows c ↔ m.Extracts c := by
  have hshows : ∀ certs : List Cert, (⟨[⟨true, certs⟩], []⟩ : Extracted Cert).Shows c ↔ c ∈ certs := by
    intro certs
    constructor
    · rintro ⟨file, hfile, -, hc⟩
      rw [Extracted.files, flatMap_nil, append_nil, mem_singleton] at hfile
      rw [hfile] at hc
      exact hc
    · exact fun hc => ⟨_, mem_singleton_self _, rfl, hc⟩
  unfold oneBundle
  rw [hshows]
  cases m with
  | unsupported => exact iff_of_false not_mem_nil id
  | p11kit s =>
    rw [mem_filter, all_eq_true]
    simp only [Bool.not_eq_true', contains_eq_mem, decide_eq_false_iff_not]
    exact Iff.rfl
  | debian s =>
    rw [mem_append, mem_flatMap, mem_flatMap]
    refine or_congr (exists_congr fun raw => and_congr_right fun hraw => ?_) ?_
    · cases hline : confLine raw with
      | selected name =>
        cases hfile : s.share name with
        | none => simp [hfile]
        | some file => simp [hfile]
      | other => simp
      | deselected name => simp
    · simp only [mem_filter, and_assoc]

theorem matchesPrint_two {c c' : Bool} {fp : Str} (h : matchesPrint twoDigests fp c)
    (h' : matchesPrint twoDigests fp c') : c = c' := by
  have hdigits : ∀ algo b b', twoDigests.fingerprint algo b = twoDigests.fingerprint algo b' →
      b = b' := by
    intro algo
    cases algo <;> decide
  rw [matchesPrint, decide_eq_true_eq] at h h'
  exact hdigits _ c c' (h.trans h'.symm)

theorem reaches_company : Reaches twoDigests (normalizeFingerprint printA) (companyTrust [true]) true :=
  ⟨by decide, fun _ hfile => absurd hfile not_mem_nil, by decide⟩

theorem completes_company : Completes twoDigests oneBundle printA [] (companyTrust [true]) := by
  refine (completes_iff reaches_company (fun c c' => matchesPrint_two) shows_oneBundle []).mpr
    ⟨rfl, .inr (by decide), ?_⟩
  rintro c (⟨raw, hraw, -⟩ | ⟨e, he, -, hstays, -⟩)
  · exact absurd hraw not_mem_nil
  · cases mem_singleton.mp he
    exact absurd (by decide) hstays

/-- The rebuild fails once and leaves the bundle as it was: the call after it does not succeed. -/
theorem not_completes_company : Reaches twoDigests (normalizeFingerprint printA) (companyTrust [true]) true ∧
      ¬ Completes twoDigests oneBundle printA [(companyTrust [true]).extracted] (companyTrust [true]) :=
  ⟨reaches_company, fun h => absurd h.ok (by decide)⟩

end Anchors
