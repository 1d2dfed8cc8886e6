-- SUMMARY: When no certificate that the server holds is forgotten, with scans delivered one at a time.
import Tracenium.Cdp.Mirror

/-!
A scan that is capped, or of which a whole collector failed, claims no removals, so what it leaves out stays with the
server and is in no later difference.
-/

open Utf16 Utf8 Inventory List OrderedMap Option Nat

namespace Cdp

open Certificates

/-! ## What a scan cannot claim -/

def Scan.isUnread (scan : Scan) (item : CdpCertItem) : Bool :=
  item.store.id ≠ [] && scan.unreadable.any fun u => u.covers item.store.id

/-- A baseline has its items under their ids. -/
def Keyed (baseline : Baseline) : Prop := ∀ k i, baseline.get k = some i → i.id = k

theorem keyed_applyBaseline (baseline : Baseline) (current : List CdpCertItem) :
    Keyed (applyBaseline baseline current) := by
  intro k i hi
  rw [get_applyBaseline] at hi
  exact (mem_of_last hi).2

theorem mem_carried {baseline : Baseline} {delta : CdpDelta} {scan : Scan}
    {items : List CdpCertItem} {i : CdpCertItem} : i ∈ carried baseline (some delta) scan items ↔
      scan.unscoped = [] ∧ ∃ k, baseline.get k = some i ∧ (∀ j ∈ items, j.id ≠ k) ∧ scan.isUnread i := by
  rw [carried]
  by_cases hunscoped : scan.unscoped = []
  · rw [if_neg fun h => h.1 hunscoped, and_iff_right hunscoped]
    by_cases hunreadable : scan.unreadable = []
    · rw [if_neg fun h => h hunreadable]
      refine iff_of_false not_mem_nil ?_
      rintro ⟨k, -, -, hunread⟩
      rw [Scan.isUnread, hunreadable, any_nil, Bool.and_false] at hunread
      cases hunread
    · rw [if_pos hunreadable, loadCdpBaselineItemsByStore]
      simp only [List.mem_map, mem_filter, Prod.exists, Bool.and_eq_true, Bool.not_eq_true',
        contains_eq_mem, decide_eq_false_iff_not, not_exists, not_and, Scan.isUnread,
        get_eq_some_iff]
      constructor
      · rintro ⟨k, j, ⟨hmem, habsent, hunread⟩, rfl⟩
        exact ⟨k, hmem, habsent, hunread⟩
      · rintro ⟨k, hmem, habsent, hunread⟩
        exact ⟨k, i, ⟨hmem, habsent, hunread⟩, rfl⟩
  · rw [if_pos ⟨hunscoped, rfl⟩]
    exact iff_of_false not_mem_nil fun h => hunscoped h.1

theorem mem_removed_claimed {delta : CdpDelta} {scan : Scan} {carried : List CdpCertItem} {k : Str} :
    k ∈ (claimed delta scan carried).removed ↔ scan.unscoped = [] ∧ isCapped scan.items = false ∧ k ∈ delta.removed ∧
        ∀ i ∈ carried, i.id ≠ k := by
  rw [claimed]
  split
  · rename_i hunscoped
    exact iff_of_false not_mem_nil fun h => hunscoped h.1
  · rename_i hunscoped
    rw [and_iff_right (not_not.mp hunscoped)]
    cases isCapped scan.items with
    | true => simp
    | false => simp

section Rounds

variable (sha256 : List UInt8 → Str) {baseline : Baseline}

theorem mem_removed_computeCdpDelta {items : List CdpCertItem}
    {delta : CdpDelta} (hdelta : computeCdpDelta sha256 baseline items = some delta) {k : Str} :
    k ∈ delta.removed ↔ (baseline.get k).isSome ∧ ∀ i ∈ items, i.id ≠ k := by
  rw [computeCdpDelta] at hdelta
  split at hdelta
  · cases hdelta
  · obtain rfl := some.inj hdelta
    rw [mem_filter, OrderedMap.mem_keys]
    simp

/-- A scan that sends a difference. -/
theorem collectOnce_eq_delta {full : Bool} {scan : Scan} {d : CdpDelta} {commit : List CdpCertItem}
    (hd : collectOnce sha256 baseline full scan = some ⟨.delta d, commit⟩) : full = false ∧ ∃ delta,
      computeCdpDelta sha256 baseline (applyCap scan.items) = some delta ∧
      d = claimed delta scan (carried baseline (some delta) scan (applyCap scan.items)) ∧
      commit = applyCap scan.items ++ carried baseline (some delta) scan (applyCap scan.items) := by
  rw [collectOnce] at hd
  cases full with
  | true =>
    cases hd
  | false =>
    rw [if_neg Bool.false_ne_true] at hd
    cases hdelta : computeCdpDelta sha256 baseline (applyCap scan.items) with
    | none =>
      rw [hdelta] at hd
      cases hd
    | some delta =>
      rw [hdelta] at hd
      dsimp only at hd
      split at hd
      · cases hd
        exact ⟨rfl, delta, rfl, rfl, rfl⟩
      · cases hd

/-- A scan that sends its items commits them. -/
theorem subset_of_collectOnce_items {full : Bool} {scan : Scan} {all commit : List CdpCertItem}
    (hd : collectOnce sha256 baseline full scan = some ⟨.items all, commit⟩) : all ⊆ commit := by
  rw [collectOnce] at hd
  generalize (if full then none else computeCdpDelta sha256 baseline (applyCap scan.items)) = delta
    at hd
  cases delta with
  | none =>
    cases hd
    exact subset_append_left _ _
  | some delta =>
    dsimp only at hd
    split at hd
    · cases hd
    · cases hd

/-- What a difference adds or updates is in the scan. -/
theorem mem_of_tells {items : List CdpCertItem} {delta : CdpDelta}
    (hdelta : computeCdpDelta sha256 baseline items = some delta) {k : Str} {i : CdpCertItem}
    (hi : (last CdpCertItem.id delta.updated k).or (last CdpCertItem.id delta.added k) = some i) :
    i ∈ items ∧ i.id = k := by
  rw [computeCdpDelta] at hdelta
  split at hdelta
  · cases hdelta
  · obtain rfl := some.inj hdelta
    rcases or_eq_some_iff.mp hi with hupdated | ⟨-, hadded⟩
    · obtain ⟨hmem, hid⟩ := mem_of_last hupdated
      exact ⟨(mem_filter.mp hmem).1, hid⟩
    · obtain ⟨hmem, hid⟩ := mem_of_last hadded
      exact ⟨(mem_filter.mp hmem).1, hid⟩

/-! ## Rounds -/

/-- A scan that is sent, delivered and acknowledged before the next one. -/
structure Round where
  full : Bool
  scan : Scan
  now : Int

def Round.events (r : Round) (outboxId : Nat) : List Event :=
  [.start r.full, .collect r.scan, .enqueue 0 r.now, .deliver outboxId, .ack outboxId]

def rounds : Machine System Round where
  init := (machine sha256).init
  step s r := (machine sha256).exec s (r.events (s.outbox.length + 1))

def System.sends (s : System) (r : Round) : Option Delivery :=
  collectOnce sha256 s.repo.baseline (r.full || !s.repo.acked) r.scan

structure Idle (s : System) : Prop where
  scanning : s.scanning = none
  collected : s.collected = []
  pending : s.repo.pending = []
  seq : s.repo.seq = s.outbox.length
  lastSeq : s.repo.lastSeq ≤ s.outbox.length
  delivered : ∀ i ∈ s.delivered, i ≤ s.outbox.length

variable {s : System}

theorem Idle.round_of_none (hs : Idle s) {r : Round}
    (hsends : s.sends sha256 r = none) : (rounds sha256).step s r = s := by
  rw [System.sends] at hsends
  have hsend : s.send? (s.outbox.length + 1) = none := by
    exact getElem?_eq_none (le_refl _)
  have hack : s.outbox.length + 1 ∉ s.delivered := fun h =>
    not_succ_le_self _ (hs.delivered _ h)
  obtain ⟨repo, scanning, collected, outbox, delivered, server⟩ := s
  obtain rfl : scanning = none := hs.scanning
  obtain rfl : collected = [] := hs.collected
  simp only [rounds, Round.events, Machine.exec_cons, Machine.exec_nil, machine, Cdp.step, hsends,
    toList_none, append_nil, getElem?_nil]
  rw [hsend]
  exact if_neg hack

theorem Idle.round_of_some (hs : Idle s) {r : Round} {d : Delivery} (hsends : s.sends sha256 r = some d) :
    Idle ((rounds sha256).step s r) ∧ ((rounds sha256).step s r).server = d.certificates.apply s.server ∧
      ((rounds sha256).step s r).repo.baseline = applyBaseline s.repo.baseline d.commit := by
  rw [System.sends] at hsends
  obtain ⟨⟨baseline, acked, lastSeq, pending, seq⟩, scanning, collected, outbox, delivered, server⟩ := s
  obtain rfl : scanning = none := hs.scanning
  obtain rfl : collected = [] := hs.collected
  obtain rfl : pending = [] := hs.pending
  obtain rfl : seq = outbox.length := hs.seq
  have hlast : ¬ outbox.length + 1 ≤ lastSeq := fun h =>
    not_succ_le_self _ (le_trans h hs.lastSeq)
  have hstep : (rounds sha256).step
      ⟨⟨baseline, acked, lastSeq, [], outbox.length⟩, none, [], outbox, delivered, server⟩ r =
      ⟨⟨applyBaseline baseline d.commit, true, outbox.length + 1, [], outbox.length + 1⟩, none, [],
        outbox ++ [d], delivered ++ [outbox.length + 1], d.certificates.apply server⟩ := by
    simp only [rounds, Round.events, Machine.exec_cons, Machine.exec_nil, machine, Cdp.step, hsends,
      toList_some, nil_append, getElem?_cons_zero, Repo.stageCdpDelivery,
      filter_nil, eraseIdx_cons_zero]
    simp [Repo.promoteCdpDelivery, System.send?, hlast]
  rw [hstep]
  refine ⟨⟨rfl, rfl, rfl, ?_, ?_, ?_⟩, rfl, rfl⟩
  · show outbox.length + 1 = (outbox ++ [d]).length
    rw [length_append]
    rfl
  · show outbox.length + 1 ≤ (outbox ++ [d]).length
    rw [length_append]
    exact le_refl _
  · intro i hi
    rw [length_append]
    rcases mem_append.mp hi with hi | hi
    · exact le_succ_of_le (hs.delivered i hi)
    · rw [mem_singleton.mp hi]
      exact le_refl _

/-! ## What is remembered -/

/-- What the server holds is in the baseline, a complete scan reports what it does not list of it,
and no scan reports a certificate of a store that it did not read or cut off. -/
structure Remembers (s : System) : Prop where
  held : ∀ k, (s.server k).isSome = true → (s.repo.baseline.get k).isSome = true
  reported : ∀ scan : Scan, scan.IsComplete → ∀ k, (s.server k).isSome = true →
    (∀ i ∈ scan.items, i.id ≠ k) → ∃ d commit,
      collectOnce sha256 s.repo.baseline false scan = some ⟨.delta d, commit⟩ ∧ k ∈ d.removed
  spared : ∀ full scan d commit,
    collectOnce sha256 s.repo.baseline full scan = some ⟨.delta d, commit⟩ → ∀ k ∈ d.removed,
      isCapped scan.items = false ∧ scan.unscoped = [] ∧ ∀ i, s.repo.baseline.get k = some i → scan.isUnread i = false

/-- A difference that is capped, or of a scan in which a whole collector failed, comes from a scan
that lists every certificate that the server holds, but for those that it carries over. -/
def LeavesNoneOut (s : System) (r : Round) : Prop :=
  ∀ d commit, s.sends sha256 r = some ⟨.delta d, commit⟩ →
    isCapped r.scan.items = true ∨ r.scan.unscoped ≠ [] → ∀ k, (s.server k).isSome = true →
      (∃ i ∈ applyCap r.scan.items, i.id = k) ∨
        r.scan.unscoped = [] ∧ ∃ i, s.repo.baseline.get k = some i ∧ r.scan.isUnread i = true

structure Remembering (s : System) : Prop where
  idle : Idle s
  keyed : Keyed s.repo.baseline
  held : ∀ k, (s.server k).isSome = true → (s.repo.baseline.get k).isSome = true

theorem Remembering.remembers (hs : Remembering s) : Remembers sha256 s where
  held := hs.held
  reported := by
    intro scan hscan k hheld habsent
    have hbaseline := hs.held k hheld
    have hdelta : ∃ delta, computeCdpDelta sha256 s.repo.baseline scan.items = some delta := by
      rw [computeCdpDelta]
      split
      · rename_i hempty
        have hmem := OrderedMap.mem_keys.mpr hbaseline
        rw [OrderedMap.keys, hempty] at hmem
        exact absurd hmem not_mem_nil
      · exact ⟨_, rfl⟩
    obtain ⟨delta, hdelta⟩ := hdelta
    have hremoved : k ∈ delta.removed := (mem_removed_computeCdpDelta sha256 hdelta).mpr ⟨hbaseline, habsent⟩
    have hchanged : delta.isEmpty = false := by
      rw [CdpDelta.isEmpty, Bool.and_eq_false_iff]
      right
      rw [isEmpty_eq_false_iff]
      exact ne_nil_of_mem hremoved
    refine ⟨delta, scan.items, ?_, hremoved⟩
    rw [collectOnce, hscan.applyCap, if_neg Bool.false_ne_true, hdelta]
    dsimp only
    rw [hscan.carried, hscan.claimed, hchanged, append_nil]
    exact if_pos (Bool.or_true _)
  spared := by
    intro full scan d commit hd k hk
    obtain ⟨-, delta, hdelta, rfl, -⟩ := collectOnce_eq_delta sha256 hd
    obtain ⟨hunscoped, hcapped, hremoved, hcarried⟩ := mem_removed_claimed.mp hk
    refine ⟨hcapped, hunscoped, fun i hi => ?_⟩
    -- an item of an unread store is carried over
    cases hunread : scan.isUnread i with
    | false => rfl
    | true =>
      have habsent := ((mem_removed_computeCdpDelta sha256 hdelta).mp hremoved).2
      exact absurd (hs.keyed k i hi)
        (hcarried i (mem_carried.mpr ⟨hunscoped, k, hi, habsent, hunread⟩))

/-- The certificates that a difference leaves at the server, from those of the baseline. -/
theorem isSome_apply_delta (hs : Remembering s) {r : Round} {d : CdpDelta}
    {commit : List CdpCertItem} (hsends : s.sends sha256 r = some ⟨.delta d, commit⟩)
    (hleaves : LeavesNoneOut sha256 s r) {k : Str} (hk : ((delta d).apply s.server k).isSome) :
    ∃ i ∈ commit, i.id = k := by
  obtain ⟨-, delta, hdelta, rfl, rfl⟩ := collectOnce_eq_delta sha256 hsends
  rw [apply_eq, tells] at hk
  split at hk
  · cases hk
  · rename_i hkept
    cases htells : (last CdpCertItem.id (claimed delta r.scan (carried s.repo.baseline (some delta)
        r.scan (applyCap r.scan.items))).updated k).or (last CdpCertItem.id (claimed delta r.scan
          (carried s.repo.baseline (some delta) r.scan (applyCap r.scan.items))).added k) with
    | some i =>
      have hsame : (last CdpCertItem.id delta.updated k).or (last CdpCertItem.id delta.added k) =
          some i := by
        rw [← htells, claimed]
        split <;> rfl
      obtain ⟨hmem, hid⟩ := mem_of_tells sha256 hdelta hsame
      exact ⟨i, mem_append_left _ hmem, hid⟩
    | none =>
      rw [htells] at hk
      have hheld : (s.server k).isSome := hk
      by_cases hlisted : ∃ i ∈ applyCap r.scan.items, i.id = k
      · obtain ⟨i, hi, hid⟩ := hlisted
        exact ⟨i, mem_append_left _ hi, hid⟩
      · have habsent : ∀ i ∈ applyCap r.scan.items, i.id ≠ k := fun i hi hid =>
          hlisted ⟨i, hi, hid⟩
        by_cases hcut : isCapped r.scan.items ∨ r.scan.unscoped ≠ []
        · rcases hleaves _ _ hsends hcut k hheld with hlisted' | ⟨hunscoped, i, hi, hunread⟩
          · exact absurd hlisted' hlisted
          · exact ⟨i, mem_append_right _
              (mem_carried.mpr ⟨hunscoped, k, hi, habsent, hunread⟩), hs.keyed k i hi⟩
        · -- nothing hinders the removal but that the certificate is carried over
          rw [not_or, Bool.not_eq_true, not_not] at hcut
          by_contra hnone
          refine hkept (mem_removed_claimed.mpr ⟨hcut.2, hcut.1, ?_, fun i hi hid => ?_⟩)
          · exact (mem_removed_computeCdpDelta sha256 hdelta).mpr ⟨hs.held k hheld, habsent⟩
          · exact hnone ⟨i, mem_append_right _ hi, hid⟩

theorem isSome_get_applyBaseline {commit : List CdpCertItem} {k : Str} :
    ((applyBaseline baseline commit).get k).isSome ↔ ∃ i ∈ commit, i.id = k := by
  rw [get_applyBaseline, isSome_last_iff]

theorem Remembering.step (hs : Remembering s) {r : Round}
    (hleaves : LeavesNoneOut sha256 s r) : Remembering ((rounds sha256).step s r) := by
  cases hsends : s.sends sha256 r with
  | none =>
    rw [hs.idle.round_of_none sha256 hsends]
    exact hs
  | some d =>
    obtain ⟨hidle, hserver, hbaseline⟩ := hs.idle.round_of_some sha256 hsends
    refine ⟨hidle, hbaseline ▸ keyed_applyBaseline _ _, fun k hk => ?_⟩
    rw [hserver] at hk
    rw [hbaseline, isSome_get_applyBaseline]
    obtain ⟨certificates, commit⟩ := d
    cases certificates with
    | delta d => exact isSome_apply_delta sha256 hs hsends hleaves hk
    | items all =>
      have hcommit : all ⊆ commit := subset_of_collectOnce_items sha256 hsends
      rw [apply_eq, tells, getD_some, isSome_last_iff] at hk
      obtain ⟨i, hi, hid⟩ := hk
      exact ⟨i, hcommit hi, hid⟩

/-- A round that leaves a certificate out leaves it with the server only. -/
theorem not_held_of_leavesOut (hs : Remembering s) {r : Round}
    (hleaves : ¬ LeavesNoneOut sha256 s r) : ¬ Remembers sha256 ((rounds sha256).step s r) := by
  intro hremembers
  refine hleaves fun d commit hsends hcut k hheld => ?_
  obtain ⟨-, hserver, hbaseline⟩ := hs.idle.round_of_some sha256 hsends
  obtain ⟨-, delta, hdelta, rfl, rfl⟩ := collectOnce_eq_delta sha256 hsends
  have hkept : k ∉ (claimed delta r.scan (carried s.repo.baseline (some delta) r.scan
      (applyCap r.scan.items))).removed := by
    intro hremoved
    obtain ⟨hunscoped, hcapped, -⟩ := mem_removed_claimed.mp hremoved
    rcases hcut with h | h
    · rw [hcapped] at h
      cases h
    · exact h hunscoped
  have hheld' : (((rounds sha256).step s r).server k).isSome := by
    rw [hserver, apply_eq, tells, if_neg hkept]
    cases (last CdpCertItem.id _ k).or (last CdpCertItem.id _ k) with
    | none => exact hheld
    | some i => rfl
  have hbaseline' := hremembers.held k hheld'
  rw [hbaseline, isSome_get_applyBaseline] at hbaseline'
  obtain ⟨i, hi, hid⟩ := hbaseline'
  rcases mem_append.mp hi with hi | hi
  · exact .inl ⟨i, hi, hid⟩
  · obtain ⟨hunscoped, k', hk', -, hunread⟩ := mem_carried.mp hi
    obtain rfl : k' = k := (hs.keyed k' i hk').symm.trans hid
    exact .inr ⟨hunscoped, i, hk', hunread⟩

/-- In every state of a run of rounds the server's certificates are remembered exactly when no round
leaves one out. -/
theorem always_remembers_iff (tr : List Round) : (rounds sha256).Always (Remembers sha256) tr ↔
      (rounds sha256).Guarded (LeavesNoneOut sha256) tr := by
  apply Machine.always_iff_guarded (I := Remembering)
  · refine ⟨⟨rfl, rfl, rfl, rfl, le_refl _, forall_mem_nil _⟩, fun k i hi => ?_,
      fun k hk => ?_⟩
    · cases hi
    · cases hk
  · exact fun _ _ hs hleaves => hs.step sha256 hleaves
  · exact fun _ hs => hs.remembers sha256
  · exact fun _ _ hs hleaves => not_held_of_leavesOut sha256 hs hleaves

end Rounds

/-! ## A certificate that is left out -/

/-- A certificate goes away and another comes while the collector of Java stores fails. -/
def phantom : List Round :=
  [⟨false, completeScan [text "a", text "b"], 0⟩,
    ⟨false, ⟨[sampleItem (text "b"), sampleItem (text "c")], [], [text "java-store: failed"], false⟩,
      0⟩]

/-- The server holds a certificate that no later difference can remove. -/
theorem not_always_remembers_phantom : (((rounds sampleSha256).run phantom).server (text "a")).isSome = true ∧
      (((rounds sampleSha256).run phantom).repo.baseline.get (text "a")).isSome = false ∧
      ¬ (rounds sampleSha256).Always (Remembers sampleSha256) phantom := by
  have hserver : (((rounds sampleSha256).run phantom).server (text "a")).isSome := by
    decide
  have hbaseline :
      (((rounds sampleSha256).run phantom).repo.baseline.get (text "a")).isSome = false := by
    decide
  refine ⟨hserver, hbaseline, fun halways => ?_⟩
  have hheld := halways.last.held (text "a") hserver
  cases hheld

end Cdp
