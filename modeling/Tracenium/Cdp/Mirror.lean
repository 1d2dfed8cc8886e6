-- SUMMARY: When the baseline mirrors the server, with any number of sends in flight.
import Tracenium.Cdp.Baseline
import Tracenium.Lib.JsonText

/-!
A scan is compared with the last acknowledged baseline, so several differences to one baseline can
be in flight together. The server is led to the latest scan by the latest send, on the certificates
that it tells; on the others it has to hold what the scan saw already.
-/

open Utf16 Utf8 Inventory List Option

namespace Cdp

open Certificates Cdp

/-! ## What a send tells -/

theorem Certificates.apply_eq (c : Certificates) (h : Holding Str CdpCertItem) (k : Str) :
    c.apply h k = (c.tells k).getD (h k) := by
  cases c with
  | items all => rw [apply, put_apply, tells, or_none, getD_some]
  | delta d =>
    show (if k ∈ d.removed then none
      else put CdpCertItem.id d.updated (put CdpCertItem.id d.added h) k) = _
    rw [tells]
    by_cases hremoved : k ∈ d.removed
    · rw [if_pos hremoved, if_pos hremoved]
      rfl
    · rw [if_neg hremoved, if_neg hremoved, put_apply, put_apply, ← Option.or_assoc]
      cases (last CdpCertItem.id d.updated k).or (last CdpCertItem.id d.added k) with
      | none => rfl
      | some i => rfl

/-- The baseline after a commit is what was committed. -/
theorem get_applyBaseline (baseline : Baseline) (current : List CdpCertItem) (k : Str) :
    (applyBaseline baseline current).get k = last CdpCertItem.id current k := by
  rw [applyBaseline, get_foldl_set, OrderedMap.get_filter]
  cases hlast : last CdpCertItem.id current k with
  | some i => rfl
  | none =>
    have hgone : (current.any fun item => item.id = k) = false := by
      rw [List.any_eq_false]
      intro i hi
      rw [decide_eq_true_eq]
      exact last_eq_none_iff.mp hlast i hi
    rw [none_or, hgone]
    cases baseline.get k with
    | none => rfl
    | some w => rfl

/-! ## Complete scans -/

/-- Every store was read, and nothing was cut off. -/
structure Scan.IsComplete (scan : Scan) : Prop where
  unreadable : scan.unreadable = []
  unscoped : scan.unscoped = []
  uncapped : isCapped scan.items = false

def Event.IsComplete : Event → Prop
  | .collect scan => scan.IsComplete
  | _ => True

theorem Scan.IsComplete.applyCap {scan : Scan} (hscan : scan.IsComplete) : applyCap scan.items = scan.items := by
  rw [Cdp.applyCap, hscan.uncapped]
  rfl

theorem Scan.IsComplete.carried {scan : Scan} (hscan : scan.IsComplete) (baseline : Baseline)
    (delta : Option CdpDelta) (items : List CdpCertItem) : carried baseline delta scan items = [] := by
  rw [Cdp.carried, if_neg fun h => h.1 hscan.unscoped, if_neg fun h => h hscan.unreadable]

theorem Scan.IsComplete.claimed {scan : Scan} (hscan : scan.IsComplete) (delta : CdpDelta) :
    claimed delta scan [] = delta := by
  rw [Cdp.claimed, hscan.uncapped, if_neg fun h => h hscan.unscoped]
  simp

section Runs

variable (sha256 : List UInt8 → Str)

/-- What the hash tells apart, if SHA-256 does: items that differ in more than the order of their
members. -/
theorem hashCdpItem_eq_iff (hsha : Function.Injective sha256) (i j : CdpCertItem) :
    hashCdpItem sha256 i = hashCdpItem sha256 j ↔ i.json.canonical = j.json.canonical := by
  constructor
  · intro h
    exact Json.encode_stringify_injective (hsha h)
  · intro h
    rw [hashCdpItem, hashCdpItem, stableStringify, stableStringify, h]

/-- What a scan saw of a certificate, up to the hash of its content. -/
def sees (commit : List CdpCertItem) (k : Str) : Option Str :=
  (last CdpCertItem.id commit k).map (hashCdpItem sha256)

def Holds (h : Holding Str CdpCertItem) (commit : List CdpCertItem) : Prop :=
  ∀ k, (h k).map (hashCdpItem sha256) = sees sha256 commit k

def Delivery.IsTruthful (d : Delivery) : Prop :=
  ∀ k v, d.certificates.tells k = some v → v.map (hashCdpItem sha256) = sees sha256 d.commit k

/-- No certificate that is listed with two contents is in the baseline with the last one. -/
def ListsOnce (baseline : Baseline) (items : List CdpCertItem) : Prop :=
  ∀ i ∈ items, (baseline.get i.id).map (hashCdpItem sha256) = sees sha256 items i.id →
    some (hashCdpItem sha256 i) = sees sha256 items i.id

theorem isTruthful_delta {baseline : Baseline} {items : List CdpCertItem}
    (honce : ListsOnce sha256 baseline items) {delta : CdpDelta}
    (hdelta : computeCdpDelta sha256 baseline items = some delta) :
    Delivery.IsTruthful sha256 ⟨.delta delta, items⟩ := by
  rw [computeCdpDelta] at hdelta
  split at hdelta
  · cases hdelta
  · obtain rfl := some.inj hdelta
    intro k v htells
    rw [tells] at htells
    split at htells
    · rename_i hremoved
      obtain ⟨-, habsent⟩ := mem_filter.mp hremoved
      have hnone : last CdpCertItem.id items k = none := by
        rw [last_eq_none_iff]
        simpa using habsent
      obtain rfl := some.inj htells
      rw [sees, hnone]
    · obtain ⟨i, hi, rfl⟩ := map_eq_some_iff.mp htells
      rcases or_eq_some_iff.mp hi with hupdated | ⟨-, hadded⟩
      · -- the last item differs from the baseline, or the guard makes the updated one equal to it
        obtain ⟨hmem, rfl⟩ := mem_of_last hupdated
        obtain ⟨hmem, hchanged⟩ := mem_filter.mp hmem
        obtain ⟨w, hw, hne⟩ := (any_eq_true _ _).mp hchanged
        rw [decide_eq_true_eq] at hne
        cases hlast : last CdpCertItem.id items i.id with
        | none => exact absurd rfl (last_eq_none_iff.mp hlast i hmem)
        | some j =>
          have hj : hashCdpItem sha256 w ≠ hashCdpItem sha256 j := by
            intro heq
            have hsame := honce i hmem (by rw [hw, sees, hlast, map_some, map_some, heq])
            rw [sees, hlast, map_some] at hsame
            exact hne (heq.trans (some.inj hsame).symm)
          have hid : j.id = i.id := (mem_of_last hlast).2
          have hkept := last_filter_of_last
            (p := fun item => (baseline.get item.id).any fun w =>
              hashCdpItem sha256 w ≠ hashCdpItem sha256 item) hlast
            (by rw [hid, hw, any_some]; exact decide_eq_true hj)
          cases hkept.symm.trans hupdated
          rw [sees, hlast]
      · obtain ⟨hmem, rfl⟩ := mem_of_last hadded
        obtain ⟨-, hnew⟩ := mem_filter.mp hmem
        rw [last_filter_of_forall fun j _ hj => by rw [hj]; exact hnew] at hadded
        rw [sees, hadded]

/-- A complete scan commits what it saw, and sends the truth about it. -/
theorem isTruthful_collectOnce {baseline : Baseline} {full : Bool} {scan : Scan}
    (hscan : scan.IsComplete) (honce : ListsOnce sha256 baseline scan.items) {d : Delivery}
    (hd : collectOnce sha256 baseline full scan = some d) : d.IsTruthful sha256 := by
  rw [collectOnce, hscan.applyCap] at hd
  dsimp only at hd
  rw [hscan.carried, append_nil] at hd
  split at hd
  · obtain rfl := some.inj hd
    intro k v htells
    obtain rfl := some.inj htells
    rfl
  · rename_i delta hdelta
    rw [hscan.claimed] at hd
    split at hd
    · obtain rfl := some.inj hd
      cases full with
      | true => cases hdelta
      | false => exact isTruthful_delta sha256 honce hdelta
    · cases hd

/-! ## What the repository knows of the sends -/

variable {s : System}

theorem send?_append {i : Nat} {d d' : Delivery} (hd : s.send? i = some d) :
    { s with outbox := s.outbox ++ [d'] }.send? i = some d := by
  rw [System.send?] at hd ⊢
  split at hd
  · cases hd
  · rename_i hi
    rw [if_neg hi]
    exact (List.getElem?_append_left (List.getElem?_eq_some_iff.mp hd).1).trans hd

theorem send?_last (s : System) (d : Delivery) :
    { s with outbox := s.outbox ++ [d] }.send? (s.outbox.length + 1) = some d := by
  exact getElem?_concat_length

theorem le_of_send? {i : Nat} {d : Delivery} (hd : s.send? i = some d) : 0 < i ∧ i ≤ s.outbox.length := by
  rw [System.send?] at hd
  split at hd
  · cases hd
  · rename_i hi
    have hlt := (List.getElem?_eq_some_iff.mp hd).1
    omega

/-- The rows of the repository are those of the sends, in their order, and the baseline is what the
last acknowledged one of them committed. -/
structure Linked (s : System) : Prop where
  seq : s.repo.seq = s.outbox.length
  baseline : 0 < s.repo.lastSeq → s.repo.lastSeq ∈ s.delivered ∧ ∃ d, s.send? s.repo.lastSeq = some d ∧
      ∀ k, s.repo.baseline.get k = last CdpCertItem.id d.commit k
  pending : ∀ p ∈ s.repo.pending, p.seq = p.outboxId ∧ ∃ d, s.send? p.outboxId = some d ∧ p.commit = d.commit
  delivered : ∀ i ∈ s.delivered, i ≤ s.outbox.length

theorem Linked.enqueue (hs : Linked s) (collected : List Delivery) (d : Delivery) (now : Int) : Linked { s with
      repo := s.repo.stageCdpDelivery (s.outbox.length + 1) d.commit now
      collected := collected
      outbox := s.outbox ++ [d] } where
  seq := by
    rw [Repo.stageCdpDelivery, length_append, hs.seq]
    rfl
  baseline := by
    intro hlast
    obtain ⟨hdelivered, d', hd', hbaseline⟩ := hs.baseline hlast
    exact ⟨hdelivered, d', send?_append hd', hbaseline⟩
  pending := by
    intro p hp
    rcases mem_append.mp hp with hp | hp
    · obtain ⟨hseq, d', hd', hcommit⟩ := hs.pending p (mem_filter.mp hp).1
      exact ⟨hseq, d', send?_append hd', hcommit⟩
    · obtain rfl := mem_singleton.mp hp
      exact ⟨congrArg (· + 1) hs.seq, d, send?_last s d, rfl⟩
  delivered := by
    intro i hi
    rw [length_append]
    exact Nat.le_succ_of_le (hs.delivered i hi)

theorem Linked.ack (hs : Linked s) {outboxId : Nat} (hack : outboxId ∈ s.delivered) :
    Linked { s with repo := (s.repo.promoteCdpDelivery outboxId).2 } := by
  rw [Repo.promoteCdpDelivery]
  cases hrow : (s.repo.pending.filter fun p => p.outboxId = outboxId).getLast? with
  | none => exact ⟨hs.seq, hs.baseline, hs.pending, hs.delivered⟩
  | some row =>
    have hrest : ∀ p ∈ s.repo.pending.filter fun p => !(p.seq ≤ row.seq), p ∈ s.repo.pending :=
      fun p hp => (mem_filter.mp hp).1
    obtain ⟨hmem, hid⟩ := mem_filter.mp (mem_of_getLast? hrow)
    obtain ⟨hseq, d, hd, hcommit⟩ := hs.pending row hmem
    rw [decide_eq_true_eq] at hid
    dsimp only
    split
    · exact ⟨hs.seq, hs.baseline, fun p hp => hs.pending p (hrest p hp), hs.delivered⟩
    · refine ⟨hs.seq, fun _ => ?_, fun p hp => hs.pending p (hrest p hp), hs.delivered⟩
      refine ⟨hseq ▸ hid ▸ hack, d, hseq ▸ hd, fun k => ?_⟩
      rw [← hcommit]
      exact get_applyBaseline _ _ k

theorem Linked.step (hs : Linked s) (e : Event) : Linked (step sha256 s e) := by
  cases e with
  | start full =>
    rw [Cdp.step]
    split
    · exact ⟨hs.seq, hs.baseline, hs.pending, hs.delivered⟩
    · exact hs
  | collect scan =>
    rw [Cdp.step]
    split
    · exact hs
    · exact ⟨hs.seq, hs.baseline, hs.pending, hs.delivered⟩
  | enqueue i now =>
    rw [Cdp.step]
    split
    · exact hs
    · exact hs.enqueue _ _ now
  | deliver outboxId =>
    rw [Cdp.step]
    split
    · exact hs
    · rename_i d hd
      refine ⟨hs.seq, fun hlast => ?_, hs.pending, fun i hi => ?_⟩
      · obtain ⟨hdelivered, hbaseline⟩ := hs.baseline hlast
        exact ⟨mem_append_left _ hdelivered, hbaseline⟩
      · rcases mem_append.mp hi with hi | hi
        · exact hs.delivered i hi
        · rw [mem_singleton.mp hi]
          exact (le_of_send? hd).2
  | ack outboxId =>
    rw [Cdp.step]
    split
    · exact hs.ack ‹_›
    · exact hs

/-! ## The latest send -/

/-- The server, once the latest send was delivered, holds what that send commits. -/
structure Told (s : System) : Prop where
  linked : Linked s
  collected : ∀ d ∈ s.collected, d.IsTruthful sha256
  sent : ∀ d ∈ s.outbox, d.IsTruthful sha256
  latest : ∀ d, s.send? s.outbox.length = some d → s.outbox.length ∈ s.delivered → Holds sha256 s.server d.commit

/-- The latest send leaves out only what the server holds as the scan saw it, and an older one that
comes after it tells only what that scan saw. -/
def KeepsMirror (s : System) : Event → Prop
  | .collect scan => s.scanning.isSome = true → ListsOnce sha256 s.repo.baseline scan.items
  | .deliver outboxId => ∀ d latest, s.send? outboxId = some d → s.send? s.outbox.length = some latest →
    (outboxId = s.outbox.length → ∀ k, d.certificates.tells k = none →
      (s.server k).map (hashCdpItem sha256) = sees sha256 latest.commit k) ∧
    (outboxId ≠ s.outbox.length → s.outbox.length ∈ s.delivered → ∀ k v, d.certificates.tells k = some v →
        v.map (hashCdpItem sha256) = sees sha256 latest.commit k)
  | _ => True

theorem mem_of_send? {i : Nat} {d : Delivery} (hd : s.send? i = some d) : d ∈ s.outbox := by
  rw [System.send?] at hd
  split at hd
  · cases hd
  · exact mem_of_getElem? hd

theorem Told.deliver (hs : Told sha256 s) {outboxId : Nat} {d : Delivery}
    (hd : s.send? outboxId = some d) (hkeeps : KeepsMirror sha256 s (.deliver outboxId))
    {latest : Delivery} (hlatest : s.send? s.outbox.length = some latest)
    (hdelivered : s.outbox.length ∈ s.delivered ++ [outboxId]) :
    Holds sha256 (d.certificates.apply s.server) latest.commit := by
  obtain ⟨hleft, htold⟩ := hkeeps d latest hd hlatest
  intro k
  rw [apply_eq]
  by_cases hid : outboxId = s.outbox.length
  · -- the latest send itself
    rw [hid] at hd
    cases hd.symm.trans hlatest
    cases htells : d.certificates.tells k with
    | none => exact hleft hid k htells
    | some v => exact hs.sent d (mem_of_send? hd) k v htells
  · -- an older one, after the latest
    have hbefore : s.outbox.length ∈ s.delivered := by
      rcases mem_append.mp hdelivered with h | h
      · exact h
      · exact absurd (mem_singleton.mp h).symm hid
    cases htells : d.certificates.tells k with
    | none => exact hs.latest latest hlatest hbefore k
    | some v => exact htold hid hbefore k v htells

theorem Told.step (hs : Told sha256 s) {e : Event} (hcomplete : e.IsComplete)
    (hkeeps : KeepsMirror sha256 s e) : Told sha256 (step sha256 s e) := by
  have hlinked := hs.linked.step sha256 e
  cases e with
  | start full =>
    rw [Cdp.step] at hlinked ⊢
    split
    · exact ⟨⟨hs.linked.seq, hs.linked.baseline, hs.linked.pending, hs.linked.delivered⟩,
        hs.collected, hs.sent, hs.latest⟩
    · exact hs
  | collect scan =>
    rw [Cdp.step] at hlinked ⊢
    cases hscanning : s.scanning with
    | none => exact hs
    | some full =>
      rw [hscanning] at hlinked
      refine ⟨hlinked, fun d hd => ?_, hs.sent, hs.latest⟩
      rcases mem_append.mp hd with hd | hd
      · exact hs.collected d hd
      · have honce := hkeeps (by rw [hscanning]; rfl)
        exact isTruthful_collectOnce sha256 hcomplete honce (mem_toList.mp hd)
  | enqueue i now =>
    rw [Cdp.step] at hlinked ⊢
    cases hd : s.collected[i]? with
    | none => exact hs
    | some d =>
      rw [hd] at hlinked
      refine ⟨hlinked, fun d' hd' => hs.collected d' (mem_of_mem_eraseIdx hd'),
        fun d' hd' => ?_, fun d' _ hdelivered => ?_⟩
      · rcases mem_append.mp hd' with hd' | hd'
        · exact hs.sent d' hd'
        · rw [mem_singleton.mp hd']
          exact hs.collected d (mem_of_getElem? hd)
      · -- the new send was not delivered yet
        have hle := hs.linked.delivered _ hdelivered
        rw [length_append] at hle
        exact absurd hle (Nat.not_succ_le_self _)
  | deliver outboxId =>
    rw [Cdp.step] at hlinked ⊢
    cases hd : s.send? outboxId with
    | none => exact hs
    | some d =>
      rw [hd] at hlinked
      exact ⟨hlinked, hs.collected, hs.sent, fun latest hlatest hdelivered =>
        hs.deliver sha256 hd hkeeps hlatest hdelivered⟩
  | ack outboxId =>
    rw [Cdp.step] at hlinked ⊢
    split
    · rename_i hack
      rw [if_pos hack] at hlinked
      exact ⟨hlinked, hs.collected, hs.sent, hs.latest⟩
    · exact hs

/-! ## The mirror -/

/-- With the latest send promoted and nothing pending, the server holds the baseline. -/
def Mirrors (s : System) : Prop :=
  0 < s.repo.seq → s.repo.lastSeq = s.repo.seq → s.repo.pending = [] →
    Agrees (hashCdpItem sha256) s.server s.repo.baseline

theorem Told.mirrors (hs : Told sha256 s) : Mirrors sha256 s := by
  intro hpos hlast _ k
  rw [← hlast] at hpos
  obtain ⟨hdelivered, d, hd, hbaseline⟩ := hs.linked.baseline hpos
  rw [hlast, hs.linked.seq] at hdelivered hd
  rw [hbaseline]
  exact hs.latest d hd hdelivered k

end Runs

/-! ## Scans in flight together -/

/-- A hash that writes the bytes as units. -/
def sampleSha256 (bytes : List UInt8) : Str := bytes.map UInt8.toUInt16

def sampleItem (id : Str) : CdpCertItem := ⟨id, false, false, ⟨text "lm/my", text "My", .machine⟩, []⟩

def completeScan (ids : List Str) : Scan := ⟨ids.map sampleItem, [], [], false⟩

/-- Two scans are compared with the baseline of the first one. Each finds a certificate that the
other does not, and everything is delivered and acknowledged in the order of the scans. -/
def overlapping : List Event :=
  [.start false, .collect (completeScan [text "a"]), .enqueue 0 0, .deliver 1, .ack 1,
    .start false, .collect (completeScan [text "a", text "b"]), .enqueue 0 0,
    .start false, .collect (completeScan [text "a", text "c"]), .enqueue 0 0,
    .deliver 2, .deliver 3, .ack 2, .ack 3]

end Cdp
