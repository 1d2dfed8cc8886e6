-- SUMMARY: The invariant of the outbox's rows, and that the outbox loses no event and hands out what was put in.
import Tracenium.Outbox.Store
import Tracenium.Lib.JsonText

/-! # Health of the outbox -/

open Utf16 Utf8 List Function Prod

namespace Outbox

open OutboxStatus

open SqliteOutbox

/-! ## Rows -/

/-- A row is locked exactly while it is in flight, and it has attempts left while it is live. -/
structure RowInvariant (row : Row) : Prop where
  locked : row.lockedAtUtc.isSome = true ↔ row.status = .inFlight
  owned : row.lockOwner.isSome = true ↔ row.status = .inFlight
  attempts : row.status.isLive = true → row.attempts < MAX_ATTEMPTS
  sent : row.status = .sent → row.sentAtUtc.isSome = true

/-- A row without a lock, which is not in flight. -/
theorem rowInvariant_of_unlocked {row : Row} (hlocked : row.lockedAtUtc = none)
    (howner : row.lockOwner = none) (hstatus : row.status ≠ .inFlight)
    (hattempts : row.status.isLive → row.attempts < MAX_ATTEMPTS)
    (hsent : row.status = .sent → row.sentAtUtc.isSome) : RowInvariant row where
  locked := iff_of_false (by simp [hlocked]) hstatus
  owned := iff_of_false (by simp [howner]) hstatus
  attempts := hattempts
  sent := hsent

theorem rowInvariant_newRow (type : OutboxEventType) (payloadJson payloadHash : Str) (now : Int) :
    RowInvariant (newRow type payloadJson payloadHash now) :=
  rowInvariant_of_unlocked rfl rfl noConfusion (fun _ => Nat.zero_lt_succ 19)
    noConfusion

theorem Change.rowInvariant {e : Event} {i : Nat} {row row' : Row} (hchange : Change e i row row') :
    RowInvariant row' := by
  cases hchange with
  | lease hready =>
    simp only [isReady, Bool.and_eq_true, decide_eq_true_eq] at hready
    exact ⟨iff_of_true rfl rfl, iff_of_true rfl rfl, fun _ => hready.1.2, noConfusion⟩
  | deliver =>
    exact rowInvariant_of_unlocked rfl rfl noConfusion Bool.noConfusion
      fun _ => rfl
  | reject =>
    exact rowInvariant_of_unlocked rfl rfl noConfusion Bool.noConfusion
      noConfusion
  | fail =>
    exact rowInvariant_of_unlocked rfl rfl noConfusion Bool.noConfusion
      noConfusion
  | retry _ hmax =>
    exact rowInvariant_of_unlocked rfl rfl noConfusion (fun _ => hmax)
      noConfusion
  | expire =>
    exact rowInvariant_of_unlocked rfl rfl noConfusion Bool.noConfusion
      noConfusion
  | reclaim _ _ hmax =>
    exact rowInvariant_of_unlocked rfl rfl noConfusion (fun _ => hmax)
      noConfusion

def Sound (o : SqliteOutbox) : Prop := ∀ i row, (i, row) ∈ o.events.rows → RowInvariant row

variable {o : SqliteOutbox}

theorem Sound.step (hs : Sound o) (h : Host) (e : Event) : Sound (step h o e) := by
  refine (evolves_step h o e).forall (fun _ _ _ _ hchange => hchange.rowInvariant) ?_ hs
  rintro i row ⟨-, type, payload, now, -, rfl, -⟩
  exact rowInvariant_newRow _ _ _ _

/-- A settled row is not changed, and only `cleanup` deletes it. -/
theorem mem_step_of_settled (h : Host) {i : Nat} {row : Row}
    (hmem : (i, row) ∈ o.events.rows) (hrow : row.status.isLive = false) (e : Event) :
    (i, row) ∈ (step h o e).events.rows ∨ (∃ retentionDays now, e = .cleanup retentionDays now) ∧
        ∀ row', (i, row') ∉ (step h o e).events.rows := by
  refine ((evolves_step h o e).frozen hmem fun row' hchange => ?_).imp_right fun hgone =>
    ⟨hgone.1.1, hgone.2⟩
  rw [hchange.isLive] at hrow
  cases hrow

/-- Its id is not given to another row either. -/
theorem eq_of_settled (h : Host) (lockOwner : Str) {i : Nat} {row : Row}
    (hmem : (i, row) ∈ o.events.rows) (hrow : row.status.isLive = false) (tr : List Event) :
    ∀ row', (i, row') ∈ ((machine h lockOwner).exec o tr).events.rows → row' = row := by
  have hkeep : i ≤ ((machine h lockOwner).exec o tr).events.lastId ∧
      ∀ row', (i, row') ∈ ((machine h lockOwner).exec o tr).events.rows → row' = row := by
    induction tr using reverseRecOn with
    | nil => exact ⟨o.events.bounded _ hmem, fun row' h' => Table.eq_of_mem h' hmem⟩
    | append_singleton tr e ih =>
      obtain ⟨hle, hold⟩ := ih
      rw [Machine.exec_append]
      have hstep := evolves_step h ((machine h lockOwner).exec o tr) e
      refine ⟨Nat.le_trans hle hstep.lastId, fun row' h' => ?_⟩
      rcases hstep.origin i row' h' with ⟨row₀, h₀, rfl | hchange⟩ | ⟨hlt, -⟩
      · exact hold row' h₀
      · rw [hold row₀ h₀] at hchange
        rw [hchange.isLive] at hrow
        cases hrow
      · exact absurd hle (Nat.not_le_of_lt hlt)
  exact hkeep.2

/-! ## Rows that are due -/

/-- The rows that can be leased, by their ids. -/
def ready (o : SqliteOutbox) (now : Int) : List (Nat × Row) :=
  o.events.rows.filter fun r => isReady now r.2

/-- A row that can be leased has no owner. -/
theorem Sound.lockOwner_of_isReady (hs : Sound o) {now : Int} {i : Nat}
    {row : Row} (hmem : (i, row) ∈ o.events.rows) (hready : isReady now row) :
    row.status = .pending ∧ row.lockOwner.isNone := by
  simp only [isReady, Bool.and_eq_true, decide_eq_true_eq] at hready
  refine ⟨hready.1.1, ?_⟩
  cases howner : row.lockOwner with
  | none => rfl
  | some lockOwner =>
    have hflight := (hs i row hmem).owned.mp (by rw [howner]; rfl)
    rw [hready.1.1] at hflight
    cases hflight

/-- A row can be leased when it waits and is due. -/
theorem Sound.isReady_iff (hs : Sound o) {i : Nat} {row : Row} (hmem : (i, row) ∈ o.events.rows) (now : Int) :
    isReady now row ↔ row.status = .pending ∧ row.nextAttemptAtUtc ≤ now := by
  simp only [isReady, Bool.and_eq_true, decide_eq_true_eq]
  constructor
  · rintro ⟨⟨hstatus, -⟩, hdue⟩
    exact ⟨hstatus, hdue⟩
  · rintro ⟨hstatus, hdue⟩
    exact ⟨⟨hstatus, (hs i row hmem).attempts (by rw [hstatus]; rfl)⟩, hdue⟩

/-- Of the rows that can be leased, the update takes those that were selected. -/
theorem Sound.free_eq (hs : Sound o) {now : Int} {leased : List (Nat × Row)}
    (hleased : leased ⊆ ready o now) {r : Nat × Row} (hr : r ∈ o.events.rows) :
    ((leased.map fst).contains r.1 && r.2.status = .pending && r.2.lockOwner.isNone) = decide (r ∈ leased) := by
  rw [Bool.eq_iff_iff, decide_eq_true_eq]
  simp only [Bool.and_eq_true, contains_iff_mem, decide_eq_true_eq]
  constructor
  · rintro ⟨⟨hid, -⟩, -⟩
    exact Table.mem_of_id (fun _ h => mem_of_mem_filter (hleased h)) hr hid
  · intro hmem
    obtain ⟨hstatus, howner⟩ := hs.lockOwner_of_isReady (i := r.1) hr
      (mem_filter.mp (hleased hmem)).2
    exact ⟨⟨mem_map_of_mem hmem, hstatus⟩, howner⟩

def leaseRows (o : SqliteOutbox) (now : Int) (leased : List (Nat × Row)) : List (Nat × Row) :=
  o.events.rows.map fun r => if r ∈ leased then (r.1, lease o.lockOwner now r.2) else r

theorem Sound.rows_update (hs : Sound o) {now : Int} {leased : List (Nat × Row)} (hleased : leased ⊆ ready o now) :
    (o.events.update (fun r => (leased.map fst).contains r.1 && r.2.status = .pending &&
      r.2.lockOwner.isNone) (lease o.lockOwner now)).rows = leaseRows o now leased := by
  refine map_congr_left fun r hr => ?_
  have hfree := hs.free_eq hleased hr
  by_cases hmem : r ∈ leased
  · rw [if_pos hmem]
    exact if_pos (hfree.trans (decide_eq_true hmem))
  · rw [if_neg hmem]
    exact if_neg (Bool.eq_false_iff.mp (hfree.trans (decide_eq_false hmem)))

/-- The rows that are selected after the update are those that were leased. -/
theorem filter_leaseRows (o : SqliteOutbox) (now : Int) (n : Nat) :
    let leased := (ready o now).take n
    ((leaseRows o now leased).filter fun r => (leased.map fst).contains r.1 &&
        r.2.status = .inFlight && r.2.lockOwner = some o.lockOwner) =
      leased.map fun r => (r.1, lease o.lockOwner now r.2) := by
  intro leased
  have hsub : leased ⊆ o.events.rows :=
    fun _ h => mem_of_mem_filter (mem_of_mem_take h)
  have hnodup : (ready o now).Nodup := o.events.nodup.filter _
  rw [leaseRows, filter_map]
  have hfilter : o.events.rows.filter ((fun r => (leased.map fst).contains r.1 &&
        r.2.status = .inFlight && r.2.lockOwner = some o.lockOwner) ∘
      fun r => if r ∈ leased then (r.1, lease o.lockOwner now r.2) else r) = leased := by
    have hcongr : ∀ r ∈ o.events.rows, (((fun r : Nat × Row => (leased.map fst).contains r.1 &&
          r.2.status = .inFlight && r.2.lockOwner = some o.lockOwner) ∘
        fun r => if r ∈ leased then (r.1, lease o.lockOwner now r.2) else r) r) =
          (leased.elem r && isReady now r.2) := by
      intro r hr
      by_cases hmem : r ∈ leased
      · have hready := (mem_filter.mp (mem_of_mem_take hmem)).2
        have hid : r.1 ∈ leased.map fst := mem_map_of_mem hmem
        simp [lease, hmem, hready, hid]
      · have hid : r.1 ∉ leased.map fst := fun hid => hmem (Table.mem_of_id hsub hr hid)
        simp [hmem, hid]
    rw [filter_congr hcongr, ← filter_filter]
    exact (Nodup.take_eq_filter_mem hnodup).symm
  rw [hfilter]
  exact map_congr_left fun r hr => if_pos hr

/-- `leaseReady` leases the first rows that can be leased, and no other row changes. -/
theorem Sound.leaseReady (hs : Sound o) (h : Host) {limit : Int}
    (hlimit : 1 ≤ limit) (now : Int) :
    let leased := (ready o now).take limit.toNat
    (o.leaseReady h limit now).1 = leased.map (fun r =>
        ⟨r.1, lease o.lockOwner now r.2, decodePayload h r.2.payloadJson⟩) ∧
      (o.leaseReady h limit now).2.events.rows = leaseRows o now leased := by
  intro leased
  have hleased : leased ⊆ ready o now := take_subset _ _
  have hcandidates : sqlLimit limit (o.events.rows.filter fun r => isReady now r.2) = leased := by
    rw [sqlLimit, if_neg (by omega)]
    rfl
  cases hany : o.events.rows.any fun r => isReady now r.2 with
  | false =>
    have hready : ready o now = [] := filter_eq_nil_iff.mpr (by simpa using hany)
    have hnil : leased = [] := subset_nil.mp (hready ▸ hleased)
    rw [SqliteOutbox.leaseReady, if_neg (by simp [hany]), hnil]
    exact ⟨rfl, by simp [leaseRows]⟩
  | true =>
    obtain ⟨r, hr, hready⟩ := any_eq_true.mp hany
    have hne : leased ≠ [] := by
      intro hnil
      rcases take_eq_nil_iff.mp hnil with hzero | hzero
      · omega
      · exact filter_eq_nil_iff.mp hzero r hr hready
    have hfree : (o.events.rows.any fun r => (leased.map fst).contains r.1 &&
        r.2.status = .pending && r.2.lockOwner.isNone) := by
      obtain ⟨r, hmem⟩ := exists_mem_of_ne_nil leased hne
      have hr : r ∈ o.events.rows := mem_of_mem_filter (hleased hmem)
      exact any_eq_true.mpr ⟨r, hr, by rw [hs.free_eq hleased hr, decide_eq_true hmem]⟩
    rw [SqliteOutbox.leaseReady, if_pos hany, hcandidates]
    dsimp only
    rw [if_neg (by simpa using hne), if_pos hfree]
    refine ⟨?_, hs.rows_update hleased⟩
    dsimp only
    rw [hs.rows_update hleased, filter_leaseRows, List.map_map]
    rfl

/-- When nothing waits, there is no next time. -/
theorem Sound.getNextReadyDelayMs_eq_none (hs : Sound o) (now : Int) : o.getNextReadyDelayMs now = none ↔
      ∀ i row, (i, row) ∈ o.events.rows → row.status ≠ .pending := by
  rw [getNextReadyDelayMs, Option.map_eq_none_iff, min?_eq_none_iff, map_eq_nil_iff, filter_eq_nil_iff]
  constructor
  · intro hnone i row hmem hpending
    have hattempts := (hs i row hmem).attempts (by rw [hpending]; rfl)
    exact hnone (i, row) hmem (by simp [hpending, hattempts])
  · rintro hnone ⟨i, row⟩ hmem hwaits
    simp only [Bool.and_eq_true, decide_eq_true_eq] at hwaits
    exact hnone i row hmem hwaits.1

/-! ## Every run -/

structure Healthy (h : Host) (lockOwner : Str) (o : SqliteOutbox) : Prop where
  locked : ∀ i row, (i, row) ∈ o.events.rows →
    (row.status = .inFlight ↔ row.lockedAtUtc.isSome = true ∧ row.lockOwner.isSome = true)
  attempts : ∀ i row, (i, row) ∈ o.events.rows → row.status.isLive = true → row.attempts < MAX_ATTEMPTS
  sent : ∀ i row, (i, row) ∈ o.events.rows → row.status = .sent → row.sentAtUtc.isSome = true
  kept : ∀ i row, (i, row) ∈ o.events.rows → row.status.isLive = false → ∀ e, (i, row) ∈ (step h o e).events.rows ∨
      (∃ retentionDays now, e = .cleanup retentionDays now) ∧ ∀ row', (i, row') ∉ (step h o e).events.rows
  final : ∀ i row, (i, row) ∈ o.events.rows → row.status.isLive = false → ∀ tr row',
    (i, row') ∈ ((machine h lockOwner).exec o tr).events.rows → row' = row
  due : ∀ i row, (i, row) ∈ o.events.rows → ∀ now,
    isReady now row = true ↔ row.status = .pending ∧ row.nextAttemptAtUtc ≤ now
  leases : ∀ (limit now : Int), 1 ≤ limit →
    let leased := (ready o now).take limit.toNat
    (o.leaseReady h limit now).1 = leased.map (fun r =>
        ⟨r.1, lease o.lockOwner now r.2, decodePayload h r.2.payloadJson⟩) ∧
      (o.leaseReady h limit now).2.events.rows = leaseRows o now leased
  delay : ∀ now, o.getNextReadyDelayMs now = none ↔ ∀ i row, (i, row) ∈ o.events.rows → row.status ≠ .pending

theorem Sound.healthy (hs : Sound o) (h : Host) (lockOwner : Str) :
    Healthy h lockOwner o where
  locked := fun i row hmem => by
    obtain ⟨hlocked, howned, -, -⟩ := hs i row hmem
    rw [hlocked, howned, and_self]
  attempts := fun i row hmem => (hs i row hmem).attempts
  sent := fun i row hmem => (hs i row hmem).sent
  kept := fun _ _ hmem hrow e => mem_step_of_settled h hmem hrow e
  final := fun _ _ hmem hrow tr => eq_of_settled h lockOwner hmem hrow tr
  due := fun _ _ hmem now => hs.isReady_iff hmem now
  leases := fun _ now hlimit => hs.leaseReady h hlimit now
  delay := fun now => hs.getNextReadyDelayMs_eq_none now

end Outbox

/-!
# What the outbox keeps

That hashes tell payloads apart and that gzip and base64 lose nothing is assumed of the host.
-/

namespace Outbox

open SqliteOutbox

/-! ## Payloads -/

/-- What is compressed and spelled in base64 can be read back. -/
structure Lossless (h : Host) : Prop where
  gunzip : ∀ b gz, h.gzipSync b = some gz → h.gunzipSync gz = some b
  base64 : ∀ b, h.ofBase64 (h.toBase64 b) = b

theorem wellFormed_stringify (v : Json) : WellFormed v.stringify := (Json.isLine_stringify v).1

/-- No JSON text begins like a compressed payload. -/
theorem not_isPrefixOf_stringify (v : Json) : gzPrefix.isPrefixOf v.stringify = false := by
  cases v with
  | null => rfl
  | bool b => cases b <;> rfl
  | num n =>
    obtain ⟨text, valid⟩ := n
    cases text with
    | nil => rfl
    | cons u s =>
      have hu := Json.isNumberUnit_of_isNumber valid u mem_cons_self
      cases hbegins : gzPrefix.isPrefixOf (u :: s) with
      | false => exact hbegins
      | true =>
        obtain ⟨t, ht⟩ := isPrefixOf_iff_prefix.mp hbegins
        obtain ⟨rfl, -⟩ := cons.inj ht
        exact absurd hu (by decide)
  | str s => rfl
  | arr xs => cases xs <;> rfl
  | obj ms => cases ms <;> rfl

variable {h : Host}

/-- A payload that was put in is handed out. -/
theorem decodePayload_maybeCompressPayload (hcodec : Lossless h) (v : Json) :
    decodePayload h (maybeCompressPayload h v.stringify) = .json v := by
  have hread : maybeDecompressPayload h (maybeCompressPayload h v.stringify) = v.stringify := by
    have hplain : maybeDecompressPayload h v.stringify = v.stringify := by
      rw [maybeDecompressPayload, if_neg (by simp [not_isPrefixOf_stringify v])]
    rw [maybeCompressPayload]
    split
    · exact hplain
    · split
      · rename_i gz hgz
        have hbegins : gzPrefix.isPrefixOf (gzPrefix ++ h.toBase64 gz) := by
          rw [ isPrefixOf_iff_prefix]
          exact prefix_append _ _
        have hdrop : (gzPrefix ++ h.toBase64 gz).drop 3 = h.toBase64 gz := rfl
        rw [maybeDecompressPayload, if_pos hbegins, hdrop, hcodec.base64, hcodec.gunzip _ _ hgz]
        exact decode_encode (wellFormed_stringify v)
      · exact hplain
  rw [decodePayload, hread, Json.parse_stringify]

/-- Different payloads have different hashes. -/
theorem eq_of_sha256 (hsha : Injective h.sha256) {v w : Json}
    (heq : h.sha256 (encode v.stringify) = h.sha256 (encode w.stringify)) : v = w :=
  Json.encode_stringify_injective (hsha heq)

/-! ## Live rows -/

/-- The row holds a payload that was put in, and its hash. -/
def Coded (h : Host) (row : Row) : Prop :=
  ∃ v : Json, row.payloadJson = maybeCompressPayload h v.stringify ∧ row.payloadHash = h.sha256 (encode v.stringify)

/-- Rows hold payloads, and no two live ones of a type hold the same. -/
structure Filed (h : Host) (o : SqliteOutbox) : Prop where
  coded : ∀ i row, (i, row) ∈ o.events.rows → Coded h row
  single : ∀ i j row row', (i, row) ∈ o.events.rows → (j, row') ∈ o.events.rows →
    row.status.isLive = true → row'.status.isLive = true → row.type = row'.type →
    row.payloadHash = row'.payloadHash → i = j

variable {o : SqliteOutbox}

/-- A live row was live before, or it was just inserted. -/
theorem live_origin (h : Host) {e : Event} {i : Nat} {row : Row}
    (hmem : (i, row) ∈ (step h o e).events.rows) (hlive : row.status.isLive) :
    (∃ row₀, (i, row₀) ∈ o.events.rows ∧ row₀.status.isLive ∧ row.type = row₀.type ∧
      row.payloadHash = row₀.payloadHash) ∨ Inserted h o e i row := by
  rcases (evolves_step h o e).origin i row hmem with ⟨row₀, h₀, rfl | hchange⟩ | ⟨-, hnew⟩
  · exact .inl ⟨row, h₀, hlive, rfl, rfl⟩
  · obtain ⟨htype, -, hhash⟩ := hchange.same
    exact .inl ⟨row₀, h₀, hchange.isLive, htype, hhash⟩
  · exact .inr hnew

theorem Filed.step (hf : Filed h o) (e : Event) : Filed h (step h o e) := by
  refine ⟨(evolves_step h o e).forall ?_ ?_ hf.coded, fun i j row row' hi hj hlive hlive' htype
    hhash => ?_⟩
  · rintro i row row' ⟨v, hpayload, hsha⟩ hchange
    obtain ⟨-, hpayload', hhash'⟩ := hchange.same
    exact ⟨v, hpayload'.trans hpayload, hhash'.trans hsha⟩
  · rintro i row ⟨-, type, payload, now, -, rfl, -⟩
    exact ⟨payload, rfl, rfl⟩
  · rcases live_origin h hi hlive with ⟨row₀, h₀, hlive₀, htype₀, hhash₀⟩ | ⟨hid, _, _, _, _, _, hnew⟩
    · rcases live_origin h hj hlive' with ⟨row₁, h₁, hlive₁, htype₁, hhash₁⟩ |
        ⟨-, _, _, _, _, _, hnew⟩
      · exact hf.single i j row₀ row₁ h₀ h₁ hlive₀ hlive₁ (htype₀ ▸ htype₁ ▸ htype)
          (hhash₀ ▸ hhash₁ ▸ hhash)
      · exact absurd (hhash₀ ▸ hhash) (hnew (i, row₀) h₀ hlive₀ (htype₀ ▸ htype))
    · rcases live_origin h hj hlive' with ⟨row₁, h₁, hlive₁, htype₁, hhash₁⟩ | ⟨hid', -⟩
      · exact absurd (hhash₁ ▸ hhash.symm) (hnew (j, row₁) h₁ hlive₁ (htype₁ ▸ htype.symm))
      · exact hid.trans hid'.symm

theorem filed_start (h : Host) (lockOwner : Str) : Filed h (machine h lockOwner).init :=
  ⟨fun _ _ hmem => absurd hmem not_mem_nil, fun _ _ _ _ hmem => absurd hmem not_mem_nil⟩

theorem filed_run (h : Host) (lockOwner : Str) (tr : List Event) : Filed h ((machine h lockOwner).run tr) :=
  @Machine.invariant _ _ (machine h lockOwner) (Filed h) (filed_start h lockOwner)
    (fun _ e hf => hf.step e) tr

/-! ## Nothing is lost -/

/-- There is a live row under the id, and its payload reads back as `payload`. -/
def HasLive (h : Host) (o : SqliteOutbox) (i : Nat) (type : OutboxEventType) (payload : Payload) :
    Prop :=
  ∃ row, (i, row) ∈ o.events.rows ∧ row.status.isLive = true ∧ row.type = type ∧
    decodePayload h row.payloadJson = payload

/-- The event settles the row, for good. -/
def Settles (i : Nat) (row : Row) : Event → Prop
  | .markSent id _ => id = i
  | .markRejected id _ => id = i
  | .markFailed id _ _ _ => id = i ∧ MAX_ATTEMPTS ≤ row.attempts + 1
  | .recoverStaleInflight _ _ _ => MAX_ATTEMPTS ≤ row.attempts + 1
  | .restart _ _ _ => MAX_ATTEMPTS ≤ row.attempts + 1
  | _ => False

/-- Whatever happens, the row stays live with its payload until an event settles it. -/
def KeptUntilSettled (h : Host) (lockOwner : Str) (o : SqliteOutbox) (i : Nat)
    (type : OutboxEventType) (payload : Payload) : Prop :=
  ∀ tr, HasLive h ((machine h lockOwner).exec o tr) i type payload ∨ ∃ pre e post, tr = pre ++ e :: post ∧
      HasLive h ((machine h lockOwner).exec o pre) i type payload ∧
      ∃ row, (i, row) ∈ ((machine h lockOwner).exec o pre).events.rows ∧ Settles i row e

/-- A change leaves a row live, or it settles it. -/
theorem Change.isLive_or_settles {e : Event} {i : Nat} {row row' : Row}
    (hchange : Change e i row row') : row'.status.isLive ∨ Settles i row e := by
  cases hchange with
  | lease => exact .inl rfl
  | deliver => exact .inr rfl
  | reject => exact .inr rfl
  | fail _ hmax => exact .inr ⟨rfl, hmax⟩
  | retry => exact .inl rfl
  | expire he _ hmax =>
    cases e with
    | recoverStaleInflight ttlSeconds now later => exact .inr hmax
    | restart lockOwner now later => exact .inr hmax
    | _ => cases he
  | reclaim => exact .inl rfl

theorem HasLive.keptUntilSettled {i : Nat} {type : OutboxEventType}
    {payload : Payload} (hlive : HasLive h o i type payload) (lockOwner : Str) :
    KeptUntilSettled h lockOwner o i type payload := by
  refine Machine.exec_until (M := machine h lockOwner) (P := fun o => HasLive h o i type payload)
    (R := fun o e => ∃ row, (i, row) ∈ o.events.rows ∧ Settles i row e) ?_ hlive
  rintro o e ⟨row, hmem, hrow, htype, hpayload⟩
  rcases (evolves_step h o e).fate i row hmem with ⟨row', hmem', rfl | hchange⟩ | ⟨hgone, -⟩
  · exact .inl ⟨row', hmem', hrow, htype, hpayload⟩
  · obtain ⟨htype', hpayload', -⟩ := hchange.same
    rcases hchange.isLive_or_settles with hlive' | hsettles
    · exact .inl ⟨row', hmem', hlive', htype'.trans htype, by rw [hpayload', hpayload]⟩
    · exact .inr ⟨row, hmem, hsettles⟩
  · rw [hgone.2] at hrow
    cases hrow

/-- A payload that is put in has a live row, unless it is too large. -/
theorem Filed.enqueue (hf : Filed h o)
    (hsha : Injective h.sha256) (hcodec : Lossless h) (type : OutboxEventType) (v : Json)
    (now : Int) :
    match o.enqueue h type v now with
    | .ok (i, o') => HasLive h o' i type (.json v)
    | .error error => error = text "Outbox payload too large (>2MB)" ∧
        maxBytes < byteLength (maybeCompressPayload h v.stringify) := by
  rw [SqliteOutbox.enqueue]
  split
  · rename_i heq
    split at heq
    · cases heq
    · split at heq
      · rename_i r hfind
        obtain ⟨rfl, rfl⟩ := mk.inj (Except.ok.inj heq)
        have hmem := mem_of_find?_eq_some hfind
        have hfound := find?_some hfind
        simp only [Bool.and_eq_true, decide_eq_true_eq] at hfound
        obtain ⟨⟨hhash, htype⟩, hlive⟩ := hfound
        obtain ⟨w, hpayload, hw⟩ := hf.coded r.1 r.2 hmem
        obtain rfl : w = v := eq_of_sha256 hsha (hw.symm.trans hhash)
        refine ⟨r.2, hmem, hlive, htype, ?_⟩
        rw [hpayload, decodePayload_maybeCompressPayload hcodec]
      · obtain ⟨rfl, rfl⟩ := mk.inj (Except.ok.inj heq)
        exact ⟨_, Table.mem_insert.mpr (.inr rfl), rfl, rfl, decodePayload_maybeCompressPayload hcodec v⟩
  · rename_i heq
    split at heq
    · exact ⟨(Except.error.inj heq).symm, ‹_›⟩
    · split at heq <;> cases heq

theorem Filed.hasLive {o o' : SqliteOutbox} (hf : Filed h o)
    (hsha : Injective h.sha256) (hcodec : Lossless h) {type : OutboxEventType} {v : Json}
    {now : Int} {i : Nat} (henqueue : o.enqueue h type v now = .ok (i, o')) : HasLive h o' i type (.json v) := by
  have hspec := hf.enqueue hsha hcodec type v now
  rw [henqueue] at hspec
  exact hspec

theorem step_of_enqueue {o o' : SqliteOutbox} {type : OutboxEventType} {v : Json}
    {now : Int} {i : Nat} (henqueue : o.enqueue h type v now = .ok (i, o')) :
    step h o (.enqueue type v now) = o' := by
  unfold step
  dsimp only
  rw [henqueue]

structure Keeps (h : Host) (lockOwner : Str) (o : SqliteOutbox) : Prop where
  single : ∀ i j row row', (i, row) ∈ o.events.rows → (j, row') ∈ o.events.rows →
    row.status.isLive = true → row'.status.isLive = true → row.type = row'.type →
    row.payloadHash = row'.payloadHash → i = j
  enqueued : ∀ type v now, match o.enqueue h type v now with
    | .ok (i, o') => HasLive h o' i type (.json v) ∧ KeptUntilSettled h lockOwner o' i type (.json v)
    | .error error => error = text "Outbox payload too large (>2MB)" ∧
        maxBytes < byteLength (maybeCompressPayload h v.stringify)
  kept : ∀ i type payload, HasLive h o i type payload → KeptUntilSettled h lockOwner o i type payload
  cleanup : ∀ retentionDays now i row, (i, row) ∈ o.events.rows → row.status.isLive = true →
    (i, row) ∈ (o.cleanup h retentionDays now).events.rows

theorem Filed.keeps (hf : Filed h o)
    (hsha : Injective h.sha256) (hcodec : Lossless h) (lockOwner : Str) :
    Keeps h lockOwner o where
  single := hf.single
  enqueued := fun type v now => by
    have hspec := hf.enqueue hsha hcodec type v now
    split at hspec
    · exact ⟨hspec, hspec.keptUntilSettled lockOwner⟩
    · exact hspec
  kept := fun _ _ _ hlive => hlive.keptUntilSettled lockOwner
  cleanup := fun retentionDays now i row hmem hlive => by
    rcases (evolves_cleanup h o retentionDays now).fate i row hmem with
      ⟨row', hmem', rfl | hchange⟩ | ⟨hgone, -⟩
    · exact hmem'
    · cases hchange <;> cases ‹Event.recovers _›
    · rw [hgone.2] at hlive
      cases hlive

/-- In every run, the outbox keeps what is put in, in every state. -/
theorem always_keeps {h : Host} (hsha : Injective h.sha256) (hcodec : Lossless h)
    (lockOwner : Str) (tr : List Event) : (machine h lockOwner).Always (Keeps h lockOwner) tr :=
  fun pre _ => (filed_run h lockOwner pre).keeps hsha hcodec lockOwner

/-- A host that hashes the text of the empty object as SHA-256 does and writes bytes as units. -/
def sampleHost : Host where
  sha256 := fun bytes =>
    if bytes = [0x7B, 0x7D] then
      text "44136fa355b3678a1146ad16f7e8649e94fb4fc21fe77e8310c060f61caaff8a"
    else 0x78 :: bytes.map UInt8.toUInt16
  gzipSync := some
  gunzipSync := some
  toBase64 := map UInt8.toUInt16
  ofBase64 := map UInt16.toUInt8
  localTime := id
  utc := id

theorem lossless_sampleHost : Lossless sampleHost := by
  refine ⟨fun b gz hgz => hgz.symm, fun b => ?_⟩
  show (b.map UInt8.toUInt16).map UInt16.toUInt8 = b
  simp [comp_def]

theorem injective_sampleHost : Injective sampleHost.sha256 := by
  have hmap : Function.Injective (List.map UInt8.toUInt16) :=
    List.map_injective_iff.mpr fun a b hab => by simpa using congrArg UInt16.toUInt8 hab
  intro a b hab
  simp only [sampleHost] at hab
  split at hab <;> split at hab
  · rename_i ha hb
    exact ha.trans hb.symm
  · exact absurd (cons.inj hab).1 (by decide)
  · exact absurd (cons.inj hab).1 (by decide)
  · exact hmap (cons.inj hab).2

/-- An empty object is put in, leased and sent. -/
theorem always_keeps_sample : (machine sampleHost []).Always (Keeps sampleHost [])
      [.enqueue .factsSnapshot (.obj []) 0, .leaseReady 1 0, .markSent 1 0] :=
  always_keeps injective_sampleHost lossless_sampleHost [] _

end Outbox
