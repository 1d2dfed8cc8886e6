-- SUMMARY: The upgrade of an outbox whose table has no payload hashes yet, and when it goes through.
import Tracenium.Lib.Schema
import Tracenium.Outbox.Keeping

/-!
`initialize` of `src/queue/sqlite-outbox.ts` on a database of an older agent. The script that creates what is missing
has an index on `payload_hash`, and it runs before the column is added.
-/

open Utf16 List Option
open Utf8 hiding next

namespace Outbox.Migration

/-! ## The schema -/

inductive Name
  | outboxEvents
  | agentState
  | idxOutboxStatusNext
  | idxOutboxInflight
  | idxOutboxPayloadHash
  | idxOutboxLockOwner
  deriving DecidableEq

inductive Column
  | id
  | type
  | createdAtUtc
  | payloadJson
  | payloadHash
  | status
  | attempts
  | nextAttemptAtUtc
  | lockedAtUtc
  | lockOwner
  | lastError
  | sentAtUtc
  | key
  | value
  | updatedAtUtc
  deriving DecidableEq

def script : List (Schema.Statement Name Column) :=
  [.createTable .outboxEvents
    [.id, .type, .createdAtUtc, .payloadJson, .payloadHash, .status, .attempts, .nextAttemptAtUtc, .lockedAtUtc,
      .lockOwner, .lastError, .sentAtUtc],
    .createIndex .idxOutboxStatusNext .outboxEvents [.status, .nextAttemptAtUtc],
    .createIndex .idxOutboxInflight .outboxEvents [.status, .lockedAtUtc],
    .createIndex .idxOutboxPayloadHash .outboxEvents [.payloadHash],
    .createTable .agentState [.key, .value, .updatedAtUtc],
    .createIndex .idxOutboxLockOwner .outboxEvents [.lockOwner]]

/-- A row of `outbox_events` whose hash may be missing. -/
structure StoredRow where
  type : OutboxEventType
  createdAtUtc : Int
  payloadJson : Str
  payloadHash : Option Str
  status : OutboxStatus
  attempts : Nat
  nextAttemptAtUtc : Int
  lockedAtUtc : Option Int
  lockOwner : Option Str
  lastError : Option Str
  sentAtUtc : Option Int
  deriving DecidableEq

/-- The schema, and the rows of `outbox_events`. -/
structure Database where
  schema : Schema Name Column
  events : Table StoredRow

/-- There is a table, and it has no hashes. -/
def Database.IsLegacy (db : Database) : Prop := ∃ cols ∈ db.schema.columns .outboxEvents, Column.payloadHash ∉ cols

/-! ## The upgrade -/

section Upgrade

variable (h : Host)

def payloadHashOf (payloadJson : Str) : Str := h.sha256 (encode (maybeDecompressPayload h payloadJson))

/-- `UPDATE outbox_events SET payload_hash=? WHERE id=?`, for the rows that were selected. -/
def backfill : List (Nat × StoredRow) → Table StoredRow → Table StoredRow
  | [], t => t
  | r :: rows, t =>
    backfill rows (t.update (fun r' => r'.1 = r.1) fun row =>
      { row with payloadHash := some (payloadHashOf h r.2.payloadJson) })

/-- `status='IN_FLIGHT' AND locked_at_utc < ? AND lock_owner IS NOT NULL`. -/
def isStale (cutoff : Int) (row : StoredRow) : Bool :=
  row.status = .inFlight && row.lockedAtUtc.any (· < cutoff) && row.lockOwner.isSome

/-- The loop of `recoverStaleInflight`; `none` where a date is out of range. -/
def reclaim (later : Nat → Int × Fin 10) : List (Nat × StoredRow) → Table StoredRow → Option (Table StoredRow)
  | [], t => some t
  | r :: rows, t =>
    let nextAttempts := r.2.attempts + 1
    if nextAttempts ≥ MAX_ATTEMPTS then
      reclaim later rows (t.update (fun r' => r'.1 = r.1) fun row =>
        { row with
          status := .failed
          attempts := nextAttempts
          lockedAtUtc := none
          lockOwner := none
          lastError := some (text "stale inflight exceeded max attempts") })
    else
      match addSecondsIso h (later r.1).1 (computeBackoffSeconds nextAttempts (later r.1).2) with
      | some next =>
        reclaim later rows (t.update (fun r' => r'.1 = r.1) fun row =>
          { row with
            status := .pending
            attempts := nextAttempts
            nextAttemptAtUtc := next
            lockedAtUtc := none
            lockOwner := none })
      | none => none

def recoverStaleInflight (ttlSeconds now : Int) (later : Nat → Int × Fin 10) (t : Table StoredRow) :
    Option (Table StoredRow) :=
  match addSecondsIso h now (-ttlSeconds) with
  | some cutoff => reclaim h later (t.rows.filter fun r => isStale cutoff r.2) t
  | none => none

/-- The columns that the statements of the backfill name, and those of the recovery. -/
def backfillColumns : List Column := [.id, .payloadJson]

def recoveryColumns : List Column :=
  [.id, .status, .attempts, .nextAttemptAtUtc, .lockedAtUtc, .lockOwner, .lastError]

def Database.columns (db : Database) : List Column := (db.schema.columns .outboxEvents).getD []

/-- A statement is prepared only if its columns are there. -/
def ensurePayloadHash (db : Database) : Option Database :=
  if .payloadHash ∈ db.columns then some db
  else if backfillColumns ⊆ db.columns then
    some ⟨db.schema.addColumn .outboxEvents .payloadHash, backfill h db.events.rows db.events⟩
  else none

/-- `initialize`; `none` where it throws. -/
def initializeOutbox (now : Int) (later : Nat → Int × Fin 10) (db : Database) : Option Database :=
  match db.schema.exec script with
  | .error _ => none
  | .ok schema =>
    (ensurePayloadHash h { db with schema := schema }).bind fun db =>
      if recoveryColumns ⊆ db.columns then
        (recoverStaleInflight h 600 now later db.events).map fun events => { db with events := events }
      else none

end Upgrade

/-! ## What an upgrade is to do -/

def StoredRow.hashed (h : Host) (row : StoredRow) : StoredRow :=
  { row with payloadHash := some (payloadHashOf h row.payloadJson) }

/-- It does not throw, and every row gets its hash and is otherwise as it was. -/
def Upgrades (h : Host) (now : Int) (later : Nat → Int × Fin 10) (db : Database) : Prop :=
  ∃ db', initializeOutbox h now later db = some db' ∧
    db'.events.rows = db.events.rows.map fun r => (r.1, r.2.hashed h)

/-- The index on the hashes must be there by name already, on whatever it is; nothing else has a name of the script,
the other columns are there, and no row is stale. -/
structure Upgradable (h : Host) (now : Int) (db : Database) : Prop where
  names : ∀ name ∈ ([.idxOutboxStatusNext, .idxOutboxInflight, .idxOutboxPayloadHash, .idxOutboxLockOwner] : List Name),
    db.schema.columns name = none
  agentState : (db.schema.columns .agentState).isSome = true ∨ .agentState ∉ db.schema.indexes
  payloadHash : .idxOutboxPayloadHash ∈ db.schema.indexes
  columns : backfillColumns ⊆ db.columns ∧ recoveryColumns ⊆ db.columns
  calm : ∃ cutoff ∈ addSecondsIso h now (-600), ∀ r ∈ db.events.rows, isStale cutoff r.2 = false

/-! ## Rows -/

section Rows

variable {h : Host} {t : Table StoredRow}

theorem rows_backfill (rows : List (Nat × StoredRow))
    (hsame : ∀ r ∈ rows, ∀ r' ∈ t.rows, r'.1 = r.1 → r'.2.payloadJson = r.2.payloadJson) :
    (backfill h rows t).rows = t.rows.map fun r => if r.1 ∈ rows.map Prod.fst then (r.1, r.2.hashed h) else r := by
  induction rows generalizing t with
  | nil => simp [backfill]
  | cons r rows ih =>
    rw [backfill, ih]
    · rw [Table.update, List.map_map]
      refine map_congr_left fun r' hr' => ?_
      have hpayload := hsame r mem_cons_self r' hr'
      by_cases hid : r'.1 = r.1
      · simp [hid, StoredRow.hashed, hpayload hid]
      · simp only [Function.comp_apply, hid, decide_false, Bool.false_eq_true, if_false, map_cons, mem_cons, false_or]
    · intro r₀ hr₀ r' hr' hid
      obtain ⟨r'', hr'', rfl⟩ := Table.mem_update.mp hr'
      have hsame := hsame r₀ (mem_cons_of_mem _ hr₀) r'' hr''
      by_cases hp : r''.1 = r.1
      · simp only [hp] at hid ⊢
        exact hsame (hp.trans hid)
      · simp only [hp] at hid ⊢
        exact hsame hid

/-- All rows get their hashes. -/
theorem rows_backfill_self : (backfill h t.rows t).rows = t.rows.map fun r => (r.1, r.2.hashed h) := by
  rw [rows_backfill t.rows]
  · refine map_congr_left fun r hr => ?_
    rw [if_pos (mem_map_of_mem hr)]
  · rintro ⟨i, row⟩ hr ⟨i', row'⟩ hr' rfl
    rw [Table.eq_of_mem hr' hr]

/-- A row that is reclaimed is not in flight any more, and no row becomes so. -/
theorem reclaim_status {later : Nat → Int × Fin 10} {rows : List (Nat × StoredRow)} {t' : Table StoredRow} {i : Nat}
    (h' : reclaim h later rows t = some t')
    (hi : i ∈ rows.map Prod.fst ∨ ∀ r ∈ t.rows, r.1 = i → r.2.status ≠ .inFlight) :
    ∀ r ∈ t'.rows, r.1 = i → r.2.status ≠ .inFlight := by
  induction rows generalizing t with
  | nil =>
    obtain rfl := some.inj h'
    simpa using hi
  | cons r₀ rows ih =>
    -- the update takes the row of `r₀` out of flight
    have hupdate (f : StoredRow → StoredRow) (hf : ∀ row, (f row).status ≠ .inFlight) :
        i ∈ rows.map Prod.fst ∨
          ∀ r ∈ (t.update (fun r => r.1 = r₀.1) f).rows, r.1 = i → r.2.status ≠ .inFlight := by
      rw [map_cons, mem_cons] at hi
      rcases hi with (rfl | hi) | hi
      · right
        intro r hr hid
        obtain ⟨r', hr', rfl⟩ := Table.mem_update.mp hr
        by_cases hp : r'.1 = r₀.1
        · simp only [hp]
          exact hf _
        · simp [hp] at hid
      · exact .inl hi
      · right
        intro r hr hid
        obtain ⟨r', hr', rfl⟩ := Table.mem_update.mp hr
        by_cases hp : r'.1 = r₀.1
        · simp only [hp, decide_true, if_true]
          exact hf _
        · simp only [hp] at hid ⊢
          exact hi r' hr' hid
    simp only [reclaim] at h'
    split at h'
    · exact ih h' (hupdate _ fun row => by simp)
    · split at h'
      · exact ih h' (hupdate _ fun row => by simp)
      · cases h'

theorem hashed_status (h : Host) (row : StoredRow) : (row.hashed h).status = row.status := rfl

theorem isStale_hashed (h : Host) (cutoff : Int) (row : StoredRow) :
    isStale cutoff (row.hashed h) = isStale cutoff row := rfl

/-- The recovery leaves a table with hashes as it is exactly if no row is stale. -/
theorem recover_hashed {now : Int} {later : Nat → Int × Fin 10} (t₀ : Table StoredRow)
    (ht : t.rows = t₀.rows.map fun r => (r.1, r.2.hashed h)) :
    (∃ t', recoverStaleInflight h 600 now later t = some t' ∧ t'.rows = t.rows) ↔
      ∃ cutoff ∈ addSecondsIso h now (-600), ∀ r ∈ t₀.rows, isStale cutoff r.2 = false := by
  cases hcutoff : addSecondsIso h now (-600) with
  | none => simp [recoverStaleInflight, hcutoff]
  | some cutoff =>
    simp only [recoverStaleInflight, hcutoff, mem_some_iff, exists_eq_left']
    constructor
    · rintro ⟨t', hreclaim, hrows⟩ r hr
      by_contra hstale
      rw [Bool.not_eq_false] at hstale
      have hmem : (r.1, r.2.hashed h) ∈ t.rows := ht ▸ mem_map_of_mem hr
      have hlisted : r.1 ∈ (t.rows.filter fun r => isStale cutoff r.2).map Prod.fst :=
        mem_map.mpr ⟨_, mem_filter.mpr ⟨hmem, by rwa [isStale_hashed]⟩, rfl⟩
      have hkept : (r.1, r.2.hashed h) ∈ t'.rows := by rwa [hrows]
      refine reclaim_status hreclaim (.inl hlisted) _ hkept rfl ?_
      simp only [isStale, Bool.and_eq_true, decide_eq_true_eq] at hstale
      exact hstale.1.1
    · intro hcalm
      have hnone : (t.rows.filter fun r => isStale cutoff r.2) = [] := by
        refine filter_eq_nil_iff.mpr fun r hr => ?_
        rw [ht] at hr
        obtain ⟨r', hr', rfl⟩ := mem_map.mp hr
        simp [isStale_hashed, hcalm r' hr']
      exact ⟨t, by rw [hnone, reclaim], rfl⟩

end Rows

/-! ## The script -/

/-- The columns of the other indexes are among those that the recovery needs. -/
theorem goes_script_iff {db : Database} (hlegacy : db.IsLegacy) (hneeded : recoveryColumns ⊆ db.columns) :
    (∀ st ∈ script, db.schema.Goes st) ↔
      (∀ name ∈ ([.idxOutboxStatusNext, .idxOutboxInflight, .idxOutboxPayloadHash, .idxOutboxLockOwner] : List Name),
        db.schema.columns name = none) ∧
      ((db.schema.columns .agentState).isSome ∨ .agentState ∉ db.schema.indexes) ∧
      .idxOutboxPayloadHash ∈ db.schema.indexes := by
  obtain ⟨cols, hcols, hnone⟩ := hlegacy
  have hcols : db.schema.columns .outboxEvents = some cols := hcols
  rw [Database.columns, hcols, getD_some] at hneeded
  have hmem : ∀ c ∈ recoveryColumns, c ∈ cols := fun c hc => hneeded hc
  simp only [recoveryColumns, forall_mem_cons] at hmem
  obtain ⟨-, hstatus, -, hnext, hlocked, howner, -⟩ := hmem
  simp only [script, forall_mem_cons, not_mem_nil, false_implies, implies_true, and_true, Schema.Goes, hcols,
    isSome_some, true_or, true_and, mem_some_iff, exists_eq_left', cons_subset, nil_subset,
    hstatus, hnext, hlocked, howner, hnone, or_true, or_false]
  tauto

theorem nodup_script : (script.map Schema.Statement.name).Nodup := by decide

theorem tables_script {db : Database} (hlegacy : db.IsLegacy) :
    ∀ st ∈ script, ∀ table ∈ st.table?, (db.schema.columns table).isSome := by
  obtain ⟨cols, hcols, -⟩ := hlegacy
  have hcols : db.schema.columns .outboxEvents = some cols := hcols
  simp [script, Schema.Statement.table?, hcols]

/-- With the script through, the hashes are added and stale rows recovered if the columns are there. -/
theorem initializeOutbox_eq {h : Host} {now : Int} {later : Nat → Int × Fin 10} {db : Database}
    (hlegacy : db.IsLegacy) {schema : Schema Name Column} (hexec : db.schema.exec script = .ok schema) :
    initializeOutbox h now later db = if backfillColumns ⊆ db.columns ∧ recoveryColumns ⊆ db.columns then
        (recoverStaleInflight h 600 now later (backfill h db.events.rows db.events)).map fun events =>
          ⟨schema.addColumn .outboxEvents .payloadHash, events⟩ else none := by
  obtain ⟨cols, hcols, hnone⟩ := hlegacy
  have hcols : db.schema.columns .outboxEvents = some cols := hcols
  have hsame : schema.columns .outboxEvents = some cols := by
    rw [Schema.columns_exec (by simp [hcols]) hexec, hcols]
  have hadded : (schema.addColumn .outboxEvents .payloadHash).columns .outboxEvents = some (cols ++ [.payloadHash]) :=
    Schema.columns_addColumn hsame
  -- the new column is none of those that the recovery names
  have hrecovery : recoveryColumns ⊆ cols ++ [Column.payloadHash] ↔ recoveryColumns ⊆ cols := by
    simp [recoveryColumns]
  by_cases hback : backfillColumns ⊆ cols
  · by_cases hneeded : recoveryColumns ⊆ cols
    · simp [initializeOutbox, hexec, ensurePayloadHash, Database.columns, hcols, hsame, hadded, hnone, hback, hrecovery,
        hneeded]
    · simp [initializeOutbox, hexec, ensurePayloadHash, Database.columns, hcols, hsame, hadded, hnone, hback, hrecovery,
        hneeded]
  · simp [initializeOutbox, hexec, ensurePayloadHash, Database.columns, hcols, hsame, hnone, hback]

/-- A table without hashes is upgraded exactly if an index of that name is there already. -/
theorem upgrades_iff_upgradable (h : Host) (now : Int) (later : Nat → Int × Fin 10) (db : Database)
    (hlegacy : db.IsLegacy) : Upgrades h now later db ↔ Upgradable h now db := by
  have hthrough : (∃ schema, db.schema.exec script = .ok schema) ↔ ∀ st ∈ script, db.schema.Goes st :=
    Schema.exec_eq_ok_iff nodup_script (tables_script hlegacy)
  have hrows : (backfill h db.events.rows db.events).rows = db.events.rows.map fun r => (r.1, r.2.hashed h) :=
    rows_backfill_self
  constructor
  · rintro ⟨db', hinit, hdb'⟩
    obtain ⟨schema, hexec⟩ : ∃ schema, db.schema.exec script = .ok schema := by
      cases hexec : db.schema.exec script with
      | error schema => simp [initializeOutbox, hexec] at hinit
      | ok schema => exact ⟨schema, rfl⟩
    rw [initializeOutbox_eq hlegacy hexec] at hinit
    split at hinit
    · rename_i hcolumns
      obtain ⟨events, hrecover, rfl⟩ := map_eq_some_iff.mp hinit
      obtain ⟨hnames, hagent, hindex⟩ := (goes_script_iff hlegacy hcolumns.2).mp (hthrough.mp ⟨schema, hexec⟩)
      exact ⟨hnames, hagent, hindex, hcolumns,
        (recover_hashed db.events hrows).mp ⟨events, hrecover, hdb'.trans hrows.symm⟩⟩
    · cases hinit
  · intro hok
    have hgoes : ∀ st ∈ script, db.schema.Goes st :=
      (goes_script_iff hlegacy hok.columns.2).mpr ⟨hok.names, hok.agentState, hok.payloadHash⟩
    obtain ⟨schema, hexec⟩ := hthrough.mpr hgoes
    obtain ⟨events, hrecover, hsame⟩ : ∃ events,
        recoverStaleInflight h 600 now later (backfill h db.events.rows db.events) = some events ∧
          events.rows = (backfill h db.events.rows db.events).rows :=
      (recover_hashed db.events hrows).mpr hok.calm
    refine ⟨⟨schema.addColumn .outboxEvents .payloadHash, events⟩, ?_, hsame.trans hrows⟩
    rw [initializeOutbox_eq hlegacy hexec, if_pos hok.columns, hrecover]
    rfl
/-! ## An outbox of an older agent -/

def legacyDatabase : Database where
  schema :=
    { tables :=
        [(.outboxEvents,
          [.id, .type, .createdAtUtc, .payloadJson, .status, .attempts, .nextAttemptAtUtc, .lockedAtUtc, .lockOwner,
            .lastError, .sentAtUtc])]
      indexes := [.idxOutboxStatusNext, .idxOutboxInflight] }
  events :=
    Table.empty.insert
      { type := .logBundle
        createdAtUtc := 0
        payloadJson := text "\x7b\x7d"
        payloadHash := none
        status := .pending
        attempts := 0
        nextAttemptAtUtc := 0
        lockedAtUtc := none
        lockOwner := none
        lastError := none
        sentAtUtc := none }

theorem isLegacy_legacyDatabase : legacyDatabase.IsLegacy := ⟨_, rfl, by decide⟩

def indexedDatabase : Database :=
  { legacyDatabase with
    schema := { legacyDatabase.schema with indexes := .idxOutboxPayloadHash :: legacyDatabase.schema.indexes } }

theorem isLegacy_indexedDatabase : indexedDatabase.IsLegacy := ⟨_, rfl, by decide⟩

theorem upgrades_indexedDatabase : Upgrades sampleHost 0 (fun _ => (0, 0)) indexedDatabase :=
  (upgrades_iff_upgradable sampleHost 0 _ _ isLegacy_indexedDatabase).mpr
    ⟨by decide, by decide, by decide, by decide, -600000, by decide, by decide⟩

/-- The script throws at the index on the hashes, on every start. -/
theorem not_upgrades_legacyDatabase :
    legacyDatabase.IsLegacy ∧ ∀ h now later, ¬ Upgrades h now later legacyDatabase := by
  refine ⟨isLegacy_legacyDatabase, ?_⟩
  rintro h now later ⟨db', hinit, -⟩
  have hthrows : initializeOutbox h now later legacyDatabase = none := rfl
  simp [hthrows] at hinit

end Outbox.Migration
