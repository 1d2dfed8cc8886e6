-- SUMMARY: The outbox: a table of events that are queued, leased, retried and settled, and what holds of every row.
import Tracenium.Lib.Machine
import Tracenium.Lib.Table
import Tracenium.Lib.Utf8
import Tracenium.Lib.Json

/-!
`SqliteOutbox` of `src/queue/sqlite-outbox.ts`, statement by statement. A timestamp is the instant
that its ISO text denotes, in milliseconds; the texts that the code compares have one length and
are ordered like their instants. Every operation runs to its end before the next one starts.
-/

open Utf16 List Prod
open Utf8 hiding next

namespace Outbox

inductive OutboxStatus
  | pending
  | inFlight
  | sent
  | failed
  deriving DecidableEq

inductive OutboxEventType
  | factsSnapshot
  | factsDelta
  | jobResult
  | logBundle
  | rcmSessionMeta
  deriving DecidableEq

def MAX_ATTEMPTS : Nat := 20

def COMPRESS_THRESHOLD_BYTES : Nat := 50 * 1024

/-- `status IN ('PENDING','IN_FLIGHT')`. -/
def OutboxStatus.isLive : OutboxStatus → Bool
  | .pending => true
  | .inFlight => true
  | .sent => false
  | .failed => false

structure Row where
  type : OutboxEventType
  createdAtUtc : Int
  payloadJson : Str
  payloadHash : Str
  status : OutboxStatus
  attempts : Nat
  nextAttemptAtUtc : Int
  lockedAtUtc : Option Int
  lockOwner : Option Str
  lastError : Option Str
  sentAtUtc : Option Int
  deriving DecidableEq

/-! ## The host -/

/-- What the outbox gets from its host: SHA-256 in hexadecimal, gzip and base64, and the local time
of an instant and the instant of a local time. -/
structure Host where
  sha256 : List UInt8 → Str
  gzipSync : List UInt8 → Option (List UInt8)
  gunzipSync : List UInt8 → Option (List UInt8)
  toBase64 : List UInt8 → Str
  ofBase64 : Str → List UInt8
  localTime : Int → Int
  utc : Int → Int

/-- The instants that a `Date` can hold; `toISOString` throws for the others. -/
def timeClip (t : Int) : Option Int := if t.natAbs ≤ 8640000000000000 then some t else none

/-- `d.setSeconds(d.getSeconds() + secs)`, on the local time. -/
def addSecondsIso (h : Host) (iso secs : Int) : Option Int :=
  let t := h.localTime iso
  let seconds := t / 1000 % 60
  timeClip (h.utc (t - 1000 * seconds + 1000 * (seconds + secs)))

/-- `jitter` is `Math.floor(Math.random() * 10)`. -/
def computeBackoffSeconds (attempt : Nat) (jitter : Fin 10) : Nat :=
  min 3600 (30 * 2 ^ (attempt - 1)) + jitter

def gzPrefix : Str := ascii ['g', 'z', ':']

def maybeCompressPayload (h : Host) (json : Str) : Str :=
  if byteLength json < COMPRESS_THRESHOLD_BYTES then json
  else
    match h.gzipSync (encode json) with
    | some gz => gzPrefix ++ h.toBase64 gz
    | none => json

def maybeDecompressPayload (h : Host) (value : Str) : Str :=
  if gzPrefix.isPrefixOf value then
    match h.gunzipSync (h.ofBase64 (value.drop 3)) with
    | some buf => decode buf
    | none => value
  else value

/-- What a row's payload is handed out as: the value of its text, or the text if it is no JSON. -/
inductive Payload
  | json (v : Json)
  | text (s : Str)

def decodePayload (h : Host) (payloadJson : Str) : Payload :=
  let decompressed := maybeDecompressPayload h payloadJson
  match Json.parse decompressed with
  | some v => .json v
  | none => .text decompressed

/-! ## Operations -/

/-- The table `outbox_events`, and the owner of the locks that this process takes. -/
structure SqliteOutbox where
  events : Table Row
  lockOwner : Str

namespace SqliteOutbox

def maxBytes : Nat := 2 * 1024 * 1024

/-- The row that `enqueue` inserts. -/
def newRow (type : OutboxEventType) (payloadJson payloadHash : Str) (now : Int) : Row where
  type := type
  createdAtUtc := now
  payloadJson := payloadJson
  payloadHash := payloadHash
  status := .pending
  attempts := 0
  nextAttemptAtUtc := now
  lockedAtUtc := none
  lockOwner := none
  lastError := none
  sentAtUtc := none

/-- `enqueue`, for a payload that `JSON.stringify` writes. -/
def enqueue (h : Host) (o : SqliteOutbox) (type : OutboxEventType) (payload : Json) (now : Int) :
    Except Str (Nat × SqliteOutbox) :=
  let rawJson := payload.stringify
  let hash := h.sha256 (encode rawJson)
  let payloadJson := maybeCompressPayload h rawJson
  if byteLength payloadJson > maxBytes then .error (text "Outbox payload too large (>2MB)")
  else
    match o.events.rows.find? fun r =>
      r.2.payloadHash = hash && r.2.type = type && r.2.status.isLive with
    | some existing => .ok (existing.1, o)
    | none =>
      .ok (o.events.lastId + 1,
        { o with events := o.events.insert (newRow type payloadJson hash now) })

/-- A row that can be leased. -/
def isReady (now : Int) (row : Row) : Bool :=
  row.status = .pending && row.attempts < MAX_ATTEMPTS && row.nextAttemptAtUtc ≤ now

/-- `LIMIT`, where a negative limit is none. -/
def sqlLimit {α : Type*} (limit : Int) (rows : List α) : List α :=
  if limit < 0 then rows else rows.take limit.toNat

structure Leased where
  id : Nat
  row : Row
  payload : Payload

def lease (lockOwner : Str) (now : Int) (row : Row) : Row :=
  { row with status := .inFlight, lockedAtUtc := some now, lockOwner := some lockOwner }

def leaseReady (h : Host) (o : SqliteOutbox) (limit now : Int) : List Leased × SqliteOutbox :=
  if o.events.rows.any fun r => isReady now r.2 then
    let candidates := sqlLimit limit (o.events.rows.filter fun r => isReady now r.2)
    let ids := candidates.map fst
    if ids = [] then ([], o)
    else
      let free : Nat × Row → Bool := fun r =>
        ids.contains r.1 && r.2.status = .pending && r.2.lockOwner.isNone
      if o.events.rows.any free then
        let events := o.events.update free (lease o.lockOwner now)
        let rows := events.rows.filter fun r =>
          ids.contains r.1 && r.2.status = .inFlight && r.2.lockOwner = some o.lockOwner
        (rows.map fun r => ⟨r.1, r.2, decodePayload h r.2.payloadJson⟩, { o with events := events })
      else ([], o)
  else ([], o)

/-- `id=? AND status IN ('PENDING','IN_FLIGHT')`. -/
def isLiveRow (id : Nat) (r : Nat × Row) : Bool := r.1 = id && r.2.status.isLive

def deliver (now : Int) (row : Row) : Row :=
  { row with
    status := .sent
    sentAtUtc := some now
    lockedAtUtc := none
    lockOwner := none
    lastError := none }

def markSent (o : SqliteOutbox) (id : Nat) (now : Int) : SqliteOutbox :=
  { o with events := o.events.update (isLiveRow id) (deliver now) }

def exhaust (attempts : Nat) (lastError : Str) (row : Row) : Row :=
  { row with
    status := .failed
    attempts := attempts
    lockedAtUtc := none
    lockOwner := none
    lastError := some lastError }

/-- The row waits for its next attempt. -/
def retry (attempts : Nat) (next : Int) (lastError : Option Str) (row : Row) : Row :=
  { row with
    status := .pending
    attempts := attempts
    nextAttemptAtUtc := next
    lockedAtUtc := none
    lockOwner := none
    lastError := lastError }

/-- `UPDATE … WHERE id=?`. -/
def setRow (o : SqliteOutbox) (id : Nat) (f : Row → Row) : SqliteOutbox :=
  { o with events := o.events.update (fun r => r.1 = id) f }

def markFailed (h : Host) (o : SqliteOutbox) (id : Nat) (error : Str) (now : Int)
    (jitter : Fin 10) : SqliteOutbox :=
  match o.events.rows.find? (isLiveRow id) with
  | none => o
  | some row =>
    let attempts := row.2.attempts + 1
    if attempts ≥ MAX_ATTEMPTS then o.setRow id (exhaust attempts (error.take 2000))
    else
      match addSecondsIso h now (computeBackoffSeconds attempts jitter) with
      | some next => o.setRow id (retry attempts next (some (error.take 2000)))
      | none => o

def reject (error : Str) (row : Row) : Row :=
  { row with
    status := .failed
    lockedAtUtc := none
    lockOwner := none
    lastError := some (error.take 2000) }

def markRejected (o : SqliteOutbox) (id : Nat) (error : Str) : SqliteOutbox :=
  { o with events := o.events.update (isLiveRow id) (reject error) }

/-- The loop over the stale rows. The clock is read and the jitter drawn for each row. -/
def reclaim (h : Host) (later : Nat → Int × Fin 10) : List (Nat × Row) → SqliteOutbox → SqliteOutbox
  | [], o => o
  | r :: rows, o =>
    let nextAttempts := r.2.attempts + 1
    if nextAttempts ≥ MAX_ATTEMPTS then
      reclaim h later rows
        (o.setRow r.1 (exhaust nextAttempts (text "stale inflight exceeded max attempts")))
    else
      match addSecondsIso h (later r.1).1 (computeBackoffSeconds nextAttempts (later r.1).2) with
      | some next =>
        reclaim h later rows
          (o.setRow r.1 fun row => retry nextAttempts next row.lastError row)
      | none => o

/-- `status='IN_FLIGHT' AND locked_at_utc < ? AND lock_owner IS NOT NULL`. -/
def isStale (cutoff : Int) (row : Row) : Bool :=
  row.status = .inFlight && row.lockedAtUtc.any (· < cutoff) && row.lockOwner.isSome

def recoverStaleInflight (h : Host) (o : SqliteOutbox) (ttlSeconds now : Int)
    (later : Nat → Int × Fin 10) : SqliteOutbox :=
  match addSecondsIso h now (-ttlSeconds) with
  | some cutoff => reclaim h later (o.events.rows.filter fun r => isStale cutoff r.2) o
  | none => o

def isExpired (cutoff : Int) (row : Row) : Bool :=
  row.status = .sent && row.sentAtUtc.any (· < cutoff) || row.status = .failed && row.createdAtUtc < cutoff

def cleanup (h : Host) (o : SqliteOutbox) (retentionDays now : Int) : SqliteOutbox :=
  match addSecondsIso h now (-(retentionDays * 86400)) with
  | some cutoff => { o with events := o.events.delete fun r => isExpired cutoff r.2 }
  | none => o

def getNextReadyDelayMs (o : SqliteOutbox) (now : Int) : Option Int :=
  let waiting := o.events.rows.filter fun r =>
    r.2.status = .pending && r.2.attempts < MAX_ATTEMPTS
  ((waiting.map fun r => r.2.nextAttemptAtUtc).min?).map fun next => max 0 (next - now)

/-- The process starts again, and `initialize` runs on the table that is there. -/
def restart (h : Host) (o : SqliteOutbox) (lockOwner : Str) (now : Int)
    (later : Nat → Int × Fin 10) : SqliteOutbox :=
  { o with lockOwner := lockOwner }.recoverStaleInflight h 600 now later

end SqliteOutbox

/-! ## Runs -/

inductive Event
  | enqueue (type : OutboxEventType) (payload : Json) (now : Int)
  | leaseReady (limit now : Int)
  | markSent (id : Nat) (now : Int)
  | markFailed (id : Nat) (error : Str) (now : Int) (jitter : Fin 10)
  | markRejected (id : Nat) (error : Str)
  | recoverStaleInflight (ttlSeconds now : Int) (later : Nat → Int × Fin 10)
  | cleanup (retentionDays now : Int)
  | restart (lockOwner : Str) (now : Int) (later : Nat → Int × Fin 10)

def step (h : Host) (o : SqliteOutbox) : Event → SqliteOutbox
  | .enqueue type payload now =>
    match o.enqueue h type payload now with
    | .ok (_, o') => o'
    | .error _ => o
  | .leaseReady limit now => (o.leaseReady h limit now).2
  | .markSent id now => o.markSent id now
  | .markFailed id error now jitter => o.markFailed h id error now jitter
  | .markRejected id error => o.markRejected id error
  | .recoverStaleInflight ttlSeconds now later => o.recoverStaleInflight h ttlSeconds now later
  | .cleanup retentionDays now => o.cleanup h retentionDays now
  | .restart lockOwner now later => o.restart h lockOwner now later

def machine (h : Host) (lockOwner : Str) : Machine SqliteOutbox Event where
  init := ⟨.empty, lockOwner⟩
  step := step h

end Outbox

/-! # Rows of the outbox -/

namespace Outbox

open SqliteOutbox

/-! ## Changes -/

/-- The events that take rows back from a process that went away with them. -/
def Event.recovers : Event → Bool
  | .recoverStaleInflight _ _ _ => true
  | .restart _ _ _ => true
  | _ => false

/-- How an event changes the row `row` under the id `i`. -/
inductive Change : Event → Nat → Row → Row → Prop
  | lease {limit now : Int} {lockOwner : Str} {i : Nat} {row : Row} (h : isReady now row = true) :
      Change (.leaseReady limit now) i row (lease lockOwner now row)
  | deliver {now : Int} {i : Nat} {row : Row} (h : row.status.isLive = true) :
      Change (.markSent i now) i row (deliver now row)
  | reject {error : Str} {i : Nat} {row : Row} (h : row.status.isLive = true) :
      Change (.markRejected i error) i row (reject error row)
  | fail {error : Str} {now : Int} {jitter : Fin 10} {i : Nat} {row : Row}
      (h : row.status.isLive = true) (hmax : MAX_ATTEMPTS ≤ row.attempts + 1) :
      Change (.markFailed i error now jitter) i row
        (exhaust (row.attempts + 1) (error.take 2000) row)
  | retry {error : Str} {now next : Int} {jitter : Fin 10} {i : Nat} {row : Row}
      (h : row.status.isLive = true) (hmax : row.attempts + 1 < MAX_ATTEMPTS) :
      Change (.markFailed i error now jitter) i row
        (retry (row.attempts + 1) next (some (error.take 2000)) row)
  | expire {e : Event} {i : Nat} {row : Row} (he : e.recovers = true)
      (h : row.status = .inFlight) (hmax : MAX_ATTEMPTS ≤ row.attempts + 1) :
      Change e i row
        (exhaust (row.attempts + 1) (text "stale inflight exceeded max attempts") row)
  | reclaim {e : Event} {next : Int} {i : Nat} {row : Row} (he : e.recovers = true)
      (h : row.status = .inFlight) (hmax : row.attempts + 1 < MAX_ATTEMPTS) :
      Change e i row (retry (row.attempts + 1) next row.lastError row)

def Inserted (h : Host) (o : SqliteOutbox) (e : Event) (i : Nat) (row : Row) : Prop :=
  i = o.events.lastId + 1 ∧ ∃ type payload now, e = .enqueue type payload now ∧
    row = newRow type (maybeCompressPayload h payload.stringify)
      (h.sha256 (encode payload.stringify)) now ∧
    ∀ r ∈ o.events.rows, r.2.status.isLive = true → r.2.type = row.type → r.2.payloadHash ≠ row.payloadHash

def Deleted (e : Event) (_ : Nat) (row : Row) : Prop :=
  (∃ retentionDays now, e = .cleanup retentionDays now) ∧ row.status.isLive = false

theorem Change.isLive {e : Event} {i : Nat} {row row' : Row} (h : Change e i row row') :
    row.status.isLive := by
  cases h with
  | lease h =>
    simp only [isReady, Bool.and_eq_true, decide_eq_true_eq] at h
    rw [h.1.1]
    rfl
  | deliver h => exact h
  | reject h => exact h
  | fail h => exact h
  | retry h => exact h
  | expire _ h => rw [h]; rfl
  | reclaim _ h => rw [h]; rfl

/-- What a change leaves as it is. -/
theorem Change.same {e : Event} {i : Nat} {row row' : Row} (h : Change e i row row') :
    row'.type = row.type ∧ row'.payloadJson = row.payloadJson ∧ row'.payloadHash = row.payloadHash := by
  cases h <;> exact ⟨rfl, rfl, rfl⟩

/-! ## Operations -/

section Operations

variable (h : Host) (o : SqliteOutbox)

/-- The tables of the outbox evolve by these changes. -/
abbrev Evolves (e : Event) (t t' : Table Row) : Prop :=
  Table.Evolves (Change e) (Inserted h o e) (Deleted e) t t'

/-- What is put in is refused for its size only. -/
theorem enqueue_size (type : OutboxEventType) (payload : Json) (now : Int) :
    match o.enqueue h type payload now with
    | .ok _ => byteLength (maybeCompressPayload h payload.stringify) ≤ maxBytes
    | .error _ => maxBytes < byteLength (maybeCompressPayload h payload.stringify) := by
  by_cases hsize : byteLength (maybeCompressPayload h payload.stringify) > maxBytes
  · rw [enqueue, if_pos hsize]
    exact hsize
  · rw [enqueue, if_neg hsize]
    cases o.events.rows.find? _ <;> exact Nat.le_of_not_gt hsize

theorem evolves_enqueue (type : OutboxEventType) (payload : Json) (now : Int) :
    Evolves h o (.enqueue type payload now) o.events (step h o (.enqueue type payload now)).events := by
  rw [step, enqueue]
  split
  · rename_i heq
    split at heq
    · cases heq
    · split at heq
      · obtain ⟨-, rfl⟩ := mk.inj (Except.ok.inj heq)
        exact Table.Evolves.refl _
      · rename_i hnone
        obtain ⟨-, rfl⟩ := mk.inj (Except.ok.inj heq)
        refine Table.evolves_insert ⟨rfl, type, payload, now, rfl, rfl, fun r hr hlive htype hhash => ?_⟩
        have hfound := find?_eq_none.mp hnone r hr
        simp only [newRow] at htype hhash
        simp [hlive, htype, hhash] at hfound
  · exact Table.Evolves.refl _

theorem mem_sqlLimit {α : Type*} {limit : Int} {rows : List α} {r : α} (hr : r ∈ sqlLimit limit rows) : r ∈ rows := by
  unfold sqlLimit at hr
  split at hr
  · exact hr
  · exact mem_of_mem_take hr

theorem evolves_leaseReady (limit now : Int) :
    Evolves h o (.leaseReady limit now) o.events (step h o (.leaseReady limit now)).events := by
  rw [step, leaseReady]
  split
  · dsimp only
    split
    · exact Table.Evolves.refl _
    · split
      · refine Table.evolves_update fun i row hmem hfree => .lease ?_
        simp only [Bool.and_eq_true, contains_iff_mem] at hfree
        obtain ⟨⟨j, row'⟩, hr, rfl⟩ := mem_map.mp hfree.1.1
        obtain ⟨hmem', hready⟩ := mem_filter.mp (mem_sqlLimit hr)
        rw [Table.eq_of_mem hmem hmem']
        exact hready
      · exact Table.Evolves.refl _
  · exact Table.Evolves.refl _

theorem isLiveRow_iff {id i : Nat} {row : Row} :
    isLiveRow id (i, row) ↔ i = id ∧ row.status.isLive := by
  simp [isLiveRow]

theorem evolves_markSent (id : Nat) (now : Int) :
    Evolves h o (.markSent id now) o.events (step h o (.markSent id now)).events := by
  refine Table.evolves_update fun i row _ hlive => ?_
  obtain ⟨rfl, hrow⟩ := isLiveRow_iff.mp hlive
  exact .deliver hrow

theorem evolves_markRejected (id : Nat) (error : Str) :
    Evolves h o (.markRejected id error) o.events (step h o (.markRejected id error)).events := by
  refine Table.evolves_update fun i row _ hlive => ?_
  obtain ⟨rfl, hrow⟩ := isLiveRow_iff.mp hlive
  exact .reject hrow

theorem evolves_setRow {e : Event} {i : Nat} {row : Row} (hmem : (i, row) ∈ o.events.rows)
    {f : Row → Row} (hf : Change e i row (f row)) {N D : Nat → Row → Prop} :
    Table.Evolves (Change e) N D o.events (o.setRow i f).events := by
  refine Table.evolves_update fun j row' hmem' hj => ?_
  obtain rfl : j = i := of_decide_eq_true hj
  rw [Table.eq_of_mem hmem' hmem]
  exact hf

theorem evolves_markFailed (id : Nat) (error : Str) (now : Int) (jitter : Fin 10) :
    Evolves h o (.markFailed id error now jitter) o.events (step h o (.markFailed id error now jitter)).events := by
  rw [step, markFailed]
  split
  · exact Table.Evolves.refl _
  · rename_i r hfind
    obtain ⟨i, row⟩ := r
    have hmem := mem_of_find?_eq_some hfind
    obtain ⟨rfl, hlive⟩ := isLiveRow_iff.mp (find?_some hfind)
    dsimp only
    split
    · exact evolves_setRow o hmem (.fail hlive ‹_›)
    · split
      · exact evolves_setRow o hmem (.retry hlive (Nat.lt_of_not_le ‹_›))
      · exact Table.Evolves.refl _

/-- The rows that were selected as stale are reclaimed one after another. -/
theorem evolves_reclaimLoop {e : Event} (he : e.recovers) (later : Nat → Int × Fin 10)
    (rows : List (Nat × Row)) (hrows : ∀ r ∈ rows, r ∈ o.events.rows ∧ r.2.status = .inFlight)
    (hids : (rows.map fst).Nodup) : Table.Evolves (Change e) (fun _ _ => False) (fun _ _ => False) o.events
      (reclaim h later rows o).events := by
  induction rows generalizing o with
  | nil => exact Table.Evolves.refl _
  | cons r rows ih =>
    obtain ⟨i, row⟩ := r
    obtain ⟨⟨hmem, hflight⟩, hrest⟩ := forall_mem_cons.mp hrows
    obtain ⟨hi, hids⟩ := nodup_cons.mp hids
    have hnext (f : Row → Row) (hf : Change e i row (f row)) :
        Table.Evolves (Change e) (fun _ _ => False) (fun _ _ => False) o.events
          (reclaim h later rows (o.setRow i f)).events := by
      have hset : ∀ r ∈ rows, r ∈ (o.setRow i f).events.rows ∧ r.2.status = .inFlight := by
        intro r hr
        refine ⟨Table.mem_update_of_not (hrest r hr).1 (decide_eq_false ?_), (hrest r hr).2⟩
        rintro rfl
        exact hi (mem_map.mpr ⟨r, hr, rfl⟩)
      refine (evolves_setRow o hmem hf).trans (ih (o.setRow i f) hset hids) ?_ fun _ _ _ h _ => h
      -- a row that was reclaimed is not in flight
      intro j u v w huv hvw
      have hv : v.status ≠ .inFlight := by
        cases huv <;> first | cases he | exact nofun
      cases hvw <;> first | cases he | exact absurd ‹_› hv
    rw [reclaim]
    split
    · exact hnext _ (.expire he hflight ‹_›)
    · split
      · exact hnext _ (.reclaim he hflight (Nat.lt_of_not_le ‹_›))
      · exact Table.Evolves.refl _

theorem evolves_recoverStaleInflight {e : Event} (he : e.recovers) (ttlSeconds now : Int)
    (later : Nat → Int × Fin 10) (h' : Host) (o' : SqliteOutbox) :
    Evolves h' o' e o.events (o.recoverStaleInflight h ttlSeconds now later).events := by
  rw [recoverStaleInflight]
  split
  · rename_i cutoff _
    have hrows : ∀ r ∈ o.events.rows.filter (fun r => isStale cutoff r.2),
        r ∈ o.events.rows ∧ r.2.status = .inFlight := by
      intro r hr
      obtain ⟨hmem, hstale⟩ := mem_filter.mp hr
      simp only [isStale, Bool.and_eq_true, decide_eq_true_eq] at hstale
      exact ⟨hmem, hstale.1.1⟩
    have hids : ((o.events.rows.filter fun r => isStale cutoff r.2).map fst).Nodup :=
      (o.events.sorted.imp Nat.ne_of_lt).sublist (filter_sublist.map fst)
    exact (evolves_reclaimLoop h o he later _ hrows hids).mono (fun _ _ _ => id)
      (fun _ _ => False.elim) fun _ _ => False.elim
  · exact Table.Evolves.refl _

theorem evolves_cleanup (retentionDays now : Int) : Evolves h o (.cleanup retentionDays now) o.events
      (step h o (.cleanup retentionDays now)).events := by
  rw [step, cleanup]
  split
  · refine Table.evolves_delete fun i row _ hexpired => ⟨⟨retentionDays, now, rfl⟩, ?_⟩
    simp only [isExpired, Bool.or_eq_true, Bool.and_eq_true, decide_eq_true_eq] at hexpired
    rcases hexpired with ⟨hstatus, -⟩ | ⟨hstatus, -⟩
    · rw [hstatus]
      rfl
    · rw [hstatus]
      rfl
  · exact Table.Evolves.refl _

/-- Every step changes, inserts and deletes rows as its event may. -/
theorem evolves_step (e : Event) : Evolves h o e o.events (step h o e).events := by
  cases e with
  | enqueue type payload now => exact evolves_enqueue h o type payload now
  | leaseReady limit now => exact evolves_leaseReady h o limit now
  | markSent id now => exact evolves_markSent h o id now
  | markFailed id error now jitter => exact evolves_markFailed h o id error now jitter
  | markRejected id error => exact evolves_markRejected h o id error
  | recoverStaleInflight ttlSeconds now later =>
    exact evolves_recoverStaleInflight h o rfl ttlSeconds now later h o
  | cleanup retentionDays now => exact evolves_cleanup h o retentionDays now
  | restart lockOwner now later =>
    exact evolves_recoverStaleInflight h { o with lockOwner := lockOwner } rfl 600 now later h o

end Operations

end Outbox
