-- SUMMARY: The sender loop over the outbox, and how many rows this process has in flight.
import Tracenium.Lib.JsonObject
import Tracenium.Outbox.Keeping
import Mathlib.Data.List.Perm.Subperm

/-!
`armRetryTimer`, `drainOnce` and `requestDrain` of `startGrpcStream`. `drainOnce` runs to its end
before anything else does, so while it is under way only its own steps are taken, and the requests
for another drain that its changes to the outbox bring about.
-/

open Utf16 List Bool Prod

namespace Outbox

open SqliteOutbox

namespace Sender

def MAX_IN_FLIGHT : Nat := 3

/-- `batch` is what is left of the rows that the drain under way leased, and `writes` the rows that
were written to the stream. -/
structure Loop where
  outbox : SqliteOutbox
  stopped : Bool
  isConnected : Bool
  rotationInProgress : Bool
  drainScheduled : Bool
  retryTimer : Bool
  draining : Bool
  batch : List Leased
  writes : List Nat

/-- What `JSON.parse` or `stream.write` throws, if anything, and what `markFailed` needs. -/
structure Sending where
  error : Option Str
  now : Int
  jitter : Fin 10

inductive Event
  | start (now : Int) (later : Nat → Int × Fin 10)
  | stop
  | connection (up : Bool)
  | rotation (inProgress : Bool)
  | outbox (e : Outbox.Event)
  | requestDrain
  | retryTimer
  | drainOnce (now : Int)
  | send (o : Sending)
  | finish (now : Int)

def typeName : OutboxEventType → Str
  | .factsSnapshot => text "FACTS_SNAPSHOT"
  | .factsDelta => text "FACTS_DELTA"
  | .jobResult => text "JOB_RESULT"
  | .logBundle => text "LOG_BUNDLE"
  | .rcmSessionMeta => text "RCM_SESSION_META"

def isSent : OutboxEventType → Bool
  | .factsSnapshot => true
  | .factsDelta => true
  | _ => false

/-- `!ev.payload_json`. -/
def isEmptyPayload : Payload → Bool
  | .json v => !v.isTruthy
  | .text s => s = []

/-- The other users of the outbox put rows in, settle them, take stale ones back and clean up. -/
def isForeign : Outbox.Event → Bool
  | .leaseReady _ _ => false
  | .restart _ _ _ => false
  | _ => true

def requestDrain (s : Loop) : Loop :=
  if s.stopped || s.drainScheduled then s else { s with drainScheduled := true }

def armRetryTimer (s : Loop) (now : Int) : Loop :=
  if s.stopped || (s.outbox.getNextReadyDelayMs now).isNone then s else { s with retryTimer := true }

/-- `drainOnce`, up to its loop. -/
def drainOnce (h : Host) (s : Loop) (now : Int) : Loop :=
  let s := { s with drainScheduled := false }
  if s.stopped then s
  else if s.rotationInProgress || !s.isConnected then armRetryTimer s now
  else
    let leased := s.outbox.leaseReady h MAX_IN_FLIGHT now
    let s := { s with draining := true, outbox := leased.2, batch := leased.1 }
    if leased.1.isEmpty then armRetryTimer s now else s

def send (h : Host) (s : Loop) (ev : Leased) (o : Sending) : Loop :=
  let fail (error : Str) : Loop :=
    { s with outbox := s.outbox.markFailed h ev.id error o.now o.jitter }
  if isEmptyPayload ev.payload then fail (text "Empty payload_json")
  else if isSent ev.row.type then
    match o.error with
    | none => { s with writes := s.writes ++ [ev.id] }
    | some error => fail (if error = [] then text "facts.send failed" else error)
  else fail (text "Unsupported event type: " ++ typeName ev.row.type)

/-- The `finally`. -/
def finish (s : Loop) (now : Int) : Loop :=
  let s := { s with draining := false }
  if s.outbox.getNextReadyDelayMs now = some 0 then requestDrain s else armRetryTimer s now

/-- A stream is opened: the loop has new variables, and rows that are in flight for a minute are
taken back. -/
def start (h : Host) (s : Loop) (now : Int) (later : Nat → Int × Fin 10) : Loop where
  outbox := s.outbox.recoverStaleInflight h 60 now later
  stopped := false
  isConnected := s.isConnected
  rotationInProgress := false
  drainScheduled := false
  retryTimer := false
  draining := false
  batch := []
  writes := s.writes

def step (h : Host) (s : Loop) : Event → Loop
  | .requestDrain => requestDrain s
  | .send o =>
    match s.draining, s.batch with
    | true, ev :: batch => send h { s with batch := batch } ev o
    | _, _ => s
  | .finish now => if s.draining && s.batch.isEmpty then finish s now else s
  | .drainOnce now => if s.drainScheduled && !s.draining then drainOnce h s now else s
  | .retryTimer =>
    if s.retryTimer && !s.draining then requestDrain { s with retryTimer := false } else s
  | .outbox e =>
    if isForeign e && !s.draining then { s with outbox := Outbox.step h s.outbox e } else s
  | .start now later => if s.stopped && !s.draining then start h s now later else s
  | .stop =>
    if s.draining then s
    else { s with stopped := true, rotationInProgress := false, retryTimer := false }
  | .connection up => if s.draining then s else { s with isConnected := up }
  | .rotation inProgress => if s.draining then s else { s with rotationInProgress := inProgress }

/-- The rows in flight that this process leased. -/
def inFlight (o : SqliteOutbox) : List (Nat × Row) :=
  o.events.rows.filter fun r => r.2.status = .inFlight && r.2.lockOwner = some o.lockOwner

/-- An outbox as a process opens it: none of its rows was leased by this process. -/
structure Opened where
  outbox : SqliteOutbox
  sound : Sound outbox
  unowned : inFlight outbox = []

def machine (h : Host) (opened : Opened) : Machine Loop Event where
  init := ⟨opened.outbox, true, false, false, false, false, false, [], []⟩
  step := step h

/-! ## The bound -/

def Bounded (s : Loop) : Prop := (inFlight s.outbox).length ≤ MAX_IN_FLIGHT

/-- The loop gets as far as to lease. -/
def leases (s : Loop) : Bool :=
  s.drainScheduled && !s.draining && !s.stopped && !s.rotationInProgress && s.isConnected

/-- A drain has room for the rows that it leases beside those that are in flight. -/
def HasRoom (s : Loop) : Event → Prop
  | .drainOnce now => leases s = true →
      (inFlight s.outbox).length + min MAX_IN_FLIGHT (ready s.outbox now).length ≤ MAX_IN_FLIGHT
  | _ => True

end Sender

end Outbox

/-!
# Rows in flight

A drain leases up to `MAX_IN_FLIGHT` rows whatever is in flight already.
-/

namespace Outbox

open SqliteOutbox

/-! ## The owner of the locks -/

theorem lockOwner_setRow (o : SqliteOutbox) (id : Nat) (f : Row → Row) :
    (o.setRow id f).lockOwner = o.lockOwner := rfl

theorem lockOwner_markFailed (h : Host) (o : SqliteOutbox) (id : Nat) (error : Str) (now : Int)
    (jitter : Fin 10) : (o.markFailed h id error now jitter).lockOwner = o.lockOwner := by
  rw [markFailed]
  split
  · rfl
  · dsimp only
    split
    · rfl
    · split <;> rfl

theorem lockOwner_reclaim (h : Host) (later : Nat → Int × Fin 10) (rows : List (Nat × Row))
    (o : SqliteOutbox) : (reclaim h later rows o).lockOwner = o.lockOwner := by
  induction rows generalizing o with
  | nil => rfl
  | cons r rows ih =>
    rw [reclaim]
    split
    · rw [ih, lockOwner_setRow]
    · split
      · rw [ih, lockOwner_setRow]
      · rfl

theorem lockOwner_recoverStaleInflight (h : Host) (o : SqliteOutbox) (ttlSeconds now : Int)
    (later : Nat → Int × Fin 10) : (o.recoverStaleInflight h ttlSeconds now later).lockOwner = o.lockOwner := by
  rw [recoverStaleInflight]
  split
  · exact lockOwner_reclaim _ _ _ _
  · rfl

theorem lockOwner_leaseReady (h : Host) (o : SqliteOutbox) (limit now : Int) :
    (o.leaseReady h limit now).2.lockOwner = o.lockOwner := by
  rw [SqliteOutbox.leaseReady]
  split
  · dsimp only
    split
    · rfl
    · split <;> rfl
  · rfl

theorem lockOwner_enqueue {h : Host} {o o' : SqliteOutbox} {type : OutboxEventType}
    {payload : Json} {now : Int} {id : Nat} (henqueue : o.enqueue h type payload now = .ok (id, o')) :
    o'.lockOwner = o.lockOwner := by
  simp only [enqueue] at henqueue
  split at henqueue
  · cases henqueue
  · split at henqueue
    · obtain ⟨-, rfl⟩ := mk.inj (Except.ok.inj henqueue)
      rfl
    · obtain ⟨-, rfl⟩ := mk.inj (Except.ok.inj henqueue)
      rfl

namespace Sender

theorem lockOwner_foreign (h : Host) (o : SqliteOutbox) {e : Outbox.Event}
    (he : isForeign e) : (Outbox.step h o e).lockOwner = o.lockOwner := by
  cases e with
  | enqueue type payload now =>
    rw [Outbox.step]
    split
    · rename_i henqueue
      exact lockOwner_enqueue henqueue
    · rfl
  | leaseReady limit now => cases he
  | markSent id now => rfl
  | markFailed id error now jitter => exact lockOwner_markFailed h o id error now jitter
  | markRejected id error => rfl
  | recoverStaleInflight ttlSeconds now later =>
    exact lockOwner_recoverStaleInflight h o ttlSeconds now later
  | cleanup retentionDays now =>
    rw [Outbox.step, cleanup]
    split <;> rfl
  | restart lockOwner now later => cases he

/-! ## What puts rows in flight -/

theorem mem_inFlight {o : SqliteOutbox} {r : Nat × Row} :
    r ∈ inFlight o ↔ r ∈ o.events.rows ∧ r.2.status = .inFlight ∧ r.2.lockOwner = some o.lockOwner := by
  rw [inFlight, mem_filter, and_eq_true, decide_eq_true_eq, decide_eq_true_eq]

/-- A change that is not a lease takes a row out of flight. -/
theorem status_of_change {e : Outbox.Event} (he : isForeign e) {i : Nat} {row row' : Row}
    (hchange : Change e i row row') : row'.status ≠ .inFlight := by
  cases hchange with
  | lease => cases he
  | deliver => exact OutboxStatus.noConfusion
  | reject => exact OutboxStatus.noConfusion
  | fail => exact OutboxStatus.noConfusion
  | retry => exact OutboxStatus.noConfusion
  | expire => exact OutboxStatus.noConfusion
  | reclaim => exact OutboxStatus.noConfusion

/-- The other users of the outbox put nothing in flight. -/
theorem inFlight_foreign (h : Host) (o : SqliteOutbox) {e : Outbox.Event}
    (he : isForeign e) : inFlight (Outbox.step h o e) ⊆ inFlight o := by
  rintro ⟨i, row⟩ hr
  obtain ⟨hmem, hstatus, howner⟩ := mem_inFlight.mp hr
  rw [lockOwner_foreign h o he] at howner
  rcases (evolves_step h o e).origin i row hmem with ⟨u, hu, rfl | hchange⟩ | ⟨-, hnew⟩
  · exact mem_inFlight.mpr ⟨hu, hstatus, howner⟩
  · exact absurd hstatus (status_of_change he hchange)
  · obtain ⟨-, type, payload, now, -, rfl, -⟩ := hnew
    cases hstatus

theorem nodup_inFlight (o : SqliteOutbox) : (inFlight o).Nodup := o.events.nodup.filter _

theorem length_inFlight_foreign (h : Host) (o : SqliteOutbox) {e : Outbox.Event}
    (he : isForeign e) : (inFlight (Outbox.step h o e)).length ≤ (inFlight o).length :=
  ((nodup_inFlight _).subperm (inFlight_foreign h o he)).length_le

/-- A lease puts the leased rows in flight, and no others. -/
theorem mem_inFlight_leaseReady (h : Host) {o : SqliteOutbox} (hs : Sound o) {limit : Int}
    (hlimit : 1 ≤ limit) (now : Int) {r : Nat × Row} : r ∈ inFlight (o.leaseReady h limit now).2 ↔
      r ∈ inFlight o ++ ((ready o now).take limit.toNat).map fun r => (r.1, lease o.lockOwner now r.2) := by
  obtain ⟨-, hrows⟩ := hs.leaseReady h hlimit now
  have hleased : ∀ r ∈ (ready o now).take limit.toNat, r ∈ o.events.rows ∧
      r.2.status = .pending := by
    intro r hr
    obtain ⟨hmem, hready⟩ := mem_filter.mp (mem_of_mem_take hr)
    simp only [isReady, and_eq_true, decide_eq_true_eq] at hready
    exact ⟨hmem, hready.1.1⟩
  rw [mem_inFlight, hrows, lockOwner_leaseReady, mem_append, mem_inFlight, leaseRows]
  constructor
  · rintro ⟨hr, hstatus, howner⟩
    obtain ⟨r', hr', rfl⟩ := mem_map.mp hr
    split at hstatus
    · rename_i hmem
      rw [if_pos hmem]
      exact .inr (mem_map_of_mem hmem)
    · rename_i hmem
      rw [if_neg hmem] at howner ⊢
      exact .inl ⟨hr', hstatus, howner⟩
  · rintro (⟨hr, hstatus, howner⟩ | hr)
    · have hmem : r ∉ (ready o now).take limit.toNat := by
        intro hmem
        rw [(hleased r hmem).2] at hstatus
        cases hstatus
      exact ⟨mem_map.mpr ⟨r, hr, if_neg hmem⟩, hstatus, howner⟩
    · obtain ⟨r', hr', rfl⟩ := mem_map.mp hr
      exact ⟨mem_map.mpr ⟨r', (hleased r' hr').1, if_pos hr'⟩, rfl, rfl⟩

theorem length_inFlight_leaseReady (h : Host) {o : SqliteOutbox} (hs : Sound o) {limit : Int}
    (hlimit : 1 ≤ limit) (now : Int) : (inFlight (o.leaseReady h limit now).2).length =
      (inFlight o).length + min limit.toNat (ready o now).length := by
  have hnodup : (inFlight o ++ ((ready o now).take limit.toNat).map fun r =>
      (r.1, lease o.lockOwner now r.2)).Nodup := by
    refine nodup_append.mpr ⟨nodup_inFlight o, Nodup.of_map fst ?_, ?_⟩
    · rw [List.map_map]
      have hids : (o.events.rows.map fst).Nodup := o.events.sorted.imp Nat.ne_of_lt
      exact hids.sublist (((take_sublist _ _).trans filter_sublist).map fst)
    · rintro ⟨i, row⟩ ha b hb rfl
      obtain ⟨⟨j, row'⟩, hr', heq⟩ := mem_map.mp hb
      obtain ⟨rfl, rfl⟩ := mk.inj heq
      obtain ⟨hmem, hready⟩ := mem_filter.mp (mem_of_mem_take hr')
      obtain ⟨hold, hstatus, -⟩ := mem_inFlight.mp ha
      have hsame := Table.eq_of_mem hold hmem
      simp only [isReady, and_eq_true, decide_eq_true_eq] at hready
      rw [← hsame] at hready
      exact absurd hready.1.1 OutboxStatus.noConfusion
  have hperm := (perm_ext_iff_of_nodup (nodup_inFlight (o.leaseReady h limit now).2) hnodup).mpr
    fun r => mem_inFlight_leaseReady h hs hlimit now
  rw [hperm.length_eq, length_append, length_map, length_take]

/-! ## Steps of the loop -/

/-- The rows are as an outbox leaves them, and not too many of them are in flight. -/
structure Invariant (s : Loop) : Prop where
  sound : Sound s.outbox
  bounded : Bounded s

theorem Invariant.of_outbox {s s' : Loop} (hs : Invariant s) (heq : s'.outbox = s.outbox) : Invariant s' := by
  constructor
  · rw [heq]
    exact hs.sound
  · rw [Bounded, heq]
    exact hs.bounded

theorem outbox_requestDrain (s : Loop) : (requestDrain s).outbox = s.outbox := by
  rw [requestDrain]
  split <;> rfl

theorem outbox_armRetryTimer (s : Loop) (now : Int) : (armRetryTimer s now).outbox = s.outbox := by
  rw [armRetryTimer]
  split <;> rfl

/-- What another user of the outbox does, or the loop as another user does it. -/
theorem Invariant.foreign {s s' : Loop} (hs : Invariant s) (h : Host) {e : Outbox.Event}
    (he : isForeign e) (heq : s'.outbox = Outbox.step h s.outbox e) : Invariant s' := by
  constructor
  · rw [heq]
    exact hs.sound.step h e
  · rw [Bounded, heq]
    exact Nat.le_trans (length_inFlight_foreign h s.outbox he) hs.bounded

theorem Invariant.markFailed {s : Loop} (hs : Invariant s) (h : Host) (id : Nat) (error : Str)
    (now : Int) (jitter : Fin 10) : Invariant { s with outbox := s.outbox.markFailed h id error now jitter } :=
  hs.foreign h (e := .markFailed id error now jitter) rfl rfl

theorem Invariant.send {s : Loop} (hs : Invariant s) (h : Host) (ev : Leased) (o : Sending) :
    Invariant (send h s ev o) := by
  rw [Sender.send]
  split
  · exact hs.markFailed h _ _ _ _
  · split
    · split
      · exact hs.of_outbox rfl
      · exact hs.markFailed h _ _ _ _
    · exact hs.markFailed h _ _ _ _

/-- The rows in flight after a drain. -/
theorem outbox_drainOnce (h : Host) (s : Loop) (now : Int) : (drainOnce h s now).outbox =
      if s.stopped || s.rotationInProgress || !s.isConnected then s.outbox
      else (s.outbox.leaseReady h MAX_IN_FLIGHT now).2 := by
  rw [drainOnce]
  dsimp only
  cases s.stopped with
  | true => rfl
  | false =>
    cases hidle : s.rotationInProgress || !s.isConnected with
    | true =>
      rw [if_neg Bool.false_ne_true, if_pos rfl, outbox_armRetryTimer, Bool.false_or, hidle]
      rfl
    | false =>
      rw [if_neg Bool.false_ne_true, if_neg Bool.false_ne_true, Bool.false_or, hidle, if_neg Bool.false_ne_true]
      split
      · exact outbox_armRetryTimer _ now
      · rfl

/-- A drain leases when it is scheduled and may. -/
theorem bounded_step_drainOnce (h : Host) {s : Loop} (hs : Invariant s) (now : Int) :
    Bounded (step h s (.drainOnce now)) ↔ HasRoom s (.drainOnce now) := by
  rw [step, HasRoom, leases]
  cases hdue : s.drainScheduled && !s.draining with
  | false =>
    exact iff_of_true hs.bounded fun hleases => by simp at hleases
  | true =>
    rw [if_pos rfl, Bounded, outbox_drainOnce]
    have hlimit : (1 : Int) ≤ MAX_IN_FLIGHT := by decide
    have hlength := length_inFlight_leaseReady h hs.sound hlimit now
    cases hidle : s.stopped || s.rotationInProgress || !s.isConnected with
    | true =>
      refine iff_of_true hs.bounded fun hleases => ?_
      simp_all
    | false =>
      rw [if_neg Bool.false_ne_true, hlength]
      have hleases : (true && !s.stopped && !s.rotationInProgress && s.isConnected) := by
        simp_all
      exact ⟨fun hle _ => hle, fun hle => hle hleases⟩

theorem Invariant.step (h : Host) {s : Loop} (hs : Invariant s) {e : Event} (hroom : HasRoom s e) :
    Invariant (step h s e) := by
  cases e with
  | start now later =>
    rw [Sender.step]
    split
    · exact hs.foreign h (e := .recoverStaleInflight 60 now later) rfl rfl
    · exact hs
  | stop =>
    rw [Sender.step]
    split <;> exact hs.of_outbox rfl
  | connection up =>
    rw [Sender.step]
    split <;> exact hs.of_outbox rfl
  | rotation inProgress =>
    rw [Sender.step]
    split <;> exact hs.of_outbox rfl
  | outbox e =>
    rw [Sender.step]
    split
    · rename_i hforeign
      exact hs.foreign h (and_eq_true _ _ ▸ hforeign).1 rfl
    · exact hs
  | requestDrain => exact hs.of_outbox (outbox_requestDrain s)
  | retryTimer =>
    rw [Sender.step]
    split
    · exact hs.of_outbox (outbox_requestDrain _)
    · exact hs
  | drainOnce now =>
    refine ⟨?_, (bounded_step_drainOnce h hs now).mpr hroom⟩
    rw [Sender.step]
    split
    · rw [outbox_drainOnce]
      split
      · exact hs.sound
      · exact hs.sound.step h (.leaseReady MAX_IN_FLIGHT now)
    · exact hs.sound
  | send o =>
    rw [Sender.step]
    split
    · rename_i batch _ _
      have hs' : Invariant { s with batch := batch } := hs.of_outbox rfl
      exact hs'.send h _ o
    · exact hs
  | finish now =>
    rw [Sender.step]
    split
    · rw [finish]
      split
      · exact hs.of_outbox (outbox_requestDrain _)
      · exact hs.of_outbox (outbox_armRetryTimer _ now)
    · exact hs

/-- Along a run, at most `MAX_IN_FLIGHT` rows leased by this process are in flight in every state
exactly when every drain of the run has room for the rows that it leases. -/
theorem always_bounded_iff (h : Host) (opened : Opened) (tr : List Event) :
    (machine h opened).Always Bounded tr ↔ (machine h opened).Guarded HasRoom tr := by
  apply Machine.always_iff_guarded (I := Invariant)
  · refine ⟨opened.sound, ?_⟩
    show (inFlight opened.outbox).length ≤ MAX_IN_FLIGHT
    rw [opened.unowned]
    exact Nat.zero_le _
  · exact fun s e hs hroom => hs.step h hroom
  · exact fun _ hs => hs.bounded
  · intro s e hs hfull hbounded
    cases e with
    | drainOnce now => exact hfull ((bounded_step_drainOnce h hs now).mp hbounded)
    | _ => exact hfull trivial

/-! ## A run with too many rows in flight -/

def emptyOutbox : Opened := ⟨⟨.empty, []⟩, fun _ _ hmem => (not_mem_nil hmem).elim, rfl⟩

def put (payload : Json) : Event := .outbox (.enqueue .factsDelta payload 0)

def started : Event := .start 0 fun _ => (0, 0)

/-- Four rows wait; a drain sends three of them, and the next one is due at once. -/
def redrained : List Event :=
  [started, .connection true, put (.bool true), put (.obj []), put (.arr []),
    put (.arr [.null]), .requestDrain, .drainOnce 0, .send ⟨none, 0, 0⟩, .send ⟨none, 0, 0⟩,
    .send ⟨none, 0, 0⟩, .finish 0, .drainOnce 0]

/-- No row was acknowledged, and four are in flight. -/
theorem not_always_bounded_redrained : (inFlight ((machine sampleHost emptyOutbox).run redrained).outbox).length = 4 ∧
      ¬ (machine sampleHost emptyOutbox).Always Bounded redrained := by
  have hlength :
      (inFlight ((machine sampleHost emptyOutbox).run redrained).outbox).length = 4 := by
    decide
  refine ⟨hlength, fun halways => ?_⟩
  have hbounded := halways.last
  rw [Bounded, hlength] at hbounded
  exact absurd hbounded (by decide)

end Sender

end Outbox
