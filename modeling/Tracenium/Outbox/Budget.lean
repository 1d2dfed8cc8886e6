-- SUMMARY: The sender loop on its clock, and when it never spins.
import Tracenium.Lib.Potential
import Tracenium.Outbox.InFlight

/-!
The timer of `armRetryTimer` is due when the clock has moved by the delay that it was armed with. What happens outside
of the loop are the events of the stream and of the other users of the outbox, and that the clock reaches the next
attempt of a row.
-/

open Utf16 List Option

namespace Outbox

open SqliteOutbox

namespace Pace

open Sender (Loop)

/-- `due` is when the timer fires, `idle` tells that the drain under way leased nothing, `wait` is the delay of the
drain that the loop scheduled by itself when the last drain returned that leased nothing, and `drains` counts them
all. -/
structure Paced where
  loop : Loop
  clock : Int
  due : Option Int
  idle : Bool
  wait : Option Int
  drains : Nat

inductive Event
  | tick (now : Int)
  | outside (e : Sender.Event)
  | drain
  | send (error : Option Str) (jitter : Fin 10)
  | finish
  | timer

def isOutside : Sender.Event → Bool
  | .start _ _ => true
  | .stop => true
  | .connection _ => true
  | .rotation _ => true
  | .outbox _ => true
  | .requestDrain => true
  | _ => false

/-- The stream cannot take anything. -/
def isBlocked (s : Loop) : Bool := s.rotationInProgress || !s.isConnected

def nextDelay (s : Paced) : Option Int := s.loop.outbox.getNextReadyDelayMs s.clock

/-- `armRetryTimer`; without a next attempt the timer stays as it is. -/
def armed (s : Paced) : Option Int := (nextDelay s).elim s.due fun delay => some (s.clock + delay)

section Steps

variable (h : Host)

/-- `drainOnce`, up to its loop. -/
def drain (s : Paced) : Paced :=
  let loop := Sender.drainOnce h s.loop s.clock
  let s' : Paced := { s with loop := loop, idle := loop.draining && loop.batch.isEmpty, drains := s.drains + 1 }
  if s.loop.stopped then { s' with wait := none }
  else if isBlocked s.loop then { s' with due := armed s', wait := nextDelay s' }
  else if loop.batch.isEmpty then { s' with due := armed s' }
  else s'

def fails (ev : Leased) (error : Option Str) : Bool :=
  Sender.isEmptyPayload ev.payload || !Sender.isSent ev.row.type || error.isSome

/-- `markFailed` gets to `notifyChanged`. -/
def notifies (o : SqliteOutbox) (id : Nat) (now : Int) (jitter : Fin 10) : Bool :=
  (o.events.rows.find? (isLiveRow id)).any fun r =>
    MAX_ATTEMPTS ≤ r.2.attempts + 1 || (addSecondsIso h now (computeBackoffSeconds (r.2.attempts + 1) jitter)).isSome

def send (s : Paced) (ev : Leased) (batch : List Leased) (error : Option Str) (jitter : Fin 10) : Paced :=
  let loop := Sender.send h { s.loop with batch := batch } ev ⟨error, s.clock, jitter⟩
  if fails ev error && notifies h s.loop.outbox ev.id s.clock jitter then { s with loop := Sender.requestDrain loop }
  else { s with loop := loop }

/-- The `finally`. No stream is stopped while a drain is under way. -/
def finish (s : Paced) : Paced :=
  { s with
    loop := Sender.finish s.loop s.clock
    due := if nextDelay s = some 0 then s.due else armed s
    idle := false
    wait := if s.idle then nextDelay s else s.wait }

def fire (s : Paced) : Paced :=
  { s with loop := Sender.requestDrain { s.loop with retryTimer := false }, due := none }

def step (s : Paced) : Event → Paced
  | .tick now => { s with clock := now }
  | .outside e =>
    if isOutside e then
      let loop := Sender.step h s.loop e
      { s with loop := loop, due := if loop.retryTimer then s.due else none }
    else s
  | .drain => if s.loop.drainScheduled && !s.loop.draining then drain h s else s
  | .send error jitter =>
    match s.loop.draining, s.loop.batch with
    | true, ev :: batch => send h s ev batch error jitter
    | _, _ => s
  | .finish => if s.loop.draining && s.loop.batch.isEmpty then finish s else s
  | .timer => if s.due.any (· ≤ s.clock) && !s.loop.draining then fire s else s

def machine (opened : Sender.Opened) (now : Int) : Machine Paced Event where
  init := ⟨(Sender.machine h opened).init, now, none, false, none, 0⟩
  step := step h

end Steps

/-! ## Delays -/

/-- The delay of the drain after one that leased nothing is positive. -/
def Calm (s : Paced) : Prop := ∀ delay, s.wait = some delay → 0 < delay

/-- No row is ready when the delay after a drain that leased nothing is computed. -/
def Clear (s : Paced) : Event → Prop
  | .drain => s.loop.drainScheduled = true → s.loop.draining = false → s.loop.stopped = false →
      isBlocked s.loop = true → ready s.loop.outbox s.clock = []
  | .finish => s.loop.draining = true → s.loop.batch = [] → s.idle = true → ready s.loop.outbox s.clock = []
  | _ => True

/-- The rows that wait for an attempt. -/
def waiting (o : SqliteOutbox) : List (Nat × Row) :=
  o.events.rows.filter fun r => r.2.status = .pending && r.2.attempts < MAX_ATTEMPTS

/-- The loop takes the step by itself, and the clock reaches no next attempt. -/
def IsInternal (s : Paced) : Event → Prop
  | .tick now => s.clock ≤ now ∧
      ∀ r ∈ waiting s.loop.outbox, s.clock < r.2.nextAttemptAtUtc → now < r.2.nextAttemptAtUtc
  | .outside _ => False
  | _ => True

/-- How much a row can keep the loop busy. -/
def weight (row : Row) : Nat :=
  match row.status with
  | .pending => 2 * (MAX_ATTEMPTS - row.attempts)
  | .inFlight => 2 * (MAX_ATTEMPTS - row.attempts) - 1
  | _ => 0

/-- The drains that are left between two outside events. -/
def budget (s : Paced) : Nat := s.loop.outbox.events.total weight + 2

/-- Between two outside events no more drains run than the rows and a timer allow. -/
def Finite (h : Host) (opened : Sender.Opened) (now : Int) (tr : List Event) : Prop :=
  ∀ pre seg post, tr = pre ++ seg ++ post → (machine h opened now).GuardedFrom IsInternal
    ((machine h opened now).run pre) seg → ((machine h opened now).run (pre ++ seg)).drains ≤
        ((machine h opened now).run pre).drains + budget ((machine h opened now).run pre)

section Next

variable {o : SqliteOutbox} {now delay : Int}

theorem exists_of_nextDelay (h : o.getNextReadyDelayMs now = some delay) :
    ∃ r ∈ waiting o, delay = max 0 (r.2.nextAttemptAtUtc - now) ∧
      ∀ r' ∈ waiting o, r.2.nextAttemptAtUtc ≤ r'.2.nextAttemptAtUtc := by
  obtain ⟨next, hmin, rfl⟩ := map_eq_some_iff.mp h
  obtain ⟨hmem, hle⟩ := min?_eq_some_iff.mp hmin
  obtain ⟨r, hr, rfl⟩ := mem_map.mp hmem
  exact ⟨r, hr, rfl, fun r' hr' => hle _ (mem_map_of_mem hr')⟩

theorem mem_ready {r : Nat × Row} : r ∈ ready o now ↔ r ∈ waiting o ∧ r.2.nextAttemptAtUtc ≤ now := by
  simp [ready, waiting, isReady, and_assoc]

/-- The delay is zero exactly while a row is ready. -/
theorem nextDelay_eq_zero_iff : o.getNextReadyDelayMs now = some 0 ↔ ready o now ≠ [] := by
  constructor
  · intro h
    obtain ⟨r, hr, hdelay, -⟩ := exists_of_nextDelay h
    exact ne_nil_of_mem (mem_ready.mpr ⟨hr, by omega⟩)
  · intro h
    obtain ⟨r, hr⟩ := exists_mem_of_ne_nil _ h
    obtain ⟨hwaiting, hle⟩ := mem_ready.mp hr
    cases hnext : o.getNextReadyDelayMs now with
    | none =>
      have hnone : waiting o = [] := by
        rwa [getNextReadyDelayMs, map_eq_none_iff, min?_eq_none_iff, map_eq_nil_iff] at hnext
      simp [hnone] at hwaiting
    | some delay =>
      obtain ⟨r', -, hdelay, hmin⟩ := exists_of_nextDelay hnext
      have hfirst := hmin r hwaiting
      congr 1
      omega

theorem nextDelay_pos_iff (h : o.getNextReadyDelayMs now = some delay) : 0 < delay ↔ ready o now = [] := by
  obtain ⟨r, -, hdelay, -⟩ := exists_of_nextDelay h
  have hzero : o.getNextReadyDelayMs now = some 0 ↔ ready o now ≠ [] := nextDelay_eq_zero_iff
  rw [h, some.injEq] at hzero
  by_cases hready : ready o now = []
  · have hne : delay ≠ 0 := fun h => hzero.mp h hready
    exact iff_of_true (by omega) hready
  · exact iff_of_false (by have := hzero.mpr hready; omega) hready

end Next

end Pace

end Outbox

/-!
# The drains that the loop runs on its own

A drain that leases makes a row lighter. A drain that leases nothing leaves a timer that only an outside event lets
fire, as long as no row was ready: this is where the loop spins in a stream that is down.
-/

namespace Outbox

open SqliteOutbox

namespace Pace

open Sender (Loop outbox_requestDrain outbox_armRetryTimer outbox_drainOnce)

/-! ## The weight of the rows -/

section Rows

variable {o : SqliteOutbox} {now : Int}

theorem weight_lease {row : Row} (lockOwner : Str) (h : isReady now row) :
    weight (lease lockOwner now row) < weight row := by
  simp only [isReady, Bool.and_eq_true, decide_eq_true_eq] at h
  obtain ⟨⟨hstatus, hattempts⟩, -⟩ := h
  simp only [weight, lease, hstatus]
  omega

/-- The rows that are leased pay for the drain. -/
theorem total_leaseReady (hs : Sound o) (h : Host) {limit : Int} (hlimit : 1 ≤ limit) (hready : ready o now ≠ []) :
    (o.leaseReady h limit now).2.events.total weight < o.events.total weight := by
  obtain ⟨-, hrows⟩ := hs.leaseReady h hlimit now
  have hleased {r : Nat × Row} (hr : r ∈ (ready o now).take limit.toNat) :
      r ∈ o.events.rows ∧ isReady now r.2 := mem_filter.mp (mem_of_mem_take hr)
  refine Table.total_lt_of_map hrows (fun r hr => ?_) ?_
  · split
    · exact (weight_lease _ (hleased ‹_›).2).le
    · exact le_rfl
  · have hne : (ready o now).take limit.toNat ≠ [] := by
      intro hnil
      rcases take_eq_nil_iff.mp hnil with hzero | hnil
      · omega
      · exact hready hnil
    obtain ⟨r, hr⟩ := exists_mem_of_ne_nil _ hne
    refine ⟨r, (hleased hr).1, ?_⟩
    rw [if_pos hr]
    exact weight_lease _ (hleased hr).2

/-- A row that was not due yet is not leased. -/
theorem mem_waiting_leaseReady (hs : Sound o) (h : Host) {limit : Int} (hlimit : 1 ≤ limit) {r : Nat × Row}
    (hr : r ∈ waiting o) (hlater : now < r.2.nextAttemptAtUtc) : r ∈ waiting (o.leaseReady h limit now).2 := by
  obtain ⟨-, hrows⟩ := hs.leaseReady h hlimit now
  have hfree : r ∉ (ready o now).take limit.toNat := by
    intro hmem
    have hdue := (mem_ready.mp (mem_of_mem_take hmem)).2
    omega
  obtain ⟨hmem, hwaits⟩ := mem_filter.mp hr
  refine mem_filter.mpr ⟨?_, hwaits⟩
  rw [hrows]
  exact mem_map.mpr ⟨r, hmem, if_neg hfree⟩

theorem leaseReady_of_ready_eq_nil (h : Host) (limit : Int) (hready : ready o now = []) :
    o.leaseReady h limit now = ([], o) := by
  have hany : o.events.rows.any (fun r => isReady now r.2) = false := by
    simpa [ready] using hready
  rw [leaseReady, if_neg (by simp [hany])]

/-- A row that is set to a lighter one. -/
theorem total_setRow {r : Nat × Row} {f : Row → Row} (hr : r ∈ o.events.rows) (hf : weight (f r.2) < weight r.2) :
    (o.setRow r.1 f).events.total weight < o.events.total weight := by
  refine Table.total_lt_of_map rfl (fun r' hr' => ?_) ⟨r, hr, by simpa using hf⟩
  split
  · rename_i hid
    obtain rfl : r' = r := by
      have hid : r'.1 = r.1 := by simpa using hid
      exact Prod.ext hid (Table.eq_of_mem hr' (hid ▸ hr))
    exact hf.le
  · exact le_rfl

/-- A row that is marked as failed pays for the drain that it asks for. -/
theorem total_markFailed (hs : Sound o) (h : Host) (id : Nat) (error : Str) (now : Int) (jitter : Fin 10) :
    o.markFailed h id error now jitter = o ∨
      (o.markFailed h id error now jitter).events.total weight < o.events.total weight := by
  rw [markFailed]
  cases hfind : o.events.rows.find? (isLiveRow id) with
  | none => exact .inl rfl
  | some r =>
    have hr := mem_of_find?_eq_some hfind
    obtain ⟨rfl, hlive⟩ := isLiveRow_iff.mp (find?_some hfind)
    have hattempts := (hs _ _ hr).attempts hlive
    have hweight : 2 * (MAX_ATTEMPTS - r.2.attempts) - 1 ≤ weight r.2 := by
      cases hstatus : r.2.status <;> simp_all [weight, OutboxStatus.isLive]
    dsimp only
    split
    · refine .inr (total_setRow hr ?_)
      exact Nat.lt_of_lt_of_le (by simp [weight, exhaust]; omega) hweight
    · split
      · refine .inr (total_setRow hr ?_)
        exact Nat.lt_of_lt_of_le (by simp [weight, retry]; omega) hweight
      · exact .inl rfl

end Rows

/-! ## The timer -/

/-- The timer can fire before a row becomes ready. -/
def mayFire (o : SqliteOutbox) (clock : Int) (due : Option Int) : Bool :=
  due.any fun d => (waiting o).all fun r => r.2.nextAttemptAtUtc ≤ clock || d < r.2.nextAttemptAtUtc

theorem mayFire_iff {o : SqliteOutbox} {clock : Int} {due : Option Int} : mayFire o clock due ↔
    ∃ d, due = some d ∧ ∀ r ∈ waiting o, clock < r.2.nextAttemptAtUtc → d < r.2.nextAttemptAtUtc := by
  simp [mayFire, Option.any_eq_true, or_iff_not_imp_left]

@[simp] theorem mayFire_none (o : SqliteOutbox) (clock : Int) : mayFire o clock none = false := rfl

/-- The clock goes on, and the rows that were not due yet stay. -/
theorem mayFire_le {o o' : SqliteOutbox} {clock clock' : Int}
    (hrows : ∀ r ∈ waiting o, clock < r.2.nextAttemptAtUtc → r ∈ waiting o' ∧ clock' < r.2.nextAttemptAtUtc)
    (due : Option Int) : (mayFire o' clock' due).toNat ≤ (mayFire o clock due).toNat := by
  refine Bool.toNat_le_toNat (Bool.le_iff_imp.mpr fun h => ?_)
  obtain ⟨d, hdue, hd⟩ := mayFire_iff.mp h
  refine mayFire_iff.mpr ⟨d, hdue, fun r hr hlater => ?_⟩
  obtain ⟨hr', hlater'⟩ := hrows r hr hlater
  exact hd r hr' hlater'

/-- The timer is armed for the first row that waits, if no row is ready. -/
theorem mayFire_armed_le {s : Paced} (hready : ready s.loop.outbox s.clock = []) :
    (mayFire s.loop.outbox s.clock (armed s)).toNat ≤ (mayFire s.loop.outbox s.clock s.due).toNat := by
  refine Bool.toNat_le_toNat (Bool.le_iff_imp.mpr fun h => ?_)
  rw [armed] at h
  cases hnext : nextDelay s with
  | none => rwa [hnext] at h
  | some delay =>
    obtain ⟨r, hr, hdelay, -⟩ := exists_of_nextDelay hnext
    have hpos := (nextDelay_pos_iff hnext).mpr hready
    obtain ⟨d, hdue, hd⟩ := mayFire_iff.mp h
    rw [hnext, elim_some, some.injEq] at hdue
    have hbefore := hd r hr (by omega)
    omega

/-- What is left to spend: the rows, a drain that is scheduled or that may bring another about, and the timer. -/
def unspent (s : Paced) : Nat :=
  s.loop.outbox.events.total weight + (s.loop.drainScheduled || (s.loop.draining && !s.idle)).toNat +
    (mayFire s.loop.outbox s.clock s.due).toNat

theorem unspent_le_budget (s : Paced) : unspent s ≤ budget s := by
  have hdrain := Bool.toNat_le (s.loop.drainScheduled || (s.loop.draining && !s.idle))
  have hfire := Bool.toNat_le (mayFire s.loop.outbox s.clock s.due)
  simp only [unspent, budget]
  omega

/-! ## Steps -/

section Steps

variable {h : Host} {s : Paced}

theorem send_eq (h : Host) (s : Loop) (ev : Leased) (o : Sender.Sending) : ∃ outbox' writes',
    Sender.send h s ev o = { s with outbox := outbox', writes := writes' } ∧
      (outbox' = s.outbox ∨ ∃ error, outbox' = s.outbox.markFailed h ev.id error o.now o.jitter) := by
  rw [Sender.send]
  dsimp only
  split
  · exact ⟨_, _, rfl, .inr ⟨_, rfl⟩⟩
  · split
    · split
      · exact ⟨_, _, rfl, .inl rfl⟩
      · exact ⟨_, _, rfl, .inr ⟨_, rfl⟩⟩
    · exact ⟨_, _, rfl, .inr ⟨_, rfl⟩⟩

@[simp] theorem draining_requestDrain (s : Loop) : (Sender.requestDrain s).draining = s.draining := by
  rw [Sender.requestDrain]
  split <;> rfl

@[simp] theorem batch_requestDrain (s : Loop) : (Sender.requestDrain s).batch = s.batch := by
  rw [Sender.requestDrain]
  split <;> rfl

@[simp] theorem draining_armRetryTimer (s : Loop) (now : Int) :
    (Sender.armRetryTimer s now).draining = s.draining := by
  rw [Sender.armRetryTimer]
  split <;> rfl

@[simp] theorem drainScheduled_armRetryTimer (s : Loop) (now : Int) :
    (Sender.armRetryTimer s now).drainScheduled = s.drainScheduled := by
  rw [Sender.armRetryTimer]
  split <;> rfl

@[simp] theorem batch_armRetryTimer (s : Loop) (now : Int) : (Sender.armRetryTimer s now).batch = s.batch := by
  rw [Sender.armRetryTimer]
  split <;> rfl

/-- The rows are as an outbox leaves them, and a drain that leased nothing has nothing to send. -/
structure Steady (s : Paced) : Prop where
  sound : Sound s.loop.outbox
  idle : s.idle = true → s.loop.batch = []

/-- What a drain does: a stopped loop and a stream that is down lease nothing, and neither does a drain without ready
rows. -/
theorem drain_stopped (hstopped : s.loop.stopped) : drain h s = { s with
      loop := { s.loop with drainScheduled := false }
      idle := s.loop.draining && s.loop.batch.isEmpty
      wait := none
      drains := s.drains + 1 } := by
  simp [drain, Sender.drainOnce, hstopped]

theorem drain_blocked (hstopped : s.loop.stopped = false) (hblocked : isBlocked s.loop) : drain h s = { s with
      loop := Sender.armRetryTimer { s.loop with drainScheduled := false } s.clock
      idle := s.loop.draining && s.loop.batch.isEmpty
      due := armed s
      wait := nextDelay s
      drains := s.drains + 1 } := by
  have hblocked' := hblocked
  rw [isBlocked] at hblocked'
  simp [drain, Sender.drainOnce, hstopped, hblocked, hblocked', armed, nextDelay, outbox_armRetryTimer]

theorem drain_idle (hstopped : s.loop.stopped = false) (hblocked : isBlocked s.loop = false)
    (hready : ready s.loop.outbox s.clock = []) : drain h s = { s with
      loop := Sender.armRetryTimer { s.loop with drainScheduled := false, draining := true, batch := [] } s.clock
      idle := true
      due := armed s
      drains := s.drains + 1 } := by
  have hblocked' := hblocked
  rw [isBlocked] at hblocked'
  simp [drain, Sender.drainOnce, hstopped, hblocked, hblocked', armed, nextDelay, outbox_armRetryTimer,
    leaseReady_of_ready_eq_nil h _ hready]

theorem drain_leases (hs : Sound s.loop.outbox) (hstopped : s.loop.stopped = false)
    (hblocked : isBlocked s.loop = false) (hready : ready s.loop.outbox s.clock ≠ []) : drain h s = { s with
      loop := { s.loop with
        drainScheduled := false
        draining := true
        outbox := (s.loop.outbox.leaseReady h Sender.MAX_IN_FLIGHT s.clock).2
        batch := (s.loop.outbox.leaseReady h Sender.MAX_IN_FLIGHT s.clock).1 }
      idle := false
      drains := s.drains + 1 } := by
  have hblocked' := hblocked
  rw [isBlocked] at hblocked'
  have hbatch : (s.loop.outbox.leaseReady h Sender.MAX_IN_FLIGHT s.clock).1.isEmpty = false := by
    have hlimit : (1 : Int) ≤ Sender.MAX_IN_FLIGHT := by decide
    rw [(hs.leaseReady h hlimit s.clock).1]
    simpa [Sender.MAX_IN_FLIGHT] using hready
  simp [drain, Sender.drainOnce, hstopped, hblocked, hblocked', hbatch]

theorem sound_outside (hs : Sound s.loop.outbox) {e : Sender.Event} (he : isOutside e) :
    Sound (Sender.step h s.loop e).outbox := by
  cases e with
  | start now later =>
    rw [Sender.step]
    split
    · exact hs.step h (.recoverStaleInflight 60 now later)
    · exact hs
  | outbox e =>
    rw [Sender.step]
    split
    · exact hs.step h e
    · exact hs
  | stop | connection up | rotation inProgress =>
    rw [Sender.step]
    split <;> exact hs
  | requestDrain => exact (outbox_requestDrain s.loop).symm ▸ hs
  | retryTimer | drainOnce now | send o | finish now => cases he

theorem batch_outside (hs : s.loop.batch = []) {e : Sender.Event} (he : isOutside e) :
    (Sender.step h s.loop e).batch = [] := by
  cases e with
  | start now later =>
    rw [Sender.step]
    split
    · rfl
    · exact hs
  | outbox e | stop | connection up | rotation inProgress =>
    rw [Sender.step]
    split <;> exact hs
  | requestDrain => simpa [Sender.step] using hs
  | retryTimer | drainOnce now | send o | finish now => cases he

theorem Steady.drain (hs : Steady s) : Steady (drain h s) := by
  cases hstopped : s.loop.stopped with
  | true =>
    rw [drain_stopped hstopped]
    exact ⟨hs.sound, by simp⟩
  | false =>
    cases hblocked : isBlocked s.loop with
    | true =>
      rw [drain_blocked hstopped hblocked]
      exact ⟨(outbox_armRetryTimer _ _).symm ▸ hs.sound, by simp⟩
    | false =>
      by_cases hready : ready s.loop.outbox s.clock = []
      · rw [drain_idle hstopped hblocked hready]
        exact ⟨(outbox_armRetryTimer _ _).symm ▸ hs.sound, by simp⟩
      · rw [drain_leases hs.sound hstopped hblocked hready]
        exact ⟨hs.sound.step h (.leaseReady Sender.MAX_IN_FLIGHT s.clock), by simp⟩

theorem Steady.send (hs : Steady s) {ev : Leased} {batch : List Leased} (hbatch : s.loop.batch = ev :: batch)
    (error : Option Str) (jitter : Fin 10) : Steady (send h s ev batch error jitter) := by
  have hidle : s.idle ≠ true := by
    intro hidle
    simp [hs.idle hidle] at hbatch
  obtain ⟨outbox', writes', heq, houtbox⟩ := send_eq h { s.loop with batch := batch } ev ⟨error, s.clock, jitter⟩
  have hsound : Sound outbox' := by
    rcases houtbox with rfl | ⟨error, rfl⟩
    · exact hs.sound
    · exact hs.sound.step h (.markFailed ev.id error s.clock jitter)
  rw [Pace.send, heq]
  split
  · exact ⟨(outbox_requestDrain _).symm ▸ hsound, fun h => absurd h hidle⟩
  · exact ⟨hsound, fun h => absurd h hidle⟩

theorem Steady.step (hs : Steady s) (e : Event) : Steady (step h s e) := by
  cases e with
  | tick now => exact ⟨hs.sound, hs.idle⟩
  | outside e =>
    rw [Pace.step]
    split
    · exact ⟨sound_outside hs.sound ‹_›, fun hidle => batch_outside (hs.idle hidle) ‹_›⟩
    · exact hs
  | drain =>
    rw [Pace.step]
    split
    · exact hs.drain
    · exact hs
  | send error jitter =>
    rw [Pace.step]
    split
    · exact hs.send ‹_› error jitter
    · exact hs
  | finish =>
    rw [Pace.step]
    split
    · refine ⟨?_, by simp [finish]⟩
      rw [finish, Sender.finish]
      split
      · exact (outbox_requestDrain _).symm ▸ hs.sound
      · exact (outbox_armRetryTimer _ _).symm ▸ hs.sound
    · exact hs
  | timer =>
    rw [Pace.step]
    split
    · exact ⟨(outbox_requestDrain _).symm ▸ hs.sound, fun hidle => by simpa [fire] using hs.idle hidle⟩
    · exact hs

/-! ## Payments -/

/-- The drain that was scheduled is paid, and it leases nothing or the rows that it leases pay for the next one. -/
theorem drains_add_unspent_drain (hs : Steady s) (hscheduled : s.loop.drainScheduled)
    (hdraining : s.loop.draining = false) (hclear : Clear s .drain) :
    (drain h s).drains + unspent (drain h s) ≤ s.drains + unspent s := by
  cases hstopped : s.loop.stopped with
  | true =>
    rw [drain_stopped hstopped]
    simp [unspent, hscheduled, hdraining]
    omega
  | false =>
    cases hblocked : isBlocked s.loop with
    | true =>
      have hfire := mayFire_armed_le (hclear hscheduled hdraining hstopped hblocked)
      rw [drain_blocked hstopped hblocked]
      simp [unspent, hscheduled, hdraining, outbox_armRetryTimer]
      omega
    | false =>
      by_cases hready : ready s.loop.outbox s.clock = []
      · have hfire := mayFire_armed_le hready
        rw [drain_idle hstopped hblocked hready]
        simp [unspent, hscheduled, outbox_armRetryTimer]
        omega
      · have hlimit : (1 : Int) ≤ Sender.MAX_IN_FLIGHT := by decide
        have htotal := total_leaseReady hs.sound h hlimit hready
        have hfire := mayFire_le
          (fun r hr (hlater : s.clock < _) => ⟨mem_waiting_leaseReady hs.sound h hlimit hr hlater, hlater⟩) s.due
        rw [drain_leases hs.sound hstopped hblocked hready]
        simp [unspent, hscheduled]
        omega

/-- A row that fails pays for the drain that its change asks for, and for the timer. -/
theorem unspent_send (hs : Steady s) {ev : Leased} {batch : List Leased} (hdraining : s.loop.draining)
    (hbatch : s.loop.batch = ev :: batch) (error : Option Str) (jitter : Fin 10) :
    (send h s ev batch error jitter).drains = s.drains ∧ unspent (send h s ev batch error jitter) ≤ unspent s := by
  have hidle : s.idle = false := by
    by_contra hidle
    simp [hs.idle (by simpa using hidle)] at hbatch
  obtain ⟨outbox', writes', heq, houtbox⟩ := send_eq h { s.loop with batch := batch } ev ⟨error, s.clock, jitter⟩
  have hrows : outbox'.events.total weight + (mayFire outbox' s.clock s.due).toNat ≤
      s.loop.outbox.events.total weight + (mayFire s.loop.outbox s.clock s.due).toNat := by
    rcases houtbox with rfl | ⟨error, rfl⟩
    · exact le_rfl
    · rcases total_markFailed hs.sound h ev.id error s.clock jitter with heq | hlt
      · exact (congrArg (fun o => o.events.total weight + (mayFire o s.clock s.due).toNat) heq).le
      · have hfire := Bool.toNat_le (mayFire (s.loop.outbox.markFailed h ev.id error s.clock jitter) s.clock s.due)
        dsimp only at hlt ⊢
        omega
  rw [send, heq]
  split
  · refine ⟨rfl, ?_⟩
    simp [unspent, outbox_requestDrain, hdraining, hidle]
    omega
  · refine ⟨rfl, ?_⟩
    simp [unspent]
    omega

/-- The drain that leased nothing asks for no other, as no row is ready, and one that leased was paid for the next. -/
theorem unspent_finish (hdraining : s.loop.draining) (hbatch : s.loop.batch = []) (hclear : Clear s .finish) :
    unspent (finish s) ≤ unspent s := by
  rw [unspent, unspent, finish, Sender.finish]
  by_cases hnext : nextDelay s = some 0
  · have hidle : s.idle = false := by
      by_contra hidle
      exact nextDelay_eq_zero_iff.mp hnext (hclear hdraining hbatch (by simpa using hidle))
    have hnext' : s.loop.outbox.getNextReadyDelayMs s.clock = some 0 := hnext
    simp [hnext, hnext', outbox_requestDrain, hdraining, hidle]
    exact Bool.toNat_le _
  · have hready : ready s.loop.outbox s.clock = [] := by
      by_contra hready
      exact hnext (nextDelay_eq_zero_iff.mpr hready)
    have hfire := mayFire_armed_le hready
    have hscheduled : s.loop.drainScheduled.toNat ≤ (s.loop.drainScheduled || !s.idle).toNat := by
      cases s.loop.drainScheduled <;> simp
    have hnext' : s.loop.outbox.getNextReadyDelayMs s.clock ≠ some 0 := hnext
    simp [hnext, hnext', outbox_armRetryTimer, hdraining]
    omega

/-- The timer that fires pays for the drain that it asks for: no row became ready before it was due. -/
theorem unspent_fire (hdue : s.due.any (· ≤ s.clock)) : unspent (fire s) ≤ unspent s := by
  obtain ⟨d, hd, hle⟩ : ∃ d, s.due = some d ∧ d ≤ s.clock := by simpa [Option.any_eq_true] using hdue
  have hfire : mayFire s.loop.outbox s.clock s.due := by
    refine mayFire_iff.mpr ⟨d, hd, fun r _ hlater => ?_⟩
    omega
  have houtbox : (fire s).loop.outbox = s.loop.outbox := outbox_requestDrain _
  have hdrain := Bool.toNat_le ((fire s).loop.drainScheduled || ((fire s).loop.draining && !(fire s).idle))
  have hdue' : (fire s).due = none := rfl
  simp only [unspent, houtbox, hdue', hfire, mayFire_none, Bool.toNat_false, Bool.toNat_true]
  omega

/-- A step that the loop takes by itself spends no more than there is. -/
theorem drains_add_unspent_step (hs : Steady s) {e : Event} (hinternal : IsInternal s e) (hclear : Clear s e) :
    (step h s e).drains + unspent (step h s e) ≤ s.drains + unspent s := by
  cases e with
  | tick now =>
    obtain ⟨hle, hrows⟩ := hinternal
    have hfire := mayFire_le (fun r hr hlater => ⟨hr, hrows r hr hlater⟩) s.due
    simp only [step, unspent]
    omega
  | outside e => exact hinternal.elim
  | drain =>
    rw [step]
    split
    · rename_i hready
      obtain ⟨hscheduled, hdraining⟩ : s.loop.drainScheduled ∧ s.loop.draining = false := by simpa using hready
      exact drains_add_unspent_drain hs hscheduled hdraining hclear
    · exact le_rfl
  | send error jitter =>
    rw [step]
    split
    · obtain ⟨hdrains, hunspent⟩ := unspent_send (h := h) hs ‹_› ‹_› error jitter
      omega
    · exact le_rfl
  | finish =>
    rw [step]
    split
    · rename_i hempty
      obtain ⟨hdraining, hbatch⟩ : s.loop.draining ∧ s.loop.batch = [] := by simpa using hempty
      exact Nat.add_le_add_left (unspent_finish hdraining hbatch hclear) s.drains
    · exact le_rfl
  | timer =>
    rw [step]
    split
    · rename_i hdue
      exact Nat.add_le_add_left (unspent_fire (Bool.and_eq_true _ _ ▸ hdue).1) s.drains
    · exact le_rfl

end Steps

/-! ## Runs -/

section Runs

variable {h : Host} {opened : Sender.Opened} {now : Int}

theorem steady_run (tr : List Event) : Steady ((machine h opened now).run tr) :=
  Machine.invariant ⟨opened.sound, fun _ => rfl⟩ (fun _ e hs => hs.step e) tr

/-- The drains of a run of the loop by itself are paid by the rows and the timer that are there. -/
theorem finite_of_guarded {tr : List Event} (hclear : (machine h opened now).Guarded Clear tr) :
    Finite h opened now tr := by
  rintro pre seg post rfl hinternal
  have hseg : (machine h opened now).GuardedFrom Clear ((machine h opened now).run pre) seg := by
    rw [append_assoc, Machine.guarded_iff_guardedFrom, Machine.guardedFrom_append,
      Machine.guardedFrom_append] at hclear
    exact hclear.2.1
  rw [Machine.run_append]
  refine (Machine.cost_le_of_guardedFrom (I := Steady) Paced.drains unspent ?_
    (steady_run pre) (Machine.guardedFrom_and hinternal hseg)).trans ?_
  · rintro s e hs ⟨hinternal, hclear⟩
    exact ⟨hs.step e, drains_add_unspent_step hs hinternal hclear⟩
  · exact Nat.add_le_add_left (unspent_le_budget _) _

theorem calm_step {s : Paced} (hs : Calm s) {e : Event} (hclear : Clear s e) : Calm (step h s e) := by
  cases e with
  | tick now => exact hs
  | outside e =>
    rw [step]
    split <;> exact hs
  | drain =>
    rw [step]
    split
    · rename_i hready
      obtain ⟨hscheduled, hdraining⟩ : s.loop.drainScheduled ∧ s.loop.draining = false := by simpa using hready
      rw [drain]
      split
      · exact fun _ hwait => by cases hwait
      · split
        · rename_i hstopped hblocked
          have hnone := hclear hscheduled hdraining (by simpa using hstopped) hblocked
          have hblocked' := hblocked
          rw [isBlocked] at hblocked'
          have houtbox : (Sender.drainOnce h s.loop s.clock).outbox = s.loop.outbox := by
            simp [outbox_drainOnce, hblocked', Bool.or_assoc]
          intro delay hwait
          have hnext : s.loop.outbox.getNextReadyDelayMs s.clock = some delay := by
            rw [← houtbox]
            exact hwait
          exact (nextDelay_pos_iff hnext).mpr hnone
        · split <;> exact hs
    · exact hs
  | send error jitter =>
    rw [step]
    split
    · rw [send]
      dsimp only
      split <;> exact hs
    · exact hs
  | finish =>
    rw [step]
    split
    · rename_i hempty
      obtain ⟨hdraining, hbatch⟩ : s.loop.draining ∧ s.loop.batch = [] := by simpa using hempty
      intro delay hwait
      rw [finish] at hwait
      dsimp only at hwait
      split at hwait
      · exact (nextDelay_pos_iff hwait).mpr (hclear hdraining hbatch ‹_›)
      · exact hs delay hwait
    · exact hs
  | timer =>
    rw [step]
    split <;> exact hs

/-- A row that is ready when a drain leases nothing makes the next one due at once. -/
theorem not_calm_step {s : Paced} {e : Event} (hclear : ¬ Clear s e) : ¬ Calm (step h s e) := by
  intro hcalm
  cases e with
  | drain =>
    refine hclear fun hscheduled hdraining hstopped hblocked => ?_
    by_contra hready
    have hwait : (step h s .drain).wait = some 0 := by
      rw [step, if_pos (by simp [hscheduled, hdraining]), drain_blocked hstopped hblocked]
      exact nextDelay_eq_zero_iff.mpr hready
    exact absurd (hcalm 0 hwait) (lt_irrefl 0)
  | finish =>
    refine hclear fun hdraining hbatch hidle => ?_
    by_contra hready
    have hwait : (step h s .finish).wait = some 0 := by
      rw [step, if_pos (by simp [hdraining, hbatch]), finish]
      rw [if_pos hidle]
      exact nextDelay_eq_zero_iff.mpr hready
    exact absurd (hcalm 0 hwait) (lt_irrefl 0)
  | _ => exact hclear trivial

/-- Along a run, a drain that leases nothing is followed by one after a positive delay, and the loop by itself runs
finitely many drains, exactly when no row is ready where a drain leases nothing. -/
theorem always_calm_and_finite_iff (h : Host) (opened : Sender.Opened) (now : Int) (tr : List Event) :
    (machine h opened now).Always Calm tr ∧ Finite h opened now tr ↔ (machine h opened now).Guarded Clear tr := by
  have hcalm : (machine h opened now).Always Calm tr ↔ (machine h opened now).Guarded Clear tr := by
    refine Machine.always_iff_guarded (I := Calm) ?_ (fun _ _ hs hclear => calm_step hs hclear) (fun _ hs => hs)
      (fun _ _ _ hclear => not_calm_step hclear) tr
    exact fun _ hwait => by cases hwait
  exact ⟨fun h => hcalm.mp h.1, fun h => ⟨hcalm.mpr h, finite_of_guarded h⟩⟩

end Runs

/-! ## A stream that is down -/

def unsent : List Event :=
  [.outside Sender.started, .outside (Sender.put (.bool true)), .outside .requestDrain]

def spinning : List Event := .drain :: (replicate 42 [Event.timer, Event.drain]).flatten

/-- The timer is armed without a delay, and more drains run than the row could ever cause. -/
theorem not_calm_not_finite_spinning : ¬ (machine sampleHost Sender.emptyOutbox 0).Always Calm (unsent ++ spinning) ∧
      ¬ Finite sampleHost Sender.emptyOutbox 0 (unsent ++ spinning) := by
  have hwait : ((machine sampleHost Sender.emptyOutbox 0).run (unsent ++ spinning)).wait = some 0 := by
    decide +kernel
  have hdrains : ((machine sampleHost Sender.emptyOutbox 0).run (unsent ++ spinning)).drains = 43 := by
    decide +kernel
  have hbudget : ((machine sampleHost Sender.emptyOutbox 0).run unsent).drains +
      budget ((machine sampleHost Sender.emptyOutbox 0).run unsent) = 42 := by
    decide
  have hinternal : (machine sampleHost Sender.emptyOutbox 0).GuardedFrom IsInternal
      ((machine sampleHost Sender.emptyOutbox 0).run unsent) spinning := by
    simp [spinning, Machine.GuardedFrom, IsInternal]
  constructor
  · intro hcalm
    exact absurd (hcalm.last 0 hwait) (lt_irrefl 0)
  · intro hfinite
    have hle := hfinite unsent spinning [] (append_nil _).symm hinternal
    omega

end Pace

end Outbox
