-- SUMMARY: When the file integrity messages, replayed in the order of their rows, lead to the baseline.
import Tracenium.Fim.Pass
import Tracenium.Lib.Replay
import Tracenium.Outbox.Keeping

/-!
A message that the outbox takes for a live row with its text gets no row: it is told at the place of that row, before
what was told in between.
-/

open Utf16 Utf8 Inventory OrderedMap List Nat

namespace Outbox

open SqliteOutbox

/-- A live row has the type and the text of the payload. -/
def SqliteOutbox.isQueued (h : Host) (o : SqliteOutbox) (type : OutboxEventType) (payload : Json) :
    Bool :=
  o.events.rows.any fun r =>
    r.2.payloadHash = h.sha256 (encode payload.stringify) && r.2.type = type && r.2.status.isLive

/-- What is put in gets the next id, unless it is queued. -/
theorem enqueue_cases {h : Host} {o o' : SqliteOutbox} {type : OutboxEventType} {payload : Json}
    {now : Int} {id : Nat} (henqueue : o.enqueue h type payload now = .ok (id, o')) :
    (o.isQueued h type payload ∧ id ≤ o.events.lastId ∧ o' = o) ∨ (id = o.events.lastId + 1 ∧
        o'.events = o.events.insert (newRow type (maybeCompressPayload h payload.stringify)
          (h.sha256 (encode payload.stringify)) now)) := by
  simp only [enqueue] at henqueue
  split at henqueue
  · cases henqueue
  · split at henqueue
    · rename_i existing hfind
      obtain ⟨rfl, rfl⟩ := Prod.mk.inj (Except.ok.inj henqueue)
      have hmem : existing ∈ o.events.rows := mem_of_find?_eq_some hfind
      have hsame := find?_some hfind
      exact .inl ⟨any_eq_true.mpr ⟨existing, hmem, hsame⟩, o.events.bounded _ hmem, rfl⟩
    · obtain ⟨rfl, rfl⟩ := Prod.mk.inj (Except.ok.inj henqueue)
      exact .inr ⟨rfl, rfl⟩

end Outbox

namespace Fim

open Outbox

/-! ## The messages in their order -/

/-- What the messages lead to, each once and in the order of their ids. -/
def total (messages : OrderedMap Nat Update) : Holding Key FileState :=
  messages.keys.foldl (deliver messages) fun _ => none

theorem deliver_deliver (messages : OrderedMap Nat Update) (h : Holding Key FileState) (id : Nat) :
    deliver messages (deliver messages h id) id = deliver messages h id := by
  rw [deliver, deliver]
  cases messages.get id with
  | none => rfl
  | some u =>
    cases u with
    | photo files => rfl
    | delta d => exact d.apply_apply h
    | heartbeat => rfl

/-- A message with a new id comes last. -/
theorem total_set {messages : OrderedMap Nat Update} {id : Nat} (hid : id ∉ messages.keys)
    (u : Update) : total (messages.set id u) = u.apply (total messages) := by
  have hsame : ∀ ids : List Nat, id ∉ ids → ∀ h, ids.foldl (deliver (messages.set id u)) h =
      ids.foldl (deliver messages) h := by
    intro ids hids
    refine fun h => foldl_ext _ _ h fun h' i hi => ?_
    rw [deliver, deliver, get_set_of_ne]
    rintro rfl
    exact hids hi
  rw [total, keys_set_of_not_mem hid, foldl_append, hsame _ hid, foldl_cons, foldl_nil, deliver, get_set_self]
  rfl

/-! ## Passes -/

variable {fingerprint : Str}

/-- The message that a pass plans leads from the baseline to what the pass collected. -/
theorem Monitor.plan_agrees {m : Monitor} {scan : Scan} {now : Int}
    {h : Holding Key FileState} (hagrees : Agrees contentOf h m.baseline) {u : Update}
    (hplan : m.plan scan fingerprint now = some u) :
    Agrees contentOf (u.apply h) (m.collected scan fingerprint now).baseline := by
  rw [Monitor.collected]
  rw [Monitor.plan] at hplan
  dsimp only at hplan
  split at hplan
  · rename_i hscope
    rw [if_neg hscope]
    split at hplan
    · cases hplan
      exact hagrees
    · cases hplan
  · rename_i hscope
    rw [if_pos (not_not.mp hscope)]
    split at hplan
    · cases hplan
      exact agrees_get contentOf scan.files
    · split at hplan
      · cases hplan
        exact hagrees.apply_diff scan.files
      · rename_i hsame
        rw [Bool.not_eq_true, Bool.not_eq_false'] at hsame
        split at hplan
        · cases hplan
          exact hagrees.trans ((isEmpty_diff_iff contentOf _ _).mp hsame)
        · cases hplan

/-- A pass that plans no message collected what the baseline has. -/
theorem Monitor.collected_of_plan_none {m : Monitor} {scan : Scan} {now : Int}
    (hplan : m.plan scan fingerprint now = none) :
    Same contentOf m.baseline (m.collected scan fingerprint now).baseline := by
  rw [Monitor.collected]
  rw [Monitor.plan] at hplan
  dsimp only at hplan
  split at hplan
  · rename_i hscope
    rw [if_neg hscope]
    exact fun _ => rfl
  · rename_i hscope
    rw [if_pos (not_not.mp hscope)]
    split at hplan
    · cases hplan
    · split at hplan
      · cases hplan
      · rename_i hsame
        rw [Bool.not_eq_true, Bool.not_eq_false'] at hsame
        exact (isEmpty_diff_iff contentOf _ _).mp hsame

structure Replayable (s : Agent) : Prop where
  agrees : Agrees contentOf (total s.messages) s.monitor.baseline
  sorted : s.messages.keys.Pairwise (· < ·)
  bounded : ∀ i ∈ s.messages.keys, i ≤ s.outbox.events.lastId

/-- A pass whose message is queued already finds the files as the baseline has them. -/
def KeepsMessage (h : Host) (schemaVersion : Str) (s : Agent) : Event → Prop
  | .pass scan fingerprint now =>
    ∀ u, s.monitor.plan scan fingerprint now = some u → scan.scope = .collected →
      s.outbox.isQueued h .factsSnapshot (u.payload schemaVersion scan) = true →
        Same contentOf s.monitor.baseline scan.files
  | .outbox _ => True

variable {schemaVersion : Str} {s : Agent}

theorem keepsMessage_of_any {h : Host} {scan : Scan} {now : Int}
    (hnew : (s.monitor.plan scan fingerprint now).any (fun u =>
      s.outbox.isQueued h .factsSnapshot (u.payload schemaVersion scan)) = false) :
    KeepsMessage h schemaVersion s (.pass scan fingerprint now) := by
  intro u hplan _ hqueued
  rw [hplan, Option.any_some, hqueued] at hnew
  cases hnew

theorem Replayable.pass {h : Host} (hs : Replayable s) {scan : Scan} {now : Int}
    (hkeeps : KeepsMessage h schemaVersion s (.pass scan fingerprint now)) :
    Replayable (s.runFileIntegrityPass h schemaVersion scan fingerprint now) := by
  rw [Agent.runFileIntegrityPass]
  cases hplan : s.monitor.plan scan fingerprint now with
  | none =>
    exact ⟨hs.agrees.trans (Monitor.collected_of_plan_none hplan), hs.sorted, hs.bounded⟩
  | some u =>
    dsimp only
    cases henqueue : s.outbox.enqueue h .factsSnapshot (u.payload schemaVersion scan) now with
    | error e => exact hs
    | ok r =>
      obtain ⟨id, outbox⟩ := r
      have hbaseline : ((s.monitor.sent scan now).collected scan fingerprint now).baseline =
          (s.monitor.collected scan fingerprint now).baseline := by
        rw [Monitor.collected, Monitor.collected]
        split <;> rfl
      rcases enqueue_cases henqueue with ⟨hqueued, hid, rfl⟩ | ⟨rfl, hevents⟩
      · dsimp only
        rw [if_neg (Nat.not_lt_of_le hid)]
        refine ⟨?_, hs.sorted, hs.bounded⟩
        dsimp only
        rw [hbaseline, Monitor.collected]
        split
        · exact hs.agrees.trans (hkeeps u hplan ‹_› hqueued)
        · exact hs.agrees
      · have hnew : s.outbox.events.lastId + 1 ∉ s.messages.keys := fun hmem =>
          not_succ_le_self _ (hs.bounded _ hmem)
        have hkeys := keys_set_of_not_mem hnew u
        dsimp only
        rw [if_pos (lt_succ_self _)]
        refine ⟨?_, ?_, ?_⟩
        · rw [total_set hnew, hbaseline]
          exact Monitor.plan_agrees hs.agrees hplan
        · rw [hkeys]
          refine pairwise_append.mpr ⟨hs.sorted, pairwise_singleton _ _, ?_⟩
          intro i hi j hj
          rw [mem_singleton.mp hj]
          exact lt_succ_of_le (hs.bounded i hi)
        · intro i hi
          rw [hevents]
          rw [hkeys] at hi
          rcases mem_append.mp hi with hi | hi
          · exact le_succ_of_le (hs.bounded i hi)
          · rw [mem_singleton.mp hi]
            exact le_refl _

theorem Replayable.step {h : Host} (hs : Replayable s) {e : Event}
    (hkeeps : KeepsMessage h schemaVersion s e) : Replayable (Fim.step h schemaVersion s e) := by
  cases e with
  | pass scan fingerprint now =>
    rw [Fim.step]
    exact hs.pass hkeeps
  | outbox e =>
    have hlast : s.outbox.events.lastId ≤ (Outbox.step h s.outbox e).events.lastId :=
      (evolves_step h s.outbox e).lastId
    rw [Fim.step]
    exact ⟨hs.agrees, hs.sorted, fun i hi => le_trans (hs.bounded i hi) hlast⟩

/-! ## The texts of the messages -/

/-- A row under the id of a message has its text. -/
structure Spelled (h : Host) (schemaVersion : Str) (s : Agent) : Prop where
  bounded : ∀ i ∈ s.messages.keys, i ≤ s.outbox.events.lastId
  payload : ∀ i row u, (i, row) ∈ s.outbox.events.rows → s.messages.get i = some u →
    ∃ scan, row.payloadJson = maybeCompressPayload h (u.payload schemaVersion scan).stringify

theorem Spelled.pass {h : Host} (hs : Spelled h schemaVersion s) (scan : Scan) (fingerprint : Str) (now : Int) :
    Spelled h schemaVersion (s.runFileIntegrityPass h schemaVersion scan fingerprint now) := by
  rw [Agent.runFileIntegrityPass]
  cases hplan : s.monitor.plan scan fingerprint now with
  | none => exact ⟨hs.bounded, hs.payload⟩
  | some u =>
    dsimp only
    cases henqueue : s.outbox.enqueue h .factsSnapshot (u.payload schemaVersion scan) now with
    | error e => exact hs
    | ok r =>
      obtain ⟨id, outbox⟩ := r
      dsimp only
      rcases enqueue_cases henqueue with ⟨-, hid, rfl⟩ | ⟨rfl, hevents⟩
      · rw [if_neg (Nat.not_lt_of_le hid)]
        exact ⟨hs.bounded, hs.payload⟩
      · rw [if_pos (lt_succ_self _)]
        have hnew : s.outbox.events.lastId + 1 ∉ s.messages.keys := fun hmem =>
          not_succ_le_self _ (hs.bounded _ hmem)
        constructor
        · intro i hi
          rw [keys_set_of_not_mem hnew] at hi
          rw [hevents]
          rcases mem_append.mp hi with hi | hi
          · exact le_succ_of_le (hs.bounded i hi)
          · rw [mem_singleton.mp hi]
            exact le_refl _
        · intro i row u' hrow hu'
          rw [hevents] at hrow
          rcases Table.mem_insert.mp hrow with hrow | hrow
          · have hne : i ≠ s.outbox.events.lastId + 1 :=
              Nat.ne_of_lt (Nat.lt_succ_of_le (s.outbox.events.bounded _ hrow))
            rw [get_set_of_ne hne] at hu'
            exact hs.payload i row u' hrow hu'
          · obtain ⟨rfl, rfl⟩ := Prod.mk.inj hrow
            rw [get_set_self] at hu'
            obtain rfl := Option.some.inj hu'
            exact ⟨scan, by rw [SqliteOutbox.newRow]⟩

theorem Spelled.step {h : Host} (hs : Spelled h schemaVersion s)
    (e : Event) : Spelled h schemaVersion (Fim.step h schemaVersion s e) := by
  cases e with
  | pass scan fingerprint now =>
    exact hs.pass scan fingerprint now
  | outbox e =>
    have hevolves := evolves_step h s.outbox e
    rw [Fim.step]
    refine ⟨fun i hi => le_trans (hs.bounded i hi) hevolves.lastId, ?_⟩
    intro i row u hrow hu
    rcases hevolves.origin i row hrow with ⟨row', hrow', rfl | hchange⟩ | ⟨hlast, -⟩
    · exact hs.payload i row u hrow' hu
    · rw [hchange.same.2.1]
      exact hs.payload i row' u hrow' hu
    · have hkey : i ∈ s.messages.keys := by
        rw [OrderedMap.mem_keys, hu]
        rfl
      exact absurd (hs.bounded i hkey) (Nat.not_le_of_lt hlast)

/-- What a row under the id of a message is leased with is the message. -/
theorem decodePayload_message {h : Host} (hcodec : Lossless h) (schemaVersion lockOwner : Str)
    (tr : List Event) {i : Nat} {row : Row} {u : Update}
    (hrow : (i, row) ∈ ((machine h schemaVersion lockOwner).run tr).outbox.events.rows)
    (hu : ((machine h schemaVersion lockOwner).run tr).messages.get i = some u) :
    ∃ scan, decodePayload h row.payloadJson = .json (u.payload schemaVersion scan) := by
  have hspelled : Spelled h schemaVersion ((machine h schemaVersion lockOwner).run tr) := by
    have hstart : Spelled h schemaVersion (machine h schemaVersion lockOwner).init :=
      ⟨forall_mem_nil _, fun i row u hrow => (not_mem_nil hrow).elim⟩
    exact Machine.invariant hstart (fun _ e hs => Spelled.step hs e) tr
  obtain ⟨scan, hscan⟩ := hspelled.payload i row u hrow hu
  rw [hscan]
  exact ⟨scan, decodePayload_maybeCompressPayload hcodec _⟩

/-! ## Replays -/

/-- No row is live, and the rows of the messages were all leased, in the order of their ids. -/
structure Drained (s : Agent) : Prop where
  settled : ∀ r ∈ s.outbox.events.rows, r.2.status.isLive = false
  inOrder : s.fimLeased.Pairwise (· ≤ ·)
  leased : ∀ i ∈ s.messages.keys, i ∈ s.fimLeased

/-- What was leased more than once in a row counts once. -/
theorem Replayable.server_eq (hs : Replayable s) (hdrained : Drained s) : s.server = total s.messages := by
  refine Replay.foldl_eq_of_sorted (deliver_deliver s.messages) hdrained.inOrder hs.sorted ?_ _
  intro i
  refine ⟨fun hi => mem_keys.mpr (mem_filter.mp hi).2, hdrained.leased i⟩

/-- With nothing left to deliver, the server holds the local baseline. -/
def ReplaysToBaseline (s : Agent) : Prop :=
  Drained s → Agrees contentOf s.server s.monitor.baseline

theorem Replayable.replaysToBaseline (hs : Replayable s) : ReplaysToBaseline s := by
  intro hdrained
  rw [hs.server_eq hdrained]
  exact hs.agrees

/-- Along a run in which a pass with a queued message finds the files of the baseline, the server
that took the rows in their order holds the baseline. -/
theorem always_replaysToBaseline (h : Host) (schemaVersion lockOwner : Str) (tr : List Event)
    (hkeeps : (machine h schemaVersion lockOwner).Guarded (KeepsMessage h schemaVersion) tr) :
    (machine h schemaVersion lockOwner).Always ReplaysToBaseline tr := by
  have hstart : Replayable (machine h schemaVersion lockOwner).init := ⟨fun _ => rfl, .nil, forall_mem_nil _⟩
  have hrun : (machine h schemaVersion lockOwner).Always Replayable tr :=
    hkeeps.always hstart fun _ _ hs hstep => hs.step hstep
  exact hrun.mono fun _ hs => hs.replaysToBaseline

/-! ## A file that comes and goes -/

def sampleState : FileState := ⟨some (text "e3b0"), true, 0, text "2026-01-01T00:00:00.000Z", 0⟩

def sampleFiles : Files := (empty.set (text "s", text "/x") sampleState).set
  (text "s", text "/y") sampleState

def sampleScan (files : Files) : Scan := ⟨.collected, 1, [text "s"], files, 0, false, none⟩

def samplePass (files : Files) : Event := .pass (sampleScan files) (text "f") 1

def withoutX : Files := sampleFiles.delete (text "s", text "/x")

abbrev sampleMachine : Machine Agent Event := machine sampleHost (text "1") []

def keptUp : List Event :=
  [samplePass sampleFiles, .outbox (.leaseReady 3 1), .outbox (.markSent 1 1),
    samplePass withoutX, .outbox (.leaseReady 3 1), .outbox (.markSent 2 1)]

theorem always_replaysToBaseline_keptUp : sampleMachine.Always ReplaysToBaseline keptUp := by
  refine always_replaysToBaseline sampleHost (text "1") [] keptUp
    (Machine.guarded_iff_guardedFrom.mpr ⟨?_, trivial, trivial, ?_, trivial, trivial, trivial⟩)
  · exact keepsMessage_of_any (by decide)
  · exact keepsMessage_of_any (by decide +kernel)

/-- While nothing can be sent, a file goes, comes back and goes again. The second message that it
went is taken for the first. -/
def backlog : List Event :=
  [samplePass sampleFiles, samplePass withoutX, samplePass sampleFiles, samplePass withoutX,
    .outbox (.leaseReady 3 1), .outbox (.markSent 1 1), .outbox (.markSent 2 1),
    .outbox (.markSent 3 1)]

theorem drained_backlog : Drained (sampleMachine.run backlog) where
  settled := by
    have hall : ((sampleMachine.run backlog).outbox.events.rows.all
        fun r => !r.2.status.isLive) := by decide +kernel
    intro r hr
    exact Bool.not_eq_true' _ ▸ all_eq_true.mp hall r hr
  inOrder := by decide +kernel
  leased := by decide +kernel

/-- With every row delivered in order, the server holds the file that is not there. -/
theorem not_always_replaysToBaseline_backlog :
    (sampleMachine.run backlog).server (text "s", text "/x") = some sampleState ∧
      (sampleMachine.run backlog).monitor.baseline.get (text "s", text "/x") = none ∧
      ¬ sampleMachine.Always ReplaysToBaseline backlog := by
  have hserver : (sampleMachine.run backlog).server (text "s", text "/x") = some sampleState := by
    decide +kernel
  have hbaseline :
      (sampleMachine.run backlog).monitor.baseline.get (text "s", text "/x") = none := by
    decide +kernel
  refine ⟨hserver, hbaseline, fun halways => ?_⟩
  have hagrees := halways.last drained_backlog (text "s", text "/x")
  rw [hserver, hbaseline] at hagrees
  cases hagrees

end Fim
