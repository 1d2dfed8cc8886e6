-- SUMMARY: The table of assessment runs, and directory assessments between their awaits: the job, the collector and the upload.
import Tracenium.Lib.KeyedRows
import Tracenium.Lib.Cuts
import Tracenium.Lib.JsonText
import Tracenium.Lib.Machine
import Mathlib.Data.List.Flatten
import Mathlib.Data.List.Lex
import Mathlib.Logic.Function.Basic

/-!
`AspRunStore` of `src/plugins/asp/run-store.ts` and `buildUploadEvents` of `src/plugins/asp/runner.ts`.
A text column holds UTF-8, and the results of a run are rows under the bytes of their control id.
-/

open Utf16 Utf8 List

namespace Asp

inductive Verdict
  | pass
  | fail
  | notAssessed
  | needsReview
  | notApplicable
  deriving DecidableEq

structure AspResult where
  controlId : Str
  status : Verdict
  severity : Str
  affectedCount : Option Nat
  evidence : Json
  reason : Option Str

inductive LocalRunStatus
  | running
  | evaluated
  | enqueued
  | failed
  | aborted
  deriving DecidableEq

/-- A row of `asp_runs` with its rows of `asp_run_results`. `indicators` is no column: these are the
control ids of the payload that the run was started with. -/
structure LocalRun where
  runId : Str
  status : LocalRunStatus
  startedAt : Nat
  durationMs : Option Nat
  collectorNotes : List Str
  error : Option Str
  results : List AspResult
  indicators : List Str

inductive Upload
  | chunk (runId : Str) (seq : Nat) (results : List AspResult)
  | complete (runId : Str) (indicatorsTotal chunksTotal durationMs : Nat) (collectorNotes : List Str)

def Upload.runId : Upload → Str
  | .chunk runId _ _ => runId
  | .complete runId _ _ _ _ => runId

/-- The runs in the order of their insertion, and the events that were put into the outbox. -/
structure Store where
  rows : List LocalRun
  outbox : List Upload

/-! ## Texts in the table -/

def column (s : Str) : Str := decode (encode s)

/-- The order of a text column is the order of its bytes. -/
def columnKey (s : Str) : List Nat := (encode s).map UInt8.toNat

def AspResult.stored (r : AspResult) : AspResult :=
  { r with
    controlId := column r.controlId
    severity := column r.severity
    reason := r.reason.map column }

/-- The rows of a run's results, as they are read in the order of the control ids. -/
def saved (results : List AspResult) : List AspResult :=
  (KeyedRows.load (fun r : AspResult => columnKey r.controlId) results).map AspResult.stored

/-! ## Statements -/

namespace Store

def get (s : Store) (runId : Str) : Option LocalRun := s.rows.find? (·.runId = runId)

def running (s : Store) : Bool := s.rows.any (·.status = .running)

/-- `UPDATE asp_runs SET … WHERE run_id = ?`. -/
def update (s : Store) (runId : Str) (f : LocalRun → LocalRun) : Store :=
  { s with rows := s.rows.map fun r => if r.runId = runId then f r else r }

/-- The run id is the primary key: a second row is refused. -/
def start (s : Store) (runId : Str) (startedAt : Nat) (indicators : List Str) : Option Store :=
  if (s.get runId).isSome then none
  else some { s with rows := s.rows ++ [⟨runId, .running, startedAt, none, [], none, [], indicators⟩] }

def saveEvaluated (s : Store) (runId : Str) (results : List AspResult) (durationMs : Nat)
    (collectorNotes : List Str) : Store :=
  s.update runId fun r =>
    { r with
      status := .evaluated, durationMs := some durationMs, collectorNotes := collectorNotes
      results := saved results }

def markEnqueued (s : Store) (runId : Str) : Store :=
  s.update runId fun r => if r.status = .evaluated then { r with status := .enqueued } else r

def markFailed (s : Store) (runId error : Str) : Store :=
  s.update runId fun r => { r with status := .failed, error := some (error.take 500) }

def pendingEnqueue (s : Store) : List LocalRun :=
  (s.rows.filter (·.status = .evaluated)).insertionSort fun a b => a.startedAt ≤ b.startedAt

def abortRunning (s : Store) : Store :=
  { s with rows := s.rows.map fun r =>
      if r.status = .running then { r with status := .aborted, error := some (text "agent_restarted") }
      else r }

def enqueue (s : Store) (e : Upload) : Store := { s with outbox := s.outbox ++ [e] }

end Store

/-! ## Events of a run -/

def ASP_CHUNK_SIZE : Nat := 10

def chunksTotal (results : List AspResult) : Nat :=
  max 1 ((results.length + (ASP_CHUNK_SIZE - 1)) / ASP_CHUNK_SIZE)

def chunkOf (runId : Str) (results : List AspResult) (seq : Nat) : Upload :=
  .chunk runId seq ((results.drop (seq * ASP_CHUNK_SIZE)).take ASP_CHUNK_SIZE)

def buildUploadEvents (runId : Str) (results : List AspResult) (durationMs : Nat)
    (collectorNotes : List Str) : List Upload :=
  (range (chunksTotal results)).map (chunkOf runId results) ++
    [.complete runId results.length (chunksTotal results) durationMs collectorNotes]

/-- What a run is uploaded as, whenever it is. -/
def LocalRun.uploads (r : LocalRun) : List Upload :=
  buildUploadEvents r.runId r.results (r.durationMs.getD 0) r.collectorNotes

/-- The operations of `enqueueEvaluatedRun` on a run that is evaluated. -/
def LocalRun.enqueueing (r : LocalRun) : List (Store → Store) :=
  r.uploads.map (fun e s => s.enqueue e) ++ [fun s => s.markEnqueued r.runId]

/-- The events are whole: the chunks are numbered from zero, their results are one for each indicator,
and the last event counts both. -/
def IsWhole (runId : Str) (indicators : List Str) (es : List Upload) : Prop :=
  ∃ (chunks : List (List AspResult)) (durationMs : Nat) (notes : List Str),
    es = (range chunks.length).map (fun seq => .chunk runId seq (chunks.getD seq [])) ++
      [.complete runId chunks.flatten.length chunks.length durationMs notes] ∧
    (chunks.flatten.map AspResult.controlId).Perm indicators

theorem runId_of_mem_uploads {r : LocalRun} {e : Upload} (h : e ∈ r.uploads) : e.runId = r.runId := by
  simp only [LocalRun.uploads, buildUploadEvents, mem_append, mem_map, mem_singleton] at h
  rcases h with ⟨seq, -, rfl⟩ | rfl <;> rfl

/-! ## Chunks -/

/-- Consecutive slices make up the list. -/
theorem flatten_slices {α : Type*} (xs : List α) (size n : Nat) :
    ((range n).map fun i => (xs.drop (i * size)).take size).flatten = xs.take (n * size) := by
  induction n with
  | zero => simp
  | succ n ih =>
    rw [range_succ, map_append, flatten_append, ih, Nat.succ_mul, take_add]
    simp

theorem length_le_chunks (results : List AspResult) : results.length ≤ chunksTotal results * ASP_CHUNK_SIZE := by
  simp only [chunksTotal, ASP_CHUNK_SIZE]
  omega

theorem isWhole_buildUploadEvents {runId : Str} {results : List AspResult} {durationMs : Nat}
    {notes indicators : List Str} (h : (results.map AspResult.controlId).Perm indicators) :
    IsWhole runId indicators (buildUploadEvents runId results durationMs notes) := by
  have hflatten : ((range (chunksTotal results)).map fun i =>
      (results.drop (i * ASP_CHUNK_SIZE)).take ASP_CHUNK_SIZE).flatten = results := by
    rw [flatten_slices, take_of_length_le (length_le_chunks results)]
  refine ⟨(range (chunksTotal results)).map fun i =>
    (results.drop (i * ASP_CHUNK_SIZE)).take ASP_CHUNK_SIZE, durationMs, notes, ?_, ?_⟩
  · rw [hflatten, length_map, length_range]
    refine congrArg (· ++ _) (map_congr_left fun seq hseq => ?_)
    simp [chunkOf, getElem?_range (mem_range.mp hseq)]
  · rwa [hflatten]

/-! ## Stored control ids -/

/-- Control ids that a text column gives back, and that differ. -/
def Distinct (indicators : List Str) : Prop :=
  indicators.Nodup ∧ ∀ id ∈ indicators, WellFormed id

theorem columnKey_injective {a b : Str} (ha : WellFormed a) (hb : WellFormed b)
    (h : columnKey a = columnKey b) : a = b := by
  have hbytes : encode a = encode b := map_injective_iff.mpr (fun _ _ => UInt8.toNat_inj.mp) h
  rw [← decode_encode ha, hbytes, decode_encode hb]

/-- The table keeps one result for each control id, and the id. -/
theorem perm_saved {results : List AspResult} (h : Distinct (results.map AspResult.controlId)) :
    ((saved results).map AspResult.controlId).Perm (results.map AspResult.controlId) := by
  obtain ⟨hnodup, hwf⟩ := h
  have hkeys : (results.map fun r => columnKey r.controlId).Nodup := by
    have hmap : results.map (fun r => columnKey r.controlId) =
        (results.map AspResult.controlId).map columnKey := by simp
    rw [hmap]
    exact hnodup.map_on fun a ha b hb heq => columnKey_injective (hwf a ha) (hwf b hb) heq
  have hload := KeyedRows.perm_load hkeys
  have hstored : ∀ r ∈ results, (AspResult.stored r).controlId = r.controlId := fun r hr =>
    decode_encode (hwf _ (mem_map_of_mem hr))
  unfold saved
  rw [map_map]
  refine (hload.map _).trans (.of_eq (map_congr_left fun r hr => hstored r hr))

end Asp

/-!
# Directory assessments

`runAspAssessment` of `src/plugins/asp/runner.ts`, the job that calls it and the recovery at boot. The
statements and the enqueues of a step are durable one by one, and an exception or a crash comes between any
two of them.
-/

namespace Asp

/-- `rule` is what the evaluation reads besides: query, predicate and verdicts. -/
structure Indicator where
  controlId : Str
  severity : Str
  registry : Bool
  requiresDc : Bool
  rule : Json

structure AspAssessPayload where
  runId : Str
  budgetMs : Nat
  evidenceLimit : Nat
  indicators : List Indicator
  some_indicator : indicators ≠ []
  not_too_many : indicators.length ≤ 500

def AspAssessPayload.controlIds (p : AspAssessPayload) : List Str :=
  p.indicators.map Indicator.controlId

structure CollectorInfo where
  isDomainController : Bool
  host : Option Str
  ranAs : Option Str
  psVersion : Option Str

inductive BatchReply
  | threw (message : Str)
  | refused (reason : Str)
  | collected (results : Str → Option Json) (collector : Option CollectorInfo) (contextError : Option Str)

/-- What the evaluation says of an indicator. -/
structure Assessment where
  status : Verdict
  affectedCount : Option Nat
  evidence : Json
  reason : Option Str

/-- The evaluation of what was collected for an indicator. -/
abbrev Assess := Indicator → Json → Option CollectorInfo → Nat → Nat → Assessment

def ASP_BATCH_SIZE : Nat := 8
def MIN_BATCH_BUDGET_MS : Nat := 20000

/-- The registry probes come together in the last batch. -/
def planBatches (indicators : List Indicator) : List (List Indicator) :=
  let registry := indicators.filter (·.registry)
  let rest := indicators.filter fun i => !i.registry
  (range ((rest.length + (ASP_BATCH_SIZE - 1)) / ASP_BATCH_SIZE)).map
      (fun b => (rest.drop (b * ASP_BATCH_SIZE)).take ASP_BATCH_SIZE) ++
    if registry.isEmpty then [] else [registry]

/-- A call of `runAspAssessment` while its batches are collected. -/
structure Call where
  payload : AspAssessPayload
  startedAt : Nat
  batch : Nat
  raw : Str → Option Json
  collector : Option CollectorInfo
  contextError : Option Str

inductive Phase
  | absent
  /-- The job is acknowledged as started. -/
  | acked (payload : AspAssessPayload)
  | collecting (c : Call)
  | over

/-- Which `markFailed` works: the one at the failure, the one of the `catch`, or none. -/
inductive Marks
  | first
  | second (message : Str)
  | never
  deriving DecidableEq

/-- What a step leaves: the store, what its job waits for, and the run whose own call returned. -/
structure Outcome where
  store : Store
  phase : Phase
  returned : Option Str

/-! ## Enqueueing -/

/-- The operations of `enqueueEvaluatedRun`. -/
def enqueueEvaluatedRun (s : Store) (runId : Str) : List (Store → Store) :=
  match s.get runId with
  | some r => if r.status = .evaluated ∨ r.status = .enqueued then r.enqueueing else []
  | none => []

def performUpTo (ops : List (Store → Store)) (k : Option Nat) (s : Store) : Store :=
  Cuts.perform ops (k.getD ops.length) s

section Runner

variable (assess : Assess)

/-! ## A run -/

/-- The base of every result is the indicator's control id and severity. -/
def evaluateIndicator (i : Indicator) (raw : Option Json) (collector : Option CollectorInfo)
    (evidenceLimit nowMs : Nat) : AspResult :=
  let a : Assessment :=
    if i.requiresDc && !collector.any (·.isDomainController) then
      ⟨.notAssessed, none, .null, some (text "requires_dc_registry")⟩
    else
      match raw with
      | none => ⟨.notAssessed, none, .null, some (text "collector_no_result")⟩
      | some json => assess i json collector evidenceLimit nowMs
  ⟨i.controlId, a.status, i.severity, a.affectedCount, a.evidence, a.reason⟩

def given (label : String) : Option Str → List Str
  | some (u :: value) => [text label ++ u :: value]
  | _ => []

def collectorNotes (c : Call) : List Str :=
  match c.collector with
  | some info =>
    [text "host:" ++ info.host.getD (text "?"),
      text "is_dc:" ++ (if info.isDomainController then text "true" else text "false")] ++
      given "ran_as:" info.ranAs ++ given "ps:" info.psVersion ++ given "context_error:" c.contextError
  | none => [text "host:unknown", text "is_dc:unknown"] ++ given "context_error:" c.contextError

def results (c : Call) (nowMs : Nat) : List AspResult :=
  c.payload.indicators.map fun i =>
    evaluateIndicator assess i (c.raw i.controlId) c.collector c.payload.evidenceLimit nowMs

def fail (s : Store) (runId reason : Str) (marks : Marks) : Outcome :=
  match marks with
  | .first => ⟨s.markFailed runId reason, .over, some runId⟩
  | .second message => ⟨s.markFailed runId (text "runner:" ++ message.take 160), .over, some runId⟩
  | .never => ⟨s, .over, some runId⟩

/-- The end of a run: the evaluation, the transaction, the enqueues, the last update and the log. -/
def finishing (s : Store) (c : Call) (nowMs : Nat) : List (Store → Store) :=
  let save := fun s : Store => s.saveEvaluated c.payload.runId (results assess c nowMs)
    (nowMs - c.startedAt) (collectorNotes c)
  [id, save] ++ enqueueEvaluatedRun (save s) c.payload.runId ++ [id]

/-- An exception is caught, and the run marked as failed wherever it has got to. -/
def finish (s : Store) (c : Call) (nowMs : Nat) (k : Option Nat) (message : Str) (marks : Marks) : Outcome :=
  let s' := performUpTo (finishing assess s c nowMs) k s
  match k, marks with
  | none, _ => ⟨s', .over, some c.payload.runId⟩
  | some _, .never => ⟨s', .over, some c.payload.runId⟩
  | some _, _ =>
    ⟨s'.markFailed c.payload.runId (text "runner:" ++ message.take 160), .over, some c.payload.runId⟩

/-- The next batch, if there is one and time for it. -/
def turn (s : Store) (c : Call) (nowMs : Nat) (k : Option Nat) (message : Str) (marks : Marks) : Outcome :=
  let batches := planBatches c.payload.indicators
  if c.batch < batches.length then
    if c.startedAt + c.payload.budgetMs < nowMs + MIN_BATCH_BUDGET_MS then
      fail s c.payload.runId
        (text "budget_exceeded:batch_" ++ Json.decimal c.batch ++ text "_of_" ++ Json.decimal batches.length)
        marks
    else ⟨s, .collecting c, none⟩
  else finish assess s c nowMs k message marks

def collect (c : Call) (answers : Str → Option Json) : Str → Option Json := fun id =>
  if ((planBatches c.payload.indicators).getD c.batch []).any (·.controlId = id) then
    answers id <|> c.raw id
  else c.raw id

def onReply (s : Store) (c : Call) (reply : BatchReply) (nowMs : Nat) (k : Option Nat) (message : Str)
    (marks : Marks) : Outcome :=
  match reply with
  | .threw error => fail s c.payload.runId (text "ipc:" ++ error.take 160) marks
  | .refused reason => fail s c.payload.runId (text "privsvc:" ++ reason) marks
  | .collected answers collector contextError =>
    turn assess s
      { c with
        batch := c.batch + 1, raw := collect c answers, collector := c.collector <|> collector
        contextError := c.contextError <|> contextError } nowMs k message marks

/-! ## The job -/

/-- A run that is known is not evaluated again. -/
def onDeliver (s : Store) (p : AspAssessPayload) (agentUpdate : Bool) (k : Option Nat) : Outcome :=
  match s.get p.runId with
  | some _ => ⟨performUpTo (enqueueEvaluatedRun s p.runId) k s, .over, none⟩
  | none => if s.running || agentUpdate then ⟨s, .over, none⟩ else ⟨s, .acked p, none⟩

/-- The row of the run is written before the `try`. -/
def onBegin (s : Store) (p : AspAssessPayload) (startedAt nowMs : Nat) (inserted : Bool) (marks : Marks) :
    Outcome :=
  match s.start p.runId startedAt p.controlIds with
  | some s' =>
    if inserted then turn assess s' ⟨p, startedAt, 0, fun _ => none, none, none⟩ nowMs none [] marks
    else ⟨s, .over, none⟩
  | none => ⟨s, .over, none⟩

/-- `k` counts the operations before an exception. -/
inductive Task
  | deliver (n : Nat) (p : AspAssessPayload) (agentUpdate : Bool) (k : Option Nat)
  | begin (n : Nat) (startedAt nowMs : Nat) (inserted : Bool) (marks : Marks)
  | reply (n : Nat) (reply : BatchReply) (nowMs : Nat) (k : Option Nat) (message : Str) (marks : Marks)

def Task.id : Task → Nat
  | .deliver n _ _ _ => n
  | .begin n _ _ _ _ => n
  | .reply n _ _ _ _ _ => n

/-- Before the run is marked as failed. -/
def Task.unmarked : Task → Task
  | .begin n startedAt nowMs inserted _ => .begin n startedAt nowMs inserted .never
  | .reply n answer nowMs k message _ => .reply n answer nowMs k message .never
  | t => t

def onTask (s : Store) : Task → Phase → Outcome
  | .deliver _ p agentUpdate k, .absent => onDeliver s p agentUpdate k
  | .begin _ startedAt nowMs inserted marks, .acked p => onBegin assess s p startedAt nowMs inserted marks
  | .reply _ reply nowMs k message marks, .collecting c => onReply assess s c reply nowMs k message marks
  | _, phase => ⟨s, phase, none⟩

/-! ## The machine -/

/-- `ended` has the runs whose own call returned, and those that were there when a boot went through
without an exception. -/
structure State where
  alive : Bool
  store : Store
  calls : Nat → Phase
  ended : List Str

/-- The recovery at boot, up to its exception. -/
def recovery (s : Store) : List (Store → Store) :=
  (fun s => s.abortRunning) ::
    s.abortRunning.pendingEnqueue.flatMap fun r => enqueueEvaluatedRun s.abortRunning r.runId

/-- A crash comes between two steps, or in one after some of its operations. -/
inductive Event
  | task (t : Task)
  | crash (during : Option Task)
  | boot (k : Option Nat)

def Phase.gone : Phase → Phase
  | .absent => .absent
  | _ => .over

def runTask (s : State) (t : Task) : Outcome := onTask assess s.store t (s.calls t.id)

def crashed (s : State) (store : Store) : State :=
  { s with alive := false, store := store, calls := fun n => (s.calls n).gone }

def step (s : State) (e : Event) : State :=
  match e, s.alive with
  | .task t, true =>
    let o := runTask assess s t
    { s with
      store := o.store
      calls := Function.update s.calls t.id o.phase
      ended := o.returned.toList ++ s.ended }
  | .crash none, true => crashed s s.store
  | .crash (some t), true => crashed s (runTask assess s t.unmarked).store
  | .boot k, false =>
    let store := performUpTo (recovery s.store) k s.store
    { s with
      alive := true, store := store
      ended := if k = none then store.rows.map LocalRun.runId ++ s.ended else s.ended }
  | _, _ => s

def machine : Machine State Event where
  init := ⟨true, ⟨[], []⟩, fun _ => .absent, []⟩
  step := step assess

end Runner

end Asp
