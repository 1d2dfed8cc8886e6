-- SUMMARY: Jobs that answer through a facts snapshot, and the cooldown that a snapshot may meet.
import Tracenium.Lib.JsonObject
import Tracenium.Ipc.Wire
import Tracenium.Outbox.Store

/-!
`executeRunJob` of `src/transport/grpc-stream.ts` for the jobs that call `collectFactsSnapshot` and
await it. An `await` ends a step: a job is in `calling` while its privileged call is under way and
in `collecting` while its snapshot is, and anything may happen to the outbox and to the stamps of
the cooldown in between.
-/

open Utf16 Utf8

namespace Jobs

/-! ## Jobs -/

/-- The jobs, with the texts that `executeRunJob` reads from their payload. -/
inductive Job
  | factsSnapshot (factType : Str)
  | cdpCsrGenerate (keyId subject : Str)
  | cdpCertInstall (keyId certPem : Str)
  deriving DecidableEq

structure RunJob where
  jobId : Str
  job : Job
  deriving DecidableEq

structure Ack where
  status : Nat
  message : Str
  deriving DecidableEq

structure PrivResponse where
  ok : Bool
  result : Json
  code : Str
  message : Str

structure Call where
  run : RunJob
  resp : Option PrivResponse

def Job.factType : Job → Str
  | .factsSnapshot factType => factType
  | .cdpCsrGenerate _ _ => text "cdp"
  | .cdpCertInstall _ _ => text "cdp"

def isTrue : Option Json → Bool
  | some (.bool true) => true
  | _ => false

def Call.jobResult (c : Call) : Option Json :=
  match c.run.job, c.resp with
  | .cdpCsrGenerate keyId _, some resp =>
    if resp.ok then
      some (Json.ofFields [
        (text "keyId", Json.orElse (resp.result.field (text "keyId")) (some (.str keyId))),
        (text "csrPem", resp.result.field (text "csrPem")),
        (text "keyAlgorithm", resp.result.field (text "keyAlgorithm")),
        (text "keyStore", resp.result.field (text "keyStore"))])
    else none
  | .cdpCertInstall keyId _, some resp =>
    if resp.ok then
      some (Json.ofFields [
        (text "keyId", some (.str keyId)),
        (text "installed", some (.bool (isTrue (resp.result.field (text "installed"))))),
        (text "destination", resp.result.field (text "destination")),
        (text "sha256", resp.result.field (text "sha256"))])
    else none
  | _, _ => none

/-- `resp.result?.subject || keyId`, for a subject that is a text. -/
def subjectOr (resp : Option PrivResponse) (keyId : Str) : Str :=
  match resp.bind fun r => r.result.field (text "subject") with
  | some (.str (u :: s)) => u :: s
  | _ => keyId

/-- What `executeRunJob` returns after `collectFactsSnapshot`, which gave an outbox id or threw. -/
def Call.ack (c : Call) (outcome : Except Str Nat) : Ack :=
  match c.run.job with
  | .factsSnapshot _ =>
    match outcome with
    | .ok outboxId => ⟨0, text "facts_enqueued:" ++ Json.decimal outboxId⟩
    | .error error => ⟨2, if error = [] then text "job_failed" else error⟩
  | .cdpCsrGenerate _ _ => ⟨0, text "csr_generated"⟩
  | .cdpCertInstall keyId _ => ⟨0, text "cert_installed: " ++ subjectOr c.resp keyId⟩

def Call.cooldownAck (c : Call) (ageMs : Nat) : Ack :=
  match c.run.job with
  | .factsSnapshot _ => ⟨0, text "facts_fresh:cooldown_" ++ Json.decimal ageMs ++ text "ms"⟩
  | _ => c.ack (.ok 0)

def Job.method : Job → Str
  | .factsSnapshot _ => text "facts_snapshot"
  | .cdpCsrGenerate _ _ => text "cdp_csr_generate"
  | .cdpCertInstall _ _ => text "cdp_cert_install"

/-- The text after `runJob:${jobId}` that tells the snapshots apart. -/
def Job.suffix : Job → Str
  | .factsSnapshot _ => []
  | .cdpCsrGenerate _ _ => text ":csr"
  | .cdpCertInstall _ _ => text ":install"

def RunJob.source (r : RunJob) : Str := text "runJob:" ++ r.jobId ++ r.job.suffix

/-- `certPem.includes("BEGIN CERTIFICATE")`. -/
def hasCertificate (certPem : Str) : Bool :=
  certPem.tails.any fun s => (text "BEGIN CERTIFICATE").isPrefixOf s

/-! ## Collecting -/

inductive Plugin
  | amp
  | scp
  | pmp
  | cdp
  deriving DecidableEq

structure Policy where
  isInventoryEnabled : Bool
  isComplianceEnabled : Bool
  isPatchEnabled : Bool
  pluginEnabled : Plugin → Bool

/-- Whether a snapshot of the type runs the plugin's collector. -/
def runs (policy : Policy) (factType : Str) : Plugin → Bool
  | .amp => (factType = text "inventory" || factType = text "all") &&
      policy.isInventoryEnabled && policy.pluginEnabled .amp
  | .scp => (factType = text "compliance" || factType = text "all") &&
      policy.isComplianceEnabled && policy.pluginEnabled .scp
  | .pmp => (factType = text "patch" || factType = text "all") &&
      policy.isPatchEnabled && policy.pluginEnabled .pmp
  | .cdp => (factType = text "cdp" || factType = text "all") && policy.pluginEnabled .cdp

abbrev Namespaces := List (Plugin × Json)

/-- What a snapshot meets: the policy, what the collectors return or that they throw, the stored
baselines, what `buildDeviceFacts` makes of the namespaces, and the clock when it enqueues and when
it stamps. -/
structure Collection where
  policy : Policy
  collect : Plugin → Option Json
  softwareBaseline : List Json
  printerBaseline : List Json
  buildDeviceFacts : Namespaces → Except Str (OrderedMap Str Json)
  now : Int
  stampedAt : Int

def Collection.namespaces (c : Collection) (factType : Str) : Namespaces :=
  [Plugin.amp, .scp, .pmp, .cdp].filterMap fun p =>
    if runs c.policy factType p then (c.collect p).map fun v => (p, v) else none

/-- The items of the part `part` of the AMP namespace, from the baseline if it has none. -/
def rehydrate (part : Str) (baseline : List Json) (amp : Json) : Json :=
  match amp, amp.field part with
  | .obj ms, some (.obj inner) =>
    if Json.isNullish ((Json.obj inner).field (text "items")) && !baseline.isEmpty then
      let items := OrderedMap.setEntries (text "items") (.arr baseline) inner
      .obj (OrderedMap.setEntries part
        (.obj (OrderedMap.setEntries (text "count") (Json.nat baseline.length) items)) ms)
    else amp
  | _, _ => amp

def Collection.rehydrated (c : Collection) (namespaces : Namespaces) : Namespaces :=
  namespaces.map fun n =>
    match n.1 with
    | .amp => (.amp, rehydrate (text "printers") c.printerBaseline
        (rehydrate (text "software") c.softwareBaseline n.2))
    | p => (p, n.2)

/-- The facts, with the fields of the job beside them. -/
def payload (facts : OrderedMap Str Json) (jobId : Str) (jobResult : Option Json) : Json :=
  match jobResult with
  | none => .ofMap facts
  | some result =>
    .ofMap (((facts.set (text "jobId") (.str jobId)).set (text "jobStatus")
      (.str (text "completed"))).set (text "result") result)

/-! ## The agent -/

structure Returned where
  call : Call
  ack : Ack

/-- `lastSentFactsAt` is the part of `agent_state` under the cooldown keys, by fact type, and
`enqueued` lists the events that `enqueue` took, with the ids it gave. -/
structure Agent where
  outbox : Outbox.SqliteOutbox
  lastSentFactsAt : OrderedMap Str Int
  enqueued : List (Nat × Json)
  calling : List RunJob
  collecting : List Call
  returned : List Returned

def CONTROL_FACTS_COOLDOWN_MS : Int := 60000

/-- The fact types that have a cooldown key. -/
def hasCooldownKey (factType : Str) : Bool :=
  [text "inventory", text "compliance", text "patch", text "cdp"].contains factType

/-- The age of the last facts of the type, if it makes a snapshot skip. -/
def isOnCooldown (s : Agent) (factType : Str) (now : Int) : Option Nat :=
  if hasCooldownKey factType then
    match s.lastSentFactsAt.get factType with
    | some ts =>
      if now - ts < CONTROL_FACTS_COOLDOWN_MS ∧ 0 ≤ now - ts then some (now - ts).toNat else none
    | none => none
  else none

def Agent.answer (s : Agent) (c : Call) (ack : Ack) : Agent :=
  { s with returned := s.returned ++ [⟨c, ack⟩] }

/-- `collectFactsSnapshot`, up to its first `await`. -/
def Agent.beginSnapshot (s : Agent) (c : Call) (now : Int) : Agent :=
  match if c.run.job.factType = text "all" then none else isOnCooldown s c.run.job.factType now with
  | some ageMs => s.answer c (c.cooldownAck ageMs)
  | none => { s with collecting := s.collecting ++ [c] }

/-- The rest of `collectFactsSnapshot`. -/
def Agent.collectFactsSnapshot (h : Outbox.Host) (s : Agent) (c : Call) (e : Collection) :
    Except Str (Nat × Agent) :=
  let namespaces := e.namespaces c.run.job.factType
  if namespaces.isEmpty then .error (c.run.source ++ text ": no plugin namespaces collected")
  else
    match e.buildDeviceFacts (e.rehydrated namespaces) with
    | .error error => .error error
    | .ok facts =>
      let event := payload facts c.run.jobId c.jobResult
      match s.outbox.enqueue h .factsSnapshot event e.now with
      | .error error => .error error
      | .ok (outboxId, outbox) =>
        .ok (outboxId,
          { s with
            outbox := outbox
            enqueued := s.enqueued ++ [(outboxId, event)]
            lastSentFactsAt :=
              if hasCooldownKey c.run.job.factType then
                s.lastSentFactsAt.set c.run.job.factType e.stampedAt
              else s.lastSentFactsAt })

def Agent.endSnapshot (h : Outbox.Host) (s : Agent) (c : Call) (e : Collection) : Agent :=
  match s.collectFactsSnapshot h c e with
  | .ok (outboxId, s') => s'.answer c (c.ack (.ok outboxId))
  | .error error => s.answer c (c.ack (.error error))

def reject (r : RunJob) (s : Agent) (message : Str) : Agent := s.answer ⟨r, none⟩ ⟨2, message⟩

/-- `executeRunJob`, up to its first `await`. -/
def Agent.executeRunJob (s : Agent) (r : RunJob) (policy : Policy) (now : Int) : Agent :=
  if r.jobId = [] then reject r s (text "runJob rejected: missing jobId")
  else
    match r.job with
    | .factsSnapshot _ => s.beginSnapshot ⟨r, none⟩ now
    | .cdpCsrGenerate keyId subject =>
      if !policy.pluginEnabled .cdp then
        reject r s (text "cdp_csr_generate rejected: cdp plugin disabled by policy")
      else if keyId = [] ∨ subject = [] then
        reject r s (text "cdp_csr_generate rejected: keyId y subject son obligatorios")
      else { s with calling := s.calling ++ [r] }
    | .cdpCertInstall keyId certPem =>
      if !policy.pluginEnabled .cdp then
        reject r s (text "cdp_cert_install rejected: cdp plugin disabled by policy")
      else if keyId = [] ∨ hasCertificate certPem = false then
        reject r s (text "cdp_cert_install rejected: keyId y certPem son obligatorios")
      else { s with calling := s.calling ++ [r] }

def failure (r : RunJob) (resp : PrivResponse) : Str :=
  Ipc.trim (r.job.method ++ text " failed: " ++
    (if resp.code = [] then text "unknown" else resp.code) ++ text " " ++ resp.message)

def Agent.onResponse (s : Agent) (r : RunJob) (resp : Except Str PrivResponse) (now : Int) :
    Agent :=
  match resp with
  | .error error => reject r s (if error = [] then text "job_failed" else error)
  | .ok resp =>
    if resp.ok then s.beginSnapshot ⟨r, some resp⟩ now
    else s.answer ⟨r, some resp⟩ ⟨2, failure r resp⟩

/-! ## Runs -/

/-- `outbox` and `setState` are what the rest of the agent does to the outbox and to the stamps. -/
inductive Event
  | outbox (e : Outbox.Event)
  | setState (factType : Str) (now : Int)
  | runJob (r : RunJob) (policy : Policy) (now : Int)
  | response (k : Nat) (resp : Except Str PrivResponse) (now : Int)
  | collected (k : Nat) (e : Collection)

/-- An outbox event of the rest of the agent. A new process has no jobs. -/
def Agent.onOutbox (h : Outbox.Host) (s : Agent) (e : Outbox.Event) : Agent :=
  let s' := { s with outbox := Outbox.step h s.outbox e }
  match e with
  | .enqueue type payload now =>
    match s.outbox.enqueue h type payload now with
    | .ok (outboxId, _) => { s' with enqueued := s.enqueued ++ [(outboxId, payload)] }
    | .error _ => s'
  | .restart _ _ _ => { s' with calling := [], collecting := [] }
  | _ => s'

def step (h : Outbox.Host) (s : Agent) : Event → Agent
  | .outbox e => s.onOutbox h e
  | .setState factType now => { s with lastSentFactsAt := s.lastSentFactsAt.set factType now }
  | .runJob r policy now => s.executeRunJob r policy now
  | .response k resp now =>
    match s.calling[k]? with
    | some r => { s with calling := s.calling.eraseIdx k }.onResponse r resp now
    | none => s
  | .collected k e =>
    match s.collecting[k]? with
    | some c => { s with collecting := s.collecting.eraseIdx k }.endSnapshot h c e
    | none => s

def machine (h : Outbox.Host) (lockOwner : Str) : Machine Agent Event where
  init := ⟨⟨.empty, lockOwner⟩, .empty, [], [], [], []⟩
  step := step h

end Jobs
