-- SUMMARY: The operations on patches between their awaits: patch installs, remediations alone and in batches, and the passes of the security enforcer.
import Tracenium.Pmp.Results
import Mathlib.Logic.Function.Basic

/-!
`executeRunJob` of `src/transport/grpc-stream.ts` for `patch_install`, `runRemediation` of
`src/plugins/pmp/remediation.ts` and `runSecurityEnforce` of `src/security/enforcer.ts`. An operation
goes from await to await; what it does in between is a task. A task writes to the record at most once, at
whatever moment the agent crashes in it, and ends with the call or the acknowledgement that it sends.
-/

open Utf16

namespace Pmp

open Jobs (Ack)

/-! ## What operations are given -/

/-- A `patch_install` job. `mode` is trimmed and in lower case, `selected` are the ids without blanks. -/
structure Order where
  jobId : Str
  mode : Str
  rebootIfRequired : Bool
  selected : List Str
  deriving DecidableEq

inductive Mode
  | apply
  | dryRun
  | revert
  | revertDryRun
  deriving DecidableEq

/-- One item of a `patch_remediate` job. `remediationId` is none unless it is a positive integer, and
`stateBefore` tells whether there is a state to go back to. -/
structure Fix where
  remediationId : Option Nat
  checkId : Str
  mode : Option Mode
  stateBefore : Bool
  platform : Option Str
  deriving DecidableEq

/-- The platform, and the functions that depend on it. -/
structure Host where
  lower : Str → Str
  safePatchId : Str → Bool
  notRemediable : Str → Option Str
  isLocal : Str → Bool

/-- What a `patch_install` job looks at before its record. -/
structure Guards where
  patchEnabled : Bool
  pluginEnabled : Bool
  agentUpdateInProgress : Bool
  deriving DecidableEq

/-- The answer of `patch.install`. -/
inductive InstallReply
  | threw (e : Thrown)
  | refused (message : Option Str)
  | done (r : InstallResult)
  deriving DecidableEq

/-- The answer of `pmp.read_check_state`. -/
inductive ReadReply
  | threw
  | refused
  | read (compliant asBefore : Bool)
  deriving DecidableEq

/-- The answer of a call that changes the device. -/
inductive ApplyReply
  | threw
  | refused
  | applied
  deriving DecidableEq

/-- What the enforcer makes of an entry: the policy, the platform or the cooldown leave it out, or it is
looked at. -/
inductive Resolved
  | deadline
  | skipped
  | reportOnly
  | auto
  deriving DecidableEq

/-! ## State -/

inductive Lock
  | install
  | remediate
  deriving DecidableEq

/-- What an operation waits for. The rest of a batch is `some`. -/
inductive Phase
  | absent
  | baseline (job : PatchInstall)
  | installing (job : PatchInstall)
  | facts (job : PatchInstall) (r : InstallResult)
  | unblocking (job : PatchInstall) (r : InstallResult)
  | rebooting (job : PatchInstall) (r : InstallResult) (refused : Bool)
  | remediationBaseline (fix : Fix)
  | batchBaseline (items : List Fix)
  | batch (items : List Fix)
  | reading (fix : Fix) (rest : Option (List Fix))
  | remediating (rest : Option (List Fix))
  | reverting (rest : Option (List Fix))
  | rereading (rest : Option (List Fix))
  | pass (entries : Nat)
  | passReading (mode : Resolved) (entries : Nat)
  | passRemediating (entries : Nat)
  | over
  deriving DecidableEq

inductive Entry
  | started (n : Nat) (jobId : Str)
  /-- The run of the job wrote down what became of it. -/
  | settled (n : Nat) (jobId : Str)
  | remembered (n : Nat) (jobId message : Str)
  /-- The record forgot the job, whose interruption is answered. -/
  | reported (n : Nat) (jobId : Str)
  | called (n : Nat) (jobId : Str)
  | answered (n : Nat) (jobId : Str) (ack : Ack)
  /-- The agent crashed and started again; its first write worked or not. -/
  | booted (written : Bool)
  deriving DecidableEq

/-- The two flags are `_patchInstallInProgress` and `remediateInFlight`. The history is newest first. -/
structure State where
  record : PmpRemediationState
  installing : Bool
  remediating : Bool
  phases : Nat → Phase
  history : List Entry

structure Segment where
  state : State
  sent : Option Entry

namespace State

def goto (s : State) (n : Nat) (phase : Phase) : State :=
  { s with phases := Function.update s.phases n phase }

def log (s : State) (e : Entry) : State :=
  { s with history := e :: s.history }

/-- The operation waits, and nothing was sent that matters. -/
def waits (s : State) (n : Nat) (phase : Phase) : Segment := ⟨s.goto n phase, none⟩

/-- The job is answered before anything is done. -/
def refuse (s : State) (n : Nat) (jobId : Str) (ack : Ack) : Segment :=
  ⟨s.goto n .over, some (.answered n jobId ack)⟩

/-- The `finally` of the job, and its answer. -/
def conclude (s : State) (n : Nat) (job : PatchInstall) (ack : Ack) : Segment :=
  ⟨{ s with installing := false }.goto n .over, some (.answered n job.jobId ack)⟩

def call (s : State) (n : Nat) (job : PatchInstall) : Segment :=
  ⟨s.goto n (.installing job), some (.called n job.jobId)⟩

end State

/-! ## Patch installs -/

section Tasks

variable (h : Host)

/-- The checks that come after the record was looked at. -/
def validate (o : Order) : Except Str PatchInstall :=
  if o.mode ≠ text "install" ∧ o.mode ≠ text "download" then
    .error (text "patch_install rejected: invalid mode")
  else if o.selected.isEmpty then .error (text "patch_install rejected: no_patches_selected")
  else
    let unsafeIds := o.selected.filter fun id => !h.safePatchId id
    if !unsafeIds.isEmpty then
      .error (text "patch_install rejected: invalid_patch_id (" ++ Json.decimal unsafeIds.length ++
        text " of " ++ Json.decimal o.selected.length ++ text ")")
    else .ok ⟨o.jobId, o.mode = text "download", o.rebootIfRequired, o.selected⟩

def inProgressFor (jobId : Str) : Patch :=
  ⟨.given (some .inProgress), .given none, .given (some jobId), .absent⟩

def failedWith (error : Str) : Patch :=
  { Patch.none with status := .given (some .failed), lastError := .given (some error) }

def idlePatch : Patch :=
  { Patch.none with status := .given (some .idle), lastError := .given none }

/-- The flag is up before the record is written, and this write is not in the `try`. -/
def start (s : State) (n : Nat) (job : PatchInstall) (w : Write) : Segment :=
  let s := { s with installing := true }
  match updatePmpState w s.record (inProgressFor job.jobId) with
  | .error e => s.refuse n job.jobId e.ack
  | .ok next =>
    let s := { s with record := next }.log (.started n job.jobId)
    if job.download then s.call n job else s.waits n (.baseline job)

/-- The first guard that does not let a job pass. -/
def refusal (s : State) (o : Order) (g : Guards) : Option Ack :=
  if o.jobId.isEmpty then some ⟨2, text "runJob rejected: missing jobId"⟩
  else if !g.patchEnabled then
    some ⟨2, text "patch_install rejected: patch module disabled by policy"⟩
  else if !g.pluginEnabled then
    some ⟨2, text "patch_install rejected: pmp plugin disabled by policy"⟩
  else if s.installing then some ⟨1, text "patch_install retry: patch install already in progress"⟩
  else if s.remediating then some ⟨1, text "patch_install retry: patch_remediate in progress"⟩
  else if g.agentUpdateInProgress then
    some ⟨1, text "patch_install retry: agent_update in progress"⟩
  else none

def onInstall (s : State) (n : Nat) (o : Order) (g : Guards) (w : Write) : Segment :=
  match refusal s o g with
  | some ack => s.refuse n o.jobId ack
  | none =>
    match replayForRedispatch w s.record o.jobId with
    | .success message => s.refuse n o.jobId ⟨0, message⟩
    | .interrupted next =>
      ({ s with record := next }.log (.reported n o.jobId)).refuse n o.jobId
        ⟨2, INTERRUPTED_BY_RESTART_MESSAGE⟩
    | .threw e => s.refuse n o.jobId e.ack
    | .none =>
      match validate h o with
      | .error message => s.refuse n o.jobId ⟨2, message⟩
      | .ok job => start s n job w

/-- The `catch` of the run. Its own write can throw, too. -/
def caught (s : State) (n : Nat) (job : PatchInstall) (e : Thrown) (w : Write) : Segment :=
  match updatePmpState w s.record (failedWith e.text) with
  | .ok next => ({ s with record := next }.log (.settled n job.jobId)).conclude n job e.ack
  | .error e' => s.conclude n job e'.ack

/-- Writes down what became of the run and goes on; `last` is the write of the `catch`. -/
def settle (s : State) (n : Nat) (job : PatchInstall) (patch : Patch) (w last : Write)
    (next : State → Segment) : Segment :=
  match updatePmpState w s.record patch with
  | .ok record => next ({ s with record := record }.log (.settled n job.jobId))
  | .error e => caught s n job e last

/-- The message of a call that is refused. -/
def errorMessage : Option Str → Str
  | some (u :: rest) => u :: rest
  | _ => text "patch.install failed"

def onReply (s : State) (n : Nat) (job : PatchInstall) (reply : InstallReply) (w last : Write) :
    Segment :=
  match reply with
  | .threw e => caught s n job e last
  | .refused message =>
    settle s n job (failedWith (errorMessage message)) w last fun s =>
      s.conclude n job ⟨2, text "patch_install failed: " ++ errorMessage message⟩
  | .done r =>
    if r.status = text "busy" then
      settle s n job idlePatch w last fun s =>
        s.conclude n job ⟨1, text "patch_install retry: " ++ r.busyWith⟩
    else
      settle s n job (finished (r.resultStatus job)) w last fun s => s.waits n (.facts job r)

/-- The acknowledgement of a run that reported its result. A success is remembered first. -/
def acknowledge (s : State) (n : Nat) (job : PatchInstall) (r : InstallResult) (rebootSuffix : Str)
    (refused : Bool) (w last : Write) : Segment :=
  if isSuccess (r.resultStatus job) then
    let message := okMessage h.lower job r rebootSuffix
    match rememberSuccessAck w s.record job.jobId message with
    | .ok next =>
      ({ s with record := next }.log (.remembered n job.jobId message)).conclude n job ⟨0, message⟩
    | .error e => caught s n job e last
  else s.conclude n job ⟨2, failedMessage h.lower job r rebootSuffix refused⟩

def onPlan (s : State) (n : Nat) (job : PatchInstall) (r : InstallResult) (refused : Bool)
    (w last : Write) : Segment :=
  let plan := planPatchReboot job r
  if plan.reboot then s.waits n (.rebooting job r refused)
  else acknowledge h s n job r (rebootAckSuffix plan false) refused w last

def onFacts (s : State) (n : Nat) (job : PatchInstall) (r : InstallResult) (w last : Write) : Segment :=
  if r.blockedByRestart && job.rebootIfRequired then s.waits n (.unblocking job r)
  else onPlan h s n job r false w last

/-- The operating system accepts the restart that lets Windows install, or not. -/
def onUnblocked (s : State) (n : Nat) (job : PatchInstall) (r : InstallResult)
    (armed : Except Thrown Bool) (w last : Write) : Segment :=
  match armed with
  | .error e => caught s n job e last
  | .ok true =>
    settle s n job idlePatch w last fun s =>
      s.conclude n job ⟨1, text "patch_install retry: reboot_pending_before_install" ++
        rebootAckSuffix (planRebootToInstall true) true⟩
  | .ok false => onPlan h s n job r true w last

def onRebooted (s : State) (n : Nat) (job : PatchInstall) (r : InstallResult) (refused : Bool)
    (armed : Except Thrown Bool) (w last : Write) : Segment :=
  match armed with
  | .error e => caught s n job e last
  | .ok armed => acknowledge h s n job r (rebootAckSuffix (planPatchReboot job r) armed) refused w last

/-! ## Remediations -/

/-- Why a fix is rejected before anything is read. -/
def rejection (f : Fix) (pluginEnabled : Bool) : Option Str :=
  if f.remediationId = none ∨ f.checkId = [] then some (text "invalid_payload")
  else if f.mode = none then some (text "invalid_mode")
  else if (f.mode = some .revert ∨ f.mode = some .revertDryRun) ∧ !f.stateBefore then
    some (text "revert_without_state_before")
  else
    match h.notRemediable f.checkId with
    | some reason => some reason
    | none =>
      if !pluginEnabled then some (text "pmp_plugin_disabled_by_policy")
      else if f.platform.any fun p => !p.isEmpty && !h.isLocal p then some (text "platform_mismatch")
      else none

/-- `tryStartRemediate` fails. -/
def State.locked (s : State) : Bool := s.remediating || s.installing

def State.lock (s : State) (n : Nat) (phase : Phase) : State :=
  { s with remediating := true }.goto n phase

/-- `finishRemediate`, and what comes next. -/
def State.unlock (s : State) (n : Nat) (phase : Phase) : State :=
  { s with remediating := false }.goto n phase

/-- A single fix takes the lock. -/
def runOne (s : State) (n : Nat) (f : Fix) (pluginEnabled : Bool) : State :=
  match rejection h f pluginEnabled with
  | some _ => s.goto n .over
  | none => if s.locked then s.goto n .over else s.lock n (.reading f none)

def MAX_BATCH_ITEMS : Nat := 25

def runRemediationBatch (s : State) (n : Nat) (items : List Fix) : State :=
  if items.isEmpty || MAX_BATCH_ITEMS < items.length then s.goto n .over
  else if s.locked then s.goto n .over
  else s.lock n (.batch items)

/-- The next item of a batch, which has the lock already. -/
def nextItem (s : State) (n : Nat) (items : List Fix) (pluginEnabled : Bool) : State :=
  match items with
  | [] => s.unlock n .over
  | f :: rest =>
    match rejection h f pluginEnabled with
    | some _ => s.goto n (.batch rest)
    | none => s.goto n (.reading f (some rest))

/-- A fix is through; a single one releases the lock. -/
def endFix (s : State) (n : Nat) (rest : Option (List Fix)) : State :=
  match rest with
  | none => s.unlock n .over
  | some items => s.goto n (.batch items)

def onRead (s : State) (n : Nat) (f : Fix) (rest : Option (List Fix)) (reply : ReadReply) : State :=
  match reply, f.mode with
  | .read _ false, some .revert => s.goto n (.reverting rest)
  | .read false _, some .apply => s.goto n (.remediating rest)
  | _, _ => endFix s n rest

def onApplied (s : State) (n : Nat) (rest : Option (List Fix)) (reply : ApplyReply) : State :=
  match reply with
  | .applied => s.goto n (.rereading rest)
  | _ => endFix s n rest

/-! ## The enforcer -/

def nextEntry (s : State) (n : Nat) (entries : Nat) (resolved : Resolved) : State :=
  match entries, resolved with
  | 0, _ => s.goto n .over
  | _, .deadline => s.goto n .over
  | entries + 1, .skipped => s.goto n (.pass entries)
  | entries + 1, mode => s.goto n (.passReading mode entries)

/-- A call that throws ends the pass. -/
def onPassRead (s : State) (n : Nat) (mode : Resolved) (entries : Nat) (reply : ReadReply) : State :=
  match reply with
  | .threw => s.goto n .over
  | .refused => s.goto n (.pass entries)
  | .read compliant _ =>
    if compliant || mode != .auto || s.locked then s.goto n (.pass entries)
    else s.lock n (.passRemediating entries)

def onPassApplied (s : State) (n : Nat) (entries : Nat) (reply : ApplyReply) : State :=
  match reply with
  | .threw => s.unlock n .over
  | _ => s.unlock n (.pass entries)

/-! ## The machine -/

/-- `w` is the write of a task, `last` the one of its `catch`. -/
inductive Task
  | install (n : Nat) (o : Order) (g : Guards) (w : Write)
  | remediate (n : Nat) (f : Fix) (wantsBaseline pluginEnabled : Bool)
  | remediateBatch (n : Nat) (items : List Fix) (wantsBaseline : Bool)
  | enforce (n : Nat) (entries : Nat)
  | baseline (n : Nat) (pluginEnabled : Bool)
  | reply (n : Nat) (reply : InstallReply) (w last : Write)
  | facts (n : Nat) (w last : Write)
  | armed (n : Nat) (armed : Except Thrown Bool) (w last : Write)
  | item (n : Nat) (pluginEnabled : Bool)
  | read (n : Nat) (reply : ReadReply)
  | applied (n : Nat) (reply : ApplyReply)
  | reread (n : Nat)
  | entry (n : Nat) (resolved : Resolved)

def Task.id : Task → Nat
  | .install n _ _ _ => n
  | .remediate n _ _ _ => n
  | .remediateBatch n _ _ => n
  | .enforce n _ => n
  | .baseline n _ => n
  | .reply n _ _ _ => n
  | .facts n _ _ => n
  | .armed n _ _ _ => n
  | .item n _ => n
  | .read n _ => n
  | .applied n _ => n
  | .reread n => n
  | .entry n _ => n

def quiet (s : State) : Segment := ⟨s, none⟩

/-- An operation that does not wait for a task is not touched by it. -/
def onPhase (s : State) (n : Nat) : Task → Phase → Segment
  | .install _ o g w, .absent => onInstall h s n o g w
  | .remediate _ f wantsBaseline pluginEnabled, .absent =>
    if wantsBaseline then s.waits n (.remediationBaseline f) else quiet (runOne h s n f pluginEnabled)
  | .remediateBatch _ items wantsBaseline, .absent =>
    if wantsBaseline then s.waits n (.batchBaseline items) else quiet (runRemediationBatch s n items)
  | .enforce _ entries, .absent => s.waits n (.pass entries)
  | .baseline _ _, .baseline job => s.call n job
  | .baseline _ pluginEnabled, .remediationBaseline f => quiet (runOne h s n f pluginEnabled)
  | .baseline _ _, .batchBaseline items => quiet (runRemediationBatch s n items)
  | .reply _ reply w last, .installing job => onReply s n job reply w last
  | .facts _ w last, .facts job r => onFacts h s n job r w last
  | .armed _ armed w last, .unblocking job r => onUnblocked h s n job r armed w last
  | .armed _ armed w last, .rebooting job r refused => onRebooted h s n job r refused armed w last
  | .item _ pluginEnabled, .batch items => quiet (nextItem h s n items pluginEnabled)
  | .read _ reply, .reading f rest => quiet (onRead s n f rest reply)
  | .applied _ reply, .remediating rest => quiet (onApplied s n rest reply)
  | .applied _ reply, .reverting rest => quiet (onApplied s n rest reply)
  | .reread _, .rereading rest => quiet (endFix s n rest)
  | .entry _ resolved, .pass entries => quiet (nextEntry s n entries resolved)
  | .read _ reply, .passReading mode entries => quiet (onPassRead s n mode entries reply)
  | .applied _ reply, .passRemediating entries => quiet (onPassApplied s n entries reply)
  | _, _ => quiet s

def segment (s : State) (t : Task) : Segment := onPhase h s t.id t (s.phases t.id)

/-- A crash comes between two tasks, or in a task after its write and before it sends anything. Then the
agent starts again. -/
inductive Event
  | task (t : Task)
  | crash (during : Option Task) (w : Write)

/-- An operation of the process that crashed is gone. -/
def Phase.gone : Phase → Phase
  | .absent => .absent
  | _ => .over

/-- A new process, with the file that the old one left. -/
def boot (left : State) (w : Write) : State where
  record := reconcileStalePmpState w left.record
  installing := false
  remediating := false
  phases n := (left.phases n).gone
  history := .booted (w = .works) :: left.history

def send (o : Segment) : State :=
  match o.sent with
  | some e => o.state.log e
  | none => o.state

def step (s : State) : Event → State
  | .task t => send (segment h s t)
  | .crash none w => boot s w
  | .crash (some t) w => boot (segment h s t).state w

def machine : Machine State Event where
  init := ⟨.empty, false, false, fun _ => .absent, []⟩
  step := step h

end Tasks

end Pmp
