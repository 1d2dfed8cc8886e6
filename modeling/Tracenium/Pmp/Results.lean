-- SUMMARY: The record of the last patch install, and what an install that ran reports.
import Tracenium.Jobs.Snapshot

/-!
`pmp-state.json` of `src/plugins/pmp/state.ts`. It is written to a temporary file that is then renamed,
so that it holds what it held before or what was written. A write can throw.
-/

open Utf16

namespace Pmp

open Jobs (Ack)

inductive RemediationStatus
  | idle
  | inProgress
  | success
  | partly
  | failed
  deriving DecidableEq

/-- What of the record is read again. -/
structure PmpRemediationState where
  status : Option RemediationStatus
  lastError : Option Str
  jobId : Option Str
  successAck : Option (Str × Str)
  deriving DecidableEq

/-- No file has been written yet. -/
def PmpRemediationState.empty : PmpRemediationState := ⟨none, none, none, none⟩

/-- An error, with its message and the text that it prints as. -/
structure Thrown where
  message : Str
  printed : Str
  deriving DecidableEq

def Thrown.text (e : Thrown) : Str := if e.message.isEmpty then e.printed else e.message

/-- The acknowledgement of a job that throws. -/
def Thrown.ack (e : Thrown) : Ack :=
  ⟨2, if e.message.isEmpty then Utf16.text "job_failed" else e.message⟩

inductive Write
  | works
  | throws (e : Thrown)
  deriving DecidableEq

def savePmpState (w : Write) (next : PmpRemediationState) : Except Thrown PmpRemediationState :=
  match w with
  | .works => .ok next
  | .throws e => .error e

/-- A key of a patch: left out, or there with a value or with `undefined`. -/
inductive Key (α : Type)
  | absent
  | given (value : Option α)
  deriving DecidableEq

def Key.orElse {α : Type} (k : Key α) (current : Option α) : Option α :=
  match k with
  | .absent => current
  | .given value => value

structure Patch where
  status : Key RemediationStatus
  lastError : Key Str
  jobId : Key Str
  successAck : Key (Str × Str)
  deriving DecidableEq

def Patch.none : Patch := ⟨.absent, .absent, .absent, .absent⟩

/-- The record that `updatePmpState` writes. -/
def merge (current : PmpRemediationState) (patch : Patch) : PmpRemediationState :=
  let lastError := patch.lastError.orElse current.lastError
  let status := patch.status.orElse current.status
  { status := match patch.lastError with
      | .given (some (_ :: _)) => some .failed
      | _ => status
    lastError := if patch.status = .given (some .inProgress) then Option.none else lastError
    jobId := patch.jobId.orElse current.jobId
    successAck := patch.successAck.orElse current.successAck }

def updatePmpState (w : Write) (current : PmpRemediationState) (patch : Patch) :
    Except Thrown PmpRemediationState :=
  savePmpState w (merge current patch)

def AGENT_RESTARTED_ERROR : Str := text "agent_restarted"

/-- What a boot writes when the record says that an install is in progress. -/
def restarted : Patch :=
  { Patch.none with status := .given (some .failed), lastError := .given (some AGENT_RESTARTED_ERROR) }

/-- The boot goes on when the write throws. -/
def reconcileStalePmpState (w : Write) (current : PmpRemediationState) : PmpRemediationState :=
  if current.status = some .inProgress then
    match updatePmpState w current restarted with
    | .ok next => next
    | .error _ => current
  else current

def INTERRUPTED_BY_RESTART_MESSAGE : Str :=
  text "patch_install interrupted: agent_restarted during the install; the outcome is unknown until the next scan"

inductive Replay
  | none
  /-- The job ended well here. -/
  | success (message : Str)
  /-- The agent restarted during the install; the record forgets the job. -/
  | interrupted (next : PmpRemediationState)
  | threw (e : Thrown)
  deriving DecidableEq

def replayForRedispatch (w : Write) (current : PmpRemediationState) (jobId : Str) : Replay :=
  match current.successAck with
  | some (id, message) => if id = jobId then .success message else again
  | Option.none => again
where
  again : Replay :=
    if current.jobId = some jobId ∧ current.lastError = some AGENT_RESTARTED_ERROR then
      match updatePmpState w current { Patch.none with jobId := .given Option.none } with
      | .ok next => .interrupted next
      | .error e => .threw e
    else .none

def rememberSuccessAck (w : Write) (current : PmpRemediationState) (jobId message : Str) :
    Except Thrown PmpRemediationState :=
  updatePmpState w current { Patch.none with successAck := .given (some (jobId, message)) }

end Pmp

/-!
# Results of a patch install

The answer of `patch.install` as `executeRunJob` of `src/transport/grpc-stream.ts` reads it, and the
decision on a restart of `src/plugins/pmp/reboot.ts`.
-/

namespace Pmp

open Jobs (Ack)

/-- A job's payload, after its checks. `kbArticleIds` is not empty. -/
structure PatchInstall where
  jobId : Str
  download : Bool
  rebootIfRequired : Bool
  kbArticleIds : List Str
  deriving DecidableEq

/-- A patch as the privileged service reports it. -/
structure PatchResult where
  updateId : Option Str
  kb : Option Str
  message : Option Str
  deriving DecidableEq

structure Fatal where
  stage : Str
  hresult : Option Str
  error : Option Str
  deriving DecidableEq

/-- `status` is trimmed and in lower case. -/
structure InstallResult where
  status : Str
  installedCount : Nat
  failedCount : Nat
  rebootRequired : Bool
  results : List PatchResult
  fatal : Option Fatal
  deriving DecidableEq

/-! ## Status -/

/-- Nothing was installed of what was asked for by name. -/
def InstallResult.unmatchedAll (r : InstallResult) (job : PatchInstall) : Bool :=
  r.status == text "no_updates" && !job.kbArticleIds.isEmpty && r.installedCount == 0

def InstallResult.resultStatus (r : InstallResult) (job : PatchInstall) : Str :=
  if r.unmatchedAll job then text "no_matching_patches" else r.status

def isSuccess (resultStatus : Str) : Bool :=
  resultStatus == text "success" || resultStatus == text "no_updates"

def statusOr (resultStatus : Str) : Str :=
  if resultStatus.isEmpty then text "failed" else resultStatus

/-- What the record says of a run that is over. -/
def finished (resultStatus : Str) : Patch :=
  { Patch.none with
    status := .given (some (if isSuccess resultStatus then .success
      else if resultStatus = text "partial" then .partly else .failed))
    lastError := .given (if isSuccess resultStatus then Option.none
      else some (text "patch_install " ++ statusOr resultStatus)) }

/-- Who holds the package manager. -/
def InstallResult.busyWith (r : InstallResult) : Str :=
  match r.results with
  | ⟨_, _, some (u :: message)⟩ :: _ => (u :: message).take 120
  | _ => text "package manager busy"

/-! ## Restarts -/

inductive RebootReason
  | notRequested
  | notRequired
  | nothingInstalled
  | rebootRequired
  | rebootToInstall
  deriving DecidableEq

structure PatchRebootDecision where
  reboot : Bool
  reason : RebootReason
  graceMs : Nat
  deriving DecidableEq

def DEFAULT_REBOOT_GRACE_MS : Nat := 60000

def planPatchReboot (job : PatchInstall) (r : InstallResult) : PatchRebootDecision :=
  if !job.rebootIfRequired then ⟨false, .notRequested, DEFAULT_REBOOT_GRACE_MS⟩
  else if !r.rebootRequired then ⟨false, .notRequired, DEFAULT_REBOOT_GRACE_MS⟩
  else if r.installedCount = 0 then ⟨false, .nothingInstalled, DEFAULT_REBOOT_GRACE_MS⟩
  else ⟨true, .rebootRequired, DEFAULT_REBOOT_GRACE_MS⟩

def planRebootToInstall (rebootIfRequired : Bool) : PatchRebootDecision :=
  if rebootIfRequired then ⟨true, .rebootToInstall, DEFAULT_REBOOT_GRACE_MS⟩
  else ⟨false, .notRequested, DEFAULT_REBOOT_GRACE_MS⟩

/-- The grace is in whole seconds. -/
def rebootAckSuffix (d : PatchRebootDecision) (armed : Bool) : Str :=
  if !d.reboot then []
  else if armed then
    text "; rebootScheduled=true; rebootInSec=" ++ Json.decimal (d.graceMs / 1000)
  else text "; rebootScheduled=false; rebootError=os_refused_restart"

/-- Windows installs nothing before it restarts. -/
def InstallResult.blockedByRestart (r : InstallResult) : Bool :=
  !r.results.isEmpty &&
    r.results.all fun p => p.message == some (text "reboot_pending_before_install")

/-! ## Acknowledgements -/

section Acks

variable (lower : Str → Str)

/-- `lower` is `String.prototype.toLowerCase`. -/
def covers (p : PatchResult) (id : Str) : Bool :=
  (p.kb.any fun kb => !kb.isEmpty && lower kb == lower id) || p.updateId.any fun updateId => !updateId.isEmpty &&
      (lower updateId == lower id || text "uid:" ++ lower updateId == lower id)

def unmatchedRequested (requested : List Str) (results : List PatchResult) : List Str :=
  requested.filter fun id => !results.any fun p => covers lower p id

def unmatchedSuffix (unmatched : List Str) : Str :=
  if unmatched.isEmpty then []
  else
    text "; notMatched=" ++ Json.decimal unmatched.length ++ text " (" ++
      (text ", ").intercalate (unmatched.take 5) ++
      (if 5 < unmatched.length then text ", " ++ [0x2026] else []) ++ text ")"

/-- What separates the fields of an acknowledgement. -/
def separates (u : UInt16) : Bool := u == 0x3B || u == 0x0D || u == 0x0A

/-- A run of separators is replaced by one blank. `inside` tells whether one has begun. -/
def onLine (inside : Bool) : Str → Str
  | [] => []
  | u :: rest =>
    if !separates u then u :: onLine false rest
    else if inside then onLine true rest
    else 0x20 :: onLine true rest

def fatalSuffix (f : Option Fatal) : Str :=
  match f with
  | none => []
  | some f =>
    text "; stage=" ++ f.stage ++ text "; hresult=" ++ f.hresult.getD (text "unknown") ++
      match f.error with
      | none => []
      | some error => text " " ++ [0x2014] ++ text " " ++ (onLine false error).take 200

def counts (r : InstallResult) : Str :=
  text "; installed=" ++ Json.decimal r.installedCount ++ text "; failed=" ++
    Json.decimal r.failedCount ++ text "; rebootRequired=" ++
    (if r.rebootRequired then text "true" else text "false")

def okMessage (job : PatchInstall) (r : InstallResult) (rebootSuffix : Str) : Str :=
  text "patch_install " ++ r.resultStatus job ++ counts r ++ rebootSuffix ++
    unmatchedSuffix (unmatchedRequested lower job.kbArticleIds r.results)

/-- Why nothing was installed, and what to do. -/
def detail (job : PatchInstall) (r : InstallResult) (refused : Bool) : Str :=
  if r.unmatchedAll job then
    text "; none of the " ++ Json.decimal job.kbArticleIds.length ++
      text " requested patch(es) matched the device's live pending list " ++ [0x2014] ++
      text " they may already be installed, or this list is stale; re-scan and check"
  else if !r.blockedByRestart then []
  else if refused then
    text "; reboot_pending_before_install " ++ [0x2014] ++
      text " the restart that would unblock the install was refused by the operating system; restart the device, then dispatch again"
  else
    text "; reboot_pending_before_install " ++ [0x2014] ++
      text " Windows needs the restart from an earlier change before it installs anything: restart the device (or dispatch with restart enabled), then dispatch again"

def failedMessage (job : PatchInstall) (r : InstallResult) (rebootSuffix : Str) (refused : Bool) : Str :=
  text "patch_install " ++ statusOr (r.resultStatus job) ++ counts r ++ rebootSuffix ++
    fatalSuffix r.fatal ++
    (if r.unmatchedAll job then []
      else unmatchedSuffix (unmatchedRequested lower job.kbArticleIds r.results)) ++
    detail job r refused

end Acks

end Pmp
