-- SUMMARY: The version texts of the agent, and the self-update task between its awaits: its guards, its record and the installer.
import Tracenium.Hardening.Grammar
import Tracenium.Ipc.Wire
import Tracenium.Lib.Leases
import Tracenium.Lib.Machine
import Mathlib.Logic.Function.Basic

/-!
`semver.ts`, and `checkForAvailableUpdate` of `update-service.ts`. How a component reads as a number
is a function of the language; it is asked only for text without a sign or a point.
-/

open Utf16 Json
open Hardening (dot dash isRuns isUpper isLower)

namespace Update

/-- `Number` of a component, unless it is not finite. -/
abbrev Numbers := Str → Option Nat

/-- `\d+` at the start of a text, taken off. -/
def digits (s : Str) : Option Str :=
  if (s.takeWhile isDigit).isEmpty then none else some (s.dropWhile isDigit)

def point : Str → Option Str
  | u :: s => if u = dot then some s else none
  | [] => none

/-- `([.-][A-Za-z0-9]+)?$`. -/
def isTag : Str → Bool
  | [] => true
  | u :: s => (u == dot || u == dash) && isRuns (fun v => isUpper v || isLower v || isDigit v) s

def looksLikeSemver (v : Str) : Bool :=
  match (digits v).bind point |>.bind digits |>.bind point |>.bind digits with
  | some rest => isTag rest
  | none => false

/-- The components in turn; the shorter list goes on with zeros. -/
def compareParts : List Nat → List Nat → Ordering
  | [], bs => if bs.all (· = 0) then .eq else .lt
  | a :: as, bs =>
    let b := bs.headD 0
    if a = b then compareParts as bs.tail else if a > b then .gt else .lt

def compareSemver (number : Numbers) (a b : Str) : Ordering :=
  let parse (v : Str) := (v.splitOn dot).map fun part => (number part).getD 0
  compareParts (parse a) (parse b)

/-- A text that was given, trimmed; one that is empty then counts as none. -/
def given (value : Option Str) : Option Str :=
  value.bind fun s => if (Ipc.trim s).isEmpty then none else some (Ipc.trim s)

/-! ## Metadata -/

/-- The binary for the platform and the architecture, if there is one, may have a hash. -/
structure Metadata where
  latestVersion : Str
  minSupportedVersion : Option Str
  forceUpdate : Bool
  allowDowngrade : Bool
  binary : Option (Option Str)

inductive CheckReason
  | invalidLatestVersion
  | missingBinaryMetadata
  | downgradeBlocked
  | forcedUpdate
  | minSupportedBreach
  | sameVersion
  | newVersionAvailable
  deriving DecidableEq

def CheckReason.available : CheckReason → Bool
  | .forcedUpdate => true
  | .minSupportedBreach => true
  | .newVersionAvailable => true
  | _ => false

def checkForAvailableUpdate (number : Numbers) (currentVersion : Str) (metadata : Metadata) :
    CheckReason :=
  let latestVersion := Ipc.trim metadata.latestVersion
  if latestVersion.isEmpty || !looksLikeSemver latestVersion then .invalidLatestVersion
  else if metadata.binary.isNone then .missingBinaryMetadata
  else
    let cmp := compareSemver number currentVersion latestVersion
    let minSupported := metadata.minSupportedVersion.any fun v =>
      !v.isEmpty && looksLikeSemver v && compareSemver number currentVersion v == .lt
    if cmp == .gt && !metadata.allowDowngrade then .downgradeBlocked
    else if metadata.forceUpdate then .forcedUpdate
    else if minSupported then .minSupportedBreach
    else if cmp != .lt then .sameVersion
    else .newVersionAvailable

theorem compareParts_self (as : List Nat) : compareParts as as = .eq := by
  induction as with
  | nil => rfl
  | cons a as ih =>
    rw [compareParts, List.headD_cons, if_pos rfl, List.tail_cons, ih]

/-- The version that runs is no update, unless the backend forces it or asks for a newer one. -/
theorem checkForAvailableUpdate_self (number : Numbers) {currentVersion : Str} {metadata : Metadata}
    (hlatest : Ipc.trim metadata.latestVersion = currentVersion) (hforce : metadata.forceUpdate = false)
    (hmin : metadata.minSupportedVersion = none) :
    (checkForAvailableUpdate number currentVersion metadata).available = false := by
  have hcmp : compareSemver number currentVersion currentVersion = .eq := compareParts_self _
  unfold checkForAvailableUpdate
  dsimp only
  rw [hlatest, hcmp, hforce, hmin]
  split
  · rfl
  · split <;> rfl

end Update

/-!
# The self-update task

`runUpdateTask` of `update-task.ts` with its three callers: the scheduler, the pushes and the jobs. A
call goes from await to await; everything else may happen in between. The record of the attempt is one
file for all calls.
-/

namespace Update

inductive Platform
  | windows
  | macos
  | linux
  | other
  deriving DecidableEq

structure Host where
  platform : Platform
  version : Str
  number : Numbers

/-! ## The record -/

/-- `update-state.json`. Instants are in milliseconds. -/
structure UpdateState where
  lastCheckedAtUtc : Option Nat
  lastAttemptedVersion : Option Str
  lastAttemptedAtUtc : Option Nat
  installStartedAtUtc : Option Nat
  lastSuccessVersion : Option Str
  lastServedBy : Option Str
  updateInProgress : Bool

def markUpdateFailed (f : UpdateState) : UpdateState :=
  { f with updateInProgress := false, installStartedAtUtc := none }

def markUpdateSucceeded (version : Str) (f : UpdateState) : UpdateState :=
  { f with
    updateInProgress := false, lastSuccessVersion := some version, installStartedAtUtc := none }

def attemptStarted (version : Str) (now : Nat) (f : UpdateState) : UpdateState :=
  { f with
    updateInProgress := true, lastServedBy := none, lastAttemptedVersion := some version
    lastAttemptedAtUtc := some now }

def installStarted (version : Str) (now : Nat) (f : UpdateState) : UpdateState :=
  { f with
    updateInProgress := true, installStartedAtUtc := some now, lastAttemptedAtUtc := some now
    lastAttemptedVersion := some version }

def signatureInvalid (version : Str) (now : Nat) (f : UpdateState) : UpdateState :=
  { markUpdateFailed f with lastAttemptedAtUtc := some now, lastAttemptedVersion := some version }

def TEN_MINUTES : Nat := 10 * 60 * 1000

/-- The version that was attempted runs already. -/
def pendingSucceeded (h : Host) (f : UpdateState) : Option Str :=
  let attemptedVersion := Ipc.trim (f.lastAttemptedVersion.getD [])
  if !f.updateInProgress || attemptedVersion.isEmpty || !looksLikeSemver attemptedVersion then none
  else if compareSemver h.number h.version attemptedVersion != .lt then some attemptedVersion
  else none

/-- An attempt is in progress, and not for ten minutes. -/
def inProgress (now : Nat) (f : UpdateState) : Bool :=
  f.updateInProgress && now < ((f.installStartedAtUtc <|> f.lastAttemptedAtUtc).getD 0) + TEN_MINUTES

def shouldCheckNow (now intervalMs : Nat) (f : UpdateState) : Bool :=
  f.lastCheckedAtUtc.all fun last => last = 0 || last + intervalMs ≤ now

/-! ## Other guards -/

inductive Operation
  | patchInstall
  | patchRemediate
  | softwareInstall
  | aspAssess
  deriving DecidableEq

structure Operations where
  patchInstall : Bool
  patchRemediate : Bool
  softwareInstall : Bool
  aspAssess : Bool
  deriving DecidableEq

def privilegedOperationInFlight (o : Operations) : Option Operation :=
  if o.patchInstall then some .patchInstall
  else if o.patchRemediate then some .patchRemediate
  else if o.softwareInstall then some .softwareInstall
  else if o.aspAssess then some .aspAssess
  else none

structure BatteryRuntime where
  present : Bool
  percent : Option Nat
  isCharging : Option Bool
  acConnected : Option Bool

def UPDATE_MIN_BATTERY_PERCENT : Nat := 10

def batteryBlocksUpdate (battery : Option BatteryRuntime) : Option Nat :=
  match battery with
  | none => none
  | some b =>
    match b.percent with
    | none => none
    | some percent =>
      if !b.present || b.acConnected == some true || b.isCharging == some true then none
      else if percent < UPDATE_MIN_BATTERY_PERCENT then some percent
      else none

structure RunningInstaller where
  pid : Nat
  elapsedSec : Nat

inductive InstallerGuard
  | none
  | wait (pid elapsedSec : Nat)
  | stalled (pids : List Nat) (oldestSec : Nat)

def INSTALLER_STALL_SEC : Nat := 30 * 60

def decideInstallerGuard : List RunningInstaller → InstallerGuard
  | [] => .none
  | first :: rest =>
    let oldest := rest.foldl (fun a b => if b.elapsedSec > a.elapsedSec then b else a) first
    if INSTALLER_STALL_SEC ≤ oldest.elapsedSec then
      .stalled ((first :: rest).map RunningInstaller.pid) oldest.elapsedSec
    else
      let newest := rest.foldl (fun a b => if b.elapsedSec < a.elapsedSec then b else a) first
      .wait newest.pid newest.elapsedSec

/-! ## Calls -/

structure Request where
  force : Bool
  intervalMs : Nat
  targetVersion : Option Str
  downloadUrl : Option Str
  expectedHash : Option Str
  dpBaseUrls : List Str

inductive SkipReason
  | platformNotSupported
  | missingCurrentVersion
  | updateAlreadyInProgress
  | privilegedOperation (op : Operation)
  | checkIntervalNotElapsed
  | batteryLow (percent : Nat)
  | installerRunning (pid elapsedSec : Nat)
  | latestAlreadyInstalled
  | noUpdate (reason : CheckReason)
  deriving DecidableEq

inductive FailReason
  | installerStalled (count oldestSec : Nat)
  | jobPayloadOverrideIncomplete
  | noCompatibleBinary
  | missingExpectedHash
  | installerNotLaunched
  | thrown
  deriving DecidableEq

/-- A call with an override does not catch what its download throws. -/
inductive UpdateOutcome
  | started (version servedBy : Str)
  | skipped (reason : SkipReason)
  | failed (error : FailReason)
  | rejected
  deriving DecidableEq

structure Attempt where
  version : Str
  override : Bool
  deriving DecidableEq

/-- How the installer is launched: it starts, the task scheduler refuses it, or it throws. -/
inductive Launch
  | starts
  | refuses
  | throws
  deriving DecidableEq

/-- What a call waits for. A push is `queued` until the next turn of the loop; `performed` is an update
that is over and that the task has not taken note of yet. -/
inductive Phase
  | absent
  | queued (req : Request)
  | battery (req : Request)
  | metadata (req : Request)
  | sources (a : Attempt)
  | download (a : Attempt)
  | verify (a : Attempt)
  | install (a : Attempt)
  | performed (a : Attempt) (run : Option Bool)
  | done (outcome : UpdateOutcome)
  | released (outcome : UpdateOutcome)

/-- The call is past its guards, and its installer is still to come. -/
def Phase.isPast : Phase → Bool
  | .battery _ => true
  | .metadata _ => true
  | .sources _ => true
  | .download _ => true
  | .verify _ => true
  | _ => false

inductive Caller
  | tick
  | push
  | job
  deriving DecidableEq

structure CallId where
  caller : Caller
  number : Nat
  deriving DecidableEq

/-- `tick` is when the scheduler's worker started, while it runs. `installers` are the calls whose
installer is a child of the agent. -/
structure State where
  now : Nat
  file : UpdateState
  operations : Operations
  agentUpdateInProgress : Bool
  tick : Option Nat
  installers : List CallId
  calls : CallId → Phase
  history : List (Lease.Entry CallId)

namespace State

def goto (s : State) (id : CallId) (phase : Phase) : State :=
  { s with calls := Function.update s.calls id phase }

/-- The attempt of the call is marked failed. -/
def markFailed (s : State) (id : CallId) : State :=
  { s with file := markUpdateFailed s.file, history := .closed id :: s.history }

/-- Whatever attempt the record has is over. -/
def settle (s : State) (file : UpdateState) : State :=
  { s with file := file, history := .settled :: s.history }

end State

/-! ## From the guards to the installer -/

section Task

variable (h : Host)

def reconcilePendingUpdate (s : State) : State :=
  match pendingSucceeded h s.file with
  | some version => s.settle (markUpdateSucceeded version s.file)
  | none => s

def isVersion (v : Str) : Bool :=
  !v.isEmpty && v != text "undefined" && v != text "null" && looksLikeSemver v

/-- An attempt that is in progress for too long is marked failed. -/
def clearStale (s : State) : State :=
  if s.file.updateInProgress then s.settle (markUpdateFailed s.file) else s

/-- The guards that come after the test for an attempt in progress, up to the first await. -/
def checkGuards (s : State) (id : CallId) (req : Request) : State :=
  let s := { s with history := .looked id :: s.history }
  match privilegedOperationInFlight s.operations with
  | some op => s.goto id (.done (.skipped (.privilegedOperation op)))
  | none =>
    if !req.force && !shouldCheckNow s.now req.intervalMs s.file then
      s.goto id (.done (.skipped .checkIntervalNotElapsed))
    else s.goto id (.battery req)

def runUpdateTask (s : State) (id : CallId) (req : Request) : State :=
  if h.platform = .other then s.goto id (.done (.skipped .platformNotSupported))
  else if !isVersion h.version then s.goto id (.done (.skipped .missingCurrentVersion))
  else
    let s := reconcilePendingUpdate h s
    if inProgress s.now s.file then s.goto id (.done (.skipped .updateAlreadyInProgress))
    else checkGuards (clearStale s) id req

/-- The download begins, at the distribution points if there are any. -/
def perform (s : State) (id : CallId) (req : Request) (a : Attempt) : State :=
  { s with
    file := attemptStarted a.version s.now s.file
    history := .raised id s.now :: s.history }.goto id
      (if req.dpBaseUrls.isEmpty then .download a else .sources a)

/-- The job may say what to install; with half of that it is refused. -/
def onOverride (s : State) (id : CallId) (req : Request) : State :=
  match given req.downloadUrl, given req.expectedHash, given req.targetVersion with
  | some _, some _, some version => perform s id req ⟨version, true⟩
  | some _, none, _ => s.goto id (.done (.failed .jobPayloadOverrideIncomplete))
  | none, some _, _ => s.goto id (.done (.failed .jobPayloadOverrideIncomplete))
  | _, _, _ => s.goto id (.metadata req)

def onBattery (s : State) (id : CallId) (req : Request) (battery : Option BatteryRuntime)
    (running : List RunningInstaller) : State :=
  match batteryBlocksUpdate battery with
  | some percent => s.goto id (.done (.skipped (.batteryLow percent)))
  | none =>
    match if h.platform = .macos then decideInstallerGuard running else .none with
    | .wait pid elapsedSec => s.goto id (.done (.skipped (.installerRunning pid elapsedSec)))
    | .stalled pids oldestSec =>
      (s.markFailed id).goto id (.done (.failed (.installerStalled pids.length oldestSec)))
    | .none => onOverride s id req

/-- The record is read again here. -/
def isInstalled (f : UpdateState) (latestVersion : Str) : Bool :=
  !latestVersion.isEmpty && f.lastAttemptedVersion == some latestVersion && f.lastSuccessVersion == some latestVersion

def onMetadata (s : State) (id : CallId) (req : Request) (answer : Option Metadata) : State :=
  match answer with
  | none => (s.markFailed id).goto id (.done (.failed .thrown))
  | some metadata =>
    let reason := checkForAvailableUpdate h.number h.version metadata
    let latestVersion := Ipc.trim metadata.latestVersion
    if isInstalled s.file latestVersion then s.goto id (.done (.skipped .latestAlreadyInstalled))
    else if !reason.available then s.goto id (.done (.skipped (.noUpdate reason)))
    else
      match metadata.binary with
      | none => s.goto id (.done (.failed .noCompatibleBinary))
      | some hash =>
        if (hash.getD []).isEmpty then s.goto id (.done (.failed .missingExpectedHash))
        else perform s id req ⟨(given req.targetVersion).getD latestVersion, false⟩

/-- Notes that the installer is about to start, and starts it. On Linux the privileged service is asked
to; on the other platforms the call waits no more. -/
def launch (s : State) (id : CallId) (a : Attempt) (l : Launch) : State :=
  let s := { s with file := installStarted a.version s.now s.file }
  let launched := { s with history := .renewed id s.now :: s.history }
  match h.platform, l with
  | .linux, _ => launched.goto id (.install a)
  | .macos, .starts =>
    { launched with installers := id :: s.installers }.goto id (.performed a (some true))
  | _, .starts => launched.goto id (.performed a (some true))
  | _, .refuses => s.goto id (.performed a (some false))
  | _, .throws => s.goto id (.performed a none)

/-- On Windows the signature is looked at first. -/
def downloaded (s : State) (id : CallId) (a : Attempt) (l : Launch) : State :=
  if h.platform = .windows then s.goto id (.verify a) else launch h s id a l

/-- Without a copy from a distribution point the download is a direct one. -/
def onSources (s : State) (id : CallId) (a : Attempt) (servedBy : Option Str) (l : Launch) : State :=
  match servedBy with
  | some tier => downloaded h { s with file := { s.file with lastServedBy := some tier } } id a l
  | none => s.goto id (.download a)

def onDownload (s : State) (id : CallId) (a : Attempt) (ok : Bool) (l : Launch) : State :=
  if ok then downloaded h s id a l else s.goto id (.performed a none)

def onVerify (s : State) (id : CallId) (a : Attempt) (trusted : Bool) (l : Launch) : State :=
  if trusted then launch h s id a l
  else
    { s with
      file := signatureInvalid a.version s.now s.file
      history := .closed id :: s.history }.goto id (.performed a none)

/-- The task takes note of what became of the update. -/
def onPerformed (s : State) (id : CallId) (a : Attempt) (run : Option Bool) : State :=
  match run with
  | some true => s.goto id (.done (.started a.version (s.file.lastServedBy.getD (text "origin"))))
  | some false => (s.markFailed id).goto id (.done (.failed .installerNotLaunched))
  | none =>
    if a.override then s.goto id (.done .rejected)
    else (s.markFailed id).goto id (.done (.failed .thrown))

end Task

/-! ## Callers and operations -/

def WORKER_STUCK_TIMEOUT_MS : Nat := 30 * 60 * 1000

section Machine

variable (h : Host)

/-- The scheduler waits for its worker, unless it has been running for too long. -/
def onTick (s : State) (id : CallId) (dpBaseUrls : List Str) : State :=
  if s.tick.any fun startedAt => s.now ≤ startedAt + WORKER_STUCK_TIMEOUT_MS then s
  else runUpdateTask h { s with tick := some s.now } id ⟨true, 6 * 60 * 60 * 1000, none, none, none, dpBaseUrls⟩

def onPush (s : State) (id : CallId) (version : Str) (dpBaseUrls : List Str) : State :=
  if s.agentUpdateInProgress || (Ipc.trim version).isEmpty then s
  else
    { s with agentUpdateInProgress := true }.goto id
      (.queued ⟨false, 6 * 60 * 60 * 1000, some (Ipc.trim version), none, none, dpBaseUrls⟩)

def onJob (s : State) (id : CallId) (version : Str) (downloadUrl expectedHash : Option Str)
    (dpBaseUrls : List Str) : State :=
  if s.agentUpdateInProgress || (Ipc.trim version).isEmpty then s
  else
    runUpdateTask h { s with agentUpdateInProgress := true } id
      ⟨false, 6 * 60 * 60 * 1000, some (Ipc.trim version), downloadUrl, expectedHash, dpBaseUrls⟩

/-- The caller lets the next call come. -/
def onRelease (s : State) (id : CallId) (outcome : UpdateOutcome) : State :=
  match id.caller with
  | .tick => { s with tick := none }.goto id (.released outcome)
  | _ => { s with agentUpdateInProgress := false }.goto id (.released outcome)

/-- The handler of an operation lets it begin. A posture run has looked at the flag of the updates
before it sent its acknowledgement. -/
def admits (s : State) : Operation → Bool
  | .patchInstall => !s.operations.patchInstall && !s.operations.patchRemediate && !s.agentUpdateInProgress
  | .patchRemediate => !s.operations.patchRemediate && !s.operations.patchInstall
  | .softwareInstall => !s.operations.softwareInstall
  | .aspAssess => h.platform = .windows

def Operations.set (o : Operations) (op : Operation) (running : Bool) : Operations :=
  match op with
  | .patchInstall => { o with patchInstall := running }
  | .patchRemediate => { o with patchRemediate := running }
  | .softwareInstall => { o with softwareInstall := running }
  | .aspAssess => { o with aspAssess := running }

inductive Event
  | wait (ms : Nat)
  | tick (number : Nat) (dpBaseUrls : List Str)
  | push (number : Nat) (version : Str) (dpBaseUrls : List Str)
  | job (number : Nat) (version : Str) (downloadUrl expectedHash : Option Str) (dpBaseUrls : List Str)
  | immediate (id : CallId)
  | battery (id : CallId) (battery : Option BatteryRuntime) (running : List RunningInstaller)
  | metadata (id : CallId) (answer : Option Metadata)
  | sources (id : CallId) (servedBy : Option Str) (l : Launch)
  | download (id : CallId) (ok : Bool) (l : Launch)
  | verify (id : CallId) (trusted : Bool) (l : Launch)
  | install (id : CallId) (ok : Bool)
  | performed (id : CallId)
  | installerFails (id : CallId)
  | release (id : CallId)
  | begins (op : Operation)
  | ends (op : Operation)

/-- A call that does not wait for an event is not touched by it. -/
def onCall (s : State) (id : CallId) : Event → Phase → State
  | .tick _ dpBaseUrls, .absent => onTick h s id dpBaseUrls
  | .push _ version dpBaseUrls, .absent => onPush s id version dpBaseUrls
  | .job _ version url hash dpBaseUrls, .absent => onJob h s id version url hash dpBaseUrls
  | .immediate _, .queued req => runUpdateTask h s id req
  | .battery _ battery running, .battery req => onBattery h s id req battery running
  | .metadata _ answer, .metadata req => onMetadata h s id req answer
  | .sources _ servedBy l, .sources a => onSources h s id a servedBy l
  | .download _ ok l, .download a => onDownload h s id a ok l
  | .verify _ trusted l, .verify a => onVerify h s id a trusted l
  | .install _ ok, .install a => s.goto id (.performed a (if ok then some true else none))
  | .performed _, .performed a run => onPerformed s id a run
  | .release _, .done outcome => onRelease s id outcome
  | _, _ => s

def Event.id : Event → Option CallId
  | .tick number _ => some ⟨.tick, number⟩
  | .push number _ _ => some ⟨.push, number⟩
  | .job number _ _ _ _ => some ⟨.job, number⟩
  | .immediate id => some id
  | .battery id _ _ => some id
  | .metadata id _ => some id
  | .sources id _ _ => some id
  | .download id _ _ => some id
  | .verify id _ _ => some id
  | .install id _ => some id
  | .performed id => some id
  | .release id => some id
  | _ => none

def step (s : State) (e : Event) : State :=
  match e with
  | .wait ms => { s with now := s.now + ms }
  | .begins op =>
    if admits h s op then { s with operations := s.operations.set op true } else s
  | .ends op => { s with operations := s.operations.set op false }
  | .installerFails id => if s.installers.contains id then s.markFailed id else s
  | e =>
    match e.id with
    | some id => onCall h s id e (s.calls id)
    | none => s

/-- The agent starts with the record that an earlier process left. -/
def machine (now : Nat) (file : UpdateState) : Machine State Event where
  init := ⟨now, file, ⟨false, false, false, false⟩, false, none, [], fun _ => .absent, []⟩
  step := step h

end Machine

end Update
