-- SUMMARY: The passes of the security enforcer: what becomes of each check, and the events that are sent of it.
import Tracenium.Ipc.Wire
import Mathlib.Logic.Function.Basic

/-!
`runSecurityEnforce` and `emitSecurityEnforceEvents` of `enforcer.ts`. A pass goes over the checks in turn,
reads the state of each and remediates it where the policy says so. An answer of the privileged service that
is a rejected promise ends the pass.
-/

open Utf16 Json

namespace Security

/-! ## The policy -/

inductive SecurityMode
  | auto
  | reportOnly
  | off
  deriving DecidableEq

inductive CapabilityKey
  | firewall
  | ssh
  | tls
  | smb
  | gatekeeper
  | remoteLogin
  | sip
  | filevault
  deriving DecidableEq

inductive Platform
  | linux
  | win32
  | darwin
  | other
  deriving DecidableEq

/-- A capability as it is sanitized: its mode, and its other fields as they are. -/
structure Capability where
  mode : Option SecurityMode
  field : Str → Option Json

structure SecurityPolicy where
  defaultMode : Option SecurityMode
  cooldownMinutes : Option Nat
  capability : CapabilityKey → Option Capability

structure RemediatorEntry where
  capability : CapabilityKey
  subfield : Str
  checkId : Str
  oses : List Platform
  policyHasValue : Capability → Bool
  desiredEqual : Capability → Bool

/-- `typeof cap?.[name] === "boolean"`. -/
def isFlag (name : Str) (cap : Capability) : Bool :=
  match cap.field name with
  | some (.bool _) => true
  | _ => false

/-- `cap?.[name] === value`. -/
def isFlagOf (name : Str) (value : Bool) (cap : Capability) : Bool :=
  match cap.field name with
  | some (.bool b) => b == value
  | _ => false

def isWordOf (name value : Str) (cap : Capability) : Bool :=
  match cap.field name with
  | some (.str s) => s == value
  | _ => false

/-- A remediator that brings a flag of the policy about. -/
def flagRemediator (capability : CapabilityKey) (subfield checkId : Str) (os : Platform) (value : Bool) :
    RemediatorEntry :=
  ⟨capability, subfield, checkId, [os], isFlag subfield, isFlagOf subfield value⟩

def SECURITY_CAPABILITY_REMEDIATORS : List RemediatorEntry :=
  [flagRemediator .firewall (text "required") (text "linux.firewall.enabled") .linux true,
    flagRemediator .firewall (text "required") (text "windows.firewall.profiles_enabled") .win32 true,
    flagRemediator .firewall (text "required") (text "macos.firewall.enabled") .darwin true,
    { capability := .ssh, subfield := text "permitRootLogin", checkId := text "linux.ssh.root_login_disabled"
      oses := [.linux], policyHasValue := fun cap => (cap.field (text "permitRootLogin")).isSome
      desiredEqual := isWordOf (text "permitRootLogin") (text "no") },
    flagRemediator .ssh (text "passwordAuthentication") (text "linux.ssh.password_auth_disabled") .linux false,
    flagRemediator .ssh (text "weakKexDisabled") (text "linux.cryptography.weak_ssh_kex_disabled") .linux true,
    flagRemediator .tls (text "legacyDisabled") (text "windows.cryptography.legacy_tls_disabled") .win32 true,
    flagRemediator .tls (text "weakCiphersDisabled") (text "windows.cryptography.weak_ciphers_disabled")
      .win32 true,
    flagRemediator .smb (text "smbv1Disabled") (text "windows.network_sharing.smbv1_disabled") .win32 true,
    flagRemediator .gatekeeper (text "required") (text "macos.gatekeeper.enabled") .darwin true,
    flagRemediator .remoteLogin (text "disabled") (text "macos.remote_login.disabled") .darwin true,
    flagRemediator .sip (text "required") (text "macos.sip.enabled") .darwin true,
    flagRemediator .filevault (text "required") (text "macos.filevault.enabled") .darwin true]

/-- `auto` writes on the device, which takes the `pmp` plugin. -/
def effectiveMode (cap : Capability) (policy : SecurityPolicy) (mayRemediate : Bool) : SecurityMode :=
  let resolved := (cap.mode <|> policy.defaultMode).getD .reportOnly
  if resolved = .auto ∧ mayRemediate = false then .reportOnly else resolved

def AUTO_GUARDED_CHECK_IDS : List Str :=
  [text "windows.firewall.profiles_enabled", text "linux.firewall.enabled", text "macos.firewall.enabled"]

def guardedMode (checkId : Str) (mode : SecurityMode) : SecurityMode :=
  if mode = .auto ∧ AUTO_GUARDED_CHECK_IDS.contains checkId then .reportOnly else mode

def COOLDOWN_DEFAULT_MS : Nat := 60 * 60 * 1000
def ENFORCE_PASS_TIMEOUT_MS : Nat := 5 * 60 * 1000

def cooldownMs (policy : SecurityPolicy) : Nat :=
  match policy.cooldownMinutes with
  | some minutes => if 0 < minutes then minutes * 60 * 1000 else COOLDOWN_DEFAULT_MS
  | none => COOLDOWN_DEFAULT_MS

/-! ## Outcomes -/

inductive EnforceOutcome
  | skippedOff
  | skippedNoValue
  | skippedWrongOs
  | skippedUnenforceableDesired
  | skippedCooldown
  | skippedLocked
  | skippedNoRemediator
  | compliant
  | driftReportOnly
  | driftRemediated
  | driftRemediationFailed
  | driftRemediationRebooting
  | error
  deriving DecidableEq

/-- `AUDITABLE_OUTCOMES`. -/
def EnforceOutcome.auditable : EnforceOutcome → Bool
  | .driftReportOnly => true
  | .driftRemediated => true
  | .driftRemediationRebooting => true
  | .driftRemediationFailed => true
  | .skippedUnenforceableDesired => true
  | .error => true
  | _ => false

def AUDIT_EVENT_TYPES : EnforceOutcome → Option Str
  | .driftReportOnly => some (text "SECURITY_DRIFT_DETECTED")
  | .driftRemediated => some (text "SECURITY_DRIFT_REMEDIATED")
  | .driftRemediationRebooting => some (text "SECURITY_DRIFT_REMEDIATION_REBOOTING")
  | .driftRemediationFailed => some (text "SECURITY_DRIFT_REMEDIATION_FAILED")
  | .skippedUnenforceableDesired => some (text "SECURITY_POLICY_UNENFORCEABLE")
  | .error => some (text "SECURITY_ENFORCE_ERROR")
  | _ => none

structure EnforceResult where
  checkId : Str
  capability : CapabilityKey
  subfield : Str
  mode : SecurityMode
  outcome : EnforceOutcome
  durationMs : Int
  detail : Option Str
  deriving DecidableEq

/-! ## The privileged service -/

structure PrivError where
  code : Option Str
  message : Option Str

inductive PrivAnswer (α : Type)
  | rejects
  | failed (e : PrivError)
  | ok (result : α)

/-- `err?.code || fallback`. -/
def PrivError.codeOr (e : PrivError) (fallback : Str) : Str :=
  match e.code with
  | some (u :: code) => u :: code
  | _ => fallback

/-- The `reason` of `privFailureReason`. -/
def privFailureReason (e : PrivError) (fallback : Str) : Str :=
  let msg := (Ipc.trim (e.message.getD [])).take 300
  if msg.isEmpty then e.codeOr fallback else e.codeOr fallback ++ text ": " ++ msg

/-- What a pass gets to know about a check: the clock at its stations, whether the read state is compliant,
whether the lock is free, and whether the remediation requires a reboot. -/
structure Turn where
  deadlineNow : Nat
  cooldownNow : Nat
  cooldownSaid : Nat
  itemStart : Nat
  itemEnd : Nat
  appliedAt : Nat
  read : PrivAnswer Bool
  acquired : Bool
  applied : PrivAnswer Bool

structure PassInput where
  policy : Option SecurityPolicy
  platform : Platform
  mayRemediate : Bool
  passStart : Nat
  turn : Str → Turn
  occurredAtUtc : Nat
  factsBuilt : Bool
  enqueues : Bool

structure State where
  lastAppliedAt : Str → Option Nat
  lastEmittedOutcome : Str → Option EnforceOutcome

/-! ## A check -/

inductive EntryEnd
  | skips
  | gives (r : EnforceResult)
  | applies (r : EnforceResult) (now : Nat)
  | rejects

def RemediatorEntry.result (e : RemediatorEntry) (mode : SecurityMode) (outcome : EnforceOutcome)
    (durationMs : Int) (detail : Option Str) : EnforceResult :=
  ⟨e.checkId, e.capability, e.subfield, mode, outcome, durationMs, detail⟩

def decimalInt : Int → Str
  | .ofNat n => decimal n
  | .negSucc n => text "-" ++ decimal (n + 1)

/-- `Math.round` of the seconds. -/
def cooldownDetail (now last : Nat) : Str :=
  text "Cooldown active (last applied " ++ decimalInt (((now : Int) - last + 500) / 1000) ++ text "s ago)."

def outcomeOfReboot (requiresReboot : Bool) : EnforceOutcome :=
  if requiresReboot then .driftRemediationRebooting else .driftRemediated

/-- From the read state of a check on. -/
def enforceRead (e : RemediatorEntry) (mode : SecurityMode) (t : Turn) : EntryEnd :=
  let took : Int := (t.itemEnd : Int) - t.itemStart
  match t.read with
  | .rejects => .rejects
  | .failed error =>
    .gives (e.result mode .error took
      (some (text "read_check_state failed: " ++ error.codeOr (text "read_state_failed"))))
  | .ok true => .gives (e.result mode .compliant took none)
  | .ok false =>
    if mode = .reportOnly then .gives (e.result mode .driftReportOnly took none)
    else if !t.acquired then
      .gives (e.result mode .skippedLocked took (some (text "another remediation in progress")))
    else
      match t.applied with
      | .rejects => .rejects
      | .failed error =>
        .gives (e.result mode .driftRemediationFailed took
          (some (privFailureReason error (text "remediate_failed"))))
      | .ok requiresReboot =>
        .applies (e.result mode (outcomeOfReboot requiresReboot) took
          (if requiresReboot then some (text "reboot required to fully apply") else none)) t.appliedAt

def enforceEntry (input : PassInput) (policy : SecurityPolicy) (lastAppliedAt : Str → Option Nat)
    (e : RemediatorEntry) : EntryEnd :=
  match policy.capability e.capability with
  | none => .skips
  | some cap =>
    let mode := guardedMode e.checkId (effectiveMode cap policy input.mayRemediate)
    let t := input.turn e.checkId
    if mode = .off then .gives (e.result mode .skippedOff 0 none)
    else if !e.policyHasValue cap then .gives (e.result mode .skippedNoValue 0 none)
    else if !e.oses.contains input.platform then .gives (e.result mode .skippedWrongOs 0 none)
    else if !e.desiredEqual cap then
      .gives (e.result mode .skippedUnenforceableDesired 0
        (some (text "Remediator " ++ e.checkId ++ text " cannot reach the requested state.")))
    else
      let last := (lastAppliedAt e.checkId).getD 0
      if mode = .auto ∧ t.cooldownNow < last + cooldownMs policy then
        .gives (e.result mode .skippedCooldown 0 (some (cooldownDetail t.cooldownSaid last)))
      else enforceRead e mode t

/-! ## A pass -/

structure Progress where
  results : List EnforceResult
  lastAppliedAt : Str → Option Nat
  rejected : Bool

/-- The checks in turn, until the deadline is over or a call is rejected. -/
def enforceLoop (input : PassInput) (policy : SecurityPolicy) : List RemediatorEntry → Progress → Progress
  | [], p => p
  | e :: es, p =>
    if input.passStart + ENFORCE_PASS_TIMEOUT_MS < (input.turn e.checkId).deadlineNow then p
    else
      match enforceEntry input policy p.lastAppliedAt e with
      | .skips => enforceLoop input policy es p
      | .gives r => enforceLoop input policy es { p with results := p.results ++ [r] }
      | .applies r now =>
        enforceLoop input policy es
          { p with
            results := p.results ++ [r]
            lastAppliedAt := Function.update p.lastAppliedAt e.checkId (some now) }
      | .rejects => { p with rejected := true }

structure SecurityEnforceEvent where
  occurredAtUtc : Nat
  capability : CapabilityKey
  subfield : Str
  checkId : Str
  mode : SecurityMode
  outcome : EnforceOutcome
  eventType : Str
  durationMs : Int
  detail : Option Str
  deriving DecidableEq

/-- The event of a result, unless its outcome is not auditable or the one that was recorded last. -/
def eventOf (lastEmittedOutcome : Str → Option EnforceOutcome) (occurredAtUtc : Nat) (r : EnforceResult) :
    Option SecurityEnforceEvent :=
  if !r.outcome.auditable || lastEmittedOutcome r.checkId == some r.outcome then none
  else (AUDIT_EVENT_TYPES r.outcome).map fun eventType =>
    ⟨occurredAtUtc, r.capability, r.subfield, r.checkId, r.mode, r.outcome, eventType, r.durationMs, r.detail⟩

def recordOutcomes (lastEmittedOutcome : Str → Option EnforceOutcome) (results : List EnforceResult) :
    Str → Option EnforceOutcome :=
  results.foldl (fun m r => Function.update m r.checkId (some r.outcome)) lastEmittedOutcome

/-- The results of a pass as far as it came, whether it was rejected, and the events that it enqueued. -/
structure Pass where
  results : List EnforceResult
  rejected : Bool
  enqueued : List SecurityEnforceEvent

/-- The outcomes are recorded before the event is built. What is thrown after that is swallowed. -/
def emitSecurityEnforceEvents (input : PassInput) (lastEmittedOutcome : Str → Option EnforceOutcome)
    (results : List EnforceResult) : (Str → Option EnforceOutcome) × List SecurityEnforceEvent :=
  let events := results.filterMap (eventOf lastEmittedOutcome input.occurredAtUtc)
  (recordOutcomes lastEmittedOutcome results, if input.factsBuilt && input.enqueues then events else [])

def runSecurityEnforce (s : State) (input : PassInput) : State × Pass :=
  match input.policy with
  | none => (s, ⟨[], false, []⟩)
  | some policy =>
    let p := enforceLoop input policy SECURITY_CAPABILITY_REMEDIATORS ⟨[], s.lastAppliedAt, false⟩
    if p.rejected then (⟨p.lastAppliedAt, s.lastEmittedOutcome⟩, ⟨p.results, true, []⟩)
    else
      let emitted := emitSecurityEnforceEvents input s.lastEmittedOutcome p.results
      (⟨p.lastAppliedAt, emitted.1⟩, ⟨p.results, false, emitted.2⟩)

/-! ## Passes -/

/-- The maps before each pass. An agent that starts has them empty. -/
def states (inputs : Nat → PassInput) : Nat → State
  | 0 => ⟨fun _ => none, fun _ => none⟩
  | n + 1 => (runSecurityEnforce (states inputs n) (inputs n)).1

def pass (inputs : Nat → PassInput) (n : Nat) : Pass := (runSecurityEnforce (states inputs n) (inputs n)).2

/-- The outcome that a pass recorded for a check. A pass that is rejected records none. -/
def Pass.recorded (p : Pass) (checkId : Str) : Option EnforceOutcome :=
  if p.rejected then none else (p.results.find? fun r => r.checkId == checkId).map EnforceResult.outcome

/-- What the pass before has recorded. -/
def previous (inputs : Nat → PassInput) : Nat → Str → Option EnforceOutcome
  | 0, _ => none
  | n + 1, checkId => (pass inputs n).recorded checkId

/-- The outcome of a `pmp.remediate` that succeeded. -/
def EnforceOutcome.remediated : EnforceOutcome → Bool
  | .driftRemediated => true
  | .driftRemediationRebooting => true
  | _ => false

/-- Every remediation that succeeded with an outcome that the pass before has not recorded is in an event
of its pass or of a later one. -/
def Audited (inputs : Nat → PassInput) : Prop :=
  ∀ n, ∀ r ∈ (pass inputs n).results, r.outcome.remediated = true → previous inputs n r.checkId ≠ some r.outcome →
    ∃ m, n ≤ m ∧ ∃ event ∈ (pass inputs m).enqueued, event.checkId = r.checkId ∧ event.outcome = r.outcome

/-- No event tells of an auditable outcome that the pass before has recorded. -/
def NotRepeated (inputs : Nat → PassInput) : Prop :=
  ∀ n, ∀ r ∈ (pass inputs n).results, r.outcome.auditable = true → previous inputs n r.checkId = some r.outcome →
    ∀ event ∈ (pass inputs n).enqueued, event.checkId ≠ r.checkId

end Security
