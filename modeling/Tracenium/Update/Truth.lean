-- SUMMARY: What a call of the self-update task that runs by itself tells of its update, and when that is the truth.
import Tracenium.Update.Exclusion
import Tracenium.LinuxPatch.Scan

/-!
The way of a job that says what to install is outside the `try` block, so what its download throws goes to the caller
and the record stays in progress. The other way takes the hash of the latest version, whatever version it downloads.
-/

open Utf16 Option List

namespace Update

open Ipc

/-! ## A call by itself -/

structure Answers where
  battery : Option BatteryRuntime
  running : List RunningInstaller
  metadata : Option Metadata
  servedBy : Option Str
  downloads : Bool
  trusted : Bool
  installs : Bool
  launch : Launch

section Alone

variable (h : Host) (s : State) (id : CallId) (req : Request) (env : Answers)

/-- The call up to its download. An event that the call does not wait for does nothing. -/
def upToDownload : State :=
  [.battery id env.battery env.running, .metadata id env.metadata].foldl (step h)
    (runUpdateTask h s id req)

/-- The update proper. -/
def performed (t : State) : State :=
  [.sources id env.servedBy env.launch, .download id env.downloads env.launch,
    .verify id env.trusted env.launch, .install id env.installs].foldl (step h) t

def finished : State :=
  step h (performed h id env (upToDownload h s id req env)) (.performed id)

/-! ## What it tells -/

def Begins (a : Attempt) : Prop :=
  (upToDownload h s id req env).calls id = if req.dpBaseUrls.isEmpty then .download a else .sources a

def Throws : Prop := ∃ a, (performed h id env (upToDownload h s id req env)).calls id = .performed a none

def Resolves (outcome : UpdateOutcome) : Prop := (finished h s id req env).calls id = .done outcome

/-- An attempt of the record is marked as a success. -/
def Reconciles (version : Str) : Prop :=
  h.platform ≠ .other ∧ isVersion h.version = true ∧ pendingSucceeded h s.file = some version

end Alone

/-- The hash that the installer is verified against. -/
def expectedHash (lower : Str → Str) (req : Request) (answer : Option Metadata) (a : Attempt) : Option Str :=
  if a.override then (given req.expectedHash).map lower else answer.bind fun metadata => metadata.binary.join

/-- Who publishes a hash for a version. -/
inductive Publishes (lower : Str → Str) (req : Request) (answer : Option Metadata) : Str → Str → Prop
  | job {version hash : Str} : given req.targetVersion = some version →
      given req.expectedHash = some hash → Publishes lower req answer version (lower hash)
  | server {metadata : Metadata} {hash : Str} : answer = some metadata → metadata.binary = some (some hash) →
      Publishes lower req answer (trim metadata.latestVersion) hash

/-- `attemptedFrom` ran when the attempt of the record was made. -/
structure TellsTruth (h : Host) (lower : Str → Str) (attemptedFrom : Str) (s : State) (id : CallId)
    (req : Request) (env : Answers) : Prop where
  resolves : ∃ outcome, Resolves h s id req env outcome ∧ outcome ≠ .rejected
  failed : ∀ error, Resolves h s id req env (.failed error) → (finished h s id req env).file.updateInProgress = false
  threw : Throws h s id req env → (finished h s id req env).file.updateInProgress = false
  installed : Resolves h s id req env (.skipped .latestAlreadyInstalled) → ∃ metadata, env.metadata = some metadata ∧
      compareSemver h.number h.version (trim metadata.latestVersion) ≠ .lt
  reconciled : ∀ version, Reconciles h s version → compareSemver h.number h.version version = .eq ∨
    compareSemver h.number attemptedFrom version = .lt ∧ compareSemver h.number h.version version ≠ .lt
  verified : ∀ a, Begins h s id req env a → ∃ hash, expectedHash lower req env.metadata a = some hash ∧
    Publishes lower req env.metadata a.version hash

/-! ## When it is the truth -/

section Sound

variable (h : Host) (s : State) (req : Request) (env : Answers)

/-- The record once the attempts that are over are marked. -/
def settled : State := clearStale (reconcilePendingUpdate h s)

def Enters : Prop :=
  h.platform ≠ .other ∧ isVersion h.version = true ∧ inProgress s.now (reconcilePendingUpdate h s).file = false ∧
    privilegedOperationInFlight s.operations = none ∧
    (req.force = true ∨ shouldCheckNow s.now req.intervalMs (settled h s).file = true)

def Admitted : Prop :=
  Enters h s req ∧ batteryBlocksUpdate env.battery = none ∧
    (h.platform = .macos → decideInstallerGuard env.running = .none)

/-- The job says what to install. -/
def Overrides : Prop :=
  (given req.downloadUrl).isSome ∧ (given req.expectedHash).isSome ∧ (given req.targetVersion).isSome

def Asks : Prop :=
  (given req.downloadUrl).isSome = (given req.expectedHash).isSome ∧ ¬ Overrides req

def Fails : Prop :=
  ((req.dpBaseUrls.isEmpty = true ∨ env.servedBy = none) ∧ env.downloads = false) ∨
    (h.platform = .windows ∧ env.trusted = false) ∨
    (h.platform = .linux ∧ env.installs = false) ∨
    (h.platform ≠ .linux ∧ env.launch = .throws)

def Offers (metadata : Metadata) : Prop :=
  isInstalled s.file (trim metadata.latestVersion) = false ∧
    (checkForAvailableUpdate h.number h.version metadata).available = true ∧
    ∃ hash, metadata.binary = some (some hash) ∧ hash ≠ []

end Sound

structure Sound (h : Host) (attemptedFrom : Str) (s : State) (req : Request) (env : Answers) : Prop where
  override : Admitted h s req env → Overrides req → ¬ Fails h req env
  current : ∀ metadata, Admitted h s req env → Asks req → env.metadata = some metadata →
    isInstalled (settled h s).file (trim metadata.latestVersion) = true →
    compareSemver h.number h.version (trim metadata.latestVersion) ≠ .lt
  upgrade : ∀ version, Reconciles h s version → compareSemver h.number h.version version = .eq ∨
    compareSemver h.number attemptedFrom version = .lt
  latest : ∀ metadata version, Admitted h s req env → Asks req → env.metadata = some metadata →
    Offers h (settled h s) metadata → given req.targetVersion = some version →
    version = trim metadata.latestVersion

/-! ## Events of one call -/

section Events

variable {h : Host} {s t : State} {id : CallId} {req : Request} {env : Answers} {a : Attempt}
  {outcome : UpdateOutcome} {run : Option Bool}

@[simp] theorem goto_calls_self (s : State) (id : CallId) (phase : Phase) :
    (s.goto id phase).calls id = phase := Function.update_self ..

@[simp] theorem goto_file (s : State) (id : CallId) (phase : Phase) : (s.goto id phase).file = s.file := rfl

@[simp] theorem step_battery (b : Option BatteryRuntime) (r : List RunningInstaller) :
    step h t (.battery id b r) = onCall h t id (.battery id b r) (t.calls id) := rfl

@[simp] theorem step_metadata (m : Option Metadata) :
    step h t (.metadata id m) = onCall h t id (.metadata id m) (t.calls id) := rfl

@[simp] theorem step_sources (b : Option Str) (l : Launch) :
    step h t (.sources id b l) = onCall h t id (.sources id b l) (t.calls id) := rfl

@[simp] theorem step_download (ok : Bool) (l : Launch) :
    step h t (.download id ok l) = onCall h t id (.download id ok l) (t.calls id) := rfl

@[simp] theorem step_verify (ok : Bool) (l : Launch) :
    step h t (.verify id ok l) = onCall h t id (.verify id ok l) (t.calls id) := rfl

@[simp] theorem step_install (ok : Bool) :
    step h t (.install id ok) = onCall h t id (.install id ok) (t.calls id) := rfl

@[simp] theorem step_performed : step h t (.performed id) = onCall h t id (.performed id) (t.calls id) := rfl

/-- The installer is launched, on Linux by the service. -/
theorem install_launch (h : Host) (t : State) (id : CallId) (a : Attempt) (l : Launch) (installs : Bool) :
    ∃ run, (step h (launch h t id a l) (.install id installs)).calls id = .performed a run ∧
      (run = none ↔ (h.platform = .linux ∧ installs = false) ∨ (h.platform ≠ .linux ∧ l = .throws)) := by
  unfold launch
  cases h.platform with
  | linux => cases installs <;> simp [onCall]
  | windows => cases l <;> simp [onCall]
  | macos => cases l <;> simp [onCall]
  | other => cases l <;> simp [onCall]

theorem launch_waits (h : Host) (t : State) (id : CallId) (a : Attempt) (l : Launch) :
    (launch h t id a l).calls id = .install a ∨ ∃ run, (launch h t id a l).calls id = .performed a run := by
  unfold launch
  cases h.platform <;> cases l <;> simp

/-- The installer is there; on Windows its signature is looked at. -/
theorem verify_downloaded (h : Host) (t : State) (id : CallId) (a : Attempt) (env : Answers) :
    ∃ run, ([.verify id env.trusted env.launch, .install id env.installs].foldl (step h)
        (downloaded h t id a env.launch)).calls id = .performed a run ∧
      (run = none ↔ (h.platform = .windows ∧ env.trusted = false) ∨
        (h.platform = .linux ∧ env.installs = false) ∨ (h.platform ≠ .linux ∧ env.launch = .throws)) := by
  unfold downloaded
  by_cases hw : h.platform = .windows
  · cases htrusted : env.trusted with
    | false => simp [hw, onCall, onVerify]
    | true =>
      obtain ⟨run, hrun, hnone⟩ := install_launch h (t.goto id (.verify a)) id a env.launch env.installs
      refine ⟨run, ?_, by simp [hnone]⟩
      simpa [hw, onCall, onVerify] using hrun
  · obtain ⟨run, hrun, hnone⟩ := install_launch h t id a env.launch env.installs
    refine ⟨run, ?_, by simp [hnone, hw]⟩
    -- the call does not wait for a signature
    rcases launch_waits h t id a env.launch with hphase | ⟨run', hphase⟩
    · simpa [hw, hphase, onCall] using hrun
    · simpa [hw, hphase, onCall] using hrun

/-- The call that has its installer does not wait for a download. -/
theorem download_downloaded (h : Host) (t : State) (id : CallId) (a : Attempt) (l : Launch) (ok : Bool) :
    step h (downloaded h t id a l) (.download id ok l) = downloaded h t id a l := by
  unfold downloaded
  split
  · simp [onCall]
  · rcases launch_waits h t id a l with hphase | ⟨run, hphase⟩
    · simp [hphase, onCall]
    · simp [hphase, onCall]

/-- The update proper comes to its end, and throws when something fails. -/
theorem performed_begins (ht : t.calls id = if req.dpBaseUrls.isEmpty then .download a else .sources a) :
    ∃ run, (performed h id env t).calls id = .performed a run ∧ (run = none ↔ Fails h req env) := by
  unfold performed Fails
  rw [foldl_cons, foldl_cons, step_sources, ht]
  by_cases hdirect : req.dpBaseUrls.isEmpty ∨ env.servedBy = none
  · -- a download from the origin
    obtain ⟨t', ht', hcalls⟩ : ∃ t', onCall h t id (.sources id env.servedBy env.launch)
        (if req.dpBaseUrls.isEmpty then .download a else .sources a) = t' ∧ t'.calls id = .download a := by
      refine ⟨_, rfl, ?_⟩
      cases hbases : req.dpBaseUrls.isEmpty with
      | true => simpa [onCall, hbases] using ht
      | false =>
        have hnone : env.servedBy = none := by simpa [hbases] using hdirect
        simp [onCall, onSources, hnone]
    rw [ht', step_download, hcalls]
    cases hok : env.downloads with
    | false => exact ⟨none, by simp [onCall, onDownload], iff_of_true rfl (.inl ⟨hdirect, rfl⟩)⟩
    | true =>
      obtain ⟨run, hrun, hnone⟩ := verify_downloaded h t' id a env
      exact ⟨run, by simpa [onCall, onDownload] using hrun, by simp [hnone]⟩
  · -- a distribution point has a copy
    obtain ⟨hbases, hserved⟩ := not_or.mp hdirect
    obtain ⟨tier, htier⟩ := ne_none_iff_exists'.mp hserved
    obtain ⟨run, hrun, hnone⟩ :=
      verify_downloaded h { t with file := { t.file with lastServedBy := some tier } } id a env
    refine ⟨run, ?_, hnone.trans (or_iff_right fun hno => hdirect hno.1).symm⟩
    rw [← download_downloaded] at hrun
    simpa [hbases, htier, onCall, onSources] using hrun

/-- A call that has ended stays as it is. -/
theorem performed_done (ht : t.calls id = .done outcome) : performed h id env t = t := by
  simp [performed, ht, onCall]

theorem metadata_done (ht : t.calls id = .done outcome) (answer : Option Metadata) :
    step h t (.metadata id answer) = t := by
  simp [ht, onCall]

/-! ## Guards -/

/-- What the record says when the call looks at its other guards. -/
theorem settled_updateInProgress (h : Host) (s : State) : (settled h s).file.updateInProgress = false := by
  unfold settled clearStale
  split
  · rfl
  · rename_i hdown
    exact Bool.not_eq_true _ ▸ hdown

theorem reconcilePendingUpdate_now (h : Host) (s : State) : (reconcilePendingUpdate h s).now = s.now ∧
    (reconcilePendingUpdate h s).operations = s.operations := by
  unfold reconcilePendingUpdate
  split <;> exact ⟨rfl, rfl⟩

theorem settled_now (h : Host) (s : State) : (settled h s).now = s.now ∧ (settled h s).operations = s.operations := by
  unfold settled clearStale
  split <;> exact reconcilePendingUpdate_now h s

/-- The guards after the test for an attempt in progress, from a record where none is. -/
theorem checkGuards_cases (t : State) (id : CallId) (req : Request) :
    ((privilegedOperationInFlight t.operations = none ∧
        (req.force ∨ shouldCheckNow t.now req.intervalMs t.file)) ∧
      (checkGuards t id req).calls id = .battery req ∧ (checkGuards t id req).file = t.file) ∨
    (¬ (privilegedOperationInFlight t.operations = none ∧
        (req.force ∨ shouldCheckNow t.now req.intervalMs t.file)) ∧
      ∃ reason, reason ≠ .latestAlreadyInstalled ∧ (checkGuards t id req).calls id = .done (.skipped reason)) := by
  unfold checkGuards
  dsimp only
  cases hidle : privilegedOperationInFlight t.operations with
  | some op => exact .inr ⟨by simp, .privilegedOperation op, by simp, goto_calls_self ..⟩
  | none =>
    by_cases hcheck : req.force ∨ shouldCheckNow t.now req.intervalMs t.file
    · rw [if_neg (by simpa using or_iff_not_imp_left.mp hcheck)]
      exact .inl ⟨⟨rfl, hcheck⟩, goto_calls_self .., rfl⟩
    · rw [if_pos (by simpa using hcheck)]
      exact .inr ⟨fun h => hcheck h.2, .checkIntervalNotElapsed, by simp, goto_calls_self ..⟩

/-- A call that does not get past its first guards is skipped for one of their reasons. -/
theorem runUpdateTask_cases (h : Host) (s : State) (id : CallId) (req : Request) :
    (Enters h s req ∧ (runUpdateTask h s id req).calls id = .battery req ∧
      (runUpdateTask h s id req).file = (settled h s).file) ∨
    (¬ Enters h s req ∧ ∃ reason, reason ≠ .latestAlreadyInstalled ∧
      (runUpdateTask h s id req).calls id = .done (.skipped reason)) := by
  obtain ⟨hnow, hoperations⟩ := settled_now h s
  have hnow' := (reconcilePendingUpdate_now h s).1
  unfold runUpdateTask
  by_cases hplatform : h.platform = .other
  · rw [if_pos hplatform]
    exact .inr ⟨fun henters => henters.1 hplatform, .platformNotSupported, by simp, goto_calls_self ..⟩
  rw [if_neg hplatform]
  by_cases hversion : isVersion h.version
  · rw [if_neg (by simp [hversion])]
    dsimp only
    rw [hnow']
    by_cases hprogress : inProgress s.now (reconcilePendingUpdate h s).file
    · rw [if_pos hprogress]
      exact .inr ⟨fun henters => by simp [henters.2.2.1] at hprogress, .updateAlreadyInProgress, by simp,
        goto_calls_self ..⟩
    · rw [if_neg hprogress]
      have hguards := checkGuards_cases (settled h s) id req
      rw [hnow, hoperations] at hguards
      rcases hguards with ⟨hpass, hcalls, hfile⟩ | ⟨hstop, hended⟩
      · exact .inl ⟨⟨hplatform, hversion, by simpa using hprogress, hpass⟩, hcalls, hfile⟩
      · exact .inr ⟨fun henters => hstop henters.2.2.2, hended⟩
  · rw [if_pos (by simpa using hversion)]
    exact .inr ⟨fun henters => hversion henters.2.1, .missingCurrentVersion, by simp, goto_calls_self ..⟩

/-- The call has ended, the record agrees, and nothing was said of an installed version. -/
structure Plain (t : State) (id : CallId) (outcome : UpdateOutcome) : Prop where
  calls : t.calls id = .done outcome
  rejected : outcome ≠ .rejected
  installed : outcome ≠ .skipped .latestAlreadyInstalled
  failed : ∀ error, outcome = .failed error → t.file.updateInProgress = false

theorem plain_skipped {reason : SkipReason} (ht : t.calls id = .done (.skipped reason))
    (hreason : reason ≠ .latestAlreadyInstalled) : Plain t id (.skipped reason) where
  calls := ht
  rejected := by simp
  installed := by simpa using hreason
  failed := by simp

theorem plain_failed {error : FailReason} (ht : t.calls id = .done (.failed error))
    (hfile : t.file.updateInProgress = false) : Plain t id (.failed error) where
  calls := ht
  rejected := by simp
  installed := by simp
  failed _ _ := hfile

theorem onBattery_admitted {battery : Option BatteryRuntime} {running : List RunningInstaller}
    (hbattery : batteryBlocksUpdate battery = none)
    (hrunning : h.platform = .macos → decideInstallerGuard running = .none) :
    onBattery h t id req battery running = onOverride t id req := by
  unfold onBattery
  rw [hbattery]
  by_cases hmacos : h.platform = .macos
  · simp [hrunning hmacos]
  · simp [hmacos]

/-- The call stops at the battery, or at an installer that still runs. -/
theorem onBattery_ends {battery : Option BatteryRuntime} {running : List RunningInstaller}
    (hstop : ¬ (batteryBlocksUpdate battery = none ∧ (h.platform = .macos → decideInstallerGuard running = .none))) :
    ∃ outcome, Plain (onBattery h t id req battery running) id outcome := by
  unfold onBattery
  cases hbattery : batteryBlocksUpdate battery with
  | some percent => exact ⟨_, plain_skipped (goto_calls_self ..) (by simp)⟩
  | none =>
    have hmacos : h.platform = .macos := by
      by_contra hother
      exact hstop ⟨hbattery, fun h => absurd h hother⟩
    rw [if_pos hmacos]
    cases hrunning : decideInstallerGuard running with
    | none => exact absurd ⟨hbattery, fun _ => hrunning⟩ hstop
    | wait pid elapsedSec => exact ⟨_, plain_skipped (goto_calls_self ..) (by simp)⟩
    | stalled pids oldestSec => exact ⟨_, plain_failed (goto_calls_self ..) rfl⟩

theorem onOverride_overrides (hover : Overrides req) : ∃ version,
    given req.targetVersion = some version ∧ onOverride t id req = perform t id req ⟨version, true⟩ := by
  obtain ⟨hurl, hhash, hversion⟩ := hover
  obtain ⟨url, hurl⟩ := isSome_iff_exists.mp hurl
  obtain ⟨hash, hhash⟩ := isSome_iff_exists.mp hhash
  obtain ⟨version, hversion⟩ := isSome_iff_exists.mp hversion
  exact ⟨version, hversion, by simp [onOverride, hurl, hhash, hversion]⟩

theorem onOverride_asks (hasks : Asks req) : onOverride t id req = t.goto id (.metadata req) := by
  obtain ⟨hboth, hover⟩ := hasks
  unfold Overrides at hover
  unfold onOverride
  cases hurl : given req.downloadUrl <;> cases hhash : given req.expectedHash <;>
    cases hversion : given req.targetVersion <;> simp_all

theorem onOverride_half (hover : ¬ Overrides req) (hasks : ¬ Asks req)
    (hfile : t.file.updateInProgress = false) : ∃ outcome, Plain (onOverride t id req) id outcome := by
  refine ⟨.failed .jobPayloadOverrideIncomplete, plain_failed ?_ ?_⟩
  all_goals
    unfold Asks Overrides at *
    unfold onOverride
    cases hurl : given req.downloadUrl <;> cases hhash : given req.expectedHash <;>
      cases hversion : given req.targetVersion <;> simp_all

theorem perform_calls (t : State) (id : CallId) (req : Request) (a : Attempt) :
    (perform t id req a).calls id = if req.dpBaseUrls.isEmpty then .download a else .sources a :=
  goto_calls_self ..

theorem onMetadata_installed {metadata : Metadata}
    (hinstalled : isInstalled t.file (trim metadata.latestVersion)) :
    onMetadata h t id req (some metadata) = t.goto id (.done (.skipped .latestAlreadyInstalled)) := by
  simp [onMetadata, hinstalled]

theorem onMetadata_offers {metadata : Metadata} (hoffers : Offers h t metadata) :
    onMetadata h t id req (some metadata) =
      perform t id req ⟨(given req.targetVersion).getD (trim metadata.latestVersion), false⟩ := by
  obtain ⟨hfresh, havailable, hash, hbinary, hhash⟩ := hoffers
  simp [onMetadata, hfresh, havailable, hbinary, hhash]

/-- The server does not answer, or has nothing that can be installed. -/
theorem onMetadata_ends {answer : Option Metadata} (hfile : t.file.updateInProgress = false)
    (hnone : ∀ metadata, answer = some metadata →
      isInstalled t.file (trim metadata.latestVersion) = false ∧ ¬ Offers h t metadata) :
    ∃ outcome, Plain (onMetadata h t id req answer) id outcome := by
  cases answer with
  | none => exact ⟨_, plain_failed (goto_calls_self ..) rfl⟩
  | some metadata =>
    obtain ⟨hfresh, hoffers⟩ := hnone metadata rfl
    unfold onMetadata
    simp only [hfresh]
    cases havailable : (checkForAvailableUpdate h.number h.version metadata).available with
    | false => exact ⟨_, plain_skipped (goto_calls_self ..) (by simp)⟩
    | true =>
      cases hbinary : metadata.binary with
      | none => exact ⟨_, plain_failed (goto_calls_self ..) hfile⟩
      | some hash =>
        have hempty : (hash.getD []).isEmpty := by
          cases hash with
          | none => rfl
          | some value =>
            by_contra hvalue
            exact hoffers ⟨hfresh, havailable, value, hbinary, by simpa using hvalue⟩
        simp only [hempty]
        exact ⟨_, plain_failed (goto_calls_self ..) hfile⟩

/-! ## Courses -/

inductive Course (h : Host) (s : State) (id : CallId) (req : Request) (env : Answers) : Prop
  | ends (outcome : UpdateOutcome) (hplain : Plain (upToDownload h s id req env) id outcome)
      (hover : ¬ (Admitted h s req env ∧ Overrides req))
      (hasks : ∀ metadata, env.metadata = some metadata → Admitted h s req env → Asks req →
        isInstalled (settled h s).file (trim metadata.latestVersion) = false ∧ ¬ Offers h (settled h s) metadata)
  | override (version : Str) (hadmitted : Admitted h s req env) (hover : Overrides req)
      (hversion : given req.targetVersion = some version)
      (hbegins : Begins h s id req env ⟨version, true⟩)
  | installed (metadata : Metadata) (hadmitted : Admitted h s req env) (hasks : Asks req)
      (hmetadata : env.metadata = some metadata)
      (hinstalled : isInstalled (settled h s).file (trim metadata.latestVersion) = true)
      (hcalls : (upToDownload h s id req env).calls id = .done (.skipped .latestAlreadyInstalled))
  | offered (metadata : Metadata) (hadmitted : Admitted h s req env) (hasks : Asks req)
      (hmetadata : env.metadata = some metadata) (hoffers : Offers h (settled h s) metadata)
      (hbegins : Begins h s id req env
        ⟨(given req.targetVersion).getD (trim metadata.latestVersion), false⟩)

/-- A download does not wait for the server. -/
theorem metadata_perform (t : State) (id : CallId) (req : Request) (a : Attempt) (answer : Option Metadata) :
    step h (perform t id req a) (.metadata id answer) = perform t id req a := by
  rw [step_metadata, perform_calls]
  split <;> rfl

/-- The call when it has the state of the battery. -/
theorem upToDownload_of_ends
    (hended : Plain (step h (runUpdateTask h s id req) (.battery id env.battery env.running)) id outcome) :
    Plain (upToDownload h s id req env) id outcome := by
  unfold upToDownload
  rwa [foldl_cons, foldl_cons, foldl_nil, metadata_done hended.calls]

theorem upToDownload_admitted (hadmitted : Admitted h s req env) : ∃ t, t.file = (settled h s).file ∧
      upToDownload h s id req env = step h (onOverride t id req) (.metadata id env.metadata) := by
  obtain ⟨henters, hbattery, hrunning⟩ := hadmitted
  rcases runUpdateTask_cases h s id req with ⟨-, hcalls, hfile⟩ | ⟨hstop, -⟩
  · refine ⟨runUpdateTask h s id req, hfile, ?_⟩
    unfold upToDownload
    rw [foldl_cons, foldl_cons, foldl_nil, step_battery, hcalls]
    exact congrArg (step h · _) (onBattery_admitted hbattery hrunning)
  · exact absurd henters hstop

theorem upToDownload_refused (hrefused : ¬ Admitted h s req env) :
    ∃ outcome, Plain (upToDownload h s id req env) id outcome := by
  rcases runUpdateTask_cases h s id req with ⟨henters, hcalls, hfile⟩ | ⟨hstop, reason, hreason, hcalls⟩
  · obtain ⟨outcome, hplain⟩ : ∃ outcome,
        Plain (onBattery h (runUpdateTask h s id req) id req env.battery env.running) id outcome :=
      onBattery_ends fun hguards => hrefused ⟨henters, hguards⟩
    refine ⟨outcome, upToDownload_of_ends ?_⟩
    rw [step_battery, hcalls]
    exact hplain
  · refine ⟨_, upToDownload_of_ends (plain_skipped ?_ hreason)⟩
    simp [hcalls, onCall]

theorem course (h : Host) (s : State) (id : CallId) (req : Request) (env : Answers) : Course h s id req env := by
  by_cases hadmitted : Admitted h s req env
  · obtain ⟨t, hfile, hup⟩ : ∃ t, t.file = (settled h s).file ∧
        upToDownload h s id req env = step h (onOverride t id req) (.metadata id env.metadata) :=
      upToDownload_admitted hadmitted
    have hdown : t.file.updateInProgress = false := by
      rw [hfile]
      exact settled_updateInProgress h s
    by_cases hover : Overrides req
    · obtain ⟨version, hversion, hperform⟩ : ∃ version, given req.targetVersion = some version ∧
          onOverride t id req = perform t id req ⟨version, true⟩ := onOverride_overrides hover
      refine .override version hadmitted hover hversion ?_
      unfold Begins
      rw [hup, hperform, metadata_perform, perform_calls]
    by_cases hasks : Asks req
    · -- the server is asked
      have hanswer : upToDownload h s id req env =
          onMetadata h (t.goto id (.metadata req)) id req env.metadata := by
        rw [hup, onOverride_asks hasks, step_metadata, goto_calls_self]
        rfl
      by_cases hnone : ∀ metadata, env.metadata = some metadata →
          isInstalled (settled h s).file (trim metadata.latestVersion) = false ∧ ¬ Offers h (settled h s) metadata
      · obtain ⟨outcome, hplain⟩ : ∃ outcome,
            Plain (onMetadata h (t.goto id (.metadata req)) id req env.metadata) id outcome := by
          refine onMetadata_ends hdown fun metadata hmetadata => ?_
          unfold Offers
          rw [goto_file, hfile]
          exact hnone metadata hmetadata
        exact .ends outcome (hanswer ▸ hplain) (fun h => hover h.2) fun m hm _ _ => hnone m hm
      · obtain ⟨metadata, hmetadata, hsome⟩ : ∃ metadata, env.metadata = some metadata ∧
            ¬ (isInstalled (settled h s).file (trim metadata.latestVersion) = false ∧
              ¬ Offers h (settled h s) metadata) := by simpa using hnone
        rw [hmetadata] at hanswer
        cases hinstalled : isInstalled (settled h s).file (trim metadata.latestVersion) with
        | true =>
          refine .installed metadata hadmitted hasks hmetadata hinstalled ?_
          rw [hanswer, onMetadata_installed (by rwa [goto_file, hfile]), goto_calls_self]
        | false =>
          have hoffers : Offers h (settled h s) metadata := by
            by_contra hno
            exact hsome ⟨hinstalled, hno⟩
          refine .offered metadata hadmitted hasks hmetadata hoffers ?_
          unfold Begins
          rw [hanswer, onMetadata_offers, perform_calls]
          unfold Offers at hoffers ⊢
          rwa [goto_file, hfile]
    · -- half of what to install
      obtain ⟨outcome, hplain⟩ : ∃ outcome, Plain (onOverride t id req) id outcome :=
        onOverride_half hover hasks hdown
      refine .ends outcome ?_ (fun h => hover h.2) fun _ _ _ h => absurd h hasks
      rwa [hup, metadata_done hplain.calls]
  · obtain ⟨outcome, hplain⟩ : ∃ outcome, Plain (upToDownload h s id req env) id outcome :=
      upToDownload_refused hadmitted
    exact .ends outcome hplain (fun h => hadmitted h.1) fun _ _ h => absurd h hadmitted

/-! ## The end of a call -/

/-- The task takes note of an update, unless it is one of a job and threw. -/
theorem onPerformed_plain (hrun : run = none → a.override = false) :
    ∃ outcome, Plain (onPerformed t id a run) id outcome ∧
      (run = none → (onPerformed t id a run).file.updateInProgress = false) := by
  cases run with
  | none =>
    have hserver : a.override = false := hrun rfl
    refine ⟨.failed .thrown, plain_failed ?_ ?_, fun _ => ?_⟩
    all_goals simp [onPerformed, hserver, State.markFailed, markUpdateFailed]
  | some started =>
    cases started with
    | false => exact ⟨_, plain_failed (goto_calls_self ..) rfl, fun h => absurd h (by simp)⟩
    | true =>
      refine ⟨.started a.version (t.file.lastServedBy.getD (text "origin")), ⟨goto_calls_self .., ?_, ?_, ?_⟩, ?_⟩
      all_goals simp

/-- What is told of a call but for the hash and the earlier attempt. -/
def TellsEnd (h : Host) (s : State) (id : CallId) (req : Request) (env : Answers) : Prop :=
  (∃ outcome, Resolves h s id req env outcome ∧ outcome ≠ .rejected) ∧
    (∀ error, Resolves h s id req env (.failed error) → (finished h s id req env).file.updateInProgress = false) ∧
    (Throws h s id req env → (finished h s id req env).file.updateInProgress = false) ∧
    (Resolves h s id req env (.skipped .latestAlreadyInstalled) → ∃ metadata, env.metadata = some metadata ∧
        compareSemver h.number h.version (trim metadata.latestVersion) ≠ .lt)

theorem resolves_congr {outcome' : UpdateOutcome} (hcalls : (finished h s id req env).calls id = .done outcome)
    (hresolves : Resolves h s id req env outcome') : outcome' = outcome := by
  have hdone : Phase.done outcome = Phase.done outcome' := hcalls.symm.trans hresolves
  cases hdone
  rfl

theorem Plain.tellsEnd (hplain : Plain (finished h s id req env) id outcome)
    (hthrew : Throws h s id req env → (finished h s id req env).file.updateInProgress = false) :
    TellsEnd h s id req env := by
  refine ⟨⟨outcome, hplain.calls, hplain.rejected⟩, fun error hresolves => ?_, hthrew, fun hresolves => ?_⟩
  · exact hplain.failed error (resolves_congr hplain.calls hresolves).symm
  · exact absurd (resolves_congr hplain.calls hresolves).symm hplain.installed

/-- A call that has ended before its download. -/
theorem finished_of_done (hup : (upToDownload h s id req env).calls id = .done outcome) :
    finished h s id req env = upToDownload h s id req env := by
  unfold finished
  rw [performed_done hup]
  simp [hup, onCall]

theorem not_throws_of_done (hup : (upToDownload h s id req env).calls id = .done outcome) :
    ¬ Throws h s id req env := by
  rintro ⟨a, hcalls⟩
  rw [performed_done hup, hup] at hcalls
  cases hcalls

theorem not_begins_of_done (hup : (upToDownload h s id req env).calls id = .done outcome) :
    ¬ Begins h s id req env a := by
  unfold Begins
  rw [hup]
  split <;> simp

/-- A download says all of it, unless it is one of a job and fails. -/
theorem begins_tellsEnd_iff (hbegins : Begins h s id req env a) :
    TellsEnd h s id req env ↔ (a.override → ¬ Fails h req env) := by
  obtain ⟨run, hrun, hfails⟩ := @performed_begins h _ id req env a hbegins
  have hfinished : finished h s id req env =
      onPerformed (performed h id env (upToDownload h s id req env)) id a run := by
    unfold finished
    rw [step_performed, hrun]
    rfl
  have hthrows : Throws h s id req env → run = none := by
    rintro ⟨a', hcalls⟩
    rw [hrun] at hcalls
    cases hcalls
    rfl
  constructor
  · rintro ⟨⟨outcome, hresolves, hne⟩, -⟩ hjob hno
    have hnone : run = none := hfails.mpr hno
    -- what the download of a job throws goes to the caller
    have hrejected : (finished h s id req env).calls id = .done .rejected := by
      rw [hfinished, hnone]
      simp [onPerformed, hjob]
    exact hne (resolves_congr hrejected hresolves)
  · intro hjob
    have hserver : run = none → a.override = false := fun hnone => by
      by_contra hover
      exact hjob (by simpa using hover) (hfails.mp hnone)
    obtain ⟨outcome, hplain, hdown⟩ := @onPerformed_plain
      (performed h id env (upToDownload h s id req env)) id a run hserver
    rw [← hfinished] at hplain hdown
    exact hplain.tellsEnd fun hthrew => hdown (hthrows hthrew)

theorem Begins.unique {a' : Attempt} (ha : Begins h s id req env a) (ha' : Begins h s id req env a') : a' = a := by
  unfold Begins at ha ha'
  rw [ha] at ha'
  split at ha' <;> cases ha' <;> rfl

/-- A version that is marked as a success is not above the one that runs. -/
theorem reconciles_reached {version : Str} (hversion : Reconciles h s version) :
    compareSemver h.number h.version version ≠ .lt := by
  obtain ⟨-, -, hpending⟩ := hversion
  unfold pendingSucceeded at hpending
  dsimp only at hpending
  split at hpending
  · cases hpending
  · split at hpending
    · rename_i hreached
      cases hpending
      simpa using hreached
    · cases hpending

end Events

section Truth

variable (h : Host) (lower : Str → Str) (attemptedFrom : Str) (s : State) (id : CallId) (req : Request)
  (env : Answers)

theorem tellsTruth_iff : TellsTruth h lower attemptedFrom s id req env ↔ TellsEnd h s id req env ∧
    (∀ version, Reconciles h s version → compareSemver h.number h.version version = .eq ∨
      compareSemver h.number attemptedFrom version = .lt) ∧
    ∀ a, Begins h s id req env a → ∃ hash, expectedHash lower req env.metadata a = some hash ∧
      Publishes lower req env.metadata a.version hash := by
  constructor
  · intro htells
    refine ⟨⟨htells.resolves, htells.failed, htells.threw, htells.installed⟩, fun version hversion => ?_,
      htells.verified⟩
    exact (htells.reconciled version hversion).imp_right And.left
  · rintro ⟨⟨hresolves, hfailed, hthrew, hinstalled⟩, hupgrade, hverified⟩
    refine ⟨hresolves, hfailed, hthrew, hinstalled, fun version hversion => ?_, hverified⟩
    exact (hupgrade version hversion).imp_right fun hlt => ⟨hlt, reconciles_reached hversion⟩

/-- The hash of the latest version is published for that version only. -/
theorem verified_offered_iff {metadata : Metadata} (hasks : Asks req) (hmetadata : env.metadata = some metadata)
    (hoffers : Offers h (settled h s) metadata) : (∃ hash, expectedHash lower req env.metadata
        ⟨(given req.targetVersion).getD (trim metadata.latestVersion), false⟩ = some hash ∧
      Publishes lower req env.metadata ((given req.targetVersion).getD (trim metadata.latestVersion)) hash) ↔
    ∀ version, given req.targetVersion = some version → version = trim metadata.latestVersion := by
  obtain ⟨-, -, hash, hbinary, -⟩ := hoffers
  constructor
  · rintro ⟨hash', -, hpublishes⟩ version hversion
    rw [hversion, getD_some] at hpublishes
    cases hpublishes with
    | job _ hhash =>
      -- a job that names a hash does not ask the server, unless it names no version
      have hsome : (given req.expectedHash).isSome := by simp [hhash]
      refine absurd ⟨hasks.1.trans hsome, hsome, by simp [hversion]⟩ hasks.2
    | server hanswer _ =>
      rw [hmetadata] at hanswer
      cases hanswer
      rfl
  · intro hlatest
    have hversion : (given req.targetVersion).getD (trim metadata.latestVersion) =
        trim metadata.latestVersion := by
      cases htarget : given req.targetVersion with
      | none => rfl
      | some version => exact hlatest version htarget
    rw [hversion]
    refine ⟨hash, ?_, .server hmetadata hbinary⟩
    simp [expectedHash, hmetadata, hbinary]

/-- A call tells the truth of its update exactly when the record is one of an upgrade or of the version
that runs, the latest version was not taken back, and then either the download of a job succeeds, or the
job asks for no version but the latest. -/
theorem tellsTruth_iff_sound : TellsTruth h lower attemptedFrom s id req env ↔ Sound h attemptedFrom s req env := by
  rw [tellsTruth_iff]
  cases course h s id req env with
  | ends outcome hplain hover hasks =>
    have hfinished := finished_of_done hplain.calls
    have htells : TellsEnd h s id req env :=
      Plain.tellsEnd (hfinished ▸ hplain) fun hthrew => absurd hthrew (not_throws_of_done hplain.calls)
    constructor
    · rintro ⟨-, hupgrade, -⟩
      refine ⟨fun ha ho => absurd ⟨ha, ho⟩ hover, fun metadata ha hs hm hinstalled => ?_, hupgrade,
        fun metadata version ha hs hm hoffers => absurd hoffers (hasks metadata hm ha hs).2⟩
      rw [(hasks metadata hm ha hs).1] at hinstalled
      cases hinstalled
    · intro hsound
      exact ⟨htells, hsound.upgrade, fun a hbegins => absurd hbegins (not_begins_of_done hplain.calls)⟩
  | override version hadmitted hover hversion hbegins =>
    rw [begins_tellsEnd_iff hbegins]
    constructor
    · rintro ⟨hfails, hupgrade, -⟩
      exact ⟨fun _ _ => hfails rfl, fun _ _ hs => absurd hover hs.2, hupgrade,
        fun _ _ _ hs => absurd hover hs.2⟩
    · intro hsound
      refine ⟨fun _ => hsound.override hadmitted hover, hsound.upgrade, fun a ha => ?_⟩
      obtain ⟨hash, hhash⟩ := isSome_iff_exists.mp hover.2.1
      rw [hbegins.unique ha]
      exact ⟨lower hash, by simp [expectedHash, hhash], .job hversion hhash⟩
  | installed metadata hadmitted hasks hmetadata hinstalled hcalls =>
    have hfinished := finished_of_done hcalls
    have hdone : (finished h s id req env).calls id = .done (.skipped .latestAlreadyInstalled) := hfinished ▸ hcalls
    constructor
    · rintro ⟨⟨-, -, -, htells⟩, hupgrade, -⟩
      refine ⟨fun _ ho => absurd ho hasks.2, fun m _ _ hm _ => ?_, hupgrade, fun m version _ _ hm hoffers => ?_⟩
      · obtain ⟨m', hm', hcurrent⟩ := htells hdone
        rw [hm] at hm'
        cases hm'
        exact hcurrent
      · rw [hmetadata] at hm
        cases hm
        rw [hoffers.1] at hinstalled
        cases hinstalled
    · intro hsound
      refine ⟨⟨⟨_, hdone, by simp⟩, fun error herror => ?_, fun hthrew => ?_, fun _ => ?_⟩, hsound.upgrade,
        fun a hbegins => absurd hbegins (not_begins_of_done hcalls)⟩
      · cases resolves_congr hdone herror
      · exact absurd hthrew (not_throws_of_done hcalls)
      · exact ⟨metadata, hmetadata, hsound.current metadata hadmitted hasks hmetadata hinstalled⟩
  | offered metadata hadmitted hasks hmetadata hoffers hbegins =>
    have hverified := verified_offered_iff h lower s req env hasks hmetadata hoffers
    constructor
    · rintro ⟨-, hupgrade, hhash⟩
      refine ⟨fun _ ho => absurd ho hasks.2, fun m _ _ hm hinstalled => ?_, hupgrade,
        fun m version _ _ hm _ htarget => ?_⟩
      · rw [hmetadata] at hm
        cases hm
        rw [hoffers.1] at hinstalled
        cases hinstalled
      · rw [hmetadata] at hm
        cases hm
        exact hverified.mp (hhash _ hbegins) version htarget
    · intro hsound
      refine ⟨(begins_tellsEnd_iff hbegins).mpr fun hjob => ?_, hsound.upgrade, fun a ha => ?_⟩
      · cases hjob
      · rw [hbegins.unique ha]
        exact hverified.mpr fun version htarget =>
          hsound.latest metadata version hadmitted hasks hmetadata hoffers htarget

end Truth

/-- The job of `jobRun`, whose download fails. -/
def jobRequest : Request :=
  ⟨false, 6 * 60 * 60 * 1000, some (text "1.1.59"), some (text "https://host/agent.msi"), some (text "ab"), []⟩

def noDownload : Answers := ⟨none, [], none, none, false, false, false, .starts⟩

/-- The record says for ten minutes that the update is in progress. -/
theorem not_tellsTruth_noDownload : ¬ TellsTruth windowsHost LinuxPatch.lower (text "1.1.58")
    (machine windowsHost 0 noRecord).init firstJob jobRequest noDownload := by
  intro h
  have hdown := h.threw ⟨⟨text "1.1.59", true⟩, rfl⟩
  exact absurd hdown (by decide)

end Update
