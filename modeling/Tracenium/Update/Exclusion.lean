-- SUMMARY: What a step of the self-update machine does, and which interleavings of calls let two of them get to their installers.
import Tracenium.Update.Task

open Lease Function

namespace Update

variable {h : Host}

/-- The record, what became of it, and the calls that are past their guards. -/
def board (s : State) : Board CallId :=
  ⟨s.now, s.file.updateInProgress, s.history, fun id => (s.calls id).isPast = true⟩

/-- What every step of a call does. A call gets past its guards when no operation is in flight. -/
structure Moves (s s' : State) : Prop where
  effect : Effect (board s) (board s')
  operations : s'.operations = s.operations
  idle : ∀ k, (board s').past k → (board s).past k ∨ privilegedOperationInFlight s.operations = none

variable {id : CallId} {s : State} {phase : Phase}

theorem past_goto (hphase : phase.isPast → (s.calls id).isPast) (k : CallId)
    (hk : (board (s.goto id phase)).past k) : (board s).past k := by
  by_cases hid : k = id
  · subst hid
    have hpast : (update s.calls k phase k).isPast := hk
    rw [update_self] at hpast
    exact hphase hpast
  · have hpast : (update s.calls id phase k).isPast := hk
    rw [update_of_ne hid] at hpast
    exact hpast

/-- A call goes on, and does what its effect says. -/
theorem Moves.of_past {s s' : State} (heffect : Effect (board s) (board s'))
    (hphase : phase.isPast → (s.calls id).isPast)
    (hoperations : s'.operations = s.operations) (hcalls : s'.calls = (s.goto id phase).calls) : Moves s s' where
  effect := heffect
  operations := hoperations
  idle k hk := by
    have hk' : (s'.calls k).isPast := hk
    rw [hcalls] at hk'
    exact .inl (past_goto hphase k hk')

/-- A call goes on or ends. -/
theorem moves_goto (hphase : phase.isPast → (s.calls id).isPast) : Moves s (s.goto id phase) :=
  .of_past (.quiet le_rfl rfl (fun hup => hup) (past_goto hphase)) hphase rfl rfl

/-- A call ends. -/
theorem moves_end (hphase : phase.isPast = false) : Moves s (s.goto id phase) :=
  moves_goto fun hpast => by rw [hphase] at hpast; cases hpast

theorem moves_markFailed (s : State) (id : CallId) (hphase : phase.isPast = false) :
    Moves s ((s.markFailed id).goto id phase) :=
  .of_past (.closed id rfl rfl) (fun hpast => by rw [hphase] at hpast; cases hpast) rfl rfl

theorem moves_refl (s : State) : Moves s s :=
  ⟨.quiet le_rfl rfl (fun hup => hup) fun _ hk => hk, rfl, fun _ hk => .inl hk⟩

/-- What a caller notes for itself is no matter. -/
theorem Moves.congr {s t s' : State} (h : Moves t s') (hboard : board t = board s)
    (hoperations : t.operations = s.operations) : Moves s s' where
  effect := hboard ▸ h.effect
  operations := h.operations.trans hoperations
  idle := hboard ▸ hoperations ▸ h.idle

/-! ## Calls -/

/-- The guards that come after the test, from a state whose calls and operations are the same. -/
structure Checks (s : State) (id : CallId) (t : State) : Prop where
  history : (board t).history = .looked id :: s.history
  now : (board t).now = s.now
  operations : t.operations = s.operations
  idle : ∀ k, (board t).past k → (board s).past k ∨ privilegedOperationInFlight s.operations = none

theorem checks_checkGuards (s : State) (id : CallId) (req : Request) : Checks s id (checkGuards s id req) := by
  -- the call ends at a guard, or gets past the last one with no operation in flight
  have hended : ∀ phase : Phase, phase.isPast = false →
      Checks s id ({ s with history := .looked id :: s.history }.goto id phase) := by
    intro phase hphase
    refine ⟨rfl, rfl, rfl, fun k hk => .inl (past_goto (fun hpast => ?_) k hk)⟩
    rw [hphase] at hpast
    cases hpast
  unfold checkGuards
  dsimp only
  split
  · exact hended _ rfl
  · rename_i hidle
    split
    · exact hended _ rfl
    · exact ⟨rfl, rfl, rfl, fun k hk => .inr hidle⟩

/-- A call that gets past the test finds the record clear, or clears it. -/
theorem moves_runUpdateTask (s : State) (id : CallId) (req : Request) : Moves s (runUpdateTask h s id req) := by
  unfold runUpdateTask
  split
  · exact moves_end rfl
  · split
    · exact moves_end rfl
    · dsimp only
      unfold reconcilePendingUpdate
      split
      · -- the version that was attempted runs: nothing is in progress any more
        rename_i version _
        have hclear : inProgress (s.settle (markUpdateSucceeded version s.file)).now
            (s.settle (markUpdateSucceeded version s.file)).file = false := rfl
        have hchecks := checks_checkGuards (clearStale (s.settle (markUpdateSucceeded version s.file))) id req
        exact ⟨.cleared id hchecks.history, hchecks.operations, hchecks.idle⟩
      · split
        · exact moves_end rfl
        · unfold clearStale
          split
          · have hchecks := checks_checkGuards (s.settle (markUpdateFailed s.file)) id req
            exact ⟨.cleared id hchecks.history, hchecks.operations, hchecks.idle⟩
          · rename_i hdown
            have hchecks := checks_checkGuards s id req
            exact ⟨.looked id (Bool.not_eq_true _ ▸ hdown) hchecks.now hchecks.history,
              hchecks.operations, hchecks.idle⟩

theorem moves_perform {req : Request} {a : Attempt}
    (hid : (s.calls id).isPast) : Moves s (perform s id req a) :=
  .of_past (.raised id hid rfl rfl rfl (past_goto fun _ => hid)) (fun _ => hid) rfl rfl

theorem moves_onBattery {req : Request} {battery : Option BatteryRuntime} {running : List RunningInstaller}
    (hid : (s.calls id).isPast) : Moves s (onBattery h s id req battery running) := by
  unfold onBattery
  split
  · exact moves_end rfl
  · split
    · exact moves_end rfl
    · exact moves_markFailed s id rfl
    · unfold onOverride
      split
      · exact moves_perform hid
      · exact moves_end rfl
      · exact moves_end rfl
      · exact moves_goto fun _ => hid

theorem moves_onMetadata {req : Request} {answer : Option Metadata}
    (hid : (s.calls id).isPast) : Moves s (onMetadata h s id req answer) := by
  unfold onMetadata
  split
  · exact moves_markFailed s id rfl
  · dsimp only
    split
    · exact moves_end rfl
    · split
      · exact moves_end rfl
      · split
        · exact moves_end rfl
        · split
          · exact moves_end rfl
          · exact moves_perform hid

theorem moves_launch {a : Attempt} {l : Launch} (hid : (s.calls id).isPast) : Moves s (launch h s id a l) := by
  unfold launch
  -- the record is written again, unless the launch throws before that
  split
  · exact .of_past (.renewed id hid rfl rfl rfl (past_goto fun _ => hid)) (fun _ => hid) rfl rfl
  · exact .of_past (.renewed id hid rfl rfl rfl (past_goto fun _ => hid)) (fun _ => hid) rfl rfl
  · exact .of_past (.renewed id hid rfl rfl rfl (past_goto fun _ => hid)) (fun _ => hid) rfl rfl
  · exact .of_past (.quiet le_rfl rfl (fun _ => rfl) (past_goto fun _ => hid)) (fun _ => hid) rfl rfl
  · exact .of_past (.quiet le_rfl rfl (fun _ => rfl) (past_goto fun _ => hid)) (fun _ => hid) rfl rfl

theorem moves_downloaded {a : Attempt} {l : Launch}
    (hid : (s.calls id).isPast) : Moves s (downloaded h s id a l) := by
  unfold downloaded
  split
  · exact moves_goto fun _ => hid
  · exact moves_launch hid

theorem moves_onCall (s : State) (id : CallId) (e : Event) : Moves s (onCall h s id e (s.calls id)) := by
  unfold onCall
  split
  · -- a caller notes that it runs before it calls the task
    unfold onTick
    split
    · exact moves_refl s
    · exact (moves_runUpdateTask { s with tick := some s.now } id _).congr rfl rfl
  · unfold onPush
    split
    · exact moves_refl s
    · exact (moves_end (s := { s with agentUpdateInProgress := true }) rfl).congr rfl rfl
  · unfold onJob
    split
    · exact moves_refl s
    · exact (moves_runUpdateTask { s with agentUpdateInProgress := true } id _).congr rfl rfl
  · exact moves_runUpdateTask s id _
  · rename_i hphase
    exact moves_onBattery (by rw [hphase]; rfl)
  · rename_i hphase
    exact moves_onMetadata (by rw [hphase]; rfl)
  · rename_i hphase
    have hid : (s.calls id).isPast := by rw [hphase]; rfl
    unfold onSources
    split
    · rename_i tier
      exact (moves_downloaded (s := { s with file := { s.file with lastServedBy := some tier } })
        hid).congr rfl rfl
    · exact moves_goto fun _ => hid
  · rename_i hphase
    have hid : (s.calls id).isPast := by rw [hphase]; rfl
    unfold onDownload
    split
    · exact moves_downloaded hid
    · exact moves_end rfl
  · rename_i hphase
    have hid : (s.calls id).isPast := by rw [hphase]; rfl
    unfold onVerify
    split
    · exact moves_launch hid
    · exact .of_past (.closed id rfl rfl) (fun _ => hid) rfl rfl
  · exact moves_end rfl
  · unfold onPerformed
    split
    · exact moves_end rfl
    · exact moves_markFailed s id rfl
    · split
      · exact moves_end rfl
      · exact moves_markFailed s id rfl
  · unfold onRelease
    split
    · exact (moves_end (s := { s with tick := none }) rfl).congr rfl rfl
    · exact (moves_end (s := { s with agentUpdateInProgress := false }) rfl).congr rfl rfl
  · exact moves_refl s

/-! ## Steps -/

/-- The effect of a step; and it is a step of a call unless an operation begins or ends. -/
theorem step_cases (s : State) (e : Event) : (∃ op, e = .begins op ∧ admits h s op ∧
      step h s e = { s with operations := s.operations.set op true }) ∨
    (∃ op, e = .ends op ∧ step h s e = { s with operations := s.operations.set op false }) ∨
    Moves s (step h s e) := by
  unfold step
  split
  · refine .inr (.inr ⟨?_, rfl, fun _ hk => .inl hk⟩)
    exact .quiet (Nat.le_add_right ..) rfl (fun hup => hup) fun _ hk => hk
  · rename_i op
    split
    · rename_i hadmits
      exact .inl ⟨op, rfl, hadmits, rfl⟩
    · exact .inr (.inr (moves_refl s))
  · rename_i op
    exact .inr (.inl ⟨op, rfl, rfl⟩)
  · split
    · exact .inr (.inr ⟨.closed _ rfl rfl, rfl, fun _ hk => .inl hk⟩)
    · exact .inr (.inr (moves_refl s))
  · split
    · exact .inr (.inr (moves_onCall s _ _))
    · exact .inr (.inr (moves_refl s))

theorem effect_step (s : State) (e : Event) : Effect (board s) (board (step h s e)) := by
  rcases step_cases (h := h) s e with ⟨op, -, -, hstep⟩ | ⟨op, -, hstep⟩ | hmoves
  · rw [hstep]
    exact (moves_refl s).effect
  · rw [hstep]
    exact (moves_refl s).effect
  · exact hmoves.effect

end Update

/-!
# One update at a time

A call looks at the record long before it writes to it, does not look again before it launches the installer, and a
failure clears the record whoever wrote it.
-/

open Utf16

namespace Update

variable {h : Host}

def Launches (h : Host) (s : State) (e : Event) (id : CallId) : Prop :=
  (step h s e).history = .renewed id s.now :: s.history

/-- Another call has begun its download or launched an installer within ten minutes, and was not
marked since. -/
def Pending (s : State) (id : CallId) : Prop := Held TEN_MINUTES s.now s.history id

/-- An installer is launched when no other call is pending. -/
def LaunchesAlone (h : Host) (s : State) (e : Event) : Prop :=
  ∀ id, Launches h s e id → ∀ other, other ≠ id → ¬ Pending s other

/-- No call goes over another one's record: a download begins when no other call began or launched
since this one looked, an installer is launched while its own call is pending or no other is, and a
failure is marked when no other call is pending. -/
def Respects (h : Host) (s : State) (e : Event) : Prop :=
  Stands TEN_MINUTES (board s) (board (step h s e))

/-! ## Runs -/

/-- In every run whose calls respect each other's record, an installer is launched by one call at a
time only. -/
theorem guarded_launchesAlone (h : Host) (now : Nat) (file : UpdateState) (tr : List Event)
    (hrespects : (machine h now file).Guarded (Respects h) tr) :
    (machine h now file).Guarded (LaunchesAlone h) tr := by
  -- the invariant: at most one call is pending
  refine hrespects.ensures (I := fun s => Exclusive TEN_MINUTES (board s)) ?_ ?_ ?_
  · refine Exclusive.of_none ?_
    rintro j ⟨t, hsince, -⟩
    cases hsince
  · exact fun s e hs hstands => hs.step (effect_step s e) hstands
  · exact fun s e hs hstands id hlaunches => hs.alone_of_held (hstands.renewed id hlaunches)

theorem history_subset_exec (s : State) (tr : List Event) (now : Nat) (file : UpdateState) :
    s.history ⊆ ((machine h now file).exec s tr).history := by
  induction tr generalizing s with
  | nil => exact List.Subset.refl _
  | cons e tr ih => exact List.Subset.trans (effect_step s e).history_subset (ih (step h s e))

/-- A call that is alone and not marked failed respects the record. -/
theorem guarded_of_isBy {now : Nat} {file : UpdateState} {tr : List Event} {k : CallId}
    (hby : ∀ e ∈ ((machine h now file).run tr).history, e.isBy k) :
    (machine h now file).Guarded (Respects h) tr := by
  rintro pre e ⟨rest, rfl⟩
  refine Stands.of_isBy (k := k) (fun e' he' => hby e' ?_) (effect_step _ e).history_subset
  rw [Machine.run_append, Machine.run_append]
  exact history_subset_exec _ rest now file he'

/-! ## Sample runs -/

def sampleNumber (s : Str) : Option Nat :=
  if s.all Json.isDigit then some (s.foldl (fun n u => 10 * n + (u.toNat - 48)) 0) else none

def windowsHost : Host := ⟨.windows, text "1.1.58", sampleNumber⟩

def noRecord : UpdateState := ⟨none, none, none, none, none, none, false⟩

def firstJob : CallId := ⟨.job, 0⟩
def firstTick : CallId := ⟨.tick, 0⟩

def jobEvent : Event :=
  .job 0 (text "1.1.59") (some (text "https://host/agent.msi")) (some (text "ab")) []

def jobRun : List Event :=
  [jobEvent, .battery firstJob none [], .download firstJob true .starts, .verify firstJob true .starts]

theorem guarded_launchesAlone_jobRun :
    (machine windowsHost 0 noRecord).Guarded (LaunchesAlone windowsHost) jobRun := by
  refine guarded_launchesAlone windowsHost 0 noRecord jobRun ?_
  exact guarded_of_isBy (k := firstJob) (by decide)

/-- The scheduler's call and the one of a job look at the record before the other one writes to it. -/
def racingRun : List Event :=
  [.tick 0 [], jobEvent, .battery firstTick none [], .battery firstJob none [],
    .metadata firstTick (some ⟨text "1.1.60", none, false, false, some (some (text "cd"))⟩),
    .download firstTick true .starts, .verify firstTick true .starts]

/-- The scheduler's installer is launched while the download of the job is in progress. -/
theorem not_guarded_launchesAlone_racingRun :
    ¬ (machine windowsHost 0 noRecord).Guarded (LaunchesAlone windowsHost) racingRun := by
  intro h
  have hlaunch := h (racingRun.take 6) (.verify firstTick true .starts) ⟨[], rfl⟩ firstTick
    (by unfold Launches; decide) firstJob (by decide)
  exact hlaunch ⟨0, by decide, by decide⟩

end Update

/-!
# Updates and privileged operations

Patch installs and posture runs ask whether a push or a job is updating; the other operations do not ask, and nobody
asks about the scheduler's call.
-/

namespace Update

variable {h : Host}

/-- No privileged operation is in flight when an installer is launched. -/
def LaunchesIdle (h : Host) (s : State) (e : Event) : Prop :=
  ∀ id, Launches h s e id → privilegedOperationInFlight s.operations = none

/-- No operation begins while a call is past its guards and its installer is still to come. -/
def Yields (h : Host) (s : State) (e : Event) : Prop :=
  ∀ op, e = .begins op → admits h s op = true → ∀ id, (s.calls id).isPast = false

/-- While a call is past its guards no operation is in flight. -/
def Idle (s : State) : Prop :=
  (∃ id, (s.calls id).isPast = true) → privilegedOperationInFlight s.operations = none

theorem inFlight_eq_none_iff {o : Operations} : privilegedOperationInFlight o = none ↔
    o.patchInstall = false ∧ o.patchRemediate = false ∧ o.softwareInstall = false ∧ o.aspAssess = false := by
  rcases o with ⟨patch, remediate, software, asp⟩
  cases patch <;> cases remediate <;> cases software <;> cases asp <;> decide

/-- An operation that ends leaves the service idle if it was. -/
theorem inFlight_end {o : Operations} (op : Operation) (hidle : privilegedOperationInFlight o = none) :
    privilegedOperationInFlight (o.set op false) = none := by
  obtain ⟨hpatch, hremediate, hsoftware, hasp⟩ := inFlight_eq_none_iff.mp hidle
  rw [inFlight_eq_none_iff]
  cases op with
  | patchInstall => exact ⟨rfl, hremediate, hsoftware, hasp⟩
  | patchRemediate => exact ⟨hpatch, rfl, hsoftware, hasp⟩
  | softwareInstall => exact ⟨hpatch, hremediate, rfl, hasp⟩
  | aspAssess => exact ⟨hpatch, hremediate, hsoftware, rfl⟩

/-! ## Runs -/

theorem Idle.step {s : State} {e : Event} (hidle : Idle s) (hyields : Yields h s e) : Idle (step h s e) := by
  rcases step_cases (h := h) s e with ⟨op, he, hadmits, hstep⟩ | ⟨op, -, hstep⟩ | hmoves
  · rw [hstep]
    rintro ⟨id, hpast⟩
    have hnone : (s.calls id).isPast = false := hyields op he hadmits id
    rw [hnone] at hpast
    cases hpast
  · rw [hstep]
    exact fun hpast => inFlight_end op (hidle hpast)
  · rintro ⟨id, hpast⟩
    rw [hmoves.operations]
    rcases hmoves.idle id hpast with hbefore | hnone
    · exact hidle ⟨id, hbefore⟩
    · exact hnone

/-- In every run whose operations begin while no call is past its guards, no operation is in flight
when an installer is launched. -/
theorem guarded_launchesIdle (h : Host) (now : Nat) (file : UpdateState) (tr : List Event)
    (hyields : (machine h now file).Guarded (Yields h) tr) : (machine h now file).Guarded (LaunchesIdle h) tr := by
  refine hyields.ensures (I := Idle) ?_ ?_ ?_
  · rintro ⟨id, hpast⟩
    cases hpast
  · exact fun s e hidle hstep => hidle.step hstep
  · exact fun s e hidle _ id hlaunches => hidle ⟨id, (effect_step s e).past_of_renewed hlaunches⟩

/-- A software install comes to its end before a job's update begins. -/
def yieldingRun : List Event := [.begins .softwareInstall, .ends .softwareInstall] ++ jobRun

theorem guarded_launchesIdle_yieldingRun :
    (machine windowsHost 0 noRecord).Guarded (LaunchesIdle windowsHost) yieldingRun := by
  refine guarded_launchesIdle windowsHost 0 noRecord yieldingRun ?_
  rw [Machine.guarded_iff_guardedFrom]
  refine ⟨fun _ _ _ id => rfl, fun _ he => ?_, fun _ he => ?_, fun _ he => ?_, fun _ he => ?_,
    fun _ he => ?_, trivial⟩
  all_goals cases he

def underRun : List Event :=
  [jobEvent, .battery firstJob none [], .begins .softwareInstall, .download firstJob true .starts,
    .verify firstJob true .starts]

/-- The installer restarts the service under the install. -/
theorem not_guarded_launchesIdle_underRun :
    ¬ (machine windowsHost 0 noRecord).Guarded (LaunchesIdle windowsHost) underRun := by
  intro h
  have hlaunch := h (underRun.take 4) (.verify firstJob true .starts) ⟨[], rfl⟩ firstJob
    (by unfold Launches; decide)
  exact absurd hlaunch (by decide)

end Update
