-- SUMMARY: The pipelines of the task scheduler, their timers, and the guard against overlapping runs of a worker.
import Tracenium.Ipc.Wire
import Tracenium.Lib.Machine
import Tracenium.Lib.Timers
import Tracenium.Lib.Locks

/-!
`src/core/pipeline-plan.ts`, `src/core/startup-sequence.ts` and the part of `src/core/scheduler.ts`
that arms timers and listens to the policy. What happens between two awaits is one event. There is
one policy runtime, that of the agent.
-/

open Utf16

namespace Scheduler.Pipelines

/-! ## The plan -/

inductive PipelineKey
  | inventory
  | update
  | compliance
  | cdp
  | patch
  deriving DecidableEq

def PipelineKey.name : PipelineKey → Str
  | .inventory => text "inventory"
  | .update => text "update"
  | .compliance => text "compliance"
  | .cdp => text "cdp"
  | .patch => text "patch"

def PIPELINE_KEYS : List PipelineKey := [.inventory, .update, .compliance, .cdp, .patch]

structure PipelineState where
  armed : Bool
  /-- Its run will do work, too. -/
  effective : Bool
  intervalSeconds : Nat
  deriving DecidableEq

abbrev PipelinePlan := PipelineKey → PipelineState

structure PolicyRuntime where
  enabledPlugins : List Str
  modules : List (Str × Bool)
  selfUpdate : Bool
  interval : PipelineKey → Nat

namespace PolicyRuntime

variable (p : PolicyRuntime)

def isModuleEnabled (key : PipelineKey) : Bool := (p.modules.lookup key.name).getD false

/-- The module can only turn updates off. -/
def isUpdateEnabled : Bool := p.modules.lookup (text "update") != some false && p.selfUpdate

def pluginEnabled (name : String) : Bool := p.enabledPlugins.contains (text name)

def listEnabledModules : List Str := (p.modules.filter Prod.snd).map Prod.fst

end PolicyRuntime

def readPipelinePlan (p : PolicyRuntime) : PipelinePlan
  | .inventory =>
    ⟨p.isModuleEnabled .inventory, p.isModuleEnabled .inventory && p.pluginEnabled "amp",
      p.interval .inventory⟩
  | .update => ⟨p.isUpdateEnabled, p.isUpdateEnabled, p.interval .update⟩
  | .compliance =>
    ⟨p.isModuleEnabled .compliance, p.isModuleEnabled .compliance && p.pluginEnabled "scp",
      p.interval .compliance⟩
  | .cdp => ⟨p.pluginEnabled "cdp", p.pluginEnabled "cdp", p.interval .cdp⟩
  | .patch =>
    ⟨p.isModuleEnabled .patch, p.isModuleEnabled .patch && p.pluginEnabled "pmp",
      p.interval .patch⟩

def needsRearm (prev : Option PipelinePlan) (next : PipelinePlan) (key : PipelineKey) : Bool :=
  match prev with
  | none => true
  | some prev =>
    (prev key).armed != (next key).armed ||
      ((next key).armed && (prev key).intervalSeconds != (next key).intervalSeconds)

def becomesEffective (prev : Option PipelinePlan) (next : PipelinePlan) (key : PipelineKey) : Bool :=
  (next key).effective && !prev.any fun prev => (prev key).effective

structure PipelineDiff where
  rearm : List PipelineKey
  runNow : List PipelineKey

def diffPipelinePlan (prev : Option PipelinePlan) (next : PipelinePlan) : PipelineDiff where
  rearm := PIPELINE_KEYS.filter (needsRearm prev next)
  runNow := PIPELINE_KEYS.filter (becomesEffective prev next)

def joinSorted (names : List Str) : Str :=
  (text ",").intercalate (names.mergeSort fun x y => decide (x ≤ y))

def capabilitySignature (plugins modules : List Str) : Str :=
  joinSorted plugins ++ text "|" ++ joinSorted modules

def STARTUP_SERIAL_ORDER : List PipelineKey := [.compliance, .cdp, .patch]

def INITIAL_INVENTORY_DELAY_MS : Nat := 45 * 1000

/-! ## The scheduler -/

structure Arming where
  intervalSeconds : Nat
  firstDelayMs : Option Nat
  deriving DecidableEq

inductive PolicyEvent
  | inventoryIntervalChanged
  | updateIntervalChanged
  | complianceIntervalChanged
  | cdpIntervalChanged
  | patchIntervalChanged
  | pluginsChanged
  | modulesChanged
  | featuresChanged
  deriving DecidableEq

def POLICY_EVENTS : List PolicyEvent :=
  [.inventoryIntervalChanged, .updateIntervalChanged, .complianceIntervalChanged,
    .cdpIntervalChanged, .patchIntervalChanged, .pluginsChanged, .modulesChanged, .featuresChanged]

structure Listener where
  serial : Nat
  event : PolicyEvent
  deriving DecidableEq

/-- A startup sequence that waits: for the machine to be up long enough, or for a run to end. -/
structure Sequence where
  gen : Nat
  rest : List PipelineKey
  waited : Bool

inductive Phase
  | fresh
  | running
  | stopped
  deriving DecidableEq

structure TaskScheduler where
  policyRuntime : PolicyRuntime
  timers : Timers PipelineKey Arming
  pipelineActive : PipelineKey → Bool
  /-- `ctx` is set. -/
  ctx : Bool
  plan : Option PipelinePlan
  /-- The policy that the plan was read from. -/
  reconciled : Option PolicyRuntime
  capabilitySig : Option Str
  startupGen : Nat
  startupPending : PipelineKey → Bool
  sequences : List Sequence
  policyListeners : List Listener
  /-- The handlers that the policy runtime calls. -/
  attached : List Listener
  serial : Nat
  /-- How many calls of `start` wait for the first inventory. -/
  starting : Nat
  phase : Phase
  runs : List PipelineKey
  /-- The pipelines that became effective and were neither run by the reconciler nor at startup. -/
  owed : PipelineKey → Bool

section Pipelines

variable (s : TaskScheduler)

def clearPolicyListeners : TaskScheduler :=
  if !s.ctx then { s with policyListeners := [] }
  else
    { s with
      attached := s.attached.filter fun listener => !s.policyListeners.contains listener
      policyListeners := [] }

def addPolicyListeners : TaskScheduler :=
  let listeners := POLICY_EVENTS.map (Listener.mk s.serial)
  { s with
    attached := s.attached ++ listeners
    policyListeners := s.policyListeners ++ listeners
    serial := s.serial + 1 }

def runPipeline (key : PipelineKey) : TaskScheduler := { s with runs := s.runs ++ [key] }

/-- A run by the reconciler or at startup. -/
def runPipelineNow (key : PipelineKey) : TaskScheduler :=
  { runPipeline s key with owed := fun k => k ≠ key && s.owed k }

def armJitteredPipeline (key : PipelineKey) (x : Arming) : TaskScheduler :=
  if s.pipelineActive key then { s with timers := s.timers.arm key x } else s

def armPipeline (key : PipelineKey) (intervalSeconds : Nat) (initial : Bool) : TaskScheduler :=
  armJitteredPipeline { s with pipelineActive := fun k => k = key || s.pipelineActive k } key
    ⟨intervalSeconds, if initial && key = .inventory then some INITIAL_INVENTORY_DELAY_MS else none⟩

/-- A timer goes off. The next one is armed with the interval of this one. -/
def fire (timer : Timer PipelineKey Arming) : TaskScheduler :=
  let s := runPipeline { s with timers := s.timers.expire timer } timer.key
  armJitteredPipeline s timer.key ⟨timer.data.intervalSeconds, none⟩

def stopPipeline (key : PipelineKey) : TaskScheduler :=
  { s with
    pipelineActive := fun k => k ≠ key && s.pipelineActive k
    timers := s.timers.clear key }

def stopAll : TaskScheduler :=
  { s with
    startupGen := s.startupGen + 1
    startupPending := fun _ => false
    pipelineActive := fun _ => false
    timers := s.timers.clearAll }

/-- A plan is taken over. What becomes effective with it is to be run. -/
def adopt (next : PipelinePlan) : TaskScheduler :=
  { s with
    plan := some next
    reconciled := some s.policyRuntime
    capabilitySig := some (capabilitySignature s.policyRuntime.enabledPlugins
      s.policyRuntime.listEnabledModules)
    owed := fun k => s.owed k || (k ≠ .inventory && becomesEffective s.plan next k) }

def rearmPipeline (next : PipelinePlan) (key : PipelineKey) : TaskScheduler :=
  let s := stopPipeline s key
  if (next key).armed then armPipeline s key (next key).intervalSeconds false else s

/-- What the startup sequence has yet to run is left to it. -/
def runEffective (key : PipelineKey) : TaskScheduler :=
  if key = .inventory then s
  else if s.startupPending key then s
  else runPipelineNow s key

def reconcilePipelines : TaskScheduler :=
  let next := readPipelinePlan s.policyRuntime
  let diff := diffPipelinePlan s.plan next
  let s' := adopt s next
  let capabilitiesChanged : Bool := s'.capabilitySig ≠ s.capabilitySig
  if diff.rearm = [] ∧ diff.runNow = [] ∧ capabilitiesChanged = false then s'
  else
    let s' := diff.rearm.foldl (fun s key => rearmPipeline s next key) s'
    let s' := diff.runNow.foldl runEffective s'
    if diff.runNow.contains .inventory || capabilitiesChanged then runPipeline s' .inventory else s'

def armed (key : PipelineKey) : Bool := s.plan.any fun plan => (plan key).armed

/-- The turn of a pipeline has come. -/
def dequeue (key : PipelineKey) : TaskScheduler :=
  { s with startupPending := fun k => k ≠ key && s.startupPending k }

/-- The startup sequence from one of its keys on, up to where it waits. `waits` says that the machine
is not up long enough for the patch scan. -/
def advance (gen : Nat) (waits : Bool) : List PipelineKey → TaskScheduler → TaskScheduler
  | [], s => s
  | key :: rest, s =>
    if gen ≠ s.startupGen then s
    else if key = .patch ∧ waits = true then
      { s with sequences := s.sequences ++ [⟨gen, key :: rest, true⟩] }
    else
      let s := dequeue s key
      if armed s key then
        { runPipelineNow s key with sequences := s.sequences ++ [⟨gen, rest, false⟩] }
      else advance gen waits rest s

def armPlan (plan : PipelinePlan) : TaskScheduler :=
  PIPELINE_KEYS.foldl (fun s key =>
    if (plan key).armed then armPipeline s key (plan key).intervalSeconds true else s) s

def launched : TaskScheduler :=
  let plan := readPipelinePlan s.policyRuntime
  let s := armPlan (adopt (stopAll s) plan) plan
  let s := if (plan .update).armed then runPipelineNow s .update else s
  { s with
    startupGen := s.startupGen + 1
    startupPending := fun k => STARTUP_SERIAL_ORDER.contains k }

def startPipelines (waits : Bool) : TaskScheduler :=
  advance (launched s).startupGen waits STARTUP_SERIAL_ORDER (launched s)

/-- `start` up to the first inventory. -/
def start : TaskScheduler :=
  let s := clearPolicyListeners s
  runPipeline { s with ctx := true, starting := s.starting + 1, phase := .running } .inventory

/-- The rest of `start`. -/
def inventoryDone (waits : Bool) : TaskScheduler :=
  if s.starting = 0 then s
  else addPolicyListeners (startPipelines { s with starting := s.starting - 1 } waits)

def stop : TaskScheduler :=
  { clearPolicyListeners (stopAll s) with ctx := false, phase := .stopped }

def reload (waits : Bool) : TaskScheduler := if !s.ctx then s else startPipelines s waits

def emit (event : PolicyEvent) : TaskScheduler :=
  (s.attached.filter fun listener => listener.event = event).foldl
    (fun s _ => reconcilePipelines s) s

def resumeSequence (i : Nat) (waits : Bool) : TaskScheduler :=
  match s.sequences[i]? with
  | none => s
  | some seq =>
    advance seq.gen (waits && !seq.waited) seq.rest { s with sequences := s.sequences.eraseIdx i }

inductive Event
  | start
  | inventoryDone (waits : Bool)
  | stop
  | reload (waits : Bool)
  | policyApplied (policyRuntime : PolicyRuntime)
  | emitted (event : PolicyEvent)
  | fired (i : Nat)
  | sequenceResumed (i : Nat) (waits : Bool)

def step : Event → TaskScheduler
  | .start => start s
  | .inventoryDone waits => inventoryDone s waits
  | .stop => stop s
  | .reload waits => reload s waits
  | .policyApplied policyRuntime => { s with policyRuntime := policyRuntime }
  | .emitted event => emit s event
  | .fired i =>
    match s.timers.running[i]? with
    | none => s
    | some timer => fire s timer
  | .sequenceResumed i waits => resumeSequence s i waits

end Pipelines

def machine (policyRuntime : PolicyRuntime) : Machine TaskScheduler Event where
  init :=
    { policyRuntime := policyRuntime
      timers := .empty
      pipelineActive := fun _ => false
      ctx := false
      plan := none
      reconciled := none
      capabilitySig := none
      startupGen := 0
      startupPending := fun _ => false
      sequences := []
      policyListeners := []
      attached := []
      serial := 0
      starting := 0
      phase := .fresh
      runs := []
      owed := fun _ => false }
  step := step

end Scheduler.Pipelines

/-!
# Overlapping runs

The `*Running` flags and `*StartedAt` times of `src/core/scheduler.ts`, one of each for a worker. A run that is taken
for stuck goes on, and its `finally` clears the flag that stands for the run after it by then.
-/

namespace Scheduler.Overlap

open Pipelines (PipelineKey PolicyRuntime)

def WORKER_STUCK_TIMEOUT_MS : Nat := 30 * 60 * 1000

/-! ## Runs -/

structure Run where
  began : Nat
  settled : Bool
  deriving DecidableEq

/-- The flag and the time of a worker, and its runs in the order in which they began. -/
structure Worker where
  running : Bool
  startedAt : Nat
  runs : List Run
  deriving DecidableEq

structure State where
  /-- `Date.now()`. -/
  now : Nat
  workers : PipelineKey → Worker

structure Verdict where
  proceed : Bool
  clearStuck : Bool

def checkStuckWorker (now : Nat) (isRunning : Bool) (startedAt : Nat) : Verdict :=
  if !isRunning then ⟨true, false⟩
  else if WORKER_STUCK_TIMEOUT_MS < now - startedAt then ⟨true, true⟩
  else ⟨false, false⟩

/-- The policy lets `runInventory`, `runUpdate` and the others get to their guards. -/
def isPermitted (p : PolicyRuntime) : PipelineKey → Bool
  | .inventory => p.isModuleEnabled .inventory && p.pluginEnabled "amp"
  | .update => p.isUpdateEnabled
  | .compliance => p.isModuleEnabled .compliance && p.pluginEnabled "scp"
  | .cdp => p.pluginEnabled "cdp"
  | .patch => p.isModuleEnabled .patch && p.pluginEnabled "pmp"

def Worker.begin (w : Worker) (now : Nat) : Worker := ⟨true, now, w.runs ++ [⟨now, false⟩]⟩

/-- A tick or a forced run, up to its first await. -/
def Worker.run (w : Worker) (now : Nat) : Worker :=
  let verdict := checkStuckWorker now w.running w.startedAt
  if !verdict.proceed then w
  else (if verdict.clearStuck then { w with running := false, startedAt := 0 } else w).begin now

/-- The `finally` of a run. -/
def Worker.settle (w : Worker) (n : Nat) : Worker :=
  match w.runs[n]? with
  | some ⟨began, false⟩ => ⟨false, 0, w.runs.set n ⟨began, true⟩⟩
  | _ => w

inductive Event
  | pass (ms : Nat)
  | run (key : PipelineKey) (policy : PolicyRuntime)
  | settle (key : PipelineKey) (n : Nat)

def State.update (s : State) (key : PipelineKey) (f : Worker → Worker) : State :=
  { s with workers := fun k => if k = key then f (s.workers k) else s.workers k }

def step (s : State) : Event → State
  | .pass ms => { s with now := s.now + ms }
  | .run key policy => if isPermitted policy key then s.update key fun w => w.run s.now else s
  | .settle key n => s.update key fun w => w.settle n

def machine (now : Nat) : Machine State Event := ⟨⟨now, fun _ => ⟨false, 0, []⟩⟩, step⟩

/-! ## Overlaps -/

/-- A worker has no unfinished run that began within the timeout. -/
def Worker.IsFree (now : Nat) (w : Worker) : Prop :=
  ∀ r ∈ w.runs, r.settled = false → r.began + WORKER_STUCK_TIMEOUT_MS < now

/-- Whatever tick or forced run comes next, it begins only where the worker is free. -/
def Exclusive (s : State) : Prop :=
  ∀ key policy, isPermitted policy key = true →
    ((s.workers key).run s.now).runs ≠ (s.workers key).runs → (s.workers key).IsFree s.now

/-- A run settles that is not the last of its worker, and the flag stands for the last, within its timeout. -/
def Worker.Opens (now : Nat) (w : Worker) (n : Nat) : Prop :=
  (∃ r, w.runs[n]? = some r ∧ r.settled = false) ∧ n + 1 ≠ w.runs.length ∧ w.running = true ∧
    now ≤ w.startedAt + WORKER_STUCK_TIMEOUT_MS

/-- No run that was given up settles while the run after it is under way and within its timeout. -/
def Closed (s : State) : Event → Prop
  | .settle key n => ¬(s.workers key).Opens s.now n
  | _ => True

/-- What the flag of a worker stands for: its last run. The other runs that go on are past their timeout. -/
structure Worker.Sound (now : Nat) (w : Worker) : Prop where
  standing : w.running = true → ∃ r, w.runs[w.runs.length - 1]? = some r ∧ r.settled = false ∧ r.began = w.startedAt
  stale : ∀ (n : Nat) r, w.runs[n]? = some r → r.settled = false →
    w.running = true ∧ n + 1 = w.runs.length ∨ r.began + WORKER_STUCK_TIMEOUT_MS < now

section Worker

variable {now : Nat} {w : Worker}

theorem run_of_running (hrunning : w.running) (hrecent : now ≤ w.startedAt + WORKER_STUCK_TIMEOUT_MS) :
    w.run now = w := by
  have hearly : ¬WORKER_STUCK_TIMEOUT_MS < now - w.startedAt := by omega
  simp [Worker.run, checkStuckWorker, hrunning, hearly]

theorem run_of_free (hfree : w.running → w.startedAt + WORKER_STUCK_TIMEOUT_MS < now) :
    w.run now = ⟨true, now, w.runs ++ [⟨now, false⟩]⟩ := by
  by_cases hrunning : w.running
  · have hlate : WORKER_STUCK_TIMEOUT_MS < now - w.startedAt := by
      have := hfree hrunning
      omega
    simp [Worker.run, checkStuckWorker, hrunning, hlate, Worker.begin]
  · simp [Worker.run, checkStuckWorker, hrunning, Worker.begin]

theorem Worker.Sound.last (hw : w.Sound now) {r : Run} (hrunning : w.running)
    (h : w.runs[w.runs.length - 1]? = some r) : r.settled = false ∧ r.began = w.startedAt := by
  obtain ⟨r', hr', hsettled, hbegan⟩ := hw.standing hrunning
  cases h.symm.trans hr'
  exact ⟨hsettled, hbegan⟩

/-- Where the guard lets a run begin, the worker is free. -/
theorem Worker.Sound.isFree (hw : w.Sound now)
    (hfree : w.running → w.startedAt + WORKER_STUCK_TIMEOUT_MS < now) : w.IsFree now := by
  intro r hr hsettled
  obtain ⟨n, hn⟩ := List.getElem?_of_mem hr
  rcases hw.stale n r hn hsettled with ⟨hrunning, hlast⟩ | hstale
  · have hr' := (hw.last hrunning (by rwa [← hlast, Nat.add_sub_cancel])).2
    have := hfree hrunning
    omega
  · exact hstale

theorem Worker.Sound.begin (hw : w.IsFree now) : Worker.Sound now ⟨true, now, w.runs ++ [⟨now, false⟩]⟩ where
  standing _ := ⟨⟨now, false⟩, by simp, rfl, rfl⟩
  stale n r hn hsettled := by
    rcases Slots.of_getElem?_concat hn with hold | ⟨rfl, rfl⟩
    · exact .inr (hw r (List.mem_of_getElem? hold) hsettled)
    · exact .inl ⟨rfl, by simp⟩

theorem Worker.Sound.run (hw : w.Sound now) : (w.run now).Sound now := by
  by_cases hfree : w.running → w.startedAt + WORKER_STUCK_TIMEOUT_MS < now
  · rw [run_of_free hfree]
    exact .begin (hw.isFree hfree)
  · push Not at hfree
    rwa [run_of_running hfree.1 hfree.2]

theorem Worker.Sound.pass (hw : w.Sound now) (ms : Nat) : w.Sound (now + ms) where
  standing := hw.standing
  stale n r hn hsettled := (hw.stale n r hn hsettled).imp_right fun hlt => by omega

theorem Worker.Sound.settle (hw : w.Sound now) {n : Nat} (hclosed : ¬w.Opens now n) : (w.settle n).Sound now := by
  unfold Worker.settle
  split
  · rename_i began hn
    refine ⟨fun h => by simp at h, fun m r hm hsettled => .inr ?_⟩
    rcases Slots.of_getElem?_set hm with ⟨-, rfl⟩ | ⟨hne, hm⟩
    · cases hsettled
    · rcases hw.stale m r hm hsettled with ⟨hrunning, hlast⟩ | hstale
      · -- the last run goes on: it is past its timeout
        have hr := (hw.last hrunning (by rwa [← hlast, Nat.add_sub_cancel])).2
        by_contra hlt
        exact hclosed ⟨⟨_, hn, rfl⟩, by omega, hrunning, by omega⟩
      · exact hstale
  · exact hw

end Worker

/-! ## Steps -/

def Sound (s : State) : Prop := ∀ key, (s.workers key).Sound s.now

theorem Sound.update {s : State} (hs : Sound s) (key : PipelineKey) {f : Worker → Worker}
    (hf : (f (s.workers key)).Sound s.now) : Sound (s.update key f) := by
  intro k
  simp only [State.update]
  split
  · rename_i hk
    exact hk ▸ hf
  · exact hs k

theorem Sound.step {s : State} (hs : Sound s) {e : Event} (hclosed : Closed s e) : Sound (step s e) := by
  cases e with
  | pass ms => exact fun key => (hs key).pass ms
  | run key policy =>
    simp only [Overlap.step]
    split
    · exact hs.update key (hs key).run
    · exact hs
  | settle key n => exact hs.update key ((hs key).settle hclosed)

theorem Sound.exclusive {s : State} (hs : Sound s) : Exclusive s := by
  intro key policy _ hbegins
  refine (hs key).isFree fun hrunning => ?_
  by_contra hrecent
  exact hbegins (by rw [run_of_running hrunning (by omega)])

/-- A policy that lets every worker run. -/
def permissive : PolicyRuntime where
  enabledPlugins := [Utf16.text "amp", Utf16.text "scp", Utf16.text "cdp", Utf16.text "pmp"]
  modules := Pipelines.PIPELINE_KEYS.map fun key => (key.name, true)
  selfUpdate := true
  interval := fun _ => 3600

theorem isPermitted_permissive (key : PipelineKey) : isPermitted permissive key := by
  cases key <;> decide

/-- Once a run that was given up has cleared the flag, the next tick begins next to the last run. -/
theorem not_exclusive_of_opens {s : State} (hs : Sound s) {key : PipelineKey} {n : Nat}
    (hopens : (s.workers key).Opens s.now n) : ¬Exclusive (step s (.settle key n)) := by
  obtain ⟨⟨⟨began, _⟩, hn, rfl⟩, hlast, hrunning, hrecent⟩ := hopens
  obtain ⟨r, hr, hgoes, hbegan⟩ := (hs key).standing hrunning
  intro hexclusive
  have hworker : (step s (.settle key n)).workers key = ⟨false, 0, (s.workers key).runs.set n ⟨began, true⟩⟩ := by
    simp [step, State.update, Worker.settle, hn]
  have hfree := hexclusive key permissive (isPermitted_permissive key)
    (by rw [hworker, run_of_free (by simp)]; simp)
  rw [hworker] at hfree
  have hstill : ((s.workers key).runs.set n ⟨began, true⟩)[(s.workers key).runs.length - 1]? = some r := by
    have hpos := (List.getElem?_eq_some_iff.mp hr).1
    exact Slots.getElem?_set_of_ne (by omega) hr
  have hlate : r.began + WORKER_STUCK_TIMEOUT_MS < s.now := hfree r (List.mem_of_getElem? hstill) hgoes
  omega

/-- In exactly the runs in which no run that was given up settles while the one after it is under way, a run begins
only where its worker has no unfinished run within the timeout. -/
theorem always_exclusive_iff_closed (now : Nat) (tr : List Event) :
    (machine now).Always Exclusive tr ↔ (machine now).Guarded Closed tr := by
  refine Machine.always_iff_guarded (I := Sound) ?_ (fun s e hs hclosed => hs.step hclosed)
    (fun s hs => hs.exclusive) (fun s e hs hopen => ?_) tr
  · exact fun _ => ⟨fun h => by simp [machine] at h, fun n r hn => by simp [machine] at hn⟩
  · cases e with
    | settle key n => exact not_exclusive_of_opens hs (Classical.not_not.mp hopen)
    | pass ms => exact absurd trivial hopen
    | run key policy => exact absurd trivial hopen

/-! ## A third run -/

/-- The first run hangs and is given up for a second one, and settles while that one is under way. -/
def thirdRun : List Event :=
  [.run .patch permissive, .pass (WORKER_STUCK_TIMEOUT_MS + 1), .run .patch permissive, .pass 60000, .settle .patch 0]

theorem not_always_exclusive_thirdRun : ¬∀ now tr, (machine now).Always Exclusive tr := by
  intro h
  have hfree := (h 1 thirdRun).last .patch permissive (by decide) (by decide)
    ⟨1800002, false⟩ (by decide) rfl
  revert hfree
  decide

end Scheduler.Overlap
