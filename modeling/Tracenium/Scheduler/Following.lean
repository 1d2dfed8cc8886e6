-- SUMMARY: When the timers follow the plan, and every pipeline that becomes effective is run.
import Tracenium.Scheduler.Pipelines

/-! What the reconciler leaves to the startup sequence is in the rest of the one sequence that is alive. -/

open Utf16 Bool List Nat

namespace Scheduler.Pipelines

open Pipelines Sequence

/-! ## What follows the plan -/

def intervals (s : TaskScheduler) (key : PipelineKey) : List Nat :=
  (s.timers.of key).map Arming.intervalSeconds

/-- One timer for a pipeline that the plan arms, with its interval. -/
def planned (plan : PipelinePlan) (key : PipelineKey) : List Nat :=
  if (plan key).armed then [(plan key).intervalSeconds] else []

/-- The startup sequence that is alive has the pipeline before it. -/
def IsAhead (s : TaskScheduler) (key : PipelineKey) : Prop :=
  s.startupPending key = true ∧ ∃ seq ∈ s.sequences, seq.gen = s.startupGen ∧ key ∈ seq.rest

structure Follows (s : TaskScheduler) : Prop where
  timers : s.phase = .running → s.starting = 0 →
    ∃ p, s.reconciled = some p ∧ ∀ key, intervals s key = planned (readPipelinePlan p) key
  quiet : s.phase = .stopped → s.timers.running = [] ∧ s.attached = []
  run : ∀ key, s.owed key = true → IsAhead s key

/-- A startup sequence comes to a pipeline that is still to be run, and that is off by now. -/
def skipsOwed (armed owed : PipelineKey → Bool) (waits : Bool) : List PipelineKey → Bool
  | [] => false
  | key :: rest =>
    if key = .patch ∧ waits = true then false
    else if armed key then false
    else owed key || skipsOwed armed owed waits rest

/-- Pipelines start while the ones that are still to be run are not skipped. -/
def StartsOwed (s : TaskScheduler) (waits : Bool) : Prop :=
  skipsOwed (fun key => (readPipelinePlan s.policyRuntime key).armed) s.owed waits
    STARTUP_SERIAL_ORDER = false

/-- No start goes on after a stop, and what became effective is run before it goes off. -/
def Permits (s : TaskScheduler) : Event → Prop
  | .inventoryDone waits => 0 < s.starting → s.phase ≠ .stopped ∧ StartsOwed s waits
  | .stop => ∀ key, s.owed key = false
  | .reload waits => s.ctx = true → StartsOwed s waits
  | .sequenceResumed i waits => ∀ seq, s.sequences[i]? = some seq → seq.gen = s.startupGen →
      skipsOwed (armed s) s.owed (waits && !seq.waited) seq.rest = false
  | _ => True

/-! ## The plan -/

theorem mem_pipelineKeys (key : PipelineKey) : key ∈ PIPELINE_KEYS := by
  cases key <;> decide

theorem armed_of_effective {p : PolicyRuntime} {key : PipelineKey}
    (h : (readPipelinePlan p key).effective) : (readPipelinePlan p key).armed := by
  cases key with
  | inventory | compliance | patch => exact (and_eq_true_iff.mp h).1
  | update | cdp => exact h

/-- A pipeline that need not be armed anew is armed as the new plan says. -/
theorem planned_of_not_needsRearm {prev : Option PipelinePlan} {next : PipelinePlan}
    {key : PipelineKey} (h : needsRearm prev next key = false) :
    ∃ plan, prev = some plan ∧ planned plan key = planned next key := by
  cases prev with
  | none => cases h
  | some plan =>
    refine ⟨plan, rfl, ?_⟩
    obtain ⟨harmed, hinterval⟩ := or_eq_false_iff.mp h
    have harmed : (plan key).armed = (next key).armed := by simpa using harmed
    unfold planned
    rw [harmed]
    cases hnext : (next key).armed with
    | false => rfl
    | true =>
      rw [hnext, Bool.true_and] at hinterval
      have hinterval : (plan key).intervalSeconds = (next key).intervalSeconds := by
        simpa using hinterval
      rw [if_pos rfl, if_pos rfl, hinterval]

/-! ## Timers -/

/-- The register is exact, and a pipeline with a timer is active. -/
structure Timed (s : TaskScheduler) : Prop where
  tracked : s.timers.Tracked
  active : ∀ key, s.timers.of key ≠ [] → s.pipelineActive key = true

/-- Only timers and runs are changed. -/
def OnlyTimers (s s' : TaskScheduler) : Prop :=
  ∃ timers active runs, s' = { s with timers := timers, pipelineActive := active, runs := runs }

theorem OnlyTimers.refl (s : TaskScheduler) : OnlyTimers s s := ⟨_, _, _, rfl⟩

theorem OnlyTimers.trans {s s' s'' : TaskScheduler} (h : OnlyTimers s s') (h' : OnlyTimers s' s'') :
    OnlyTimers s s'' := by
  obtain ⟨_, _, _, rfl⟩ := h
  obtain ⟨_, _, _, rfl⟩ := h'
  exact ⟨_, _, _, rfl⟩

section Timed

variable {s : TaskScheduler} {key : PipelineKey} {x : Arming}

theorem onlyTimers_armPipeline (key : PipelineKey) (interval : Nat) (initial : Bool) :
    OnlyTimers s (armPipeline s key interval initial) := by
  unfold armPipeline armJitteredPipeline
  split
  · exact ⟨_, _, _, rfl⟩
  · exact ⟨_, _, _, rfl⟩

theorem onlyTimers_rearmPipeline (next : PipelinePlan) (key : PipelineKey) :
    OnlyTimers s (rearmPipeline s next key) := by
  have hstop : OnlyTimers s (stopPipeline s key) := ⟨_, _, _, rfl⟩
  unfold rearmPipeline
  split
  · exact hstop.trans (onlyTimers_armPipeline _ _ _)
  · exact hstop

theorem onlyTimers_foldl {f : TaskScheduler → PipelineKey → TaskScheduler}
    (hf : ∀ s key, OnlyTimers s (f s key)) (keys : List PipelineKey) : OnlyTimers s (keys.foldl f s) := by
  induction keys generalizing s with
  | nil => exact .refl s
  | cons key keys ih => exact (hf s key).trans ih

theorem onlyTimers_fire (timer : Timer PipelineKey Arming) : OnlyTimers s (fire s timer) := by
  unfold fire armJitteredPipeline
  dsimp only
  split
  · exact ⟨_, _, _, rfl⟩
  · exact ⟨_, _, _, rfl⟩

/-- Arming a pipeline without a timer gives it one. -/
theorem Timed.armPipeline (hs : Timed s) (hnone : s.timers.of key = []) (interval : Nat) (initial : Bool) :
    Timed (armPipeline s key interval initial) ∧ ∀ key', intervals (armPipeline s key interval initial) key' =
        if key' = key then [interval] else intervals s key' := by
  unfold Pipelines.armPipeline armJitteredPipeline
  rw [if_pos (by dsimp only; rw [decide_eq_true rfl, Bool.true_or])]
  refine ⟨⟨hs.tracked.arm hnone _, ?_⟩, ?_⟩
  · intro key' hkey'
    dsimp only at hkey' ⊢
    by_cases hkey : key' = key
    · rw [decide_eq_true hkey, Bool.true_or]
    · rw [Timers.of_arm, if_neg hkey] at hkey'
      rw [hs.active key' hkey', Bool.or_true]
  · intro key'
    unfold intervals
    rw [Timers.of_arm]
    split
    next hkey =>
      rw [hkey, hnone]
      rfl
    · rfl

theorem Timed.stopPipeline (hs : Timed s) (key : PipelineKey) : Timed (stopPipeline s key) ∧
      ∀ key', (stopPipeline s key).timers.of key' = if key' = key then [] else s.timers.of key' := by
  refine ⟨⟨hs.tracked.clear key, ?_⟩, hs.tracked.of_clear key⟩
  intro key' hkey'
  unfold Pipelines.stopPipeline at hkey' ⊢
  dsimp only at hkey' ⊢
  rw [hs.tracked.of_clear] at hkey'
  by_cases hkey : key' = key
  · rw [if_pos hkey] at hkey'
    exact absurd rfl hkey'
  · rw [if_neg hkey] at hkey'
    rw [hs.active key' hkey', decide_eq_true hkey, Bool.true_and]

/-- A pipeline without a timer is armed if the plan says so. -/
theorem Timed.armPlanned (hs : Timed s) (hnone : s.timers.of key = []) (plan : PipelinePlan)
    (initial : Bool) {s' : TaskScheduler} (hs' : s' =
      if (plan key).armed then Pipelines.armPipeline s key (plan key).intervalSeconds initial else s) :
    Timed s' ∧ ∀ key', intervals s' key' = if key' = key then planned plan key' else intervals s key' := by
  subst hs'
  split
  next harmed =>
    obtain ⟨htimed, harm⟩ := hs.armPipeline hnone (plan key).intervalSeconds initial
    refine ⟨htimed, fun key' => ?_⟩
    rw [harm]
    split
    next hkey =>
      unfold planned
      rw [hkey, if_pos harmed]
    · rfl
  next harmed =>
    refine ⟨hs, fun key' => ?_⟩
    split
    next hkey =>
      unfold planned intervals
      rw [hkey, if_neg harmed, hnone]
      rfl
    · rfl

theorem Timed.rearmPipeline (hs : Timed s) (next : PipelinePlan) (key : PipelineKey) :
    Timed (rearmPipeline s next key) ∧ ∀ key', intervals (rearmPipeline s next key) key' =
        if key' = key then planned next key' else intervals s key' := by
  obtain ⟨hstop, hof⟩ := hs.stopPipeline key
  obtain ⟨htimed, harm⟩ := hstop.armPlanned (by rw [hof, if_pos rfl]) next false
    (rfl : Pipelines.rearmPipeline s next key = _)
  refine ⟨htimed, fun key' => ?_⟩
  rw [harm]
  split
  · rfl
  next hkey =>
    unfold intervals
    rw [hof, if_neg hkey]

/-- Arming some pipelines anew leaves the others as they are. -/
theorem Timed.rearmPipelines (hs : Timed s) (next : PipelinePlan) (keys : List PipelineKey) :
    Timed (keys.foldl (fun s key => Pipelines.rearmPipeline s next key) s) ∧
      ∀ key, intervals (keys.foldl (fun s key => Pipelines.rearmPipeline s next key) s) key =
        if key ∈ keys then planned next key else intervals s key := by
  induction keys generalizing s with
  | nil =>
    refine ⟨hs, fun key => ?_⟩
    rfl
  | cons key keys ih =>
    obtain ⟨hhead, hintervals⟩ := hs.rearmPipeline next key
    obtain ⟨htail, hrest⟩ := ih hhead
    refine ⟨htail, fun key' => ?_⟩
    rw [foldl_cons, hrest, hintervals]
    by_cases hmem : key' ∈ keys
    · rw [if_pos hmem, if_pos (mem_cons_of_mem _ hmem)]
    · rw [if_neg hmem]
      by_cases hkey : key' = key
      · rw [if_pos hkey, if_pos (hkey ▸ mem_cons_self)]
      · rw [if_neg hkey, if_neg (by simp [hkey, hmem])]

theorem Timed.stopAll (hs : Timed s) : Timed (stopAll s) ∧ (stopAll s).timers.running = [] := by
  have hrunning : (Pipelines.stopAll s).timers.running = [] := hs.tracked.clearAll_running
  refine ⟨⟨hs.tracked.clearAll, fun key hkey => ?_⟩, hrunning⟩
  refine absurd (Timers.of_eq_nil fun timer htimer => ?_) hkey
  rw [hrunning] at htimer
  cases htimer

/-- Arming a plan gives each of its pipelines its timer. -/
theorem Timed.armPlan_foldl (hs : Timed s) (plan : PipelinePlan) {keys : List PipelineKey}
    (hnodup : keys.Nodup) (hnone : ∀ key ∈ keys, s.timers.of key = []) :
    Timed (keys.foldl (fun s key => if (plan key).armed then
        Pipelines.armPipeline s key (plan key).intervalSeconds true else s) s) ∧
      ∀ key, intervals (keys.foldl (fun s key => if (plan key).armed then
          Pipelines.armPipeline s key (plan key).intervalSeconds true else s) s) key =
        if key ∈ keys then planned plan key else intervals s key := by
  induction keys generalizing s with
  | nil =>
    refine ⟨hs, fun key => ?_⟩
    rfl
  | cons key keys ih =>
    obtain ⟨hhead, htail⟩ := nodup_cons.mp hnodup
    have hkey := hnone key mem_cons_self
    rw [foldl_cons]
    obtain ⟨htimed, hintervals⟩ := hs.armPlanned hkey plan true rfl
    generalize (if (plan key).armed then Pipelines.armPipeline s key (plan key).intervalSeconds true
      else s) = s' at htimed hintervals ⊢
    have hnone' : ∀ key' ∈ keys, s'.timers.of key' = [] := by
      intro key' hmem
      have hne : key' ≠ key := by
        rintro rfl
        exact hhead hmem
      have hof := hintervals key'
      rw [if_neg hne] at hof
      unfold intervals at hof
      rw [hnone key' (mem_cons_of_mem _ hmem)] at hof
      exact map_eq_nil_iff.mp hof
    obtain ⟨hall, hrest⟩ := ih htimed htail hnone'
    refine ⟨hall, fun key' => ?_⟩
    rw [hrest, hintervals]
    by_cases hmem : key' ∈ keys
    · rw [if_pos hmem, if_pos (mem_cons_of_mem _ hmem)]
    · rw [if_neg hmem]
      by_cases hkey' : key' = key
      · rw [if_pos hkey', if_pos (hkey' ▸ mem_cons_self)]
      · rw [if_neg hkey', if_neg (by simp [hkey', hmem])]

/-- A timer that goes off is followed by one with its interval. -/
theorem Timed.fire {timer : Timer PipelineKey Arming} (hs : Timed s) (htimer : timer ∈ s.timers.running) :
    Timed (fire s timer) ∧ ∀ key, intervals (fire s timer) key = intervals s key := by
  have hof := hs.tracked.of_eq htimer
  have hactive : s.pipelineActive timer.key := hs.active timer.key (by rw [hof]; exact cons_ne_nil _ _)
  have hcleared : (s.timers.clear timer.key).of timer.key = [] := by
    rw [hs.tracked.of_clear, if_pos rfl]
  have hrunning : ∀ key, ((s.timers.clear timer.key).arm timer.key
      ⟨timer.data.intervalSeconds, none⟩).of key =
        if key = timer.key then [⟨timer.data.intervalSeconds, none⟩] else s.timers.of key := by
    intro key
    rw [Timers.of_arm]
    split
    next hkey =>
      rw [hkey, hcleared]
      rfl
    next hkey => rw [hs.tracked.of_clear, if_neg hkey]
  unfold Pipelines.fire armJitteredPipeline runPipeline
  rw [if_pos hactive, hs.tracked.expire_eq htimer]
  refine ⟨⟨(hs.tracked.clear timer.key).arm hcleared _, ?_⟩, ?_⟩
  · intro key hkey
    rw [hrunning] at hkey
    by_cases heq : key = timer.key
    · rw [heq]
      exact hactive
    · rw [if_neg heq] at hkey
      exact hs.active key hkey
  · intro key
    unfold intervals
    rw [hrunning]
    split
    next hkey =>
      rw [hkey, hof]
      rfl
    · rfl

end Timed

/-! ## The startup sequence -/

/-- What is pending is before the one sequence that is alive, and what is owed is pending. -/
structure Startup (s : TaskScheduler) : Prop where
  serial : ∀ key, s.startupPending key = true → key ∈ STARTUP_SERIAL_ORDER
  alive : ∀ key, s.startupPending key = true → IsAhead s key
  bounded : ∀ seq ∈ s.sequences, seq.gen ≤ s.startupGen
  nodup : (s.sequences.map gen).Nodup
  owed : ∀ key, s.owed key = true → s.startupPending key = true

/-- Only the startup sequences and runs are changed. -/
def OnlyStartup (s s' : TaskScheduler) : Prop :=
  ∃ pending sequences owed runs,
    s' = { s with startupPending := pending, sequences := sequences, owed := owed, runs := runs }

theorem OnlyStartup.refl (s : TaskScheduler) : OnlyStartup s s := ⟨_, _, _, _, rfl⟩

theorem OnlyStartup.trans {s s' s'' : TaskScheduler} (h : OnlyStartup s s')
    (h' : OnlyStartup s' s'') : OnlyStartup s s'' := by
  obtain ⟨_, _, _, _, rfl⟩ := h
  obtain ⟨_, _, _, _, rfl⟩ := h'
  exact ⟨_, _, _, _, rfl⟩

section Startup

variable {s s' : TaskScheduler} {gen : Nat} {waits : Bool} {rest : List PipelineKey}

theorem Startup.of_onlyTimers (hs : Startup s) (h : OnlyTimers s s') : Startup s' := by
  obtain ⟨_, _, _, rfl⟩ := h
  exact { hs with }

theorem Timed.of_onlyStartup (hs : Timed s) (h : OnlyStartup s s') : Timed s' := by
  obtain ⟨_, _, _, _, rfl⟩ := h
  exact { hs with }

theorem onlyStartup_runEffective (key : PipelineKey) : OnlyStartup s (runEffective s key) := by
  unfold runEffective
  split
  · exact .refl s
  · split
    · exact .refl s
    · exact ⟨_, _, _, _, rfl⟩

theorem onlyStartup_advance : OnlyStartup s (advance gen waits rest s) := by
  induction rest generalizing s with
  | nil => exact .refl s
  | cons key rest ih =>
    unfold advance
    split
    · exact .refl s
    · split
      · exact ⟨_, _, _, _, rfl⟩
      · dsimp only
        split
        · exact ⟨_, _, _, _, rfl⟩
        · exact OnlyStartup.trans ⟨_, _, _, _, rfl⟩ ih

/-- A sequence that is not alive does nothing more. -/
theorem advance_of_dead (hgen : gen ≠ s.startupGen) : advance gen waits rest s = s := by
  cases rest with
  | nil => rfl
  | cons key rest =>
    unfold advance
    rw [if_pos hgen]

/-- No sequence that waits has this generation. -/
structure Absent (s : TaskScheduler) (gen : Nat) : Prop where
  bounded : ∀ seq ∈ s.sequences, seq.gen ≤ s.startupGen
  nodup : (s.sequences.map Sequence.gen).Nodup
  absent : ∀ seq ∈ s.sequences, seq.gen ≠ gen

theorem Absent.suspend (h : Absent s s.startupGen) (rest : List PipelineKey) (waited : Bool) :
    (∀ seq ∈ s.sequences ++ [Sequence.mk s.startupGen rest waited], seq.gen ≤ s.startupGen) ∧
      ((s.sequences ++ [Sequence.mk s.startupGen rest waited]).map Sequence.gen).Nodup := by
  constructor
  · intro seq hseq
    rcases mem_append.mp hseq with hseq | hseq
    · exact h.bounded seq hseq
    · obtain rfl := mem_singleton.mp hseq
      exact le_refl _
  · rw [map_append]
    refine nodup_append.mpr ⟨h.nodup, nodup_singleton _, ?_⟩
    intro g hg g' hg'
    obtain ⟨seq, hseq, rfl⟩ := mem_map.mp hg
    obtain rfl := mem_singleton.mp hg'
    exact h.absent seq hseq

/-- The sequence that is alive goes on: what it has passed is not pending any more, it was run if it
was armed, and the rest is before it still. -/
theorem Startup.advance (habsent : Absent s s.startupGen) (hpending : ∀ key, s.startupPending key → key ∈ rest)
    (hserial : ∀ key, s.startupPending key → key ∈ STARTUP_SERIAL_ORDER)
    (howed : ∀ key, s.owed key → s.startupPending key)
    (hskips : skipsOwed (armed s) s.owed waits rest = false) : Startup (advance s.startupGen waits rest s) := by
  induction rest generalizing s with
  | nil =>
    have hnone : ∀ key, s.startupPending key → False :=
      fun key hkey => not_mem_nil (hpending key hkey)
    exact
      { serial := fun key hkey => (hnone key hkey).elim
        alive := fun key hkey => (hnone key hkey).elim
        bounded := habsent.bounded
        nodup := habsent.nodup
        owed := howed }
  | cons key rest ih =>
    unfold skipsOwed at hskips
    unfold advance
    rw [if_neg (not_not.mpr rfl)]
    split
    next hwaits =>
      obtain ⟨hb, hn⟩ := habsent.suspend (key :: rest) true
      exact
        { serial := hserial
          alive := fun key' hkey' =>
            ⟨hkey', _, mem_append_right _ mem_cons_self, rfl, hpending key' hkey'⟩
          bounded := hb
          nodup := hn
          owed := howed }
    next hwaits =>
      rw [if_neg hwaits] at hskips
      -- what is pending after this turn is in the rest
      have hrest : ∀ key', (decide (key' ≠ key) && s.startupPending key') → key' ∈ rest := by
        intro key' hkey'
        obtain ⟨hne, hpend⟩ := and_eq_true_iff.mp hkey'
        rcases mem_cons.mp (hpending key' hpend) with heq | hmem
        · exact absurd heq (of_decide_eq_true hne)
        · exact hmem
      dsimp only
      split
      next harmed =>
        obtain ⟨hb, hn⟩ := habsent.suspend rest false
        exact
          { serial := fun key' hkey' => hserial key' (and_eq_true_iff.mp hkey').2
            alive := fun key' hkey' =>
              ⟨hkey', _, mem_append_right _ mem_cons_self, rfl, hrest key' hkey'⟩
            bounded := hb
            nodup := hn
            owed := by
              intro key' hkey'
              obtain ⟨hne, hold⟩ := and_eq_true_iff.mp hkey'
              exact and_eq_true_iff.mpr ⟨hne, howed key' hold⟩ }
      next harmed =>
        have harmed' : ¬ armed s key := harmed
        rw [if_neg harmed'] at hskips
        obtain ⟨hkey, hskips⟩ := or_eq_false_iff.mp hskips
        refine ih (s := dequeue s key) ⟨habsent.bounded, habsent.nodup, habsent.absent⟩ hrest
          (fun key' hkey' => hserial key' (and_eq_true_iff.mp hkey').2) ?_ hskips
        intro key' hkey'
        refine and_eq_true_iff.mpr ⟨decide_eq_true ?_, howed key' hkey'⟩
        rintro rfl
        exact false_ne_true (hkey.symm.trans hkey')

/-- What is owed stays so if it is neither armed nor pending. -/
theorem owed_advance_of_passed {key : PipelineKey} (harmed : armed s key = false)
    (howed : s.owed key) (hpending : s.startupPending key = false) :
    (advance gen waits rest s).owed key ∧ (advance gen waits rest s).startupPending key = false := by
  induction rest generalizing s with
  | nil => exact ⟨howed, hpending⟩
  | cons key' rest ih =>
    unfold advance
    split
    · exact ⟨howed, hpending⟩
    · split
      · exact ⟨howed, hpending⟩
      · dsimp only
        have hpending' : (decide (key ≠ key') && s.startupPending key) = false := by
          rw [hpending, Bool.and_false]
        split
        next harmed' =>
          refine ⟨and_eq_true_iff.mpr ⟨decide_eq_true ?_, howed⟩, hpending'⟩
          rintro rfl
          exact false_ne_true (harmed.symm.trans harmed')
        · exact ih harmed howed hpending'

/-- A pipeline that was passed while it was owed is owed, and not pending any more. -/
theorem owed_advance (hskips : skipsOwed (armed s) s.owed waits rest) :
    ∃ key, (advance s.startupGen waits rest s).owed key ∧
      (advance s.startupGen waits rest s).startupPending key = false := by
  induction rest generalizing s with
  | nil => cases hskips
  | cons key rest ih =>
    unfold skipsOwed at hskips
    unfold advance
    rw [if_neg (not_not.mpr rfl)]
    split at hskips
    · cases hskips
    next hwaits =>
      rw [if_neg hwaits]
      split at hskips
      · cases hskips
      next harmed =>
        rw [if_neg (show ¬ armed (dequeue s key) key from harmed)]
        rcases or_eq_true_iff.mp hskips with hkey | hskips
        · refine ⟨key, owed_advance_of_passed (eq_false_iff.mpr harmed) hkey ?_⟩
          unfold dequeue
          dsimp only
          rw [decide_eq_false (not_not.mpr rfl), Bool.false_and]
        · exact ih (s := dequeue s key) hskips

end Startup

/-! ## Reconciliation -/

/-- Neither the listeners nor the calls of `start` and `stop` are changed. -/
structure SameListeners (s s' : TaskScheduler) : Prop where
  phase : s'.phase = s.phase
  starting : s'.starting = s.starting
  ctx : s'.ctx = s.ctx
  attached : s'.attached = s.attached
  policyListeners : s'.policyListeners = s.policyListeners

section Reconcile

variable {s s' s'' : TaskScheduler}

theorem SameListeners.trans (h : SameListeners s s') (h' : SameListeners s' s'') : SameListeners s s'' :=
  ⟨h'.phase.trans h.phase, h'.starting.trans h.starting, h'.ctx.trans h.ctx,
    h'.attached.trans h.attached, h'.policyListeners.trans h.policyListeners⟩

theorem OnlyTimers.sameListeners (h : OnlyTimers s s') : SameListeners s s' := by
  obtain ⟨_, _, _, rfl⟩ := h
  exact ⟨rfl, rfl, rfl, rfl, rfl⟩

theorem OnlyStartup.sameListeners (h : OnlyStartup s s') : SameListeners s s' := by
  obtain ⟨_, _, _, _, rfl⟩ := h
  exact ⟨rfl, rfl, rfl, rfl, rfl⟩

theorem OnlyStartup.intervals (h : OnlyStartup s s') (key : PipelineKey) : intervals s' key = intervals s key := by
  obtain ⟨_, _, _, _, rfl⟩ := h
  rfl

/-- What the reconciler runs is not owed, and it changes nothing else of the startup. -/
theorem runEffective_foldl (keys : List PipelineKey) : OnlyStartup s (keys.foldl runEffective s) ∧
      (keys.foldl runEffective s).startupPending = s.startupPending ∧
      (keys.foldl runEffective s).sequences = s.sequences ∧ ∀ key, (keys.foldl runEffective s).owed key →
        s.owed key ∧ (key ∈ keys → key ≠ .inventory → s.startupPending key) := by
  induction keys generalizing s with
  | nil => exact ⟨.refl s, rfl, rfl, fun key howed => ⟨howed, fun h => absurd h not_mem_nil⟩⟩
  | cons key keys ih =>
    obtain ⟨honly, hpending, hsequences, howed⟩ := ih (s := runEffective s key)
    have hhead : (runEffective s key).startupPending = s.startupPending ∧
        (runEffective s key).sequences = s.sequences ∧
        ∀ key', (runEffective s key).owed key' →
          s.owed key' ∧ (key' = key → key' ≠ .inventory → s.startupPending key') := by
      unfold runEffective
      split
      next hkey => exact ⟨rfl, rfl, fun key' h => ⟨h, fun heq hne => absurd (heq.trans hkey) hne⟩⟩
      · split
        next hpending => exact ⟨rfl, rfl, fun key' h => ⟨h, fun heq _ => heq ▸ hpending⟩⟩
        · refine ⟨rfl, rfl, fun key' h => ?_⟩
          obtain ⟨hne, hold⟩ := and_eq_true_iff.mp h
          exact ⟨hold, fun heq => absurd heq (of_decide_eq_true hne)⟩
    obtain ⟨hp, hs, ho⟩ := hhead
    refine ⟨(onlyStartup_runEffective key).trans honly, hpending.trans hp, hsequences.trans hs, ?_⟩
    intro key' h
    obtain ⟨hold, hrest⟩ := howed key' h
    obtain ⟨hold, hhead⟩ := ho key' hold
    refine ⟨hold, fun hmem hne => ?_⟩
    rcases mem_cons.mp hmem with heq | hmem
    · exact hhead heq hne
    · exact hp ▸ hrest hmem hne

theorem mem_rearm {prev : Option PipelinePlan} {next : PipelinePlan} {key : PipelineKey} :
    key ∈ (diffPipelinePlan prev next).rearm ↔ needsRearm prev next key :=
  mem_filter.trans (and_iff_right (mem_pipelineKeys key))

theorem mem_runNow {prev : Option PipelinePlan} {next : PipelinePlan} {key : PipelineKey} :
    key ∈ (diffPipelinePlan prev next).runNow ↔ becomesEffective prev next key :=
  mem_filter.trans (and_iff_right (mem_pipelineKeys key))

/-- A reconciliation up to where pipelines are run. -/
def rearmed (s : TaskScheduler) : TaskScheduler :=
  let next := readPipelinePlan s.policyRuntime
  (diffPipelinePlan s.plan next).rearm.foldl (fun s key => rearmPipeline s next key) (adopt s next)

theorem onlyTimers_rearmed : OnlyTimers (adopt s (readPipelinePlan s.policyRuntime)) (rearmed s) :=
  onlyTimers_foldl (fun _ key => onlyTimers_rearmPipeline _ key) _

/-- What a reconciliation runs after that, and that it leaves the rest to the startup sequence. -/
theorem reconcilePipelines_spec (s : TaskScheduler) : OnlyStartup (rearmed s) (reconcilePipelines s) ∧
      (reconcilePipelines s).startupPending = s.startupPending ∧ (reconcilePipelines s).sequences = s.sequences ∧
      ∀ key, (reconcilePipelines s).owed key → s.owed key ∨ s.startupPending key := by
  have hsame : (rearmed s).startupPending = s.startupPending ∧ (rearmed s).sequences = s.sequences ∧
      (rearmed s).owed = (adopt s (readPipelinePlan s.policyRuntime)).owed := by
    obtain ⟨_, _, _, hrearmed⟩ := onlyTimers_rearmed (s := s)
    rw [hrearmed]
    exact ⟨rfl, rfl, rfl⟩
  obtain ⟨hsamePending, hsameSequences, hsameOwed⟩ := hsame
  obtain ⟨hrun, hpending, hsequences, howed⟩ := runEffective_foldl (s := rearmed s)
    (diffPipelinePlan s.plan (readPipelinePlan s.policyRuntime)).runNow
  have hall : ∀ key, ((diffPipelinePlan s.plan (readPipelinePlan s.policyRuntime)).runNow.foldl
      runEffective (rearmed s)).owed key → s.owed key ∨ s.startupPending key := by
    intro key h
    obtain ⟨hadopted, hnow⟩ := howed key h
    rw [hsameOwed] at hadopted
    rw [hsamePending] at hnow
    rcases or_eq_true_iff.mp hadopted with hold | hnew
    · exact .inl hold
    · obtain ⟨hne, heffective⟩ := and_eq_true_iff.mp hnew
      exact .inr (hnow (mem_runNow.mpr heffective) (of_decide_eq_true hne))
  rw [hsamePending] at hpending
  rw [hsameSequences] at hsequences
  unfold reconcilePipelines
  dsimp only
  split
  next hnothing =>
    -- nothing is armed or run, so what comes after the adoption of the plan does nothing
    obtain ⟨hrearm, hnow, _⟩ := hnothing
    rw [hnow] at hall
    unfold rearmed at hall ⊢
    dsimp only at hall ⊢
    rw [hrearm] at hall ⊢
    exact ⟨.refl _, rfl, rfl, hall⟩
  · split
    · exact ⟨hrun.trans ⟨_, _, _, _, rfl⟩, hpending, hsequences, hall⟩
    · exact ⟨hrun, hpending, hsequences, hall⟩

theorem reconcilePipelines_sameListeners : SameListeners s (reconcilePipelines s) := by
  have hadopt : SameListeners s (adopt s (readPipelinePlan s.policyRuntime)) := ⟨rfl, rfl, rfl, rfl, rfl⟩
  exact hadopt.trans (onlyTimers_rearmed.sameListeners.trans
    (reconcilePipelines_spec s).1.sameListeners)

theorem reconcilePipelines_plan : (reconcilePipelines s).plan = some (readPipelinePlan s.policyRuntime) ∧
      (reconcilePipelines s).reconciled = some s.policyRuntime ∧
      (reconcilePipelines s).startupGen = s.startupGen := by
  obtain ⟨_, _, _, _, heq⟩ := (reconcilePipelines_spec s).1
  obtain ⟨_, _, _, hrearmed⟩ := onlyTimers_rearmed (s := s)
  rw [heq, hrearmed]
  exact ⟨rfl, rfl, rfl⟩

/-- A reconciliation arms anew what changed. -/
theorem Timed.reconcilePipelines (hs : Timed s) :
    Timed (reconcilePipelines s) ∧ ∀ key, intervals (reconcilePipelines s) key =
      if needsRearm s.plan (readPipelinePlan s.policyRuntime) key then planned (readPipelinePlan s.policyRuntime) key
      else intervals s key := by
  have hadopt : Timed (adopt s (readPipelinePlan s.policyRuntime)) := { hs with }
  obtain ⟨hrearmed, hintervals⟩ := hadopt.rearmPipelines (readPipelinePlan s.policyRuntime)
    (diffPipelinePlan s.plan (readPipelinePlan s.policyRuntime)).rearm
  have honly := (reconcilePipelines_spec s).1
  refine ⟨hrearmed.of_onlyStartup honly, fun key => ?_⟩
  rw [honly.intervals]
  refine (hintervals key).trans ?_
  exact if_congr mem_rearm rfl rfl

theorem Startup.reconcilePipelines (hs : Startup s) : Startup (reconcilePipelines s) := by
  obtain ⟨_, hpending, hsequences, howed⟩ := reconcilePipelines_spec s
  obtain ⟨_, _, hgen⟩ := reconcilePipelines_plan (s := s)
  constructor
  · rw [hpending]
    exact hs.serial
  · intro key hkey
    unfold IsAhead
    rw [hpending] at hkey ⊢
    rw [hsequences, hgen]
    exact hs.alive key hkey
  · rw [hsequences, hgen]
    exact hs.bounded
  · rw [hsequences]
    exact hs.nodup
  · intro key hkey
    rw [hpending]
    rcases howed key hkey with hold | hpend
    · exact hs.owed key hold
    · exact hpend

end Reconcile

/-! ## Starting -/

section Start

variable {s s' : TaskScheduler} {waits : Bool}

/-- When the startup sequence begins, the timers are as the plan says. -/
theorem Timed.launched (hs : Timed s) : Timed (launched s) ∧
      ∀ key, intervals (launched s) key = planned (readPipelinePlan s.policyRuntime) key := by
  obtain ⟨hstopped, hrunning⟩ := hs.stopAll
  have hnone : ∀ key, (Pipelines.stopAll s).timers.of key = [] := by
    intro key
    apply Timers.of_eq_nil
    intro timer htimer
    rw [hrunning] at htimer
    cases htimer
  have hadopt : Timed (adopt (Pipelines.stopAll s) (readPipelinePlan s.policyRuntime)) :=
    { hstopped with }
  obtain ⟨harmed, hintervals⟩ := hadopt.armPlan_foldl (readPipelinePlan s.policyRuntime)
    (show PIPELINE_KEYS.Nodup by decide) fun key _ => hnone key
  have hkeys : ∀ key, intervals (armPlan (adopt (Pipelines.stopAll s)
      (readPipelinePlan s.policyRuntime)) (readPipelinePlan s.policyRuntime)) key =
        planned (readPipelinePlan s.policyRuntime) key :=
    fun key => (hintervals key).trans (if_pos (mem_pipelineKeys key))
  unfold Pipelines.launched
  dsimp only
  split
  · exact ⟨{ harmed with }, hkeys⟩
  · exact ⟨{ harmed with }, hkeys⟩

/-- The scheduler when the startup sequence begins: the update is run if it is armed. -/
theorem launched_eq (s : TaskScheduler) : ∃ timers active runs owed, launched s =
      { adopt (stopAll s) (readPipelinePlan s.policyRuntime) with
        timers := timers
        pipelineActive := active
        runs := runs
        owed := owed
        startupGen := s.startupGen + 1 + 1
        startupPending := fun key => STARTUP_SERIAL_ORDER.contains key } ∧
      ∀ key, owed key = (!((readPipelinePlan s.policyRuntime .update).armed && key = .update) &&
        (adopt s (readPipelinePlan s.policyRuntime)).owed key) := by
  obtain ⟨_, _, _, harm⟩ : OnlyTimers (adopt (stopAll s) (readPipelinePlan s.policyRuntime))
      (armPlan (adopt (stopAll s) (readPipelinePlan s.policyRuntime))
        (readPipelinePlan s.policyRuntime)) := by
    apply onlyTimers_foldl
    intro s key
    split
    · exact onlyTimers_armPipeline _ _ _
    · exact .refl s
  unfold launched
  dsimp only
  rw [harm]
  split
  next harmed =>
    refine ⟨_, _, _, _, rfl, fun key => ?_⟩
    rw [harmed]
    cases key <;> rfl
  next harmed =>
    refine ⟨_, _, _, _, rfl, fun key => ?_⟩
    rw [Bool.eq_false_iff.mpr harmed, Bool.false_and, Bool.not_false, Bool.true_and]
    rfl

theorem skipsOwed_congr {armed owed owed' : PipelineKey → Bool} {rest : List PipelineKey}
    (h : ∀ key, armed key = false → owed key = owed' key) :
    skipsOwed armed owed waits rest = skipsOwed armed owed' waits rest := by
  induction rest with
  | nil => rfl
  | cons key rest ih =>
    unfold skipsOwed
    split
    · rfl
    · split
      · rfl
      next harmed => rw [h key (eq_false_iff.mpr harmed), ih]

/-- What a plan leaves off is owed only if it was owed before. -/
theorem skipsOwed_launched : skipsOwed (armed (launched s)) (launched s).owed waits
      STARTUP_SERIAL_ORDER = false ↔ StartsOwed s waits := by
  obtain ⟨_, _, _, owed, heq, howed⟩ := launched_eq s
  rw [heq]
  apply Eq.congr_left
  apply skipsOwed_congr
  intro key harmed
  have harmed' : (readPipelinePlan s.policyRuntime key).armed = false := harmed
  have heffective : (readPipelinePlan s.policyRuntime key).effective = false := by
    apply Bool.eq_false_iff.mpr
    intro h
    exact Bool.false_ne_true (harmed'.symm.trans (armed_of_effective h))
  have hupdate : ((readPipelinePlan s.policyRuntime .update).armed && key = .update) = false := by
    by_cases hkey : key = .update
    · rw [← hkey, harmed', Bool.false_and]
    · rw [decide_eq_false hkey, Bool.and_false]
  refine (howed key).trans ?_
  unfold adopt becomesEffective
  dsimp only
  rw [hupdate, heffective, Bool.not_false, Bool.true_and, Bool.false_and, Bool.and_false, Bool.or_false]

/-- Whatever becomes effective with a start is before the startup sequence, or was run. -/
theorem Startup.startPipelines (hs : Startup s) (hskips : StartsOwed s waits) : Startup (startPipelines s waits) := by
  have hskips := skipsOwed_launched.mpr hskips
  obtain ⟨_, _, _, owed, heq, howed⟩ := launched_eq s
  unfold Pipelines.startPipelines
  rw [heq] at hskips ⊢
  have hlt : ∀ seq ∈ s.sequences, seq.gen < s.startupGen + 1 + 1 :=
    fun seq hseq => lt_succ_of_lt (lt_succ_of_le (hs.bounded seq hseq))
  refine Startup.advance ⟨?_, hs.nodup, ?_⟩ ?_ ?_ ?_ hskips
  · exact fun seq hseq => le_of_lt (hlt seq hseq)
  · exact fun seq hseq => Nat.ne_of_lt (hlt seq hseq)
  · exact fun key hkey => contains_iff_mem.mp hkey
  · exact fun key hkey => contains_iff_mem.mp hkey
  · intro key hkey
    dsimp only at hkey ⊢
    rw [howed] at hkey
    obtain ⟨hupdate, hadopt⟩ := and_eq_true_iff.mp hkey
    apply contains_iff_mem.mpr
    rcases or_eq_true_iff.mp hadopt with hold | hnew
    · exact hs.serial key (hs.owed key hold)
    · obtain ⟨hne, heffective⟩ := and_eq_true_iff.mp hnew
      have harmed := armed_of_effective (and_eq_true_iff.mp heffective).1
      cases key with
      | inventory => exact absurd rfl (of_decide_eq_true hne)
      | update =>
        rw [harmed] at hupdate
        cases hupdate
      | compliance | cdp | patch => decide

theorem startPipelines_spec (s : TaskScheduler) (waits : Bool) : SameListeners s (startPipelines s waits) ∧
      (startPipelines s waits).plan = some (readPipelinePlan s.policyRuntime) ∧
      (startPipelines s waits).reconciled = some s.policyRuntime := by
  obtain ⟨_, _, _, _, heq, _⟩ := launched_eq s
  have honly : OnlyStartup (launched s) (advance (launched s).startupGen waits
      STARTUP_SERIAL_ORDER (launched s)) := onlyStartup_advance
  obtain ⟨_, _, _, _, hadvance⟩ := honly
  unfold startPipelines
  rw [hadvance, heq]
  exact ⟨⟨rfl, rfl, rfl, rfl, rfl⟩, rfl, rfl⟩

theorem Timed.startPipelines (hs : Timed s) (waits : Bool) :
    Timed (startPipelines s waits) ∧ ∀ key, intervals (startPipelines s waits) key =
      planned (readPipelinePlan s.policyRuntime) key := by
  obtain ⟨hlaunched, hintervals⟩ := hs.launched
  refine ⟨hlaunched.of_onlyStartup onlyStartup_advance, fun key => ?_⟩
  exact (onlyStartup_advance.intervals key).trans (hintervals key)

/-- A start that passes over what is owed leaves it to nobody. -/
theorem owed_startPipelines (hskips : ¬ StartsOwed s waits) : ∃ key, (startPipelines s waits).owed key ∧
      (startPipelines s waits).startupPending key = false := by
  apply owed_advance
  exact not_eq_false _ ▸ fun h => hskips (skipsOwed_launched.mp h)

end Start

/-! ## Runs -/

/-- Handlers are attached only while the scheduler runs, and `stop` knows them all. -/
structure Listening (s : TaskScheduler) : Prop where
  ctx : s.ctx = true ↔ s.phase = .running
  fresh : s.phase = .fresh → s.starting = 0
  quiet : s.phase ≠ .running → s.timers.running = [] ∧ s.attached = []
  registered : ∀ listener ∈ s.attached, listener ∈ s.policyListeners

structure Sound (s : TaskScheduler) : Prop where
  timed : Timed s
  startup : Startup s
  listening : Listening s
  follows : s.phase = .running → s.starting = 0 → ∃ p, s.reconciled = some p ∧
    s.plan = some (readPipelinePlan p) ∧ ∀ key, intervals s key = planned (readPipelinePlan p) key

section Runs

variable {s s' : TaskScheduler} {e : Event}

theorem Sound.toFollows (hs : Sound s) : Follows s where
  timers hphase hstarting := by
    obtain ⟨p, hreconciled, _, hintervals⟩ := hs.follows hphase hstarting
    exact ⟨p, hreconciled, hintervals⟩
  quiet hphase := by
    apply hs.listening.quiet
    rw [hphase]
    exact Phase.noConfusion
  run key howed := hs.startup.alive key (hs.startup.owed key howed)

theorem Listening.clearPolicyListeners (hs : Listening s) :
    clearPolicyListeners s = { s with attached := [], policyListeners := [] } := by
  unfold Pipelines.clearPolicyListeners
  cases hctx : s.ctx with
  | false =>
    have hphase : s.phase ≠ .running := fun h => false_ne_true (hctx.symm.trans (hs.ctx.mpr h))
    rw [Bool.not_false, if_pos rfl, ← (hs.quiet hphase).2]
  | true =>
    have hnone : s.attached.filter (fun listener => !s.policyListeners.contains listener) = [] := by
      apply filter_eq_nil_iff.mpr
      intro listener hlistener
      rw [contains_iff_mem.mpr (hs.registered listener hlistener)]
      exact false_ne_true
    rw [Bool.not_true, if_neg Bool.false_ne_true, hnone]

/-- While it runs, a change of what is armed and pending keeps the listeners as they are. -/
theorem Listening.of_sameListeners (hs : Listening s) (h : SameListeners s s')
    (hrunning : s.phase = .running) : Listening s' where
  ctx := by
    rw [h.ctx, h.phase]
    exact hs.ctx
  fresh := by
    rw [h.starting, h.phase]
    exact hs.fresh
  quiet hphase := absurd (h.phase.trans hrunning) hphase
  registered := by
    rw [h.attached, h.policyListeners]
    exact hs.registered

theorem Sound.start (hs : Sound s) : Sound (start s) := by
  unfold Pipelines.start
  rw [hs.listening.clearPolicyListeners]
  exact
    { timed := { hs.timed with }
      startup := { hs.startup with }
      listening :=
        { ctx := iff_of_true rfl rfl
          fresh := Phase.noConfusion
          quiet := fun h => absurd rfl h
          registered := fun listener h => absurd h not_mem_nil }
      follows := fun _ hstarting => absurd hstarting (succ_ne_zero _) }

theorem Sound.startPipelines {waits : Bool} (hs : Sound s) (hrunning : s.phase = .running)
    (hskips : StartsOwed s waits) : Sound (startPipelines s waits) := by
  obtain ⟨hsame, hplan, hreconciled⟩ := startPipelines_spec s waits
  obtain ⟨htimed, hintervals⟩ := hs.timed.startPipelines waits
  exact
    { timed := htimed
      startup := hs.startup.startPipelines hskips
      listening := hs.listening.of_sameListeners hsame hrunning
      follows := fun _ _ => ⟨s.policyRuntime, hreconciled, hplan, hintervals⟩ }

theorem Sound.inventoryDone {waits : Bool} (hs : Sound s)
    (hguard : Permits s (.inventoryDone waits)) : Sound (inventoryDone s waits) := by
  unfold Pipelines.inventoryDone
  split
  · exact hs
  next hstarting =>
    obtain ⟨hstopped, hskips⟩ := hguard (Nat.pos_of_ne_zero hstarting)
    have hrunning : s.phase = .running := by
      cases hphase : s.phase with
      | fresh => exact absurd (hs.listening.fresh hphase) hstarting
      | running => rfl
      | stopped => exact absurd hphase hstopped
    -- the plan is read once more, whatever the timers were before
    have hone : Startup { s with starting := s.starting - 1 } := { hs.startup with }
    have htimed : Timed { s with starting := s.starting - 1 } := { hs.timed with }
    have hlistening : Listening { s with starting := s.starting - 1 } :=
      { hs.listening with fresh := fun h => by rw [hs.listening.fresh h] }
    obtain ⟨hsame, hplan, hreconciled⟩ := startPipelines_spec { s with starting := s.starting - 1 } waits
    obtain ⟨htimed, hintervals⟩ := htimed.startPipelines waits
    have hlistening := hlistening.of_sameListeners hsame hrunning
    exact
      { timed := { htimed with }
        startup := { hone.startPipelines hskips with }
        listening :=
          { ctx := hlistening.ctx
            fresh := hlistening.fresh
            quiet := fun h => absurd (hsame.phase.trans hrunning) h
            registered := by
              intro listener hlistener
              rcases mem_append.mp hlistener with hold | hnew
              · exact mem_append_left _ (hlistening.registered listener hold)
              · exact mem_append_right _ hnew }
        follows := fun _ _ => ⟨s.policyRuntime, hreconciled, hplan, hintervals⟩ }

theorem Sound.stop (hs : Sound s) (hguard : Permits s .stop) : Sound (stop s) := by
  obtain ⟨htimed, hrunning⟩ := hs.timed.stopAll
  have hlistening : Listening (stopAll s) :=
    { hs.listening with quiet := fun h => ⟨hrunning, (hs.listening.quiet h).2⟩ }
  unfold Pipelines.stop
  rw [hlistening.clearPolicyListeners]
  exact
    { timed := { htimed with }
      startup :=
        { serial := fun key hkey => absurd hkey false_ne_true
          alive := fun key hkey => absurd hkey false_ne_true
          bounded := fun seq hseq => le_succ_of_le (hs.startup.bounded seq hseq)
          nodup := hs.startup.nodup
          owed := fun key hkey => absurd ((hguard key).symm.trans hkey) false_ne_true }
      listening :=
        { ctx := iff_of_false false_ne_true Phase.noConfusion
          fresh := Phase.noConfusion
          quiet := fun _ => ⟨hrunning, rfl⟩
          registered := fun listener h => absurd h not_mem_nil }
      follows := Phase.noConfusion }

theorem Sound.reconcilePipelines (hs : Sound s) (hrunning : s.phase = .running) : Sound (reconcilePipelines s) := by
  have hsame := reconcilePipelines_sameListeners (s := s)
  obtain ⟨hplan, hreconciled, _⟩ := reconcilePipelines_plan (s := s)
  obtain ⟨htimed, hintervals⟩ := hs.timed.reconcilePipelines
  refine
    { timed := htimed
      startup := hs.startup.reconcilePipelines
      listening := hs.listening.of_sameListeners hsame hrunning
      follows := fun _ hstarting => ⟨s.policyRuntime, hreconciled, hplan, fun key => ?_⟩ }
  obtain ⟨p, _, hp, hold⟩ := hs.follows hrunning (hsame.starting.symm.trans hstarting)
  rw [hintervals]
  split
  · rfl
  next hrearm =>
    -- what the diff leaves out is armed as before, and that is as the new plan says
    obtain ⟨plan, hprev, hsameplan⟩ := planned_of_not_needsRearm (eq_false_iff.mpr hrearm)
    rw [hp] at hprev
    obtain rfl := Option.some.inj hprev
    rw [hold, hsameplan]

theorem Sound.emit (hs : Sound s) (event : PolicyEvent) : Sound (emit s event) := by
  unfold Pipelines.emit
  have hcalled : ∀ (listeners : List Listener) (s : TaskScheduler), Sound s → s.phase = .running →
      Sound (listeners.foldl (fun s _ => Pipelines.reconcilePipelines s) s) := by
    intro listeners
    induction listeners with
    | nil => exact fun s hs _ => hs
    | cons listener listeners ih =>
      intro s hs hrunning
      exact ih _ (hs.reconcilePipelines hrunning)
        (reconcilePipelines_sameListeners.phase.trans hrunning)
  cases hlisteners : s.attached.filter fun listener => listener.event = event with
  | nil => exact hs
  | cons listener listeners =>
    apply hcalled _ s hs
    by_contra hphase
    rw [(hs.listening.quiet hphase).2] at hlisteners
    cases hlisteners

theorem Sound.fire {timer : Timer PipelineKey Arming} (hs : Sound s)
    (htimer : timer ∈ s.timers.running) : Sound (fire s timer) := by
  have hrunning : s.phase = .running := by
    by_contra hphase
    rw [(hs.listening.quiet hphase).1] at htimer
    cases htimer
  obtain ⟨htimed, hintervals⟩ := hs.timed.fire htimer
  have honly := onlyTimers_fire (s := s) timer
  refine
    { timed := htimed
      startup := hs.startup.of_onlyTimers honly
      listening := hs.listening.of_sameListeners honly.sameListeners hrunning
      follows := fun _ hstarting => ?_ }
  obtain ⟨p, hreconciled, hplan, hold⟩ := hs.follows hrunning (honly.sameListeners.starting.symm.trans hstarting)
  obtain ⟨_, _, _, heq⟩ := honly
  refine ⟨p, ?_, ?_, fun key => (hintervals key).trans (hold key)⟩
  · rw [heq]
    exact hreconciled
  · rw [heq]
    exact hplan

/-- Of two sequences that wait one has another generation. -/
theorem Startup.gen_ne (hs : Startup s) {i j : Nat} {seq seq' : Sequence}
    (hi : s.sequences[i]? = some seq) (hj : s.sequences[j]? = some seq') (hne : j ≠ i) : seq'.gen ≠ seq.gen := by
  intro hgen
  have hi' : (s.sequences.map gen)[i]? = some seq.gen := by
    rw [getElem?_map, hi]
    rfl
  have hj' : (s.sequences.map gen)[j]? = some seq.gen := by
    rw [getElem?_map, hj, ← hgen]
    rfl
  obtain ⟨hlt, _⟩ := List.getElem?_eq_some_iff.mp hj'
  exact hne ((getElem?_inj hlt hs.nodup).mp (hj'.trans hi'.symm))

theorem Startup.resumeSequence {i : Nat} {waits : Bool} (hs : Startup s)
    (hguard : Permits s (.sequenceResumed i waits)) : Startup (resumeSequence s i waits) := by
  unfold Pipelines.resumeSequence
  cases hi : s.sequences[i]? with
  | none => exact hs
  | some seq =>
    dsimp only
    have hmem : ∀ seq' ∈ s.sequences.eraseIdx i, ∃ j, j ≠ i ∧ s.sequences[j]? = some seq' :=
      fun seq' h => mem_eraseIdx_iff_getElem?.mp h
    have hsub : ∀ seq' ∈ s.sequences.eraseIdx i, seq' ∈ s.sequences :=
      fun seq' h => mem_of_mem_eraseIdx h
    have hnodup : ((s.sequences.eraseIdx i).map gen).Nodup := hs.nodup.sublist ((eraseIdx_sublist _ _).map _)
    by_cases hgen : seq.gen = s.startupGen
    · -- the sequence that is alive goes on, and no other one is
      have hrest : ∀ key, s.startupPending key → key ∈ seq.rest := by
        intro key hkey
        obtain ⟨_, seq', hseq', hgen', hahead⟩ := hs.alive key hkey
        have heq : seq' = seq := inj_on_of_nodup_map hs.nodup hseq'
          (mem_of_getElem? hi) (hgen'.trans hgen.symm)
        exact heq ▸ hahead
      have habsent : Absent { s with sequences := s.sequences.eraseIdx i } s.startupGen :=
        { bounded := fun seq' h => hs.bounded seq' (hsub seq' h)
          nodup := hnodup
          absent := by
            intro seq' h
            obtain ⟨j, hne, hj⟩ := hmem seq' h
            exact hgen ▸ hs.gen_ne hi hj hne }
      have hskips := hguard seq hi hgen
      rw [hgen]
      exact Startup.advance habsent hrest hs.serial hs.owed hskips
    · rw [advance_of_dead (s := { s with sequences := s.sequences.eraseIdx i }) hgen]
      refine
        { serial := hs.serial
          alive := fun key hkey => ?_
          bounded := fun seq' h => hs.bounded seq' (hsub seq' h)
          nodup := hnodup
          owed := hs.owed }
      obtain ⟨_, seq', hseq', hgen', hahead⟩ := hs.alive key hkey
      obtain ⟨j, hj⟩ := mem_iff_getElem?.mp hseq'
      refine ⟨hkey, seq', mem_eraseIdx_iff_getElem?.mpr ⟨j, ?_, hj⟩, hgen', hahead⟩
      rintro rfl
      rw [hi] at hj
      obtain rfl := Option.some.inj hj
      exact hgen hgen'

theorem onlyStartup_resumeSequence (s : TaskScheduler) (i : Nat) (waits : Bool) :
    OnlyStartup s (resumeSequence s i waits) := by
  unfold resumeSequence
  split
  · exact .refl s
  · exact OnlyStartup.trans ⟨_, _, _, _, rfl⟩ onlyStartup_advance

theorem Sound.resumeSequence {i : Nat} {waits : Bool} (hs : Sound s)
    (hguard : Permits s (.sequenceResumed i waits)) : Sound (resumeSequence s i waits) := by
  have hstartup := hs.startup.resumeSequence hguard
  obtain ⟨_, _, _, _, heq⟩ := onlyStartup_resumeSequence s i waits
  rw [heq] at hstartup ⊢
  exact
    { timed := { hs.timed with }
      startup := hstartup
      listening := { hs.listening with }
      follows := hs.follows }

theorem Sound.step (hs : Sound s) (hguard : Permits s e) : Sound (step s e) := by
  cases e with
  | start => exact hs.start
  | inventoryDone waits => exact hs.inventoryDone hguard
  | stop => exact hs.stop hguard
  | reload waits =>
    unfold step reload
    cases hctx : s.ctx with
    | false => exact hs
    | true => exact hs.startPipelines (hs.listening.ctx.mp hctx) (hguard hctx)
  | policyApplied policyRuntime =>
    exact
      { timed := { hs.timed with }
        startup := { hs.startup with }
        listening := { hs.listening with }
        follows := hs.follows }
  | emitted event => exact hs.emit event
  | fired i =>
    unfold step
    dsimp only
    split
    · exact hs
    next timer htimer => exact hs.fire (mem_of_getElem? htimer)
  | sequenceResumed i waits => exact hs.resumeSequence hguard

theorem not_follows_of_passed (key : PipelineKey) (howed : s.owed key)
    (hpending : s.startupPending key = false) : ¬ Follows s :=
  fun h => false_ne_true (hpending.symm.trans (h.run key howed).1)

/-- A step that is not permitted breaks what the plan says. -/
theorem not_follows_step (hguard : ¬ Permits s e) : ¬ Follows (step s e) := by
  cases e with
  | start => exact absurd trivial hguard
  | policyApplied policyRuntime => exact absurd trivial hguard
  | emitted event => exact absurd trivial hguard
  | fired i => exact absurd trivial hguard
  | inventoryDone waits =>
    unfold Permits at hguard
    simp only [Classical.not_imp] at hguard
    obtain ⟨hstarting, hguard⟩ := hguard
    unfold step inventoryDone
    dsimp only
    rw [if_neg (ne_of_gt hstarting)]
    by_cases hstopped : s.phase = .stopped
    · -- a start that goes on after a stop attaches its handlers
      intro h
      have hphase := (startPipelines_spec { s with starting := s.starting - 1 } waits).1.phase
      have hquiet := (h.quiet (hphase.trans hstopped)).2
      exact absurd (append_eq_nil_iff.mp hquiet).2 (cons_ne_nil _ _)
    · have hskips : ¬ StartsOwed { s with starting := s.starting - 1 } waits :=
        fun h => hguard ⟨hstopped, h⟩
      obtain ⟨key, howed, hpending⟩ := owed_startPipelines hskips
      exact not_follows_of_passed key howed hpending
  | stop =>
    unfold Permits at hguard
    simp only [not_forall, not_eq_false] at hguard
    obtain ⟨key, howed⟩ := hguard
    unfold step stop clearPolicyListeners
    dsimp only
    split
    · exact not_follows_of_passed key howed rfl
    · exact not_follows_of_passed key howed rfl
  | reload waits =>
    unfold Permits at hguard
    simp only [Classical.not_imp] at hguard
    obtain ⟨hctx, hskips⟩ := hguard
    unfold step reload
    dsimp only
    rw [hctx, Bool.not_true, if_neg Bool.false_ne_true]
    obtain ⟨key, howed, hpending⟩ := owed_startPipelines hskips
    exact not_follows_of_passed key howed hpending
  | sequenceResumed i waits =>
    unfold Permits at hguard
    simp only [not_forall, not_eq_false] at hguard
    obtain ⟨seq, hi, hgen, hskips⟩ := hguard
    unfold step resumeSequence
    dsimp only
    rw [hi]
    obtain ⟨key, howed, hpending⟩ := owed_advance (s := { s with sequences := s.sequences.eraseIdx i }) hskips
    dsimp only at howed hpending ⊢
    rw [hgen]
    exact not_follows_of_passed key howed hpending

/-- The timers follow the plan, and what becomes effective is run, in exactly the runs in which no
start goes on after a stop and nothing goes off or is stopped before its turn. -/
theorem always_follows_iff (policyRuntime : PolicyRuntime) (tr : List Event) :
    (machine policyRuntime).Always Follows tr ↔ (machine policyRuntime).Guarded Permits tr := by
  refine Machine.always_iff_guarded ?_ (fun s e hs he => Sound.step hs he)
    (fun s hs => Sound.toFollows hs) (fun s e _ he => not_follows_step (s := s) he) tr
  exact
    { timed := ⟨.empty, fun key hkey => absurd rfl hkey⟩
      startup :=
        { serial := fun key hkey => absurd hkey false_ne_true
          alive := fun key hkey => absurd hkey false_ne_true
          bounded := fun seq hseq => absurd hseq not_mem_nil
          nodup := .nil
          owed := fun key hkey => absurd hkey false_ne_true }
      listening :=
        { ctx := iff_of_false false_ne_true Phase.noConfusion
          fresh := fun _ => rfl
          quiet := fun _ => ⟨rfl, rfl⟩
          registered := fun listener h => absurd h not_mem_nil }
      follows := Phase.noConfusion }

end Runs

def samplePolicy : PolicyRuntime where
  enabledPlugins := [text "amp"]
  modules := [(text "inventory", true)]
  selfUpdate := false
  interval := fun _ => 21600

/-- The scheduler is stopped while it waits for the first inventory, and arms its timer after that. -/
theorem not_always_follows_stopped : ¬ ∀ (policyRuntime : PolicyRuntime) (tr : List Event),
      (machine policyRuntime).Always Follows tr := by
  intro hall
  have hfollows := (hall samplePolicy [.start, .stop, .inventoryDone false]).last
  have hstopped : ((machine samplePolicy).run [.start, .stop, .inventoryDone false]).phase =
      .stopped := by
    decide
  have harmed : ((machine samplePolicy).run [.start, .stop, .inventoryDone false]).timers.running.length
      = 1 := by
    decide
  rw [(hfollows.quiet hstopped).1] at harmed
  cases harmed

end Scheduler.Pipelines
