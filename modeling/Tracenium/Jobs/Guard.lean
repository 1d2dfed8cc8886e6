-- SUMMARY: Executions of jobs across stream generations, and when one starts while another still runs.
import Tracenium.Jobs.Snapshot
import Tracenium.Lib.Locks

/-!
The `runJob` branch of `startGrpcStream` in `src/transport/grpc-stream.ts`. Every call of
`startGrpcStream` is a generation of the stream with a `runningJobIds` of its own. A stream that
fails or ends is stopped, which takes its listeners away, and the next one is opened by the timer
of `scheduleReconnect`. What a stopped stream has scheduled still runs.
-/

open Utf16

namespace Jobs.Guard

open Slots Guard

/-- `scheduled` waits for its `setImmediate`; `settled` is answered, and its id is not free yet. -/
inductive Phase
  | scheduled
  | running
  | settled
  | done
  deriving DecidableEq

structure Execution where
  jobId : Str
  generation : Nat
  phase : Phase
  deriving DecidableEq

/-- `runningJobIds` has the sets of all generations, and `listening` tells whether the stream of the
last one still has its listeners. -/
structure Agent where
  generation : Nat
  listening : Bool
  runningJobIds : List (Nat × Str)
  executions : List Execution
  acks : List (Str × Ack)

/-- `disconnect` is any end of the stream: an error, its end, or the server's request. `finished`
is the end of `executeRunJob`, with the acknowledgement made of its result or of its error, and
`freed` is the `finally` after the acknowledgement. -/
inductive Event
  | connect
  | disconnect
  | runJob (jobId : Str)
  | started (k : Nat)
  | finished (k : Nat) (ack : Ack)
  | freed (k : Nat)

/-- The `runJob` branch of `stream.on("data")`. -/
def Agent.runJob (s : Agent) (jobId : Str) : Agent :=
  if jobId ≠ [] ∧ (s.generation, jobId) ∈ s.runningJobIds then
    { s with acks := s.acks ++ [(jobId, ⟨1, text "job_retry: already in progress"⟩)] }
  else
    { s with
      runningJobIds := if jobId ≠ [] then (s.generation, jobId) :: s.runningJobIds
        else s.runningJobIds
      executions := s.executions ++ [⟨jobId, s.generation, .scheduled⟩] }

def Agent.advance (s : Agent) (k : Nat) (e : Execution) (phase : Phase) : Agent :=
  { s with executions := s.executions.set k { e with phase := phase } }

def Agent.free (s : Agent) (e : Execution) : Agent :=
  { s with runningJobIds := s.runningJobIds.filter fun r => r ≠ (e.generation, e.jobId) }

def step (s : Agent) : Event → Agent
  | .connect => if s.listening then s else
      { s with generation := s.generation + 1, listening := true }
  | .disconnect => { s with listening := false }
  | .runJob jobId => if s.listening then s.runJob jobId else s
  | .started k =>
    match s.executions[k]? with
    | some e => if e.phase = .scheduled then s.advance k e .running else s
    | none => s
  | .finished k ack =>
    match s.executions[k]? with
    | some e =>
      if e.phase = .running then
        { s.advance k e .settled with acks := s.acks ++ [(e.jobId, ack)] }
      else s
    | none => s
  | .freed k =>
    match s.executions[k]? with
    | some e => if e.phase = .settled then (s.advance k e .done).free e else s
    | none => s

def machine : Machine Agent Event where
  init := ⟨0, false, [], [], []⟩
  step := step

/-! ## One execution at a time -/

/-- Of the executions of one job, at most one runs. -/
def Exclusive (s : Agent) : Prop :=
  ∀ (k k' : Nat) (e e' : Execution), s.executions[k]? = some e → s.executions[k']? = some e' →
    e.phase = .running → e'.phase = .running → e.jobId ≠ [] → e.jobId = e'.jobId → k = k'

/-- An execution does not start while one of an earlier stream runs under its id. -/
def Alone (s : Agent) : Event → Prop
  | .started k =>
    ∀ e : Execution, s.executions[k]? = some e → e.phase = .scheduled → e.jobId ≠ [] →
      ∀ (k' : Nat) (e' : Execution), s.executions[k']? = some e' → e'.phase = .running → e'.jobId = e.jobId →
        e'.generation = e.generation
  | _ => True

/-- The guard works within a generation: an execution holds the id of its job until it is done. -/
structure Held (s : Agent) : Prop where
  holds : ∀ (k : Nat) (e : Execution), s.executions[k]? = some e → e.jobId ≠ [] →
    e.phase ≠ .done → (e.generation, e.jobId) ∈ s.runningJobIds
  single : ∀ (k k' : Nat) (e e' : Execution), s.executions[k]? = some e →
    s.executions[k']? = some e' → e.phase ≠ .done → e'.phase ≠ .done → e.jobId ≠ [] →
    e.jobId = e'.jobId → e.generation = e'.generation → k = k'

/-- An execution that goes on keeps its id. -/
theorem Held.advance {s : Agent} (h : Held s) {k : Nat} {e : Execution} (phase : Phase)
    (hk : s.executions[k]? = some e) (he : e.phase ≠ .done) : Held (s.advance k e phase) where
  holds := by
    intro j e' hj hid hdone
    rcases of_getElem?_set hj with ⟨-, rfl⟩ | ⟨-, hold⟩
    · exact h.holds k e hk hid he
    · exact h.holds j e' hold hid hdone
  single := by
    intro j j' e₁ e₂ hj hj' hdone hdone' hid hsame hgen
    rcases of_getElem?_set hj with ⟨rfl, rfl⟩ | ⟨-, hold⟩ <;>
      rcases of_getElem?_set hj' with ⟨rfl, rfl⟩ | ⟨-, hold'⟩
    · rfl
    · exact h.single _ _ _ _ hk hold' he hdone' hid hsame hgen
    · exact h.single _ _ _ _ hold hk hdone he hid hsame hgen
    · exact h.single _ _ _ _ hold hold' hdone hdone' hid hsame hgen

/-- The id of an execution that is done is free. -/
theorem Held.free {s : Agent} (h : Held s) {k : Nat} {e : Execution}
    (hk : s.executions[k]? = some e) (he : e.phase = .settled) :
    Held ((s.advance k e .done).free e) where
  holds := by
    intro j e' hj hid hdone
    rcases of_getElem?_set hj with ⟨rfl, rfl⟩ | ⟨hne, hold⟩
    · exact absurd rfl hdone
    · refine List.mem_filter.mpr ⟨h.holds j e' hold hid hdone, decide_eq_true ?_⟩
      intro heq
      obtain ⟨hgen, hsame⟩ := Prod.mk.inj heq
      have hset : e.phase ≠ .done := by rw [he]; exact Phase.noConfusion
      exact hne (h.single j k e' e hold hk hdone hset hid hsame hgen)
  single := (h.advance .done hk (by rw [he]; exact Phase.noConfusion)).single

theorem Held.runJob {s : Agent} (h : Held s) (jobId : Str) : Held (s.runJob jobId) := by
  rw [Agent.runJob]
  split
  · exact ⟨h.holds, h.single⟩
  · rename_i hfree
    have hnew : ∀ (k : Nat) (e : Execution), s.executions[k]? = some e → e.phase ≠ .done →
        e.jobId ≠ [] → e.jobId = jobId → e.generation ≠ s.generation := by
      rintro k e hk hdone hid rfl hgen
      exact hfree ⟨hid, hgen ▸ h.holds k e hk hid hdone⟩
    constructor
    · intro k e hk hid hdone
      rcases of_getElem?_concat hk with hk | ⟨-, rfl⟩
      · dsimp only
        split
        · exact List.mem_cons_of_mem _ (h.holds k e hk hid hdone)
        · exact h.holds k e hk hid hdone
      · dsimp only
        rw [if_pos hid]
        exact List.mem_cons_self
    · intro k k' e e' hk hk' hdone hdone' hid hsame hgen
      rcases of_getElem?_concat hk with hk | ⟨rfl, rfl⟩ <;>
        rcases of_getElem?_concat hk' with hk' | ⟨rfl, rfl⟩
      · exact h.single k k' e e' hk hk' hdone hdone' hid hsame hgen
      · exact absurd hgen (hnew k e hk hdone hid hsame)
      · exact absurd hgen.symm (hnew k' e' hk' hdone' (hsame ▸ hid) hsame.symm)
      · rfl

theorem Held.step {s : Agent} (h : Held s) (e : Event) : Held (step s e) := by
  cases e with
  | connect =>
    rw [Guard.step]
    split
    · exact h
    · exact ⟨h.holds, h.single⟩
  | disconnect => exact ⟨h.holds, h.single⟩
  | runJob jobId =>
    rw [Guard.step]
    split
    · exact h.runJob jobId
    · exact h
  | started k =>
    rw [Guard.step]
    split
    · split
      · rename_i e hk hphase
        exact h.advance .running hk (by rw [hphase]; exact Phase.noConfusion)
      · exact h
    · exact h
  | finished k ack =>
    rw [Guard.step]
    split
    · split
      · rename_i e hk hphase
        have hadvance := h.advance .settled hk (by rw [hphase]; exact Phase.noConfusion)
        exact ⟨hadvance.holds, hadvance.single⟩
      · exact h
    · exact h
  | freed k =>
    rw [Guard.step]
    split
    · split
      · rename_i e hk hphase
        exact h.free hk hphase
      · exact h
    · exact h

/-- Steps other than the start of an execution let no more executions run. -/
theorem Exclusive.of_running {s s' : Agent} (h : Exclusive s)
    (hrunning : ∀ (k : Nat) (e : Execution), s'.executions[k]? = some e → e.phase = .running →
      s.executions[k]? = some e) : Exclusive s' :=
  fun k k' e e' hk hk' hrun hrun' =>
    h k k' e e' (hrunning k e hk hrun) (hrunning k' e' hk' hrun') hrun hrun'

theorem Exclusive.advance {s : Agent} (h : Exclusive s) {k : Nat} {e : Execution} {phase : Phase}
    (hphase : phase ≠ .running) : Exclusive (s.advance k e phase) := by
  apply h.of_running
  intro j e' hj hrun
  rcases of_getElem?_set hj with ⟨-, rfl⟩ | ⟨-, hold⟩
  · exact absurd hrun hphase
  · exact hold

theorem Exclusive.step {s : Agent} (h : Exclusive s) {e : Event} (hheld : Held s)
    (halone : Alone s e) : Exclusive (step s e) := by
  cases e with
  | connect =>
    rw [Guard.step]
    split <;> exact h
  | disconnect => exact h
  | runJob jobId =>
    rw [Guard.step]
    split
    · rw [Agent.runJob]
      split
      · exact h
      · apply h.of_running
        intro k e hk hrun
        rcases of_getElem?_concat hk with hk | ⟨-, rfl⟩
        · exact hk
        · cases hrun
    · exact h
  | started k =>
    rw [Guard.step]
    split
    · split
      · rename_i e hk hphase
        have hdone : e.phase ≠ .done := by rw [hphase]; exact Phase.noConfusion
        have hrunning : ∀ (j : Nat) (e' : Execution), s.executions[j]? = some e' →
            e'.phase = .running → e.jobId ≠ [] → e'.jobId = e.jobId → j = k := by
          intro j e' hj hrun hid hsame
          have hgen := halone e hk hphase hid j e' hj hrun hsame
          have hdone' : e'.phase ≠ .done := by rw [hrun]; exact Phase.noConfusion
          exact hheld.single j k e' e hj hk hdone' hdone (hsame ▸ hid) hsame hgen
        intro j j' e₁ e₂ hj hj' hrun hrun' hid hsame
        rcases of_getElem?_set hj with ⟨rfl, rfl⟩ | ⟨-, hold⟩ <;>
          rcases of_getElem?_set hj' with ⟨rfl, rfl⟩ | ⟨-, hold'⟩
        · rfl
        · exact (hrunning j' e₂ hold' hrun' hid hsame.symm).symm
        · exact hrunning j e₁ hold hrun (hsame ▸ hid) hsame
        · exact h j j' e₁ e₂ hold hold' hrun hrun' hid hsame
      · exact h
    · exact h
  | finished k ack =>
    rw [Guard.step]
    split
    · split
      · exact h.advance Phase.noConfusion
      · exact h
    · exact h
  | freed k =>
    rw [Guard.step]
    split
    · split
      · exact h.advance Phase.noConfusion
      · exact h
    · exact h

/-- An execution that starts while another runs under its id is a second one. -/
theorem not_exclusive_of_not_alone {s : Agent} {e : Event} (h : ¬ Alone s e) : ¬ Exclusive (step s e) := by
  cases e with
  | started k =>
    intro hexclusive
    apply h
    intro e hk hphase hid k' e' hk' hrun hsame
    by_contra hgen
    have hne : k' ≠ k := by
      rintro rfl
      cases hk.symm.trans hk'
      exact hgen rfl
    have hstep : step s (.started k) = s.advance k e .running := by
      simp only [step, hk, if_pos hphase]
    rw [hstep] at hexclusive
    have hself : (s.advance k e .running).executions[k]? = some { e with phase := .running } := getElem?_set_self hk
    have hother : (s.advance k e .running).executions[k']? = some e' := getElem?_set_of_ne hne hk'
    exact hne (hexclusive k k' _ e' hself hother rfl hrun hid hsame.symm).symm
  | connect => exact absurd trivial h
  | disconnect => exact absurd trivial h
  | runJob jobId => exact absurd trivial h
  | finished k ack => exact absurd trivial h
  | freed k => exact absurd trivial h

/-- Along a run, no job is executed twice at a time exactly when no execution starts while one that
an earlier stream started runs under the same id. -/
theorem always_exclusive_iff (tr : List Event) : machine.Always Exclusive tr ↔ machine.Guarded Alone tr := by
  apply Machine.always_iff_guarded (I := fun s => Held s ∧ Exclusive s)
  · constructor
    · constructor
      · intro k e hk
        cases hk
      · intro k k' e e' hk
        cases hk
    · intro k k' e e' hk
      cases hk
  · intro s e ⟨hheld, hexclusive⟩ halone
    exact ⟨hheld.step e, hexclusive.step hheld halone⟩
  · exact fun _ h => h.2
  · exact fun _ _ _ h => not_exclusive_of_not_alone h

/-- A job runs, the stream fails and is opened again, and the job is delivered again. -/
def redelivered : List Event :=
  [.connect, .runJob (text "j"), .started 0, .disconnect, .connect, .runJob (text "j"), .started 1]

/-- The second execution starts while the first one still runs. -/
theorem not_always_exclusive_redelivered : (machine.run redelivered).executions =
        [⟨text "j", 1, .running⟩, ⟨text "j", 2, .running⟩] ∧ ¬ machine.Always Exclusive redelivered := by
  refine ⟨rfl, fun halways => ?_⟩
  have hsame := halways.last 0 1 ⟨text "j", 1, .running⟩ ⟨text "j", 2, .running⟩ rfl rfl rfl rfl
    (List.cons_ne_nil _ _) rfl
  cases hsame

end Jobs.Guard
