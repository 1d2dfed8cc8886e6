-- SUMMARY: What the record of patch installs says about the history of the agent, and what a task writes and sends.
import Tracenium.Pmp.Exclusion

open Utf16 Function

namespace Pmp

open Jobs (Ack)

inductive Progress
  | none
  | running (jobId : Str)
  /-- A boot found it in progress, and no job was told yet. -/
  | cut (jobId : Str)
  deriving DecidableEq

def progress : List Entry → Progress
  | [] => .none
  | .started _ jobId :: _ => .running jobId
  | .settled _ _ :: _ => .none
  | .reported _ _ :: _ => .none
  | .booted true :: history =>
    match progress history with
    | .running jobId => .cut jobId
    | p => p
  | _ :: history => progress history

/-- The job that the agent remembers as successful, and its message. -/
def lastSuccess : List Entry → Option (Str × Str)
  | [] => none
  | .remembered _ jobId message :: _ => some (jobId, message)
  | _ :: history => lastSuccess history

/-- The message of the last success of the job. -/
def rememberedOf (jobId : Str) : List Entry → Option Str
  | [] => none
  | .remembered _ id message :: history =>
    if id = jobId then some message else rememberedOf jobId history
  | _ :: history => rememberedOf jobId history

theorem rememberedOf_of_lastSuccess {jobId message : Str} {history : List Entry}
    (h : lastSuccess history = some (jobId, message)) : rememberedOf jobId history = some message := by
  induction history with
  | nil => simp [lastSuccess] at h
  | cons e history ih => cases e <;> simp_all [lastSuccess, rememberedOf]

/-- The record of the last install. -/
def Shows (r : PmpRemediationState) : Progress → Prop
  | .none => r.status ≠ some .inProgress ∧ (r.jobId = Option.none ∨ r.lastError ≠ some AGENT_RESTARTED_ERROR)
  | .running jobId => r.status = some .inProgress ∧ r.jobId = some jobId ∧ r.lastError = Option.none
  | .cut jobId => r.status = some .failed ∧ r.jobId = some jobId ∧ r.lastError = some AGENT_RESTARTED_ERROR

structure Mirrors (r : PmpRemediationState) (history : List Entry) : Prop where
  success : r.successAck = lastSuccess history
  shows : Shows r (progress history)

/-! ## Texts -/

/-- The error does not speak as the agent does when it was interrupted. -/
def Thrown.Plain (e : Thrown) : Prop :=
  e.text ≠ AGENT_RESTARTED_ERROR ∧ e.message ≠ INTERRUPTED_BY_RESTART_MESSAGE

def Write.Plain : Write → Prop
  | .works => True
  | .throws e => e.Plain

def InstallReply.Plain : InstallReply → Prop
  | .threw e => e.Plain
  | .refused message => message ≠ some AGENT_RESTARTED_ERROR
  | .done _ => True

def ArmedPlain : Except Thrown Bool → Prop
  | .error e => e.Plain
  | .ok _ => True

/-- No error of the task speaks as the agent does. -/
def Task.Plain : Task → Prop
  | .install _ _ _ w => w.Plain
  | .reply _ answer w last => answer.Plain ∧ w.Plain ∧ last.Plain
  | .facts _ w last => w.Plain ∧ last.Plain
  | .armed _ answer w last => ArmedPlain answer ∧ w.Plain ∧ last.Plain
  | _ => True

def interruptedAck : Ack := ⟨2, INTERRUPTED_BY_RESTART_MESSAGE⟩

/-- Neither a success nor the interruption. -/
def Ordinary (a : Ack) : Prop := a.status ≠ 0 ∧ a ≠ interruptedAck

theorem Thrown.Plain.ordinary {e : Thrown} (h : e.Plain) : Ordinary e.ack := by
  refine ⟨by simp [Thrown.ack], fun heq => ?_⟩
  simp only [Thrown.ack, interruptedAck, Ack.mk.injEq, true_and] at heq
  split at heq
  · revert heq
    decide
  · exact h.2 heq

/-- Texts that begin differently are different. -/
theorem ne_of_take {start rest other : Str} (h : start ≠ other.take start.length) : start ++ rest ≠ other := by
  rintro rfl
  simp at h

theorem ordinary_of_ne {status : Nat} {message : Str} (hstatus : status ≠ 0)
    (h : message ≠ INTERRUPTED_BY_RESTART_MESSAGE) : Ordinary ⟨status, message⟩ :=
  ⟨hstatus, fun heq => h (congrArg Ack.message heq)⟩

/-! ## What a write does to the record -/

/-- What a run writes when it is over. -/
structure Outcome (p : Patch) : Prop where
  status : ∃ status, p.status = .given (some status) ∧ status ≠ .inProgress
  error : ∃ error, p.lastError = .given error ∧ error ≠ some AGENT_RESTARTED_ERROR
  job : p.jobId = .absent
  success : p.successAck = .absent

theorem outcome_idlePatch : Outcome idlePatch := ⟨⟨.idle, rfl, by decide⟩, ⟨none, rfl, by simp⟩, rfl, rfl⟩

theorem outcome_failedWith {error : Str} (h : error ≠ AGENT_RESTARTED_ERROR) : Outcome (failedWith error) :=
  ⟨⟨.failed, rfl, by decide⟩, ⟨some error, rfl, by simpa using h⟩, rfl, rfl⟩

theorem outcome_finished (resultStatus : Str) : Outcome (finished resultStatus) := by
  refine ⟨⟨_, rfl, ?_⟩, ⟨_, rfl, ?_⟩, rfl, rfl⟩
  · split_ifs <;> simp
  · split
    · simp
    · simpa using ne_of_take (by decide)

theorem updatePmpState_ok {w : Write} {r next : PmpRemediationState} {p : Patch}
    (h : updatePmpState w r p = .ok next) : next = merge r p := by
  cases w <;> simp_all [updatePmpState, savePmpState]

theorem updatePmpState_error {w : Write} {r : PmpRemediationState} {p : Patch} {e : Thrown}
    (h : updatePmpState w r p = .error e) : w = .throws e := by
  cases w <;> simp_all [updatePmpState, savePmpState]

/-! ## What a task writes and sends -/

def Phase.jobId : Phase → Option Str
  | .baseline job => some job.jobId
  | .installing job => some job.jobId
  | .facts job _ => some job.jobId
  | .unblocking job _ => some job.jobId
  | .rebooting job _ _ => some job.jobId
  | _ => none

theorem Phase.lock_of_jobId {p : Phase} {jobId : Str} (h : p.jobId = some jobId) : p.lock = some .install := by
  cases p <;> simp_all [Phase.jobId, Phase.lock]

/-- No job begins to run, `began` apart. -/
def Runs (s s' : State) (began : Option Str) : Prop :=
  ∀ k jobId, (s'.phases k).jobId = some jobId → (s.phases k).jobId = some jobId ∨ began = some jobId

/-- What a task does to the record and the history, and what it sends. Only a job with `New` starts. -/
inductive Effect (New : Str → Prop) (s : State) (o : Segment) : Prop
  | quiet (hrecord : o.state.record = s.record) (hhistory : o.state.history = s.history)
      (hsent : o.sent = none) (hruns : Runs s o.state none)
  | call (n : Nat) (jobId : Str) (hrecord : o.state.record = s.record)
      (hhistory : o.state.history = s.history) (hsent : o.sent = some (.called n jobId))
      (hruns : Runs s o.state none)
  | answer (n : Nat) (jobId : Str) (ack : Ack) (hack : Ordinary ack)
      (hrecord : o.state.record = s.record) (hhistory : o.state.history = s.history)
      (hsent : o.sent = some (.answered n jobId ack)) (hruns : Runs s o.state none)
  | replay (n : Nat) (jobId message : Str) (hfree : s.locked = false)
      (hsuccess : s.record.successAck = some (jobId, message))
      (hrecord : o.state.record = s.record) (hhistory : o.state.history = s.history)
      (hsent : o.sent = some (.answered n jobId ⟨0, message⟩)) (hruns : Runs s o.state none)
  | report (n : Nat) (jobId : Str) (hjob : s.record.jobId = some jobId)
      (herror : s.record.lastError = some AGENT_RESTARTED_ERROR)
      (hrecord : o.state.record = merge s.record { Patch.none with jobId := .given none })
      (hhistory : o.state.history = .reported n jobId :: s.history)
      (hsent : o.sent = some (.answered n jobId interruptedAck)) (hruns : Runs s o.state none)
  | start (n : Nat) (jobId : Str) (hnew : New jobId)
      (hrecord : o.state.record = merge s.record (inProgressFor jobId))
      (hhistory : o.state.history = .started n jobId :: s.history)
      (hsent : o.sent = none ∨ o.sent = some (.called n jobId))
      (hruns : Runs s o.state (some jobId))
  | settle (n : Nat) (jobId : Str) (p : Patch) (hp : Outcome p)
      (hrecord : o.state.record = merge s.record p)
      (hhistory : o.state.history = .settled n jobId :: s.history)
      (hsent : o.sent = none ∨ ∃ ack, Ordinary ack ∧ o.sent = some (.answered n jobId ack))
      (hruns : Runs s o.state none)
  | remember (n : Nat) (jobId message : Str) (hjob : (s.phases n).jobId = some jobId)
      (hrecord : o.state.record = merge s.record { Patch.none with successAck := .given (some (jobId, message)) })
      (hhistory : o.state.history = .remembered n jobId message :: s.history)
      (hsent : o.sent = some (.answered n jobId ⟨0, message⟩))
      (hruns : Runs s o.state none) (hover : (o.state.phases n).jobId = none)

section Effects

variable {New : Str → Prop} {s s' : State} {n : Nat} {p : Phase}

theorem Runs.of_phases {began : Option Str}
    (hp : ∀ jobId, p.jobId = some jobId → (s.phases n).jobId = some jobId ∨ began = some jobId)
    (hphases : s'.phases = update s.phases n p) : Runs s s' began := by
  intro k jobId hk
  rw [hphases] at hk
  by_cases hkn : k = n
  · subst hkn
    exact hp jobId (by simpa using hk)
  · simp only [update_of_ne hkn] at hk
    exact .inl hk

/-- An operation that does not install goes on. -/
theorem Runs.idle (hp : p.jobId = none) (hphases : s'.phases = update s.phases n p) : Runs s s' none :=
  .of_phases (fun _ h => by simp [hp] at h) hphases

/-- The run of a job goes on. -/
theorem Runs.same {jobId : Str} (hjob : (s.phases n).jobId = some jobId)
    (hphases : s'.phases = update s.phases n p) (hp : p.jobId = some jobId) : Runs s s' none :=
  .of_phases (fun id h => .inl (by rw [hjob, ← h, hp])) hphases

/-- A job begins to run. -/
theorem Runs.began {jobId : Str} (hp : p.jobId = some jobId)
    (hphases : s'.phases = update s.phases n p) : Runs s s' (some jobId) :=
  .of_phases (fun _ h => .inr (hp.symm.trans h)) hphases

theorem Runs.refl (s : State) : Runs s s none := fun _ _ hk => .inl hk

variable {job : PatchInstall}

theorem effect_caught {e : Thrown} {w : Write} (he : e.Plain) (hw : w.Plain) : Effect New s (caught s n job e w) := by
  unfold caught
  split
  · rename_i next hwrite
    exact .settle n job.jobId _ (outcome_failedWith he.1) (updatePmpState_ok hwrite) rfl
      (.inr ⟨_, he.ordinary, rfl⟩) (.idle rfl rfl)
  · rename_i e' hwrite
    rw [updatePmpState_error hwrite] at hw
    exact .answer n job.jobId _ (Thrown.Plain.ordinary hw) rfl rfl rfl (.idle rfl rfl)

variable {w last : Write}

/-- The run goes on after its write, or the write throws. -/
theorem effect_settle {patch : Patch} {next : State → Segment} (hw : w.Plain) (hlast : last.Plain)
    (hnext : ∀ t : State, t.phases = s.phases → t.record = merge s.record patch →
      t.history = .settled n job.jobId :: s.history → Effect New s (next t)) :
    Effect New s (settle s n job patch w last next) := by
  unfold settle
  split
  · rename_i record hwrite
    exact hnext _ rfl (updatePmpState_ok hwrite) rfl
  · rename_i e hwrite
    rw [updatePmpState_error hwrite] at hw
    exact effect_caught hw hlast

theorem effect_concluded {patch : Patch} {ack : Ack} {t : State} (hp : Outcome patch)
    (hack : Ordinary ack) (hphases : t.phases = s.phases) (hrecord : t.record = merge s.record patch)
    (hhistory : t.history = .settled n job.jobId :: s.history) : Effect New s (t.conclude n job ack) :=
  .settle n job.jobId patch hp hrecord hhistory (.inr ⟨ack, hack, rfl⟩)
    (.idle rfl (by rw [← hphases]; rfl))

theorem effect_onReply {reply : InstallReply}
    (hjob : (s.phases n).jobId = some job.jobId) (hreply : reply.Plain) (hw : w.Plain)
    (hlast : last.Plain) : Effect New s (onReply s n job reply w last) := by
  unfold onReply
  split
  · exact effect_caught hreply hlast
  · rename_i message
    have herror : errorMessage message ≠ AGENT_RESTARTED_ERROR := by
      unfold errorMessage
      split
      · exact fun heq => hreply (congrArg some heq)
      · decide
    have hp := outcome_failedWith herror
    exact effect_settle hw hlast fun t hphases hrecord hhistory =>
      effect_concluded hp (ordinary_of_ne (by decide) (ne_of_take (by decide))) hphases hrecord hhistory
  · split
    · exact effect_settle hw hlast fun t hphases hrecord hhistory =>
        effect_concluded outcome_idlePatch (ordinary_of_ne (by decide) (ne_of_take (by decide)))
          hphases hrecord hhistory
    · rename_i r _
      have hp := outcome_finished (r.resultStatus job)
      exact effect_settle hw hlast fun t hphases hrecord hhistory =>
        .settle n job.jobId _ hp hrecord hhistory (.inl rfl)
          (.same hjob (by rw [← hphases]; rfl) rfl)

variable {h : Host} {r : InstallResult}

/-- A failure names its counts, which the interruption has not. -/
theorem ordinary_failedMessage {lower : Str → Str} {suffix : Str} {refused : Bool} :
    Ordinary ⟨2, failedMessage lower job r suffix refused⟩ := by
  refine ordinary_of_ne (by decide) fun heq => ?_
  have hmem : (0x3D : UInt16) ∈ failedMessage lower job r suffix refused := by
    have hcounts : (0x3D : UInt16) ∈ counts r := by
      unfold counts
      simp only [List.mem_append]
      exact .inl (.inl (.inl (.inl (.inl (by decide)))))
    unfold failedMessage
    simp only [List.mem_append, hcounts, true_or, or_true]
  rw [heq] at hmem
  revert hmem
  decide

theorem effect_acknowledge {suffix : Str} {refused : Bool}
    (hjob : (s.phases n).jobId = some job.jobId) (hw : w.Plain) (hlast : last.Plain) :
    Effect New s (acknowledge h s n job r suffix refused w last) := by
  unfold acknowledge
  split
  · dsimp only
    split
    · rename_i next hwrite
      refine .remember n job.jobId _ hjob (updatePmpState_ok hwrite) rfl rfl (.idle rfl rfl) ?_
      simp [State.conclude, State.goto, Phase.jobId]
    · rename_i e hwrite
      rw [updatePmpState_error hwrite] at hw
      exact effect_caught hw hlast
  · exact .answer n job.jobId _ ordinary_failedMessage rfl rfl rfl (.idle rfl rfl)

theorem effect_onPlan {refused : Bool}
    (hjob : (s.phases n).jobId = some job.jobId) (hw : w.Plain) (hlast : last.Plain) :
    Effect New s (onPlan h s n job r refused w last) := by
  unfold onPlan
  dsimp only
  split
  · exact .quiet rfl rfl rfl (.same hjob rfl rfl)
  · exact effect_acknowledge hjob hw hlast

theorem effect_onFacts (hjob : (s.phases n).jobId = some job.jobId) (hw : w.Plain) (hlast : last.Plain) :
    Effect New s (onFacts h s n job r w last) := by
  unfold onFacts
  split
  · exact .quiet rfl rfl rfl (.same hjob rfl rfl)
  · exact effect_onPlan hjob hw hlast

theorem effect_onUnblocked {armed : Except Thrown Bool}
    (hjob : (s.phases n).jobId = some job.jobId) (harmed : ArmedPlain armed) (hw : w.Plain)
    (hlast : last.Plain) : Effect New s (onUnblocked h s n job r armed w last) := by
  unfold onUnblocked
  split
  · exact effect_caught harmed hlast
  · exact effect_settle hw hlast fun t hphases hrecord hhistory =>
      effect_concluded outcome_idlePatch (ordinary_of_ne (by decide) (ne_of_take (by decide)))
        hphases hrecord hhistory
  · exact effect_onPlan hjob hw hlast

theorem effect_onRebooted {refused : Bool} {armed : Except Thrown Bool}
    (hjob : (s.phases n).jobId = some job.jobId) (harmed : ArmedPlain armed)
    (hw : w.Plain) (hlast : last.Plain) : Effect New s (onRebooted h s n job r refused armed w last) := by
  unfold onRebooted
  split
  · exact effect_caught harmed hlast
  · exact effect_acknowledge hjob hw hlast

/-! ## Deliveries -/

theorem ordinary_refusal {o : Order} {g : Guards} {ack : Ack} (h : refusal s o g = some ack) : Ordinary ack := by
  unfold refusal at h
  split_ifs at h <;> cases h <;> exact ordinary_of_ne (by decide) (by decide)

theorem ordinary_validate {o : Order} {message : Str} (hinvalid : validate h o = .error message) :
    Ordinary ⟨2, message⟩ := by
  refine ordinary_of_ne (by decide) ?_
  unfold validate at hinvalid
  split_ifs at hinvalid
  · cases hinvalid
    decide
  · cases hinvalid
    decide
  · dsimp only at hinvalid
    split_ifs at hinvalid
    cases hinvalid
    simp only [List.append_assoc]
    exact ne_of_take (by decide)

theorem jobId_of_validate {o : Order} (hvalid : validate h o = .ok job) : job.jobId = o.jobId := by
  unfold validate at hvalid
  split_ifs at hvalid
  dsimp only at hvalid
  split_ifs at hvalid
  cases hvalid
  rfl

/-- What the record answers is what it says. -/
theorem replay_cases (w : Write) (r : PmpRemediationState) (jobId : Str) :
    (∃ message, r.successAck = some (jobId, message) ∧ replayForRedispatch w r jobId = .success message) ∨
    ((∀ message, r.successAck ≠ some (jobId, message)) ∧
      replayForRedispatch w r jobId = replayForRedispatch.again w r jobId) := by
  unfold replayForRedispatch
  split
  · rename_i id message hsuccess
    by_cases hid : id = jobId
    · subst hid
      exact .inl ⟨message, hsuccess, by simp⟩
    · refine .inr ⟨fun m heq => hid ?_, by simp [hid]⟩
      rw [hsuccess] at heq
      exact congrArg Prod.fst (Option.some.inj heq)
  · rename_i hnone
    exact .inr ⟨by simp [hnone], rfl⟩

theorem effect_start {w : Write} (hw : w.Plain) (hnew : New job.jobId) : Effect New s (start s n job w) := by
  unfold start
  dsimp only
  split
  · rename_i e hwrite
    rw [updatePmpState_error hwrite] at hw
    exact .answer n job.jobId _ (Thrown.Plain.ordinary hw) rfl rfl rfl (.idle rfl rfl)
  · rename_i next hwrite
    split
    · exact .start n job.jobId hnew (updatePmpState_ok hwrite) rfl (.inr rfl)
        (.began rfl rfl)
    · exact .start n job.jobId hnew (updatePmpState_ok hwrite) rfl (.inl rfl)
        (.began rfl rfl)

theorem effect_onInstall {o : Order} {g : Guards} {w : Write} (hw : w.Plain)
    (hstarts : refusal s o g = none → (∀ message, s.record.successAck ≠ some (o.jobId, message)) →
      New o.jobId) : Effect New s (onInstall h s n o g w) := by
  unfold onInstall
  split
  · rename_i ack hrefusal
    exact .answer n o.jobId ack (ordinary_refusal hrefusal) rfl rfl rfl (.idle rfl rfl)
  · rename_i hrefusal
    rcases replay_cases w s.record o.jobId with ⟨message, hsuccess, hreplay⟩ | ⟨hnew, hreplay⟩
    · rw [hreplay]
      exact .replay n o.jobId message (locked_of_refusal hrefusal) hsuccess rfl rfl rfl (.idle rfl rfl)
    · rw [hreplay]
      unfold replayForRedispatch.again
      split_ifs with hcut
      · cases hwrite : updatePmpState w s.record { Patch.none with jobId := .given none } with
        | ok next =>
          exact .report n o.jobId hcut.1 hcut.2 (updatePmpState_ok hwrite) rfl rfl (.idle rfl rfl)
        | error e =>
          rw [updatePmpState_error hwrite] at hw
          exact .answer n o.jobId _ (Thrown.Plain.ordinary hw) rfl rfl rfl (.idle rfl rfl)
      · dsimp only
        split
        · rename_i message hinvalid
          exact .answer n o.jobId _ (ordinary_validate hinvalid) rfl rfl rfl (.idle rfl rfl)
        · rename_i job hvalid
          exact effect_start hw (by rw [jobId_of_validate hvalid]; exact hstarts hrefusal hnew)

/-- The remediations and the enforcer leave the record alone. -/
theorem effect_idle {t : State} (hrecord : t.record = s.record) (hhistory : t.history = s.history)
    (hphases : ∃ p : Phase, p.jobId = none ∧ t.phases = update s.phases n p) : Effect New s (quiet t) := by
  obtain ⟨p, hp, hphases⟩ := hphases
  exact .quiet hrecord hhistory rfl (.idle hp hphases)

theorem effect_runOne {f : Fix} {pluginEnabled : Bool} : Effect New s (quiet (runOne h s n f pluginEnabled)) := by
  unfold runOne
  split
  · exact effect_idle rfl rfl ⟨_, rfl, rfl⟩
  · split <;> exact effect_idle rfl rfl ⟨_, rfl, rfl⟩

theorem effect_runRemediationBatch {items : List Fix} : Effect New s (quiet (runRemediationBatch s n items)) := by
  unfold runRemediationBatch
  split
  · exact effect_idle rfl rfl ⟨_, rfl, rfl⟩
  · split <;> exact effect_idle rfl rfl ⟨_, rfl, rfl⟩

theorem effect_nextItem {items : List Fix} {pluginEnabled : Bool} :
    Effect New s (quiet (nextItem h s n items pluginEnabled)) := by
  unfold nextItem
  split
  · exact effect_idle rfl rfl ⟨_, rfl, rfl⟩
  · split <;> exact effect_idle rfl rfl ⟨_, rfl, rfl⟩

theorem effect_endFix {rest : Option (List Fix)} : Effect New s (quiet (endFix s n rest)) := by
  unfold endFix
  split <;> exact effect_idle rfl rfl ⟨_, rfl, rfl⟩

theorem effect_onRead {f : Fix} {rest : Option (List Fix)} {reply : ReadReply} :
    Effect New s (quiet (onRead s n f rest reply)) := by
  unfold onRead
  split
  · exact effect_idle rfl rfl ⟨_, rfl, rfl⟩
  · exact effect_idle rfl rfl ⟨_, rfl, rfl⟩
  · exact effect_endFix

theorem effect_onApplied {rest : Option (List Fix)} {reply : ApplyReply} :
    Effect New s (quiet (onApplied s n rest reply)) := by
  unfold onApplied
  split
  · exact effect_idle rfl rfl ⟨_, rfl, rfl⟩
  · exact effect_endFix

theorem effect_nextEntry {entries : Nat} {resolved : Resolved} :
    Effect New s (quiet (nextEntry s n entries resolved)) := by
  unfold nextEntry
  split <;> exact effect_idle rfl rfl ⟨_, rfl, rfl⟩

theorem effect_onPassRead {mode : Resolved} {entries : Nat} {reply : ReadReply} :
    Effect New s (quiet (onPassRead s n mode entries reply)) := by
  unfold onPassRead
  split
  · exact effect_idle rfl rfl ⟨_, rfl, rfl⟩
  · exact effect_idle rfl rfl ⟨_, rfl, rfl⟩
  · split <;> exact effect_idle rfl rfl ⟨_, rfl, rfl⟩

theorem effect_onPassApplied {entries : Nat} {reply : ApplyReply} :
    Effect New s (quiet (onPassApplied s n entries reply)) := by
  unfold onPassApplied
  split <;> exact effect_idle rfl rfl ⟨_, rfl, rfl⟩

/-! ## Tasks -/

theorem effect_segment {t : Task} (ht : t.Plain)
    (hstarts : ∀ n o g w, t = .install n o g w → s.phases n = .absent → refusal s o g = none →
      (∀ message, s.record.successAck ≠ some (o.jobId, message)) → New o.jobId) : Effect New s (segment h s t) := by
  have hjob : ∀ {p : Phase} {jobId : Option Str}, s.phases t.id = p → p.jobId = jobId →
      (s.phases t.id).jobId = jobId := by
    intro p jobId hp hid
    rw [hp, hid]
  unfold segment onPhase
  split <;> rename_i hphase
  · exact effect_onInstall ht (hstarts _ _ _ _ rfl hphase)
  · split
    · exact effect_idle rfl rfl ⟨_, rfl, rfl⟩
    · exact effect_runOne
  · split
    · exact effect_idle rfl rfl ⟨_, rfl, rfl⟩
    · exact effect_runRemediationBatch
  · exact effect_idle rfl rfl ⟨_, rfl, rfl⟩
  · exact .call _ _ rfl rfl rfl (.same (hjob hphase rfl) rfl rfl)
  · exact effect_runOne
  · exact effect_runRemediationBatch
  · exact effect_onReply (hjob hphase rfl) ht.1 ht.2.1 ht.2.2
  · exact effect_onFacts (hjob hphase rfl) ht.1 ht.2
  · exact effect_onUnblocked (hjob hphase rfl) ht.1 ht.2.1 ht.2.2
  · exact effect_onRebooted (hjob hphase rfl) ht.1 ht.2.1 ht.2.2
  · exact effect_nextItem
  · exact effect_onRead
  · exact effect_onApplied
  · exact effect_onApplied
  · exact effect_endFix
  · exact effect_nextEntry
  · exact effect_onPassRead
  · exact effect_onPassApplied
  · exact .quiet rfl rfl rfl (.refl s)

end Effects

end Pmp
