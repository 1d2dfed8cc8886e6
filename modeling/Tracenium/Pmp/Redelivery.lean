-- SUMMARY: When a patch install that is delivered again is answered from the record: successes that are repeated and installs that a crash cut.
import Tracenium.Pmp.History

open Utf16

namespace Pmp

open State

open Jobs (Ack)

/-- A run of the job was acknowledged as successful. -/
def Acked (history : List Entry) (jobId message : Str) : Prop :=
  ∃ n, .answered n jobId ⟨0, message⟩ ∈ history

/-- The current process called `patch.install` for the job, and has not answered it yet. -/
def Unanswered : List Entry → Nat → Str → Prop
  | [], _, _ => False
  | .called n jobId :: history, m, id => (n = m ∧ jobId = id) ∨ Unanswered history m id
  | .answered n jobId _ :: history, m, id => ¬ (n = m ∧ jobId = id) ∧ Unanswered history m id
  | .booted _ :: _, _, _ => False
  | _ :: history, m, id => Unanswered history m id

/-- A crash cut an install of the job, which was not answered since. -/
def Cut : List Entry → Str → Prop
  | [], _ => False
  | .booted _ :: history, id => (∃ n, Unanswered history n id) ∨ Cut history id
  | .answered _ jobId _ :: history, id => jobId ≠ id ∧ Cut history id
  | _ :: history, id => Cut history id

/-- The job is answered at once, and does not run. -/
def Ends (o : Segment) (n : Nat) (jobId : Str) (ack : Ack) : Prop :=
  o.sent = some (.answered n jobId ack) ∧ o.state.phases n = .over

/-- A job that was successful is answered so again, and one that was cut with its success or with the
interruption. -/
structure Answers (h : Host) (s : State) (t : Task) (n : Nat) (jobId : Str) : Prop where
  success : ∀ message, Acked s.history jobId message → Ends (segment h s t) n jobId ⟨0, message⟩
  cut : Cut s.history jobId → (∃ message, rememberedOf jobId s.history = some message ∧
      Ends (segment h s t) n jobId ⟨0, message⟩) ∨ Ends (segment h s t) n jobId interruptedAck

/-- Every delivery is answered as it should be. -/
def Redelivers (h : Host) (s : State) : Event → Prop
  | .task (.install n o g w) => s.phases n = .absent → Answers h s (.install n o g w) n o.jobId
  | _ => True

/-- The agent crashed since it answered an interruption. -/
def Fresh : List Entry → Prop
  | [] => False
  | .booted _ :: _ => True
  | .answered _ _ ack :: history => ack ≠ interruptedAck ∧ Fresh history
  | _ :: history => Fresh history

/-- Interruptions are answered once a crash. -/
def OncePerCrash : List Entry → Prop
  | [] => True
  | .answered _ _ ack :: history => (ack = interruptedAck → Fresh history) ∧ OncePerCrash history
  | _ :: history => OncePerCrash history

/-! ## When the record still knows -/

/-- The delivery gets past the guards, and the record still has what it asks for: no other job was
remembered since it was successful, or nothing was written of an install since a boot found it cut. -/
structure Kept (s : State) (o : Order) (g : Guards) (w : Write) : Prop where
  success : (∃ message, Acked s.history o.jobId message) →
    refusal s o g = none ∧ ∃ message, lastSuccess s.history = some (o.jobId, message)
  cut : Cut s.history o.jobId → refusal s o g = none ∧ ((∃ message, lastSuccess s.history = some (o.jobId, message)) ∨
      progress s.history = .cut o.jobId ∧ w = .works)

/-- A job comes again while the record still knows it, and no error speaks as the agent does. -/
def Known (s : State) : Event → Prop
  | .task (.install n o g w) => w.Plain ∧ (s.phases n = .absent → Kept s o g w)
  | .task t => t.Plain
  | .crash (some t) _ => t.Plain
  | .crash none _ => True

variable {s : State}

theorem Known.plain {t : Task} (h : Known s (.task t)) : t.Plain := by
  cases t <;> first | exact h.1 | exact h

/-! ## The record mirrors the history -/

variable {history : List Entry} {r : PmpRemediationState}

theorem Mirrors.of_sent {e : Entry}
    (hm : Mirrors r history) (hsuccess : lastSuccess (e :: history) = lastSuccess history)
    (hprogress : progress (e :: history) = progress history) : Mirrors r (e :: history) :=
  ⟨hsuccess ▸ hm.success, hprogress ▸ hm.shows⟩

theorem Mirrors.start (hm : Mirrors r history)
    (n : Nat) (jobId : Str) : Mirrors (merge r (inProgressFor jobId)) (.started n jobId :: history) :=
  ⟨hm.success, rfl, rfl, rfl⟩

theorem Mirrors.settle (hm : Mirrors r history) {p : Patch} (hp : Outcome p) (n : Nat) (jobId : Str) :
    Mirrors (merge r p) (.settled n jobId :: history) := by
  obtain ⟨⟨status, hstatus, hne⟩, ⟨error, herror, hplain⟩, hjob, hsuccess⟩ := hp
  refine ⟨?_, ?_, .inr ?_⟩
  · simpa [merge, hsuccess, Key.orElse, lastSuccess] using hm.success
  · simp only [merge]
    split <;> simp_all [Key.orElse]
  · simp [merge, herror, Key.orElse, hplain]

theorem Mirrors.remember (hm : Mirrors r history) (n : Nat) (jobId message : Str) :
    Mirrors (merge r { Patch.none with successAck := .given (some (jobId, message)) })
      (.remembered n jobId message :: history) :=
  ⟨rfl, hm.shows⟩

variable {jobId : Str}

/-- An interruption is answered for the job that was cut. -/
theorem Mirrors.cut_of_report (hm : Mirrors r history)
    (hjob : r.jobId = some jobId) (herror : r.lastError = some AGENT_RESTARTED_ERROR) :
    progress history = .cut jobId := by
  have hshows := hm.shows
  cases hprogress : progress history with
  | none => simp_all [Shows]
  | running id => simp_all [Shows]
  | cut id =>
    rw [hprogress] at hshows
    rw [Option.some.inj (hjob.symm.trans hshows.2.1)]

theorem Mirrors.report (hm : Mirrors r history) (hcut : progress history = .cut jobId) (n : Nat) :
    Mirrors (merge r { Patch.none with jobId := .given none }) (.reported n jobId :: history) := by
  have hshows := hm.shows
  rw [hcut] at hshows
  refine ⟨hm.success, ?_, .inl rfl⟩
  simp [merge, Patch.none, Key.orElse, hshows.1]

theorem merge_restarted (r : PmpRemediationState) : merge r restarted =
    { r with status := some .failed, lastError := some AGENT_RESTARTED_ERROR } := rfl

theorem Mirrors.boot (hm : Mirrors r history)
    (w : Write) : Mirrors (reconcileStalePmpState w r) (.booted (w = .works) :: history) := by
  have hshows := hm.shows
  cases w with
  | throws e =>
    refine ⟨?_, ?_⟩ <;> simpa [reconcileStalePmpState, updatePmpState, savePmpState]
      using by first | exact hm.success | exact hshows
  | works =>
    refine ⟨?_, ?_⟩
    · simp only [reconcileStalePmpState]
      split <;> simpa [updatePmpState, savePmpState, merge_restarted, lastSuccess] using hm.success
    · cases hprogress : progress history <;>
        simp_all [Shows, progress, reconcileStalePmpState, updatePmpState, savePmpState, merge_restarted]

variable {o : Segment} {New : Str → Prop}

theorem mirrors_effect (heffect : Effect New s o)
    (hm : Mirrors s.record s.history) : Mirrors o.state.record o.state.history := by
  cases heffect with
  | quiet hrecord hhistory | call _ _ hrecord hhistory | answer _ _ _ _ hrecord hhistory
  | replay _ _ _ _ _ hrecord hhistory =>
    rw [hrecord, hhistory]
    exact hm
  | report n jobId hjob herror hrecord hhistory =>
    rw [hrecord, hhistory]
    exact hm.report (hm.cut_of_report hjob herror) n
  | start n jobId _ hrecord hhistory =>
    rw [hrecord, hhistory]
    exact hm.start n jobId
  | settle n jobId p hp hrecord hhistory =>
    rw [hrecord, hhistory]
    exact hm.settle hp n jobId
  | remember n jobId message _ hrecord hhistory =>
    rw [hrecord, hhistory]
    exact hm.remember n jobId message

/-- A task sends a call or an answer, if anything. -/
theorem sent_cases (heffect : Effect New s o) : o.sent = none ∨ (∃ n jobId, o.sent = some (.called n jobId)) ∨
      ∃ n jobId ack, o.sent = some (.answered n jobId ack) := by
  cases heffect with
  | quiet _ _ hsent => exact .inl hsent
  | call n jobId _ _ hsent => exact .inr (.inl ⟨n, jobId, hsent⟩)
  | answer n jobId ack _ _ _ hsent => exact .inr (.inr ⟨n, jobId, ack, hsent⟩)
  | replay n jobId message _ _ _ _ hsent => exact .inr (.inr ⟨n, jobId, _, hsent⟩)
  | report n jobId _ _ _ _ hsent => exact .inr (.inr ⟨n, jobId, _, hsent⟩)
  | start n jobId _ _ _ hsent => exact hsent.imp_right fun hcalled => .inl ⟨n, jobId, hcalled⟩
  | settle n jobId _ _ _ _ hsent =>
    exact hsent.imp_right fun ⟨ack, _, hanswered⟩ => .inr ⟨n, jobId, ack, hanswered⟩
  | remember n jobId message _ _ _ hsent => exact .inr (.inr ⟨n, jobId, _, hsent⟩)

theorem mirrors_send (heffect : Effect New s o)
    (hm : Mirrors s.record s.history) : Mirrors (send o).record (send o).history := by
  have hstate := mirrors_effect heffect hm
  rcases sent_cases heffect with hsent | ⟨n, jobId, hsent⟩ | ⟨n, jobId, ack, hsent⟩
  · simpa [send, hsent] using hstate
  · simpa [send, hsent, log] using hstate.of_sent rfl rfl
  · simpa [send, hsent, log] using hstate.of_sent rfl rfl

/-! ## Interruptions -/

/-- An interruption that can be answered comes after a crash. -/
structure Told (history : List Entry) : Prop where
  fresh : ∀ {jobId}, progress history = .cut jobId → Fresh history
  once : OncePerCrash history

theorem Told.answered (ht : Told history) {ack : Ack}
    (hack : ack ≠ interruptedAck) (n : Nat) (jobId : Str) :
    Told (.answered n jobId ack :: history) where
  fresh hcut := ⟨hack, ht.fresh hcut⟩
  once := ⟨fun heq => absurd heq hack, ht.once⟩

theorem Told.booted (ht : Told history) (written : Bool) :
    Told (.booted written :: history) where
  fresh _ := trivial
  once := ht.once

theorem told_state (heffect : Effect New s o) (ht : Told s.history) : Told o.state.history := by
  cases heffect with
  | quiet hrecord hhistory | call _ _ hrecord hhistory | answer _ _ _ _ hrecord hhistory
  | replay _ _ _ _ _ hrecord hhistory =>
    rw [hhistory]
    exact ht
  | report _ _ _ _ _ hhistory | start _ _ _ _ hhistory | settle _ _ _ _ _ hhistory =>
    rw [hhistory]
    exact ⟨fun hcut => by simp [progress] at hcut, ht.once⟩
  | remember n jobId message _ hrecord hhistory =>
    rw [hhistory]
    exact ⟨ht.fresh, ht.once⟩

theorem told_send (heffect : Effect New s o)
    (hm : Mirrors s.record s.history) (ht : Told s.history) : Told (send o).history := by
  have hstate := told_state heffect ht
  have hquiet : o.sent = none → Told (send o).history := by
    intro hsent
    simpa [send, hsent] using hstate
  have hcalled : ∀ n jobId, o.sent = some (.called n jobId) → Told (send o).history := by
    intro n jobId hsent
    simp only [send, hsent]
    exact ⟨hstate.fresh, hstate.once⟩
  have hanswered : ∀ n jobId ack, ack ≠ interruptedAck → o.sent = some (.answered n jobId ack) →
      Told (send o).history := by
    intro n jobId ack hack hsent
    simp only [send, hsent]
    exact hstate.answered hack n jobId
  cases heffect with
  | quiet _ _ hsent => exact hquiet hsent
  | call n jobId _ _ hsent => exact hcalled n jobId hsent
  | answer n jobId ack hack _ _ hsent => exact hanswered n jobId ack hack.2 hsent
  | replay n jobId message _ _ _ _ hsent => exact hanswered n jobId _ (by simp [interruptedAck]) hsent
  | report n jobId hjob herror _ hhistory hsent =>
    -- the crash that cut the install comes after the last interruption
    have hfresh := ht.fresh (hm.cut_of_report hjob herror)
    simp only [send, hsent, log, hhistory]
    exact ⟨fun hcut => by simp [progress] at hcut, fun _ => hfresh, ht.once⟩
  | start n jobId _ _ _ hsent => exact hsent.elim hquiet (hcalled n jobId)
  | settle n jobId _ _ _ _ hsent =>
    obtain hsent | ⟨ack, hack, hsent⟩ := hsent
    · exact hquiet hsent
    · exact hanswered n jobId ack hack.2 hsent
  | remember n jobId message _ _ _ hsent => exact hanswered n jobId _ (by simp [interruptedAck]) hsent

/-! ## Successes -/

/-- A job that was acknowledged is remembered with its message, and does not run again. -/
structure Remembers (s : State) : Prop where
  message : ∀ {jobId message}, Acked s.history jobId message → rememberedOf jobId s.history = some message
  ended : ∀ {jobId message n}, Acked s.history jobId message → (s.phases n).jobId ≠ some jobId

variable {jobId message : Str}

theorem acked_cons {e : Entry} (h : Acked (e :: history) jobId message) :
    (∃ n, e = .answered n jobId ⟨0, message⟩) ∨ Acked history jobId message := by
  obtain ⟨n, hn⟩ := h
  rcases List.mem_cons.mp hn with heq | hmem
  · exact .inl ⟨n, heq.symm⟩
  · exact .inr ⟨n, hmem⟩

theorem acked_of_cons {e : Entry}
    (he : ∀ n, e ≠ .answered n jobId ⟨0, message⟩) (h : Acked (e :: history) jobId message) :
    Acked history jobId message :=
  (acked_cons h).resolve_left fun ⟨n, heq⟩ => he n heq

/-- A task that acknowledges no success. -/
theorem Remembers.keep {s s' : State} (hr : Remembers s) {began : Option Str}
    (hruns : Runs s s' began) (hbegan : ∀ jobId message, began = some jobId → ¬ Acked s.history jobId message)
    (hacked : ∀ jobId message, Acked s'.history jobId message → Acked s.history jobId message)
    (hremembered : ∀ jobId, rememberedOf jobId s'.history = rememberedOf jobId s.history) :
    Remembers s' where
  message {jobId message} h := (hremembered jobId).trans (hr.message (hacked _ _ h))
  ended {jobId message n} h hrun := by
    have hold := hacked _ _ h
    rcases hruns n jobId hrun with hrun' | heq
    · exact hr.ended hold hrun'
    · exact hbegan jobId message heq hold

/-- What a task writes leaves the earlier successes alone. -/
theorem message_state (heffect : Effect New s o) (hr : Remembers s) (h : Acked o.state.history jobId message) :
    rememberedOf jobId o.state.history = some message := by
  cases heffect with
  | quiet hrecord hhistory | call _ _ hrecord hhistory | answer _ _ _ _ hrecord hhistory
  | replay _ _ _ _ _ hrecord hhistory =>
    rw [hhistory] at h ⊢
    exact hr.message h
  | report _ _ _ _ _ hhistory | start _ _ _ _ hhistory | settle _ _ _ _ _ hhistory =>
    rw [hhistory] at h ⊢
    exact hr.message (acked_of_cons (by simp) h)
  | remember n id _ hjob hrecord hhistory =>
    rw [hhistory] at h ⊢
    have hold := acked_of_cons (by simp) h
    -- the job that is remembered now was still running
    have hne : id ≠ jobId := by
      rintro rfl
      exact hr.ended hold hjob
    simpa [rememberedOf, hne] using hr.message hold

@[simp] theorem phases_send (o : Segment) : (send o).phases = o.state.phases := by
  unfold send
  split <;> rfl

theorem history_send {e : Entry} (hsent : o.sent = some e) : (send o).history = e :: o.state.history := by
  simp [send, hsent, log]

/-- What is sent is no success. -/
def Silent (sent : Option Entry) : Prop :=
  sent = none ∨ (∃ n jobId, sent = some (.called n jobId)) ∨
    ∃ n jobId ack, ack.status ≠ 0 ∧ sent = some (.answered n jobId ack)

theorem Silent.acked (h : Silent o.sent)
    (hacked : Acked (send o).history jobId message) : Acked o.state.history jobId message := by
  rcases h with hsent | ⟨n, id, hsent⟩ | ⟨n, id, ack, hack, hsent⟩
  · simpa [send, hsent] using hacked
  · rw [history_send hsent] at hacked
    exact acked_of_cons (by simp) hacked
  · rw [history_send hsent] at hacked
    refine acked_of_cons (fun m heq => hack ?_) hacked
    cases heq
    rfl

theorem Silent.rememberedOf (h : Silent o.sent) (jobId : Str) :
    rememberedOf jobId (send o).history = Pmp.rememberedOf jobId o.state.history := by
  rcases h with hsent | ⟨n, id, hsent⟩ | ⟨n, id, ack, -, hsent⟩ <;> simp [send, hsent] <;> rfl

/-- A task that remembers and acknowledges no success. -/
theorem Remembers.silent {began : Option Str} (hr : Remembers s) (hruns : Runs s o.state began)
    (hbegan : ∀ jobId message, began = some jobId → ¬ Acked s.history jobId message) (hsent : Silent o.sent)
    (hacked : ∀ jobId message, Acked o.state.history jobId message → Acked s.history jobId message)
    (hremembered : ∀ jobId, rememberedOf jobId o.state.history = rememberedOf jobId s.history) :
    Remembers (send o) := by
  have hruns' : Runs s (send o) began := by simpa [Runs] using hruns
  refine hr.keep hruns' hbegan (fun _ _ h => hacked _ _ (hsent.acked h)) fun jobId => ?_
  rw [hsent.rememberedOf, hremembered]

/-- A task that acknowledges a success for a job that is over. -/
theorem Remembers.succeed {n : Nat} (hr : Remembers s)
    (hruns : Runs s o.state none) (hsent : o.sent = some (.answered n jobId ⟨0, message⟩))
    (hstate : ∀ {id message}, Acked o.state.history id message → rememberedOf id o.state.history = some message)
    (hacked : ∀ id message, Acked o.state.history id message → Acked s.history id message)
    (hremembered : rememberedOf jobId o.state.history = some message)
    (hover : ∀ k, (o.state.phases k).jobId ≠ some jobId) : Remembers (send o) where
  message {id m} h := by
    rw [history_send hsent] at h ⊢
    rcases acked_cons h with ⟨k, heq⟩ | hold
    · cases heq
      exact hremembered
    · exact hstate hold
  ended {id m k} h hrun := by
    rw [history_send hsent] at h
    rw [phases_send] at hrun
    rcases acked_cons h with ⟨j, heq⟩ | hold
    · cases heq
      exact hover k hrun
    · exact hr.ended (hacked _ _ hold) ((hruns k id hrun).resolve_right (by simp))

theorem remembers_send (heffect : Effect New s o) (hs : Sound s) (hm : Mirrors s.record s.history) (hr : Remembers s)
    (hnew : ∀ jobId message, New jobId → ¬ Acked s.history jobId message) : Remembers (send o) := by
  have hstate : ∀ {id message}, Acked o.state.history id message →
      rememberedOf id o.state.history = some message := message_state heffect hr
  cases heffect with
  | quiet _ hhistory hsent hruns =>
    exact hr.silent hruns (by simp) (.inl hsent) (by simp [hhistory]) (by simp [hhistory])
  | call n jobId _ hhistory hsent hruns =>
    exact hr.silent hruns (by simp) (.inr (.inl ⟨n, jobId, hsent⟩)) (by simp [hhistory])
      (by simp [hhistory])
  | answer n jobId ack hack _ hhistory hsent hruns =>
    exact hr.silent hruns (by simp) (.inr (.inr ⟨n, jobId, ack, hack.1, hsent⟩)) (by simp [hhistory])
      (by simp [hhistory])
  | report n jobId _ _ _ hhistory hsent hruns =>
    refine hr.silent hruns (by simp) (.inr (.inr ⟨n, jobId, _, by simp [interruptedAck], hsent⟩)) ?_ ?_
    · exact fun id message h => acked_of_cons (by simp) (hhistory ▸ h)
    · simp [hhistory, rememberedOf]
  | start n jobId hstarts _ hhistory hsent hruns =>
    have hsilent : Silent o.sent := hsent.imp_right fun hcalled => .inl ⟨n, jobId, hcalled⟩
    refine hr.silent hruns ?_ hsilent ?_ ?_
    · exact fun id message heq => hnew id message (Option.some.inj heq ▸ hstarts)
    · exact fun id message h => acked_of_cons (by simp) (hhistory ▸ h)
    · simp [hhistory, rememberedOf]
  | settle n jobId p hp _ hhistory hsent hruns =>
    have hsilent : Silent o.sent := by
      refine hsent.imp_right fun hanswer => ?_
      obtain ⟨ack, hack, hanswered⟩ := hanswer
      exact .inr ⟨n, jobId, ack, hack.1, hanswered⟩
    refine hr.silent hruns (by simp) hsilent ?_ ?_
    · exact fun id message h => acked_of_cons (by simp) (hhistory ▸ h)
    · simp [hhistory, rememberedOf]
  | replay n jobId message hfree hsuccess _ hhistory hsent hruns =>
    refine hr.succeed hruns hsent hstate (by simp [hhistory]) ?_ fun k hrun => ?_
    · rw [hhistory]
      exact rememberedOf_of_lastSuccess (hm.success ▸ hsuccess)
    · -- no install runs when a job gets past the guards
      have hheld := Phase.lock_of_jobId ((hruns k jobId hrun).resolve_right (by simp))
      have hnone := hs.none_of_free (free_of_locked hfree) k
      simp [holds, hheld] at hnone
  | remember n jobId message hjob _ hhistory hsent hruns hover =>
    refine hr.succeed hruns hsent hstate ?_ (by simp [hhistory, rememberedOf]) fun k hrun => ?_
    · exact fun id message h => acked_of_cons (by simp) (hhistory ▸ h)
    · have hrun' := (hruns k jobId hrun).resolve_right (by simp)
      have hkn : k = n := hs.alone (Phase.lock_of_jobId hrun') (Phase.lock_of_jobId hjob)
      rw [hkn, hover] at hrun
      cases hrun

theorem Phase.jobId_gone (p : Phase) : p.gone.jobId = none := by
  cases p <;> rfl

theorem remembers_boot {left : State} (w : Write)
    (hstate : ∀ {id message}, Acked left.history id message →
      rememberedOf id left.history = some message) : Remembers (boot left w) where
  message h := hstate (acked_of_cons (by simp) h)
  ended _ hrun := by simp [boot, Phase.jobId_gone] at hrun

/-! ## Runs -/

structure Invariant (s : State) : Prop where
  sound : Sound s
  mirrors : Mirrors s.record s.history
  told : Told s.history
  remembers : Remembers s

theorem invariant_init (h : Host) : Invariant (machine h).init where
  sound := (exact_init h).toSound
  mirrors := ⟨rfl, by simp [Shows, progress, machine, PmpRemediationState.empty]⟩
  told := ⟨fun hcut => by simp [progress, machine] at hcut, trivial⟩
  remembers := ⟨fun ⟨n, hn⟩ => by simp [machine] at hn, fun ⟨n, hn⟩ => by simp [machine] at hn⟩

section Steps

variable {h : Host} {s : State}

theorem Invariant.boot {left : State} (w : Write) (hsound : Sound (Pmp.boot left w))
    (hm : Mirrors left.record left.history) (ht : Told left.history)
    (hstate : ∀ {id message}, Acked left.history id message →
      rememberedOf id left.history = some message) : Invariant (Pmp.boot left w) :=
  ⟨hsound, hm.boot w, ht.booted _, remembers_boot w hstate⟩

/-- A job that was acknowledged does not start again. -/
theorem not_acked_of_new (hs : Invariant s) {o : Order} {g : Guards} {w : Write} (hkept : Kept s o g w)
    (hnew : ∀ message, s.record.successAck ≠ some (o.jobId, message)) (message : Str) :
    ¬ Acked s.history o.jobId message := by
  intro hacked
  obtain ⟨-, m, hm⟩ := hkept.success ⟨message, hacked⟩
  exact hnew m (hs.mirrors.success.trans hm)

theorem Invariant.step (hs : Invariant s) (e : Event) (hknown : Known s e) : Invariant (step h s e) := by
  have hsound : Sound (Pmp.step h s e) := hs.sound.step e
  cases e with
  | task t =>
    have heffect : Effect (fun jobId => ∀ message, ¬ Acked s.history jobId message) s (segment h s t) := by
      refine effect_segment hknown.plain ?_
      rintro n o g w rfl habsent - hnew
      exact not_acked_of_new hs (hknown.2 habsent) hnew
    exact ⟨hsound, mirrors_send heffect hs.mirrors, told_send heffect hs.mirrors hs.told,
      remembers_send heffect hs.sound hs.mirrors hs.remembers fun jobId message hnew => hnew message⟩
  | crash during w =>
    cases during with
    | none => exact .boot w hsound hs.mirrors hs.told hs.remembers.message
    | some t =>
      have heffect : Effect (fun _ => True) s (segment h s t) := effect_segment hknown fun _ _ _ _ _ _ _ _ => trivial
      exact .boot w hsound (mirrors_effect heffect hs.mirrors) (told_state heffect hs.told)
        (message_state heffect hs.remembers)

/-- The record answers a job that it knows as successful. -/
theorem ends_of_success {n : Nat} {o : Order} {g : Guards} {w : Write} (habsent : s.phases n = .absent)
    (hrefusal : refusal s o g = none) {message : Str} (hsuccess : s.record.successAck = some (o.jobId, message)) :
    Ends (segment h s (.install n o g w)) n o.jobId ⟨0, message⟩ := by
  simp [Ends, segment, Task.id, onPhase, habsent, onInstall, hrefusal, replayForRedispatch, hsuccess, refuse, goto]

/-- The record answers a job whose install was cut. -/
theorem ends_of_cut {n : Nat} {o : Order} {g : Guards} (habsent : s.phases n = .absent)
    (hrefusal : refusal s o g = none) (hnew : ∀ message, s.record.successAck ≠ some (o.jobId, message))
    (hjob : s.record.jobId = some o.jobId) (herror : s.record.lastError = some AGENT_RESTARTED_ERROR) :
    Ends (segment h s (.install n o g .works)) n o.jobId interruptedAck := by
  have hreplay : replayForRedispatch .works s.record o.jobId =
      .interrupted (merge s.record { Patch.none with jobId := .given none }) := by
    rcases replay_cases .works s.record o.jobId with ⟨message, hsuccess, -⟩ | ⟨-, hagain⟩
    · exact absurd hsuccess (hnew message)
    · simp [hagain, replayForRedispatch.again, hjob, herror, updatePmpState, savePmpState]
  simp [Ends, segment, Task.id, onPhase, habsent, onInstall, hrefusal, hreplay, interruptedAck, refuse, goto]

theorem redelivers_of_known (hs : Invariant s) (e : Event) (hknown : Known s e) : Redelivers h s e := by
  cases e with
  | crash during w => trivial
  | task t =>
    cases t with
    | install n o g w =>
      intro habsent
      have hkept := hknown.2 habsent
      have hends : ∀ {message}, lastSuccess s.history = some (o.jobId, message) →
          refusal s o g = none → Ends (segment h s (.install n o g w)) n o.jobId ⟨0, message⟩ :=
        fun hlast hrefusal => ends_of_success habsent hrefusal (hs.mirrors.success.trans hlast)
      refine ⟨fun message hacked => ?_, fun hcut => ?_⟩
      · obtain ⟨hrefusal, m, hlast⟩ := hkept.success ⟨message, hacked⟩
        have hm : m = message :=
          Option.some.inj ((rememberedOf_of_lastSuccess hlast).symm.trans (hs.remembers.message hacked))
        exact hm ▸ hends hlast hrefusal
      · obtain ⟨hrefusal, ⟨m, hlast⟩ | ⟨hprogress, rfl⟩⟩ := hkept.cut hcut
        · exact .inl ⟨m, rememberedOf_of_lastSuccess hlast, hends hlast hrefusal⟩
        · by_cases hsuccess : ∃ m, lastSuccess s.history = some (o.jobId, m)
          · obtain ⟨m, hlast⟩ := hsuccess
            exact .inl ⟨m, rememberedOf_of_lastSuccess hlast, hends hlast hrefusal⟩
          · have hshows := hs.mirrors.shows
            rw [hprogress] at hshows
            refine .inr (ends_of_cut habsent hrefusal (fun m heq => hsuccess ⟨m, ?_⟩) hshows.2.1 hshows.2.2)
            exact hs.mirrors.success.symm.trans heq
    | _ => trivial

end Steps

/-- In every run in which jobs come again while the record still knows them, a job that was successful
is answered so again, one that was cut is answered with its success or with the interruption, none of
them runs again, and interruptions are answered once a crash. -/
theorem guarded_redelivers (h : Host) (tr : List Event) (hknown : (machine h).Guarded Known tr) :
    (machine h).Guarded (Redelivers h) tr ∧ (machine h).Always (fun s => OncePerCrash s.history) tr := by
  have hstep : ∀ s e, Invariant s → Known s e → Invariant (step h s e) := fun s e hs => hs.step e
  refine ⟨?_, ?_⟩
  · exact hknown.ensures (invariant_init h) hstep fun s e hs => redelivers_of_known hs e
  · exact (hknown.always (invariant_init h) hstep).mono fun s hs => hs.told.once

/-! ## Sample runs -/

/-- The job that an entry is about. -/
def Entry.about : Entry → Option Str
  | .started _ jobId => some jobId
  | .settled _ jobId => some jobId
  | .remembered _ jobId _ => some jobId
  | .reported _ jobId => some jobId
  | .called _ jobId => some jobId
  | .answered _ jobId _ => some jobId
  | .booted _ => none

/-- The job is acknowledged as successful. -/
def Entry.succeeds (jobId : Str) : Entry → Bool
  | .answered _ id ack => id = jobId && ack.status = 0
  | _ => false

theorem exists_acked (h : ∃ e ∈ history, e.succeeds jobId) : ∃ message, Acked history jobId message := by
  obtain ⟨e, he, hsucceeds⟩ := h
  cases e with
  | answered n id ack =>
    obtain ⟨status, message⟩ := ack
    simp only [Entry.succeeds, Bool.and_eq_true, decide_eq_true_eq] at hsucceeds
    obtain ⟨rfl, rfl⟩ := hsucceeds
    exact ⟨message, n, he⟩
  | _ => simp [Entry.succeeds] at hsucceeds

theorem not_acked (h : ∀ e ∈ history, e.succeeds jobId = false) (message : Str) : ¬ Acked history jobId message := by
  rintro ⟨n, hn⟩
  simpa [Entry.succeeds] using h _ hn

theorem not_unanswered (h : ∀ e ∈ history, e.about ≠ some jobId) (n : Nat) : ¬ Unanswered history n jobId := by
  induction history with
  | nil => exact id
  | cons e history ih =>
    cases e <;> simp_all [Unanswered, Entry.about]

theorem not_cut (h : ∀ e ∈ history, e.about ≠ some jobId) : ¬ Cut history jobId := by
  induction history with
  | nil => exact id
  | cons e history ih =>
    have htail : ∀ e' ∈ history, e'.about ≠ some jobId := fun e' he' => h e' (List.mem_cons_of_mem e he')
    cases e <;> simp_all [Cut, not_unanswered htail]

/-- A job that was never heard of. -/
theorem Kept.of_new {o : Order} {g : Guards} {w : Write}
    (h : ∀ e ∈ s.history, e.about ≠ some o.jobId) : Kept s o g w where
  success := fun ⟨_, _, hn⟩ => absurd rfl (h _ hn)
  cut hcut := absurd hcut (not_cut h)

/-- The job that was successful last. -/
theorem Kept.of_last {o : Order} {g : Guards} {w : Write} (hrefusal : refusal s o g = none)
    (hlast : (lastSuccess s.history).map Prod.fst = some o.jobId) : Kept s o g w := by
  have hsuccess : ∃ message, lastSuccess s.history = some (o.jobId, message) := by
    obtain ⟨⟨id, message⟩, hm, rfl⟩ := Option.map_eq_some_iff.mp hlast
    exact ⟨message, hm⟩
  exact ⟨fun _ => ⟨hrefusal, hsuccess⟩, fun _ => ⟨hrefusal, .inl hsuccess⟩⟩

def firstJob : Order := orderOf (text "j1")
def secondJob : Order := orderOf (text "j2")

/-- An install from its delivery to its acknowledgement. -/
def install (n : Nat) (o : Order) : List Event :=
  [.task (.install n o allowed .works), .task (.baseline n true),
    .task (.reply n (.done installedOne) .works .works), .task (.facts n .works .works)]

/-- A success is delivered again, then an install is cut by a crash and delivered again. -/
def repeatedRun : List Event :=
  install 0 firstJob ++ [.task (.install 1 firstJob allowed .works),
    .task (.install 2 secondJob allowed .works), .task (.baseline 2 true), .crash none .works,
    .task (.install 3 secondJob allowed .works)]

theorem guarded_redelivers_repeatedRun : (machine windowsHost).Guarded (Redelivers windowsHost) repeatedRun ∧
      (machine windowsHost).Always (fun s => OncePerCrash s.history) repeatedRun := by
  refine guarded_redelivers windowsHost repeatedRun (Machine.guarded_iff_guardedFrom.mpr ?_)
  have hplain : Task.Plain (.reply 0 (.done installedOne) .works .works) := ⟨trivial, trivial, trivial⟩
  refine ⟨⟨trivial, fun _ => .of_new (by decide)⟩, trivial, hplain, ⟨trivial, trivial⟩,
    ⟨trivial, fun _ => .of_last (by decide) (by decide)⟩,
    ⟨trivial, fun _ => .of_new (by decide)⟩, trivial, trivial, ⟨trivial, fun _ => ?_⟩, trivial⟩
  -- the second job has no success, and the last that was written is that it was cut
  refine ⟨fun ⟨message, hacked⟩ => absurd hacked (not_acked (by decide) message), fun _ => ?_⟩
  exact ⟨by decide, .inr ⟨by decide, rfl⟩⟩

/-- Another job is successful before the first one is delivered again. -/
def overtakenRun : List Event :=
  install 0 firstJob ++ install 1 secondJob ++ [.task (.install 2 firstJob allowed .works)]

/-- The first job is started once more. -/
theorem not_guarded_redelivers_overtakenRun : ¬ ((machine windowsHost).Guarded (Redelivers windowsHost) overtakenRun ∧
      (machine windowsHost).Always (fun s => OncePerCrash s.history) overtakenRun) := by
  rintro ⟨h, -⟩
  have hanswers := h (install 0 firstJob ++ install 1 secondJob)
    (.task (.install 2 firstJob allowed .works)) ⟨[], rfl⟩ (by decide)
  have hsuccess : ∃ e ∈ ((machine windowsHost).run
      (install 0 firstJob ++ install 1 secondJob)).history, e.succeeds (text "j1") := by
    decide
  obtain ⟨message, hacked⟩ := exists_acked hsuccess
  have hsent : (segment windowsHost ((machine windowsHost).run
      (install 0 firstJob ++ install 1 secondJob)) (.install 2 firstJob allowed .works)).sent = none := by
    decide
  have hends := (hanswers.success message hacked).1
  cases hends

end Pmp
