-- SUMMARY: When the end of a session is complete: its audits, its recording and the helper always, and its reason never.
import Tracenium.Rcp.CaptureLoop

open Utf16 List

namespace Rcp.Capture

open Session Report

structure Complete (t : Session) (log : List Act) : Prop where
  /-- A session that is seen is audited once as over, after that. -/
  audited : t.disposed = true → .started ∈ (report log).audits → (report log).audits = [.stopped, .started]
  /-- Its recorder is stopped once, and the file handed off or removed. -/
  recorded : t.disposed = true → .recorderStarted ∈ log →
    log.count .recorderStopped = 1 ∧ (.handedOff ∈ log ↔ .removed ∉ log)
  /-- A reason that the operator cannot tell is sent before the teardown. -/
  explained : Each (fun before act => ∀ reason message, act = .teardown reason → reason.known = some message →
    .sent (.error reason.code message true) ∈ before) log

def State.live (s : State) : Nat := s.sessions.countP fun t => !t.disposed

def State.screenEnds (s : State) : Nat := (s.history.map Prod.snd).count .screenEnd

/-- `screen.end` is called where the last session ends, and nowhere else. -/
def EndsLast (platform : Screen.Platform) (s : State) (input : Input) : Prop :=
  (step platform s input).screenEnds =
    s.screenEnds + if platform = .windows ∧ s.live ≠ 0 ∧ (step platform s input).live = 0 then 1 else 0

/-- The session does not end by a refusal or a revocation, and no first frame is late. -/
def Accounted (t : Session) (e : Event) : Prop := ¬ Unexplained t e ∧ ¬ Late t e

/-! ## The tape -/

def openTape : Option Recorder → List Act
  | some r => (if r.stopped.isSome && !r.wroteAnything then [.removed] else []) ++ [.recorderStarted]
  | none => []

/-- The tape of a session that has ended: the file goes one way or the other. -/
def Closed (tape : List Act) : Prop :=
  tape = [] ∨ tape = [.handedOff, .recorderStopped, .recorderStarted] ∨
    tape = [.removed, .recorderStopped, .recorderStarted] ∨
    tape = [.removed, .recorderStopped, .removed, .recorderStarted]

theorem openTape_offer (t : Session) (offered : Offered) :
    offerTape t.recorder offered ++ openTape t.recorder = openTape (t.offer offered).1.recorder := by
  unfold offer offerTape
  cases hrecorder : t.recorder with
  | none => simp [hrecorder]
  | some r =>
    obtain ⟨wroteAnything, stopped⟩ := r
    cases stopped <;> cases wroteAnything <;> cases offered <;> rfl

theorem closed_stopTape (recorder : Option Recorder) (handoff : Handoff) :
    Closed (stopTape recorder handoff ++ openTape recorder) := by
  cases recorder with
  | none => exact .inl rfl
  | some r =>
    obtain ⟨wroteAnything, stopped⟩ := r
    cases wroteAnything <;> cases stopped <;> cases handoff <;>
      simp [Closed, stopTape, openTape, handOffRecording]

/-- What the tape shows, the log shows. -/
theorem Closed.recorded {log : List Act} (h : Closed (report log).tape) (hstarted : .recorderStarted ∈ log) :
    log.count .recorderStopped = 1 ∧ (.handedOff ∈ log ↔ .removed ∉ log) := by
  have hmem : ∀ act, ofRecorder act → (act ∈ log ↔ act ∈ (report log).tape) := by
    intro act hact
    simp [report, hact]
  have hcount : log.count .recorderStopped = (report log).tape.count .recorderStopped := (count_filter rfl).symm
  rw [hmem _ rfl] at hstarted
  rw [hmem .handedOff rfl, hmem .removed rfl, hcount]
  rcases h with h | h | h | h
  · simp [h] at hstarted
  · simp [h]
  · simp [h]
  · simp [h]

theorem report_opened (sessionId operator : Str) (now : Nat) (policy : Screen.Policy) (starts : Bool) :
    report (opened sessionId operator now policy starts).2 =
      ⟨[], openTape (opened sessionId operator now policy starts).1.recorder, [], [], 0⟩ := by
  unfold opened
  dsimp only
  split <;> rfl

/-! ## One session -/

structure Ended (t : Session) (log : List Act) : Prop where
  seq : t.seq = 0 ↔ t.auditStartedSent = false
  audits : (report log).audits =
    if t.auditStartedSent then (if t.disposed then [.stopped, .started] else [.started]) else []
  opened : t.disposed = false → (report log).tape = openTape t.recorder
  closed : t.disposed = true → t.recorder = none ∧ Closed (report log).tape
  terminals : (report log).terminals ⊆ TERMINAL_CAPTURE_CODES
  teardowns : ∀ reason ∈ (report log).teardowns, reason.known = none

section Ended

variable {platform : Screen.Platform} {t : Session} {live : Nat} {e : Event} {log : List Act}

theorem mem_teardowns {acts : List Act} {reason : Reason} :
    reason ∈ (report acts).teardowns ↔ .teardown reason ∈ acts := by
  have hact : ∀ act, teardownReason act = some reason ↔ act = .teardown reason := by
    intro act
    cases act <;> simp [teardownReason]
  simp [report, hact]

theorem Ended.complete (hs : Ended t log) : Complete t log where
  audited hdisposed hstarted := by
    have haudits := hs.audits
    split at haudits
    · exact haudits
    · simp [haudits] at hstarted
  recorded hdisposed hstarted := (hs.closed hdisposed).2.recorded hstarted
  explained := by
    rintro act before hbefore reason message rfl hknown
    have hmem : reason ∈ (report log).teardowns := mem_teardowns.mpr (hbefore.subset mem_cons_self)
    simp [hs.teardowns reason hmem] at hknown

/-- A step that offers something at most, and tells of no end. -/
theorem Ended.goes (hs : Ended t log) {t' : Session} {acts : List Act} (offered : Offered)
    (audits : List AuditEvent) {codes : List Str}
    (hseq : t'.seq = 0 ↔ t'.auditStartedSent = false) (hdisposed : t'.disposed = t.disposed)
    (hrecorder : t'.recorder = (t.offer offered).1.recorder) (hcodes : codes ⊆ TERMINAL_CAPTURE_CODES)
    (htold : report acts = ⟨audits, offerTape t.recorder offered, codes, [], 0⟩)
    (haudits : audits ++ (report log).audits =
      if t'.auditStartedSent then (if t'.disposed then [.stopped, .started] else [.started]) else []) :
    Ended t' (acts ++ log) where
  seq := hseq
  audits := by simpa [htold, append] using haudits
  opened hlive := by
    rw [hdisposed] at hlive
    simp [htold, append, hs.opened hlive, hrecorder, openTape_offer]
  closed hended := by
    rw [hdisposed] at hended
    obtain ⟨hnone, hclosed⟩ := hs.closed hended
    have hoffer : (t.offer offered).1.recorder = none := by simp [offer, hnone]
    exact ⟨hrecorder.trans hoffer, by simpa [htold, append, offerTape, hnone] using hclosed⟩
  terminals := by simpa [htold, append] using ⟨hcodes, hs.terminals⟩
  teardowns := by simpa [htold, append] using hs.teardowns

theorem Ended.onCaptured (hs : Ended t log) {result : CaptureResult} {offered : Offered}
    (hcapturing : t.capturing ≠ 0) (hlate : ¬ Late t (.captured result offered)) :
    Ended (t.onCaptured result offered).1 ((t.onCaptured result offered).2 ++ log) := by
  obtain ⟨o, hdisposed, heq⟩ := onCaptured_eq hcapturing result offered
  have haudits := hs.audits
  rw [heq]
  cases result with
  | fails code message =>
    obtain ⟨hseq, haudit, -, hrecorder, codes, hcodes, htold⟩ := @captureFrame_fails t code message offered
    refine hs.goes .skipped [] (by simpa [hseq, haudit] using hs.seq) hdisposed ?_ hcodes ?_ ?_
    · simp [hrecorder, offer_skipped]
    · simp [htold, offerTape_skipped]
    · simpa [haudit, hdisposed] using haudits
  | frame frame =>
    obtain ⟨hseq, haudit, -, hrecorder, htold⟩ := captureFrame_frame hs.seq frame offered
    refine hs.goes offered (if t.auditStartedSent then [] else [.started]) (by simp [hseq, haudit]) hdisposed
      hrecorder (nil_subset _) (by simp [htold, report_offer, append]) ?_
    by_cases hstarted : t.auditStartedSent
    · simpa [hstarted, haudit, hdisposed] using haudits
    · -- It is the first one, so that the session has not ended.
      have hzero : t.seq = 0 := hs.seq.mpr (by simpa using hstarted)
      have hlive : ¬ t.disposed := fun hended => hlate ⟨hcapturing, hended, hzero⟩
      simp [haudits, hstarted, haudit, hdisposed, hlive]

/-- The end of a session that is seen is audited, and its reason is one that is known to the operator. -/
theorem Ended.finish (hs : Ended t log) {outcome : Outcome} {reason : Option Reason} {handoff : Handoff}
    (hlive : t.disposed = false) (hfinished : Finished platform t live reason handoff outcome)
    (hreason : ∀ r, reason = some r → r.known = none) : Ended outcome.session (outcome.acts ++ log) := by
  obtain ⟨ended, hended, hsession⟩ := hfinished.session
  have htold := hfinished.told
  rw [hsession]
  refine ⟨hs.seq, ?_, fun h => ?_, fun _ => ⟨rfl, ?_⟩, ?_, ?_⟩
  · have haudits := hs.audits
    rw [hlive] at haudits
    simp only [report_append, htold, append, haudits]
    split <;> rfl
  · exact Bool.noConfusion (hended.symm.trans h)
  · simp only [report_append, htold, append, hs.opened hlive]
    exact closed_stopTape t.recorder handoff
  · simpa [htold, append] using hs.terminals
  · intro r hr
    have hmem : reason = some r ∨ r ∈ (report log).teardowns := by simpa [htold, append] using hr
    exact hmem.elim (hreason r) (hs.teardowns r)

theorem Ended.handle (hs : Ended t log) (haccounted : Accounted t e) :
    Ended (t.handle platform live e).session ((t.handle platform live e).acts ++ log) := by
  have htaken := @taken_handle platform t live e
  generalize t.handle platform live e = outcome at htaken
  cases htaken with
  | goes offered o hdisposed hsession hcounted htold =>
    obtain ⟨recorder, hoffer⟩ := offer_session t offered
    rw [report_offer] at htold
    refine hs.goes offered [] (by simpa [hsession, hoffer] using hs.seq) (by simp [hsession, hdisposed])
      (by simp [hsession]) (nil_subset _) htold ?_
    simpa [hsession, hoffer, hdisposed] using hs.audits
  | captured result offered he hcapturing houtcome =>
    subst houtcome he
    exact hs.onCaptured hcapturing haccounted.2
  | finished reason handoff hlive hfinished hreason =>
    exact hs.finish hlive hfinished fun r hr => hreason r hr haccounted.1

/-- An end that is not explained, and a first frame that is late, are seen at once. -/
theorem Ended.breaks (hs : Ended t log) (haccounted : ¬ Accounted t e) :
    ¬ Complete (t.handle platform live e).session ((t.handle platform live e).acts ++ log) := by
  intro hcomplete
  refine haccounted ⟨fun hunexplained => ?_, fun hlate => ?_⟩
  · obtain ⟨reason, message, hknown, hteardown, hterminals⟩ := @unexplained_handle platform t live e hunexplained
    have hmem : .teardown reason ∈ (t.handle platform live e).acts :=
      mem_teardowns.mp (hteardown ▸ mem_singleton_self reason)
    obtain ⟨later, before, hsplit⟩ := append_of_mem hmem
    have hsent := hcomplete.explained (.teardown reason) (before ++ log) ⟨later, by simp [hsplit]⟩ reason message rfl
      hknown
    have hterminal : reason.code ∈ (report ((t.handle platform live e).acts ++ log)).terminals := by
      refine mem_filterMap.mpr ⟨.sent (.error reason.code message true), ?_, rfl⟩
      rw [hsplit, append_assoc, cons_append]
      exact mem_append_right _ (mem_cons_of_mem _ hsent)
    rw [report_append] at hterminal
    simp only [append, hterminals] at hterminal
    have hcode := hs.terminals hterminal
    cases reason with
    | revokedByUser => exact absurd hcode (by decide)
    | indicatorUnavailable => exact absurd hcode (by decide)
    | _ => cases hknown
  · cases e with
    | captured result offered =>
      cases result with
      | fails code message => cases hlate
      | frame frame =>
        obtain ⟨hcapturing, hended, hzero⟩ := hlate
        obtain ⟨o, hdisposed, heq⟩ := onCaptured_eq hcapturing (.frame frame) offered
        obtain ⟨-, -, -, -, htold⟩ := captureFrame_frame hs.seq frame offered
        have hunseen := hs.seq.mp hzero
        have haudits : (report ((t.captureFrame (.frame frame) offered).2 ++ log)).audits = [.started] := by
          simp [htold, report_offer, append, hs.audits, hunseen]
        have haudited := hcomplete.audited
        simp only [Session.handle, heq, haudits] at haudited
        exact absurd (haudited (hdisposed.trans hended) (by simp)) (by simp)
    | _ => cases hlate

theorem keeps_ended (platform : Screen.Platform) : Keeps platform Accounted Ended where
  opened sessionId operator now policy starts := by
    have htold := report_opened sessionId operator now policy starts
    have hunseen : (opened sessionId operator now policy starts).1.auditStartedSent = false := rfl
    have hlive : (opened sessionId operator now policy starts).1.disposed = false := rfl
    exact ⟨by simp [opened], by simp [htold, hunseen], by simp [htold], by simp [hlive], by simp [htold],
      by simp [htold]⟩
  handle t log live e hs haccounted := hs.handle haccounted

end Ended

/-! ## The helper of the process -/

/-- The count of the process is that of its live sessions. -/
structure Counted (s : State) : Prop where
  live : s.liveScreenSessions = s.live
  ended : ∀ t ∈ s.sessions, t.privEnded = t.disposed

section Counted

variable {platform : Screen.Platform} {s : State} {t : Session} {live : Nat} {e : Event}

theorem count_screenEnd (acts : List Act) : acts.count .screenEnd = (report acts).screenEnds := rfl

theorem privEnded_offer (t : Session) (offered : Offered) : (t.offer offered).1.privEnded = t.privEnded := by
  obtain ⟨recorder, hoffer⟩ := offer_session t offered
  rw [hoffer]

theorem announce_rest (t : Session) (frame : Frame) :
    (t.announce frame).1.privEnded = t.privEnded ∧ (report (t.announce frame).2).screenEnds = 0 := by
  unfold announce
  split
  · refine ⟨rfl, ?_⟩
    rw [report_append, report_send (by simp)]
    split <;> rfl
  · exact ⟨rfl, rfl⟩

/-- A capture is no end, whatever was audited before. -/
theorem captureFrame_rest (t : Session) (result : CaptureResult) (offered : Offered) :
    (t.captureFrame result offered).1.privEnded = t.privEnded ∧
      (t.captureFrame result offered).2.count .screenEnd = 0 := by
  rw [count_screenEnd]
  cases result with
  | fails code message =>
    obtain ⟨-, -, hpriv, -, codes, -, htold⟩ := @captureFrame_fails t code message offered
    exact ⟨hpriv, by rw [htold]⟩
  | frame frame =>
    have hframe : report (t.send (.frame t.seq)) = .empty := report_send (by simp)
    have hannounced := announce_rest { t with consecutiveFailures := 0, lastReportedCode := none } frame
    unfold captureFrame onFrame
    dsimp only
    generalize { t with consecutiveFailures := 0, lastReportedCode := none }.announce frame = announced at hannounced ⊢
    obtain ⟨hpriv, hnone⟩ := hannounced
    exact ⟨(privEnded_offer _ offered).trans hpriv, by simp [hframe, report_offer, append, hnone, empty]⟩

/-- What a step does to the count. A session leaves it once, with its end. -/
theorem counted_handle (hpriv : t.privEnded = t.disposed) :
    (t.handle platform live e).session.privEnded = (t.handle platform live e).session.disposed ∧
      (((t.handle platform live e).session.disposed = t.disposed ∧
          (t.handle platform live e).liveScreenSessions = live ∧
          (t.handle platform live e).acts.count .screenEnd = 0) ∨
        (t.disposed = false ∧ (t.handle platform live e).session.disposed ∧
          (t.handle platform live e).liveScreenSessions = live - 1 ∧
          (t.handle platform live e).acts.count .screenEnd =
            if live - 1 = 0 ∧ platform = .windows then 1 else 0)) := by
  have htaken := @taken_handle platform t live e
  rw [count_screenEnd]
  generalize t.handle platform live e = outcome at htaken
  cases htaken with
  | goes offered o hdisposed hsession hcounted htold =>
    obtain ⟨recorder, hoffer⟩ := offer_session t offered
    simp [hsession, hoffer, hdisposed, hpriv, hcounted, htold, report_offer]
  | captured result offered he hcapturing houtcome =>
    obtain ⟨o, hdisposed, heq⟩ := onCaptured_eq hcapturing result offered
    obtain ⟨hsame, hnone⟩ := captureFrame_rest t result offered
    rw [count_screenEnd] at hnone
    simp [houtcome, heq, hdisposed, hsame, hpriv, hnone]
  | finished reason handoff hlive hfinished hreason =>
    obtain ⟨ended, hended, hsession⟩ := hfinished.session
    have hunended : t.privEnded = false := hpriv.trans hlive
    simp [hsession, hended, hlive, hunended, hfinished.counted, hfinished.told]

theorem live_set {i : Nat} {t' : Session} (hi : s.sessions[i]? = some t) :
    (s.sessions.set i t').countP (fun t => !t.disposed) =
      s.live - (if t.disposed then 0 else 1) + if t'.disposed then 0 else 1 := by
  obtain ⟨hlt, rfl⟩ := List.getElem?_eq_some_iff.mp hi
  rw [countP_set hlt]
  cases s.sessions[i].disposed <;> cases t'.disposed <;> simp [State.live]

theorem screenEnds_record (sessions : List Session) (live i : Nat) (acts : List Act) :
    State.screenEnds { s with sessions := sessions, liveScreenSessions := live, history := s.record i acts } =
      acts.count .screenEnd + s.screenEnds := by
  simp [State.screenEnds, State.record, Function.comp_def]

theorem Counted.opens (hs : Counted s) (sessionId operator : Str) (policy : Screen.Policy) (starts : Bool) :
    Counted (step platform s (.opens sessionId operator policy starts)) ∧
      EndsLast platform s (.opens sessionId operator policy starts) := by
  have hlive : (step platform s (.opens sessionId operator policy starts)).live = s.live + 1 := by
    simp [step, State.live, opened, Screen.Session.opened]
  refine ⟨⟨?_, ?_⟩, ?_⟩
  · rw [hlive, ← hs.live]
    rfl
  · intro t ht
    rcases mem_append.mp ht with ht | ht
    · exact hs.ended t ht
    · rw [mem_singleton.mp ht]
      rfl
  · unfold EndsLast
    rw [hlive]
    simp [step, screenEnds_record, count_screenEnd, report_opened]

theorem Counted.on (hs : Counted s) (i : Nat) (e : Event) :
    Counted (step platform s (.on i e)) ∧ EndsLast platform s (.on i e) := by
  cases hi : s.sessions[i]? with
  | none =>
    have hsame : step platform s (.on i e) = s := by simp [step, hi]
    refine ⟨by rw [hsame]; exact hs, ?_⟩
    simp [EndsLast, hsame]
  | some t =>
    have hmem : t ∈ s.sessions := mem_of_getElem? hi
    have hstep : step platform s (.on i e) = { s with
        sessions := s.sessions.set i (t.handle platform s.liveScreenSessions e).session
        liveScreenSessions := (t.handle platform s.liveScreenSessions e).liveScreenSessions
        history := s.record i (t.handle platform s.liveScreenSessions e).acts } := by
      simp [step, hi]
    obtain ⟨hpriv, hkind⟩ := @counted_handle platform t s.liveScreenSessions e (hs.ended t hmem)
    have hset := @live_set s t i (t.handle platform s.liveScreenSessions e).session hi
    have hpos : t.disposed = false → 0 < s.live := fun hlive => countP_pos_iff.mpr ⟨t, hmem, by simp [hlive]⟩
    generalize t.handle platform s.liveScreenSessions e = outcome at hstep hpriv hkind hset
    have hended : ∀ u ∈ s.sessions.set i outcome.session, u.privEnded = u.disposed := by
      intro u hu
      rcases mem_or_eq_of_mem_set hu with hu | rfl
      · exact hs.ended u hu
      · exact hpriv
    have hlive : (step platform s (.on i e)).live =
        s.live - (if t.disposed then 0 else 1) + if outcome.session.disposed then 0 else 1 := by
      rw [hstep]
      exact hset
    have hends : (step platform s (.on i e)).screenEnds = outcome.acts.count .screenEnd + s.screenEnds := by
      rw [hstep, screenEnds_record]
    rcases hkind with ⟨hdisposed, hcounted, hnone⟩ | ⟨halive, hdisposed, hcounted, hcall⟩
    · have hsame : (step platform s (.on i e)).live = s.live := by
        rw [hlive, hdisposed]
        cases hd : t.disposed with
        | true => simp
        | false =>
          have := hpos hd
          simp only [Bool.false_eq_true, if_false]
          omega
      refine ⟨⟨?_, by rwa [hstep]⟩, ?_⟩
      · rw [hsame, hstep]
        exact hcounted.trans hs.live
      · unfold EndsLast
        split
        · omega
        · omega
    · have hless : (step platform s (.on i e)).live = s.live - 1 := by simp [hlive, halive, hdisposed]
      refine ⟨⟨?_, by rwa [hstep]⟩, ?_⟩
      · rw [hless, hstep, ← hs.live]
        exact hcounted
      · have := hpos halive
        have hlast : (platform = .windows ∧ s.live ≠ 0 ∧ s.live - 1 = 0) ↔ (s.live - 1 = 0 ∧ platform = .windows) := by
          constructor
          · exact fun h => ⟨h.2.2, h.1⟩
          · exact fun h => ⟨h.2, by omega, h.1⟩
        unfold EndsLast
        rw [hless, hends, hcall, hs.live, Nat.add_comm]
        simp only [hlast]

theorem Counted.step (hs : Counted s) (input : Input) :
    Counted (Capture.step platform s input) ∧ EndsLast platform s input := by
  cases input with
  | opens sessionId operator policy starts => exact hs.opens sessionId operator policy starts
  | on i e => exact hs.on i e
  | tick d =>
    refine ⟨⟨hs.live, hs.ended⟩, ?_⟩
    have hsame : (Capture.step platform s (.tick d)).live = s.live := rfl
    unfold EndsLast
    rw [hsame, if_neg (by omega)]
    rfl

end Counted

/-- The helper of Windows is stopped with the last session in every run. -/
theorem endsLast_run (platform : Screen.Platform) (tr : List Input) :
    (machine platform).Guarded (EndsLast platform) tr := by
  intro pre input hpre
  have hcounted : Counted ((machine platform).run pre) :=
    Machine.invariant (I := Counted) ⟨rfl, by simp [machine]⟩ (fun s input hs => (hs.step input).1) pre
  exact (hcounted.step input).2

/-- A run leaves the end of every session complete if and only if no session is refused or revoked, and no first frame
comes after the end of its session. -/
theorem complete_iff (platform : Screen.Platform) (tr : List Input) :
    ((machine platform).Always (State.Sessions Complete) tr ∧ (machine platform).Guarded (EndsLast platform) tr) ↔
      (machine platform).Guarded (Meets Accounted) tr := by
  have hcomplete := (keeps_ended platform).always_iff (fun _ _ hs => hs.complete)
    (fun _ _ _ _ hs haccounted => hs.breaks haccounted) tr
  exact ⟨fun h => hcomplete.mp h.1, fun h => ⟨hcomplete.mpr h, endsLast_run platform tr⟩⟩

def revokedRun : List Input :=
  [.opens (text "s-1") (text "Ana") watching false, .on 0 .started, .on 0 (.timer 0 watching),
   .on 0 (.captured (.frame ⟨1920, 1080, false, false⟩) .skipped), .on 0 (.polled true .sent)]

theorem not_complete_revokedRun : ¬ (machine .windows).Always (State.Sessions Complete) revokedRun := by
  intro h
  have hended : ∃ t, ((machine .windows).run revokedRun).sessions[0]? = some t ∧
      ((machine .windows).run revokedRun).log 0 = .teardown .revokedByUser ::
        (((machine .windows).run revokedRun).log 0).tail ∧
      .sent (.error Reason.revokedByUser.code (Reason.revokedByUser.known.getD []) true) ∉
        (((machine .windows).run revokedRun).log 0).tail :=
    ⟨_, rfl, by decide, by decide⟩
  obtain ⟨t, ht, hlog, hsilent⟩ := hended
  have hexplained := (h.last 0 t ht).explained
  have hknown : Reason.revokedByUser.known = some (Reason.revokedByUser.known.getD []) := by
    simp only [Reason.known, Option.getD_some]
  exact hsilent ((each_cons.mp hexplained).1 .revokedByUser _ rfl hknown)

end Rcp.Capture
