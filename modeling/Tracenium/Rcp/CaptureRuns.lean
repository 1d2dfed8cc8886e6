-- SUMMARY: Runs of whole screen sessions: what holds of each session and its log, and that the sessions act as those of the smaller model.
import Tracenium.Rcp.ScreenCapture
import Tracenium.Rcp.ScreenNotice

open Utf16 List

namespace Rcp.Capture

open Session Screen.Session Outcome State

def State.log (s : State) (i : Nat) : List Act := (s.history.filter fun e => e.1 = i).map Prod.snd

/-- `P` holds of every session and its log. -/
def State.Sessions (P : Session → List Act → Prop) (s : State) : Prop :=
  ∀ i t, s.sessions[i]? = some t → P t (s.log i)

/-- An event meets the guard `C` in the session that it happens to. -/
def Meets (C : Session → Event → Prop) (s : State) : Input → Prop
  | .on i e => ∀ t ∈ s.sessions[i]?, C t e
  | _ => True

structure Logged (I : Session → List Act → Prop) (s : State) : Prop where
  sessions : s.Sessions I
  fresh : ∀ i, s.sessions.length ≤ i → s.log i = []

section Runs

variable {platform : Screen.Platform} {I P : Session → List Act → Prop} {C : Session → Event → Prop} {s : State}

theorem log_record (sessions : List Session) (liveScreenSessions i j : Nat) (acts : List Act) :
    log { s with
        sessions := sessions, liveScreenSessions := liveScreenSessions, history := s.record i acts } j =
      if i = j then acts ++ s.log j else s.log j := by
  by_cases hij : i = j
  · simp [log, record, hij, filter_map, Function.comp_def]
  · simp [log, record, hij, filter_map, Function.comp_def]

theorem Logged.opens (hs : Logged I s) {sessionId operator : Str} {policy : Screen.Policy} {starts : Bool}
    (hopened : I (opened sessionId operator s.now policy starts).1
      (opened sessionId operator s.now policy starts).2) :
    Logged I (step platform s (.opens sessionId operator policy starts)) where
  sessions i t hi := by
    rcases Slots.of_getElem?_concat hi with hi | ⟨rfl, rfl⟩
    · have hne : s.sessions.length ≠ i := (List.getElem?_eq_some_iff.mp hi).1.ne'
      simpa [step, log_record, hne] using hs.sessions i t hi
    · simpa [step, log_record, hs.fresh _ le_rfl] using hopened
  fresh i hi := by
    have hlt : s.sessions.length < i := Nat.lt_of_succ_le (by simpa [step] using hi)
    simpa [step, log_record, hlt.ne] using hs.fresh i hlt.le

theorem Logged.on (hs : Logged I s) {i : Nat} {e : Event}
    (hstep : ∀ t ∈ s.sessions[i]?, I t (s.log i) → I (t.handle platform s.liveScreenSessions e).session
      ((t.handle platform s.liveScreenSessions e).acts ++ s.log i)) : Logged I (step platform s (.on i e)) := by
  unfold Capture.step
  dsimp only
  split
  · rename_i t hi
    refine ⟨fun j u hj => ?_, fun j hj => ?_⟩
    · rw [log_record]
      rcases Slots.of_getElem?_set hj with ⟨rfl, rfl⟩ | ⟨hne, hj⟩
      · simpa using hstep t hi (hs.sessions j t hi)
      · simpa [hne.symm] using hs.sessions j u hj
    · have hlen : s.sessions.length ≤ j := by simpa using hj
      have hne : i ≠ j := ((List.getElem?_eq_some_iff.mp hi).1.trans_le hlen).ne
      simpa [log_record, hne] using hs.fresh j hlen
  · exact hs

/-- What the constructor establishes and each guarded step of a session keeps. -/
structure Keeps (platform : Screen.Platform) (C : Session → Event → Prop) (I : Session → List Act → Prop) : Prop where
  opened : ∀ sessionId operator now policy starts, I (opened sessionId operator now policy starts).1
    (opened sessionId operator now policy starts).2
  handle : ∀ t log live e, I t log → C t e →
    I (handle platform t live e).session ((handle platform t live e).acts ++ log)

theorem Keeps.init : Logged I (machine platform).init where
  sessions i t hi := by simp [machine] at hi
  fresh i _ := by simp [machine, log]

theorem Keeps.step (hI : Keeps platform C I) (hs : Logged I s) {input : Input} (hC : Meets C s input) :
    Logged I (step platform s input) := by
  cases input with
  | opens sessionId operator policy starts => exact hs.opens (hI.opened sessionId operator s.now policy starts)
  | on i e => exact hs.on fun t ht hkept => hI.handle t _ _ e hkept (hC t ht)
  | tick d => exact ⟨hs.sessions, hs.fresh⟩

theorem Keeps.run (hI : Keeps platform (fun _ _ => True) I) (tr : List Input) :
    ((machine platform).run tr).Sessions I := by
  refine (Machine.invariant (I := Logged I) Keeps.init (fun s input hs => hI.step hs ?_) tr).sessions
  cases input with
  | on i e => exact fun _ _ => trivial
  | _ => trivial

/-- A property of the sessions is exact for a guard when its steps keep what gives the property, and a step that
breaks it breaks the property. -/
theorem Keeps.always_iff (hI : Keeps platform C I) (hP : ∀ t log, I t log → P t log)
    (hbreak : ∀ t log live e, I t log → ¬ C t e →
      ¬ P (Session.handle platform t live e).session ((Session.handle platform t live e).acts ++ log))
    (tr : List Input) : (machine platform).Always (Sessions P) tr ↔ (machine platform).Guarded (Meets C) tr := by
  refine Machine.always_iff_guarded (I := Logged I) Keeps.init (fun s input hs hC => hI.step hs hC)
    (fun s hs i t hi => hP t _ (hs.sessions i t hi)) (fun s input hs hC hsessions => ?_) tr
  cases input with
  | on i e =>
    simp only [Meets, not_forall] at hC
    obtain ⟨t, hi, hC⟩ := hC
    have hi : s.sessions[i]? = some t := hi
    refine hbreak t _ s.liveScreenSessions e (hs.sessions i t hi) hC ?_
    have hstep : (machine platform).step s (.on i e) = { s with
        sessions := s.sessions.set i (t.handle platform s.liveScreenSessions e).session
        liveScreenSessions := (t.handle platform s.liveScreenSessions e).liveScreenSessions
        history := s.record i (t.handle platform s.liveScreenSessions e).acts } := by
      simp [machine, Capture.step, hi]
    rw [hstep] at hsessions
    simpa [log_record] using hsessions i _ (Slots.getElem?_set_self hi)
  | _ => exact hC trivial

end Runs

/-! ## The smaller model -/

def screenAct : Act → Option Screen.Act
  | .screen act => some act
  | _ => none

def screenActs (acts : List Act) : List Screen.Act := acts.filterMap screenAct

section ScreenActs

variable {platform : Screen.Platform} {t : Session} {acts acts' : List Act}

@[simp] theorem screenActs_nil : screenActs [] = [] := rfl

@[simp] theorem screenActs_cons {act : Act} : screenActs (act :: acts) = (screenAct act).toList ++ screenActs acts := by
  cases h : screenAct act <;> simp [screenActs, h]

@[simp] theorem screenActs_append : screenActs (acts ++ acts') = screenActs acts ++ screenActs acts' :=
  filterMap_append

@[simp] theorem screenActs_screen (acts : List Screen.Act) : screenActs (acts.map .screen) = acts := by
  simp [screenActs, Function.comp_def, screenAct]

@[simp] theorem screenActs_send (message : Sent) : screenActs (t.send message) = [] := by
  unfold send
  split <;> rfl

@[simp] theorem screenActs_finishWith (r : Recorder) (reason : Recording.StopReason) :
    screenActs (r.finishWith reason).2 = [] := by
  unfold Recorder.finishWith
  split <;> rfl

@[simp] theorem screenActs_offer (offered : Offered) : screenActs (t.offer offered).2 = [] := by
  unfold offer Recorder.offer
  split
  · split
    · rfl
    · cases offered <;> simp
  · rfl

@[simp] theorem toSession_offer (offered : Offered) : (t.offer offered).1.toSession = t.toSession := by
  unfold offer
  split <;> rfl

/-- A capture changes nothing of the loop. -/
@[simp] theorem captureFrame_screen (result : CaptureResult) (offered : Offered) :
    (t.captureFrame result offered).1.toSession = t.toSession ∧
      screenActs (t.captureFrame result offered).2 = [] := by
  cases result with
  | fails code message =>
    unfold captureFrame reportCaptureFailure
    dsimp only
    split
    · simp
    · split
      · simp
      · simp
  | frame frame =>
    unfold captureFrame onFrame announce
    dsimp only
    split
    · split <;> simp [screenAct]
    · simp

@[simp] theorem stopRecording_screen (handoff : Handoff) :
    (t.stopRecording handoff).1.toSession = t.toSession ∧ screenActs (t.stopRecording handoff).2 = [] := by
  unfold stopRecording
  split
  · simp
  · refine ⟨rfl, ?_⟩
    cases handoff <;> dsimp only <;> split <;> split <;>
      simp [screenAct, handOffRecording, sendScreenAudit]

@[simp] theorem screenActs_sendStopReason (reason : Reason) : screenActs (t.sendStopReason reason) = [] := by
  unfold sendStopReason
  split <;> simp

@[simp] theorem screenActs_auditStopped : screenActs t.auditStopped = [] := by
  unfold auditStopped
  split <;> rfl

@[simp] theorem endPrivSession_screen (live : Nat) :
    (t.endPrivSession platform live).session.toSession = t.toSession ∧
      screenActs (t.endPrivSession platform live).acts = [] := by
  unfold endPrivSession
  split
  · simp
  · refine ⟨rfl, ?_⟩
    split <;> rfl

def Outcome.screen (outcome : Outcome) : Screen.Outcome := (outcome.session.toSession, screenActs outcome.acts)

theorem stopCapture_screen (live : Nat) (reason : Reason) (handoff : Handoff) :
    (t.stopCapture platform live reason handoff).screen = t.toSession.stopCapture platform := by
  unfold Session.stopCapture
  split
  · rename_i hdisposed
    simp [Outcome.screen, Screen.Session.stopCapture, hdisposed]
  · simp [screen, clear, screenAct]

theorem dispose_screen (live : Nat) (handoff : Handoff) :
    (t.dispose platform live handoff).screen = t.toSession.stopCapture platform := by
  unfold dispose
  split
  · rename_i hdisposed
    simp [Outcome.screen, Screen.Session.stopCapture, hdisposed]
  · simp [screen, clear]

theorem onShown_screen (live : Nat) (ok : Bool) (code : Str) (handoff : Handoff) :
    (t.onShown platform live ok code handoff).screen = t.toSession.onShown platform ok := by
  unfold Session.onShown
  split
  · rename_i hstart
    simp [Outcome.screen, Screen.Session.onShown, hstart]
  · rename_i hstart
    split
    · rename_i hok
      simp [screen, hok]
    · rename_i hok
      have hstopped := @stopCapture_screen platform { t with start := .over } live .indicatorUnavailable handoff
      simpa [Outcome.screen, Screen.Session.onShown, hstart, hok, screenAct] using hstopped

theorem forward_screen (offered : Offered) (outcome : Screen.Outcome) :
    ((t.forward offered outcome).1.toSession, screenActs (t.forward offered outcome).2) = outcome := by
  unfold forward
  split <;> simp

theorem onCaptured_screen (result : CaptureResult) (offered : Offered) :
    ((t.onCaptured result offered).1.toSession, screenActs (t.onCaptured result offered).2) =
      t.toSession.onCaptured := by
  unfold Session.onCaptured
  split
  · rename_i hcapturing
    simp [Screen.Session.onCaptured, hcapturing]
  · rename_i hcapturing
    simp [Screen.Session.onCaptured, hcapturing]

theorem handleMessage_screen (live : Nat) (message : Screen.Message) (policy : Screen.Policy) (offered : Offered)
    (handoff : Handoff) : (t.handleMessage platform live message policy offered handoff).screen =
      t.toSession.handleMessage platform message policy := by
  unfold Session.handleMessage
  split
  · rename_i hdisposed
    simp [Outcome.screen, Screen.Session.handleMessage, hdisposed]
  · rename_i hlive
    split
    · unfold Session.setQuality Outcome.screen
      dsimp only
      split <;> simp [Screen.Session.handleMessage, hlive]
    · simpa [Screen.Session.handleMessage, hlive] using stopCapture_screen live .operatorStopped handoff
    · exact forward_screen offered _

/-- The event of the smaller model. A turn of the watch that finds nothing is none. -/
def Event.screen : Event → Option Screen.Event
  | .started => some .started
  | .shown ok _ _ => some (.shown ok)
  | .timer k policy => some (.timer k policy)
  | .captured _ _ => some .captured
  | .message m policy _ _ => some (.message m policy)
  | .decided decision policy => some (.decided decision policy)
  | .polled revoked _ => if revoked then some .ended else none
  | .channelClosed _ | .disposed _ => some .ended

theorem handle_screen (live : Nat) (e : Event) : (t.handle platform live e).screen =
      (e.screen.map (t.toSession.handle platform)).getD (t.toSession, []) := by
  cases e with
  | started => exact forward_screen _ _
  | shown ok code handoff => exact onShown_screen live ok code handoff
  | timer k policy => exact forward_screen _ _
  | captured result offered => exact onCaptured_screen result offered
  | message message policy offered handoff => exact handleMessage_screen live message policy offered handoff
  | decided decision policy => exact forward_screen _ _
  | polled revoked handoff =>
    cases revoked with
    | false => simp [Session.handle, Session.poll, Outcome.screen, Event.screen]
    | true =>
      unfold Session.handle Session.poll
      dsimp only
      split
      · rename_i hdisposed
        have hdisposed : t.disposed := by simpa using hdisposed
        simp [Outcome.screen, Event.screen, Screen.Session.handle, Screen.Session.stopCapture, hdisposed]
      · exact stopCapture_screen live .revokedByUser handoff
  | channelClosed handoff => exact stopCapture_screen live .dataChannelClosed handoff
  | disposed handoff => exact dispose_screen live handoff

end ScreenActs

def State.screen (s : State) : Screen.State where
  now := s.now
  sessions := s.sessions.map toSession
  history := s.history.filterMap fun e => (screenAct e.2).map (e.1, ·)

def Input.screen : Input → Option Screen.Input
  | .opens sessionId operator policy _ => some (.opens sessionId operator policy)
  | .on i e => e.screen.map (.on i)
  | .tick d => some (.tick d)

theorem record_screen (s : State) (i : Nat) (acts : List Act) :
    (s.record i acts).filterMap (fun e => (screenAct e.2).map (e.1, ·)) = s.screen.record i (screenActs acts) := by
  simp [State.record, Screen.State.record, State.screen, screenActs, map_filterMap]

theorem screenActs_opened (sessionId operator : Str) (now : Nat) (policy : Screen.Policy) (starts : Bool) :
    screenActs (opened sessionId operator now policy starts).2 =
      (Screen.Session.opened sessionId operator now policy).2 := by
  unfold Session.opened
  dsimp only
  split <;> simp [screenAct]

theorem step_screen (platform : Screen.Platform) (s : State) (input : Input) :
    (step platform s input).screen = (input.screen.map (Screen.step platform s.screen)).getD s.screen := by
  cases input with
  | opens sessionId operator policy starts =>
    have hopened := screenActs_opened sessionId operator s.now policy starts
    have hhistory := record_screen s s.sessions.length (opened sessionId operator s.now policy starts).2
    rw [hopened] at hhistory
    simp [step, State.screen, Input.screen, Screen.step, hhistory]
    rfl
  | on i e =>
    cases hi : s.sessions[i]? with
    | none => cases he : e.screen <;> simp [step, hi, Input.screen, he, Screen.step, State.screen]
    | some t =>
      have hhandle := @handle_screen platform t s.liveScreenSessions e
      cases he : e.screen with
      | none =>
        have hsame : (t.handle platform s.liveScreenSessions e).session.toSession = t.toSession := by
          simpa [he, Outcome.screen] using congrArg Prod.fst hhandle
        have hsilent : screenActs (t.handle platform s.liveScreenSessions e).acts = [] := by
          simpa [he, Outcome.screen] using congrArg Prod.snd hhandle
        have hset : (s.sessions.map toSession).set i t.toSession = s.sessions.map toSession := by
          obtain ⟨hlt, rfl⟩ := List.getElem?_eq_some_iff.mp hi
          rw [← map_set, set_getElem_self]
        have hhistory := record_screen s i (t.handle platform s.liveScreenSessions e).acts
        simp [step, hi, Input.screen, he, State.screen, hsame, hset, hhistory, hsilent, Screen.State.record]
      | some e' =>
        have hhistory := record_screen s i (t.handle platform s.liveScreenSessions e).acts
        simp only [he, Option.map_some, Option.getD_some] at hhandle
        simp [step, hi, Input.screen, he, State.screen, Screen.step, ← hhandle, hhistory, Outcome.screen]
  | tick d => rfl

/-- The sessions, seen through the smaller model, are in a state that it reaches too. -/
theorem run_screen (platform : Screen.Platform) (tr : List Input) :
    ((machine platform).run tr).screen = (Screen.machine platform).run (tr.filterMap Input.screen) := by
  induction tr using reverseRecOn with
  | nil => rfl
  | append_singleton tr input ih =>
    have hstep : ((machine platform).step ((machine platform).run tr) input).screen =
        (input.screen.map ((Screen.machine platform).step ((machine platform).run tr).screen)).getD
          ((machine platform).run tr).screen := step_screen platform _ input
    rw [ih] at hstep
    cases hinput : input.screen with
    | none => simpa [hinput] using hstep
    | some input' => simpa [hinput] using hstep

/-! ## What a step does -/

/-- An audit that says that a session is seen, or that it is over. -/
def lifecycle : Act → Option AuditEvent
  | .audit audit => if audit.event = .error then none else some audit.event
  | _ => none

def ofRecorder : Act → Bool
  | .recorderStarted | .recorderStopped | .handedOff | .removed => true
  | _ => false

def terminalCode : Act → Option Str
  | .sent (.error code _ terminal) => if terminal then some code else none
  | _ => none

def teardownReason : Act → Option Reason
  | .teardown reason => some reason
  | _ => none

/-- What acts tell of the end of a session, the last first. -/
@[ext] structure Report where
  audits : List AuditEvent
  tape : List Act
  terminals : List Str
  teardowns : List Reason
  screenEnds : Nat

def report (acts : List Act) : Report where
  audits := acts.filterMap lifecycle
  tape := acts.filter ofRecorder
  terminals := acts.filterMap terminalCode
  teardowns := acts.filterMap teardownReason
  screenEnds := acts.count .screenEnd

namespace Report

def empty : Report := ⟨[], [], [], [], 0⟩

def append (r r' : Report) : Report :=
  ⟨r.audits ++ r'.audits, r.tape ++ r'.tape, r.terminals ++ r'.terminals, r.teardowns ++ r'.teardowns,
    r.screenEnds + r'.screenEnds⟩

@[simp] theorem empty_append (r : Report) : empty.append r = r := by simp [append, empty]

@[simp] theorem append_empty (r : Report) : r.append empty = r := by simp [append, empty]

end Report

section Pieces

variable {platform : Screen.Platform} {t : Session} {acts acts' : List Act}

@[simp] theorem report_nil : report [] = .empty := rfl

@[simp] theorem report_append : report (acts ++ acts') = (report acts).append (report acts') := by
  simp [report, Report.append]

@[simp] theorem report_screen (acts : List Screen.Act) : report (acts.map .screen) = .empty := by
  have hcount : (acts.map Act.screen).count .screenEnd = 0 := by simp [count_eq_zero]
  simp [report, Report.empty, filterMap_map, filter_map, Function.comp_def, lifecycle, ofRecorder,
    terminalCode, teardownReason, hcount]

/-- A message that is no terminal error. -/
theorem report_send {message : Sent} (hmessage : ∀ code text, message ≠ .error code text true) :
    report (t.send message) = .empty := by
  unfold send
  split
  · rfl
  · cases message with
    | error code text terminal =>
      cases terminal with
      | true => exact absurd rfl (hmessage code text)
      | false => rfl
    | _ => rfl

/-- A session that has ended says nothing. -/
theorem send_of_disposed (hdisposed : t.disposed) (message : Sent) : t.send message = [] := by
  simp [send, hdisposed]

theorem sendStopReason_of_disposed (hdisposed : t.disposed) (reason : Reason) :
    t.sendStopReason reason = [] := by
  unfold sendStopReason
  split
  · exact send_of_disposed hdisposed _
  · rfl

/-- What is left on the tape by an offer that is refused before anything is written. -/
def offerTape (recorder : Option Recorder) (offered : Offered) : List Act :=
  match recorder with
  | some r => (r.offer offered).2
  | none => []

theorem offerTape_skipped (recorder : Option Recorder) : offerTape recorder .skipped = [] := by
  cases recorder with
  | none => rfl
  | some r => cases h : r.stopped <;> simp [offerTape, Recorder.offer]

theorem report_offer (t : Session) (offered : Offered) :
    report (t.offer offered).2 = ⟨[], offerTape t.recorder offered, [], [], 0⟩ := by
  unfold offer offerTape
  cases t.recorder with
  | none => rfl
  | some r =>
    obtain ⟨wroteAnything, stopped⟩ := r
    cases stopped <;> cases wroteAnything <;> cases offered <;> rfl

/-- What stopping a recorder leaves on its tape. -/
def stopTape (recorder : Option Recorder) (handoff : Handoff) : List Act :=
  match recorder with
  | some r => (if r.wroteAnything then handOffRecording handoff else [.removed]) ++ [.recorderStopped]
  | none => []

theorem stopRecording_session (t : Session) (handoff : Handoff) :
    (t.stopRecording handoff).1 = { t with recorder := none } := by
  unfold stopRecording
  split
  · rename_i hnone
    rw [← hnone]
  · rfl

theorem report_stopRecording (t : Session) (handoff : Handoff) :
    report (t.stopRecording handoff).2 = ⟨[], stopTape t.recorder handoff, [], [], 0⟩ := by
  unfold stopRecording stopTape Recorder.finishWith
  cases t.recorder with
  | none => rfl
  | some r =>
    obtain ⟨wroteAnything, stopped⟩ := r
    cases wroteAnything <;> cases handoff <;> dsimp only <;> split <;> rfl

theorem endPrivSession_session (t : Session) (live : Nat) :
    (t.endPrivSession platform live).session = { t with privEnded := true } := by
  unfold endPrivSession
  split
  · rename_i hended
    rw [← hended]
  · rfl

/-- The helper of Windows is stopped with the last session. -/
theorem report_endPrivSession (t : Session) (live : Nat) : report (t.endPrivSession platform live).acts =
      ⟨[], [], [], [], if t.privEnded = false ∧ live - 1 = 0 ∧ platform = .windows then 1 else 0⟩ := by
  unfold endPrivSession
  cases t.privEnded with
  | true => rfl
  | false =>
    by_cases hlast : live - 1 = 0 ∧ platform = .windows
    · simp [hlast, report, lifecycle, ofRecorder, terminalCode, teardownReason]
    · have hcall : 0 < live - 1 ∨ platform ≠ .windows := by
        by_contra hnone
        obtain ⟨hlive, hwindows⟩ := not_or.mp hnone
        exact hlast ⟨Nat.eq_zero_of_not_pos hlive, not_not.mp hwindows⟩
      simp only [hcall, hlast]
      rfl

theorem report_auditStopped (t : Session) :
    report t.auditStopped = ⟨if t.auditStartedSent then [.stopped] else [], [], [], [], 0⟩ := by
  unfold auditStopped
  split <;> rfl

theorem report_teardown (reason : Reason) (acts : List Act) :
    report (.teardown reason :: acts) = Report.append ⟨[], [], [], [reason], 0⟩ (report acts) := by
  refine Report.ext rfl rfl rfl rfl ?_
  simp [report, Report.append]

end Pieces

/-- A session that ends, whichever of the two ways it goes. -/
structure Finished (platform : Screen.Platform) (t : Session) (live : Nat) (reason : Option Reason)
    (handoff : Handoff) (outcome : Outcome) : Prop where
  session : ∃ ended : Screen.Session, ended.disposed = true ∧
    outcome.session = { t with toSession := ended, recorder := none, privEnded := true }
  counted : outcome.liveScreenSessions = if t.privEnded then live else live - 1
  told : report outcome.acts =
    ⟨if t.auditStartedSent then [.stopped] else [], stopTape t.recorder handoff, [], reason.toList,
      if t.privEnded = false ∧ live - 1 = 0 ∧ platform = .windows then 1 else 0⟩

section Finished

variable {platform : Screen.Platform} {t : Session} {live : Nat} {handoff : Handoff}

theorem disposed_clear (hlive : t.disposed = false) : (t.clear platform).1.disposed := by
  simp [Session.clear, Screen.Session.stopCapture, hlive]

theorem endPrivSession_live (t : Session) (live : Nat) :
    (t.endPrivSession platform live).liveScreenSessions = if t.privEnded then live else live - 1 := by
  unfold endPrivSession
  split <;> rfl

theorem finished_stopCapture (hlive : t.disposed = false) (reason : Reason) :
    Finished platform t live (some reason) handoff (t.stopCapture platform live reason handoff) := by
  have hdisposed : (t.clear platform).1.disposed := disposed_clear hlive
  have hsilent : ((t.clear platform).1.stopRecording handoff).1.sendStopReason reason = [] := by
    refine sendStopReason_of_disposed ?_ reason
    rw [stopRecording_session]
    exact hdisposed
  unfold Session.stopCapture
  rw [if_neg (by simp [hlive])]
  refine ⟨⟨(t.clear platform).1.toSession, hdisposed, ?_⟩, ?_, ?_⟩
  · simp [endPrivSession_session, stopRecording_session, clear]
  · simp [endPrivSession_live, stopRecording_session, clear]
  · dsimp only
    rw [hsilent]
    simp [report_teardown, report_auditStopped, report_endPrivSession, report_stopRecording, endPrivSession_session,
      stopRecording_session, clear, Report.append, Report.empty]

theorem finished_dispose (hlive : t.disposed = false) :
    Finished platform t live none handoff (t.dispose platform live handoff) := by
  have hdisposed : (t.clear platform).1.disposed := disposed_clear hlive
  unfold dispose
  rw [if_neg (by simp [hlive])]
  refine ⟨⟨(t.clear platform).1.toSession, hdisposed, ?_⟩, ?_, ?_⟩
  · simp [endPrivSession_session, stopRecording_session, clear]
  · simp [endPrivSession_live, stopRecording_session, clear]
  · simp [report_auditStopped, report_endPrivSession, report_stopRecording, stopRecording_session, clear,
      Report.append, Report.empty]

end Finished

/-! ## The kinds of steps -/

/-- An end that the operator cannot tell from a failure: a refused indicator, or a revocation. -/
def Unexplained (t : Session) : Event → Prop
  | .shown ok _ _ => t.start = .showing ∧ ok = false ∧ t.disposed = false
  | .polled revoked _ => revoked = true ∧ t.disposed = false
  | _ => False

/-- What a step does but for the loop: the session goes on, and its recorder is offered something, or a capture is
answered, or the session ends. -/
inductive Taken (platform : Screen.Platform) (t : Session) (live : Nat) (e : Event) (outcome : Outcome) : Prop
  | goes (offered : Offered) (o : Screen.Session) (hdisposed : o.disposed = t.disposed)
      (hsession : outcome.session = { (t.offer offered).1 with toSession := o })
      (hcounted : outcome.liveScreenSessions = live) (htold : report outcome.acts = report (t.offer offered).2)
  | captured (result : CaptureResult) (offered : Offered) (he : e = .captured result offered)
      (hcapturing : t.capturing ≠ 0)
      (houtcome : outcome = ⟨(t.onCaptured result offered).1, live, (t.onCaptured result offered).2⟩)
  | finished (reason : Option Reason) (handoff : Handoff) (hlive : t.disposed = false)
      (hfinished : Finished platform t live reason handoff outcome)
      (hreason : ∀ r, reason = some r → ¬ Unexplained t e → r.known = none)

section Taken

variable {platform : Screen.Platform} {t : Session} {live : Nat} {e : Event}

theorem offer_skipped (t : Session) : t.offer .skipped = (t, []) := by
  unfold offer
  cases h : t.recorder with
  | none => rfl
  | some r =>
    have hsame : r.offer .skipped = (r, []) := by simp [Recorder.offer]
    simp [hsame, ← h]

/-- Only the loop of the session changes. -/
theorem Taken.quiet {o : Screen.Session} {acts : List Act} (hdisposed : o.disposed = t.disposed)
    (htold : report acts = .empty) : Taken platform t live e ⟨{ t with toSession := o }, live, acts⟩ :=
  .goes .skipped o hdisposed (by simp [offer_skipped]) rfl (by simp [offer_skipped, htold])

theorem Taken.nothing : Taken platform t live e ⟨t, live, []⟩ := .quiet rfl rfl

theorem Taken.forward (offered : Offered) {o : Screen.Outcome} (hdisposed : o.1.disposed = t.disposed) :
    Taken platform t live e ⟨(t.forward offered o).1, live, (t.forward offered o).2⟩ := by
  unfold Session.forward
  split
  · exact .goes offered o.1 hdisposed rfl rfl (by simp)
  · exact .quiet hdisposed (by simp)

theorem Taken.setQuality (fps quality : Option Nat) :
    Taken platform t live e ⟨(t.setQuality fps quality).1, live, (t.setQuality fps quality).2⟩ := by
  refine .quiet (Screen.tells_setQuality fps quality).disposed ?_
  unfold Session.setQuality
  dsimp only
  split
  · exact report_send (by simp)
  · rfl

/-- A refusal is audited before the session ends. -/
theorem Finished.refused {start : Screen.Start} {reason : Option Reason} {handoff : Handoff} {outcome : Outcome}
    (h : Finished platform { t with start := start } live reason handoff outcome) {acts : List Act}
    (hacts : report acts = .empty) :
    Finished platform t live reason handoff { outcome with acts := outcome.acts ++ acts } := by
  refine ⟨h.session, h.counted, ?_⟩
  simpa [hacts] using h.told

theorem taken_onShown (ok : Bool) (code : Str) (handoff : Handoff) :
    Taken platform t live (.shown ok code handoff) (t.onShown platform live ok code handoff) := by
  have hrefused : report [.audit ⟨.error, 0, 0, t.fps, text "indicator_unavailable:" ++ code⟩] = .empty := rfl
  unfold Session.onShown
  split
  · exact .nothing
  · rename_i hstart
    split
    · have hgoes : ¬ Screen.Ends t.toSession (.shown true) := by simp [Screen.Ends]
      exact .quiet (@Screen.tells_handle platform t.toSession (.shown true) (.inr hgoes)).disposed (by simp)
    · rename_i hok
      by_cases hdisposed : t.disposed
      · have hquiet : Taken platform t live (.shown ok code handoff) ⟨{ t with start := .over }, live, _⟩ :=
          .quiet rfl hrefused
        simpa [Session.stopCapture, hdisposed] using hquiet
      · have hlive : t.disposed = false := by simpa using hdisposed
        have hfinished := @finished_stopCapture platform { t with start := .over } live handoff hlive
          .indicatorUnavailable
        refine .finished _ _ hlive (hfinished.refused hrefused) fun r _ hexplained => ?_
        exact absurd ⟨by simpa using hstart, by simpa using hok, hlive⟩ hexplained

theorem taken_handle (e : Event) : Taken platform t live e (t.handle platform live e) := by
  cases e with
  | started => exact .forward _ (@Screen.tells_handle platform t.toSession .started (.inr id)).disposed
  | shown ok code handoff => exact taken_onShown ok code handoff
  | timer k policy => exact .forward _ (@Screen.tells_handle platform t.toSession (.timer k policy) (.inr id)).disposed
  | captured result offered =>
    by_cases hcapturing : t.capturing = 0
    · simpa [Session.handle, Session.onCaptured, hcapturing] using Taken.nothing
    · exact .captured result offered rfl hcapturing rfl
  | message message policy offered handoff =>
    unfold Session.handle Session.handleMessage
    dsimp only
    split
    · exact .nothing
    · rename_i hlive
      have hlive : t.disposed = false := by simpa using hlive
      split
      · exact .setQuality _ _
      · exact .finished _ _ hlive (finished_stopCapture hlive .operatorStopped) (by simp [Reason.known])
      · rename_i m _ hstop
        exact .forward _ (Screen.tells_handleMessage hstop policy).disposed
  | decided decision policy => exact .forward _ (Screen.tells_onDecision decision policy).disposed
  | polled revoked handoff =>
    unfold Session.handle Session.poll
    dsimp only
    split
    · exact .nothing
    · rename_i hrevoked
      have hlive : t.disposed = false := by simpa using (not_or.mp hrevoked).1
      refine .finished _ _ hlive (finished_stopCapture hlive .revokedByUser) fun r _ hexplained => ?_
      exact absurd ⟨by simpa using (not_or.mp hrevoked).2, hlive⟩ hexplained
  | channelClosed handoff =>
    by_cases hdisposed : t.disposed
    · simpa [Session.handle, Session.stopCapture, hdisposed] using Taken.nothing
    · have hlive : t.disposed = false := by simpa using hdisposed
      exact .finished _ _ hlive (finished_stopCapture hlive .dataChannelClosed) (by simp [Reason.known])
  | disposed handoff =>
    by_cases hdisposed : t.disposed
    · simpa [Session.handle, Session.dispose, hdisposed] using Taken.nothing
    · have hlive : t.disposed = false := by simpa using hdisposed
      exact .finished _ _ hlive (finished_dispose hlive) (by simp)

/-- An end that would have to be explained. -/
theorem unexplained_handle (he : Unexplained t e) : ∃ reason message, reason.known = some message ∧
      (report (t.handle platform live e).acts).teardowns = [reason] ∧
      (report (t.handle platform live e).acts).terminals = [] := by
  cases e with
  | shown ok code handoff =>
    obtain ⟨hstart, rfl, hlive⟩ := he
    have hfinished := @finished_stopCapture platform { t with start := .over } live handoff hlive .indicatorUnavailable
    refine ⟨.indicatorUnavailable, _, rfl, ?_⟩
    have hrefused : report [.audit ⟨.error, 0, 0, t.fps, text "indicator_unavailable:" ++ code⟩] = .empty := rfl
    simp [Session.handle, Session.onShown, hstart, hfinished.told, hrefused]
  | polled revoked handoff =>
    obtain ⟨rfl, hlive⟩ := he
    have hfinished := @finished_stopCapture platform t live handoff hlive .revokedByUser
    refine ⟨.revokedByUser, _, rfl, ?_⟩
    simp [Session.handle, Session.poll, hlive, hfinished.told]
  | _ => cases he

end Taken

/-! ## Captures -/

section Captures

variable {t : Session}

theorem offer_session (t : Session) (offered : Offered) :
    ∃ recorder, (t.offer offered).1 = { t with recorder := recorder } := by
  unfold offer
  split
  · exact ⟨_, rfl⟩
  · exact ⟨t.recorder, rfl⟩

/-- The loop goes on, and what a capture leaves is that of `captureFrame`. -/
theorem onCaptured_eq (hcapturing : t.capturing ≠ 0) (result : CaptureResult) (offered : Offered) :
    ∃ o : Screen.Session, o.disposed = t.disposed ∧ t.onCaptured result offered =
        ({ (t.captureFrame result offered).1 with toSession := o }, (t.captureFrame result offered).2) := by
  refine ⟨t.toSession.onCaptured.1, (@Screen.tells_handle .linux t.toSession .captured (.inr id)).disposed, ?_⟩
  unfold Session.onCaptured
  simp [hcapturing]

/-- The first frame is audited, and no other. -/
theorem announce_eq (hseq : t.seq = 0 ↔ t.auditStartedSent = false) (frame : Frame) :
    (t.announce frame).1.auditStartedSent ∧ (t.announce frame).1.privEnded = t.privEnded ∧
      (t.announce frame).1.recorder = t.recorder ∧
      report (t.announce frame).2 = ⟨if t.auditStartedSent then [] else [.started], [], [], [], 0⟩ := by
  have hinfo : report (t.send (.screenInfo frame.width frame.height t.fps frame.noUserSignedIn frame.consoleLocked)) =
      .empty := report_send (by simp)
  unfold announce
  split
  · refine ⟨rfl, rfl, rfl, ?_⟩
    simp only [report_append, hinfo]
    split <;> rfl
  · rename_i hsame
    have hstarted : t.auditStartedSent := by
      have hshown : t.seq ≠ 0 := fun hzero => hsame (.inl hzero)
      simpa [hseq] using hshown
    exact ⟨hstarted, rfl, rfl, by simp [hstarted, Report.empty]⟩

/-- A frame is counted, and offered to the recorder. -/
theorem captureFrame_frame (hseq : t.seq = 0 ↔ t.auditStartedSent = false) (frame : Frame) (offered : Offered) :
    (t.captureFrame (.frame frame) offered).1.seq = t.seq + 1 ∧
      (t.captureFrame (.frame frame) offered).1.auditStartedSent ∧
      (t.captureFrame (.frame frame) offered).1.privEnded = t.privEnded ∧
      (t.captureFrame (.frame frame) offered).1.recorder = (t.offer offered).1.recorder ∧
      report (t.captureFrame (.frame frame) offered).2 = (report (t.offer offered).2).append
        ⟨if t.auditStartedSent then [] else [.started], [], [], [], 0⟩ := by
  have hframe : report (t.send (.frame t.seq)) = .empty := report_send (by simp)
  have hannounced := @announce_eq { t with consecutiveFailures := 0, lastReportedCode := none } hseq frame
  unfold captureFrame onFrame
  dsimp only
  generalize { t with consecutiveFailures := 0, lastReportedCode := none }.announce frame = announced at hannounced ⊢
  obtain ⟨haudit, hpriv, hrecorder, htold⟩ := hannounced
  simp only [offer, hrecorder]
  split
  · exact ⟨rfl, haudit, hpriv, rfl, by simp [hframe, htold]⟩
  · exact ⟨rfl, haudit, hpriv, by simp_all, by simp [hframe, htold]⟩

/-- A failure is told as terminal by the codes that are. -/
theorem captureFrame_fails (code message : Str) (offered : Offered) :
    (t.captureFrame (.fails code message) offered).1.seq = t.seq ∧
      (t.captureFrame (.fails code message) offered).1.auditStartedSent = t.auditStartedSent ∧
      (t.captureFrame (.fails code message) offered).1.privEnded = t.privEnded ∧
      (t.captureFrame (.fails code message) offered).1.recorder = t.recorder ∧
      ∃ codes, codes ⊆ TERMINAL_CAPTURE_CODES ∧
        report (t.captureFrame (.fails code message) offered).2 = ⟨[], [], codes, [], 0⟩ := by
  have hnone : ∃ codes, codes ⊆ TERMINAL_CAPTURE_CODES ∧ report [] = ⟨[], [], codes, [], 0⟩ := ⟨[], nil_subset _, rfl⟩
  unfold captureFrame reportCaptureFailure
  dsimp only
  split
  · exact ⟨rfl, rfl, rfl, rfl, hnone⟩
  · split
    · exact ⟨rfl, rfl, rfl, rfl, hnone⟩
    · refine ⟨rfl, rfl, rfl, rfl, ?_⟩
      unfold send
      split
      · exact hnone
      · cases hterminal : TERMINAL_CAPTURE_CODES.contains code with
        | false => exact ⟨[], nil_subset _, rfl⟩
        | true => exact ⟨[code], by simpa using hterminal, rfl⟩

end Captures

end Rcp.Capture
