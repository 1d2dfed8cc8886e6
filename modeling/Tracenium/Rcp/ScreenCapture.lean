-- SUMMARY: Whole screen sessions: frames, audits, the recorder, the end of a session, and the count that the sessions of a process share.
import Tracenium.Lib.Logs
import Tracenium.Rcp.Recordings
import Tracenium.Rcp.ScreenSession

/-!
The rest of `src/plugins/rcp/screen-session.ts`: what a session of `Screen` does with the frames it captures,
and how it ends. Intervals, keyframes, statistics and the payloads of the frames are left out.
-/

open Utf16
open Rcp.Consent (Decision)
open Rcp.Recording (StopReason)
open Rcp.Screen (Policy Message)

namespace Rcp.Capture

def NO_FRAME_CODE : Str := text "screen_capture_no_frame"
def TRANSIENT_ERROR_TOLERANCE : Nat := 5

def TERMINAL_CAPTURE_CODES : List Str :=
  [text "no_interactive_desktop", text "wayland_unsupported", text "no_screen_recording_permission",
   text "screen_recording_permission_pending", text "screen_capture_helper_missing",
   text "screen_capture_init_failed", text "screen_capture_no_display",
   text "screen_capture_unsupported_adapter", text "screen_capture_access_denied", text "x11_connect_failed",
   text "indicator_gone"]

/-! ## Acts -/

inductive AuditEvent
  | started
  | stopped
  | error
  deriving DecidableEq

structure Audit where
  event : AuditEvent
  width : Nat
  height : Nat
  fps : Nat
  errorMessage : Str
  deriving DecidableEq

/-- A message of the data channel. Where the frames are cut is left out. -/
inductive Sent
  | screenInfo (width height fps : Nat) (noUserSignedIn consoleLocked : Bool)
  | frame (seq : Nat)
  | error (code message : Str) (terminal : Bool)
  deriving DecidableEq

inductive Reason
  | operatorStopped
  | revokedByUser
  | indicatorUnavailable
  | dataChannelClosed
  deriving DecidableEq

def Reason.code : Reason → Str
  | .operatorStopped => text "operator_stopped"
  | .revokedByUser => text "revoked_by_user"
  | .indicatorUnavailable => text "indicator_unavailable"
  | .dataChannelClosed => text "data_channel_closed"

/-- What the operator cannot tell without being told. -/
def Reason.known : Reason → Option Str
  | .revokedByUser => some (text ("The person using this device ended the session from the on-screen " ++
      "banner. This was their decision, not a connection problem — reopening " ++
      "without asking them first is not appropriate."))
  | .indicatorUnavailable => some (text ("The session was refused because the device could not show the " ++
      "on-screen notice telling the user they are being viewed."))
  | .operatorStopped | .dataChannelClosed => none

inductive Act
  | screen (act : Screen.Act)
  | sent (message : Sent)
  | audit (audit : Audit)
  | recorderStarted
  | recorderStopped
  /-- The key is handed to the control plane, and the file marked. -/
  | handedOff
  | removed
  /-- `screen.end` is called. -/
  | screenEnd
  /-- The teardown is queued. -/
  | teardown (reason : Reason)
  deriving DecidableEq

/-! ## The recorder -/

structure Recorder where
  wroteAnything : Bool
  stopped : Option StopReason
  deriving DecidableEq

/-- What becomes of a record: a keyframe that comes too soon is skipped, a gate may refuse it. -/
inductive Offered
  | skipped
  | written
  | refused (reason : StopReason)
  deriving DecidableEq

namespace Recorder

def finishWith (r : Recorder) (reason : StopReason) : Recorder × List Act :=
  ({ r with stopped := r.stopped.or (some reason) }, if r.wroteAnything then [] else [.removed])

/-- `offer` and `offerInput`. -/
def offer (r : Recorder) (offered : Offered) : Recorder × List Act :=
  if r.stopped.isSome then (r, [])
  else
    match offered with
    | .skipped => (r, [])
    | .written => ({ r with wroteAnything := true }, [])
    | .refused reason => r.finishWith reason

end Recorder

def stopReasonText : StopReason → Str
  | .sessionEnded => text "session_ended"
  | .sessionCap => text "session_cap"
  | .totalCap => text "total_cap"
  | .diskLow => text "disk_low"
  | .writeError => text "write_error"

/-- Whether there is a channel for the key, and what the call of it does. -/
inductive Handoff
  | unwired
  | throws
  | sent
  deriving DecidableEq

def handOffRecording : Handoff → List Act
  | .unwired | .throws => [.removed]
  | .sent => [.handedOff]

/-! ## Sessions -/

structure Frame where
  width : Nat
  height : Nat
  noUserSignedIn : Bool
  consoleLocked : Bool
  deriving DecidableEq

inductive CaptureResult
  | frame (frame : Frame)
  | fails (code message : Str)
  deriving DecidableEq

structure Session extends Screen.Session where
  seq : Nat
  lastWidth : Nat
  lastHeight : Nat
  lastNoUserSignedIn : Bool
  lastConsoleLocked : Bool
  auditStartedSent : Bool
  consecutiveFailures : Nat
  lastReportedCode : Option Str
  recorder : Option Recorder
  privEnded : Bool
  deriving DecidableEq

/-- A session after a step, the sessions that the process counts as live, and what was done, the last act first. -/
structure Outcome where
  session : Session
  liveScreenSessions : Nat
  acts : List Act

namespace Session

def send (t : Session) (message : Sent) : List Act := if t.disposed then [] else [.sent message]

def sendScreenAudit (t : Session) (event : AuditEvent) (errorMessage : Str) : Act :=
  .audit ⟨event, t.lastWidth, t.lastHeight, t.fps, errorMessage⟩

/-- The constructor. A recorder that does not start is forgotten. -/
def opened (sessionId operator : Str) (now : Nat) (policy : Policy) (starts : Bool) : Session × List Act :=
  let t := Screen.Session.opened sessionId operator now policy
  let recording := policy.recordScreen && starts
  (⟨t.1, 0, 0, 0, false, false, false, 0, none, if recording then some ⟨false, none⟩ else none, false⟩,
    (if recording then [.recorderStarted] else []) ++ t.2.map .screen)

/-! ## Captures -/

def reportCaptureFailure (t : Session) (code message : Str) : Session × List Act :=
  if code = NO_FRAME_CODE then (t, [])
  else
    let terminal := TERMINAL_CAPTURE_CODES.contains code
    let t := { t with consecutiveFailures := t.consecutiveFailures + 1 }
    if (!terminal && decide (t.consecutiveFailures < TRANSIENT_ERROR_TOLERANCE)) || t.lastReportedCode = some code then
      (t, [])
    else ({ t with lastReportedCode := some code }, t.send (.error code message terminal))

/-- `screenInfo` and the audit, where a frame is the first one or unlike the last. -/
def announce (t : Session) (frame : Frame) : Session × List Act :=
  if t.seq = 0 ∨ frame.width ≠ t.lastWidth ∨ frame.height ≠ t.lastHeight ∨
      frame.noUserSignedIn ≠ t.lastNoUserSignedIn ∨ frame.consoleLocked ≠ t.lastConsoleLocked then
    ({ t with
        lastNoUserSignedIn := frame.noUserSignedIn
        lastConsoleLocked := frame.consoleLocked
        auditStartedSent := true
        lastWidth := frame.width
        lastHeight := frame.height },
      (if t.auditStartedSent then [] else [.audit ⟨.started, frame.width, frame.height, t.fps, []⟩]) ++
        t.send (.screenInfo frame.width frame.height t.fps frame.noUserSignedIn frame.consoleLocked))
  else (t, [])

def offer (t : Session) (offered : Offered) : Session × List Act :=
  match t.recorder with
  | some r => ({ t with recorder := some (r.offer offered).1 }, (r.offer offered).2)
  | none => (t, [])

/-- A capture with an image. -/
def onFrame (t : Session) (frame : Frame) (offered : Offered) : Session × List Act :=
  let announced := { t with consecutiveFailures := 0, lastReportedCode := none }.announce frame
  let recorded := { announced.1 with seq := t.seq + 1 }.offer offered
  (recorded.1, t.send (.frame t.seq) ++ recorded.2 ++ announced.2)

/-- `captureFrame` from its answer on. -/
def captureFrame (t : Session) (result : CaptureResult) (offered : Offered) : Session × List Act :=
  match result with
  | .frame frame => t.onFrame frame offered
  | .fails code message => t.reportCaptureFailure code message

/-- A capture is answered, and the loop goes on. -/
def onCaptured (t : Session) (result : CaptureResult) (offered : Offered) : Session × List Act :=
  if t.capturing = 0 then (t, [])
  else
    let captured := t.captureFrame result offered
    ({ captured.1 with toSession := captured.1.toSession.onCaptured.1 }, captured.2)

/-! ## The end -/

/-- The recorder is let go of before it is stopped. -/
def stopRecording (t : Session) (handoff : Handoff) : Session × List Act :=
  match t.recorder with
  | none => (t, [])
  | some r =>
    let reason := r.stopped.getD .sessionEnded
    let truncated := if reason ≠ .sessionEnded then
      [t.sendScreenAudit .error (text "recording_truncated:" ++ stopReasonText reason)] else []
    ({ t with recorder := none },
      truncated ++ (if r.wroteAnything then handOffRecording handoff else []) ++ (r.finishWith reason).2 ++
        [.recorderStopped])

def sendStopReason (t : Session) (reason : Reason) : List Act :=
  match reason.known with
  | some message => t.send (.error reason.code message true)
  | none => []

def endPrivSession (platform : Screen.Platform) (t : Session) (liveScreenSessions : Nat) : Outcome :=
  if t.privEnded then ⟨t, liveScreenSessions, []⟩
  else
    ⟨{ t with privEnded := true }, liveScreenSessions - 1,
      if 0 < liveScreenSessions - 1 ∨ platform ≠ .windows then [] else [.screenEnd]⟩

/-- The audit of a session that has shown something. -/
def auditStopped (t : Session) : List Act := if t.auditStartedSent then [t.sendScreenAudit .stopped []] else []

/-- The session is disposed, and its timer and its indicator cleared. -/
def clear (platform : Screen.Platform) (t : Session) : Session × List Act :=
  let cleared := t.toSession.stopCapture platform
  ({ t with toSession := cleared.1 }, cleared.2.map .screen)

def stopCapture (platform : Screen.Platform) (t : Session) (liveScreenSessions : Nat) (reason : Reason)
    (handoff : Handoff) : Outcome :=
  if t.disposed then ⟨t, liveScreenSessions, []⟩
  else
    let cleared := t.clear platform
    let stopped := cleared.1.stopRecording handoff
    let ended := stopped.1.endPrivSession platform liveScreenSessions
    { ended with
      acts := .teardown reason :: ended.session.auditStopped ++ ended.acts ++ stopped.1.sendStopReason reason ++
        stopped.2 ++ cleared.2 }

/-- Its reason is for the log only. -/
def dispose (platform : Screen.Platform) (t : Session) (liveScreenSessions : Nat) (handoff : Handoff) : Outcome :=
  if t.disposed then ⟨t, liveScreenSessions, []⟩
  else
    let cleared := t.clear platform
    let stopped := cleared.1.stopRecording handoff
    let ended := stopped.1.endPrivSession platform liveScreenSessions
    { ended with acts := ended.acts ++ stopped.1.auditStopped ++ stopped.2 ++ cleared.2 }

/-- The answer of `rcp.indicator.show`. -/
def onShown (platform : Screen.Platform) (t : Session) (liveScreenSessions : Nat) (ok : Bool) (code : Str)
    (handoff : Handoff) : Outcome :=
  if t.start ≠ .showing then ⟨t, liveScreenSessions, []⟩
  else if ok then
    let shown := t.toSession.onShown platform true
    ⟨{ t with toSession := shown.1 }, liveScreenSessions, shown.2.map .screen⟩
  else
    let refused := .audit ⟨.error, 0, 0, t.fps, text "indicator_unavailable:" ++ code⟩
    let ended := stopCapture platform { t with start := .over } liveScreenSessions .indicatorUnavailable handoff
    { ended with acts := ended.acts ++ [refused] }

/-- A turn of the revoke watch. -/
def poll (platform : Screen.Platform) (t : Session) (liveScreenSessions : Nat) (revoked : Bool) (handoff : Handoff) :
    Outcome :=
  if t.disposed ∨ revoked = false then ⟨t, liveScreenSessions, []⟩
  else t.stopCapture platform liveScreenSessions .revokedByUser handoff

/-! ## Messages -/

/-- A frame rate that is not the one asked for is told. -/
def setQuality (t : Session) (fps quality : Option Nat) : Session × List Act :=
  let set := t.toSession.setQuality fps quality
  ({ t with toSession := set },
    if set.fps ≠ t.fps ∧ 0 < t.seq then
      t.send (.screenInfo t.lastWidth t.lastHeight set.fps t.lastNoUserSignedIn t.lastConsoleLocked)
    else [])

def isIssued : Screen.Act → Bool
  | .issued _ _ => true
  | _ => false

/-- Input and consent are those of the session of `Screen`. What is issued is recorded. -/
def forward (t : Session) (offered : Offered) (outcome : Screen.Outcome) : Session × List Act :=
  let recorded := if outcome.2.any isIssued then t.offer offered else (t, [])
  ({ recorded.1 with toSession := outcome.1 }, recorded.2 ++ outcome.2.map .screen)

def handleMessage (platform : Screen.Platform) (t : Session) (liveScreenSessions : Nat) (message : Message)
    (policy : Policy) (offered : Offered) (handoff : Handoff) : Outcome :=
  if t.disposed then ⟨t, liveScreenSessions, []⟩
  else
    match message with
    | .setQuality fps quality =>
      let set := t.setQuality fps quality
      ⟨set.1, liveScreenSessions, set.2⟩
    | .stop => t.stopCapture platform liveScreenSessions .operatorStopped handoff
    | message =>
      let forwarded := t.forward offered (t.toSession.handleMessage platform message policy)
      ⟨forwarded.1, liveScreenSessions, forwarded.2⟩

end Session

/-! ## The machine -/

inductive Event
  | started
  | shown (ok : Bool) (code : Str) (handoff : Handoff)
  | timer (k : Nat) (policy : Policy)
  | captured (result : CaptureResult) (offered : Offered)
  | message (message : Message) (policy : Policy) (offered : Offered) (handoff : Handoff)
  | decided (decision : Decision) (policy : Policy)
  | polled (revoked : Bool) (handoff : Handoff)
  | channelClosed (handoff : Handoff)
  | disposed (handoff : Handoff)

def Session.handle (platform : Screen.Platform) (t : Session) (liveScreenSessions : Nat) (e : Event) : Outcome :=
  let within (outcome : Session × List Act) : Outcome := ⟨outcome.1, liveScreenSessions, outcome.2⟩
  match e with
  | .started => within (t.forward .skipped (t.toSession.startAfterIndicator platform))
  | .shown ok code handoff => t.onShown platform liveScreenSessions ok code handoff
  | .timer k policy => within (t.forward .skipped (t.toSession.onTimer k policy))
  | .captured result offered => within (t.onCaptured result offered)
  | .message message policy offered handoff =>
    t.handleMessage platform liveScreenSessions message policy offered handoff
  | .decided decision policy => within (t.forward .skipped (t.toSession.onDecision decision policy))
  | .polled revoked handoff => t.poll platform liveScreenSessions revoked handoff
  | .channelClosed handoff => t.stopCapture platform liveScreenSessions .dataChannelClosed handoff
  | .disposed handoff => t.dispose platform liveScreenSessions handoff

structure State where
  now : Nat
  sessions : List Session
  liveScreenSessions : Nat
  history : List (Nat × Act)

inductive Input
  | opens (sessionId operator : Str) (policy : Policy) (starts : Bool)
  | on (i : Nat) (e : Event)
  | tick (d : Nat)

def State.record (s : State) (i : Nat) (acts : List Act) : List (Nat × Act) := acts.map (i, ·) ++ s.history

def step (platform : Screen.Platform) (s : State) (input : Input) : State :=
  match input with
  | .opens sessionId operator policy starts =>
    let opened := Session.opened sessionId operator s.now policy starts
    { s with
      sessions := s.sessions ++ [opened.1]
      liveScreenSessions := s.liveScreenSessions + 1
      history := s.record s.sessions.length opened.2 }
  | .on i e =>
    match s.sessions[i]? with
    | some t =>
      let outcome := t.handle platform s.liveScreenSessions e
      { s with
        sessions := s.sessions.set i outcome.session
        liveScreenSessions := outcome.liveScreenSessions
        history := s.record i outcome.acts }
    | none => s
  | .tick d => { s with now := s.now + d }

def machine (platform : Screen.Platform) : Machine State Input where
  init := ⟨0, [], 0, []⟩
  step := step platform

end Rcp.Capture
