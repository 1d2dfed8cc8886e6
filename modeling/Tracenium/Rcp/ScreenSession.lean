-- SUMMARY: Screen sessions between their awaits: the indicator, the capture timers, the gate of the control and what a session tells the others.
import Tracenium.Rcp.ConsentPrompts

/-!
`src/plugins/rcp/screen-session.ts` and `control-consent.ts`. Each session acts by itself, and all of them
write the one indicator of the tray. Frames, audits and the recorder are left out.
-/

open Utf16
open Rcp.Consent (Decision)

namespace Rcp.Screen

inductive Platform
  | linux
  | windows
  | macos
  deriving DecidableEq

structure Policy where
  requireConsent : Bool
  serverConsole : Bool
  recordScreen : Bool

def DEFAULT_FPS : Nat := 8
def DEFAULT_QUALITY : Nat := 60
def MIN_FPS : Nat := 1
def MAX_FPS : Nat := 15
def MIN_QUALITY : Nat := 10
def MAX_QUALITY : Nat := 90
def TYPE_TEXT_MAX_CHARS : Nat := 1024

/-! ## The gate of the control -/

inductive ControlConsentState
  | notAsked
  | pending
  | granted
  | denied
  deriving DecidableEq

inductive ControlGateAction
  | forward
  | ask
  | drop
  deriving DecidableEq

def controlGate (required : Bool) (state : ControlConsentState) : ControlGateAction :=
  if !required then .forward
  else
    match state with
    | .granted => .forward
    | .notAsked => .ask
    | .pending | .denied => .drop

def stateAfterDecision (decision : Decision) : ControlConsentState :=
  if decision = .approved then .granted else .denied

def shouldNotifyOperator (prev next : ControlConsentState) : Bool := prev ≠ .denied ∧ next = .denied

/-! ## Acts -/

/-- The value that the tray is given. Its capability is `rcp.screen`. -/
structure RemoteSession where
  sessionId : Str
  operator : Str
  controlling : Bool
  recording : Bool
  startedAt : Nat
  deriving DecidableEq

inductive Method
  | inject (op : Str)
  | sas
  deriving DecidableEq

inductive Act
  | showCalled (text : Str)
  /-- `rcp.indicator.show` has succeeded. -/
  | shown
  | hidden
  | tray (value : Option RemoteSession)
  | asked
  | approved
  | captured (quality : Nat) (serverConsole : Bool)
  /-- `input.inject` or `input.sas`, and whether the consent of the user was required. -/
  | issued (method : Method) (required : Bool)
  | sentError (code : Str)
  | ended
  deriving DecidableEq

/-! ## Sessions -/

inductive Start
  | queued
  | showing
  | over
  deriving DecidableEq

/-- The timers that are set, and those of the captures that are awaited. -/
structure Session where
  sessionId : Str
  operator : Str
  startedAt : Nat
  disposed : Bool
  start : Start
  inputSeen : Bool
  controlConsent : ControlConsentState
  asking : Bool
  fps : Nat
  quality : Nat
  timers : List Nat
  captureTimer : Option Nat
  nextTimer : Nat
  capturing : Nat
  deriving DecidableEq

/-- The numbers of `setQuality` that are finite and positive. -/
inductive Message
  | setQuality (fps quality : Option Nat)
  | stop
  | input (op : Str)
  | sas
  | keyframe
  | typeText (typed : Str)
  | controlReleased
  deriving DecidableEq

/-- A session after a step, and what it did, the last act first. -/
abbrev Outcome := Session × List Act

namespace Session

def indicator (t : Session) (policy : Policy) : RemoteSession where
  sessionId := t.sessionId
  operator := t.operator
  controlling := t.inputSeen
  recording := policy.recordScreen
  startedAt := t.startedAt

def publishIndicator (t : Session) (policy : Policy) : Act := .tray (some (t.indicator policy))

/-- The constructor. -/
def opened (sessionId operator : Str) (now : Nat) (policy : Policy) : Outcome :=
  let t : Session := ⟨sessionId, operator, now, false, .queued, false, .notAsked, false, DEFAULT_FPS, DEFAULT_QUALITY,
    [], none, 0, 0⟩
  (t, [t.publishIndicator policy])

def scheduleNext (t : Session) : Session :=
  if t.disposed then t
  else
    { t with
      timers := t.nextTimer :: t.timers
      captureTimer := some t.nextTimer
      nextTimer := t.nextTimer + 1 }

def clearCaptureTimer (t : Session) : Session :=
  match t.captureTimer with
  | some k => { t with timers := t.timers.filter (· ≠ k), captureTimer := none }
  | none => t

/-- `stopCapture` and `dispose`. -/
def stopCapture (platform : Platform) (t : Session) : Outcome :=
  if t.disposed then (t, [])
  else
    ({ t.clearCaptureTimer with disposed := true },
      if platform = .linux then [.hidden, .tray none, .ended] else [.tray none, .ended])

def indicatorText (operator : Str) : Str :=
  (if trim operator = [] then text "A remote operator" else trim operator) ++ text " is viewing this screen"

/-- The callback that the constructor sets. -/
def startAfterIndicator (platform : Platform) (t : Session) : Outcome :=
  if t.start ≠ .queued then (t, [])
  else if t.disposed then ({ t with start := .over }, [])
  else if platform = .linux then ({ t with start := .showing }, [.showCalled (indicatorText t.operator)])
  else ({ t with start := .over }.scheduleNext, [])

/-- The answer of `rcp.indicator.show`. -/
def onShown (platform : Platform) (t : Session) (ok : Bool) : Outcome :=
  if t.start ≠ .showing then (t, [])
  else if ok then ({ t with start := .over }.scheduleNext, [.shown])
  else stopCapture platform { t with start := .over }

def onTimer (t : Session) (k : Nat) (policy : Policy) : Outcome :=
  if !t.timers.contains k then (t, [])
  else if t.disposed then ({ t with timers := t.timers.erase k }, [])
  else
    ({ t with timers := t.timers.erase k, capturing := t.capturing + 1 }, [.captured t.quality policy.serverConsole])

def onCaptured (t : Session) : Outcome :=
  if t.capturing = 0 then (t, []) else ({ t with capturing := t.capturing - 1 }.scheduleNext, [])

/-! ## Input -/

/-- The gate, and the indicator before the input. -/
def control (t : Session) (policy : Policy) (method : Method) : Outcome :=
  match controlGate policy.requireConsent t.controlConsent with
  | .ask => ({ t with controlConsent := .pending, asking := true }, [.asked])
  | .drop => (t, [])
  | .forward =>
    if t.inputSeen then (t, [.issued method policy.requireConsent])
    else
      let t := { t with inputSeen := true }
      (t, [.issued method policy.requireConsent, t.publishIndicator policy])

def sasAllowedHere (platform : Platform) (policy : Policy) : Bool := platform = .windows && policy.serverConsole

def typeTextAllowedHere (platform : Platform) : Bool := platform = .windows

def forwardInput (t : Session) (policy : Policy) (op : Str) : Outcome := t.control policy (.inject op)

def sendSecureAttention (platform : Platform) (t : Session) (policy : Policy) : Outcome :=
  if sasAllowedHere platform policy then t.control policy .sas else (t, [.sentError (text "sas_unsupported")])

def sendTypeText (platform : Platform) (t : Session) (policy : Policy) (typed : Str) : Outcome :=
  if typed = [] then (t, [])
  else if !typeTextAllowedHere platform then (t, [.sentError (text "type_text_unsupported")])
  else if TYPE_TEXT_MAX_CHARS < typed.length then (t, [.sentError (text "type_text_too_long")])
  else t.control policy (.inject (text "typeText"))

/-- The answer itself. -/
def answered (decision : Decision) : List Act := if decision = .approved then [.approved] else []

/-- The answer of the control prompt. A prompter that throws has denied. -/
def onDecision (t : Session) (decision : Decision) (policy : Policy) : Outcome :=
  if !t.asking then (t, [])
  else if t.disposed then ({ t with asking := false }, answered decision)
  else
    let prev := t.controlConsent
    let t := { t with asking := false, controlConsent := stateAfterDecision decision }
    if t.controlConsent = .granted then
      let t := { t with inputSeen := true }
      (t, t.publishIndicator policy :: answered decision)
    else if shouldNotifyOperator prev t.controlConsent then
      (t, [.sentError (if decision = .timeout then text "control_consent_timeout"
        else text "control_consent_denied")] ++ answered decision)
    else (t, answered decision)

/-! ## Messages -/

def setQuality (t : Session) (fps quality : Option Nat) : Session :=
  ({ t with
    fps := (fps.map fun fps => max MIN_FPS (min MAX_FPS fps)).getD t.fps
    quality := (quality.map fun quality => max MIN_QUALITY (min MAX_QUALITY quality)).getD t.quality
  }.clearCaptureTimer).scheduleNext

def controlReleased (t : Session) (policy : Policy) : Outcome :=
  if t.inputSeen then
    let t := { t with inputSeen := false }
    (t, [t.publishIndicator policy])
  else (t, [])

/-- A keyframe is asked of the next capture, whichever it is. -/
def handleMessage (platform : Platform) (t : Session) (message : Message) (policy : Policy) : Outcome :=
  if t.disposed then (t, [])
  else
    match message with
    | .setQuality fps quality => (t.setQuality fps quality, [])
    | .stop => stopCapture platform t
    | .input op => t.forwardInput policy op
    | .sas => sendSecureAttention platform t policy
    | .keyframe => (t, [])
    | .typeText typed => sendTypeText platform t policy typed
    | .controlReleased => t.controlReleased policy

end Session

/-! ## The machine -/

structure State where
  now : Nat
  sessions : List Session
  history : List (Nat × Act)

inductive Event
  | started
  | shown (ok : Bool)
  | timer (k : Nat) (policy : Policy)
  | captured
  | message (message : Message) (policy : Policy)
  | decided (decision : Decision) (policy : Policy)
  /-- The channel closes, the user revokes, the peer is disposed. -/
  | ended

def Session.handle (platform : Platform) (t : Session) (e : Event) : Outcome :=
  match e with
  | .started => startAfterIndicator platform t
  | .shown ok => onShown platform t ok
  | .timer k policy => t.onTimer k policy
  | .captured => t.onCaptured
  | .message message policy => handleMessage platform t message policy
  | .decided decision policy => t.onDecision decision policy
  | .ended => stopCapture platform t

inductive Input
  | opens (sessionId operator : Str) (policy : Policy)
  | on (i : Nat) (e : Event)
  | tick (d : Nat)

def State.record (s : State) (i : Nat) (acts : List Act) : List (Nat × Act) := acts.map (i, ·) ++ s.history

def step (platform : Platform) (s : State) (input : Input) : State :=
  match input with
  | .opens sessionId operator policy =>
    let outcome := Session.opened sessionId operator s.now policy
    { s with sessions := s.sessions ++ [outcome.1], history := s.record s.sessions.length outcome.2 }
  | .on i e =>
    match s.sessions[i]? with
    | some t =>
      let outcome := t.handle platform e
      { s with sessions := s.sessions.set i outcome.1, history := s.record i outcome.2 }
    | none => s
  | .tick d => { s with now := s.now + d }

def machine (platform : Platform) : Machine State Input where
  init := ⟨0, [], []⟩
  step := step platform

end Rcp.Screen
