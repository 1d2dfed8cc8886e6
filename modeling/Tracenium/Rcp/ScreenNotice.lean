-- SUMMARY: When nobody is watched or controlled without notice and consent: what each session keeps, and what the sessions do to the one indicator.
import Tracenium.Lib.Logs
import Tracenium.Lib.Locks
import Tracenium.Rcp.ScreenSession

/-! The indicator of the tray is the last value that any session gave. -/

open Utf16 List
open Rcp.Consent (Decision)

namespace Rcp.Screen

open Session State

/-- The value that the tray was given last. -/
def trayOf (acts : List Act) : Option (Option RemoteSession) :=
  acts.findSome? fun
    | .tray value => some value
    | _ => none

/-- The indicator that a session published last. -/
def published (acts : List Act) : Option RemoteSession :=
  acts.findSome? fun
    | .tray value => value
    | _ => none

namespace State

def log (s : State) (i : Nat) : List Act := (s.history.filter fun e => e.1 = i).map Prod.snd

def tray (s : State) : Option (Option RemoteSession) := trayOf (s.history.map Prod.snd)

def Live (s : State) (i : Nat) (t : Session) : Prop := s.sessions[i]? = some t ∧ t.disposed = false

end State

/-- What must have been done before an act. -/
def Permits (platform : Platform) (before : List Act) : Act → Prop
  | .captured _ _ => (platform = .linux → .shown ∈ before) ∧ .ended ∉ before
  | .issued _ required =>
    (required = true → .approved ∈ before) ∧ ∃ v, published before = some v ∧ v.controlling = true
  | _ => True

/-- Nobody is watched or controlled without notice and consent. -/
structure Noticed (platform : Platform) (s : State) : Prop where
  permitted : ∀ i, Each (Permits platform) (s.log i)
  asked : ∀ i, (s.log i).count .asked ≤ 1
  tray : ∀ i t, s.Live i t → ∃ v j u, s.tray = some (some v) ∧ s.Live j u ∧ v.sessionId = u.sessionId

/-! ## One session -/

/-- What a session and its log keep. -/
structure Session.Sound (platform : Platform) (t : Session) (log : List Act) : Prop where
  permitted : Each (Permits platform) log
  ended : .ended ∈ log → t.disposed = true
  shown : platform = .linux → t.disposed = false → t.start = .over ∨ t.timers ≠ [] ∨ t.capturing ≠ 0 → .shown ∈ log
  published : ∃ v, published log = some v ∧ v.controlling = t.inputSeen
  granted : t.controlConsent = .granted → .approved ∈ log
  asked : log.count .asked ≤ 1
  unasked : t.controlConsent = .notAsked → log.count .asked = 0

section Sound

variable {platform : Platform} {t : Session} {log : List Act}

theorem Session.Sound.opened (sessionId operator : Str) (now : Nat) (policy : Policy) :
    Sound platform (opened sessionId operator now policy).1 (opened sessionId operator now policy).2 where
  permitted := by simp [Session.opened, Session.publishIndicator, Permits]
  ended := by simp [Session.opened, Session.publishIndicator]
  shown := by simp [Session.opened]
  published := by simp [Session.opened, Session.publishIndicator, Screen.published, Session.indicator]
  granted := by simp [Session.opened]
  asked := by simp [Session.opened, Session.publishIndicator]
  unasked := by simp [Session.opened, Session.publishIndicator]

/-- A timer is set by a session that shows its indicator. -/
theorem Session.Sound.scheduleNext (hs : t.Sound platform log)
    (hshown : platform = .linux → t.disposed = false → .shown ∈ log) : t.scheduleNext.Sound platform log := by
  unfold Session.scheduleNext
  split
  · exact hs
  · exact { hs with shown := fun hlinux hlive _ => hshown hlinux hlive }

theorem Session.Sound.clearCaptureTimer (hs : t.Sound platform log) : t.clearCaptureTimer.Sound platform log := by
  unfold Session.clearCaptureTimer
  split
  · refine { hs with shown := fun hlinux hlive h => hs.shown hlinux hlive (h.imp id (.imp (fun hne heq => hne ?_) id)) }
    simp [show t.timers = [] from heq]
  · exact hs

/-- Acts that no condition is about. -/
def Act.IsInert : Act → Prop
  | .showCalled _ | .shown | .hidden | .tray none | .sentError _ => True
  | _ => False

theorem Session.Sound.inert (hs : t.Sound platform log) {act : Act} (hact : act.IsInert) :
    t.Sound platform (act :: log) := by
  have hended : act ≠ .ended ∧ act ≠ .asked ∧ Permits platform log act ∧
      Screen.published (act :: log) = Screen.published log := by
    cases act with
    | tray value =>
      cases value with
      | none => simp [Permits, Screen.published]
      | some => cases hact
    | captured | issued | asked | approved | ended => cases hact
    | _ => simp [Permits, Screen.published]
  obtain ⟨hended, hasked, hpermits, hpublished⟩ := hended
  exact
    { permitted := each_cons.mpr ⟨hpermits, hs.permitted⟩
      ended := fun hmem => hs.ended (by simpa [hended.symm] using hmem)
      shown := fun hlinux hlive h => mem_cons_of_mem _ (hs.shown hlinux hlive h)
      published := hpublished ▸ hs.published
      granted := fun h => mem_cons_of_mem _ (hs.granted h)
      asked := by simpa [hasked] using hs.asked
      unasked := fun h => by simpa [hasked] using hs.unasked h }

/-- A session ends, whether its indicator is shown or not. -/
theorem Session.Sound.ends (hs : t.Sound platform log) (start : Start) :
    Sound platform { t with start := start, disposed := true } (.ended :: log) where
  permitted := each_cons.mpr ⟨trivial, hs.permitted⟩
  ended _ := rfl
  shown _ h := by cases h
  published := hs.published
  granted h := mem_cons_of_mem _ (hs.granted h)
  asked := by simpa using hs.asked
  unasked h := by simpa using hs.unasked h

theorem Session.Sound.stopCapture (hs : t.Sound platform log) (start : Start) :
    (stopCapture platform { t with start := start }).1.Sound platform
      ((stopCapture platform { t with start := start }).2 ++ log) := by
  unfold Session.stopCapture
  split
  · rename_i hdisposed
    exact { hs with shown := fun _ hlive => by simp [show t.disposed from hdisposed] at hlive }
  · have hclear : ({ t with start := start } : Session).clearCaptureTimer =
        { t.clearCaptureTimer with start := start } := by
      cases hcapture : t.captureTimer <;> simp [Session.clearCaptureTimer, hcapture]
    have hinert : Act.IsInert (.tray none) := trivial
    have hends := (hs.clearCaptureTimer.ends start).inert hinert
    rw [hclear]
    dsimp only
    split
    · exact hends.inert trivial
    · exact hends

theorem Session.Sound.startAfterIndicator (hs : t.Sound platform log) :
    (startAfterIndicator platform t).1.Sound platform ((startAfterIndicator platform t).2 ++ log) := by
  unfold Session.startAfterIndicator
  split
  · exact hs
  · split
    · rename_i hdisposed
      exact { hs with shown := fun _ hlive => by simp [hdisposed] at hlive }
    · split
      · refine Sound.inert ?_ trivial
        exact { hs with shown := fun hlinux hlive h => hs.shown hlinux hlive (h.imp nofun id) }
      · rename_i hlinux
        have hover : Sound platform { t with start := .over } log :=
          { hs with shown := fun h => absurd h hlinux }
        exact hover.scheduleNext fun h => absurd h hlinux

theorem Session.Sound.onShown (hs : t.Sound platform log) (ok : Bool) :
    (onShown platform t ok).1.Sound platform ((onShown platform t ok).2 ++ log) := by
  unfold Session.onShown
  split
  · exact hs
  · split
    · have hover : Sound platform { t with start := .over } (.shown :: log) :=
        { hs.inert (show Act.IsInert .shown from trivial) with shown := fun _ _ _ => mem_cons_self }
      exact hover.scheduleNext fun _ _ => mem_cons_self
    · exact hs.stopCapture .over

theorem Session.Sound.onTimer (hs : t.Sound platform log) (k : Nat) (policy : Policy) :
    (t.onTimer k policy).1.Sound platform ((t.onTimer k policy).2 ++ log) := by
  unfold Session.onTimer
  split
  · exact hs
  · rename_i hset
    have hne : t.timers ≠ [] := by
      intro heq
      simp [heq] at hset
    split
    · rename_i hdisposed
      exact { hs with shown := fun _ hlive => by simp [hdisposed] at hlive }
    · rename_i hlive
      have hshown : platform = .linux → .shown ∈ log := fun hlinux =>
        hs.shown hlinux (by simpa using hlive) (.inr (.inl hne))
      exact
        { permitted := each_cons.mpr ⟨⟨hshown, fun hended => hlive (hs.ended hended)⟩, hs.permitted⟩
          ended := fun hmem => hs.ended (by simpa using hmem)
          shown := fun hlinux _ _ => mem_cons_of_mem _ (hshown hlinux)
          published := hs.published
          granted := fun h => mem_cons_of_mem _ (hs.granted h)
          asked := by simpa using hs.asked
          unasked := fun h => by simpa using hs.unasked h }

theorem Session.Sound.onCaptured (hs : t.Sound platform log) :
    t.onCaptured.1.Sound platform (t.onCaptured.2 ++ log) := by
  unfold Session.onCaptured
  split
  · exact hs
  · rename_i hcapturing
    have hone : Sound platform { t with capturing := t.capturing - 1 } log :=
      { hs with shown := fun hlinux hlive _ => hs.shown hlinux hlive (.inr (.inr hcapturing)) }
    exact hone.scheduleNext fun hlinux hlive => hs.shown hlinux hlive (.inr (.inr hcapturing))

/-- The indicator is published as the session is. -/
theorem Session.Sound.publishIndicator (hs : t.Sound platform log) (t' : Session) (policy : Policy)
    (hsame : t'.disposed = t.disposed ∧ t'.start = t.start ∧ t'.timers = t.timers ∧ t'.capturing = t.capturing)
    (hgranted : t'.controlConsent = .granted → .approved ∈ log)
    (hunasked : t'.controlConsent = .notAsked → log.count .asked = 0) :
    t'.Sound platform (t'.publishIndicator policy :: log) := by
  obtain ⟨hdisposed, hstart, htimers, hcapturing⟩ := hsame
  exact
    { permitted := each_cons.mpr ⟨trivial, hs.permitted⟩
      ended := fun hmem => hdisposed ▸ hs.ended (by simpa [Session.publishIndicator] using hmem)
      shown := fun hlinux hlive h => mem_cons_of_mem _
        (hs.shown hlinux (hdisposed ▸ hlive) (by rwa [hstart, htimers, hcapturing] at h))
      published := ⟨t'.indicator policy, rfl, rfl⟩
      granted := fun h => mem_cons_of_mem _ (hgranted h)
      asked := by simpa [Session.publishIndicator] using hs.asked
      unasked := fun h => by simpa [Session.publishIndicator] using hunasked h }

theorem controlGate_forward {required : Bool} {state : ControlConsentState}
    (h : controlGate required state = .forward) (hrequired : required) : state = .granted := by
  cases state <;> simp_all [controlGate]

theorem controlGate_ask {required : Bool} {state : ControlConsentState} (h : controlGate required state = .ask) :
    state = .notAsked := by
  cases required <;> cases state <;> simp_all [controlGate]

/-- Input is issued with the permission and with the indicator up. -/
theorem Session.Sound.issue (hs : t.Sound platform log) (hseen : t.inputSeen) {method : Method}
    {required : Bool} (happroved : required → .approved ∈ log) :
    t.Sound platform (.issued method required :: log) := by
  obtain ⟨v, hv, hcontrolling⟩ := hs.published
  exact
    { permitted := each_cons.mpr ⟨⟨happroved, v, hv, hcontrolling.trans hseen⟩, hs.permitted⟩
      ended := fun hmem => hs.ended (by simpa using hmem)
      shown := fun hlinux hlive h => mem_cons_of_mem _ (hs.shown hlinux hlive h)
      published := hs.published
      granted := fun h => mem_cons_of_mem _ (hs.granted h)
      asked := by simpa using hs.asked
      unasked := fun h => by simpa using hs.unasked h }

theorem Session.Sound.control (hs : t.Sound platform log) (policy : Policy) (method : Method) :
    (t.control policy method).1.Sound platform ((t.control policy method).2 ++ log) := by
  unfold Session.control
  split
  · rename_i hask
    have hzero := hs.unasked (controlGate_ask hask)
    exact
      { permitted := each_cons.mpr ⟨trivial, hs.permitted⟩
        ended := fun hmem => hs.ended (by simpa using hmem)
        shown := fun hlinux hlive h => mem_cons_of_mem _ (hs.shown hlinux hlive h)
        published := hs.published
        granted := nofun
        asked := by simp [hzero]
        unasked := fun h => by cases h }
  · exact hs
  · rename_i hforward
    have happroved : policy.requireConsent → .approved ∈ log := fun hrequired =>
      hs.granted (controlGate_forward hforward hrequired)
    split
    · rename_i hseen
      exact hs.issue hseen happroved
    · have hpublish := hs.publishIndicator { t with inputSeen := true } policy ⟨rfl, rfl, rfl, rfl⟩ hs.granted
        hs.unasked
      exact hpublish.issue rfl fun hrequired => mem_cons_of_mem _ (happroved hrequired)

theorem Session.Sound.sendSecureAttention (hs : t.Sound platform log) (policy : Policy) :
    (sendSecureAttention platform t policy).1.Sound platform ((sendSecureAttention platform t policy).2 ++ log) := by
  unfold Session.sendSecureAttention
  split
  · exact hs.control policy .sas
  · exact hs.inert trivial

theorem Session.Sound.sendTypeText (hs : t.Sound platform log) (policy : Policy) (typed : Str) :
    (sendTypeText platform t policy typed).1.Sound platform ((sendTypeText platform t policy typed).2 ++ log) := by
  unfold Session.sendTypeText
  split
  · exact hs
  · split
    · exact hs.inert trivial
    · split
      · exact hs.inert trivial
      · exact hs.control policy (.inject (text "typeText"))

theorem Session.Sound.controlReleased (hs : t.Sound platform log) (policy : Policy) :
    (t.controlReleased policy).1.Sound platform ((t.controlReleased policy).2 ++ log) := by
  unfold Session.controlReleased
  split
  · exact hs.publishIndicator _ policy ⟨rfl, rfl, rfl, rfl⟩ hs.granted hs.unasked
  · exact hs

theorem Session.Sound.onDecision (hs : t.Sound platform log) (decision : Decision) (policy : Policy) :
    (t.onDecision decision policy).1.Sound platform ((t.onDecision decision policy).2 ++ log) := by
  have happroves : Sound platform { t with asking := false } (.approved :: log) :=
    { permitted := each_cons.mpr ⟨trivial, hs.permitted⟩
      ended := fun hmem => hs.ended (by simpa using hmem)
      shown := fun hlinux hlive h => mem_cons_of_mem _ (hs.shown hlinux hlive h)
      published := hs.published
      granted := fun _ => mem_cons_self
      asked := by simpa using hs.asked
      unasked := fun h => by simpa using hs.unasked h }
  unfold Session.onDecision
  split
  · exact hs
  · dsimp only
    by_cases happroved : decision = .approved
    · simp only [happroved]
      split
      · exact happroves
      · exact happroves.publishIndicator _ policy ⟨rfl, rfl, rfl, rfl⟩ (fun _ => mem_cons_self)
          nofun
    · simp only [happroved, stateAfterDecision, answered, if_false]
      have hdenied : Sound platform { t with asking := false, controlConsent := .denied } log :=
        { hs with
          granted := nofun
          unasked := fun h => by cases h }
      split
      · exact { hs with }
      · split
        · rename_i hgranted
          cases hgranted
        · split
          · exact hdenied.inert trivial
          · exact hdenied

/-- A message that is no change of quality, or that comes once the indicator is shown. -/
theorem Session.Sound.handleMessage (hs : t.Sound platform log) {message : Message} {policy : Policy}
    (hshown : ∀ fps quality, message = .setQuality fps quality → platform = .linux → t.disposed = false →
      t.start = .over) :
    (handleMessage platform t message policy).1.Sound platform ((handleMessage platform t message policy).2 ++ log) := by
  unfold Session.handleMessage
  split
  · exact hs
  · cases message with
    | setQuality fps quality =>
      have hquality : Sound platform { t with
          fps := (fps.map fun fps => max MIN_FPS (min MAX_FPS fps)).getD t.fps
          quality := (quality.map fun quality => max MIN_QUALITY (min MAX_QUALITY quality)).getD t.quality } log :=
        { hs with }
      refine hquality.clearCaptureTimer.scheduleNext fun hlinux _ => ?_
      have hlive : t.disposed = false := by simpa using ‹¬t.disposed›
      exact hs.shown hlinux hlive (.inl (hshown fps quality rfl hlinux hlive))
    | stop => exact hs.stopCapture t.start
    | input op => exact hs.control policy (.inject op)
    | sas => exact hs.sendSecureAttention policy
    | keyframe => exact hs
    | typeText typed => exact hs.sendTypeText policy typed
    | controlReleased => exact hs.controlReleased policy

/-- A change of quality that comes while the indicator is not shown. -/
def Early (platform : Platform) (t : Session) : Event → Prop
  | .message (.setQuality _ _) _ => platform = .linux ∧ t.disposed = false ∧ t.start ≠ .over
  | _ => False

theorem Session.Sound.handle (hs : t.Sound platform log) {e : Event} (he : ¬ Early platform t e) :
    (t.handle platform e).1.Sound platform ((t.handle platform e).2 ++ log) := by
  cases e with
  | started => exact hs.startAfterIndicator
  | shown ok => exact hs.onShown ok
  | timer k policy => exact hs.onTimer k policy
  | captured => exact hs.onCaptured
  | message message policy =>
    refine hs.handleMessage fun fps quality hmessage hlinux hlive => ?_
    subst hmessage
    by_contra hstart
    exact he ⟨hlinux, hlive, hstart⟩
  | decided decision policy => exact hs.onDecision decision policy
  | ended => exact hs.stopCapture t.start

end Sound

/-! ## The indicator of the tray -/

def Ends (t : Session) : Event → Prop
  | .shown ok => t.start = .showing ∧ ok = false
  | .message .stop _ | .ended => True
  | _ => False

/-- The session goes on, and gives the tray nothing or its own indicator. -/
structure Session.Tells (t : Session) (outcome : Outcome) : Prop where
  sessionId : outcome.1.sessionId = t.sessionId
  disposed : outcome.1.disposed = t.disposed
  tray : trayOf outcome.2 = none ∨
    t.disposed = false ∧ ∃ v, trayOf outcome.2 = some (some v) ∧ v.sessionId = t.sessionId

section Tells

variable {platform : Platform} {t t' : Session}

theorem Session.Tells.silent {acts : List Act} (hsession : t'.sessionId = t.sessionId)
    (hdisposed : t'.disposed = t.disposed) (hacts : trayOf acts = none) : t.Tells (t', acts) :=
  ⟨hsession, hdisposed, .inl hacts⟩

theorem Session.Tells.loud {acts : List Act} {v : RemoteSession} (hlive : t.disposed = false)
    (hsession : t'.sessionId = t.sessionId) (hdisposed : t'.disposed = t.disposed)
    (hacts : trayOf acts = some (some v)) (hv : v.sessionId = t.sessionId) : t.Tells (t', acts) :=
  ⟨hsession, hdisposed, .inr ⟨hlive, v, hacts, hv⟩⟩

theorem tells_scheduleNext {acts : List Act} (hsession : t'.sessionId = t.sessionId)
    (hdisposed : t'.disposed = t.disposed) (hacts : trayOf acts = none) : t.Tells (t'.scheduleNext, acts) := by
  unfold scheduleNext
  split
  · exact .silent hsession hdisposed hacts
  · exact .silent hsession hdisposed hacts

theorem tells_control (hlive : t.disposed = false) (policy : Policy) (method : Method) :
    t.Tells (t.control policy method) := by
  unfold Session.control
  split
  · exact .silent rfl rfl rfl
  · exact .silent rfl rfl rfl
  · split
    · exact .silent rfl rfl rfl
    · exact .loud hlive rfl rfl rfl rfl

theorem tells_onDecision (decision : Decision) (policy : Policy) : t.Tells (t.onDecision decision policy) := by
  have hanswered : trayOf (answered decision) = none := by
    unfold answered
    split <;> rfl
  unfold onDecision
  split
  · exact .silent rfl rfl rfl
  · split
    · exact .silent rfl rfl hanswered
    · rename_i hlive
      dsimp only
      split
      · exact .loud (by simpa using hlive) rfl rfl rfl rfl
      · split
        · exact .silent rfl rfl hanswered
        · exact .silent rfl rfl hanswered

theorem tells_setQuality (fps quality : Option Nat) : t.Tells (t.setQuality fps quality, []) := by
  unfold setQuality clearCaptureTimer
  split
  · exact tells_scheduleNext rfl rfl rfl
  · exact tells_scheduleNext rfl rfl rfl

theorem tells_handleMessage {message : Message} (hstop : message ≠ .stop) (policy : Policy) :
    t.Tells (t.handleMessage platform message policy) := by
  unfold handleMessage
  split
  · exact .silent rfl rfl rfl
  · have hlive : t.disposed = false := by simpa using ‹¬t.disposed›
    cases message with
    | setQuality fps quality => exact tells_setQuality fps quality
    | stop => exact absurd rfl hstop
    | input op => exact tells_control hlive policy _
    | sas =>
      dsimp only
      unfold sendSecureAttention
      split
      · exact tells_control hlive policy _
      · exact .silent rfl rfl rfl
    | keyframe => exact .silent rfl rfl rfl
    | typeText typed =>
      dsimp only
      unfold sendTypeText
      split
      · exact .silent rfl rfl rfl
      · split
        · exact .silent rfl rfl rfl
        · split
          · exact .silent rfl rfl rfl
          · exact tells_control hlive policy _
    | controlReleased =>
      dsimp only
      unfold controlReleased
      split
      · exact .loud hlive rfl rfl rfl rfl
      · exact .silent rfl rfl rfl

theorem tells_stopCapture (hdisposed : t.disposed) (start : Start) :
    t.Tells (stopCapture platform { t with start := start }) := by
  simp only [hdisposed]
  exact .silent rfl hdisposed.symm rfl

theorem tells_handle {e : Event} (he : t.disposed ∨ ¬ Ends t e) : t.Tells (t.handle platform e) := by
  cases e with
  | started =>
    unfold handle startAfterIndicator
    dsimp only
    split
    · exact .silent rfl rfl rfl
    · split
      · exact .silent rfl rfl rfl
      · split
        · exact .silent rfl rfl rfl
        · exact tells_scheduleNext rfl rfl rfl
  | shown ok =>
    unfold handle onShown
    dsimp only
    split
    · exact .silent rfl rfl rfl
    · rename_i hshowing
      split
      · exact tells_scheduleNext rfl rfl rfl
      · rename_i hok
        refine tells_stopCapture (he.resolve_right (not_not_intro ⟨?_, by simpa using hok⟩)) .over
        simpa using hshowing
  | timer k policy =>
    unfold handle onTimer
    dsimp only
    split
    · exact .silent rfl rfl rfl
    · split
      · exact .silent rfl rfl rfl
      · exact .silent rfl rfl rfl
  | captured =>
    unfold handle onCaptured
    dsimp only
    split
    · exact .silent rfl rfl rfl
    · exact tells_scheduleNext rfl rfl rfl
  | message message policy =>
    by_cases hstop : message = .stop
    · subst hstop
      have hdisposed := he.resolve_right (not_not_intro trivial)
      simp only [handle, handleMessage, hdisposed]
      exact .silent rfl rfl rfl
    · exact tells_handleMessage hstop policy
  | decided decision policy => exact tells_onDecision decision policy
  | ended => exact tells_stopCapture (he.resolve_right (not_not_intro trivial)) t.start

/-- A session that ends is disposed. -/
theorem disposed_handle {e : Event} (he : Ends t e) : (t.handle platform e).1.disposed := by
  have hstop : ∀ t : Session, (stopCapture platform t).1.disposed := by
    intro t
    unfold stopCapture
    split
    · assumption
    · rfl
  cases e with
  | shown ok =>
    obtain ⟨hshowing, rfl⟩ := he
    simpa [handle, onShown, hshowing] using hstop _
  | message message policy =>
    cases message with
    | stop =>
      simp only [handle, handleMessage]
      split
      · assumption
      · exact hstop t
    | _ => cases he
  | ended => exact hstop t
  | _ => cases he

end Tells

/-! ## Runs -/

structure Invariant (platform : Platform) (s : State) : Prop where
  sound : ∀ (i : Nat) t, s.sessions[i]? = some t → t.Sound platform (s.log i)
  fresh : ∀ i, s.sessions.length ≤ i → s.log i = []
  tray : ∀ i t, s.Live i t → ∃ v j u, s.tray = some (some v) ∧ s.Live j u ∧ v.sessionId = u.sessionId

theorem Noticed.of_invariant {platform : Platform} {s : State} (hs : Invariant platform s) : Noticed platform s := by
  have hlog : ∀ i, (∃ t : Session, t.Sound platform (s.log i)) ∨ s.log i = [] := by
    intro i
    cases hi : s.sessions[i]? with
    | some t => exact .inl ⟨t, hs.sound i t hi⟩
    | none => exact .inr (hs.fresh i (getElem?_eq_none_iff.mp hi))
  refine ⟨fun i => ?_, fun i => ?_, hs.tray⟩
  · rcases hlog i with ⟨t, ht⟩ | hempty
    · exact ht.permitted
    · simp [hempty]
  · rcases hlog i with ⟨t, ht⟩ | hempty
    · exact ht.asked
    · simp [hempty]

/-- No quality is changed before the indicator is shown, and a session that ends is the last one. -/
def Attentive (platform : Platform) (s : State) : Input → Prop
  | .on i e => ∀ t ∈ s.sessions[i]?, ¬ Early platform t e ∧
      (t.disposed = false → Ends t e → ∀ j u, s.Live j u → j = i)
  | _ => True

section Step

variable {platform : Platform} {s : State}

theorem log_record (sessions : List Session) (i j : Nat) (acts : List Act) :
    log { s with sessions := sessions, history := s.record i acts } j =
      if i = j then acts ++ s.log j else s.log j := by
  by_cases hij : i = j
  · simp [log, record, hij, filter_map, Function.comp_def]
  · simp [log, record, hij, filter_map, Function.comp_def]

theorem tray_record (sessions : List Session) (i : Nat) (acts : List Act) :
    tray { s with sessions := sessions, history := s.record i acts } = (trayOf acts).or s.tray := by
  simp [tray, record, trayOf, Function.comp_def]

theorem Invariant.opens (hs : Invariant platform s) (sessionId operator : Str) (policy : Policy) :
    Invariant platform (step platform s (.opens sessionId operator policy)) := by
  obtain hsound : Sound platform _ _ := .opened sessionId operator s.now policy
  refine ⟨fun i t hi => ?_, fun i hi => ?_, fun _ _ _ => ?_⟩
  · rcases Slots.of_getElem?_concat hi with hi | ⟨rfl, rfl⟩
    · have hne : s.sessions.length ≠ i := (List.getElem?_eq_some_iff.mp hi).1.ne'
      simpa [step, log_record, hne] using hs.sound i t hi
    · simpa [step, log_record, hs.fresh _ le_rfl] using hsound
  · have hlt : s.sessions.length < i := Nat.lt_of_succ_le (by simpa [step] using hi)
    simpa [step, log_record, hlt.ne] using hs.fresh i hlt.le
  · refine ⟨(opened sessionId operator s.now policy).1.indicator policy, s.sessions.length, _,
      tray_record _ _ _, ⟨getElem?_concat_length, rfl⟩, rfl⟩

/-- The indicator goes on being that of a live session, or the last session has ended. -/
theorem Invariant.on (hs : Invariant platform s) {i : Nat} {e : Event} (he : Attentive platform s (.on i e)) :
    Invariant platform (step platform s (.on i e)) := by
  unfold Screen.step
  dsimp only
  split
  · rename_i t hi
    obtain ⟨hearly, hends⟩ := he t hi
    refine ⟨fun j u hj => ?_, fun j hj => ?_, fun j u hj => ?_⟩
    · rw [log_record]
      rcases Slots.of_getElem?_set hj with ⟨rfl, rfl⟩ | ⟨hne, hj⟩
      · simpa using (hs.sound j t hi).handle hearly
      · simpa [hne.symm] using hs.sound j u hj
    · have hlen : s.sessions.length ≤ j := by simpa using hj
      have hne : i ≠ j := ((List.getElem?_eq_some_iff.mp hi).1.trans_le hlen).ne
      simpa [log_record, hne] using hs.fresh j hlen
    · rw [tray_record]
      by_cases hgoes : t.disposed ∨ ¬ Ends t e
      · have htells : t.Tells (t.handle platform e) := tells_handle hgoes
        have hlive : ∀ k w, s.Live k w → ∃ w', Live { s with
            sessions := s.sessions.set i (t.handle platform e).1, history := s.record i (t.handle platform e).2 } k w' ∧
            w'.sessionId = w.sessionId := by
          intro k w hk
          by_cases hki : k = i
          · subst hki
            cases hk.1.symm.trans hi
            exact ⟨_, ⟨Slots.getElem?_set_self hi, htells.disposed.trans hk.2⟩, htells.sessionId⟩
          · exact ⟨w, ⟨Slots.getElem?_set_of_ne hki hk.1, hk.2⟩, rfl⟩
        rcases htells.tray with hnone | ⟨halive, v, hv, hsession⟩
        · have hbefore : ∃ k w, s.Live k w := by
            rcases Slots.of_getElem?_set hj.1 with ⟨rfl, rfl⟩ | ⟨hne, hk⟩
            · exact ⟨j, t, hi, htells.disposed.symm.trans hj.2⟩
            · exact ⟨j, u, hk, hj.2⟩
          obtain ⟨k, w, hk⟩ := hbefore
          obtain ⟨v, k, w, htray, hk, hsession⟩ := hs.tray k w hk
          obtain ⟨w', hw', hsame⟩ := hlive k w hk
          exact ⟨v, k, w', by simp [hnone, htray], hw', hsession.trans hsame.symm⟩
        · obtain ⟨w', hw', hsame⟩ := hlive i t ⟨hi, halive⟩
          exact ⟨v, i, w', by simp [hv], hw', hsession.trans hsame.symm⟩
      · obtain ⟨halive, hend⟩ := not_or.mp hgoes
        rcases Slots.of_getElem?_set hj.1 with ⟨rfl, rfl⟩ | ⟨hne, hk⟩
        · have hdisposed : (t.handle platform e).1.disposed := disposed_handle (not_not.mp hend)
          exact Bool.noConfusion (hdisposed.symm.trans hj.2)
        · exact absurd (hends (by simpa using halive) (not_not.mp hend) j u ⟨hk, hj.2⟩) hne
  · exact hs

theorem Invariant.step (hs : Invariant platform s) {input : Input} (he : Attentive platform s input) :
    Invariant platform (step platform s input) := by
  cases input with
  | opens sessionId operator policy => exact hs.opens sessionId operator policy
  | on i e => exact hs.on he
  | tick d => exact ⟨hs.sound, hs.fresh, hs.tray⟩

end Step

theorem Invariant.init (platform : Platform) : Invariant platform (machine platform).init where
  sound := by simp [machine]
  fresh := by simp [machine, log]
  tray := by simp [machine, Live]

theorem always_noticed {platform : Platform} {tr : List Input}
    (hattentive : (machine platform).Guarded (Attentive platform) tr) :
    (machine platform).Always (Noticed platform) tr :=
  (hattentive.always (.init platform) fun _ _ hs he => hs.step he).mono fun _ => .of_invariant

/-! ## Two runs -/

def requiring : Policy := ⟨true, false, false⟩

/-- A screen on Linux that is shown, controlled with the consent of the user, and stopped. -/
def consentedRun : List Input :=
  [.opens (text "s-1") (text "Ana") requiring, .on 0 .started, .on 0 (.shown true),
   .on 0 (.message (.setQuality (some 5) none) requiring), .on 0 (.timer 1 requiring), .on 0 .captured,
   .on 0 (.message (.input (text "mouseMove")) requiring), .on 0 (.decided .approved requiring),
   .on 0 (.message (.input (text "mouseMove")) requiring), .on 0 (.message .stop requiring)]

theorem always_noticed_consentedRun : (machine .linux).Always (Noticed .linux) consentedRun := by
  refine always_noticed (Machine.guarded_iff_guardedFrom.mpr ?_)
  have hshown : ∀ t ∈ ((machine .linux).run (consentedRun.take 3)).sessions[0]?, t.start = .over := by
    decide
  have hone : ((machine .linux).run (consentedRun.take 9)).sessions.length = 1 := by decide
  refine ⟨trivial, fun t _ => ⟨id, fun _ h => h.elim⟩, fun t _ => ⟨id, fun _ h => by cases h.2⟩,
    fun t ht => ⟨fun h => h.2.2 (hshown t ht), fun _ h => h.elim⟩, fun t _ => ⟨id, fun _ h => h.elim⟩,
    fun t _ => ⟨id, fun _ h => h.elim⟩, fun t _ => ⟨id, fun _ h => h.elim⟩, fun t _ => ⟨id, fun _ h => h.elim⟩,
    fun t _ => ⟨id, fun _ h => h.elim⟩, fun t _ => ⟨id, fun _ _ j u hj => ?_⟩, trivial⟩
  have hlt : j < 1 := hone ▸ (List.getElem?_eq_some_iff.mp hj.1).1
  exact Nat.lt_one_iff.mp hlt

def overlappingRun : List Input :=
  [.opens (text "s-1") (text "Ana") requiring, .opens (text "s-2") (text "Eva") requiring, .on 1 .ended]

theorem not_always_noticed_overlappingRun : ¬ (machine .windows).Always (Noticed .windows) overlappingRun := by
  intro h
  have hlive : ((machine .windows).run overlappingRun).Live 0
      ((opened (text "s-1") (text "Ana") 0 requiring).1) := ⟨by decide, rfl⟩
  obtain ⟨v, j, u, htray, -⟩ := h.last.tray 0 _ hlive
  have hnone : ((machine .windows).run overlappingRun).tray = some none := by decide
  cases hnone.symm.trans htray

end Rcp.Screen
