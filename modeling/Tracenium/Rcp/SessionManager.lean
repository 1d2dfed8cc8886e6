-- SUMMARY: Remote sessions between their awaits, and what the session manager keeps for one of them.
import Tracenium.Rcp.ConsentPrompts

/-!
`src/plugins/rcp/session-manager.ts`, with what `PeerSession` tells it. A part between two awaits is one
step; `dispose` and `acceptOffer` do their work before they are awaited.
-/

open Utf16 OrderedMap Function
open Rcp.Consent (Decision)

namespace Rcp.Sessions

/-! ## Offers -/

structure Offer where
  sessionId : Str
  sdp : Str
  capability : Str
  sessionTimeoutSeconds : Nat
  deriving DecidableEq

/-- Four hours, when the offer gives none. -/
def Offer.timeoutSeconds (o : Offer) : Nat :=
  if o.sessionTimeoutSeconds = 0 then 4 * 60 * 60 else o.sessionTimeoutSeconds

def isLineEnd (u : UInt16) : Bool := u = 0x0A || u = 0x0D || u = 0x2028 || u = 0x2029

/-- The pattern `^a=ice-ufrag:(\S+)` in a text of several lines. -/
def extractIceUfrag (sdp : Str) : Option Str :=
  (sdp.splitOnP isLineEnd).findSome? fun line =>
    if (text "a=ice-ufrag:").isPrefixOf line then
      let ufrag := Words.before isSpace (line.drop 12)
      if ufrag = [] then none else some ufrag
    else none

inductive Capability
  | shell
  | file
  | screen
  deriving DecidableEq

/-- `CAPABILITY_POLICY`. -/
def capabilityOf (name : Str) : Option Capability :=
  if name = text "rcp.shell" then some .shell
  else if name = text "rcp.file" then some .file
  else if name = text "rcp.screen" then some .screen
  else none

/-- `consentAppliesTo`. -/
def consentAppliesTo (capability : Str) : Bool :=
  capability == text "rcp.screen" || capability == text "rcp.screen.control"

structure Policy where
  enabled : Capability → Bool
  requireConsent : Bool

/-- A prompter that throws has denied. -/
def consentCloseReason : Decision → Str
  | .timeout => text "consent_timeout"
  | .unavailable => text "consent_required"
  | _ => text "consent_denied"

/-! ## State -/

def MAX_CONCURRENT_LOCAL_PEERS : Nat := 8
def PENDING_ICE_MAX_SESSIONS : Nat := 16
def PENDING_ICE_MAX_PER_SESSION : Nat := 32
def PENDING_ICE_TTL_MS : Nat := 60000

/-- `capAt` is when the hard cap's timer fires. -/
structure Peer where
  sessionId : Str
  capability : Str
  capAt : Nat
  disposed : Bool
  deriving DecidableEq

structure PendingIce where
  candidate : Str
  sdpMid : Str
  sdpMLineIndex : Nat
  deriving DecidableEq

structure EarlyIce where
  since : Nat
  items : List PendingIce
  deriving DecidableEq

inductive Phase
  | disposing (rebuildable : Bool)
  | consenting
  | accepting
  | over
  deriving DecidableEq

/-- A call of `onOffer`: the peer that it built, and whether a close or an error for its session came while
it was awaiting. -/
structure Call where
  offer : Offer
  phase : Phase
  peer : Option Nat
  closed : Bool
  deriving DecidableEq

inductive Entry
  | sentClose (sessionId reason : Str)
  | sentError (sessionId code : Str)
  /-- A close or an error from the backend. -/
  | received (sessionId : Str)
  | approved (sessionId : Str)
  /-- A peer is built. `asks` says that the consent of the user was required. -/
  | built (sessionId : Str) (asks : Bool) (since capAt timeoutSeconds : Nat)
  deriving DecidableEq

structure State where
  now : Nat
  peers : List Peer
  sessions : OrderedMap Str Nat
  consentGranted : List Str
  sessionStartedAt : Str → Option Nat
  sessionUfrag : Str → Option Str
  pendingIce : OrderedMap Str EarlyIce
  calls : List Call
  history : List Entry

namespace State

def note (s : State) (e : Entry) : State := { s with history := e :: s.history }

def goTo (s : State) (n : Nat) (phase : Phase) : State :=
  { s with calls := s.calls.modify n fun c => { c with phase := phase } }

def dispose (s : State) (i : Nat) : State :=
  { s with peers := s.peers.modify i fun p => { p with disposed := true } }

def grantConsent (s : State) (sessionId : Str) : State :=
  { s with consentGranted := sessionId :: s.consentGranted }

def forgetConsent (s : State) (sessionId : Str) : State :=
  { s with
    consentGranted := s.consentGranted.filter (· ≠ sessionId)
    sessionStartedAt := update s.sessionStartedAt sessionId none }

def forgetUfrag (s : State) (sessionId : Str) : State :=
  { s with sessionUfrag := update s.sessionUfrag sessionId none }

def forgetIce (s : State) (sessionId : Str) : State := { s with pendingIce := s.pendingIce.delete sessionId }

def forgetPeer (s : State) (sessionId : Str) : State := { s with sessions := s.sessions.delete sessionId }

/-- The calls that await for the session see it closed. -/
def markClosed (s : State) (sessionId : Str) : State :=
  { s with
    calls := s.calls.map fun c : Call =>
      if c.offer.sessionId = sessionId ∧ c.phase ≠ .over then { c with closed := true } else c }

end State

/-! ## Offers in progress -/

/-- The peer is built, and its `acceptOffer` called. -/
def build (s : State) (n : Nat) (o : Offer) (asks : Bool) : State :=
  let startedAt := (s.sessionStartedAt o.sessionId).getD s.now
  let elapsedSeconds := (s.now - startedAt) / 1000
  if o.timeoutSeconds ≤ elapsedSeconds then
    ((s.forgetConsent o.sessionId).note (.sentClose o.sessionId (text "hard_cap_timeout"))).goTo n .over
  else
    let capAt := s.now + (o.timeoutSeconds - elapsedSeconds) * 1000
    { s with
      peers := s.peers ++ [⟨o.sessionId, o.capability, capAt, false⟩]
      sessions := s.sessions.set o.sessionId s.peers.length
      sessionStartedAt := update s.sessionStartedAt o.sessionId (some startedAt)
      sessionUfrag := (extractIceUfrag o.sdp).elim s.sessionUfrag fun ufrag =>
        update s.sessionUfrag o.sessionId (some ufrag)
      calls := s.calls.modify n fun c => { c with phase := .accepting, peer := some s.peers.length }
      history := .built o.sessionId asks s.now capAt o.timeoutSeconds :: s.history }

/-- The error that an offer is refused with, if it is. -/
def refusal (s : State) (o : Offer) (policy : Policy) : Option Str :=
  if MAX_CONCURRENT_LOCAL_PEERS ≤ s.sessions.size then some (text "AGENT_AT_CAPACITY")
  else
    match capabilityOf o.capability with
    | none => some (text "CAPABILITY_UNKNOWN")
    | some capability => if policy.enabled capability then none else some (text "POLICY_DISABLED")

def requiresConsent (o : Offer) (policy : Policy) : Bool :=
  consentAppliesTo o.capability && policy.requireConsent

/-- The gates, up to the consent prompt or the peer. -/
def passGates (s : State) (n : Nat) (o : Offer) (policy : Policy) : State :=
  match refusal s o policy with
  | some code => (s.note (.sentError o.sessionId code)).goTo n .over
  | none =>
    if requiresConsent o policy && !s.consentGranted.contains o.sessionId then s.goTo n .consenting
    else build s n o (requiresConsent o policy)

/-- The hard cap of the session has passed: no peer is built. -/
def Expired (s : State) (o : Offer) : Prop :=
  o.timeoutSeconds ≤ (s.now - (s.sessionStartedAt o.sessionId).getD s.now) / 1000

instance (s : State) (o : Offer) : Decidable (Expired s o) := inferInstanceAs (Decidable (_ ≤ _))

def Asks (s : State) (o : Offer) (policy : Policy) : Prop :=
  (requiresConsent o policy && !s.consentGranted.contains o.sessionId) = true

instance (s : State) (o : Offer) (policy : Policy) : Decidable (Asks s o policy) :=
  inferInstanceAs (Decidable (_ = true))

/-- The gates let the offer through, and the consent is there. -/
def Builds (s : State) (o : Offer) (policy : Policy) : Prop :=
  refusal s o policy = none ∧ ¬ Asks s o policy ∧ ¬ Expired s o

instance (s : State) (o : Offer) (policy : Policy) : Decidable (Builds s o policy) :=
  inferInstanceAs (Decidable (_ ∧ _ ∧ _))

/-- The offer is for the ICE credentials that its session was built from. -/
def isRetransmit (s : State) (o : Offer) : Bool :=
  (extractIceUfrag o.sdp).any fun ufrag => s.sessionUfrag o.sessionId = some ufrag

/-- The peer is thrown away. Only a screen is built anew. -/
def restart (s : State) (n : Nat) (o : Offer) (i : Nat) : State :=
  let rebuildable := o.capability == text "rcp.screen"
  let s := (s.forgetPeer o.sessionId).forgetUfrag o.sessionId
  let s := if rebuildable then s else s.forgetIce o.sessionId
  (s.dispose i).goTo n (.disposing rebuildable)

def onOffer (s : State) (n : Nat) (o : Offer) (policy : Policy) : State :=
  if o.sessionId = [] ∨ o.sdp = [] ∨ o.capability = [] then s.goTo n .over
  else
    match s.sessions.get o.sessionId with
    | some i => if isRetransmit s o then s.goTo n .over else restart s n o i
    | none => passGates s n o policy

def onDisposed (s : State) (n : Nat) (o : Offer) (rebuildable : Bool) (policy : Policy) : State :=
  if rebuildable then passGates s n o policy
  else (s.note (.sentClose o.sessionId (text "ice_restart_unsupported"))).goTo n .over

def onDecision (s : State) (n : Nat) (o : Offer) (decision : Decision) : State :=
  if decision = .approved then
    build ((s.note (.approved o.sessionId)).grantConsent o.sessionId) n o true
  else (s.note (.sentClose o.sessionId (consentCloseReason decision))).goTo n .over

def onAccepted (s : State) (n : Nat) (o : Offer) (ok : Bool) : State :=
  if ok then (s.forgetIce o.sessionId).goTo n .over
  else
    let s := ((s.forgetPeer o.sessionId).forgetIce o.sessionId).forgetUfrag o.sessionId
    (s.note (.sentError o.sessionId (text "SDP_PARSE_ERROR"))).goTo n .over

/-! ## Other messages -/

def sweepPendingIce (s : State) : State :=
  { s with pendingIce :=
      { entries := s.pendingIce.entries.filter fun e => s.now ≤ e.2.since + PENDING_ICE_TTL_MS
        nodup := s.pendingIce.nodup.sublist (List.filter_sublist.map Prod.fst) } }

def rememberEarlyIce (s : State) (sessionId : Str) (ice : PendingIce) : State :=
  let s := sweepPendingIce s
  match s.pendingIce.get sessionId with
  | some e =>
    if PENDING_ICE_MAX_PER_SESSION ≤ e.items.length then s
    else { s with pendingIce := s.pendingIce.set sessionId { e with items := e.items ++ [ice] } }
  | none =>
    if PENDING_ICE_MAX_SESSIONS ≤ s.pendingIce.size then s
    else { s with pendingIce := s.pendingIce.set sessionId ⟨s.now, [ice]⟩ }

def onIce (s : State) (sessionId : Str) (ice : PendingIce) : State :=
  if sessionId = [] then s
  else
    match s.sessions.get sessionId with
    | some _ => s
    | none => rememberEarlyIce s sessionId ice

/-- `onClose` and `onError`. -/
def onEnd (s : State) (sessionId : Str) : State :=
  let s := ((s.note (.received sessionId)).forgetIce sessionId).markClosed sessionId
  match s.sessions.get sessionId with
  | some i => ((s.forgetPeer sessionId).forgetConsent sessionId).dispose i
  | none => s

/-- `onTeardown`. All but two of its callers check that the peer is not disposed. -/
def onTeardown (s : State) (i : Nat) (checked : Bool) (reason : Str) : State :=
  match s.peers[i]? with
  | some p =>
    if checked && p.disposed then s
    else
      ((s.forgetPeer p.sessionId).forgetConsent p.sessionId).note (.sentClose p.sessionId reason)
  | none => s

/-! ## The machine -/

inductive Event
  | offer (o : Offer) (policy : Policy)
  | disposed (n : Nat) (policy : Policy)
  | decided (n : Nat) (decision : Decision)
  | accepted (n : Nat) (ok : Bool)
  | ice (sessionId : Str) (ice : PendingIce)
  | ended (sessionId : Str)
  | teardown (i : Nat) (checked : Bool) (reason : Str)
  | tick (d : Nat)

def step (s : State) (e : Event) : State :=
  match e with
  | .offer o policy => onOffer { s with calls := s.calls ++ [⟨o, .over, none, false⟩] } s.calls.length o policy
  | .disposed n policy =>
    match s.calls[n]? with
    | some ⟨o, .disposing rebuildable, _, _⟩ => onDisposed s n o rebuildable policy
    | _ => s
  | .decided n decision =>
    match s.calls[n]? with
    | some ⟨o, .consenting, _, _⟩ => onDecision s n o decision
    | _ => s
  | .accepted n ok =>
    match s.calls[n]? with
    | some ⟨o, .accepting, _, _⟩ => onAccepted s n o ok
    | _ => s
  | .ice sessionId ice => onIce s sessionId ice
  | .ended sessionId => onEnd s sessionId
  | .teardown i checked reason => onTeardown s i checked reason
  | .tick d => { s with now := s.now + d }

def machine : Machine State Event where
  init := ⟨0, [], .empty, [], fun _ => none, fun _ => none, .empty, [], []⟩
  step := step

end Rcp.Sessions

/-! # The record of a session -/

namespace Rcp.Sessions

/-! ## Histories -/

def Entry.sessionId : Entry → Str
  | .sentClose sessionId _ | .sentError sessionId _ | .received sessionId | .approved sessionId
  | .built sessionId _ _ _ _ => sessionId

def Entry.ends : Entry → Bool
  | .sentClose _ _ | .sentError _ _ | .received _ => true
  | .approved _ | .built _ _ _ _ _ => false

/-- The user has approved since the session last ended. -/
def consented : List Entry → Bool
  | [] => false
  | .approved _ :: _ => true
  | .built _ _ _ _ _ :: es => consented es
  | .sentClose _ _ :: _ | .sentError _ _ :: _ | .received _ :: _ => false

/-- When the first peer was built since the session last ended. -/
def startOf : List Entry → Option Nat
  | [] => none
  | .approved _ :: es => startOf es
  | .built _ _ since _ _ :: es => some ((startOf es).getD since)
  | .sentClose _ _ :: _ | .sentError _ _ :: _ | .received _ :: _ => none

/-- The session has ended, and no peer was built since. -/
def ended : List Entry → Bool
  | [] => false
  | .approved _ :: es => ended es
  | .built _ _ _ _ _ :: _ => false
  | .sentClose _ _ :: _ | .sentError _ _ :: _ | .received _ :: _ => true

theorem ended_cons {e : Entry} (he : e.ends) (es : List Entry) :
    ended (e :: es) ∧ consented (e :: es) = false ∧ startOf (e :: es) = none := by
  cases e with
  | approved | built => cases he
  | _ => exact ⟨rfl, rfl, rfl⟩

theorem startOf_eq_none_of_ended {es : List Entry} (h : ended es) : startOf es = none := by
  induction es with
  | nil => rfl
  | cons e es ih =>
    cases e with
    | approved => exact ih h
    | built => cases h
    | _ => rfl

/-! ## Records -/

structure Kept where
  consent : Bool
  startedAt : Option Nat
  ufrag : Option Str
  ice : Option EarlyIce
  /-- An `onOffer` is in progress. -/
  awaited : Bool
  log : List Entry

/-- The call is in progress, and for the session. -/
def Call.isFor (c : Call) (sessionId : Str) : Bool := c.offer.sessionId = sessionId && c.phase ≠ .over

namespace State

def log (s : State) (sessionId : Str) : List Entry := s.history.filter fun e => e.sessionId = sessionId

def awaits (s : State) (sessionId : Str) : Bool :=
  s.calls.any (·.isFor sessionId)

def kept (s : State) (sessionId : Str) : Kept where
  consent := s.consentGranted.contains sessionId
  startedAt := s.sessionStartedAt sessionId
  ufrag := s.sessionUfrag sessionId
  ice := s.pendingIce.get sessionId
  awaited := s.awaits sessionId
  log := s.log sessionId

variable (s : State) (sessionId : Str)

theorem kept_note_self {e : Entry} (h : e.sessionId = sessionId) :
    (s.note e).kept sessionId = { s.kept sessionId with log := e :: (s.kept sessionId).log } := by
  simp [kept, log, note, awaits, h]

theorem kept_note_of_ne {e : Entry} (h : e.sessionId ≠ sessionId) : (s.note e).kept sessionId = s.kept sessionId := by
  simp [kept, log, note, awaits, h]

@[simp] theorem kept_grantConsent_self :
    (s.grantConsent sessionId).kept sessionId = { s.kept sessionId with consent := true } := by
  simp [kept, log, grantConsent, awaits]

@[simp] theorem kept_grantConsent_of_ne {sessionId' : Str} (h : sessionId ≠ sessionId') :
    (s.grantConsent sessionId').kept sessionId = s.kept sessionId := by
  simp [kept, log, grantConsent, awaits, h]

@[simp] theorem kept_forgetConsent_self : (s.forgetConsent sessionId).kept sessionId =
    { s.kept sessionId with consent := false, startedAt := none } := by
  simp [kept, log, forgetConsent, awaits]

@[simp] theorem kept_forgetConsent_of_ne {sessionId' : Str} (h : sessionId ≠ sessionId') :
    (s.forgetConsent sessionId').kept sessionId = s.kept sessionId := by
  simp [kept, log, forgetConsent, awaits, h]

@[simp] theorem kept_forgetUfrag_self :
    (s.forgetUfrag sessionId).kept sessionId = { s.kept sessionId with ufrag := none } := by
  simp [kept, log, forgetUfrag, awaits]

@[simp] theorem kept_forgetUfrag_of_ne {sessionId' : Str} (h : sessionId ≠ sessionId') :
    (s.forgetUfrag sessionId').kept sessionId = s.kept sessionId := by
  simp [kept, log, forgetUfrag, awaits, h]

@[simp] theorem kept_forgetIce_self :
    (s.forgetIce sessionId).kept sessionId = { s.kept sessionId with ice := none } := by
  simp [kept, log, forgetIce, awaits, get_delete_self]

@[simp] theorem kept_forgetIce_of_ne {sessionId' : Str} (h : sessionId ≠ sessionId') :
    (s.forgetIce sessionId').kept sessionId = s.kept sessionId := by
  simp [kept, log, forgetIce, awaits, get_delete_of_ne h]

@[simp] theorem kept_forgetPeer (sessionId' : Str) : (s.forgetPeer sessionId').kept sessionId = s.kept sessionId :=
  rfl

@[simp] theorem kept_dispose (i : Nat) : (s.dispose i).kept sessionId = s.kept sessionId := rfl

/-- A call that is closed is still awaited. -/
@[simp] theorem kept_markClosed (sessionId' : Str) : (s.markClosed sessionId').kept sessionId = s.kept sessionId := by
  have hawaits : (s.markClosed sessionId').awaits sessionId = s.awaits sessionId := by
    simp only [awaits, markClosed, List.any_map]
    congr 1
    funext c
    simp only [comp_apply]
    split <;> rfl
  simp only [kept, hawaits]
  rfl

/-- A change of phase matters to who is awaited, and only to the session of the call. -/
theorem kept_goTo (n : Nat) (phase : Phase) : (s.goTo n phase).kept sessionId =
    { s.kept sessionId with awaited := (s.goTo n phase).awaits sessionId } := rfl

theorem awaits_modify_of_ne {calls : List Call} {n : Nat} {f : Call → Call}
    (hoffer : ∀ c, calls[n]? = some c → c.offer.sessionId ≠ sessionId ∧ (f c).offer = c.offer) :
    (calls.modify n f).any (·.isFor sessionId) = calls.any (·.isFor sessionId) := by
  induction calls generalizing n with
  | nil => simp
  | cons c calls ih =>
    cases n with
    | zero =>
      obtain ⟨hne, hsame⟩ := hoffer c rfl
      simp [Call.isFor, hne, hsame]
    | succ n => simp [ih fun c hc => hoffer c (by simpa using hc)]

theorem awaits_modify_self {calls : List Call} {n : Nat} {f : Call → Call} {c : Call} (hn : calls[n]? = some c)
    (hoffer : (f c).offer.sessionId = sessionId) (hphase : (f c).phase ≠ .over) :
    (calls.modify n f).any (·.isFor sessionId) := by
  have hmem : (calls.modify n f)[n]? = some (f c) := by simp [hn]
  exact List.any_eq_true.mpr ⟨f c, List.mem_of_getElem? hmem, by simp [Call.isFor, hoffer, hphase]⟩

theorem kept_goTo_of_ne {n : Nat} {phase : Phase}
    (hoffer : ∀ c, s.calls[n]? = some c → c.offer.sessionId ≠ sessionId) :
    (s.goTo n phase).kept sessionId = s.kept sessionId := by
  have hawaits : (s.goTo n phase).awaits sessionId = s.awaits sessionId :=
    awaits_modify_of_ne sessionId fun c hc => ⟨hoffer c hc, rfl⟩
  rw [kept_goTo, hawaits]
  rfl

/-- A call is over with an entry for its session. -/
theorem kept_over_self (n : Nat) {e : Entry} (he : e.sessionId = sessionId) :
    ∃ awaited, ((s.note e).goTo n .over).kept sessionId =
      { s.kept sessionId with awaited := awaited, log := e :: (s.kept sessionId).log } := by
  refine ⟨((s.note e).goTo n .over).awaits sessionId, ?_⟩
  simp [kept_goTo, kept_note_self s sessionId he]

theorem kept_over_of_ne {n : Nat} {e : Entry} (he : e.sessionId ≠ sessionId)
    (hoffer : ∀ c, s.calls[n]? = some c → c.offer.sessionId ≠ sessionId) :
    ((s.note e).goTo n .over).kept sessionId = s.kept sessionId :=
  (kept_goTo_of_ne (s.note e) sessionId hoffer).trans (kept_note_of_ne s sessionId he)

end State

attribute [simp] Entry.sessionId

/-! ## Offers -/

section Offers

variable {s : State} {n : Nat} {o : Offer}

/-- A session whose hard cap has passed is forgotten, but for its ICE. -/
theorem kept_build_of_expired {asks : Bool} (hexpired : Expired s o) : ∃ awaited, (build s n o asks).kept o.sessionId =
    { s.kept o.sessionId with
      consent := false
      startedAt := none
      awaited := awaited
      log := .sentClose o.sessionId (text "hard_cap_timeout") :: (s.kept o.sessionId).log } := by
  obtain ⟨awaited, hover⟩ := State.kept_over_self (s.forgetConsent o.sessionId) o.sessionId n
    (e := .sentClose o.sessionId (text "hard_cap_timeout")) rfl
  refine ⟨awaited, ?_⟩
  simp only [build, if_pos (show _ ≤ _ from hexpired), hover, State.kept_forgetConsent_self]

theorem kept_build {asks : Bool} {c : Call} (hn : s.calls[n]? = some c) (hoffer : c.offer = o)
    (hexpired : ¬ Expired s o) : ∃ capAt, (build s n o asks).kept o.sessionId =
      { s.kept o.sessionId with
        startedAt := some ((s.sessionStartedAt o.sessionId).getD s.now)
        ufrag := (extractIceUfrag o.sdp).or (s.sessionUfrag o.sessionId)
        awaited := true
        log := .built o.sessionId asks s.now capAt o.timeoutSeconds :: (s.kept o.sessionId).log } ∧
      capAt = s.now + (o.timeoutSeconds -
        (s.now - (s.sessionStartedAt o.sessionId).getD s.now) / 1000) * 1000 := by
  refine ⟨_, ?_, rfl⟩
  have hawaits := State.awaits_modify_self o.sessionId
    (f := fun c => { c with phase := .accepting, peer := some s.peers.length }) hn
    (by simp [hoffer]) (by simp)
  unfold build
  simp only [if_neg (show ¬ _ ≤ _ from hexpired)]
  cases hufrag : extractIceUfrag o.sdp with
  | none => simp [State.kept, State.log, State.awaits, hawaits]
  | some ufrag => simp [State.kept, State.log, State.awaits, hawaits]

theorem kept_build_of_ne {sessionId : Str} {asks : Bool}
    (hoffer : ∀ c, s.calls[n]? = some c → c.offer = o) (hne : sessionId ≠ o.sessionId) :
    (build s n o asks).kept sessionId = s.kept sessionId := by
  have hcalls : ∀ c, s.calls[n]? = some c → c.offer.sessionId ≠ sessionId :=
    fun c hc => hoffer c hc ▸ hne.symm
  unfold build
  dsimp only
  split
  · have hover := State.kept_over_of_ne (s.forgetConsent o.sessionId) sessionId (n := n)
      (e := .sentClose o.sessionId (text "hard_cap_timeout")) hne.symm hcalls
    exact hover.trans (State.kept_forgetConsent_of_ne _ _ hne)
  · have hawaits := State.awaits_modify_of_ne sessionId
      (f := fun c => { c with phase := .accepting, peer := some s.peers.length }) fun c hc => ⟨hcalls c hc, rfl⟩
    cases hufrag : extractIceUfrag o.sdp with
    | none => simp [State.kept, State.log, State.awaits, hne, hne.symm, hawaits]
    | some ufrag => simp [State.kept, State.log, State.awaits, hne, hne.symm, hawaits]

theorem kept_passGates_of_ne {sessionId : Str} {policy : Policy}
    (hoffer : ∀ c, s.calls[n]? = some c → c.offer = o) (hne : sessionId ≠ o.sessionId) :
    (passGates s n o policy).kept sessionId = s.kept sessionId := by
  have hcalls : ∀ c, s.calls[n]? = some c → c.offer.sessionId ≠ sessionId :=
    fun c hc => hoffer c hc ▸ hne.symm
  unfold passGates
  split
  · exact State.kept_over_of_ne _ _ hne.symm hcalls
  · split
    · exact State.kept_goTo_of_ne _ _ hcalls
    · exact kept_build_of_ne hoffer hne

theorem kept_restart_of_ne {sessionId : Str} {i : Nat}
    (hoffer : ∀ c, s.calls[n]? = some c → c.offer = o) (hne : sessionId ≠ o.sessionId) :
    (restart s n o i).kept sessionId = s.kept sessionId := by
  have hcalls : ∀ c, s.calls[n]? = some c → c.offer.sessionId ≠ sessionId :=
    fun c hc => hoffer c hc ▸ hne.symm
  unfold restart
  dsimp only
  split
  · refine (State.kept_goTo_of_ne _ _ (by exact hcalls)).trans ?_
    simp [hne]
  · refine (State.kept_goTo_of_ne _ _ (by exact hcalls)).trans ?_
    simp [hne]

theorem kept_onOffer_of_ne {sessionId : Str} {policy : Policy}
    (hoffer : ∀ c, s.calls[n]? = some c → c.offer = o) (hne : sessionId ≠ o.sessionId) :
    (onOffer s n o policy).kept sessionId = s.kept sessionId := by
  have hcalls : ∀ c, s.calls[n]? = some c → c.offer.sessionId ≠ sessionId :=
    fun c hc => hoffer c hc ▸ hne.symm
  unfold onOffer
  split
  · exact State.kept_goTo_of_ne _ _ hcalls
  · split
    · split
      · exact State.kept_goTo_of_ne _ _ hcalls
      · exact kept_restart_of_ne hoffer hne
    · exact kept_passGates_of_ne hoffer hne

/-- A call that starts is not awaited yet. -/
theorem kept_start (s : State) (o : Offer) (sessionId : Str) :
    State.kept { s with calls := s.calls ++ [⟨o, .over, none, false⟩] } sessionId = s.kept sessionId := by
  simp [State.kept, State.log, State.awaits, Call.isFor]

/-- A call that is over at once is never awaited. -/
theorem kept_start_over (s : State) (o : Offer) (sessionId : Str) :
    State.kept (State.goTo { s with calls := s.calls ++ [⟨o, .over, none, false⟩] } s.calls.length .over) sessionId =
      s.kept sessionId := by
  have hmodify : ∀ (calls : List Call) (c : Call) (f : Call → Call),
      (calls ++ [c]).modify calls.length f = calls ++ [f c] := by
    intro calls c f
    induction calls with
    | nil => rfl
    | cons c' calls ih => simp [ih]
  simp [State.kept, State.log, State.awaits, State.goTo, Call.isFor, hmodify]

end Offers

/-! ## Candidates -/

/-- Candidates are swept for every session. -/
theorem kept_sweepPendingIce (s : State) (sessionId : Str) : ∃ ice, (sweepPendingIce s).kept sessionId =
    { s.kept sessionId with ice := ice } ∧ ((s.kept sessionId).ice = none → ice = none) := by
  refine ⟨_, rfl, fun hnone => ?_⟩
  rw [get_eq_none_iff]
  intro e hmem
  exact get_eq_none_iff.mp hnone e (List.mem_of_mem_filter hmem)

theorem kept_rememberEarlyIce (s : State) (sessionId : Str) (ice : PendingIce) (sessionId' : Str) :
    ∃ ice', (rememberEarlyIce s sessionId ice).kept sessionId' = { s.kept sessionId' with ice := ice' } ∧
      (sessionId' ≠ sessionId → (s.kept sessionId').ice = none → ice' = none) := by
  obtain ⟨swept, hswept, hnone⟩ := kept_sweepPendingIce s sessionId'
  refine ⟨((rememberEarlyIce s sessionId ice).kept sessionId').ice, ?_, fun hne hice => ?_⟩
  · unfold rememberEarlyIce
    dsimp only
    split <;> split <;> rfl
  · have hget : ((sweepPendingIce s).kept sessionId').ice = none := by rw [hswept, hnone hice]
    unfold rememberEarlyIce
    dsimp only
    split <;> split
    · exact hget
    · exact (get_set_of_ne hne).trans hget
    · exact hget
    · exact (get_set_of_ne hne).trans hget

/-! ## Steps -/

def concerns (s : State) (e : Event) : Option Str :=
  match e with
  | .offer o _ => some o.sessionId
  | .disposed n _ | .decided n _ | .accepted n _ => s.calls[n]?.map fun c => c.offer.sessionId
  | .ice sessionId _ | .ended sessionId => some sessionId
  | .teardown i _ _ => s.peers[i]?.map Peer.sessionId
  | .tick _ => none

/-- An event about another session can only sweep the candidates of this one. -/
theorem kept_step_of_ne {s : State} {e : Event} {sessionId : Str} (h : concerns s e ≠ some sessionId) :
    ∃ ice, (step s e).kept sessionId = { s.kept sessionId with ice := ice } ∧
      ((s.kept sessionId).ice = none → ice = none) := by
  have hsame : ∀ k, k = s.kept sessionId → ∃ ice, k = { s.kept sessionId with ice := ice } ∧
      ((s.kept sessionId).ice = none → ice = none) := by
    rintro k rfl
    exact ⟨_, rfl, id⟩
  have hcalls : ∀ {n : Nat} {c : Call}, s.calls[n]? = some c → (s.calls[n]?.map fun c => c.offer.sessionId) ≠ some sessionId →
      sessionId ≠ c.offer.sessionId ∧ ∀ c', s.calls[n]? = some c' → c'.offer = c.offer := by
    intro n c hn hne
    refine ⟨fun heq => hne (by simp [hn, heq]), fun c' hc' => ?_⟩
    cases hn.symm.trans hc'
    rfl
  cases e with
  | offer o policy =>
    refine hsame _ ((kept_onOffer_of_ne (fun c hc => ?_) fun heq => h (by simp [concerns, heq])).trans
      (kept_start s o sessionId))
    obtain rfl : c = ⟨o, .over, none, false⟩ := by simpa using hc.symm
    rfl
  | disposed n policy =>
    refine hsame _ ?_
    unfold step onDisposed
    dsimp only
    split
    · rename_i o rebuildable peer closed hn
      obtain ⟨hne, hoffer⟩ := hcalls hn h
      split
      · exact kept_passGates_of_ne hoffer hne
      · exact State.kept_over_of_ne _ _ hne.symm fun c hc => hoffer c hc ▸ hne.symm
    · rfl
  | decided n decision =>
    refine hsame _ ?_
    unfold step onDecision
    dsimp only
    split
    · rename_i o peer closed hn
      obtain ⟨hne, hoffer⟩ := hcalls hn h
      split
      · refine (kept_build_of_ne (by exact hoffer) hne).trans ?_
        exact (State.kept_grantConsent_of_ne _ _ hne).trans (State.kept_note_of_ne _ _ hne.symm)
      · exact State.kept_over_of_ne _ _ hne.symm fun c hc => hoffer c hc ▸ hne.symm
    · rfl
  | accepted n ok =>
    refine hsame _ ?_
    unfold step onAccepted
    dsimp only
    split
    · rename_i o peer closed hn
      obtain ⟨hne, hoffer⟩ := hcalls hn h
      have hne' : ∀ c, s.calls[n]? = some c → c.offer.sessionId ≠ sessionId := fun c hc => hoffer c hc ▸ hne.symm
      split
      · refine (State.kept_goTo_of_ne _ _ (by exact hne')).trans ?_
        simp [hne]
      · refine (State.kept_over_of_ne _ _ (by exact hne.symm) (by exact hne')).trans ?_
        simp [hne]
    · rfl
  | ice sessionId' ice =>
    unfold step onIce
    dsimp only
    split
    · exact hsame _ rfl
    · split
      · exact hsame _ rfl
      · obtain ⟨ice', hice', hnone⟩ := kept_rememberEarlyIce s sessionId' ice sessionId
        exact ⟨ice', hice', hnone fun heq => h (by simp [concerns, heq])⟩
  | ended sessionId' =>
    have hne : sessionId ≠ sessionId' := fun heq => h (by simp [concerns, heq])
    refine hsame _ ?_
    have hnote := State.kept_note_of_ne s sessionId (e := .received sessionId') hne.symm
    unfold step onEnd
    dsimp only
    split <;> simp [hne, hnote]
  | teardown i checked reason =>
    refine hsame _ ?_
    unfold step onTeardown
    dsimp only
    split
    · rename_i p hp
      have hne : sessionId ≠ p.sessionId := fun heq => h (by simp [concerns, hp, heq])
      split
      · rfl
      · refine (State.kept_note_of_ne _ _ (e := .sentClose p.sessionId reason) hne.symm).trans ?_
        simp [hne]
    · rfl
  | tick d => exact hsame _ rfl

end Rcp.Sessions
