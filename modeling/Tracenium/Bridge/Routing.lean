-- SUMMARY: The gRPC bridge of the Linux service, where it pushes control messages, and when that is the agent connected last.
import Tracenium.Lib.Machine
import Tracenium.Ipc.Wire

/-!
`privsvc/linux/src/grpc-bridge.ts`. The bridge is one per process and pushes what the server sends into the sink of
one IPC connection. `startConnection` has no `await`, so a request is one step.
-/

open Utf16

namespace Bridge

/-! ## Messages -/

/-- The messages of the server, by the field that is set. A `ping`, like a message of a kind that
the bridge does not know, has no field that it looks at. -/
inductive ControlMessage
  | ack | runJob | remoteSessionOffer | remoteSessionIce | remoteSessionClose | remoteSessionError
  | rotateCert | policyUpdate | disconnect | agentUpdate | catalogResponse | selfInstallAck | ping
  deriving DecidableEq

/-- The method of the push that `handleControlMessage` makes of a message. -/
def ControlMessage.method : ControlMessage → Option String
  | .ack => some "grpc.ack"
  | .runJob => some "grpc.control.runJob"
  | .remoteSessionOffer => some "grpc.control.remoteSessionOffer"
  | .remoteSessionIce => some "grpc.control.remoteSessionIce"
  | .remoteSessionClose => some "grpc.control.remoteSessionClose"
  | .remoteSessionError => some "grpc.control.remoteSessionError"
  | .rotateCert => some "grpc.control.rotateCert"
  | .policyUpdate => some "grpc.control.policyUpdate"
  | .disconnect => some "grpc.control.disconnect"
  | .agentUpdate => some "grpc.control.agentUpdate"
  | .catalogResponse => some "grpc.control.catalogResponse"
  | .selfInstallAck => some "grpc.control.selfInstallAck"
  | .ping => none

structure Push where
  method : String
  tenantId : Option Str
  deviceId : Option Str
  connectionId : Option Str
  deriving DecidableEq

inductive Answer
  | success
  | fail (code tag : String)
  deriving DecidableEq

/-- What can be seen of the bridge. A push goes to the sink of a connection, which drops it when
its socket is destroyed. -/
inductive Action
  | answered (c : Nat) (answer : Answer)
  | tornDown (reason : String)
  | pushed (sink : Nat) (delivered : Bool) (msg : Push)
  deriving DecidableEq

/-! ## State -/

structure State where
  client : Bool
  call : Bool
  push : Option Nat
  connected : Bool
  connecting : Bool
  tenantId : Option Str
  deviceId : Option Str
  target : Option Str
  opened : Nat
  destroyed : List Nat
  log : List Action

def State.start : State :=
  ⟨false, false, none, false, false, none, none, none, 0, [], []⟩

/-- `push`: nothing happens without a sink. -/
def State.pushMethod (s : State) (method : String) : State :=
  match s.push with
  | none => s
  | some sink =>
    { s with
      log := s.log ++ [.pushed sink (!s.destroyed.contains sink) ⟨method, s.tenantId, s.deviceId, s.target⟩] }

def teardownBridge (s : State) (reason : String) : State :=
  let wasConnected := s.connected || s.connecting
  let s :=
    { s with
      connected := false
      connecting := false
      call := false
      client := false
      log := s.log ++ [.tornDown reason] }
  if wasConnected then s.pushMethod "grpc.disconnected" else s

/-! ## Connecting -/

def slash : UInt16 := 0x2F

/-- `s.replace(/^https?:\/\//, "")`. -/
def dropScheme (s : Str) : Str :=
  let http := ascii ['h', 't', 't', 'p', ':', '/', '/']
  let https := ascii ['h', 't', 't', 'p', 's', ':', '/', '/']
  if https.isPrefixOf s then s.drop https.length
  else if http.isPrefixOf s then s.drop http.length
  else s

def normalizeTarget (value : Str) : Option Str :=
  let target := (dropScheme (Ipc.trim value)).rdropWhile (· == slash)
  if target = [] then none else some target

structure ConnectParams where
  tenantId : Str
  deviceId : Str
  target : Str

/-- How far the certificates and the gRPC library let `startConnection` come, with the code of the
error that stops it. -/
inductive Setup
  | noClient (code : Option Nat)
  | noCall (code : Option Nat)
  | noHello (code : Option Nat)
  | ready

/-- `classifyGrpcError`. -/
def grpcTag : Option Nat → String
  | some 1 => "cancelled"
  | some 2 => "unknown"
  | some 3 => "invalid_argument"
  | some 4 => "deadline_exceeded"
  | some 5 => "not_found"
  | some 6 => "already_exists"
  | some 7 => "permission_denied"
  | some 8 => "resource_exhausted"
  | some 9 => "failed_precondition"
  | some 10 => "aborted"
  | some 11 => "out_of_range"
  | some 12 => "unimplemented"
  | some 13 => "internal"
  | some 14 => "unavailable"
  | some 15 => "data_loss"
  | some 16 => "unauthenticated"
  | _ => "error"

/-- The state after `startConnection`, and the code of the error if it throws. -/
def startConnection (s : State) (params : ConnectParams) (pushSink : Nat) (setup : Setup) :
    State × Option (Option Nat) :=
  if s.connected || s.connecting then (s, none)
  else
    let s := if s.call || s.client then teardownBridge s "pre_connect_cleanup" else s
    let s :=
      { s with
        connecting := true
        push := some pushSink
        tenantId := some params.tenantId
        deviceId := some params.deviceId }
    match normalizeTarget params.target with
    | none => (s, some none) -- `connecting` stays set
    | some target =>
      let s := { s with target := some target }
      if params.tenantId = [] ∨ params.deviceId = [] then
        ({ s with connecting := false }, some none)
      else
        match setup with
        | .noClient code => ({ s with connecting := false }, some code)
        | .noCall code => ({ s with client := true, connecting := false }, some code)
        | .noHello code =>
          ({ s with client := true, call := true, connecting := false }, some code)
        | .ready =>
          let s := { s with client := true, call := true, connected := true }
          ({ s.pushMethod "grpc.connected" with connecting := false }, none)

def handleGrpcConnect (s : State) (params : ConnectParams) (c : Nat) (setup : Setup) : State :=
  let r := startConnection s params c setup
  let answer :=
    match r.2 with
    | none => .success
    | some code => .fail "grpc_connect_failed" (grpcTag code)
  { r.1 with log := r.1.log ++ [.answered c answer] }

/-! ## Losing the connection -/

inductive Loss
  | streamError
  | streamEnd
  | streamClose
  | channelShutdown
  | channelTransientFailure
  | deadStream
  | certRenewed
  deriving DecidableEq

/-- The listeners are those of the call, and the channel and the silence are watched while the
bridge is connected. -/
def lose (s : State) : Loss → State
  | .streamError =>
    if s.call then teardownBridge (s.pushMethod "grpc.control.streamClosed") "stream_error" else s
  | .streamEnd => if s.call then teardownBridge s "stream_end" else s
  | .streamClose => if s.call then teardownBridge s "stream_close" else s
  | .channelShutdown => if s.connected then teardownBridge s "channel_shutdown" else s
  | .channelTransientFailure =>
    if s.connected then teardownBridge s "channel_transient_failure" else s
  | .deadStream =>
    if s.connected && s.call then
      teardownBridge (s.pushMethod "grpc.control.deadStream") "dead_stream_watchdog"
    else s
  | .certRenewed => teardownBridge s "cert_renewed"

def handleControlMessage (s : State) (msg : ControlMessage) : State :=
  if s.call then
    match msg.method with
    | some method => s.pushMethod method
    | none => s
  else s

/-! ## Runs -/

/-- An IPC connection is opened or its socket is destroyed, one of its requests is handled, or
something happens to the bridge. The requests of a connection that were read before its end are
handled even after it. -/
inductive Event
  | opened
  | destroyed (c : Nat)
  | connect (c : Nat) (params : ConnectParams) (setup : Setup)
  | close (c : Nat)
  | control (msg : ControlMessage)
  | lost (loss : Loss)
  | alive

def step (s : State) : Event → State
  | .opened => { s with opened := s.opened + 1 }
  | .destroyed c => { s with destroyed := c :: s.destroyed }
  | .connect c params setup => if c < s.opened then handleGrpcConnect s params c setup else s
  | .close c => if c < s.opened then teardownBridge s "manual_close" else s
  | .control msg => handleControlMessage s msg
  | .lost loss => lose s loss
  | .alive => if s.connected then s.pushMethod "grpc.alive" else s

def machine : Machine State Event where
  init := .start
  step := step

end Bridge

/-!
# Push routing

After a `grpc.connect` is answered with success, what the server sends belongs to the connection it
came from, until another connection's request succeeds or the bridge is torn down.
-/

namespace Bridge

/-! ## The connection served -/

/-- The connection whose `grpc.connect` was the last one answered with success, unless the bridge
was torn down since. -/
def ownerAfter (owner : Option Nat) : Action → Option Nat
  | .answered c .success => some c
  | .answered _ (.fail _ _) => owner
  | .tornDown _ => none
  | .pushed _ _ _ => owner

def State.owner (s : State) : Option Nat := s.log.foldl ownerAfter none

/-- Should a control message come in now, it is pushed into the sink of the connection served. -/
def Routed (s : State) : Prop :=
  ∀ c, s.owner = some c → s.call = true → ∀ msg method, msg.method = some method →
    ∃ delivered, (step s (.control msg)).log =
      s.log ++ [.pushed c delivered ⟨method, s.tenantId, s.deviceId, s.target⟩]

/-- A `grpc.connect` that comes while the bridge is connected comes from the connection whose sink
the bridge has. -/
def ConnectFromSink (s : State) : Event → Prop
  | .connect c _ _ => c < s.opened → s.connected = true → s.push = some c
  | _ => True

/-! ## What the operations do -/

theorem owner_snoc (s : State) (a : Action) :
    ({ s with log := s.log ++ [a] } : State).owner = ownerAfter s.owner a := by
  simp [State.owner]

theorem pushMethod_cases (s : State) (method : String) :
    (s.push = none ∧ s.pushMethod method = s) ∨
    ∃ sink delivered, s.push = some sink ∧ s.pushMethod method =
      { s with
        log := s.log ++ [.pushed sink delivered ⟨method, s.tenantId, s.deviceId, s.target⟩] } := by
  unfold State.pushMethod
  cases h : s.push with
  | none => exact .inl ⟨rfl, rfl⟩
  | some sink => exact .inr ⟨sink, _, rfl, rfl⟩

/-- Pushing changes nothing but the log, and not the connection served. -/
theorem pushMethod_eq (s : State) (method : String) : ∃ log, s.pushMethod method = { s with log := log } ∧
      ({ s with log := log } : State).owner = s.owner := by
  rcases pushMethod_cases s method with ⟨-, h⟩ | ⟨sink, delivered, -, h⟩
  · exact ⟨s.log, h, rfl⟩
  · exact ⟨_, h, owner_snoc s _⟩

/-- After a teardown there is neither a call nor a connection served. -/
theorem teardownBridge_spec (s : State) (reason : String) :
    (teardownBridge s reason).connected = false ∧ (teardownBridge s reason).connecting = false ∧
      (teardownBridge s reason).call = false ∧ (teardownBridge s reason).client = false ∧
      (teardownBridge s reason).owner = none := by
  have hlog : ((s.log ++ [Action.tornDown reason]).foldl ownerAfter none) = none := by
    simp [ownerAfter]
  unfold teardownBridge
  dsimp only
  split
  · obtain ⟨log, hpush, howner⟩ := pushMethod_eq
      { s with
        connected := false, connecting := false, call := false, client := false,
        log := s.log ++ [.tornDown reason] } "grpc.disconnected"
    rw [hpush]
    exact ⟨rfl, rfl, rfl, rfl, howner.trans hlog⟩
  · exact ⟨rfl, rfl, rfl, rfl, hlog⟩

variable {s : State}

theorem startConnection_busy (h : (s.connected || s.connecting))
    (params : ConnectParams) (c : Nat) (setup : Setup) : startConnection s params c setup = (s, none) := by
  rw [startConnection, if_pos h]

/-- From a bridge that is not connected, a request connects it with the sink of its connection, or
it fails and nobody is served. -/
theorem startConnection_idle (h : (s.connected || s.connecting) = false)
    (howner : s.owner = none) (params : ConnectParams) (c : Nat) (setup : Setup) :
    let r := startConnection s params c setup
    (r.2 = none ∧ r.1.connected ∧ r.1.connecting = false ∧ r.1.call ∧ r.1.push = some c) ∨
      ((∃ code, r.2 = some code) ∧ r.1.connected = false ∧
        (r.1.connecting → r.1.call = false) ∧ r.1.owner = none) := by
  rw [startConnection, if_neg (by simp [h])]
  obtain ⟨s₀, hs₀, hconnected, hconnecting, hcall, howner₀⟩ : ∃ s₀ : State,
      (if s.call || s.client then teardownBridge s "pre_connect_cleanup" else s) = s₀ ∧
        s₀.connected = false ∧ s₀.connecting = false ∧ s₀.call = false ∧ s₀.owner = none := by
    split
    · obtain ⟨h₁, h₂, h₃, -, h₄⟩ := teardownBridge_spec s "pre_connect_cleanup"
      exact ⟨_, rfl, h₁, h₂, h₃, h₄⟩
    · rename_i hclean
      simp only [Bool.or_eq_true, not_or, Bool.not_eq_true] at hclean
      simp only [Bool.or_eq_false_iff] at h
      exact ⟨s, rfl, h.1, h.2, hclean.1, howner⟩
  rw [hs₀]
  dsimp only
  split
  · exact .inr ⟨⟨none, rfl⟩, hconnected, fun _ => hcall, howner₀⟩
  · split
    · exact .inr ⟨⟨none, rfl⟩, hconnected, nofun, howner₀⟩
    · cases setup with
      | noClient code => exact .inr ⟨⟨code, rfl⟩, hconnected, nofun, howner₀⟩
      | noCall code => exact .inr ⟨⟨code, rfl⟩, hconnected, nofun, howner₀⟩
      | noHello code => exact .inr ⟨⟨code, rfl⟩, hconnected, nofun, howner₀⟩
      | ready =>
        left
        dsimp only
        obtain ⟨log, hpush, -⟩ := pushMethod_eq _ "grpc.connected"
        rw [hpush]
        exact ⟨rfl, rfl, rfl, rfl, rfl⟩

/-- A request whose `startConnection` returns is answered with success. -/
theorem handleGrpcConnect_of_none {params : ConnectParams} {c : Nat} {setup : Setup}
    (h : (startConnection s params c setup).2 = none) :
    handleGrpcConnect s params c setup =
      { (startConnection s params c setup).1 with
        log := (startConnection s params c setup).1.log ++ [.answered c .success] } := by
  unfold handleGrpcConnect
  simp only [h]

/-- A request whose `startConnection` throws is answered with a failure. -/
theorem handleGrpcConnect_of_some {params : ConnectParams} {c : Nat} {setup : Setup}
    {code : Option Nat} (h : (startConnection s params c setup).2 = some code) : handleGrpcConnect s params c setup =
      { (startConnection s params c setup).1 with log := (startConnection s params c setup).1.log ++
          [.answered c (.fail "grpc_connect_failed" (grpcTag code))] } := by
  unfold handleGrpcConnect
  simp only [h]

/-! ## Consistent states -/

/-- A connected bridge serves the connection whose sink it has, and an idle one serves nobody. -/
structure Consistent (s : State) : Prop where
  connected : s.connected = true → s.call = true ∧ s.connecting = false ∧ ∃ c, s.push = some c ∧ s.owner = some c
  connecting : s.connecting = true → s.call = false
  idle : (s.connected || s.connecting) = false → s.owner = none

theorem Consistent.pushMethod (h : Consistent s) (method : String) : Consistent (s.pushMethod method) := by
  obtain ⟨log, hpush, howner⟩ := pushMethod_eq s method
  rw [hpush]
  refine ⟨fun hc => ?_, h.connecting, fun hidle => howner.trans (h.idle hidle)⟩
  rw [howner]
  exact h.connected hc

theorem consistent_teardownBridge (s : State) (reason : String) : Consistent (teardownBridge s reason) := by
  obtain ⟨hconnected, hconnecting, -, -, howner⟩ := teardownBridge_spec s reason
  refine ⟨fun h => ?_, fun h => ?_, fun _ => howner⟩
  · rw [hconnected] at h
    cases h
  · rw [hconnecting] at h
    cases h

theorem Consistent.teardown_if (h : Consistent s) (p : Prop) [Decidable p] (s' : State) (reason : String) :
    Consistent (if p then teardownBridge s' reason else s) := by
  split
  · exact consistent_teardownBridge s' reason
  · exact h

theorem Consistent.lose (h : Consistent s) (loss : Loss) : Consistent (lose s loss) := by
  cases loss with
  | certRenewed => exact consistent_teardownBridge s _
  | _ => exact h.teardown_if _ _ _

theorem Consistent.handleControlMessage (h : Consistent s) (msg : ControlMessage) :
    Consistent (handleControlMessage s msg) := by
  unfold Bridge.handleControlMessage
  split
  · split
    · exact h.pushMethod _
    · exact h
  · exact h

/-- A request from the connection whose sink the bridge has, or to a bridge that is not connected,
leaves the bridge serving the connection whose sink it has. -/
theorem Consistent.handleGrpcConnect (h : Consistent s) (params : ConnectParams)
    {c : Nat} (hsink : s.connected → s.push = some c) (setup : Setup) :
    Consistent (handleGrpcConnect s params c setup) := by
  cases hbusy : s.connected || s.connecting with
  | true =>
    have hsame := startConnection_busy hbusy params c setup
    rw [handleGrpcConnect_of_none (by rw [hsame]), hsame]
    refine ⟨fun hc => ?_, h.connecting, fun hidle => ?_⟩
    · obtain ⟨hcall, hconnecting, -⟩ := h.connected hc
      exact ⟨hcall, hconnecting, c, hsink hc, owner_snoc s _⟩
    · rw [show (s.connected || s.connecting) = false from hidle] at hbusy
      cases hbusy
  | false =>
    rcases startConnection_idle hbusy (h.idle hbusy) params c setup with
      ⟨hok, hconnected, hconnecting, hcall, hpush⟩ | ⟨⟨code, hfail⟩, hconnected, hcall, howner⟩
    · rw [handleGrpcConnect_of_none hok]
      refine ⟨fun _ => ⟨hcall, hconnecting, c, hpush, owner_snoc _ _⟩, fun hc => ?_,
        fun hidle => ?_⟩
      · exact absurd hc (by simp [hconnecting])
      · exact absurd hidle (by simp [hconnected])
    · rw [handleGrpcConnect_of_some hfail]
      refine ⟨fun hc => ?_, hcall, fun _ => (owner_snoc _ _).trans howner⟩
      exact absurd hc (by simp [hconnected])

theorem Consistent.step (h : Consistent s) {e : Event} (he : ConnectFromSink s e) : Consistent (step s e) := by
  cases e with
  | opened => exact ⟨h.connected, h.connecting, h.idle⟩
  | destroyed c => exact ⟨h.connected, h.connecting, h.idle⟩
  | connect c params setup =>
    unfold Bridge.step
    dsimp only
    split
    · exact h.handleGrpcConnect params (he ‹_›) setup
    · exact h
  | close c => exact h.teardown_if _ _ _
  | control msg => exact h.handleControlMessage msg
  | lost loss => exact h.lose loss
  | alive =>
    unfold Bridge.step
    dsimp only
    split
    · exact h.pushMethod _
    · exact h

/-! ## Routing -/

/-- With a call, a message is pushed into the sink that the bridge has. -/
theorem step_control {c : Nat} (hcall : s.call) (hpush : s.push = some c)
    {msg : ControlMessage} {method : String} (hmethod : msg.method = some method) :
    ∃ delivered, (step s (.control msg)).log =
      s.log ++ [.pushed c delivered ⟨method, s.tenantId, s.deviceId, s.target⟩] := by
  rw [step, handleControlMessage, if_pos hcall, hmethod]
  dsimp only
  rw [State.pushMethod, hpush]
  exact ⟨_, rfl⟩

theorem Consistent.routed (h : Consistent s) : Routed s := by
  intro c howner hcall msg method hmethod
  cases hconnected : s.connected with
  | true =>
    obtain ⟨-, -, c', hpush, howner'⟩ := h.connected hconnected
    obtain rfl : c = c' := Option.some.inj (howner.symm.trans howner')
    exact step_control hcall hpush hmethod
  | false =>
    cases hconnecting : s.connecting with
    | true =>
      rw [h.connecting hconnecting] at hcall
      cases hcall
    | false =>
      rw [h.idle (by rw [hconnected, hconnecting]; rfl)] at howner
      cases howner

/-- A request from another connection is answered with success, but the messages go to the old
sink. -/
theorem not_routed_of_not_connectFromSink {e : Event} (h : Consistent s)
    (he : ¬ ConnectFromSink s e) : ¬ Routed (step s e) := by
  cases e with
  | connect c params setup =>
    simp only [ConnectFromSink, Classical.not_imp] at he
    obtain ⟨hopened, hconnected, hpush⟩ := he
    obtain ⟨hcall, -, sink, hsink, -⟩ := h.connected hconnected
    have hstep : step s (.connect c params setup) =
        { s with log := s.log ++ [.answered c .success] } := by
      have hsame := startConnection_busy (s := s) (by rw [hconnected]; rfl) params c setup
      rw [step, if_pos hopened, handleGrpcConnect_of_none (by rw [hsame]), hsame]
    intro hrouted
    rw [hstep] at hrouted
    obtain ⟨_, hpushed⟩ := hrouted c (owner_snoc s _) hcall .ack "grpc.ack" rfl
    obtain ⟨_, hold⟩ := step_control (s := { s with log := s.log ++ [.answered c .success] })
      hcall hsink (rfl : ControlMessage.ack.method = some "grpc.ack")
    rw [hold, List.append_cancel_left_eq, List.singleton_inj, Action.pushed.injEq] at hpushed
    rw [hsink, hpushed.1] at hpush
    exact hpush rfl
  | _ => exact absurd trivial he

/-- In a run, control messages always go to the connection served, if and only if every
`grpc.connect` that came while the bridge was connected came from the connection whose sink it
had. -/
theorem always_routed_iff (tr : List Event) : machine.Always Routed tr ↔ machine.Guarded ConnectFromSink tr := by
  refine Machine.always_iff_guarded (I := Consistent) ?_ ?_ ?_ ?_ tr
  · exact ⟨nofun, nofun, fun _ => rfl⟩
  · intro s e h he
    exact h.step he
  · intro s h
    exact h.routed
  · intro s e h he
    exact not_routed_of_not_connectFromSink h he

/-- An agent that connects, dies, and connects again when it was restarted. -/
def restart : List Event :=
  let params : ConnectParams := ⟨[0x31], [0x32], [0x33]⟩
  [.opened, .connect 0 params .ready, .destroyed 0, .opened, .connect 1 params .ready]

/-- A job for the restarted agent is pushed into the sink of the old connection and dropped. -/
theorem not_always_routed_restart : ¬ machine.Always Routed restart ∧ (machine.run restart).owner = some 1 ∧
      (machine.run (restart ++ [.control .runJob])).log.getLast? =
        some (.pushed 0 false ⟨"grpc.control.runJob", some [0x31], some [0x32], some [0x33]⟩) := by
  refine ⟨fun h => ?_, by decide, by decide⟩
  have hsink := (always_routed_iff restart).mp h (restart.take 4) (.connect 1 _ _)
    (List.prefix_refl _) (by decide) (by decide)
  revert hsink
  decide

end Bridge
