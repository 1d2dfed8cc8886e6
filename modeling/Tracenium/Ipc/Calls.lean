-- SUMMARY: The calls of an IPC client, what became of them, and a lane of the Windows client with one request in flight.
import Tracenium.Lib.Machine
import Tracenium.Lib.OrderedMap
import Tracenium.Lib.JsonText

/-!
What a client and the other end of its sockets have done so far. A promise that is settled twice is listed twice.
-/

open Utf16 List Prod

namespace Ipc

/-- A socket takes writes until its peer ends it, and data comes in until it is destroyed. -/
inductive Socket
  | writable
  | ended
  | destroyed
  deriving DecidableEq

/-- A request: what it is correlated by, its method, and whether `JSON.stringify` takes it. -/
structure Request where
  id : Str
  method : Str
  serializable : Bool
  deriving DecidableEq

/-- How a promise is settled: with the response to a call, or with an error. -/
inductive Outcome
  | resolved (answered : Nat)
  | rejected (error : Str)
  deriving DecidableEq

structure World where
  sockets : List Socket
  requests : List Request
  sent : List (Nat × Nat)
  answered : List Nat
  outcomes : List (Nat × Outcome)

namespace World

def start : World := ⟨[], [], [], [], []⟩

/-- The id of the `n`-th call. -/
def idOf (w : World) (n : Nat) : Str := ((w.requests[n]?).map Request.id).getD []

def methodOf (w : World) (n : Nat) : Str := ((w.requests[n]?).map Request.method).getD []

def serializable (w : World) (n : Nat) : Bool :=
  ((w.requests[n]?).map Request.serializable).getD false

def alive (w : World) (k : Nat) : Bool := (w.sockets[k]?).any (· != .destroyed)

/-- `!sock || sock.destroyed || sock.writable === false`, negated. -/
def writable (w : World) (socket : Option Nat) : Option Nat :=
  match socket with
  | some k => if w.sockets[k]? = some .writable then some k else none
  | none => none

def isSettled (w : World) (n : Nat) : Bool := w.outcomes.any fun e => e.1 == n

/-- The response to the call may still come: it was written to a socket that is not destroyed, and
the server has not answered it. -/
def expects (w : World) (n : Nat) : Bool :=
  w.sent.any (fun e => e.1 == n && w.alive e.2) && !w.answered.contains n

def settle (w : World) (n : Nat) (o : Outcome) : World :=
  { w with outcomes := w.outcomes ++ [(n, o)] }

def add (w : World) (r : Request) : World := { w with requests := w.requests ++ [r] }

def send (w : World) (n k : Nat) : World := { w with sent := w.sent ++ [(n, k)] }

def answer (w : World) (n : Nat) : World := { w with answered := w.answered ++ [n] }

def connect (w : World) : World := { w with sockets := w.sockets ++ [.writable] }

def destroy (w : World) (k : Nat) : World := { w with sockets := w.sockets.set k .destroyed }

/-- `sock?.destroy()`. -/
def destroySocket (w : World) (socket : Option Nat) : World :=
  { w with
    sockets :=
      match socket with
      | some k => w.sockets.set k .destroyed
      | none => w.sockets }

def endSocket (w : World) (k : Nat) : World :=
  if w.sockets[k]? = some .writable then { w with sockets := w.sockets.set k .ended } else w

/-! ## What the operations do -/

section Operations

variable {w : World}

@[simp] theorem idOf_settle (n m : Nat) (o : Outcome) : (w.settle n o).idOf m = w.idOf m := rfl

theorem idOf_add_of_lt {n : Nat} (hn : n < w.requests.length) (r : Request) : (w.add r).idOf n = w.idOf n := by
  rw [idOf, idOf, add, getElem?_append_left hn]

@[simp] theorem idOf_add_length (r : Request) : (w.add r).idOf w.requests.length = r.id := by
  simp [idOf, add]

theorem isSettled_iff {n : Nat} : w.isSettled n ↔ n ∈ w.outcomes.map fst := by
  simp [isSettled]

theorem isSettled_eq_false_iff {n : Nat} : w.isSettled n = false ↔ n ∉ w.outcomes.map fst := by
  rw [← isSettled_iff, Bool.not_eq_true]

theorem isSettled_settle {n m : Nat} {o : Outcome} :
    (w.settle n o).isSettled m ↔ w.isSettled m ∨ m = n := by
  simp [isSettled_iff, settle]

theorem isSettled_settle_eq_false {n m : Nat} {o : Outcome} :
    (w.settle n o).isSettled m = false ↔ w.isSettled m = false ∧ m ≠ n := by
  rw [← Bool.not_eq_true, isSettled_settle, not_or, Bool.not_eq_true]

theorem nodup_settle {n : Nat} (h : (w.outcomes.map fst).Nodup) (hn : w.isSettled n = false)
    (o : Outcome) : ((w.settle n o).outcomes.map fst).Nodup := by
  rw [settle, map_append, map_singleton]
  refine nodup_append.mpr ⟨h, nodup_singleton n, ?_⟩
  intro a ha b hb
  rw [mem_singleton.mp hb]
  rintro rfl
  exact isSettled_eq_false_iff.mp hn ha

theorem expects_iff {n : Nat} : w.expects n ↔ (∃ k, (n, k) ∈ w.sent ∧ w.alive k) ∧ n ∉ w.answered := by
  simp only [expects, Bool.and_eq_true, any_eq_true, beq_iff_eq, Bool.not_eq_true',
    contains_eq_mem, decide_eq_false_iff_not]
  constructor
  · rintro ⟨⟨⟨m, k⟩, hmem, rfl, halive⟩, hanswered⟩
    exact ⟨⟨k, hmem, halive⟩, hanswered⟩
  · rintro ⟨⟨k, hmem, halive⟩, hanswered⟩
    exact ⟨⟨(n, k), hmem, rfl, halive⟩, hanswered⟩

/-- What is expected depends on the sockets that are alive. -/
theorem expects_mono (w w' : World) (hsent : w'.sent = w.sent)
    (halive : ∀ k, w'.alive k → w.alive k) (hanswered : w.answered ⊆ w'.answered)
    {n : Nat} (h : w'.expects n) : w.expects n := by
  obtain ⟨⟨k, hk, hlive⟩, hn⟩ := expects_iff.mp h
  exact expects_iff.mpr ⟨⟨k, hsent ▸ hk, halive k hlive⟩, fun hmem => hn (hanswered hmem)⟩

theorem writable_eq_some {socket : Option Nat} {k : Nat} (h : w.writable socket = some k) :
    socket = some k ∧ w.sockets[k]? = some .writable := by
  unfold writable at h
  split at h
  · split at h
    · obtain rfl := Option.some.inj h
      exact ⟨rfl, ‹_›⟩
    · cases h
  · cases h

theorem alive_of_writable {k : Nat} (h : w.sockets[k]? = some .writable) : w.alive k := by
  rw [alive, h]
  rfl

/-- Destroying a socket wakes no other. -/
theorem alive_destroy {k j : Nat} (h : (w.destroy k).alive j) : w.alive j := by
  rw [alive, destroy, getElem?_set] at h
  split at h
  · split at h <;> simp at h
  · exact h

theorem length_destroySocket (socket : Option Nat) : (w.destroySocket socket).sockets.length = w.sockets.length := by
  cases socket with
  | none => rfl
  | some k => exact length_set

theorem alive_destroySocket {socket : Option Nat} {j : Nat}
    (h : (w.destroySocket socket).alive j) : w.alive j := by
  cases socket with
  | none => exact h
  | some k => exact alive_destroy h

/-- Data comes in on a socket that the peer ended. -/
theorem alive_endSocket (k j : Nat) : (w.endSocket k).alive j = w.alive j := by
  unfold endSocket
  split
  · rename_i hk
    by_cases hj : k = j
    · subst hj
      obtain ⟨hlt, -⟩ := List.getElem?_eq_some_iff.mp hk
      rw [alive, alive, hk, getElem?_set_self hlt]
      rfl
    · rw [alive, alive, getElem?_set_ne hj]
  · rfl

theorem alive_connect_of_lt {k : Nat} (hk : k < w.sockets.length) : w.connect.alive k = w.alive k := by
  rw [alive, alive, connect, getElem?_append_left hk]

end Operations

end World

end Ipc

/-!
# A lane of the Windows client

`PipeLane` of `src/priv/privsvc-client-windows.ts`. The pipe's server is serial, so the lane writes
a request when the one before it is settled. Rejecting the request in flight pumps the lane, also
while the lane is being closed.
-/

namespace Ipc.Windows

def MAX_PENDING : Nat := 500

/-- The lane: its socket, the calls waiting to be written, the request in flight with its id and
method, the pending calls by their ids and those whose timers are armed. `behind` lists, for every
call, the methods that were in the lane when it was queued, and `torn` the calls that were queued
when the lane was closed or lost its socket. -/
structure Lane extends World where
  name : Str
  socket : Option Nat
  queue : List Nat
  inFlight : Option (Str × Str)
  pending : OrderedMap Str Nat
  timers : List Nat
  closedByClient : Bool
  behind : List (List Str)
  torn : List Nat

def Lane.start (name : Str) : Lane := ⟨.start, name, none, [], none, .empty, [], false, [], []⟩

namespace Lane

/-- The timer of a call is cleared, and its promise is settled. -/
def settled (s : Lane) (n : Nat) (o : Outcome) : Lane :=
  { s with toWorld := s.settle n o, timers := s.timers.filter (· ≠ n) }

/-- `pump` with the lane free and the calls `queue` waiting. -/
def pumpQueue (writeError : Str) (s : Lane) : List Nat → Lane
  | [] => { s with queue := [] }
  | n :: queue =>
    if s.isSettled n then pumpQueue writeError s queue
    else
      match s.writable s.socket with
      | none =>
        pumpQueue writeError (s.settled n (.rejected (text "PrivSvc socket not available"))) queue
      | some k =>
        let id := s.idOf n
        let s :=
          { s with
            queue := queue
            timers := s.timers ++ [n]
            inFlight := some (id, s.methodOf n)
            pending := s.pending.set id n }
        if s.serializable n then { s with toWorld := s.send n k }
        else
          pumpQueue writeError
            ({ s with pending := s.pending.delete id, inFlight := none }.settled n
              (.rejected writeError)) queue

def pump (writeError : Str) (s : Lane) : Lane :=
  if s.inFlight.isSome then s else s.pumpQueue writeError s.queue

def finish (writeError : Str) (s : Lane) (id : Str) : Lane :=
  { s with inFlight := if s.inFlight.map fst = some id then none else s.inFlight }.pump
    writeError

/-- A pending call is settled with its slot given back, and the lane goes on. -/
def settlePending (writeError : Str) (s : Lane) (id : Str) (n : Nat) (o : Outcome) : Lane :=
  ({ s with pending := s.pending.delete id }.settled n o).finish writeError id

def laneAhead (s : Lane) : List Str :=
  (s.inFlight.map snd).toList ++ s.queue.map s.methodOf

/-- A call whose promise is rejected at once, with an id of its own. -/
def refuse (s : Lane) (req : Request) (error : Str) : Lane :=
  { s with
    toWorld := (s.add req).settle s.requests.length (.rejected error)
    behind := s.behind ++ [[]] }

/-- `call`. The error of `JSON.stringify` or `write` is `writeError`. -/
def call (writeError : Str) (s : Lane) (req : Request) (randomUUID : Str) : Lane :=
  if s.pending.size + s.queue.length ≥ MAX_PENDING then
    s.refuse req
      (text "PrivSvc pending requests overflow (" ++ Json.decimal MAX_PENDING ++ text ", " ++
        s.name ++ text " lane)")
  else
    let req := { req with id := if req.id = [] then randomUUID else req.id }
    { s with
      toWorld := s.add req
      behind := s.behind ++ [s.laneAhead]
      queue := s.queue ++ [s.requests.length] }.pump writeError

/-- The error of a call that timed out, after it had waited in the queue. -/
def timeoutError (timeoutOf : Str → Nat) (s : Lane) (n waitedMs : Nat) : Str :=
  let behind := (s.behind[n]?).getD []
  let lane :=
    if behind = [] then []
    else
      text " (waited " ++ Json.decimal waitedMs ++ text "ms for the IPC " ++ s.name ++
        text " lane behind " ++ (text ", ").intercalate behind ++ text ")"
  text "PrivSvc timeout: " ++ s.methodOf n ++ text " did not answer within " ++
    Json.decimal (timeoutOf (s.methodOf n)) ++ text "ms" ++ lane

def timer (timeoutOf : Str → Nat) (writeError : Str) (s : Lane) (n waitedMs : Nat) : Lane :=
  if n ∈ s.timers then
    s.settlePending writeError (s.idOf n) n (.rejected (s.timeoutError timeoutOf n waitedMs))
  else s

def response (writeError : Str) (s : Lane) (n : Nat) : Lane :=
  if s.expects n then
    let s := { s with toWorld := s.answer n }
    match s.pending.get (s.idOf n) with
    | some m => s.settlePending writeError (s.idOf n) m (.resolved n)
    | none => s
  else s

/-- Everything in the queue is rejected, and nothing counts as in flight. -/
def drainQueue (s : Lane) (error : Str) : Lane :=
  { s with
    queue := []
    inFlight := none
    toWorld :=
      { s.toWorld with
        outcomes := s.outcomes ++ (s.queue.filter fun n => !s.isSettled n).map fun n => (n, .rejected error) } }

/-- The loop that rejects all pending calls, of which there may come more as the lane is pumped:
each turn takes one from the pending calls or the queue. -/
def rejectPending (writeError : Str) (error : Str → Str) : Nat → Lane → Lane
  | 0, s => s
  | turns + 1, s =>
    match s.pending.entries with
    | [] => s
    | (id, n) :: _ =>
      rejectPending writeError error turns (s.settlePending writeError id n (.rejected (error id)))

def rejectAll (writeError : Str) (error : Str → Str) (s : Lane) : Lane :=
  rejectPending writeError error (s.pending.size + s.queue.length) s

def onSocketError (writeError : Str) (s : Lane) (errMessage : Str) : Lane :=
  let sock := s.socket
  let s := { s with socket := none }.drainQueue
    (if errMessage = [] then text "PrivSvc socket error" else errMessage)
  let s := s.rejectAll writeError fun id =>
    if errMessage = [] then text "PrivSvc socket error (" ++ id ++ text ")" else errMessage
  { s with toWorld := s.destroySocket sock }

def onSocketClose (writeError : Str) (s : Lane) : Lane :=
  let s := (s.drainQueue (text "PrivSvc connection closed")).rejectAll writeError fun id =>
    text "PrivSvc connection closed (" ++ id ++ text ")"
  { s with socket := none }

def close (writeError : Str) (s : Lane) : Lane :=
  let s := { s with closedByClient := true }.rejectAll writeError fun id =>
    text "PrivSvc client closed (" ++ id ++ text ")"
  { s with toWorld := s.destroySocket s.socket, socket := none }

/-- The lane is torn down, which is written down for the calls in its queue. -/
def tear (s : Lane) (teardown : Lane → Lane) : Lane :=
  { teardown s with torn := s.torn ++ s.queue }

end Lane

/-! ## Runs -/

/-- A socket is connected, a call is made or refused, or something happens to a call, a socket or
the lane. Node destroys a socket on its error, and it is gone when it is closed. -/
inductive Event
  | connect
  | call (req : Request) (randomUUID : Str)
  | refuse (req : Request) (error : Str)
  | response (n : Nat)
  | timer (n waitedMs : Nat)
  | ended (k : Nat)
  | error (k : Nat) (errMessage : Str)
  | closed (k : Nat)
  | close

/-- What the lane gets from outside: its name, the budgets of the methods, and the error of a
request that cannot be written. -/
structure Config where
  name : Str
  timeoutOf : Str → Nat
  writeError : Str

def step (c : Config) (s : Lane) : Event → Lane
  | .connect =>
    { s with toWorld := s.toWorld.connect, socket := some s.sockets.length, closedByClient := false }
  | .call req randomUUID => s.call c.writeError req randomUUID
  | .refuse req error => s.refuse req error
  | .response n => s.response c.writeError n
  | .timer n waitedMs => s.timer c.timeoutOf c.writeError n waitedMs
  | .ended k => { s with toWorld := s.endSocket k }
  | .error k errMessage =>
    { s with toWorld := s.destroy k }.tear fun s => s.onSocketError c.writeError errMessage
  | .closed k => { s with toWorld := s.destroy k }.tear fun s => s.onSocketClose c.writeError
  | .close => s.tear fun s => s.close c.writeError

def machine (c : Config) : Machine Lane Event where
  init := .start c.name
  step := step c

end Ipc.Windows
