-- SUMMARY: File integrity passes: what changed since the last one, and the message that says so.
import Tracenium.Lib.Inventory
import Tracenium.Lib.JsonObject
import Tracenium.Lib.JsonText
import Tracenium.Outbox.Store

/-!
`src/plugins/scp/file-integrity-pipeline.ts` over the outbox, from what `scanFileIntegrity` returns.
The id of a set has no `|`, so the text `keyOf(setId, path)` is taken as the pair.
-/

open Utf16 Inventory

namespace Fim

def DAY_MS : Int := 86400000

/-- A set and a path in it. -/
abbrev Key := Str × Str

structure FileState where
  sha256 : Option Str
  hashed : Bool
  sizeBytes : Nat
  modifiedAtUtc : Str
  mtimeMs : Int
  deriving DecidableEq

abbrev Files := OrderedMap Key FileState

inductive Scope
  | collected
  | notConfigured
  | unsupported
  | unavailable
  deriving DecidableEq

def Scope.name : Scope → Str
  | .collected => text "collected"
  | .notConfigured => text "not_configured"
  | .unsupported => text "unsupported"
  | .unavailable => text "unavailable"

structure Scan where
  scope : Scope
  sets : Nat
  setIds : List Str
  files : Files
  unreadable : Nat
  truncated : Bool
  error : Option Str

/-- What two states of a file are compared by: the hash, or the size of a file that is too large to
be hashed. -/
def contentOf (f : FileState) : Option Str ⊕ Nat :=
  if f.hashed then .inl f.sha256 else .inr f.sizeBytes

def computeFileIntegrityDelta (current previous : Files) : Delta Key FileState :=
  diff contentOf previous current

/-! ## Messages -/

inductive Update
  | photo (files : Files)
  | delta (d : Delta Key FileState)
  | heartbeat

def wire (e : Key × FileState) : Json :=
  Json.ofFields [
    (text "setId", some (.str e.1.1)),
    (text "path", some (.str e.1.2)),
    (text "sha256", some (e.2.sha256.elim .null .str)),
    (text "hashed", some (.bool e.2.hashed)),
    (text "sizeBytes", some (Json.nat e.2.sizeBytes)),
    (text "modifiedAtUtc", some (.str e.2.modifiedAtUtc))]

def wires (files : Files) : Json := .arr (files.entries.map wire)

/-- The members of a message that depend on its kind, in the order in which they are put. -/
def Update.fields : Update → List (Str × Option Json)
  | .photo files => [(text "files", some (wires files)), (text "hasChanges", some (.bool true))]
  | .delta d =>
    [(text "delta", some (Json.ofFields [
        (text "added", some (wires d.added)),
        (text "removed", some (wires d.removed)),
        (text "changed", some (wires d.changed))])),
      (text "hasChanges", some (.bool true))]
  | .heartbeat => [(text "hasChanges", some (.bool false))]

/-- The payload, with the schema version of the facts. -/
def Update.payload (schemaVersion : Str) (scan : Scan) (u : Update) : Json :=
  let base : List (Str × Option Json) := [
    (text "scope", some (.str scan.scope.name)),
    (text "sets", some (Json.nat scan.sets)),
    (text "setIds", some (.arr (scan.setIds.map .str))),
    (text "counts", some (Json.ofFields [
      (text "files", some (Json.nat scan.files.size)),
      (text "unreadable", some (Json.nat scan.unreadable))])),
    (text "truncated", some (.bool scan.truncated)),
    (text "error", scan.error.bind fun e => if e = [] then none else some (.str e))]
  Json.ofFields [
    (text "schemaVersion", some (.str schemaVersion)),
    (text "namespaces", some (Json.ofFields [
      (text "fim", some (Json.ofFields (base ++ u.fields)))]))]

/-! ## Passes -/

/-- The local baseline, and the `fim:` keys of the state. -/
structure Monitor where
  baseline : Files
  lastFullRehashAt : Int
  lastSentAt : Int
  lastScope : Option Scope
  setsFingerprint : Option Str

/-- A time that is not set is 0. -/
def isDue (last now : Int) : Bool := last = 0 || now - last ≥ DAY_MS

/-- The message that a pass sends, if any. -/
def Monitor.plan (m : Monitor) (scan : Scan) (fingerprint : Str) (now : Int) : Option Update :=
  let heartbeatDue := isDue m.lastSentAt now
  let scopeChanged : Bool := m.lastScope ≠ some scan.scope
  if scan.scope ≠ .collected then
    if scopeChanged || heartbeatDue then some .heartbeat else none
  else if m.setsFingerprint ≠ some fingerprint ∨ m.baseline.entries = [] then
    some (.photo scan.files)
  else
    let delta := computeFileIntegrityDelta scan.files m.baseline
    if !delta.isEmpty then some (.delta delta)
    else if heartbeatDue || scopeChanged then some .heartbeat
    else none

def Monitor.sent (m : Monitor) (scan : Scan) (now : Int) : Monitor :=
  { m with lastSentAt := now, lastScope := some scan.scope }

def Monitor.collected (m : Monitor) (scan : Scan) (fingerprint : Str) (now : Int) : Monitor :=
  if scan.scope = .collected then
    { m with
      baseline := scan.files
      setsFingerprint := some fingerprint
      lastFullRehashAt := if isDue m.lastFullRehashAt now then now else m.lastFullRehashAt }
  else m

/-- The agent, with the messages that are or were in rows of the outbox, by id, and the ids of the
rows in the order in which they were leased. -/
structure Agent where
  outbox : Outbox.SqliteOutbox
  monitor : Monitor
  messages : OrderedMap Nat Update
  leased : List Nat

/-- `runFileIntegrityPass`; it ends early when `enqueue` throws. -/
def Agent.runFileIntegrityPass (h : Outbox.Host) (schemaVersion : Str) (s : Agent) (scan : Scan)
    (fingerprint : Str) (now : Int) : Agent :=
  match s.monitor.plan scan fingerprint now with
  | none => { s with monitor := s.monitor.collected scan fingerprint now }
  | some u =>
    match s.outbox.enqueue h .factsSnapshot (u.payload schemaVersion scan) now with
    | .error _ => s
    | .ok (id, outbox) =>
      { s with
        outbox := outbox
        monitor := (s.monitor.sent scan now).collected scan fingerprint now
        messages := if s.outbox.events.lastId < id then s.messages.set id u else s.messages }

inductive Event
  | pass (scan : Scan) (fingerprint : Str) (now : Int)
  | outbox (e : Outbox.Event)

def leases (h : Outbox.Host) (o : Outbox.SqliteOutbox) : Outbox.Event → List Nat
  | .leaseReady limit now => (o.leaseReady h limit now).1.map Outbox.SqliteOutbox.Leased.id
  | _ => []

def step (h : Outbox.Host) (schemaVersion : Str) (s : Agent) : Event → Agent
  | .pass scan fingerprint now => s.runFileIntegrityPass h schemaVersion scan fingerprint now
  | .outbox e =>
    { s with outbox := Outbox.step h s.outbox e, leased := s.leased ++ leases h s.outbox e }

def machine (h : Outbox.Host) (schemaVersion lockOwner : Str) : Machine Agent Event where
  init := ⟨⟨.empty, lockOwner⟩, ⟨.empty, 0, 0, none, none⟩, .empty, []⟩
  step := step h schemaVersion

/-! ## The server -/

def Update.apply (u : Update) (h : Holding Key FileState) : Holding Key FileState :=
  match u with
  | .photo files => files.get
  | .delta d => d.apply h
  | .heartbeat => h

def deliver (messages : OrderedMap Nat Update) (h : Holding Key FileState) (id : Nat) :
    Holding Key FileState :=
  match messages.get id with
  | some u => u.apply h
  | none => h

def Agent.fimLeased (s : Agent) : List Nat := s.leased.filter fun id => (s.messages.get id).isSome

def Agent.server (s : Agent) : Holding Key FileState :=
  s.fimLeased.foldl (deliver s.messages) fun _ => none

end Fim
