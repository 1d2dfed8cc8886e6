-- SUMMARY: The certificate inventory: scans, what they send, and the baseline that moves with the acknowledgement.
import Tracenium.Lib.JsonCanonical
import Tracenium.Lib.JsonObject
import Tracenium.Lib.Inventory
import Tracenium.Lib.Machine
import Tracenium.Lib.Utf8

/-!
`src/domain/cdp-baseline-repo.ts`, and `collectOnce` of `src/plugins/cdp/index.ts` from what its
collectors return. The certificates under the keys that a send tells are what the server is taken to
hold.
-/

open Utf16 Utf8 Inventory

namespace Cdp

def MAX_ITEMS : Nat := 2000

def STAGE_MAX_AGE_MS : Int := 7 * 86400000

inductive CdpStoreScope
  | machine
  | user
  | systemRoots
  | network
  deriving DecidableEq

def CdpStoreScope.name : CdpStoreScope → Str
  | .machine => text "machine"
  | .user => text "user"
  | .systemRoots => text "system-roots"
  | .network => text "network"

structure CdpStoreInfo where
  id : Str
  name : Str
  scope : CdpStoreScope

/-- A certificate in a store. `facts` are the other members of the item. -/
structure CdpCertItem where
  id : Str
  isCA : Bool
  hasPrivateKey : Bool
  store : CdpStoreInfo
  facts : List (Str × Json)

def CdpCertItem.json (item : CdpCertItem) : Json :=
  .obj (item.facts ++ [
    (text "id", .str item.id),
    (text "isCA", .bool item.isCA),
    (text "hasPrivateKey", .bool item.hasPrivateKey),
    (text "store", .obj [
      (text "id", .str item.store.id),
      (text "name", .str item.store.name),
      (text "scope", .str item.store.scope.name)])])

/-- The names of the members of an item need no escapes. -/
def stableStringify (v : Json) : Str := v.canonical.stringify

/-- A store that exists and was not read, or every store whose id begins so. -/
structure CdpUnreadableStore where
  id : Str
  prefixed : Bool

def CdpUnreadableStore.covers (u : CdpUnreadableStore) (storeId : Str) : Bool :=
  if u.prefixed then u.id.isPrefixOf storeId else storeId = u.id

/-- What the collectors return, and whether a block beside the certificates changed. -/
structure Scan where
  items : List CdpCertItem
  unreadable : List CdpUnreadableStore
  unscoped : List Str
  sideChanged : Bool

def itemPriority (item : CdpCertItem) : Nat :=
  if item.hasPrivateKey then 0
  else if item.store.scope ≠ .systemRoots ∧ !item.isCA then 1
  else if item.store.scope ≠ .systemRoots then 2
  else 3

def isCapped (items : List CdpCertItem) : Bool := MAX_ITEMS < items.length

def applyCap (items : List CdpCertItem) : List CdpCertItem :=
  if isCapped items then
    (items.mergeSort fun a b => itemPriority a ≤ itemPriority b).take MAX_ITEMS
  else items

/-! ## The repository -/

abbrev Baseline := OrderedMap Str CdpCertItem

structure CdpDelta where
  added : List CdpCertItem
  updated : List CdpCertItem
  removed : List Str

def CdpDelta.isEmpty (d : CdpDelta) : Bool :=
  d.added.isEmpty && d.updated.isEmpty && d.removed.isEmpty

structure Pending where
  seq : Nat
  outboxId : Nat
  commit : List CdpCertItem
  stagedAt : Int

/-- The baseline, the `delivery_` keys of `cdp_meta`, and the staged deliveries with the last `seq`
that was given. -/
structure Repo where
  baseline : Baseline
  acked : Bool
  lastSeq : Nat
  pending : List Pending
  seq : Nat

inductive Promotion
  | promoted
  | superseded
  | none

section Repo

variable (sha256 : List UInt8 → Str)

def hashCdpItem (item : CdpCertItem) : Str := sha256 (encode (stableStringify item.json))

def computeCdpDelta (baseline : Baseline) (items : List CdpCertItem) : Option CdpDelta :=
  if baseline.entries = [] then none
  else
    some {
      added := items.filter fun item => (baseline.get item.id).isNone
      updated := items.filter fun item =>
        (baseline.get item.id).any fun w => hashCdpItem sha256 w ≠ hashCdpItem sha256 item
      removed := baseline.keys.filter fun certId => !items.any fun item => item.id = certId }

end Repo

def applyBaseline (baseline : Baseline) (current : List CdpCertItem) : Baseline :=
  current.foldl (fun m item => m.set item.id item)
    (baseline.filter fun certId _ => current.any fun item => item.id = certId)

def Repo.stageCdpDelivery (r : Repo) (outboxId : Nat) (commit : List CdpCertItem) (now : Int) :
    Repo :=
  let kept := r.pending.filter fun p =>
    p.outboxId ≠ outboxId && !(p.stagedAt < now - STAGE_MAX_AGE_MS)
  { r with
    pending := kept ++ [⟨r.seq + 1, outboxId, commit, now⟩]
    seq := r.seq + 1 }

/-- The rows are in the order of their `seq`. -/
def Repo.promoteCdpDelivery (r : Repo) (outboxId : Nat) : Promotion × Repo :=
  match (r.pending.filter fun p => p.outboxId = outboxId).getLast? with
  | none => (.none, r)
  | some row =>
    let r := { r with pending := r.pending.filter fun p => !(p.seq ≤ row.seq) }
    if row.seq ≤ r.lastSeq then (.superseded, r)
    else
      (.promoted,
        { r with
          baseline := applyBaseline r.baseline row.commit
          lastSeq := row.seq
          acked := true })

def loadCdpBaselineItemsByStore (baseline : Baseline) (covers : Str → Bool)
    (presentIds : List Str) : List CdpCertItem :=
  (baseline.entries.filter fun row =>
    !presentIds.contains row.1 && (row.2.store.id ≠ [] && covers row.2.store.id)).map Prod.snd

/-! ## Scans -/

inductive Certificates
  | items (all : List CdpCertItem)
  | delta (d : CdpDelta)

structure Delivery where
  certificates : Certificates
  commit : List CdpCertItem

/-- The certificates of the stores that were not read, carried over from the baseline. -/
def carried (baseline : Baseline) (delta : Option CdpDelta) (scan : Scan)
    (items : List CdpCertItem) : List CdpCertItem :=
  if scan.unscoped ≠ [] ∧ delta.isSome then []
  else if scan.unreadable ≠ [] then
    loadCdpBaselineItemsByStore baseline
      (fun storeId => scan.unreadable.any fun u => u.covers storeId) (items.map CdpCertItem.id)
  else []

/-- The delta without the removals that the scan cannot claim. -/
def claimed (delta : CdpDelta) (scan : Scan) (carried : List CdpCertItem) : CdpDelta :=
  let removed := if isCapped scan.items then [] else delta.removed
  if scan.unscoped ≠ [] then { delta with removed := [] }
  else
    { delta with removed := removed.filter fun certId => !carried.any fun item => item.id = certId }

/-- `collectOnce`, for a scan whose collector did not fail. Nothing is sent if nothing changed. -/
def collectOnce (sha256 : List UInt8 → Str) (baseline : Baseline) (full : Bool) (scan : Scan) :
    Option Delivery :=
  let items := applyCap scan.items
  let delta := if full then none else computeCdpDelta sha256 baseline items
  let carried := carried baseline delta scan items
  match delta with
  | none => some ⟨.items items, items ++ carried⟩
  | some delta =>
    let delta := claimed delta scan carried
    if scan.sideChanged || !delta.isEmpty then some ⟨.delta delta, items ++ carried⟩ else none

/-! ## The server -/

def Certificates.apply : Certificates → Holding Str CdpCertItem → Holding Str CdpCertItem
  | .items all, _ => put CdpCertItem.id all fun _ => none
  | .delta d, h => fun certId =>
    if certId ∈ d.removed then none
    else put CdpCertItem.id d.updated (put CdpCertItem.id d.added h) certId

/-- What a send tells of a certificate: nothing, that it is gone, or the item. -/
def Certificates.tells : Certificates → Str → Option (Option CdpCertItem)
  | .items all, k => some (last CdpCertItem.id all k)
  | .delta d, k =>
    if k ∈ d.removed then some none
    else ((last CdpCertItem.id d.updated k).or (last CdpCertItem.id d.added k)).map some

/-! ## Runs -/

/-- The agent and the server. `scanning` is whether the scan under way is a full one, `collected` are
the namespaces that wait to be put into the outbox, and the outbox id of a send is its place in
`outbox`, counted from 1. -/
structure System where
  repo : Repo
  scanning : Option Bool
  collected : List Delivery
  outbox : List Delivery
  delivered : List Nat
  server : Holding Str CdpCertItem

inductive Event
  | start (full : Bool)
  | collect (scan : Scan)
  | enqueue (i : Nat) (now : Int)
  | deliver (outboxId : Nat)
  | ack (outboxId : Nat)

def System.send? (s : System) (outboxId : Nat) : Option Delivery :=
  if outboxId = 0 then none else s.outbox[outboxId - 1]?

/-- A scan begins when no other is under way, and the server acknowledges what was delivered. -/
def step (sha256 : List UInt8 → Str) (s : System) : Event → System
  | .start full =>
    match s.scanning with
    | none => { s with scanning := some (full || !s.repo.acked) }
    | some _ => s
  | .collect scan =>
    match s.scanning with
    | none => s
    | some full =>
      { s with
        scanning := none
        collected := s.collected ++ (collectOnce sha256 s.repo.baseline full scan).toList }
  | .enqueue i now =>
    match s.collected[i]? with
    | none => s
    | some d =>
      { s with
        repo := s.repo.stageCdpDelivery (s.outbox.length + 1) d.commit now
        collected := s.collected.eraseIdx i
        outbox := s.outbox ++ [d] }
  | .deliver outboxId =>
    match s.send? outboxId with
    | none => s
    | some d =>
      { s with
        delivered := s.delivered ++ [outboxId]
        server := d.certificates.apply s.server }
  | .ack outboxId =>
    if outboxId ∈ s.delivered then { s with repo := (s.repo.promoteCdpDelivery outboxId).2 } else s

def machine (sha256 : List UInt8 → Str) : Machine System Event where
  init := ⟨⟨.empty, false, 0, [], 0⟩, none, [], [], [], fun _ => none⟩
  step := step sha256

end Cdp
