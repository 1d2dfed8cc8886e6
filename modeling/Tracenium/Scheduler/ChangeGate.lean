-- SUMMARY: The hash gates of the compliance and patch ticks, and when they skip only what was delivered or is still to be sent.
import Tracenium.Lib.JsonCanonical
import Tracenium.Lib.JsonObject
import Tracenium.Outbox.Keeping

/-!
`runCompliance` and `runPatch` of `src/core/scheduler.ts`, with `src/core/namespace-hash.ts` and
`src/core/compliance-send-gate.ts`. A tick skips when the hash of what it collected is stored, and
stores the hash when its facts are enqueued. It waits for `buildDeviceFacts` in between, and anything
may happen to the outbox then; a tick that is cleared as stuck overlaps with the next one.
-/

open Utf16 Utf8 List Function Option

namespace Scheduler

open Outbox SqliteOutbox

/-! ## Hashes -/

section Stable

open Json

mutual

/-- `stableStringify`, of a value whose members are in the order of their keys. A key is written as
it is. -/
def stableStringify : Json → Str
  | .arr [] => [lbracket, rbracket]
  | .arr (x :: xs) => lbracket :: (stableStringify x ++ stableElemsTail xs)
  | .obj [] => [lbrace, rbrace]
  | .obj ((k, v) :: ms) =>
    lbrace :: quote :: (k ++ quote :: colon :: (stableStringify v ++ stableMembersTail ms))
  | v => v.stringify

def stableElemsTail : List Json → Str
  | [] => [rbracket]
  | x :: xs => comma :: (stableStringify x ++ stableElemsTail xs)

def stableMembersTail : List (Str × Json) → Str
  | [] => [rbrace]
  | (k, v) :: ms =>
    comma :: quote :: (k ++ quote :: colon :: (stableStringify v ++ stableMembersTail ms))

end

end Stable

/-- `stableStringify` sorts the members by itself, whatever order `normalizeForHash` gives them. -/
def stableText (v : Json) : Str := stableStringify v.canonical

def hashNamespace (h : Host) (v : Json) : Str := h.sha256 (encode (stableText v))

/-- `const { [key]: _, ...rest } = v`, for an object. -/
def omitKey (key : Str) : Json → Json
  | .obj ms => .obj (ms.filter fun e => e.1 ≠ key)
  | v => v

inductive Gated
  | scp
  | pmp
  deriving DecidableEq

def Gated.key : Gated → Str
  | .scp => text "scp"
  | .pmp => text "pmp"

def buildPmpStateForHash (ns : Json) : Json := omitKey (text "hasChanges") ns

def buildScpStateForHash (ns : Json) : Json :=
  match omitKey (text "hasChanges") ns with
  | .obj ms =>
    .obj (ms.map fun e => if e.1 = text "patches" then (e.1, omitKey (text "lastScanUtc") e.2) else e)
  | rest => rest

def Gated.state : Gated → Json → Json
  | .scp => buildScpStateForHash
  | .pmp => buildPmpStateForHash

/-- The namespaces differ in nothing that counts as a change. -/
def Same (k : Gated) (ns ns' : Json) : Prop := (k.state ns).canonical = (k.state ns').canonical

instance (k : Gated) (ns ns' : Json) : Decidable (Same k ns ns') :=
  decidable_of_iff ((k.state ns).canonical.stringify = (k.state ns').canonical.stringify)
    ⟨fun h => Json.stringify_injective h, fun h => congrArg Json.stringify h⟩

/-! ## Facts -/

structure Envelope where
  collectedAtUtc : Str
  agent : Json
  device : Json
  baselineHash : Json

/-- `buildDeviceFacts`, for one of these namespaces. The flag that the tick sets in it is taken out
again. -/
def buildDeviceFacts (env : Envelope) (k : Gated) (ns : Json) : Json :=
  .obj [(text "schemaVersion", .str (text "1.0")),
    (text "collectedAtUtc", .str env.collectedAtUtc),
    (text "agent", env.agent),
    (text "device", env.device),
    (text "namespaces", .obj [(k.key, omitKey (text "hasChanges") ns)]),
    (text "_meta", .obj [(text "baselineHash", env.baselineHash)])]

def MAX_COMPLIANCE_SILENCE_MS : Int := 24 * 60 * 60 * 1000

/-- `decideComplianceSend`. A stamp that is missing reads as zero. -/
def decideComplianceSend (hasChanges : Bool) (lastSentAtMs : Option Int) (nowMs : Int) : Bool :=
  hasChanges ||
    let last := lastSentAtMs.getD 0
    last ≤ 0 || nowMs < last || MAX_COMPLIANCE_SILENCE_MS < nowMs - last

/-! ## Ticks -/

structure Tick where
  key : Gated
  ns : Json
  hash : Str

structure Agent where
  outbox : SqliteOutbox
  namespaceHash : Gated → Option Str
  /-- `lastSentFactsAt:compliance`. -/
  lastSentFactsAt : Option Int
  waiting : List Tick
  /-- The namespaces whose hashes are stored. -/
  recorded : Gated → Option Json
  /-- The events that were delivered, also those that were cleaned up since. -/
  delivered : List Row

section Agent

variable (h : Host) (s : Agent)

/-- The gate finds no change, and keeps the tick from sending. -/
def skips (k : Gated) (ns : Json) (now : Int) : Bool :=
  let hasChanges : Bool := s.namespaceHash k ≠ some (hashNamespace h (k.state ns))
  match k with
  | .scp => !decideComplianceSend hasChanges s.lastSentFactsAt now
  | .pmp => !hasChanges

/-- A tick that collected `ns`, up to the facts. -/
def collected (k : Gated) (ns : Json) (now : Int) : Agent :=
  if !ns.isTruthy || skips h s k ns now then s
  else { s with waiting := s.waiting ++ [⟨k, ns, hashNamespace h (k.state ns)⟩] }

/-- The rest of a tick. A state that is not stored ends it. -/
def factsBuilt (i : Nat) (env : Envelope) (now : Int) (stores : Bool) (stamp : Option Int) : Agent :=
  match s.waiting[i]? with
  | none => s
  | some tick =>
    let s := { s with waiting := s.waiting.eraseIdx i }
    match s.outbox.enqueue h .factsSnapshot (buildDeviceFacts env tick.key tick.ns) now with
    | .error _ => s
    | .ok (_, outbox) =>
      let s := { s with outbox := outbox }
      if stores then
        { s with
          namespaceHash := fun k => if k = tick.key then some tick.hash else s.namespaceHash k
          recorded := fun k => if k = tick.key then some tick.ns else s.recorded k
          lastSentFactsAt :=
            if tick.key = .scp then stamp.or s.lastSentFactsAt else s.lastSentFactsAt }
      else s

/-- The rows that an event delivers. -/
def deliveries (o : SqliteOutbox) : Outbox.Event → List Row
  | .markSent id _ => (o.events.rows.filter (isLiveRow id)).map Prod.snd
  | _ => []

def isRestart : Outbox.Event → Bool
  | .restart _ _ _ => true
  | _ => false

/-- A tick collects, gets its facts or fails, or the outbox is used by whoever uses it. -/
inductive Event
  | collected (k : Gated) (ns : Json) (now : Int)
  | factsBuilt (i : Nat) (env : Envelope) (now : Int) (stores : Bool) (stamp : Option Int)
  | factsFailed (i : Nat)
  | outbox (e : Outbox.Event)

def step : Event → Agent
  | .collected k ns now => collected h s k ns now
  | .factsBuilt i env now stores stamp => factsBuilt h s i env now stores stamp
  | .factsFailed i => { s with waiting := s.waiting.eraseIdx i }
  | .outbox e =>
    { s with
      outbox := Outbox.step h s.outbox e
      waiting := if isRestart e then [] else s.waiting
      delivered := s.delivered ++ deliveries s.outbox e }

end Agent

def machine (h : Host) (lockOwner : Str) : Machine Agent Event where
  init := ⟨⟨.empty, lockOwner⟩, fun _ => none, none, [], fun _ => none, []⟩
  step := step h

end Scheduler

namespace Scheduler

open Outbox SqliteOutbox

variable (h : Host)

/-! ## What the events carry -/

def namespaceOf (k : Gated) (facts : Json) : Option Json :=
  (facts.field (text "namespaces")).bind fun namespaces => namespaces.field k.key

/-- The payload of the row has a namespace that differs in nothing that counts. -/
def Carries (k : Gated) (ns : Json) (row : Row) : Prop :=
  ∃ facts w, decodePayload h row.payloadJson = .json facts ∧ namespaceOf k facts = some w ∧ Same k w ns

/-- An event that carries the namespace was delivered, or is still live. -/
def Backed (s : Agent) (k : Gated) (ns : Json) : Prop :=
  (∃ row ∈ s.delivered, Carries h k ns row) ∨
    ∃ i row, (i, row) ∈ s.outbox.events.rows ∧ row.status.isLive = true ∧ Carries h k ns row

/-- A tick that the gate keeps from sending hides nothing. -/
def HidesNothing (s : Agent) : Event → Prop
  | .collected k ns now => ns.isTruthy = true → skips h s k ns now = true → Backed h s k ns
  | _ => True

/-- A row that is taken back after its last attempt. -/
def expires (ttlSeconds now : Int) (row : Row) : Bool :=
  (addSecondsIso h now (-ttlSeconds)).any (fun cutoff => isStale cutoff row) && MAX_ATTEMPTS ≤ row.attempts + 1

/-- The event ends a live row that was not delivered. -/
def fails (e : Outbox.Event) (i : Nat) (row : Row) : Bool :=
  match e with
  | .markRejected id _ => id = i
  | .markFailed id _ _ _ => id = i && MAX_ATTEMPTS ≤ row.attempts + 1
  | .recoverStaleInflight ttlSeconds now _ => expires h ttlSeconds now row
  | .restart _ now _ => expires h 600 now row
  | _ => false

/-- An event that carries the namespace was delivered, or is not failed now. -/
def Spared (s : Agent) (e : Outbox.Event) (k : Gated) (ns : Json) : Prop :=
  (∃ row ∈ s.delivered, Carries h k ns row) ∨
    ∃ i row, (i, row) ∈ s.outbox.events.rows ∧ row.status.isLive = true ∧ Carries h k ns row ∧ fails h e i row = false

/-- What is collected is what was recorded if it has its text, and the outbox does not fail the last
event that carries what was recorded. -/
def KeepsCarrier (s : Agent) : Event → Prop
  | .collected k ns _ => ∀ ns₀, s.recorded k = some ns₀ →
      encode (stableText (k.state ns)) = encode (stableText (k.state ns₀)) → Same k ns₀ ns
  | .outbox e => ∀ k ns₀, s.recorded k = some ns₀ →
      (∃ i row, (i, row) ∈ s.outbox.events.rows ∧ row.status.isLive = true ∧ Carries h k ns₀ row ∧
        fails h e i row = true) → Spared h s e k ns₀
  | _ => True

section Carries

variable {h}

theorem omitKey_omitKey (key : Str) (v : Json) : omitKey key (omitKey key v) = omitKey key v := by
  cases v with
  | obj ms =>
    unfold omitKey
    dsimp only
    simp
  | _ => rfl

theorem Gated.state_omitKey (k : Gated) (ns : Json) : k.state (omitKey (text "hasChanges") ns) = k.state ns := by
  cases k with
  | scp =>
    show buildScpStateForHash _ = buildScpStateForHash _
    unfold buildScpStateForHash
    rw [omitKey_omitKey]
  | pmp => exact omitKey_omitKey _ _

/-- The facts of a tick carry what it collected. -/
theorem namespaceOf_buildDeviceFacts (env : Envelope) (k : Gated) (ns : Json) :
    namespaceOf k (buildDeviceFacts env k ns) = some (omitKey (text "hasChanges") ns) := by
  cases k with
  | scp => rfl
  | pmp => rfl

theorem Carries.same {k : Gated} {ns ns' : Json} {row : Row} (hrow : Carries h k ns row)
    (hsame : Same k ns ns') : Carries h k ns' row := by
  obtain ⟨facts, w, hfacts, hw, hns⟩ := hrow
  exact ⟨facts, w, hfacts, hw, Eq.trans hns hsame⟩

theorem Carries.payload {k : Gated} {ns : Json} {row row' : Row} (hrow : Carries h k ns row)
    (hpayload : row'.payloadJson = row.payloadJson) : Carries h k ns row' := by
  unfold Carries
  rw [hpayload]
  exact hrow

end Carries

/-! ## Rows that are not failed -/

section Outbox

variable {h} {o : SqliteOutbox}

/-- The loop changes the rows that it is about. -/
theorem mem_reclaim (later : Nat → Int × Fin 10) {i : Nat} {row : Row} {rows : List (Nat × Row)}
    (hrows : ∀ r ∈ rows, r.1 ≠ i) (hmem : (i, row) ∈ o.events.rows) :
    (i, row) ∈ (reclaim h later rows o).events.rows := by
  induction rows generalizing o with
  | nil => exact hmem
  | cons r rows ih =>
    have hset (f : Row → Row) : (i, row) ∈ (o.setRow r.1 f).events.rows := by
      refine Table.mem_update_of_not hmem ?_
      exact decide_eq_false (hrows r mem_cons_self).symm
    have hrest := fun r' hr' => hrows r' (mem_cons_of_mem r hr')
    unfold reclaim
    dsimp only
    split
    · exact ih hrest (hset _)
    · split
      · exact ih hrest (hset _)
      · exact hmem

/-- A row that is not stale is not taken back. -/
theorem mem_recoverStaleInflight {ttlSeconds now : Int} (later : Nat → Int × Fin 10) {i : Nat}
    {row : Row} (hmem : (i, row) ∈ o.events.rows)
    (hstale : (addSecondsIso h now (-ttlSeconds)).any (fun cutoff => isStale cutoff row) = false) :
    (i, row) ∈ (o.recoverStaleInflight h ttlSeconds now later).events.rows := by
  unfold recoverStaleInflight
  split
  · rename_i cutoff hcutoff
    rw [hcutoff, any_some] at hstale
    refine mem_reclaim later ?_ hmem
    rintro ⟨j, row'⟩ hr rfl
    obtain ⟨hmem', hstale'⟩ := mem_filter.mp hr
    obtain rfl := Table.eq_of_mem hmem hmem'
    cases hstale.symm.trans hstale'
  · exact hmem

/-- A live row that is not failed stays live, or is delivered. -/
theorem live_of_not_fails {e : Outbox.Event} {i : Nat} {row : Row}
    (hmem : (i, row) ∈ o.events.rows) (hlive : row.status.isLive) (hfails : fails h e i row = false) :
    (∃ row', (i, row') ∈ (Outbox.step h o e).events.rows ∧ row'.status.isLive ∧
      row'.payloadJson = row.payloadJson) ∨ row ∈ deliveries o e := by
  rcases (evolves_step h o e).fate i row hmem with ⟨row', hmem', rfl | hchange⟩ | ⟨hgone, -⟩
  · exact .inl ⟨row', hmem', hlive, rfl⟩
  · have hpayload := hchange.same.2.1
    cases hchange with
    | lease => exact .inl ⟨_, hmem', rfl, hpayload⟩
    | deliver =>
      refine .inr (mem_map.mpr ⟨(i, row), mem_filter.mpr ⟨hmem, ?_⟩, rfl⟩)
      simp [isLiveRow, hlive]
    | reject => simp [fails] at hfails
    | fail _ hmax => simp [fails, hmax] at hfails
    | retry => exact .inl ⟨_, hmem', rfl, hpayload⟩
    | expire he hflight hmax =>
      -- the row would have to be stale, and then it is failed
      have hkept : (i, row) ∈ (Outbox.step h o e).events.rows := by
        cases e with
        | recoverStaleInflight ttlSeconds now later =>
          apply mem_recoverStaleInflight later hmem
          simpa [fails, expires, hmax] using hfails
        | restart lockOwner now later =>
          apply mem_recoverStaleInflight later (o := { o with lockOwner := lockOwner }) hmem
          simpa [fails, expires, hmax] using hfails
        | _ => cases he
      exact .inl ⟨row, hkept, hlive, rfl⟩
    | reclaim => exact .inl ⟨_, hmem', rfl, hpayload⟩
  · rw [hgone.2] at hlive
    cases hlive

end Outbox

/-! ## Agents -/

/-- What is stored is the hash of a namespace that an event carries. -/
structure Recorded (s : Agent) : Prop where
  filed : Filed h s.outbox
  waiting : ∀ tick ∈ s.waiting, tick.hash = hashNamespace h (tick.key.state tick.ns)
  stored : ∀ k hash, s.namespaceHash k = some hash →
    ∃ ns, s.recorded k = some ns ∧ hash = hashNamespace h (k.state ns)
  backed : ∀ k ns, s.recorded k = some ns → Backed h s k ns

section Recorded

variable {h} {s : Agent}

theorem recorded_init (lockOwner : Str) : Recorded h (machine h lockOwner).init where
  filed := filed_start h lockOwner
  waiting := fun _ hmem => absurd hmem not_mem_nil
  stored := nofun
  backed := nofun

theorem Recorded.collected (hs : Recorded h s) (k : Gated) (ns : Json) (now : Int) :
    Recorded h (collected h s k ns now) := by
  unfold Scheduler.collected
  split
  · exact hs
  · refine { hs with waiting := fun tick hmem => ?_ }
    rcases mem_append.mp hmem with hmem | hmem
    · exact hs.waiting tick hmem
    · obtain rfl := mem_singleton.mp hmem
      rfl

/-- The outbox may do what leaves the namespaces with an event. -/
theorem Recorded.outbox (hs : Recorded h s) (e : Outbox.Event)
    (hkeeps : KeepsCarrier h s (.outbox e)) : Recorded h (step h s (.outbox e)) := by
  refine ⟨hs.filed.step e, ?_, hs.stored, ?_⟩
  · intro tick hmem
    apply hs.waiting tick
    dsimp only [step] at hmem
    split at hmem
    · cases hmem
    · exact hmem
  · intro k ns hrecorded
    have hspared : Spared h s e k ns := by
      rcases hs.backed k ns hrecorded with hdelivered | ⟨i, row, hmem, hlive, hcarries⟩
      · exact .inl hdelivered
      · cases hfails : fails h e i row with
        | false => exact .inr ⟨i, row, hmem, hlive, hcarries, hfails⟩
        | true => exact hkeeps k ns hrecorded ⟨i, row, hmem, hlive, hcarries, hfails⟩
    rcases hspared with ⟨row, hmem, hcarries⟩ | ⟨i, row, hmem, hlive, hcarries, hfails⟩
    · exact .inl ⟨row, mem_append_left _ hmem, hcarries⟩
    · rcases live_of_not_fails hmem hlive hfails with ⟨row', hmem', hlive', hpayload⟩ | hdelivered
      · exact .inr ⟨i, row', hmem', hlive', hcarries.payload hpayload⟩
      · exact .inl ⟨row, mem_append_right _ hdelivered, hcarries⟩

/-- Events that are put in take nothing away. -/
theorem Backed.enqueue {k : Gated} {ns : Json} (hbacked : Backed h s k ns) {type : OutboxEventType}
    {payload : Json} {now : Int} {i : Nat} {outbox : SqliteOutbox}
    (henqueue : s.outbox.enqueue h type payload now = .ok (i, outbox)) :
    Backed h { s with outbox := outbox } k ns := by
  rcases hbacked with hdelivered | ⟨j, row, hmem, hlive, hcarries⟩
  · exact .inl hdelivered
  · have hstep := step_of_enqueue henqueue
    rcases live_of_not_fails (h := h) (e := .enqueue type payload now) hmem hlive rfl with
      ⟨row', hmem', hlive', hpayload⟩ | hdelivered
    · rw [hstep] at hmem'
      exact .inr ⟨j, row', hmem', hlive', hcarries.payload hpayload⟩
    · cases hdelivered

theorem Recorded.factsBuilt (hs : Recorded h s) (hsha : Injective h.sha256)
    (hcodec : Lossless h) (i : Nat) (env : Envelope) (now : Int) (stores : Bool)
    (stamp : Option Int) : Recorded h (factsBuilt h s i env now stores stamp) := by
  unfold Scheduler.factsBuilt
  split
  · exact hs
  · rename_i tick htick
    have hwaiting : ∀ tick' ∈ s.waiting.eraseIdx i, tick'.hash = hashNamespace h (tick'.key.state tick'.ns) :=
      fun tick' hmem => hs.waiting tick' (mem_of_mem_eraseIdx hmem)
    dsimp only
    split
    · exact { hs with waiting := hwaiting }
    · rename_i j outbox henqueue
      have hfiled : Filed h outbox := by
        rw [← step_of_enqueue henqueue]
        exact hs.filed.step _
      obtain ⟨row, hmem, hrow, -, hpayload⟩ := hs.filed.hasLive hsha hcodec henqueue
      have hcarries : Carries h tick.key tick.ns row :=
        ⟨_, _, hpayload, namespaceOf_buildDeviceFacts env tick.key tick.ns,
          congrArg Json.canonical (tick.key.state_omitKey tick.ns)⟩
      split
      · refine ⟨hfiled, hwaiting, fun k hash hstored => ?_, fun k ns hrecorded => ?_⟩
        · dsimp only at hstored ⊢
          split at hstored
          · rename_i hk
            subst hk
            obtain rfl := some.inj hstored
            exact ⟨tick.ns, if_pos rfl, hs.waiting tick (mem_of_getElem? htick)⟩
          · rename_i hk
            rw [if_neg hk]
            exact hs.stored k hash hstored
        · dsimp only at hrecorded
          split at hrecorded
          · rename_i hk
            subst hk
            obtain rfl := some.inj hrecorded
            exact .inr ⟨j, row, hmem, hrow, hcarries⟩
          · exact (hs.backed k ns hrecorded).enqueue henqueue
      · exact ⟨hfiled, hwaiting, hs.stored,
          fun k ns hrecorded => (hs.backed k ns hrecorded).enqueue henqueue⟩

theorem Recorded.step (hs : Recorded h s) (hsha : Injective h.sha256)
    (hcodec : Lossless h) {e : Event} (hkeeps : KeepsCarrier h s e) : Recorded h (step h s e) := by
  cases e with
  | collected k ns now => exact hs.collected k ns now
  | factsBuilt i env now stores stamp => exact hs.factsBuilt hsha hcodec i env now stores stamp
  | factsFailed i =>
    exact { hs with waiting := fun tick hmem => hs.waiting tick (mem_of_mem_eraseIdx hmem) }
  | outbox e => exact hs.outbox e hkeeps

/-- A gate that skips finds the hash of what it collected. -/
theorem stored_of_skips {k : Gated} {ns : Json} {now : Int} (hskips : skips h s k ns now) :
    s.namespaceHash k = some (hashNamespace h (k.state ns)) := by
  by_contra hne
  unfold skips at hskips
  rw [decide_eq_true hne] at hskips
  cases k with
  | scp => cases hskips
  | pmp => cases hskips

theorem Recorded.hidesNothing (hs : Recorded h s) (hsha : Injective h.sha256) {e : Event}
    (hkeeps : KeepsCarrier h s e) : HidesNothing h s e := by
  cases e with
  | collected k ns now =>
    intro _ hskips
    obtain ⟨ns₀, hrecorded, hhash⟩ := hs.stored k _ (stored_of_skips hskips)
    have hsame := hkeeps ns₀ hrecorded (hsha hhash)
    rcases hs.backed k ns₀ hrecorded with ⟨row, hmem, hcarries⟩ | ⟨i, row, hmem, hlive, hcarries⟩
    · exact .inl ⟨row, hmem, hcarries.same hsame⟩
    · exact .inr ⟨i, row, hmem, hlive, hcarries.same hsame⟩
  | factsBuilt i env now stores stamp => exact trivial
  | factsFailed i => exact trivial
  | outbox e => exact trivial

end Recorded

/-- In every run that keeps a carrier for what is recorded, a tick that is skipped hides nothing. -/
theorem guarded_hidesNothing {h : Host} (hsha : Injective h.sha256) (hcodec : Lossless h)
    (lockOwner : Str) {tr : List Event} (hkeeps : (machine h lockOwner).Guarded (KeepsCarrier h) tr) :
    (machine h lockOwner).Guarded (HidesNothing h) tr :=
  hkeeps.ensures (recorded_init lockOwner) (fun _ _ hs hkeep => hs.step hsha hcodec hkeep)
    fun _ _ hs hkeep => hs.hidesNothing hsha hkeep

/-! ## A patch state that is not delivered -/

def sampleNamespace : Json := .obj [(text "scan", .obj [(text "pending", .bool true)])]

def sampleEnvelope : Envelope := ⟨[], .null, .null, .null⟩

/-- The patch state is collected and enqueued, and its event settled. -/
def reported (settles : Outbox.Event) : List Event :=
  [.collected .pmp sampleNamespace 0, .factsBuilt 0 sampleEnvelope 0 true none,
    .outbox (.leaseReady 1 0), .outbox settles]

/-- The event is delivered, and the next tick skips. -/
theorem guarded_hidesNothing_sent : (machine sampleHost []).Guarded (HidesNothing sampleHost)
    (reported (.markSent 1 0) ++ [.collected .pmp sampleNamespace 1]) := by
  apply guarded_hidesNothing injective_sampleHost lossless_sampleHost
  refine Machine.guarded_iff_guardedFrom.mpr ⟨?_, trivial, ?_, ?_, ?_, trivial⟩
  · intro ns₀ hrecorded
    cases hrecorded
  · rintro k ns₀ - ⟨i, row, -, -, -, hfails⟩
    cases hfails
  · rintro k ns₀ - ⟨i, row, -, -, -, hfails⟩
    cases hfails
  · intro ns₀ hrecorded _
    have hstored : (((machine sampleHost []).run (reported (.markSent 1 0))).recorded .pmp).map
        Json.stringify = some sampleNamespace.stringify := by decide +kernel
    have hsome := congrArg (Option.map Json.stringify) hrecorded
    obtain rfl := Json.stringify_injective (some.inj (hstored.symm.trans hsome))
    rfl

/-- The event is rejected, and the next tick skips. -/
theorem not_guarded_hidesNothing_rejected : ¬ (machine sampleHost []).Guarded (HidesNothing sampleHost)
      (reported (.markRejected 1 (text "schema")) ++ [.collected .pmp sampleNamespace 1]) := by
  intro hguarded
  have hbacked := hguarded _ _ (prefix_refl _) rfl (by decide +kernel)
  have hnone : (((machine sampleHost []).run (reported (.markRejected 1 (text "schema")))).delivered.map
      Row.attempts) = [] := by decide +kernel
  have hfailed : (((machine sampleHost []).run
      (reported (.markRejected 1 (text "schema")))).outbox.events.rows.any
        fun r => r.2.status.isLive) = false := by decide +kernel
  rcases hbacked with ⟨row, hmem, -⟩ | ⟨i, row, hmem, hlive, -⟩
  · rw [map_eq_nil_iff.mp hnone] at hmem
    cases hmem
  · exact any_eq_false.mp hfailed _ hmem hlive

end Scheduler
