-- SUMMARY: The policy of a device, the answers to policy updates, and when an acknowledged update is the policy in force.
import Tracenium.Lib.JsonCanonical
import Tracenium.Lib.JsonObject
import Tracenium.Lib.Machine
import Tracenium.Lib.Utf8

/-!
`PolicyStore` of `src/core/policy-store.ts`, `applyUpdate` of `src/core/policy-runtime.ts` and the
`policyUpdate` branch of `src/transport/grpc-stream.ts`, for messages that are processed one at a
time. A JSON value is what `JSON.parse` gives, its numbers spelled as `JSON.stringify` spells them.
-/

open Utf16 Utf8

namespace Policy

structure StoredPolicy where
  policyVersion : Str
  policyHash : Str
  policy : Json
  appliedAtUtc : Int

/-- The hash in hexadecimal, `validatePolicy` with what it throws, and `DEFAULT_POLICY`. -/
structure Config (P : Type*) where
  sha256 : List UInt8 → Str
  validatePolicy : Json → Except Str P
  DEFAULT_POLICY : P

variable {P : Type*}

def stableStringify (v : Json) : Str := v.canonical.stringify

def Config.computeHash (c : Config P) (policyJson : Json) : Str :=
  c.sha256 (encode (stableStringify policyJson))

/-! ## Messages -/

/-- `policyJson` of a message: nothing, text that is no JSON, or JSON. -/
inductive Payload
  | missing
  | invalid
  | json (v : Json)

structure PolicyUpdate where
  eventId : Str
  policyVersion : Str
  policyJson : Payload

structure Ack where
  message : PolicyUpdate
  status : Nat
  reason : Str

/-- How the calls that a message leads to go: the error of `save`, if it rejects; the error of a
listener of `applyUpdate`, if one throws; and the clock. -/
structure Outcome where
  saveError : Option Str
  listenerError : Option Str
  now : Int

/-! ## The agent -/

/-- `disk` is the policy file, `current` the record of the store, `runtime` the policy of the
runtime, and `lastAck` the answer to the last message. -/
structure Agent (P : Type*) where
  disk : Option StoredPolicy
  current : Option StoredPolicy
  runtime : P
  lastAck : Option Ack

namespace Agent

def getVersion (s : Agent P) : Str :=
  match s.current with
  | some r => if r.policyVersion = [] then text "none" else r.policyVersion
  | none => text "none"

def getHash (s : Agent P) : Option Str :=
  match s.current with
  | some r => if r.policyHash = [] then none else some r.policyHash
  | none => none

def getPolicy (s : Agent P) : Json :=
  match s.current with
  | some r => if r.policy.isTruthy then r.policy else .null
  | none => .null

def save (s : Agent P) (policyVersion policyHash : Str) (policyJson : Json) (now : Int) :
    Agent P :=
  let record := ⟨policyVersion, policyHash, policyJson, now⟩
  { s with disk := some record, current := some record }

/-- `applyUpdate`, with the error that it rejects with. -/
def applyUpdate (c : Config P) (s : Agent P) (listenerError : Option Str) :
    Agent P × Option Str :=
  if s.getPolicy.isTruthy then
    match c.validatePolicy s.getPolicy with
    | .error error => (s, some error)
    | .ok validated => ({ s with runtime := validated }, listenerError)
  else (s, none)

def answer (s : Agent P) (m : PolicyUpdate) (status : Nat) (reason : Str) : Agent P :=
  { s with lastAck := some ⟨m, status, reason⟩ }

/-- `String(err?.message || err || "policy_apply_failed")`. -/
def failed (s : Agent P) (m : PolicyUpdate) (error : Str) : Agent P :=
  s.answer m 2 (if error = [] then text "policy_apply_failed" else error)

/-- The `policyUpdate` branch, from the message to its answer. -/
def onPolicyUpdate (c : Config P) (s : Agent P) (m : PolicyUpdate) (o : Outcome) : Agent P :=
  if m.policyVersion = [] then
    s.answer m 2 (text "policy_update rejected: missing required fields")
  else
    match m.policyJson with
    | .missing => s.answer m 2 (text "policy_update rejected: missing required fields")
    | .invalid => s.answer m 2 (text "policy_update rejected: invalid json")
    | .json parsed =>
      if s.getHash = some (c.computeHash parsed) then
        (s.applyUpdate c o.listenerError).1.answer m 0 (text "policy_already_applied")
      else
        match o.saveError with
        | some error => s.failed m error
        | none =>
          let saved := s.save m.policyVersion (c.computeHash parsed) parsed o.now
          match saved.applyUpdate c o.listenerError with
          | (s', none) => s'.answer m 0 (text "policy_applied")
          | (s', some error) => s'.failed m error

/-- `load` takes a record with a version and a policy. -/
def load (s : Agent P) : Option StoredPolicy :=
  s.disk.filter fun r => r.policyVersion ≠ [] && r.policy.isTruthy

/-- The process starts again: `load` and `init`. A start that throws leaves no agent. -/
def restart (c : Config P) (s : Agent P) : Agent P :=
  match s.load with
  | none => ⟨s.disk, none, c.DEFAULT_POLICY, none⟩
  | some r =>
    match c.validatePolicy r.policy with
    | .ok validated => ⟨s.disk, some r, validated, none⟩
    | .error _ => s

end Agent

/-! ## Runs -/

inductive Event
  | policyUpdate (m : PolicyUpdate) (o : Outcome)
  | restart

def step (c : Config P) (s : Agent P) : Event → Agent P
  | .policyUpdate m o => s.onPolicyUpdate c m o
  | .restart => s.restart c

def machine (c : Config P) : Machine (Agent P) Event where
  init := ⟨none, none, c.DEFAULT_POLICY, none⟩
  step := step c

end Policy

namespace Policy

variable {P : Type*}

/-- The store has the version and the policy, up to the order of members, and the runtime has the
validation of the store's policy. -/
structure InForce (c : Config P) (s : Agent P) (policyVersion : Str) (policyJson : Json) :
    Prop where
  version : s.getVersion = policyVersion
  policy : s.getPolicy.canonical = policyJson.canonical
  runtime : c.validatePolicy s.getPolicy = .ok s.runtime

/-- A message that was just acknowledged with status 0 is in force. -/
def Acknowledged (c : Config P) (s : Agent P) : Prop :=
  ∀ m reason, s.lastAck = some ⟨m, 0, reason⟩ →
    ∃ policyJson, m.policyJson = .json policyJson ∧ InForce c s m.policyVersion policyJson

/-- The runtime has, or can get, the validation of the store's policy. -/
def Validates (c : Config P) (s : Agent P) : Prop :=
  if s.getPolicy.isTruthy then ∃ validated, c.validatePolicy s.getPolicy = .ok validated
  else c.validatePolicy .null = .ok s.runtime

/-- A message whose policy has the hash of the stored one carries the version of the stored one,
and no message carries a policy that counts as none. -/
def Takes (c : Config P) (s : Agent P) : Event → Prop
  | .policyUpdate m o =>
    ∀ policyJson, m.policyVersion ≠ [] → m.policyJson = .json policyJson →
      if s.getHash = some (c.computeHash policyJson) then
        s.getVersion = m.policyVersion ∧ s.getPolicy.canonical = policyJson.canonical ∧ Validates c s
      else
        o.saveError = none → policyJson.isTruthy = false → policyJson = .null ∧ c.validatePolicy .null = .ok s.runtime
  | .restart => True

/-! ## Steps -/

section Steps

variable {c : Config P} {s : Agent P} {m : PolicyUpdate}

/-- A policy that counts as none is `null`. -/
theorem getPolicy_of_not_isTruthy (h : s.getPolicy.isTruthy = false) : s.getPolicy = .null := by
  rw [Agent.getPolicy] at h ⊢
  split
  · split
    · rename_i hcurrent htruthy
      rw [hcurrent] at h
      dsimp only at h
      rw [if_pos htruthy] at h
      rw [h] at htruthy
      cases htruthy
    · rfl
  · rfl

theorem acknowledged_answer_failure {reason : Str} : Acknowledged c (s.answer m 2 reason) := by
  intro m' reason' hack
  cases hack

/-- An answer with status 0. -/
theorem acknowledged_answer {policyJson : Json} {reason : Str} (hm : m.policyJson = .json policyJson) :
    Acknowledged c (s.answer m 0 reason) ↔ InForce c s m.policyVersion policyJson := by
  constructor
  · intro h
    obtain ⟨policyJson', hm', hforce⟩ := h m reason rfl
    obtain rfl := Payload.json.inj (hm.symm.trans hm')
    exact ⟨hforce.version, hforce.policy, hforce.runtime⟩
  · intro hforce m' reason' hack
    obtain ⟨rfl, -, -⟩ := Ack.mk.inj (Option.some.inj hack)
    exact ⟨policyJson, hm, hforce.version, hforce.policy, hforce.runtime⟩

/-- `applyUpdate` leaves the store alone. -/
theorem applyUpdate_store (c : Config P) (s : Agent P) (listenerError : Option Str) :
    (s.applyUpdate c listenerError).1.getVersion = s.getVersion ∧
      (s.applyUpdate c listenerError).1.getPolicy = s.getPolicy := by
  rw [Agent.applyUpdate]
  split
  · split <;> exact ⟨rfl, rfl⟩
  · exact ⟨rfl, rfl⟩

/-- After `applyUpdate` the runtime has the validation of the stored policy, if it can. -/
theorem applyUpdate_runtime (c : Config P) (s : Agent P) (listenerError : Option Str) :
    c.validatePolicy s.getPolicy = .ok (s.applyUpdate c listenerError).1.runtime ↔ Validates c s := by
  rw [Agent.applyUpdate, Validates]
  split
  · split
    · rename_i error herror
      refine iff_of_false (fun h => ?_) fun ⟨validated, h⟩ => ?_
      · rw [herror] at h
        cases h
      · rw [herror] at h
        cases h
    · rename_i validated hvalidated
      exact iff_of_true hvalidated ⟨validated, hvalidated⟩
  · rename_i htruthy
    rw [getPolicy_of_not_isTruthy (eq_false_of_ne_true htruthy)]

/-- The hash of the message is the one of the stored policy. -/
theorem inForce_resync {listenerError : Option Str} {policyVersion : Str} {policyJson : Json} :
    InForce c (s.applyUpdate c listenerError).1 policyVersion policyJson ↔
      s.getVersion = policyVersion ∧ s.getPolicy.canonical = policyJson.canonical ∧ Validates c s := by
  obtain ⟨hversion, hpolicy⟩ := applyUpdate_store c s listenerError
  constructor
  · rintro ⟨hv, hp, hr⟩
    rw [hversion] at hv
    rw [hpolicy] at hp hr
    exact ⟨hv, hp, (applyUpdate_runtime c s listenerError).mp hr⟩
  · rintro ⟨hv, hp, hr⟩
    constructor
    · rw [hversion]
      exact hv
    · rw [hpolicy]
      exact hp
    · rw [hpolicy]
      exact (applyUpdate_runtime c s listenerError).mpr hr

theorem getVersion_save (s : Agent P) {policyVersion : Str} (h : policyVersion ≠ [])
    (policyHash : Str) (policyJson : Json) (now : Int) :
    (s.save policyVersion policyHash policyJson now).getVersion = policyVersion :=
  if_neg h

theorem getPolicy_save (s : Agent P) (policyVersion policyHash : Str) (policyJson : Json) (now : Int) :
    (s.save policyVersion policyHash policyJson now).getPolicy =
      if policyJson.isTruthy then policyJson else .null := rfl

/-- A policy that is saved and acknowledged. -/
theorem acknowledged_saved {policyJson : Json} (hversion : m.policyVersion ≠ [])
    (hm : m.policyJson = .json policyJson) (o : Outcome) :
    Acknowledged c
        (match (s.save m.policyVersion (c.computeHash policyJson) policyJson o.now).applyUpdate c
            o.listenerError with
          | (s', none) => s'.answer m 0 (text "policy_applied")
          | (s', some error) => s'.failed m error) ↔
      (policyJson.isTruthy = false →
        policyJson = .null ∧ c.validatePolicy .null = .ok s.runtime) := by
  have hv := getVersion_save s hversion (c.computeHash policyJson) policyJson o.now
  have hp := getPolicy_save s m.policyVersion (c.computeHash policyJson) policyJson o.now
  rw [Agent.applyUpdate]
  cases htruthy : policyJson.isTruthy with
  | true =>
    rw [htruthy, if_pos rfl] at hp
    rw [hp, if_pos htruthy]
    refine iff_of_true ?_ Bool.noConfusion
    cases hvalidated : c.validatePolicy policyJson with
    | error error => exact acknowledged_answer_failure
    | ok validated =>
      cases o.listenerError with
      | none =>
        apply (acknowledged_answer hm).mpr
        exact ⟨hv, congrArg Json.canonical hp, (congrArg c.validatePolicy hp).trans hvalidated⟩
      | some error => exact acknowledged_answer_failure
  | false =>
    rw [htruthy, if_neg Bool.false_ne_true] at hp
    rw [hp, if_neg (by decide), forall_prop_of_true rfl]
    rw [acknowledged_answer hm]
    constructor
    · rintro ⟨-, hpolicy, hruntime⟩
      rw [hp] at hpolicy hruntime
      exact ⟨Json.canonical_eq_null.mp hpolicy.symm, hruntime⟩
    · rintro ⟨rfl, hruntime⟩
      exact ⟨hv, congrArg Json.canonical hp, (congrArg c.validatePolicy hp).trans hruntime⟩

end Steps

/-- The step lemma: an answer tells the truth exactly when the message takes. -/
theorem acknowledged_step (c : Config P) {s : Agent P} (hs : Acknowledged c s) (e : Event) :
    Acknowledged c (step c s e) ↔ Takes c s e := by
  cases e with
  | restart =>
    refine iff_of_true ?_ trivial
    rw [step, Agent.restart]
    split
    · intro m reason hack
      cases hack
    · split
      · intro m reason hack
        cases hack
      · exact hs
  | policyUpdate m o =>
    rw [step, Agent.onPolicyUpdate, Takes]
    by_cases hversion : m.policyVersion = []
    · rw [if_pos hversion]
      exact iff_of_true acknowledged_answer_failure fun _ h => absurd hversion h
    · rw [if_neg hversion]
      cases hm : m.policyJson with
      | missing => exact iff_of_true acknowledged_answer_failure fun _ _ h => by cases h
      | invalid => exact iff_of_true acknowledged_answer_failure fun _ _ h => by cases h
      | json policyJson =>
        have htakes : ∀ {T : Json → Prop}, (∀ policyJson', m.policyVersion ≠ [] →
            Payload.json policyJson = .json policyJson' → T policyJson') ↔ T policyJson :=
          ⟨fun h => h policyJson hversion rfl, fun h _ _ heq => Payload.json.inj heq ▸ h⟩
        rw [htakes]
        dsimp only
        by_cases hhash : s.getHash = some (c.computeHash policyJson)
        · rw [if_pos hhash, if_pos hhash, acknowledged_answer hm]
          exact inForce_resync
        · rw [if_neg hhash, if_neg hhash]
          cases o.saveError with
          | some error => exact iff_of_true acknowledged_answer_failure fun h => by cases h
          | none =>
            rw [forall_prop_of_true rfl]
            exact acknowledged_saved hversion hm o

/-- Along a run, every message acknowledged with status 0 is then in force exactly when every
message of the run takes. -/
theorem always_acknowledged_iff (c : Config P) (tr : List Event) :
    (machine c).Always (Acknowledged c) tr ↔ (machine c).Guarded (Takes c) tr := by
  apply Machine.always_iff_guarded (I := Acknowledged c)
  · intro m reason hack
    cases hack
  · intro s e hs htakes
    exact (acknowledged_step c hs e).mpr htakes
  · exact fun _ hs => hs
  · intro s e hs hlost hack
    exact hlost ((acknowledged_step c hs e).mp hack)

/-! ## A version that is not taken -/

def sampleConfig : Config Json where
  sha256 := fun bytes => bytes.map UInt8.toUInt16
  validatePolicy := .ok
  DEFAULT_POLICY := .obj []

def update (policyVersion : Str) : PolicyUpdate :=
  ⟨text "e", policyVersion, .json (.obj [])⟩

/-- The same policy under two versions. -/
def renamed : List Event :=
  [.policyUpdate (update (text "1")) ⟨none, none, 0⟩,
    .policyUpdate (update (text "2")) ⟨none, none, 1⟩]

/-- Version 2 is acknowledged, and the store has version 1. -/
theorem not_always_acknowledged_renamed : ((machine sampleConfig).run renamed).lastAck =
        some ⟨update (text "2"), 0, text "policy_already_applied"⟩ ∧
      ((machine sampleConfig).run renamed).getVersion = text "1" ∧
      ¬ (machine sampleConfig).Always (Acknowledged sampleConfig) renamed := by
  have hack : ((machine sampleConfig).run renamed).lastAck =
      some ⟨update (text "2"), 0, text "policy_already_applied"⟩ := rfl
  have hversion : ((machine sampleConfig).run renamed).getVersion = text "1" := rfl
  refine ⟨hack, hversion, fun halways => ?_⟩
  obtain ⟨policyJson, -, hforce⟩ := halways.last _ _ hack
  have hsame : text "1" = text "2" := hversion.symm.trans hforce.version
  exact absurd hsame (by decide)

end Policy
