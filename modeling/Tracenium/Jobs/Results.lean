-- SUMMARY: When the result of a certificate job that is acknowledged as done is in the outbox.
import Tracenium.Jobs.Snapshot

/-! A certificate job is acknowledged with status 0 whatever becomes of the snapshot that its result travels in. -/

open Utf16 Utf8 List Option

namespace Jobs

open Call

/-- An outbox event that carries the result of the job was enqueued. -/
def Carried (s : Agent) (jobId : Str) (result : Json) : Prop :=
  ∃ outboxId event, (outboxId, event) ∈ s.enqueued ∧
    event.field (text "jobId") = some (.str jobId) ∧
    event.field (text "jobStatus") = some (.str (text "completed")) ∧
    event.field (text "result") = some result

/-- The result of every certificate job that succeeded and was acknowledged as done is carried by
an outbox event. -/
def Delivered (s : Agent) : Prop :=
  ∀ r ∈ s.returned, ∀ result, r.call.jobResult = some result → r.ack.status = 0 → Carried s r.call.run.jobId result

/-- A snapshot of CDP facts with the result is put together, and it is not too large. -/
structure Collects (h : Outbox.Host) (e : Collection) (jobId : Str) (result : Json) : Prop where
  enabled : e.policy.pluginEnabled .cdp = true
  built : ∃ cdp facts, e.collect .cdp = some cdp ∧ e.buildDeviceFacts [(.cdp, cdp)] = .ok facts ∧
    byteLength (Outbox.maybeCompressPayload h (payload facts jobId (some result)).stringify) ≤
      Outbox.SqliteOutbox.maxBytes

/-- The event does not lose the result of a certificate job, unless it was carried before. -/
def Reaches (h : Outbox.Host) (s : Agent) : Event → Prop
  | .response k (.ok resp) now =>
    ∀ r result, s.calling[k]? = some r → jobResult ⟨r, some resp⟩ = some result →
      isOnCooldown s (text "cdp") now = none ∨ Carried s r.jobId result
  | .collected k e =>
    ∀ c result, s.collecting[k]? = some c → c.jobResult = some result →
      Collects h e c.run.jobId result ∨ Carried s c.run.jobId result
  | _ => True

/-! ## Results and acknowledgements -/

section Calls

variable {c : Call} {result : Json}

theorem Call.factType_of_jobResult (h : c.jobResult = some result) : c.run.job.factType = text "cdp" := by
  rw [jobResult] at h
  split at h
  · rename_i hjob _
    rw [hjob]
    rfl
  · rename_i hjob _
    rw [hjob]
    rfl
  · cases h

/-- The answer does not depend on what becomes of the snapshot. -/
theorem Call.ack_status (h : c.jobResult = some result) (outcome : Except Str Nat) : (c.ack outcome).status = 0 := by
  rw [jobResult] at h
  split at h
  · rename_i hjob _
    simp only [ack, hjob]
  · rename_i hjob _
    simp only [ack, hjob]
  · cases h

theorem Call.cooldownAck_status (h : c.jobResult = some result) (ageMs : Nat) : (c.cooldownAck ageMs).status = 0 := by
  have hack := ack_status h (.ok 0)
  rw [jobResult] at h
  rw [cooldownAck]
  split at h
  · rename_i hjob _
    rw [hjob]
    exact hack
  · rename_i hjob _
    rw [hjob]
    exact hack
  · cases h

/-- A job that failed, or made no privileged call, has no result. -/
theorem Call.jobResult_of_not_ok {r : RunJob} {resp : PrivResponse} (h : resp.ok = false) :
    jobResult ⟨r, some resp⟩ = none := by
  rw [jobResult]
  split
  · rename_i heq
    obtain rfl := some.inj heq
    rw [h]
    rfl
  · rename_i heq
    obtain rfl := some.inj heq
    rw [h]
    rfl
  · rfl

theorem Call.jobResult_of_none (r : RunJob) : jobResult ⟨r, none⟩ = none := by
  rw [jobResult]
  split
  · rename_i heq
    cases heq
  · rename_i heq
    cases heq
  · rfl

end Calls

/-- The event of a job carries its result. -/
theorem field_payload (facts : OrderedMap Str Json) (jobId : Str) (result : Json) :
    (payload facts jobId (some result)).field (text "jobId") = some (.str jobId) ∧
      (payload facts jobId (some result)).field (text "jobStatus") = some (.str (text "completed")) ∧
      (payload facts jobId (some result)).field (text "result") = some result := by
  have hid : text "jobId" ≠ text "jobStatus" := by decide
  have hid' : text "jobId" ≠ text "result" := by decide
  have hstatus : text "jobStatus" ≠ text "result" := by decide
  refine ⟨?_, ?_, ?_⟩
  · apply Json.field_set_of_ne hid'
    apply Json.field_set_of_ne hid
    apply Json.field_set_self
  · apply Json.field_set_of_ne hstatus
    apply Json.field_set_self
  · apply Json.field_set_self

/-! ## Steps -/

theorem Carried.mono {s s' : Agent} {jobId : Str} {result : Json} (h : Carried s jobId result)
    (hsub : s.enqueued ⊆ s'.enqueued) : Carried s' jobId result := by
  obtain ⟨outboxId, event, hmem, hfields⟩ := h
  exact ⟨outboxId, event, hsub hmem, hfields⟩

/-- Nothing new is acknowledged, and no enqueued event is forgotten. -/
theorem Delivered.keep {s s' : Agent} (h : Delivered s) (hret : s'.returned = s.returned)
    (hsub : s.enqueued ⊆ s'.enqueued) : Delivered s' := by
  intro r hr result hresult hstatus
  rw [hret] at hr
  exact (h r hr result hresult hstatus).mono hsub

/-- One more job is acknowledged. -/
theorem delivered_answer {s : Agent} {c : Call} {ack : Ack} : Delivered (s.answer c ack) ↔ Delivered s ∧
      ∀ result, c.jobResult = some result → ack.status = 0 → Carried s c.run.jobId result := by
  constructor
  · intro h
    refine ⟨fun r hr => h r (mem_append_left _ hr), ?_⟩
    exact h ⟨c, ack⟩ (mem_append_right _ (mem_singleton.mpr rfl))
  · rintro ⟨h, hlast⟩ r hr
    rcases mem_append.mp hr with hr | hr
    · exact h r hr
    · rw [mem_singleton.mp hr]
      exact hlast

theorem Delivered.reject {s : Agent} (h : Delivered s) (r : RunJob) (message : Str) :
    Delivered (reject r s message) := by
  apply delivered_answer.mpr
  refine ⟨h, fun result hresult => ?_⟩
  rw [jobResult_of_none] at hresult
  cases hresult

/-- A snapshot is skipped for its cooldown. -/
theorem delivered_beginSnapshot {s : Agent} (h : Delivered s) (c : Call) (now : Int) :
    Delivered (s.beginSnapshot c now) ↔ ∀ result, c.jobResult = some result →
      isOnCooldown s (text "cdp") now = none ∨ Carried s c.run.jobId result := by
  rw [Agent.beginSnapshot]
  split
  · rename_i ageMs hskip
    rw [delivered_answer, and_iff_right h]
    refine forall_congr' fun result => forall_congr' fun hresult => ?_
    have hall : text "cdp" ≠ text "all" := by decide
    rw [factType_of_jobResult hresult, if_neg hall] at hskip
    rw [hskip, forall_prop_of_true (cooldownAck_status hresult ageMs)]
    exact (or_iff_right (some_ne_none _)).symm
  · rename_i hskip
    refine iff_of_true (h.keep rfl fun _ hmem => hmem) fun result hresult => .inl ?_
    have hall : text "cdp" ≠ text "all" := by decide
    rwa [factType_of_jobResult hresult, if_neg hall] at hskip

/-- The namespaces of a snapshot of type `cdp`. -/
theorem namespaces_cdp (e : Collection) : e.namespaces (text "cdp") =
      if e.policy.pluginEnabled .cdp then ((e.collect .cdp).map fun v => (Plugin.cdp, v)).toList else [] := by
  have hruns : ∀ p, runs e.policy (text "cdp") p =
      (decide (p = .cdp) && e.policy.pluginEnabled .cdp) := by
    intro p
    cases p <;> rfl
  simp only [Collection.namespaces, filterMap_cons, hruns]
  cases e.policy.pluginEnabled .cdp <;> cases e.collect .cdp <;> rfl

theorem collectFactsSnapshot_frame {h : Outbox.Host} {s s' : Agent} {c : Call} {e : Collection}
    {outboxId : Nat} (hs' : s.collectFactsSnapshot h c e = .ok (outboxId, s')) :
    s'.returned = s.returned ∧ s.enqueued ⊆ s'.enqueued := by
  simp only [Agent.collectFactsSnapshot] at hs'
  split at hs'
  · cases hs'
  · split at hs'
    · cases hs'
    · split at hs'
      · cases hs'
      · obtain ⟨-, rfl⟩ := Prod.mk.inj (Except.ok.inj hs')
        exact ⟨rfl, subset_append_left _ _⟩

/-- What is left of a snapshot of type `cdp` when its collector returned `cdp`. -/
theorem collectFactsSnapshot_cdp (h : Outbox.Host) (s : Agent) {c : Call} {result : Json}
    (hresult : c.jobResult = some result) {e : Collection} {cdp : Json}
    (henabled : e.policy.pluginEnabled .cdp = true) (hcdp : e.collect .cdp = some cdp) :
    match e.buildDeviceFacts [(.cdp, cdp)] with
    | .error error => s.collectFactsSnapshot h c e = .error error
    | .ok facts =>
      match s.outbox.enqueue h .factsSnapshot (payload facts c.run.jobId (some result)) e.now with
      | .error error => s.collectFactsSnapshot h c e = .error error
      | .ok (outboxId, _) => ∃ s', s.collectFactsSnapshot h c e = .ok (outboxId, s') ∧
          s'.enqueued = s.enqueued ++ [(outboxId, payload facts c.run.jobId (some result))] := by
  have hnamespaces : e.namespaces c.run.job.factType = [(.cdp, cdp)] := by
    rw [factType_of_jobResult hresult, namespaces_cdp, henabled, hcdp]
    rfl
  have hrehydrated : e.rehydrated [(.cdp, cdp)] = [(.cdp, cdp)] := rfl
  have hnonempty : isEmpty [(Plugin.cdp, cdp)] = false := rfl
  rw [Agent.collectFactsSnapshot, hnamespaces, hrehydrated, hresult, hnonempty, if_neg Bool.false_ne_true]
  cases e.buildDeviceFacts [(.cdp, cdp)] with
  | error error => rfl
  | ok facts =>
    dsimp only
    cases s.outbox.enqueue h .factsSnapshot (payload facts c.run.jobId (some result)) e.now with
    | error error => rfl
    | ok r => exact ⟨_, rfl, rfl⟩

/-- The event of a job is enqueued when its snapshot is put together. -/
theorem Collects.carried {h : Outbox.Host} {e : Collection} {c : Call} {result : Json}
    (hcollects : Collects h e c.run.jobId result) (hresult : c.jobResult = some result)
    (s : Agent) : ∃ outboxId s', s.collectFactsSnapshot h c e = .ok (outboxId, s') ∧
      Carried s' c.run.jobId result := by
  obtain ⟨cdp, facts, hcdp, hbuilt, hle⟩ := hcollects.built
  have hspec := collectFactsSnapshot_cdp h s hresult hcollects.enabled hcdp
  rw [hbuilt] at hspec
  have hsize := Outbox.enqueue_size h s.outbox .factsSnapshot
    (payload facts c.run.jobId (some result)) e.now
  dsimp only at hspec
  split at hspec
  · rename_i henqueue
    rw [henqueue] at hsize
    exact absurd hle (Nat.not_le_of_lt hsize)
  · rename_i outboxId _ _
    obtain ⟨s', hs', henqueued⟩ := hspec
    refine ⟨outboxId, s', hs', outboxId, _, ?_, field_payload facts c.run.jobId result⟩
    rw [henqueued]
    exact mem_append_right _ (mem_singleton.mpr rfl)

/-- A snapshot that sends the result is put together. -/
theorem collects_of_ok {h : Outbox.Host} {s s' : Agent} {c : Call} {result : Json}
    (hresult : c.jobResult = some result) {e : Collection} {outboxId : Nat}
    (hs' : s.collectFactsSnapshot h c e = .ok (outboxId, s')) : Collects h e c.run.jobId result := by
  cases henabled : e.policy.pluginEnabled .cdp with
  | false =>
    rw [Agent.collectFactsSnapshot, factType_of_jobResult hresult, namespaces_cdp, henabled] at hs'
    cases hs'
  | true =>
    cases hcdp : e.collect .cdp with
    | none =>
      rw [Agent.collectFactsSnapshot, factType_of_jobResult hresult, namespaces_cdp, henabled, hcdp] at hs'
      cases hs'
    | some cdp =>
      have hspec := collectFactsSnapshot_cdp h s hresult henabled hcdp
      split at hspec
      · rw [hspec] at hs'
        cases hs'
      · rename_i facts hbuilt
        have hsize := Outbox.enqueue_size h s.outbox .factsSnapshot
          (payload facts c.run.jobId (some result)) e.now
        split at hspec
        · rw [hspec] at hs'
          cases hs'
        · rename_i henqueue
          rw [henqueue] at hsize
          exact ⟨henabled, cdp, facts, hcdp, hbuilt, hsize⟩

/-- A snapshot fails, or sends the result. -/
theorem delivered_endSnapshot (h : Outbox.Host) {s : Agent} (hs : Delivered s) (c : Call) (e : Collection) :
    Delivered (s.endSnapshot h c e) ↔ ∀ result, c.jobResult = some result →
      Collects h e c.run.jobId result ∨ Carried s c.run.jobId result := by
  rw [Agent.endSnapshot]
  split
  · rename_i outboxId s' hs'
    obtain ⟨hret, hsub⟩ := collectFactsSnapshot_frame hs'
    rw [delivered_answer, and_iff_right (hs.keep hret hsub)]
    refine iff_of_true (fun result hresult _ => ?_) fun result hresult =>
      .inl (collects_of_ok hresult hs')
    obtain ⟨outboxId', s'', hs'', hcarried⟩ := (collects_of_ok hresult hs').carried hresult s
    rw [hs'] at hs''
    obtain ⟨-, rfl⟩ := Prod.mk.inj (Except.ok.inj hs'')
    exact hcarried
  · rename_i error hs'
    rw [delivered_answer, and_iff_right hs]
    refine forall_congr' fun result => forall_congr' fun hresult => ?_
    rw [forall_prop_of_true (ack_status hresult _), or_iff_right]
    intro hcollects
    obtain ⟨outboxId, s', hok, -⟩ := hcollects.carried hresult s
    rw [hs'] at hok
    cases hok

theorem Delivered.executeRunJob {s : Agent} (hs : Delivered s) (r : RunJob) (policy : Policy)
    (now : Int) : Delivered (s.executeRunJob r policy now) := by
  rw [Agent.executeRunJob]
  split
  · exact hs.reject r _
  · split
    · apply (delivered_beginSnapshot hs _ _).mpr
      intro result hresult
      rw [jobResult_of_none] at hresult
      cases hresult
    · split
      · exact hs.reject r _
      · split
        · exact hs.reject r _
        · exact hs.keep rfl fun _ hmem => hmem
    · split
      · exact hs.reject r _
      · split
        · exact hs.reject r _
        · exact hs.keep rfl fun _ hmem => hmem

theorem Delivered.onOutbox {s : Agent} (hs : Delivered s) (h : Outbox.Host) (e : Outbox.Event) :
    Delivered (s.onOutbox h e) := by
  unfold Agent.onOutbox
  split
  · split
    · exact hs.keep rfl (subset_append_left _ _)
    · exact hs.keep rfl fun _ hmem => hmem
  · exact hs.keep rfl fun _ hmem => hmem
  · exact hs.keep rfl fun _ hmem => hmem

theorem delivered_onResponse {s : Agent} (hs : Delivered s) (r : RunJob) (resp : PrivResponse) (now : Int) :
    Delivered (s.onResponse r (.ok resp) now) ↔ ∀ result, jobResult ⟨r, some resp⟩ = some result →
        isOnCooldown s (text "cdp") now = none ∨ Carried s r.jobId result := by
  rw [Agent.onResponse]
  cases hok : resp.ok with
  | true =>
    exact delivered_beginSnapshot hs _ now
  | false =>
    rw [if_neg Bool.false_ne_true]
    have hnone := jobResult_of_not_ok (r := r) hok
    rw [delivered_answer, hnone]
    exact iff_of_true ⟨hs, nofun⟩ fun _ h => by cases h

/-- The step lemma: an event keeps every result delivered exactly when it reaches the outbox. -/
theorem delivered_step (h : Outbox.Host) {s : Agent} (hs : Delivered s) (e : Event) :
    Delivered (step h s e) ↔ Reaches h s e := by
  cases e with
  | outbox e => exact iff_of_true (hs.onOutbox h e) trivial
  | setState factType now => exact iff_of_true (hs.keep rfl fun _ hmem => hmem) trivial
  | runJob r policy now => exact iff_of_true (hs.executeRunJob r policy now) trivial
  | response k resp now =>
    have hs' : Delivered { s with calling := s.calling.eraseIdx k } := hs.keep rfl fun _ hmem => hmem
    rw [step]
    cases resp with
    | error error =>
      refine iff_of_true ?_ trivial
      split
      · exact hs'.reject _ _
      · exact hs
    | ok resp =>
      rw [Reaches]
      cases hcall : s.calling[k]? with
      | none => exact iff_of_true hs fun _ _ h => by cases h
      | some r =>
        rw [delivered_onResponse hs']
        constructor
        · intro hreach r' result heq hresult
          obtain rfl := some.inj heq
          exact hreach result hresult
        · intro hreach result hresult
          exact hreach r result rfl hresult
  | collected k e =>
    have hs' : Delivered { s with collecting := s.collecting.eraseIdx k } := hs.keep rfl fun _ hmem => hmem
    rw [step, Reaches]
    cases hcall : s.collecting[k]? with
    | none => exact iff_of_true hs fun _ _ h => by cases h
    | some c =>
      rw [delivered_endSnapshot h hs']
      constructor
      · intro hreach c' result heq hresult
        obtain rfl := some.inj heq
        exact hreach result hresult
      · intro hreach result hresult
        exact hreach c result rfl hresult

/-- Along a run, the results of the certificate jobs that were acknowledged as done are in the
outbox in every state exactly when no event of the run loses one. -/
theorem always_delivered_iff (h : Outbox.Host) (lockOwner : Str) (tr : List Event) :
    (machine h lockOwner).Always Delivered tr ↔ (machine h lockOwner).Guarded (Reaches h) tr := by
  apply Machine.always_iff_guarded (I := Delivered)
  · intro r hr
    cases hr
  · intro s e hs hreach
    exact (delivered_step h hs e).mpr hreach
  · exact fun _ hs => hs
  · intro s e hs hlost hdelivered
    exact hlost ((delivered_step h hs e).mp hdelivered)

/-! ## A result that is lost -/

def sampleHost : Outbox.Host where
  sha256 := fun bytes => bytes.map UInt8.toUInt16
  gzipSync := fun _ => none
  gunzipSync := fun _ => none
  toBase64 := fun _ => []
  ofBase64 := fun _ => []
  localTime := id
  utc := id

def csrJob : RunJob := ⟨text "j", .cdpCsrGenerate (text "k") (text "s")⟩

def csrResponse : PrivResponse := ⟨true, .obj [(text "csrPem", .str (text "p"))], [], []⟩

/-- The scheduler sends CDP facts, and a second later the CSR of a job is there. -/
def lostCsr : List Event :=
  [.setState (text "cdp") 1000, .runJob csrJob ⟨true, true, true, fun _ => true⟩ 1500,
    .response 0 (.ok csrResponse) 2000]

/-- The job is acknowledged as done, and its CSR is nowhere. -/
theorem not_always_delivered_lostCsr : ((machine sampleHost []).run lostCsr).enqueued = [] ∧
      ((machine sampleHost []).run lostCsr).returned = [⟨⟨csrJob, some csrResponse⟩, ⟨0, text "csr_generated"⟩⟩] ∧
      ¬ (machine sampleHost []).Always Delivered lostCsr := by
  have henqueued : ((machine sampleHost []).run lostCsr).enqueued = [] := rfl
  have hreturned : ((machine sampleHost []).run lostCsr).returned =
      [⟨⟨csrJob, some csrResponse⟩, ⟨0, text "csr_generated"⟩⟩] := rfl
  refine ⟨henqueued, hreturned, fun halways => ?_⟩
  have hmem : (⟨⟨csrJob, some csrResponse⟩, ⟨0, text "csr_generated"⟩⟩ : Returned) ∈
      ((machine sampleHost []).run lostCsr).returned := by
    exact mem_singleton.mpr rfl
  obtain ⟨outboxId, event, hevent, -⟩ := halways.last _ hmem _ rfl rfl
  cases hevent

end Jobs
