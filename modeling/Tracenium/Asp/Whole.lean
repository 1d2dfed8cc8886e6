-- SUMMARY: When an assessment is uploaded whole or not at all: what every statement and enqueue keeps, and the runs without an exception between two enqueues.
import Tracenium.Asp.Runner

/-! A run that is marked as failed after an event was enqueued breaks this. -/

open Utf16 List Function Nat

namespace Asp

open LocalRun Cuts Store Asp

/-- What was enqueued of the runs is whole. -/
structure WholeOrNothing (s : State) : Prop where
  /-- Nothing of a run whose call returned, or that a boot recovered, is missing. -/
  uploaded : ∀ r ∈ s.store.rows, (∃ e ∈ s.store.outbox, e.runId = r.runId) → r.runId ∈ s.ended →
    ∀ e ∈ r.uploads, e ∈ s.store.outbox
  /-- All events of a run are from one upload, with one result for each indicator. -/
  consistent : ∀ r ∈ s.store.rows, (∃ e ∈ s.store.outbox, e.runId = r.runId) →
    IsWhole r.runId r.indicators r.uploads ∧ ∀ e ∈ s.store.outbox, e.runId = r.runId → e ∈ r.uploads
  clean : ∀ r ∈ s.store.rows, r.status = .failed ∨ r.status = .aborted → ∀ e ∈ s.store.outbox, e.runId ≠ r.runId
  /-- Every event is of a run of the table. -/
  known : ∀ e ∈ s.store.outbox, ∃ r ∈ s.store.rows, r.runId = e.runId

/-! ## Rows -/

/-- What the outbox may have of a run, by its status. -/
structure RowSound (outbox : List Upload) (r : LocalRun) : Prop where
  own : ∀ e ∈ outbox, e.runId = r.runId → e ∈ r.uploads
  whole : r.status = .evaluated ∨ r.status = .enqueued → IsWhole r.runId r.indicators r.uploads
  all : r.status = .enqueued → ∀ e ∈ r.uploads, e ∈ outbox
  silent : r.status ≠ .evaluated → r.status ≠ .enqueued → ∀ e ∈ outbox, e.runId ≠ r.runId

/-- The table and the outbox agree. -/
structure Store.Sound (s : Store) : Prop where
  rows : ∀ r ∈ s.rows, RowSound s.outbox r
  ids : (s.rows.map runId).Nodup
  known : ∀ e ∈ s.outbox, ∃ r ∈ s.rows, r.runId = e.runId

theorem RowSound.of_silent {outbox : List Upload} {r : LocalRun} (hstatus : r.status ≠ .evaluated)
    (hstatus' : r.status ≠ .enqueued) (h : ∀ e ∈ outbox, e.runId ≠ r.runId) : RowSound outbox r where
  own e he heq := absurd heq (h e he)
  whole hs := (hs.elim hstatus hstatus').elim
  all hs := absurd hs hstatus'
  silent _ _ := h

section Statements

variable {s : Store}

theorem Store.Sound.eq_of_runId (hs : s.Sound) {r r' : LocalRun} (hr : r ∈ s.rows) (hr' : r' ∈ s.rows)
    (h : r.runId = r'.runId) : r = r' :=
  inj_on_of_nodup_map hs.ids hr hr' h

variable {runId : Str} {r : LocalRun}

theorem Store.mem_update {f : LocalRun → LocalRun} :
    r ∈ (s.update runId f).rows ↔ ∃ r' ∈ s.rows, (if r'.runId = runId then f r' else r') = r := by
  simp [update]

/-- An update of one row that keeps its run id. -/
theorem Store.Sound.update (hs : s.Sound) {f : LocalRun → LocalRun}
    (hid : ∀ r, (f r).runId = r.runId)
    (hf : ∀ r ∈ s.rows, r.runId = runId → RowSound s.outbox (f r)) : (s.update runId f).Sound where
  rows r hr := by
    obtain ⟨r', hr', rfl⟩ := mem_update.mp hr
    split
    · exact hf r' hr' ‹_›
    · exact hs.rows r' hr'
  ids := by
    have hmap : (s.update runId f).rows.map LocalRun.runId = s.rows.map LocalRun.runId := by
      simp only [Store.update, map_map]
      refine map_congr_left fun r _ => ?_
      simp only [comp]
      split <;> simp [hid]
    rw [hmap]
    exact hs.ids
  known e he := by
    obtain ⟨r, hr, hre⟩ := hs.known e he
    refine ⟨_, mem_update.mpr ⟨r, hr, rfl⟩, ?_⟩
    split <;> simp [hid, hre]

theorem Store.Sound.markFailed (hs : s.Sound) (error : Str)
    (h : ∀ e ∈ s.outbox, e.runId ≠ runId) : (s.markFailed runId error).Sound := by
  refine hs.update (fun _ => rfl) fun r _ hid => .of_silent (by simp) (by simp) ?_
  intro e he heq
  exact h e he (heq.trans hid)

theorem Store.Sound.saveEvaluated (hs : s.Sound) {results : List AspResult}
    {durationMs : Nat} {notes : List Str} (hsilent : ∀ e ∈ s.outbox, e.runId ≠ runId)
    (hwhole : ∀ r ∈ s.rows, r.runId = runId → ((saved results).map AspResult.controlId).Perm r.indicators) :
    (s.saveEvaluated runId results durationMs notes).Sound := by
  refine hs.update (fun _ => rfl) fun r hr hid => ⟨?_, ?_, by simp, by simp⟩
  · exact fun e he heq => absurd (heq.trans hid) (hsilent e he)
  · exact fun _ => isWhole_buildUploadEvents (hwhole r hr hid)

theorem Store.Sound.markEnqueued (hs : s.Sound) (h : ∀ r ∈ s.rows, r.runId = runId → ∀ e ∈ r.uploads, e ∈ s.outbox) :
    (s.markEnqueued runId).Sound := by
  refine hs.update (fun r => by split <;> rfl) fun r hr hid => ?_
  have hrow := hs.rows r hr
  split
  · rename_i hstatus
    exact ⟨hrow.own, fun _ => hrow.whole (.inl hstatus), fun _ => h r hr hid, by simp⟩
  · exact hrow

theorem Store.Sound.enqueue (hs : s.Sound) (hr : r ∈ s.rows)
    (hstatus : r.status = .evaluated ∨ r.status = .enqueued) {e : Upload} (he : e ∈ r.uploads) :
    (s.enqueue e).Sound where
  rows r' hr' := by
    have hrow := hs.rows r' hr'
    -- the event is of the one run only
    have hother : e.runId = r'.runId → r' = r := fun heq =>
      hs.eq_of_runId hr' hr (heq.symm.trans (runId_of_mem_uploads he))
    refine ⟨fun e' he' heq => ?_, hrow.whole, fun hs' e' he' => ?_, fun hne hne' e' he' heq => ?_⟩
    · rcases mem_append.mp he' with he' | he'
      · exact hrow.own e' he' heq
      · rw [mem_singleton.mp he'] at heq ⊢
        rwa [hother heq]
    · exact mem_append_left _ (hrow.all hs' e' he')
    · rcases mem_append.mp he' with he' | he'
      · exact hrow.silent hne hne' e' he' heq
      · rw [mem_singleton.mp he'] at heq
        rw [hother heq] at hne hne'
        exact hstatus.elim hne hne'
  ids := hs.ids
  known e' he' := by
    rcases mem_append.mp he' with he' | he'
    · exact hs.known e' he'
    · rw [mem_singleton.mp he', runId_of_mem_uploads he]
      exact ⟨r, hr, rfl⟩

theorem Store.Sound.abortRunning (hs : s.Sound) : s.abortRunning.Sound where
  rows r hr := by
    obtain ⟨r', hr', rfl⟩ := mem_map.mp hr
    split
    · rename_i hstatus
      refine .of_silent (by simp) (by simp) ?_
      exact (hs.rows r' hr').silent (by simp [hstatus]) (by simp [hstatus])
    · exact hs.rows r' hr'
  ids := by
    have hmap : s.abortRunning.rows.map runId = s.rows.map runId := by
      simp only [Store.abortRunning, map_map]
      refine map_congr_left fun r _ => ?_
      simp only [comp]
      split <;> rfl
    rw [hmap]
    exact hs.ids
  known e he := by
    obtain ⟨r, hr, hre⟩ := hs.known e he
    refine ⟨_, mem_map_of_mem hr, ?_⟩
    split <;> exact hre

theorem Store.get_eq_none (h : s.get runId = none) : ∀ r ∈ s.rows, r.runId ≠ runId := by
  intro r hr
  simpa using find?_eq_none.mp h r hr

theorem Store.Sound.start (hs : s.Sound) {s' : Store} {startedAt : Nat}
    {indicators : List Str} (h : s.start runId startedAt indicators = some s') : s'.Sound := by
  unfold Store.start at h
  split at h
  · cases h
  · rename_i hnone
    have hnew := get_eq_none (by simpa using hnone)
    cases h
    refine ⟨fun r hr => ?_, ?_, fun e he => ?_⟩
    · rcases mem_append.mp hr with hr | hr
      · exact hs.rows r hr
      · rw [mem_singleton.mp hr]
        refine .of_silent (by simp) (by simp) fun e he heq => ?_
        obtain ⟨r', hr', hid⟩ := hs.known e he
        exact hnew r' hr' (hid.trans heq)
    · rw [map_append, nodup_append']
      refine ⟨hs.ids, by simp, ?_⟩
      intro id hid hid'
      obtain ⟨r, hr, rfl⟩ := mem_map.mp hid
      exact hnew r hr (by simpa using hid')
    · obtain ⟨r, hr, hre⟩ := hs.known e he
      exact ⟨r, mem_append_left _ hr, hre⟩

/-! ## Rows of operations -/

theorem perform_enqueue (es : List Upload) (k : Nat) (s : Store) :
    perform (es.map fun e s => s.enqueue e) k s = { s with outbox := s.outbox ++ es.take k } := by
  induction es generalizing k s with
  | nil => simp
  | cons e es ih =>
    cases k with
    | zero => simp
    | succ k =>
      rw [map_cons, perform_cons_succ, ih]
      simp [enqueue]

/-- Some events of a run are enqueued. -/
theorem Store.Sound.enqueueAll (hs : s.Sound) (hr : r ∈ s.rows)
    (hstatus : r.status = .evaluated ∨ r.status = .enqueued) {es : List Upload} (hes : es ⊆ r.uploads) :
    (⟨s.rows, s.outbox ++ es⟩ : Store).Sound := by
  induction es generalizing s with
  | nil => simpa using hs
  | cons e es ih =>
    obtain ⟨he, hrest⟩ := cons_subset.mp hes
    have hsound := ih (hs.enqueue hr hstatus he) hr hrest
    simpa [Store.enqueue] using hsound

/-- What `enqueueEvaluatedRun` leaves wherever it stops: events of the run, and its row marked once all
of them are there. -/
theorem perform_enqueueing (r : LocalRun) (k : Nat) (s : Store) : perform r.enqueueing k s =
      if k ≤ r.uploads.length then { s with outbox := s.outbox ++ r.uploads.take k }
      else markEnqueued ⟨s.rows, s.outbox ++ r.uploads⟩ r.runId := by
  unfold enqueueing
  rw [perform_append, perform_enqueue, length_map]
  split
  · rename_i hk
    simp [Nat.sub_eq_zero_of_le hk]
  · rename_i hk
    obtain ⟨j, hj⟩ := Nat.exists_eq_succ_of_ne_zero (Nat.sub_ne_zero_of_lt (Nat.lt_of_not_le hk))
    rw [hj, List.take_of_length_le (Nat.le_of_not_le hk)]
    simp

theorem Store.Sound.enqueueing (hs : s.Sound) (hr : r ∈ s.rows)
    (hstatus : r.status = .evaluated ∨ r.status = .enqueued) (k : Nat) : (perform r.enqueueing k s).Sound := by
  rw [perform_enqueueing]
  split
  · exact hs.enqueueAll hr hstatus (take_subset k _)
  · refine (hs.enqueueAll hr hstatus (Subset.refl _)).markEnqueued fun r' hr' hid e he => ?_
    rw [hs.eq_of_runId hr' hr hid] at he
    exact mem_append_right _ he

/-- The other rows are as they were, and no row becomes evaluated. -/
theorem mem_enqueueing {r r' : LocalRun} {k : Nat} (h : r' ∈ (perform r.enqueueing k s).rows) :
    (r' ∈ s.rows ∧ (r'.runId = r.runId → k ≤ r.uploads.length ∨ r'.status ≠ .evaluated)) ∨ r'.status = .enqueued := by
  rw [perform_enqueueing] at h
  split at h
  · rename_i hk
    exact .inl ⟨h, fun _ => .inl hk⟩
  · obtain ⟨r'', hr'', heq⟩ := mem_update.mp h
    split at heq
    · split at heq
      · exact .inr (heq ▸ rfl)
      · rename_i hne
        exact .inl ⟨heq ▸ hr'', fun _ => .inr (heq ▸ hne)⟩
    · rename_i hid
      exact .inl ⟨heq ▸ hr'', fun hid' => absurd (heq ▸ hid') hid⟩

/-- The rows of other runs stay. -/
theorem mem_enqueueing_of_ne {r r' : LocalRun} {k : Nat} (h : r' ∈ s.rows) (hne : r'.runId ≠ r.runId) :
    r' ∈ (perform r.enqueueing k s).rows := by
  rw [perform_enqueueing]
  split
  · exact h
  · exact mem_update.mpr ⟨r', h, by simp [hne]⟩

theorem Store.Sound.get_of_mem (hs : s.Sound) (hr : r ∈ s.rows) : s.get r.runId = some r := by
  obtain ⟨r', hr'⟩ := Option.isSome_iff_exists.mp
    (find?_isSome.mpr ⟨r, hr, by simp⟩ : (s.rows.find? (·.runId = r.runId)).isSome)
  have hid : r'.runId = r.runId := by simpa using find?_some hr'
  rw [get, hr', hs.eq_of_runId (mem_of_find?_eq_some hr') hr hid]

/-- `enqueueEvaluatedRun` on a run of the table, whatever its status. -/
theorem Store.Sound.enqueueEvaluatedRun (hs : s.Sound) (runId : Str) (k : Nat) :
    (perform (enqueueEvaluatedRun s runId) k s).Sound := by
  unfold Asp.enqueueEvaluatedRun
  split
  · rename_i r hr
    split
    · exact hs.enqueueing (mem_of_find?_eq_some hr) ‹_› k
    · simpa using hs
  · simpa using hs

/-! ## Recovery -/

/-- The runs that are still to be enqueued, one after the other. -/
structure Pending (s : Store) (rs : List LocalRun) : Prop where
  rows : ∀ r ∈ rs, r ∈ s.rows ∧ r.status = .evaluated
  ids : (rs.map LocalRun.runId).Nodup

/-- The recovery keeps what is sound wherever it stops; it makes no row evaluated, and leaves none of
those it went through. -/
theorem Store.Sound.recovered (hs : s.Sound) {rs : List LocalRun} (hrs : Pending s rs) (k : Nat) :
    (Cuts.perform (rs.flatMap LocalRun.enqueueing) k s).Sound ∧
      ∀ r ∈ (Cuts.perform (rs.flatMap LocalRun.enqueueing) k s).rows, r.status = .evaluated →
        r ∈ s.rows ∧ ((rs.flatMap LocalRun.enqueueing).length ≤ k → r.runId ∉ rs.map LocalRun.runId) := by
  induction rs generalizing s k with
  | nil => exact ⟨by simpa using hs, fun r hr _ => ⟨by simpa using hr, by simp⟩⟩
  | cons r rs ih =>
    obtain ⟨⟨hr, hstatus⟩, hrest⟩ := forall_mem_cons.mp hrs.rows
    obtain ⟨hnew, hids⟩ := nodup_cons.mp hrs.ids
    rw [flatMap_cons, perform_append]
    have hpending : Pending (perform r.enqueueing k s) rs := by
      refine ⟨fun r' hr' => ⟨mem_enqueueing_of_ne (hrest r' hr').1 ?_, (hrest r' hr').2⟩, hids⟩
      exact fun heq => hnew (heq ▸ mem_map_of_mem hr')
    obtain ⟨hsound, hevaluated⟩ := ih (hs.enqueueing hr (.inl hstatus) k) hpending (k - r.enqueueing.length)
    refine ⟨hsound, fun r' hr' hstatus' => ?_⟩
    obtain ⟨hmem, hdone⟩ := hevaluated r' hr' hstatus'
    obtain ⟨hmem', hcut⟩ | henqueued := mem_enqueueing hmem
    · refine ⟨hmem', fun hk => ?_⟩
      rw [length_append] at hk
      have hlength : r.enqueueing.length = r.uploads.length + 1 := by simp [LocalRun.enqueueing]
      simp only [map_cons, mem_cons, not_or]
      refine ⟨fun heq => ?_, hdone (by omega)⟩
      rcases hcut heq with hle | hne
      · omega
      · exact hne hstatus'
    · rw [henqueued] at hstatus'
      cases hstatus'

end Statements

/-! ## Runs and their calls -/

/-- The table and the outbox agree, and a run that is evaluated is neither returned nor recovered. -/
structure Leaves (ended : List Str) (s : Store) : Prop where
  sound : s.Sound
  opened : ∀ r ∈ s.rows, r.status = .evaluated → r.runId ∉ ended
  ended : ∀ id ∈ ended, ∃ r ∈ s.rows, r.runId = id

/-- Only rows of the one run change. -/
structure About (runId : Str) (s s' : Store) : Prop where
  others : ∀ r, r.runId ≠ runId → (r ∈ s'.rows ↔ r ∈ s.rows)
  stays : (∃ r ∈ s.rows, r.runId = runId) → ∃ r ∈ s'.rows, r.runId = runId

/-- The row of a call whose batches are being collected. -/
structure IsLive (ended : List Str) (s : Store) (c : Call) (r : LocalRun) : Prop where
  mem : r ∈ s.rows
  runId : r.runId = c.payload.runId
  status : r.status = .running
  indicators : r.indicators = c.payload.controlIds
  opened : r.runId ∉ ended

structure Invariant (s : State) : Prop where
  leaves : Leaves s.ended s.store
  live : ∀ n c, s.calls n = .collecting c → ∃ r, IsLive s.ended s.store c r
  single : ∀ n m c d, s.calls n = .collecting c → s.calls m = .collecting d →
    c.payload.runId = d.payload.runId → n = m
  acked : ∀ n p, s.calls n = .acked p → Distinct p.controlIds
  collecting : ∀ n c, s.calls n = .collecting c → Distinct c.payload.controlIds
  dead : s.alive = false → ∀ n c, s.calls n ≠ .collecting c

theorem WholeOrNothing.of_invariant {s : State} (hs : Invariant s) : WholeOrNothing s where
  uploaded r hr := by
    rintro ⟨e, he, heq⟩ hended
    have hrow := hs.leaves.sound.rows r hr
    by_cases hstatus : r.status = .enqueued
    · exact hrow.all hstatus
    · exact absurd heq (hrow.silent (fun hev => hs.leaves.opened r hr hev hended) hstatus e he)
  consistent r hr := by
    rintro ⟨e, he, heq⟩
    have hrow := hs.leaves.sound.rows r hr
    refine ⟨hrow.whole ?_, hrow.own⟩
    by_contra hstatus
    obtain ⟨hne, hne'⟩ := not_or.mp hstatus
    exact hrow.silent hne hne' e he heq
  clean r hr hstatus := by
    refine (hs.leaves.sound.rows r hr).silent ?_ ?_ <;> rcases hstatus with h | h <;> simp [h]
  known := hs.leaves.sound.known

section Outcomes

variable {ended : List Str} {s s' : Store} {runId : Str}

theorem About.refl (runId : Str) (s : Store) : About runId s s := ⟨fun _ _ => .rfl, fun h => h⟩

theorem About.trans {s'' : Store} (h : About runId s s') (h' : About runId s' s'') : About runId s s'' :=
  ⟨fun r hr => (h'.others r hr).trans (h.others r hr), fun hr => h'.stays (h.stays hr)⟩

theorem about_update {f : LocalRun → LocalRun} (hf : ∀ r, (f r).runId = r.runId) :
    About runId s (s.update runId f) where
  others r hr := by
    rw [mem_update]
    constructor
    · rintro ⟨r', hr', heq⟩
      split at heq
      · exact absurd (by rw [← heq, hf]; assumption) hr
      · exact heq ▸ hr'
    · exact fun h => ⟨r, h, by simp [hr]⟩
  stays := by
    rintro ⟨r, hr, hid⟩
    exact ⟨f r, mem_update.mpr ⟨r, hr, by simp [hid]⟩, by rw [hf, hid]⟩

theorem about_enqueueing (r : LocalRun) (k : Nat) : About r.runId s (perform r.enqueueing k s) := by
  rw [perform_enqueueing]
  split
  · exact ⟨fun _ _ => .rfl, fun h => h⟩
  · exact (⟨fun _ _ => .rfl, fun h => h⟩ : About r.runId s ⟨s.rows, s.outbox ++ r.uploads⟩).trans
      (about_update fun r => by split <;> rfl)

theorem about_enqueueEvaluatedRun (k : Nat) : About runId s (perform (enqueueEvaluatedRun s runId) k s) := by
  unfold enqueueEvaluatedRun
  split
  · rename_i r hr
    have hid : r.runId = runId := by simpa using find?_some hr
    split
    · exact hid ▸ about_enqueueing r k
    · simpa using About.refl runId s
  · simpa using About.refl runId s

/-- What is left when only an open run changed. -/
theorem Leaves.of_about (h : Leaves ended s) (hsound : s'.Sound) (habout : About runId s s')
    (hopen : runId ∉ ended) : Leaves ended s' where
  sound := hsound
  opened r hr hstatus := by
    by_cases hid : r.runId = runId
    · exact hid ▸ hopen
    · exact h.opened r ((habout.others r hid).mp hr) hstatus
  ended id hid := by
    obtain ⟨r, hr, hrid⟩ := h.ended id hid
    have hne : r.runId ≠ runId := fun heq => hopen (heq ▸ hrid ▸ hid)
    exact ⟨r, (habout.others r hne).mpr hr, hrid⟩

/-- The call of a run that is not left evaluated returns. -/
theorem Leaves.returned (h : Leaves ended s) (hrow : ∃ r ∈ s.rows, r.runId = runId)
    (hne : ∀ r ∈ s.rows, r.runId = runId → r.status ≠ .evaluated) : Leaves (runId :: ended) s where
  sound := h.sound
  opened r hr hstatus := by
    exact fun hmem => (mem_cons.mp hmem).elim (fun hid => hne r hr hid hstatus) (h.opened r hr hstatus)
  ended := forall_mem_cons.mpr ⟨hrow, h.ended⟩

end Outcomes

def State.after (s : State) (n : Nat) (o : Outcome) : State :=
  { s with store := o.store, calls := update s.calls n o.phase, ended := o.returned.toList ++ s.ended }

theorem collecting_update {calls : Nat → Phase} {n m : Nat} {p : Phase} {c : Call}
    (h : update calls n p m = .collecting c) : (m = n ∧ p = .collecting c) ∨ (m ≠ n ∧ calls m = .collecting c) := by
  by_cases hm : m = n
  · subst hm
    exact .inl ⟨rfl, by simpa using h⟩
  · exact .inr ⟨hm, by simpa [hm] using h⟩

theorem acked_update {calls : Nat → Phase} {n m : Nat} {p : Phase} {q : AspAssessPayload}
    (h : update calls n p m = .acked q) : p = .acked q ∨ calls m = .acked q := by
  by_cases hm : m = n
  · subst hm
    exact .inl (by simpa using h)
  · exact .inr (by simpa [hm] using h)

section Calls

variable {s : State} {n : Nat} {c : Call}

/-- A task that leaves the store alone and collects nothing new. -/
theorem Invariant.idle (hs : Invariant s) {p : Phase} (hp : ∀ c, p ≠ .collecting c)
    (hacked : ∀ q, p = .acked q → Distinct q.controlIds) : Invariant (s.after n ⟨s.store, p, none⟩) where
  leaves := hs.leaves
  live m d hd := by
    obtain ⟨-, heq⟩ | ⟨-, hd⟩ := collecting_update hd
    · exact absurd heq (hp d)
    · exact hs.live m d hd
  single m k d e hd he hid := by
    obtain ⟨-, heq⟩ | ⟨-, hd⟩ := collecting_update hd
    · exact absurd heq (hp d)
    obtain ⟨-, heq⟩ | ⟨-, he⟩ := collecting_update he
    · exact absurd heq (hp e)
    exact hs.single m k d e hd he hid
  acked m q hq := (acked_update hq).elim (hacked q) (hs.acked m q)
  collecting m d hd := by
    obtain ⟨-, heq⟩ | ⟨-, hd⟩ := collecting_update hd
    · exact absurd heq (hp d)
    · exact hs.collecting m d hd
  dead hdead m d hd := by
    obtain ⟨-, heq⟩ | ⟨-, hd⟩ := collecting_update hd
    · exact hp d heq
    · exact hs.dead hdead m d hd

/-- The next batch of a call. -/
theorem Invariant.goOn (hs : Invariant s) (hn : s.calls n = .collecting c) {c' : Call}
    (hpayload : c'.payload = c.payload) (halive : s.alive) :
    Invariant (s.after n ⟨s.store, .collecting c', none⟩) := by
  -- every call collects for the payload that it collected for
  have hold : ∀ {m d}, update s.calls n (.collecting c') m = .collecting d →
      ∃ d', s.calls m = .collecting d' ∧ d'.payload = d.payload := by
    intro m d hd
    obtain ⟨rfl, heq⟩ | ⟨-, hd⟩ := collecting_update hd
    · cases heq
      exact ⟨c, hn, hpayload.symm⟩
    · exact ⟨d, hd, rfl⟩
  refine ⟨hs.leaves, fun m d hd => ?_, fun m k d e hd he hid => ?_, fun m q hq => ?_,
    fun m d hd => ?_, fun hdead => ?_⟩
  · obtain ⟨d', hd', hp⟩ := hold hd
    obtain ⟨r, hr⟩ := hs.live m d' hd'
    exact ⟨r, hr.mem, hp ▸ hr.runId, hr.status, hp ▸ hr.indicators, hr.opened⟩
  · obtain ⟨d', hd', hp⟩ := hold hd
    obtain ⟨e', he', hp'⟩ := hold he
    exact hs.single m k d' e' hd' he' (by rw [hp, hp', hid])
  · exact (acked_update hq).elim nofun (hs.acked m q)
  · obtain ⟨d', hd', hp⟩ := hold hd
    exact hp ▸ hs.collecting m d' hd'
  · exact absurd (halive.symm.trans hdead) (by simp)

/-- A call returns. -/
theorem Invariant.close (hs : Invariant s) (hn : s.calls n = .collecting c) {store : Store}
    (hleaves : Leaves (c.payload.runId :: s.ended) store) (habout : About c.payload.runId s.store store) :
    Invariant (s.after n ⟨store, .over, some c.payload.runId⟩) where
  leaves := hleaves
  live m d hd := by
    obtain ⟨-, heq⟩ | ⟨hm, hd⟩ := collecting_update hd
    · cases heq
    obtain ⟨r, hr⟩ := hs.live m d hd
    -- another call collects for another run
    have hne : r.runId ≠ c.payload.runId :=
      fun heq => hm (hs.single m n d c hd hn (hr.runId.symm.trans heq))
    exact ⟨r, (habout.others r hne).mpr hr.mem, hr.runId, hr.status, hr.indicators,
      fun hmem => (mem_cons.mp hmem).elim hne hr.opened⟩
  single m k d e hd he hid := by
    obtain ⟨-, heq⟩ | ⟨-, hd⟩ := collecting_update hd
    · cases heq
    obtain ⟨-, heq⟩ | ⟨-, he⟩ := collecting_update he
    · cases heq
    exact hs.single m k d e hd he hid
  acked m q hq := (acked_update hq).elim nofun (hs.acked m q)
  collecting m d hd := by
    obtain ⟨-, heq⟩ | ⟨-, hd⟩ := collecting_update hd
    · cases heq
    · exact hs.collecting m d hd
  dead hdead m d hd := by
    obtain ⟨-, heq⟩ | ⟨-, hd⟩ := collecting_update hd
    · cases heq
    · exact hs.dead hdead m d hd

theorem State.after_after (s : State) (n : Nat) (store : Store) (p : Phase) (o : Outcome) :
    (s.after n ⟨store, p, none⟩).after n o = s.after n o := by
  simp [State.after]

/-- A call returns, and its run is not evaluated. -/
theorem Invariant.over (hs : Invariant s) (hn : s.calls n = .collecting c) {store : Store}
    (hsound : store.Sound) (habout : About c.payload.runId s.store store)
    (hne : ∀ r ∈ store.rows, r.runId = c.payload.runId → r.status ≠ .evaluated) :
    Invariant (s.after n ⟨store, .over, some c.payload.runId⟩) := by
  obtain ⟨r, hr⟩ := hs.live n c hn
  have hopen : c.payload.runId ∉ s.ended := hr.runId ▸ hr.opened
  have hleaves : Leaves s.ended store := hs.leaves.of_about hsound habout hopen
  exact hs.close hn (hleaves.returned (habout.stays ⟨r, hr.mem, hr.runId⟩) hne) habout

/-- A call returns, and its run is marked as failed before any of its events was enqueued. -/
theorem Invariant.failed (hs : Invariant s) (hn : s.calls n = .collecting c) {store : Store}
    (hsound : store.Sound) (habout : About c.payload.runId s.store store)
    (hsilent : ∀ e ∈ store.outbox, e.runId ≠ c.payload.runId) (error : Str) :
    Invariant (s.after n ⟨store.markFailed c.payload.runId error, .over, some c.payload.runId⟩) := by
  refine hs.over hn (hsound.markFailed error hsilent) (habout.trans (about_update fun _ => rfl)) ?_
  intro r hr hid
  obtain ⟨r', hr', heq⟩ := mem_update.mp hr
  split at heq
  · simp [← heq]
  · rename_i hne
    exact absurd (heq ▸ hid) hne

/-- Nothing was enqueued of a run that is being collected. -/
theorem Invariant.silent (hs : Invariant s) (hn : s.calls n = .collecting c) :
    ∀ e ∈ s.store.outbox, e.runId ≠ c.payload.runId := by
  obtain ⟨r, hr⟩ := hs.live n c hn
  exact hr.runId ▸ (hs.leaves.sound.rows r hr.mem).silent (by simp [hr.status]) (by simp [hr.status])

theorem Invariant.fail (hs : Invariant s) (hn : s.calls n = .collecting c) (reason : Str) (marks : Marks) :
    Invariant (s.after n (fail s.store c.payload.runId reason marks)) := by
  have hsilent := hs.silent hn
  cases marks with
  | first => exact hs.failed hn hs.leaves.sound (.refl _ _) hsilent _
  | second message => exact hs.failed hn hs.leaves.sound (.refl _ _) hsilent _
  | never =>
    obtain ⟨r, hr⟩ := hs.live n c hn
    refine hs.over hn hs.leaves.sound (.refl _ _) fun r' hr' hid => ?_
    rw [hs.leaves.sound.eq_of_runId hr' hr.mem (hid.trans hr.runId.symm), hr.status]
    simp

end Calls

/-! ## The end of a run -/

section Finishing

variable (assess : Assess) {s : State} {n : Nat} {c : Call}

def evaluated (s : Store) (c : Call) (nowMs : Nat) : Store :=
  s.saveEvaluated c.payload.runId (results assess c nowMs) (nowMs - c.startedAt) (collectorNotes c)

theorem perform_finishing_of_lt {s : Store} {nowMs k : Nat} (hk : k < 2) :
    perform (finishing assess s c nowMs) k s = s := by
  match k, hk with
  | 0, _ => simp
  | 1, _ => simp [finishing]

theorem perform_finishing {s : Store} (nowMs k : Nat) : perform (finishing assess s c nowMs) (k + 2) s =
      perform (enqueueEvaluatedRun (evaluated assess s c nowMs) c.payload.runId) k (evaluated assess s c nowMs) := by
  have hid : ∀ (k : Nat) (s : Store), perform [id] k s = s := by
    intro k s
    cases k <;> simp
  simp only [finishing, cons_append, nil_append, perform_cons_succ, perform_append, hid]
  rfl

theorem results_controlId (c : Call) (nowMs : Nat) :
    (results assess c nowMs).map AspResult.controlId = c.payload.controlIds := by
  simp [results, evaluateIndicator, AspAssessPayload.controlIds]

theorem Invariant.sound_evaluated (hs : Invariant s) (hn : s.calls n = .collecting c) (nowMs : Nat) :
    (evaluated assess s.store c nowMs).Sound := by
  have hsound := hs.leaves.sound
  obtain ⟨r, hr⟩ := hs.live n c hn
  refine hsound.saveEvaluated (hs.silent hn) fun r' hr' hid => ?_
  have hdistinct : Distinct ((results assess c nowMs).map AspResult.controlId) := by
    rw [results_controlId]
    exact hs.collecting n c hn
  have hperm := perm_saved hdistinct
  rwa [results_controlId, ← hr.indicators, ← hsound.eq_of_runId hr' hr.mem (hid.trans hr.runId.symm)] at hperm

theorem Invariant.sound_finishing (hs : Invariant s) (hn : s.calls n = .collecting c) (nowMs k : Nat) :
    (perform (finishing assess s.store c nowMs) k s.store).Sound := by
  by_cases hk : k < 2
  · rw [perform_finishing_of_lt assess hk]
    exact hs.leaves.sound
  · obtain ⟨j, rfl⟩ := Nat.exists_eq_add_of_le' (Nat.le_of_not_lt hk)
    rw [perform_finishing]
    exact (hs.sound_evaluated assess hn nowMs).enqueueEvaluatedRun _ j

theorem about_finishing (s : Store) (c : Call) (nowMs k : Nat) :
    About c.payload.runId s (perform (finishing assess s c nowMs) k s) := by
  by_cases hk : k < 2
  · rw [perform_finishing_of_lt assess hk]
    exact .refl _ _
  · obtain ⟨j, rfl⟩ := Nat.exists_eq_add_of_le' (Nat.le_of_not_lt hk)
    rw [perform_finishing]
    have hsaved : About c.payload.runId s (evaluated assess s c nowMs) := about_update fun _ => rfl
    exact hsaved.trans (about_enqueueEvaluatedRun j)

/-- A run that is finished without an exception is enqueued. -/
theorem Invariant.enqueued (hs : Invariant s) (hn : s.calls n = .collecting c) (nowMs : Nat) :
    ∀ r ∈ (performUpTo (finishing assess s.store c nowMs) none s.store).rows,
      r.runId = c.payload.runId → r.status ≠ .evaluated := by
  obtain ⟨row, hrow⟩ := hs.live n c hn
  have hsound := hs.sound_evaluated assess hn nowMs
  -- the row that the transaction leaves
  obtain ⟨r', hr', hid', hstatus'⟩ : ∃ r' ∈ (evaluated assess s.store c nowMs).rows,
      r'.runId = c.payload.runId ∧ r'.status = .evaluated :=
    ⟨_, mem_update.mpr ⟨row, hrow.mem, rfl⟩, by simp [hrow.runId], by simp [hrow.runId]⟩
  have hops : enqueueEvaluatedRun (evaluated assess s.store c nowMs) c.payload.runId = r'.enqueueing := by
    rw [enqueueEvaluatedRun, ← hid', hsound.get_of_mem hr']
    simp [hstatus']
  have hlength : (finishing assess s.store c nowMs).length = (r'.uploads.length + 2) + 2 := by
    have hlength' : (finishing assess s.store c nowMs).length =
        (enqueueEvaluatedRun (evaluated assess s.store c nowMs) c.payload.runId).length + 3 := by
      simp [finishing, evaluated]
    rw [hlength', hops]
    simp [enqueueing]
  intro r hr hid
  simp only [performUpTo, Option.getD_none, hlength, perform_finishing, hops] at hr
  obtain ⟨-, hcut⟩ | henqueued := mem_enqueueing hr
  · rcases hcut (hid.trans hid'.symm) with hle | hne
    · omega
    · exact hne
  · simp [henqueued]

/-- The exception comes before the first event is enqueued, or there is none. -/
def BeforeEnqueue (k : Option Nat) (marks : Marks) : Prop :=
  ∀ j ∈ k, j < 2 ∨ (j = 2 ∧ marks ≠ .never)

theorem Invariant.finish (hs : Invariant s) (hn : s.calls n = .collecting c) (nowMs : Nat)
    {k : Option Nat} (message : Str) {marks : Marks} (hk : BeforeEnqueue k marks) :
    Invariant (s.after n (finish assess s.store c nowMs k message marks)) := by
  cases k with
  | none =>
    exact hs.over hn (hs.sound_finishing assess hn nowMs _) (about_finishing assess s.store c nowMs _)
      (hs.enqueued assess hn nowMs)
  | some k =>
    have hsound := hs.sound_finishing assess hn nowMs k
    have habout := about_finishing assess s.store c nowMs k
    -- no event is enqueued by the first two operations
    have hsilent : ∀ e ∈ (perform (finishing assess s.store c nowMs) k s.store).outbox,
        e.runId ≠ c.payload.runId := by
      rcases hk k rfl with hlt | ⟨rfl, -⟩
      · rw [perform_finishing_of_lt assess hlt]
        exact hs.silent hn
      · rw [perform_finishing assess nowMs 0, perform_zero]
        exact hs.silent hn
    cases marks with
    | first => exact hs.failed hn hsound habout hsilent _
    | second _ => exact hs.failed hn hsound habout hsilent _
    | never =>
      refine hs.over hn hsound habout ?_
      rcases hk k rfl with hlt | ⟨-, hne⟩
      · -- the row is still that of a run that is being collected
        obtain ⟨r, hr⟩ := hs.live n c hn
        rw [show performUpTo _ (some k) s.store = s.store from perform_finishing_of_lt assess hlt]
        intro r' hr' hid
        rw [hs.leaves.sound.eq_of_runId hr' hr.mem (hid.trans hr.runId.symm), hr.status]
        simp
      · exact absurd rfl hne

theorem Invariant.turn (hs : Invariant s) (hn : s.calls n = .collecting c) (halive : s.alive)
    (nowMs : Nat) {k : Option Nat} (message : Str) {marks : Marks} (hk : BeforeEnqueue k marks) :
    Invariant (s.after n (turn assess s.store c nowMs k message marks)) := by
  unfold Asp.turn
  dsimp only
  split
  · split
    · exact hs.fail hn _ marks
    · exact hs.goOn hn rfl halive
  · exact hs.finish assess hn nowMs message hk

theorem Invariant.onReply (hs : Invariant s) (hn : s.calls n = .collecting c) (halive : s.alive)
    (reply : BatchReply) (nowMs : Nat) {k : Option Nat} (message : Str) {marks : Marks} (hk : BeforeEnqueue k marks) :
    Invariant (s.after n (onReply assess s.store c reply nowMs k message marks)) := by
  cases reply with
  | threw error => exact hs.fail hn _ marks
  | refused reason => exact hs.fail hn _ marks
  | collected answers collector contextError =>
    let c' : Call :=
      { c with
        batch := c.batch + 1, raw := collect c answers, collector := c.collector <|> collector
        contextError := c.contextError <|> contextError }
    have hnext : Invariant (s.after n ⟨s.store, .collecting c', none⟩) := hs.goOn hn rfl halive
    have hturn := hnext.turn assess (n := n) (c := c') (by simp [State.after]) halive nowMs message hk
    rwa [State.after_after] at hturn

theorem store_turn_never (s : Store) (c : Call) (nowMs : Nat) (k : Option Nat) (message : Str) :
    ∃ k', (turn assess s c nowMs k message .never).store = perform (finishing assess s c nowMs) k' s := by
  unfold turn
  dsimp only
  split
  · split <;> exact ⟨0, by simp [fail]⟩
  · refine ⟨k.getD (finishing assess s c nowMs).length, ?_⟩
    cases k <;> rfl

/-- A crash while a reply is worked on leaves some of the operations at the end of the run, or none. -/
theorem store_onReply_never (s : Store) (c : Call) (reply : BatchReply) (nowMs : Nat) (k : Option Nat)
    (message : Str) : ∃ c' k', c'.payload = c.payload ∧ (onReply assess s c reply nowMs k message .never).store =
        perform (finishing assess s c' nowMs) k' s := by
  cases reply with
  | threw error => exact ⟨c, 0, rfl, by simp [onReply, fail]⟩
  | refused reason => exact ⟨c, 0, rfl, by simp [onReply, fail]⟩
  | collected answers collector contextError =>
    let c' : Call :=
      { c with
        batch := c.batch + 1, raw := collect c answers, collector := c.collector <|> collector
        contextError := c.contextError <|> contextError }
    obtain ⟨k', hk'⟩ := store_turn_never assess s c' nowMs k message
    exact ⟨c', k', rfl, hk'⟩

/-- What a crash leaves of a call that is at an end. -/
theorem Invariant.leaves_finishing (hs : Invariant s) (hn : s.calls n = .collecting c)
    (halive : s.alive) {c' : Call} (hpayload : c'.payload = c.payload) (nowMs k : Nat) :
    Leaves s.ended (perform (finishing assess s.store c' nowMs) k s.store) := by
  have hnext : Invariant (s.after n ⟨s.store, .collecting c', none⟩) := hs.goOn hn hpayload halive
  have hn' : (s.after n ⟨s.store, .collecting c', none⟩).calls n = .collecting c' := by simp [State.after]
  obtain ⟨r, hr⟩ := hnext.live n c' hn'
  exact hs.leaves.of_about (hnext.sound_finishing assess hn' nowMs k)
    (about_finishing assess s.store c' nowMs k) (hr.runId ▸ hr.opened)

end Finishing

/-! ## The job -/

section Job

variable (assess : Assess) {s : State} {n : Nat}

/-- A run that the table does not have is put into it, and collected. -/
theorem Invariant.began (hs : Invariant s) {c : Call} (hn : s.calls n = .acked c.payload)
    (halive : s.alive) {store : Store}
    (hstart : s.store.start c.payload.runId c.startedAt c.payload.controlIds = some store) :
    Invariant (s.after n ⟨store, .collecting c, none⟩) := by
  have hsound := hs.leaves.sound.start hstart
  obtain ⟨hnone, rfl⟩ : s.store.get c.payload.runId = none ∧ store = { s.store with
      rows := s.store.rows ++
        [⟨c.payload.runId, .running, c.startedAt, none, [], none, [], c.payload.controlIds⟩] } := by
    unfold start at hstart
    split at hstart
    · cases hstart
    · rename_i hnone
      cases hstart
      exact ⟨by simpa using hnone, rfl⟩
  have hnew := get_eq_none hnone
  have hopen : c.payload.runId ∉ s.ended := by
    intro hended
    obtain ⟨r, hr, hid⟩ := hs.leaves.ended _ hended
    exact hnew r hr hid
  -- no other call collects for the run
  have hother : ∀ m d, s.calls m = .collecting d → d.payload.runId ≠ c.payload.runId := by
    intro m d hd heq
    obtain ⟨r, hr⟩ := hs.live m d hd
    exact hnew r hr.mem (hr.runId.trans heq)
  refine ⟨⟨hsound, fun r hr hstatus => ?_, fun id hid => ?_⟩, fun m d hd => ?_,
    fun m k d e hd he hid => ?_, fun m q hq => ?_, fun m d hd => ?_, fun hdead => ?_⟩
  · rcases mem_append.mp hr with hr | hr
    · exact hs.leaves.opened r hr hstatus
    · simp [mem_singleton.mp hr] at hstatus
  · obtain ⟨r, hr, hrid⟩ := hs.leaves.ended id hid
    exact ⟨r, mem_append_left _ hr, hrid⟩
  · obtain ⟨-, heq⟩ | ⟨-, hd⟩ := collecting_update hd
    · cases heq
      exact ⟨_, mem_append_right _ (mem_singleton.mpr rfl), rfl, rfl, rfl, hopen⟩
    · obtain ⟨r, hr⟩ := hs.live m d hd
      exact ⟨r, mem_append_left _ hr.mem, hr.runId, hr.status, hr.indicators, hr.opened⟩
  · obtain ⟨rfl, heq⟩ | ⟨-, hd⟩ := collecting_update hd
    · obtain ⟨rfl, -⟩ | ⟨-, he⟩ := collecting_update he
      · rfl
      · cases heq
        exact absurd hid.symm (hother k e he)
    · obtain ⟨-, heq⟩ | ⟨-, he⟩ := collecting_update he
      · cases heq
        exact absurd hid (hother m d hd)
      · exact hs.single m k d e hd he hid
  · exact (acked_update hq).elim nofun (hs.acked m q)
  · obtain ⟨-, heq⟩ | ⟨-, hd⟩ := collecting_update hd
    · cases heq
      exact hs.acked n _ hn
    · exact hs.collecting m d hd
  · exact absurd (halive.symm.trans hdead) (by simp)

theorem Invariant.onBegin (hs : Invariant s) {p : AspAssessPayload} (hn : s.calls n = .acked p)
    (halive : s.alive) (startedAt nowMs : Nat) (inserted : Bool) (marks : Marks) :
    Invariant (s.after n (onBegin assess s.store p startedAt nowMs inserted marks)) := by
  unfold Asp.onBegin
  split
  · rename_i store hstart
    split
    · let c : Call := ⟨p, startedAt, 0, fun _ => none, none, none⟩
      have hbegan : Invariant (s.after n ⟨store, .collecting c, none⟩) := hs.began hn halive hstart
      have hbefore : BeforeEnqueue none marks := by simp [BeforeEnqueue]
      have hturn := hbegan.turn assess (n := n) (c := c) (by simp [State.after]) halive nowMs [] hbefore
      rwa [State.after_after] at hturn
    · exact hs.idle (by simp) (by simp)
  · exact hs.idle (by simp) (by simp)

theorem Invariant.leaves_onBegin (hs : Invariant s) {p : AspAssessPayload} (hn : s.calls n = .acked p)
    (halive : s.alive) (startedAt nowMs : Nat) (inserted : Bool) :
    Leaves s.ended (Asp.onBegin assess s.store p startedAt nowMs inserted .never).store := by
  unfold Asp.onBegin
  split
  · rename_i store hstart
    split
    · let c : Call := ⟨p, startedAt, 0, fun _ => none, none, none⟩
      have hbegan : Invariant (s.after n ⟨store, .collecting c, none⟩) := hs.began hn halive hstart
      obtain ⟨k', hk'⟩ := store_turn_never assess store c nowMs none []
      rw [hk']
      exact hbegan.leaves_finishing assess (n := n) (c := c) (by simp [State.after]) halive rfl nowMs k'
    · exact hs.leaves
  · exact hs.leaves

/-- A run that is known is enqueued again, if it was evaluated. Runs that are being collected stay. -/
theorem Invariant.replayed (hs : Invariant s) (runId : Str) (k : Nat) :
    Leaves s.ended (perform (enqueueEvaluatedRun s.store runId) k s.store) ∧ ∀ r ∈ s.store.rows, r.status = .running →
        r ∈ (perform (enqueueEvaluatedRun s.store runId) k s.store).rows := by
  have hsound := hs.leaves.sound.enqueueEvaluatedRun runId k
  unfold enqueueEvaluatedRun at hsound ⊢
  split
  · rename_i r hr
    have hmem := mem_of_find?_eq_some hr
    split
    · rename_i hstatus
      rw [hr] at hsound
      simp only [hstatus] at hsound
      have habout := about_enqueueing (s := s.store) r k
      refine ⟨⟨hsound, fun r' hr' hstatus' => ?_, fun id hid => ?_⟩, fun r' hr' hrunning => ?_⟩
      · obtain ⟨hmem', -⟩ | henqueued := mem_enqueueing hr'
        · exact hs.leaves.opened r' hmem' hstatus'
        · simp [henqueued] at hstatus'
      · obtain ⟨r', hr', rfl⟩ := hs.leaves.ended id hid
        by_cases heq : r'.runId = r.runId
        · exact heq ▸ habout.stays ⟨r, hmem, rfl⟩
        · exact ⟨r', (habout.others r' heq).mpr hr', rfl⟩
      · refine mem_enqueueing_of_ne hr' fun heq => ?_
        rw [← hs.leaves.sound.eq_of_runId hr' hmem heq, hrunning] at hstatus
        simp at hstatus
    · exact ⟨by simpa using hs.leaves, fun r hr _ => by simpa using hr⟩
  · exact ⟨by simpa using hs.leaves, fun r hr _ => by simpa using hr⟩

/-- A task that ends its job, and leaves the rows of the runs that are being collected. -/
theorem Invariant.stored (hs : Invariant s) {store : Store} (hleaves : Leaves s.ended store)
    (hlive : ∀ r ∈ s.store.rows, r.status = .running → r ∈ store.rows) :
    Invariant (s.after n ⟨store, .over, none⟩) := by
  have hidle : Invariant (s.after n ⟨s.store, .over, none⟩) := hs.idle (by simp) (by simp)
  refine ⟨hleaves, fun m d hd => ?_, hidle.single, hidle.acked, hidle.collecting, hidle.dead⟩
  obtain ⟨r, hr⟩ := hidle.live m d hd
  exact ⟨r, hlive r hr.mem hr.status, hr.runId, hr.status, hr.indicators, hr.opened⟩

theorem Invariant.onDeliver (hs : Invariant s) (p : AspAssessPayload) (agentUpdate : Bool) (k : Option Nat)
    (hp : s.store.get p.runId = none → Distinct p.controlIds) :
    Invariant (s.after n (onDeliver s.store p agentUpdate k)) := by
  unfold Asp.onDeliver
  split
  · obtain ⟨hleaves, hlive⟩ := hs.replayed p.runId
      (k.getD (enqueueEvaluatedRun s.store p.runId).length)
    exact hs.stored hleaves hlive
  · rename_i hnone
    split
    · exact hs.idle (by simp) (by simp)
    · refine hs.idle (by simp) fun q hq => ?_
      cases hq
      exact hp hnone

theorem Invariant.leaves_onDeliver (hs : Invariant s) (p : AspAssessPayload) (agentUpdate : Bool)
    (k : Option Nat) : Leaves s.ended (Asp.onDeliver s.store p agentUpdate k).store := by
  unfold Asp.onDeliver
  split
  · exact (hs.replayed p.runId _).1
  · split <;> exact hs.leaves

/-- What a crash leaves of the task that it comes in. -/
theorem Invariant.leaves_runTask (hs : Invariant s) (halive : s.alive) (t : Task) :
    Leaves s.ended (runTask assess s t.unmarked).store := by
  cases t with
  | deliver n p agentUpdate k =>
    simp only [runTask, Task.unmarked, Task.id]
    cases s.calls n with
    | absent => exact hs.leaves_onDeliver p agentUpdate k
    | _ => exact hs.leaves
  | begin n startedAt nowMs inserted marks =>
    simp only [runTask, Task.unmarked, Task.id]
    cases hn : s.calls n with
    | acked p => exact hs.leaves_onBegin assess hn halive startedAt nowMs inserted
    | _ => exact hs.leaves
  | reply n reply nowMs k message marks =>
    simp only [runTask, Task.unmarked, Task.id]
    cases hn : s.calls n with
    | collecting c =>
      obtain ⟨c', k', hpayload, hstore⟩ := store_onReply_never assess s.store c reply nowMs k message
      simp only [onTask, hstore]
      exact hs.leaves_finishing assess hn halive hpayload nowMs k'
    | _ => exact hs.leaves

end Job

/-! ## Restarts -/

section Restarts

variable {ended : List Str} {s : Store}

theorem Store.Sound.pending (hs : s.Sound) : Pending s s.pendingEnqueue where
  rows r hr := by
    simpa [pendingEnqueue] using hr
  ids := by
    have hperm := (perm_insertionSort (fun a b : LocalRun => a.startedAt ≤ b.startedAt)
      (s.rows.filter (·.status = .evaluated))).map runId
    exact hperm.nodup_iff.mpr ((filter_sublist.map runId).nodup hs.ids)

theorem Store.mem_pendingEnqueue {r : LocalRun} (hr : r ∈ s.rows) (hstatus : r.status = .evaluated) :
    r ∈ s.pendingEnqueue := by
  simp [pendingEnqueue, hr, hstatus]

/-- Every pending run is enqueued as it is read from the table. -/
theorem Store.Sound.recovery (hs : s.Sound) :
    Asp.recovery s = (fun s => s.abortRunning) :: s.abortRunning.pendingEnqueue.flatMap LocalRun.enqueueing := by
  refine congrArg (_ :: ·) (flatMap_congr fun r hr => ?_)
  obtain ⟨hmem, hstatus⟩ := hs.abortRunning.pending.rows r hr
  rw [Asp.enqueueEvaluatedRun, hs.abortRunning.get_of_mem hmem]
  simp [hstatus]

/-- The recovery neither adds nor removes a row. -/
theorem Store.Sound.runIds_recovery (hs : s.Sound) (k : Nat) :
    (Cuts.perform (Asp.recovery s) k s).rows.map LocalRun.runId = s.rows.map LocalRun.runId := by
  refine perform_induction
    (I := fun s' : Store => s'.rows.map runId = s.rows.map runId) ?_ k rfl
  intro op hop s' hs'
  have hkept : (op s').rows.map runId = s'.rows.map runId := by
    rw [hs.recovery] at hop
    simp only [mem_cons, mem_flatMap, LocalRun.enqueueing, mem_append, mem_map, not_mem_nil, or_false] at hop
    rcases hop with rfl | ⟨r, -, ⟨e, -, rfl⟩ | rfl⟩
    · simp only [Store.abortRunning, map_map]
      refine map_congr_left fun r _ => ?_
      simp only [comp]
      split <;> rfl
    · rfl
    · simp only [Store.markEnqueued, Store.update, map_map]
      refine map_congr_left fun r' _ => ?_
      simp only [comp]
      split
      · split <;> rfl
      · rfl
  exact hkept.trans hs'

/-- A boot keeps what is sound wherever its recovery stops. It leaves evaluated rows that it found, and
none when it is through. -/
theorem Store.Sound.boot (hs : s.Sound) (k : Nat) : (Cuts.perform (Asp.recovery s) k s).Sound ∧
      ∀ r ∈ (Cuts.perform (Asp.recovery s) k s).rows, r.status = .evaluated →
        r ∈ s.rows ∧ k < (Asp.recovery s).length := by
  rw [hs.recovery]
  cases k with
  | zero => exact ⟨by simpa using hs, fun r hr _ => ⟨by simpa using hr, by simp⟩⟩
  | succ k =>
    rw [Cuts.perform_cons_succ, length_cons]
    obtain ⟨hsound, hevaluated⟩ := hs.abortRunning.recovered hs.abortRunning.pending k
    refine ⟨hsound, fun r hr hstatus => ?_⟩
    obtain ⟨hmem, hdone⟩ := hevaluated r hr hstatus
    refine ⟨?_, ?_⟩
    · obtain ⟨r', hr', heq⟩ := mem_map.mp hmem
      split at heq
      · simp [← heq] at hstatus
      · exact heq ▸ hr'
    · by_contra hk
      exact hdone (by omega) (mem_map_of_mem (Store.mem_pendingEnqueue hmem hstatus))

theorem Leaves.boot (h : Leaves ended s) (k : Option Nat) :
    Leaves (if k = none then (performUpTo (Asp.recovery s) k s).rows.map LocalRun.runId ++ ended else ended)
      (performUpTo (recovery s) k s) := by
  have hids := h.sound.runIds_recovery (k.getD (recovery s).length)
  obtain ⟨hsound, hevaluated⟩ := h.sound.boot (k.getD (recovery s).length)
  have hended : ∀ id ∈ ended, ∃ r ∈ (performUpTo (recovery s) k s).rows, r.runId = id := by
    intro id hid
    obtain ⟨r, hr, rfl⟩ := h.ended id hid
    have hmem : r.runId ∈ (performUpTo (recovery s) k s).rows.map runId := hids ▸ mem_map_of_mem hr
    exact mem_map.mp hmem
  cases k with
  | none =>
    refine ⟨hsound, fun r hr hstatus => ?_, fun id hid => ?_⟩
    · exact absurd (hevaluated r hr hstatus).2 (by simp)
    · exact (mem_append.mp hid).elim mem_map.mp (hended id)
  | some k =>
    exact ⟨hsound, fun r hr hstatus => h.opened r (hevaluated r hr hstatus).1 hstatus, hended⟩

end Restarts

/-! ## Runs -/

section Runs

variable (assess : Assess)

/-- A payload that is assessed has control ids that the table tells apart, and no exception comes once an
event was enqueued. Crashes and restarts come at any time. -/
def Lands (s : State) : Event → Prop
  | .task (.deliver _ p _ _) => s.store.get p.runId = none → Distinct p.controlIds
  | .task (.reply _ _ _ k _ marks) => BeforeEnqueue k marks
  | _ => True

theorem Invariant.task {s : State} (hs : Invariant s) (halive : s.alive) {t : Task}
    (ht : Lands s (.task t)) : Invariant (s.after t.id (runTask assess s t)) := by
  have hstay : Invariant (s.after t.id ⟨s.store, s.calls t.id, none⟩) := by
    simpa [State.after] using hs
  cases t with
  | deliver n p agentUpdate k =>
    cases hn : s.calls n with
    | absent => simpa [runTask, Task.id, hn, onTask] using hs.onDeliver p agentUpdate k ht
    | _ => simpa [runTask, Task.id, hn, onTask] using hstay
  | begin n startedAt nowMs inserted marks =>
    cases hn : s.calls n with
    | acked p =>
      simpa [runTask, Task.id, hn, onTask] using
        hs.onBegin assess hn halive startedAt nowMs inserted marks
    | _ => simpa [runTask, Task.id, hn, onTask] using hstay
  | reply n reply nowMs k message marks =>
    cases hn : s.calls n with
    | collecting c =>
      simpa [runTask, Task.id, hn, onTask] using hs.onReply assess hn halive reply nowMs message ht
    | _ => simpa [runTask, Task.id, hn, onTask] using hstay

theorem Phase.gone_ne_collecting (p : Phase) (c : Call) : p.gone ≠ .collecting c := by
  cases p <;> simp [Phase.gone]

theorem Phase.gone_ne_acked (p : Phase) (q : AspAssessPayload) : p.gone ≠ .acked q := by
  cases p <;> simp [Phase.gone]

theorem Invariant.crashed {s : State} {store : Store} (h : Leaves s.ended store) :
    Invariant (crashed s store) where
  leaves := h
  live n c hn := absurd hn ((s.calls n).gone_ne_collecting c)
  single n _ c _ hn := absurd hn ((s.calls n).gone_ne_collecting c)
  acked n p hn := absurd hn ((s.calls n).gone_ne_acked p)
  collecting n c hn := absurd hn ((s.calls n).gone_ne_collecting c)
  dead _ n c := (s.calls n).gone_ne_collecting c

theorem invariant_step (s : State) (e : Event) (hs : Invariant s) (he : Lands s e) : Invariant (step assess s e) := by
  unfold step
  split
  · exact hs.task assess ‹_› he
  · exact .crashed hs.leaves
  · exact .crashed (hs.leaves_runTask assess ‹_› _)
  · rename_i k hdead
    exact ⟨hs.leaves.boot k, fun n c hn => absurd hn (hs.dead hdead n c),
      fun n _ c _ hn => absurd hn (hs.dead hdead n c), hs.acked,
      fun n c hn => absurd hn (hs.dead hdead n c), nofun⟩
  · exact hs

theorem invariant_init : Invariant (machine assess).init :=
  ⟨⟨⟨by simp [machine], by simp [machine], by simp [machine]⟩, by simp [machine], by simp [machine]⟩,
    by simp [machine], by simp [machine], by simp [machine], by simp [machine], by simp [machine]⟩

/-- In a run whose steps all land, what is enqueued of an assessment is whole. -/
theorem always_wholeOrNothing {tr : List Event} (h : (machine assess).Guarded Lands tr) :
    (machine assess).Always WholeOrNothing tr :=
  (h.always (invariant_init assess) (invariant_step assess)).mono fun _ => .of_invariant

end Runs

/-! ## Sample runs -/

def passing : Assess := fun _ _ _ _ _ => ⟨.pass, some 0, .null, none⟩

def onePayload : AspAssessPayload where
  runId := text "5d0f6c2e-3b1a-4e7d-9c58-0a1b2c3d4e5f"
  budgetMs := 900000
  evidenceLimit := 200
  indicators := [⟨text "AD-001", text "high", false, false, .null⟩]
  some_indicator := by simp
  not_too_many := by simp

def answered : BatchReply := .collected (fun _ => some .null) none none

def assessing : List Event := [.task (.deliver 0 onePayload false none), .task (.begin 0 0 0 true .first)]

/-- The agent is killed between the only chunk and the last event of the run. -/
def interruptedRun : List Event :=
  assessing ++ [.crash (some (.reply 0 answered 0 (some 3) [] .first)), .boot none]

theorem always_wholeOrNothing_interruptedRun : (machine passing).Always WholeOrNothing interruptedRun := by
  refine always_wholeOrNothing passing (Machine.guarded_iff_guardedFrom.mpr ?_)
  refine ⟨fun _ => ⟨by decide, fun id hid => ?_⟩, trivial, trivial, trivial, trivial⟩
  rw [mem_singleton.mp hid]
  exact WellFormed.of_forall (forall_iff_forall_mem.mp (by decide))

/-- The last event is refused by the outbox, and the run is marked as failed. -/
def halfRun : List Event := assessing ++ [.task (.reply 0 answered 0 (some 3) (text "SQLITE_FULL") .first)]

theorem not_always_wholeOrNothing_halfRun : ¬ (machine passing).Always WholeOrNothing halfRun := by
  intro h
  have hbroken : ∃ r ∈ ((machine passing).run halfRun).store.rows, r.status = .failed ∧
      ∃ e ∈ ((machine passing).run halfRun).store.outbox, e.runId = r.runId := by
    decide
  obtain ⟨r, hr, hstatus, e, he, heq⟩ := hbroken
  exact h.last.clean r hr (.inl hstatus) e he heq

end Asp
