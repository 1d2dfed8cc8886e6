-- SUMMARY: When the audits of a file session that ended are complete, and what completed uploads got.
import Tracenium.Rcp.Audits

open Utf16 OrderedMap List

namespace Rcp

open TransferStatus

/-- The upload was finished with all that was sent for it, which is what it declared. -/
structure UploadState.Whole {platform : Platform} (upload : UploadState platform) (sent : Bytes) :
    Prop where
  digested : upload.hash.digested = true
  received : upload.received = sent.length
  declared : upload.size.isPositive = true → upload.size = .finite upload.received

namespace FileSession

variable {platform : Platform} (c : Endpoint platform) (s : FileSession platform)

/-- Each transfer that started has one audit after that with another status. -/
def Accounted : Prop :=
  ∀ before t audit after, s.audits = before ++ (t, audit) :: after → audit.status = .started →
    after.countP (fun r => r.1 = t ∧ r.2.status ≠ .started) = 1

/-- An upload that completed was sent what it declared, unless it declared nothing. -/
def WholeUploads : Prop :=
  ∀ r ∈ s.audits, r.2.direction = .upload → r.2.status = .completed → r.2.transferredBytes = (s.sent r.1).length ∧
      (r.2.sizeBytes.isPositive = true → r.2.sizeBytes = .finite r.2.transferredBytes)

structure Ended : Prop where
  isOver : s.closed = true ∨ s.disposed = true
  finishing : s.finishing.entries = []
  downloads : s.downloads.entries = []

/-! ## The bytes of uploads -/

structure Counted : Prop where
  unsent : ∀ t, s.states t = none → s.sent t = []
  counted : ∀ t upload, s.states t = some upload → upload.hash.digested = false →
    upload.failure = none → upload.cancelled = false → upload.received = (s.sent t).length
  finishing : ∀ t f, s.finishing.get t = some f → ∃ upload, s.states t = some upload ∧ upload.Whole (s.sent t)
  complete : ∀ r ∈ s.audits, r.2.direction = .upload → r.2.status = .completed →
    ∃ upload, s.states r.1 = some upload ∧ upload.Whole (s.sent r.1) ∧
      r.2.sizeBytes = upload.size ∧ r.2.transferredBytes = upload.received

section Counted

variable {c s}

theorem counted_opened : Counted (opened : FileSession platform) where
  unsent := fun _ _ => rfl
  counted := nofun
  finishing := nofun
  complete := nofun

theorem Counted.wholeUploads (hs : Counted s) : WholeUploads s := by
  intro r hr hdirection hstatus
  obtain ⟨upload, -, hwhole, hsize, hreceived⟩ := hs.complete r hr hdirection hstatus
  rw [hsize, hreceived]
  exact ⟨hwhole.received, hwhole.declared⟩

theorem Counted.audit (hs : Counted s) (t : Nat) (row : FileTransferAuditPayload)
    (hrow : row.direction = .upload → row.status = .completed →
      ∃ upload, s.states t = some upload ∧ upload.Whole (s.sent t) ∧
        row.sizeBytes = upload.size ∧ row.transferredBytes = upload.received) :
    Counted (s.sendFileTransferAudit t row) :=
  { hs with
    complete := by
      intro r hr
      rcases mem_append.mp hr with hr | hr
      · exact hs.complete r hr
      · obtain rfl := mem_singleton.mp hr
        exact hrow }

theorem Counted.auditDownload (hs : Counted s) (t : Nat) (row : FileTransferAuditPayload)
    (hrow : row.direction = .download) : Counted (s.sendFileTransferAudit t row) :=
  hs.audit t row fun h => by cases hrow.symm.trans h

theorem Counted.auditOther (hs : Counted s) (t : Nat) (row : FileTransferAuditPayload)
    (hrow : row.status ≠ .completed) : Counted (s.sendFileTransferAudit t row) :=
  hs.audit t row fun _ h => absurd h hrow

variable {upload : UploadState platform}

/-- The state of an upload and what was sent for it change. -/
theorem Counted.replace (hs : Counted s) {t : Nat}
    (hstate : s.states t = some upload) (upload' : UploadState platform) {sent : Nat → Bytes}
    (hsent : ∀ u, u ≠ t → sent u = s.sent u) (hkept : upload.hash.digested → upload'.hash.digested ∧
      upload'.received = upload.received ∧ upload'.size = upload.size ∧ sent t = s.sent t)
    (hcounted : upload'.hash.digested = false → upload'.failure = none →
      upload'.cancelled = false → upload'.received = (sent t).length) :
    Counted ({ s with sent := sent }.setState t upload') := by
  have hwhole : ∀ u other, s.states u = some other → other.Whole (s.sent u) →
      ∃ other', ({ s with sent := sent }.setState t upload').states u = some other' ∧
        other'.Whole (sent u) ∧ other.size = other'.size ∧ other.received = other'.received := by
    intro u other hother hwhole
    by_cases hut : u = t
    · subst hut
      cases hstate.symm.trans hother
      obtain ⟨hdigested, hreceived, hsize, hsame⟩ := hkept hwhole.digested
      refine ⟨upload', setState_self u upload', ⟨hdigested, ?_, ?_⟩, hsize.symm, hreceived.symm⟩
      · rw [hreceived, hsame]
        exact hwhole.received
      · rw [hreceived, hsize]
        exact hwhole.declared
    · refine ⟨other, (setState_of_ne upload' hut).trans hother, ?_, rfl, rfl⟩
      rw [hsent u hut]
      exact hwhole
  constructor
  · intro u hu
    have hut : u ≠ t := by
      rintro rfl
      cases (setState_self u upload').symm.trans hu
    exact (hsent u hut).trans (hs.unsent u ((setState_of_ne upload' hut).symm.trans hu))
  · intro u other hother hlive hfailure hcancelled
    rcases of_setState hother with ⟨rfl, rfl⟩ | ⟨hut, hother⟩
    · exact hcounted hlive hfailure hcancelled
    · show other.received = (sent u).length
      rw [hsent u hut]
      exact hs.counted u other hother hlive hfailure hcancelled
  · intro u f hf
    obtain ⟨other, hother, hall⟩ := hs.finishing u f hf
    obtain ⟨other', hother', hall', -⟩ := hwhole u other hother hall
    exact ⟨other', hother', hall'⟩
  · intro r hr hdirection hstatus
    obtain ⟨other, hother, hall, hsize, hreceived⟩ := hs.complete r hr hdirection hstatus
    obtain ⟨other', hother', hall', hsize', hreceived'⟩ := hwhole r.1 other hother hall
    exact ⟨other', hother', hall', hsize.trans hsize', hreceived.trans hreceived'⟩

theorem Counted.update (hs : Counted s) {t : Nat} (hstate : s.states t = some upload) (upload' : UploadState platform)
    (hkept : upload.hash.digested → upload'.hash.digested ∧
      upload'.received = upload.received ∧ upload'.size = upload.size)
    (hcounted : upload'.hash.digested = false → upload'.failure = none →
      upload'.cancelled = false → upload'.received = (s.sent t).length) : Counted (s.setState t upload') := by
  apply hs.replace hstate upload' (fun _ _ => rfl) _ hcounted
  intro hdigested
  obtain ⟨hdone, hreceived, hsize⟩ := hkept hdigested
  exact ⟨hdone, hreceived, hsize, rfl⟩

/-! ## Downloads -/

theorem Counted.handleDownload (hs : Counted s) (id path : Str) (now : Now platform) :
    Counted (handleDownload c s id path now) := by
  unfold FileSession.handleDownload
  split
  · apply Counted.auditDownload
    · exact { hs with }
    · rfl
  · exact { hs with }

theorem Counted.statDone (hs : Counted s) (t : Nat) (result : Except Reason Nat) : Counted (statDone s t result) := by
  unfold FileSession.statDone
  split
  · rename_i d hd
    split
    · have h := (show Counted { s with downloads := s.downloads.delete t } from { hs with })
      exact { h.auditDownload t (downloadAudit d .failed _) rfl with }
    · apply Counted.auditDownload
      · exact { hs with }
      · rfl
    · exact hs
  · exact hs

theorem Counted.finishDownload (hs : Counted s) (t : Nat) (d : Download platform)
    (outcome : Except Reason Bool) : Counted (finishDownload s t d outcome) := by
  unfold FileSession.finishDownload
  split
  · apply Counted.auditDownload
    · exact { hs with }
    · rfl
  · apply Counted.auditDownload
    · exact { hs with }
    · rfl

theorem Counted.openDone (hs : Counted s) (t : Nat) (error : Option Reason) : Counted (openDone s t error) := by
  unfold FileSession.openDone
  split
  · split
    · exact hs.finishDownload _ _ _
    · exact { hs with }
    · exact hs
  · exact hs

theorem Counted.readDone (hs : Counted s) (t : Nat) (result : Except Reason Bytes) :
    Counted (readDone s t result) := by
  unfold FileSession.readDone
  split
  · split
    · exact { hs with }
    · exact { hs with }
    · exact { hs with }
    · exact hs
  · exact hs

theorem Counted.closeDone (hs : Counted s) (t : Nat) (error : Option Reason) : Counted (closeDone s t error) := by
  unfold FileSession.closeDone
  split
  · split
    · exact hs.finishDownload _ _ _
    · exact hs.finishDownload _ _ _
    · exact hs
  · exact hs

/-! ## Uploads -/

theorem Counted.startUpload (hs : Counted s) (hb : Books s) (upload : UploadState platform)
    (hreceived : upload.received = 0) : Counted (s.setState s.next upload) := by
  have hnone := hb.no_state
  have hne : ∀ {u : Nat} {other : UploadState platform}, s.states u = some other → u ≠ s.next :=
    fun hother => Nat.ne_of_lt (hb.fresh _ _ hother)
  constructor
  · intro u hu
    apply hs.unsent u
    by_cases hut : u = s.next
    · exact hut ▸ hnone
    · exact (setState_of_ne upload hut).symm.trans hu
  · intro u other hother hlive hfailure hcancelled
    rcases of_setState hother with ⟨rfl, rfl⟩ | ⟨-, hother⟩
    · show other.received = (s.sent s.next).length
      rw [hs.unsent _ hnone]
      exact hreceived
    · exact hs.counted u other hother hlive hfailure hcancelled
  · intro u f hf
    obtain ⟨other, hother, hwhole⟩ := hs.finishing u f hf
    exact ⟨other, (setState_of_ne upload (hne hother)).trans hother, hwhole⟩
  · intro r hr hdirection hstatus
    obtain ⟨other, hother, hwhole⟩ := hs.complete r hr hdirection hstatus
    exact ⟨other, (setState_of_ne upload (hne hother)).trans hother, hwhole⟩

theorem Counted.handleUploadStart (hs : Counted s) (hb : Books s) (id path : Str) (size : Size)
    (now : Now platform) : Counted (handleUploadStart c s id path size now) := by
  unfold FileSession.handleUploadStart
  dsimp only
  split
  · apply Counted.auditOther
    · exact { hs with }
    · exact noConfusion
  · split
    · apply Counted.auditOther
      · exact { hs with }
      · exact noConfusion
    · rename_i resolved _
      split
      · exact { hs with }
      · rename_i fd _ _
        have h := hs.startUpload hb ⟨resolved, id, fd, size, 0, false, none, ⟨[], false⟩⟩ rfl
        exact { h.auditOther s.next (uploadAudit id ⟨resolved, id, fd, size, 0, false, none, ⟨[], false⟩⟩
          .started []) noConfusion with }

theorem Counted.discard (hs : Counted s) (id : Str) (t : Nat) (upload : UploadState platform)
    (status : TransferStatus) (errorMessage : Str) (hstatus : status ≠ .completed) :
    Counted (discard c s id t upload status errorMessage) := by
  apply Counted.auditOther
  · exact { hs with }
  · exact hstatus

/-- What arrives for an upload is counted until it is finished. -/
theorem observe_registered {id : Str} {t : Nat} (hreg : s.registered id = some (t, upload)) (data : Bytes) :
    ∃ sent, observe s id data = { s with sent := sent } ∧ (∀ u, u ≠ t → sent u = s.sent u) ∧
      sent t = if upload.hash.digested then s.sent t else s.sent t ++ data := by
  unfold observe
  rw [hreg]
  dsimp only
  split
  · exact ⟨s.sent, rfl, fun _ _ => rfl, rfl⟩
  · exact ⟨_, rfl, fun u hu => if_neg hu, if_pos rfl⟩

theorem Counted.handleChunk (hs : Counted s) (id : Str) (data : Bytes) (now : Now platform) :
    Counted (handleChunk c (observe s id data) id data now) := by
  cases hreg : s.registered id with
  | none =>
    have hnone : observe s id data = s := by
      unfold observe
      rw [hreg]
    rw [hnone]
    unfold FileSession.handleChunk
    rw [hreg]
    exact hs
  | some entry =>
    obtain ⟨t, upload⟩ := entry
    obtain ⟨-, hstate⟩ := registered_eq_some.mp hreg
    obtain ⟨sent, heq, hsent, hself⟩ := observe_registered hreg data
    have hreplace : ∀ upload' : UploadState platform, (upload.hash.digested →
        upload'.hash.digested ∧ upload'.received = upload.received ∧ upload'.size = upload.size) →
        (upload'.hash.digested = false → upload'.failure = none → upload'.cancelled = false →
          upload'.received = (sent t).length) →
        Counted ({ s with sent := sent }.setState t upload') := by
      intro upload' hkept hcounted
      refine hs.replace hstate upload' hsent (fun hdigested => ?_) hcounted
      obtain ⟨hdone, hreceived, hsize⟩ := hkept hdigested
      exact ⟨hdone, hreceived, hsize, hself.trans (if_pos hdigested)⟩
    have hreg' : FileSession.registered { s with sent := sent } id = some (t, upload) := hreg
    rw [heq]
    unfold FileSession.handleChunk
    rw [hreg']
    dsimp only
    split
    · rename_i hcancelled
      have h := hreplace upload (fun hdigested => ⟨hdigested, rfl, rfl⟩)
        fun _ _ hnot => by cases hcancelled.symm.trans hnot
      rw [setState_eq_self] at h
      · exact h
      · exact hstate
    · split
      · have h := hreplace { upload with cancelled := true } (fun hdigested => ⟨hdigested, rfl, rfl⟩)
          fun _ _ hnot => by cases hnot
        have hdiscarded := Counted.discard (c := c) (s := { s with
            disk := s.disk.closeSync upload.fd
            sent := sent }.setState t { upload with cancelled := true })
          { h with } id t { upload with cancelled := true } .failed
          (text "exceeded the upload size limit mid-transfer") noConfusion
        exact { hdiscarded with }
      · rename_i hcancelled _
        split
        · rename_i e _
          exact hreplace { upload with failure := some e } (fun hdigested => ⟨hdigested, rfl, rfl⟩)
            fun _ hnot => by cases hnot
        · split
          · have h := hreplace { upload with failure := some digestCalled }
              (fun hdigested => ⟨hdigested, rfl, rfl⟩) fun _ hnot => by cases hnot
            exact { h with }
          · rename_i hlive
            have h := hreplace
              { upload with
                hash := ⟨upload.hash.data ++ data, false⟩
                received := upload.received + data.length }
              (fun hdigested => absurd hdigested hlive)
              (by
                intro _ hfailure hnot
                rw [hself, if_neg hlive, length_append,
                  hs.counted t upload hstate (Bool.eq_false_iff.mpr hlive) hfailure hnot])
            exact { h with }

/-- An upload that has no failure at its end has all it declared. -/
theorem of_failureAtEnd (h : failureAtEnd c upload = none) (hcancelled : upload.cancelled = false) :
    upload.failure = none ∧ (upload.size.isPositive → upload.size = .finite upload.received) := by
  unfold failureAtEnd at h
  split at h
  · cases h
  · rename_i hcomplete
    refine ⟨h, fun hpositive => ?_⟩
    by_contra hne
    apply hcomplete
    rw [hcancelled, h, hpositive, decide_eq_true hne]
    rfl

theorem Counted.handleUploadDone (hs : Counted s) (id : Str) (now : Now platform) :
    Counted (handleUploadDone c s id now) := by
  unfold FileSession.handleUploadDone
  cases hreg : s.registered id with
  | none => exact hs
  | some entry =>
    obtain ⟨t, upload⟩ := entry
    obtain ⟨-, hstate⟩ := registered_eq_some.mp hreg
    dsimp only
    split
    · exact { hs with }
    · rename_i hlive
      have h := hs.update hstate
        { upload with
          hash := ⟨upload.hash.data, true⟩
          failure := failureAtEnd c upload }
        (fun hdigested => absurd hdigested hlive) fun hnot => by cases hnot
      split
      · exact { Counted.discard (c := c) { h with } id t _ _ _ noConfusion with }
      · rename_i hnone
        split
        · exact { Counted.discard (c := c) { h with } id t _ _ _ noConfusion with }
        · rename_i hcancelled
          split
          · exact { Counted.discard (c := c) { h with } id t _ _ _ noConfusion with }
          · have hnot := Bool.eq_false_iff.mpr hcancelled
            obtain ⟨hfailure, hdeclared⟩ := of_failureAtEnd hnone hnot
            have hreceived := hs.counted t upload hstate (Bool.eq_false_iff.mpr hlive) hfailure hnot
            refine { h with finishing := fun u f hf => ?_ }
            by_cases hut : u = t
            · subst hut
              exact ⟨_, setState_self u _, rfl, hreceived, hdeclared⟩
            · exact h.finishing u f ((get_set_of_ne hut).symm.trans hf)

theorem Counted.deleteFinishing (hs : Counted s) (t : Nat) : Counted { s with finishing := s.finishing.delete t } :=
  { hs with
    finishing := by
      intro u f hf
      rw [get_eq_some_iff, mem_delete] at hf
      exact hs.finishing u f (get_eq_some_iff.mpr hf.1) }

theorem Counted.setFinishing (hs : Counted s) {t : Nat} {f : Finishing platform}
    (hf : s.finishing.get t = some f) (f' : Finishing platform) :
    Counted { s with finishing := s.finishing.set t f' } :=
  { hs with
    finishing := by
      intro u g hg
      by_cases hut : u = t
      · subst hut
        exact hs.finishing u f hf
      · exact hs.finishing u g ((get_set_of_ne hut).symm.trans hg) }

theorem Counted.finalizeFailed (hs : Counted s) (t : Nat) (f : Finishing platform) (e : Reason) :
    Counted (finalizeFailed c s t f e) := by
  unfold FileSession.finalizeFailed
  split
  · exact { Counted.discard (c := c) (hs.deleteFinishing t) f.transferId t _ .failed
      e.text noConfusion with }
  · exact hs

theorem Counted.mkdirDone (hs : Counted s) (t : Nat) (error : Option Reason) : Counted (mkdirDone c s t error) := by
  unfold FileSession.mkdirDone
  split
  · rename_i f hf
    split
    · exact hs.finalizeFailed t f _
    · exact hs.setFinishing hf _
    · exact hs
  · exact hs

theorem Counted.renameRun (hs : Counted s) (t : Nat) (error : Option Reason) : Counted (renameRun c s t error) := by
  unfold FileSession.renameRun
  split
  · rename_i f hf
    split
    · exact hs.setFinishing hf _
    · split
      · exact hs.setFinishing hf _
      · exact { hs.setFinishing hf _ with }
    · exact hs
  · exact hs

theorem Counted.renameDone (hs : Counted s) (t : Nat) : Counted (renameDone c s t) := by
  unfold FileSession.renameDone
  split
  · rename_i f hf
    split
    · exact hs.finalizeFailed t f _
    · split
      · rename_i upload hstate
        obtain ⟨other, hother, hwhole⟩ := hs.finishing t f hf
        cases hstate.symm.trans hother
        apply Counted.audit
        · exact { hs.deleteFinishing t with }
        · exact fun _ _ => ⟨upload, hstate, hwhole, rfl, rfl⟩
      · exact hs
    · exact hs
  · exact hs

theorem Counted.handleCancel (hs : Counted s) (id : Str) : Counted (handleCancel s id) := by
  unfold FileSession.handleCancel
  dsimp only
  split
  · rename_i t upload hreg
    obtain ⟨-, hstate⟩ := registered_eq_some.mp hreg
    have h := hs.update hstate { upload with cancelled := true }
      (fun hdigested => ⟨hdigested, rfl, rfl⟩) fun _ _ hnot => by cases hnot
    exact { h with }
  · exact { hs with }

theorem Counted.handleMessage (hs : Counted s) (hb : Books s) (m : Message) (now : Now platform) :
    Counted (handleMessage c s m now) := by
  unfold FileSession.handleMessage
  split
  · exact { hs with }
  · cases m with
    | download id path => exact hs.handleDownload id path now
    | upload id path size => exact hs.handleUploadStart hb id path size now
    | chunk id data => exact hs.handleChunk id data now
    | uploadDone id => exact hs.handleUploadDone id now
    | cancel id => exact hs.handleCancel id

theorem Counted.step (hs : Counted s) (hb : Books s) (e : Event platform) : Counted (step c s e) := by
  unfold FileSession.step
  cases e with
  | message m now =>
    dsimp only
    split
    · exact hs
    · exact hs.handleMessage hb m now
  | statDone t result => exact hs.statDone t result
  | openDone t error => exact hs.openDone t error
  | readDone t result => exact hs.readDone t result
  | closeDone t error => exact hs.closeDone t error
  | mkdirDone t error => exact hs.mkdirDone t error
  | renameRun t error => exact hs.renameRun t error
  | renameDone t => exact hs.renameDone t
  | othersOpen => exact { hs with }
  | othersClose fd =>
    dsimp only
    split
    · exact { hs with }
    · exact hs
  | closed => exact { hs with }
  | dispose =>
    dsimp only
    unfold FileSession.dispose
    split
    · exact hs
    · exact { hs with }

end Counted

/-! ## Sessions that ended -/

section Ended

variable {c s}

theorem books_run (c : Endpoint platform) (tr : List (Event platform)) : Books ((machine c).run tr) :=
  Machine.invariant (M := machine c) books_opened
    (fun _ e hs => (Moves.step (c := c) hs e).books) tr

/-- Completed uploads are whole in every run. -/
theorem wholeUploads_run (c : Endpoint platform) (tr : List (Event platform)) :
    WholeUploads ((machine c).run tr) := by
  have hboth : Books ((machine c).run tr) ∧ Counted ((machine c).run tr) :=
    Machine.invariant (M := machine c) (I := fun s => Books s ∧ Counted s)
      ⟨books_opened, counted_opened⟩
      (fun s e hs => ⟨(Moves.step hs.1 e).books, hs.2.step hs.1 e⟩) tr
  exact hboth.2.wholeUploads

/-- Nothing is outstanding when the session ended. -/
theorem Ended.not_outstanding (h : Ended s) (hs : Books s) (t : Nat) : ¬ (ledger s).outstanding t := by
  rintro (⟨id, upload, hid, -⟩ | hfinishing | ⟨d, hd, -⟩)
  · cases (hs.ended h.isOver id).symm.trans hid
  · obtain ⟨f, hf⟩ := Option.isSome_iff_exists.mp hfinishing
    have hmem := get_eq_some_iff.mp hf
    rw [h.finishing] at hmem
    cases hmem
  · have hmem := get_eq_some_iff.mp hd
    rw [h.downloads] at hmem
    cases hmem

theorem accounted_iff_balanced : Accounted s ↔ Ledger.Balanced (ledger s) := by
  have hcount : ∀ (rows : List (Nat × FileTransferAuditPayload)) (t : Nat), Ledger.closings (rows.map entryOf) t =
        rows.countP (fun r => r.1 = t ∧ r.2.status ≠ .started) := by
    intro rows t
    unfold Ledger.closings count
    rw [countP_map]
    refine countP_congr fun r _ => ?_
    unfold entryOf
    by_cases hstarted : r.2.status = .started
    · simp
    · simp
  constructor
  · intro h before t after hlog
    obtain ⟨rows, rest, haudits, -, hrest⟩ := map_eq_append_iff.mp hlog
    obtain ⟨r, later, rfl, hr, rfl⟩ := map_eq_cons_iff.mp hrest
    obtain ⟨rfl, hopens⟩ := Prod.mk.inj hr
    have hstarted : r.2.status = .started := by
      by_contra hne
      rw [if_neg hne] at hopens
      cases hopens
    exact (hcount later r.1).trans (h rows r.1 r.2 later haudits hstarted)
  · intro h before t audit after haudits hstarted
    rw [← hcount]
    apply h (before.map entryOf) t
    show s.audits.map entryOf = _
    rw [haudits, map_append, map_cons]
    unfold entryOf
    rw [if_pos hstarted]

end Ended

/-- Of a session that ended, every transfer that started has one audit after that, and every upload
that completed has what it declared, if and only if no step took the entry of an upload that was not
finished. -/
theorem audited_iff_accountsFor (c : Endpoint platform) {tr : List (Event platform)}
    (h : Ended ((machine c).run tr)) : (Accounted ((machine c).run tr) ∧ WholeUploads ((machine c).run tr)) ↔
      (machine c).Guarded (AccountsFor c) tr := by
  rw [and_iff_left (wholeUploads_run c tr), accounted_iff_balanced]
  apply Ledger.balanced_iff_guarded (M := machine c) (I := Books) ledger
  · rfl
  · rintro t (⟨_, _, hid, -⟩ | hfinishing | ⟨_, hd, -⟩)
    · cases hid
    · cases hfinishing
    · cases hd
  · exact books_opened
  · exact fun s e hs => (Moves.step hs e).books
  · exact fun s e hs => (Moves.step hs e).sound
  · exact fun s e hs hslip => (Moves.step hs e).slips (Bool.eq_false_iff.mpr hslip)
  · exact h.not_outstanding (books_run c tr)

/-! ## Two ends of a session -/

/-- An upload that is finished before the session ends. -/
theorem audited_settled : Ended ((machine sampleEndpoint).run (putUpload (text "a") [1] ++ finalize 0 ++ [.closed])) ∧
    Accounted ((machine sampleEndpoint).run (putUpload (text "a") [1] ++ finalize 0 ++ [.closed])) := by
  have hended : Ended ((machine sampleEndpoint).run
      (putUpload (text "a") [1] ++ finalize 0 ++ [.closed])) :=
    ⟨.inl (by decide +kernel), isEmpty_iff.mp (by decide +kernel), isEmpty_iff.mp (by decide +kernel)⟩
  refine ⟨hended, ((audited_iff_accountsFor sampleEndpoint hended).mpr ?_).1⟩
  refine Machine.guarded_iff_guardedFrom.mpr ?_
  refine ⟨?_, ?_, ?_, ?_, ?_, ?_, ?_, trivial⟩ <;> decide +kernel

def closedUpload : List (Event .linux) :=
  [message (.upload (text "a") (text "/tmp/a") (.finite 1)), message (.chunk (text "a") [1]), .closed]

/-- The upload started, and no other audit follows. -/
theorem not_accounted_closedUpload : Ended ((machine sampleEndpoint).run closedUpload) ∧
    ¬ Accounted ((machine sampleEndpoint).run closedUpload) := by
  refine ⟨⟨.inl (by decide +kernel), isEmpty_iff.mp (by decide +kernel),
    isEmpty_iff.mp (by decide +kernel)⟩, fun haccounted => ?_⟩
  have honly : (((machine sampleEndpoint).run closedUpload).audits.map
      fun r => decide (r.2.status = .started)) = [true] := by decide +kernel
  obtain ⟨r, hr, hstarted⟩ := map_eq_singleton_iff.mp honly
  have hone := haccounted [] r.1 r.2 [] hr (of_decide_eq_true hstarted)
  cases hone

end FileSession

end Rcp
