-- SUMMARY: What a download sends: the chunks of a file, which of them is marked as the last, and when the receiver learns the end.
import Tracenium.Lib.Base64
import Tracenium.Rcp.Audits

/-! `done` goes with a chunk, so that a file without bytes has none. -/

open Utf16 List OrderedMap Nat Bool

namespace Rcp

open FileSession Machine Base64

namespace FileSession

def CHUNK_SIZE : Nat := 32 * 1024

section Spec

variable {platform : Platform} (c : Endpoint platform) (content : Bytes) (size t : Nat)

structure WireChunk where
  seq : Nat
  data : Str
  done : Bool

def wireChunk : Reply → Option WireChunk
  | .chunk _ seq data done => some ⟨seq, encode data, done⟩
  | _ => none

def concerns : Event platform → Bool
  | .statDone u _ | .openDone u _ | .readDone u _ | .closeDone u _ => u = t
  | _ => false

/-- The session, next to the chunks that one download sends. -/
def watch : Machine (FileSession platform × List WireChunk) (Event platform) where
  init := (opened, [])
  step s e := (step c s.1 e,
    if concerns t e then s.2 ++ ((step c s.1 e).replies.drop s.1.replies.length).filterMap wireChunk else s.2)

def chunksOf (tr : List (Event platform)) : List WireChunk := ((watch c t).run tr).2

/-- A read gives some of the bytes that are left, and none only where none are. -/
def ReadsOn (pos : Nat) (result : Except Reason Bytes) : Prop :=
  ∃ n ≤ CHUNK_SIZE, result = .ok ((content.drop pos).take n) ∧ (pos < content.length → 0 < n)

/-- While the download goes on, what it waits for is answered from a file that stays as it is, and nobody cancels it
or ends the session. -/
def FromFile (s : FileSession platform) : Event platform → Prop
  | .statDone u result => u = t → ∀ d, s.downloads.get t = some d → d.stage = .stat → result = .ok size
  | .openDone u error => u = t → ∀ d, s.downloads.get t = some d → d.stage = .opening → error = none
  | .readDone u result =>
    u = t → ∀ d, s.downloads.get t = some d → d.stage = .reading → ReadsOn content d.transferred result
  | .closeDone u error => u = t → ∀ d, s.downloads.get t = some d → ∀ outcome, d.stage = .closing outcome → error = none
  | .message (.cancel id) _ => ∀ d, s.downloads.get t = some d → d.transferId ≠ id
  | .closed | .dispose => s.downloads.get t = none
  | _ => True

def Completed (s : FileSession platform) (audit : FileTransferAuditPayload) : Prop :=
  (t, audit) ∈ s.audits ∧ audit.status = .completed ∧ audit.direction = .download

structure WellFramed (chunks : List WireChunk) (audit : FileTransferAuditPayload) : Prop where
  numbered : chunks.map WireChunk.seq = range chunks.length
  whole : ∃ pieces : List Bytes, chunks.map (fun k => decode k.data) = pieces.map some ∧ pieces.flatten = content
  ended : ∃ before last, chunks = before ++ [last] ∧ last.done = true ∧ ∀ k ∈ before, k.done = false
  sized : audit.sizeBytes = .finite content.length

structure Splits (pieces : List Bytes) : Prop where
  nonempty : ∀ p ∈ pieces, p ≠ [] ∧ p.length ≤ CHUNK_SIZE
  whole : pieces.flatten = content

/-- The answers for a download of these pieces. -/
def answers (pieces : List Bytes) : List (Event platform) :=
  [.statDone t (.ok size), .openDone t none] ++ pieces.map (fun p => .readDone t (.ok p)) ++
    [.readDone t (.ok []), .closeDone t none]

/-- The event asks for the download, and the path is let through. -/
def Requests (s : FileSession platform) : Event platform → Prop
  | .message (.download id path) now =>
    s.next = t ∧ s.disposed = false ∧ s.closed = false ∧ isTransferId id = true ∧
      ∃ resolved, c.jail.check c.host now.fs (.str path) = .allowed resolved
  | _ => False

end Spec

/-! ## Chunks -/

section Frames

variable {content : Bytes} {size : Nat}

/-- The chunks of pieces, after `seq` others with `sum` bytes. -/
def frames (size : Nat) : Nat → Nat → List Bytes → List WireChunk
  | _, _, [] => []
  | seq, sum, p :: pieces =>
    ⟨seq, encode p, size ≤ sum + p.length⟩ :: frames size (seq + 1) (sum + p.length) pieces

theorem frames_concat (seq sum : Nat) (pieces : List Bytes) (p : Bytes) :
    frames size seq sum (pieces ++ [p]) = frames size seq sum pieces ++
      [⟨seq + pieces.length, encode p, size ≤ sum + pieces.flatten.length + p.length⟩] := by
  induction pieces generalizing seq sum with
  | nil => simp [frames]
  | cons q pieces ih => simp [frames, ih, add_assoc, add_comm, add_left_comm]

theorem length_frames (seq sum : Nat) (pieces : List Bytes) : (frames size seq sum pieces).length = pieces.length := by
  induction pieces generalizing seq sum with
  | nil => rfl
  | cons p pieces ih => simp [frames, ih]

theorem seq_frames (seq sum : Nat) (pieces : List Bytes) :
    (frames size seq sum pieces).map WireChunk.seq = range' seq pieces.length := by
  induction pieces generalizing seq sum with
  | nil => rfl
  | cons p pieces ih => simp [frames, ih, range'_succ]

theorem decode_frames (seq sum : Nat) (pieces : List Bytes) :
    (frames size seq sum pieces).map (fun k => decode k.data) = pieces.map some := by
  induction pieces generalizing seq sum with
  | nil => rfl
  | cons p pieces ih => simp [frames, ih, decode_encode]

/-- Before as many bytes as promised were read, no chunk is the last. -/
theorem done_frames {seq sum : Nat} {pieces : List Bytes} (h : sum + pieces.flatten.length < size) :
    ∀ k ∈ frames size seq sum pieces, k.done = false := by
  induction pieces generalizing seq sum with
  | nil => simp [frames]
  | cons p pieces ih =>
    simp only [flatten_cons, length_append] at h
    simp only [frames, mem_cons, forall_eq_or_imp, decide_eq_false_iff_not]
    exact ⟨by omega, ih (by omega)⟩

/-- The chunks of a whole file are well framed exactly if it has bytes, as many as promised. -/
theorem wellFramed_frames_iff {pieces : List Bytes} (hpieces : ∀ p ∈ pieces, p ≠ []) (hwhole : pieces.flatten = content)
    {audit : FileTransferAuditPayload} (hsize : audit.sizeBytes = .finite size) :
    WellFramed content (frames size 0 0 pieces) audit ↔ content ≠ [] ∧ size = content.length := by
  have hframed : content ≠ [] → size = content.length →
      ∃ before last, frames size 0 0 pieces = before ++ [last] ∧ last.done = true ∧ ∀ k ∈ before, k.done = false := by
    intro hne hpromised
    rcases eq_nil_or_concat' pieces with rfl | ⟨before, p, rfl⟩
    · exact absurd hwhole.symm hne
    · have hp : 0 < p.length := length_pos_iff.mpr (hpieces p (by simp))
      have hsum := congrArg length hwhole
      simp only [flatten_append, flatten_singleton, length_append] at hsum
      exact ⟨_, _, frames_concat 0 0 before p, decide_eq_true (by omega), done_frames (by omega)⟩
  constructor
  · intro h
    refine ⟨?_, by simpa [hsize] using h.sized⟩
    rintro rfl
    obtain ⟨before, last, hchunks, -⟩ := h.ended
    have hnone : pieces = [] := by
      cases pieces with
      | nil => rfl
      | cons p pieces => exact absurd (flatten_eq_nil_iff.mp hwhole p (by simp)) (hpieces p (by simp))
    rw [hnone] at hchunks
    simp [frames] at hchunks
  · rintro ⟨hne, hpromised⟩
    exact {
      numbered := by rw [seq_frames, length_frames, range_eq_range']
      whole := ⟨pieces, decode_frames 0 0 pieces, hwhole⟩
      ended := hframed hne hpromised
      sized := by rw [hsize, hpromised] }

end Frames

/-! ## Other steps -/

section Aside

variable {platform : Platform} {c : Endpoint platform} {s s' s'' : FileSession platform} {t : Nat}

/-- The step leaves the download and what it looks at alone. -/
structure Aside (t : Nat) (s s' : FileSession platform) : Prop where
  next : s.next ≤ s'.next
  download : s'.downloads.get t = s.downloads.get t
  ended : s'.closed = s.closed ∧ s'.disposed = s.disposed
  marks : ∀ id ∈ s'.cancelledDownloads, id ∈ s.cancelledDownloads
  completed : ∀ audit, Completed t s' audit → Completed t s audit

theorem Aside.refl (s : FileSession platform) : Aside t s s := ⟨le_rfl, rfl, ⟨rfl, rfl⟩, fun _ h => h, fun _ h => h⟩

theorem Aside.send (h : Aside t s s') (reply : Reply) : Aside t s (s'.send reply) := { h with }

/-- An audit that is not that of the download, completed. -/
theorem Aside.audit (h : Aside t s s') (u : Nat) {row : FileTransferAuditPayload}
    (hrow : u = t → row.status = .completed → row.direction = .download → False) :
    Aside t s (s'.sendFileTransferAudit u row) :=
  { h with
    completed := by
      rintro audit ⟨hmem, hstatus, hdirection⟩
      simp only [sendFileTransferAudit, mem_append, mem_singleton] at hmem
      rcases hmem with hmem | ⟨rfl, rfl⟩
      · exact h.completed audit ⟨hmem, hstatus, hdirection⟩
      · exact (hrow rfl hstatus hdirection).elim }

theorem Aside.setState (h : Aside t s s') (u : Nat) (upload : UploadState platform) :
    Aside t s (s'.setState u upload) := { h with }

/-- What uploads keep on disk and in their tables is no part of a download. -/
theorem Aside.uploads (h : Aside t s s') (disk : Disk) (uploads : OrderedMap Str Nat)
    (finishing : OrderedMap Nat (Finishing platform)) (completions : List Completion) (sent : Nat → Bytes) :
    Aside t s { s' with
      disk := disk, uploads := uploads, finishing := finishing, completions := completions, sent := sent } := { h with }

theorem Aside.setDownload (h : Aside t s s') {u : Nat} (hu : u ≠ t) (d : Download platform) :
    Aside t s { s' with downloads := s'.downloads.set u d } :=
  { h with download := (get_set_of_ne (Ne.symm hu)).trans h.download }

theorem Aside.deleteDownload (h : Aside t s s') {u : Nat} (hu : u ≠ t) :
    Aside t s { s' with downloads := s'.downloads.delete u } :=
  { h with download := (get_delete_of_ne (Ne.symm hu)).trans h.download }

theorem Aside.unmark (h : Aside t s s') (id : Str) :
    Aside t s { s' with cancelledDownloads := s'.cancelledDownloads.filter (· ≠ id) } :=
  { h with marks := fun k hk => h.marks k (mem_of_mem_filter hk) }

/-! ### Handlers -/

theorem Aside.discard (h : Aside t s s') (transferId : Str) (u : Nat) (upload : UploadState platform)
    (status : TransferStatus) (message : Str) : Aside t s (discard c s' transferId u upload status message) :=
  (h.uploads _ _ _ _ _).audit u fun _ _ hdirection => by cases hdirection

theorem Aside.handleUploadStart (id path : Str) (size : Size) (now : Now platform) :
    Aside t s (handleUploadStart c s id path size now) := by
  have hnext : Aside t s { s with next := s.next + 1 } := { Aside.refl s with next := le_succ _ }
  unfold FileSession.handleUploadStart
  dsimp only
  split
  · exact (hnext.send _).audit _ fun _ hstatus _ => by cases hstatus
  · split
    · exact (hnext.send _).audit _ fun _ hstatus _ => by cases hstatus
    · split
      · exact hnext.send _
      · exact (((hnext.uploads _ _ _ _ _).setState _ _).audit _ fun _ hstatus _ => by cases hstatus).send _

theorem Aside.handleChunk (h : Aside t s s') (id : Str) (data : Bytes) (now : Now platform) :
    Aside t s (handleChunk c s' id data now) := by
  unfold FileSession.handleChunk
  split
  · exact h
  · split
    · exact h
    · split
      · exact ((((h.uploads _ _ _ _ _).setState _ _).discard _ _ _ _ _).send _)
      · split
        · exact h.setState _ _
        · dsimp only
          split
          · exact (h.uploads _ _ _ _ _).setState _ _
          · exact (h.uploads _ _ _ _ _).setState _ _

theorem Aside.observe (h : Aside t s s') (id : Str) (data : Bytes) : Aside t s (observe s' id data) := by
  unfold FileSession.observe
  split
  · split
    · exact h
    · exact h.uploads _ _ _ _ _
  · exact h

theorem Aside.handleUploadDone (h : Aside t s s') (id : Str) (now : Now platform) :
    Aside t s (handleUploadDone c s' id now) := by
  unfold FileSession.handleUploadDone
  split
  · exact h
  · rename_i u upload _
    dsimp only
    split
    · exact h.uploads _ _ _ _ _
    · have hset := (h.uploads (s'.disk.closeSync upload.fd) s'.uploads s'.finishing s'.completions s'.sent).setState u
        { upload with hash := ⟨upload.hash.data, true⟩, failure := failureAtEnd c upload }
      split
      · exact (hset.discard _ _ _ _ _).send _
      · split
        · exact hset.discard _ _ _ _ _
        · split
          · exact (hset.discard _ _ _ _ _).send _
          · exact hset.uploads _ _ _ _ _

theorem Aside.finalizeFailed (h : Aside t s s') (u : Nat) (f : Finishing platform) (e : Reason) :
    Aside t s (finalizeFailed c s' u f e) := by
  unfold FileSession.finalizeFailed
  split
  · exact ((h.uploads _ _ _ _ _).discard _ _ _ _ _).send _
  · exact h

theorem Aside.mkdirDone (h : Aside t s s') (u : Nat) (error : Option Reason) : Aside t s (mkdirDone c s' u error) := by
  unfold FileSession.mkdirDone
  split
  · split
    · exact h.finalizeFailed _ _ _
    · exact h.uploads _ _ _ _ _
    · exact h
  · exact h

theorem Aside.renameRun (h : Aside t s s') (u : Nat) (error : Option Reason) : Aside t s (renameRun c s' u error) := by
  unfold FileSession.renameRun
  split
  · split
    · exact h.uploads _ _ _ _ _
    · split
      · exact h.uploads _ _ _ _ _
      · exact h.uploads _ _ _ _ _
    · exact h
  · exact h

theorem Aside.renameDone (h : Aside t s s') (u : Nat) : Aside t s (renameDone c s' u) := by
  unfold FileSession.renameDone
  split
  · split
    · exact h.finalizeFailed _ _ _
    · split
      · exact ((h.uploads _ _ _ _ _).send _).audit _ fun _ _ hdirection => by cases hdirection
      · exact h
    · exact h
  · exact h

/-- Other downloads go on. -/
theorem Aside.finishDownload (h : Aside t s s') {u : Nat} (hu : u ≠ t) (d : Download platform)
    (outcome : Except Reason Bool) : Aside t s (finishDownload s' u d outcome) := by
  have hgone := (h.deleteDownload hu).unmark d.transferId
  unfold FileSession.finishDownload
  split
  · exact (hgone.send _).audit _ fun hut => absurd hut hu
  · exact hgone.audit _ fun hut => absurd hut hu

theorem Aside.readNext (h : Aside t s s') {u : Nat} (hu : u ≠ t) (d : Download platform) :
    Aside t s (readNext s' u d) := h.setDownload hu _

theorem aside_of_other {u : Nat} (hu : u ≠ t) :
    (∀ result, Aside t s (statDone s u result)) ∧ (∀ error, Aside t s (openDone s u error)) ∧
      (∀ result, Aside t s (readDone s u result)) ∧ ∀ error, Aside t s (closeDone s u error) := by
  have h := Aside.refl (t := t) s
  refine ⟨fun result => ?_, fun error => ?_, fun result => ?_, fun error => ?_⟩
  · unfold statDone
    split
    · split
      · exact ((h.deleteDownload hu).audit _ fun hut => absurd hut hu).send _
      · exact (h.setDownload hu _).audit _ fun hut => absurd hut hu
      · exact h
    · exact h
  · unfold openDone
    split
    · split
      · exact h.finishDownload hu _ _
      · exact h.readNext hu _
      · exact h
    · exact h
  · unfold readDone
    split
    · split
      · exact h.setDownload hu _
      · exact h.setDownload hu _
      · exact (h.send _).readNext hu _
      · exact h
    · exact h
  · unfold closeDone
    split
    · split
      · exact h.finishDownload hu _ _
      · exact h.finishDownload hu _ _
      · exact h
    · exact h

end Aside

/-! ## One download -/

section Follows

variable {platform : Platform} {c : Endpoint platform} {s s' : FileSession platform} {content : Bytes} {size t : Nat}
  {chunks : List WireChunk}

/-- So many chunks with so many bytes of the file were sent. -/
def Served (content : Bytes) (size seq sum : Nat) (chunks : List WireChunk) : Prop :=
  ∃ pieces : List Bytes, (∀ p ∈ pieces, p ≠ []) ∧ pieces.flatten = content.take sum ∧ sum ≤ content.length ∧
    seq = pieces.length ∧ chunks = frames size 0 0 pieces

theorem served_nil : Served content size 0 0 [] := ⟨[], by simp, by simp, zero_le _, rfl, rfl⟩

theorem Served.concat {seq sum n : Nat} (h : Served content size seq sum chunks)
    (hpiece : (content.drop sum).take n ≠ []) :
    Served content size (seq + 1) (sum + ((content.drop sum).take n).length)
      (chunks ++ [⟨seq, encode ((content.drop sum).take n), size ≤ sum + ((content.drop sum).take n).length⟩]) := by
  obtain ⟨pieces, hnonempty, hflatten, hsum, rfl, rfl⟩ := h
  have hlen := congrArg length hflatten
  rw [length_take, min_eq_left hsum] at hlen
  refine ⟨pieces ++ [(content.drop sum).take n], ?_, ?_, ?_, by simp, ?_⟩
  · simpa [or_imp, forall_and] using ⟨hnonempty, by simpa using hpiece⟩
  · rw [flatten_append, flatten_singleton, hflatten, take_add]
    rw [length_take, ← take_eq_take_min]
  · rw [length_take, length_drop]
    omega
  · rw [frames_concat, hlen, zero_add, zero_add]

/-- What was sent of a download, and where it stands. -/
structure Follows (content : Bytes) (size t : Nat) (s : FileSession platform) (chunks : List WireChunk) : Prop where
  books : Books s
  fresh : s.next ≤ t → chunks = []
  served : ∀ d, s.downloads.get t = some d → Served content size d.seq d.transferred chunks
  going : ∀ d, s.downloads.get t = some d →
    s.closed = false ∧ s.disposed = false ∧ d.transferId ∉ s.cancelledDownloads
  promised : ∀ d, s.downloads.get t = some d → d.stage ≠ .stat → d.sizeBytes = size
  closing : ∀ d, s.downloads.get t = some d → ∀ outcome, d.stage = .closing outcome →
    outcome = .ok false ∧ d.transferred = content.length
  completed : ∀ audit, Completed t s audit → s.downloads.get t = none ∧ audit.sizeBytes = .finite size ∧
    ∃ seq, Served content size seq content.length chunks

/-- Steps aside change nothing, as long as the download is not cancelled. -/
theorem Follows.aside (h : Follows content size t s chunks) (haside : Aside t s s') (hbooks : Books s') :
    Follows content size t s' chunks where
  books := hbooks
  fresh ht := h.fresh (haside.next.trans ht)
  served d hd := h.served d (haside.download ▸ hd)
  going d hd := by
    obtain ⟨hclosed, hdisposed, hmark⟩ := h.going d (haside.download ▸ hd)
    exact ⟨haside.ended.1.trans hclosed, haside.ended.2.trans hdisposed, fun hid => hmark (haside.marks _ hid)⟩
  promised d hd := h.promised d (haside.download ▸ hd)
  closing d hd := h.closing d (haside.download ▸ hd)
  completed audit haudit := by
    obtain ⟨hnone, hrest⟩ := h.completed audit (haside.completed audit haudit)
    exact ⟨haside.download.trans hnone, hrest⟩

def newChunks (s s' : FileSession platform) : List WireChunk :=
  (s'.replies.drop s.replies.length).filterMap wireChunk

/-- A step that sends nothing. -/
theorem Follows.quiet (h : Follows content size t s' chunks) (hreplies : s'.replies = s.replies) :
    Follows content size t s' (chunks ++ newChunks s s') := by
  simpa [newChunks, hreplies] using h

theorem mem_audit {u : Nat} {row : FileTransferAuditPayload} {audit : FileTransferAuditPayload} :
    Completed t (s.sendFileTransferAudit u row) audit ↔
      Completed t s audit ∨ u = t ∧ row = audit ∧ audit.status = .completed ∧ audit.direction = .download := by
  simp only [Completed, sendFileTransferAudit, mem_append, mem_singleton, Prod.mk.injEq]
  tauto

/-- The answer of `stat`. -/
theorem Follows.statDone (h : Follows content size t s chunks) {result : Except Reason Nat}
    (hbooks : Books (statDone s t result))
    (hanswer : ∀ d, s.downloads.get t = some d → d.stage = .stat → result = .ok size) :
    Follows content size t (statDone s t result) (chunks ++ newChunks s (statDone s t result)) := by
  revert hbooks
  unfold FileSession.statDone
  split
  · rename_i d hd
    split
    · rename_i hstage
      cases hanswer d hd hstage
    · rename_i hstage
      cases hanswer d hd hstage
      intro hbooks
      have hget := get_set_self s.downloads t { d with sizeBytes := size, stage := .opening }
      refine .quiet ?_ rfl
      exact {
        books := hbooks
        fresh := h.fresh
        served := fun d' hd' => by cases hget.symm.trans hd'; exact h.served d hd
        going := fun d' hd' => by cases hget.symm.trans hd'; exact h.going d hd
        promised := fun d' hd' _ => by cases hget.symm.trans hd'; rfl
        closing := fun d' hd' _ hclosing => by cases hget.symm.trans hd'; cases hclosing
        completed := fun audit haudit => by
          rcases mem_audit.mp haudit with haudit | ⟨-, rfl, hstatus, -⟩
          · cases (h.completed audit haudit).1.symm.trans hd
          · cases hstatus }
    · exact fun _ => h.quiet rfl
  · exact fun _ => h.quiet rfl

theorem send_of_open {reply : Reply} (hclosed : s.closed = false) (hdisposed : s.disposed = false) :
    s.send reply = { s with replies := s.replies ++ [reply] } := by
  simp [send, hclosed, hdisposed]

/-- The head of the loop, for a download that is not cancelled. -/
theorem readNext_of_going {d : Download platform} (hdisposed : s.disposed = false)
    (hmark : d.transferId ∉ s.cancelledDownloads) :
    readNext s t d = { s with downloads := s.downloads.set t { d with stage := .reading } } := by
  simp [readNext, hdisposed, hmark]

/-- Nothing but the download changes. -/
theorem Follows.set (h : Follows content size t s chunks) {d d' : Download platform}
    (hd : s.downloads.get t = some d) {replies : List Reply} {chunks' : List WireChunk}
    (hbooks : Books { s with downloads := s.downloads.set t d', replies := replies })
    (hid : d'.transferId = d.transferId) (hsize : d'.sizeBytes = size)
    (hserved : Served content size d'.seq d'.transferred chunks')
    (hclosing : ∀ outcome, d'.stage = .closing outcome → outcome = .ok false ∧ d'.transferred = content.length) :
    Follows content size t { s with downloads := s.downloads.set t d', replies := replies } chunks' := by
  have hget := get_set_self s.downloads t d'
  exact {
    books := hbooks
    fresh := fun ht => absurd (h.books.asked t d hd).1 (not_lt.mpr ht)
    served := fun e he => by cases hget.symm.trans he; exact hserved
    going := fun e he => by cases hget.symm.trans he; exact hid ▸ h.going d hd
    promised := fun e he _ => by cases hget.symm.trans he; exact hsize
    closing := fun e he => by cases hget.symm.trans he; exact hclosing
    completed := fun audit haudit => by cases (h.completed audit haudit).1.symm.trans hd }

theorem Follows.openDone (h : Follows content size t s chunks) {error : Option Reason}
    (hbooks : Books (openDone s t error))
    (hanswer : ∀ d, s.downloads.get t = some d → d.stage = .opening → error = none) :
    Follows content size t (openDone s t error) (chunks ++ newChunks s (openDone s t error)) := by
  revert hbooks
  unfold FileSession.openDone
  split
  · rename_i d hd
    split
    · rename_i hstage
      cases hanswer d hd hstage
    · rename_i hstage
      obtain ⟨-, hdisposed, hmark⟩ := h.going d hd
      rw [readNext_of_going hdisposed hmark]
      intro hbooks
      exact (h.set hd hbooks rfl (h.promised d hd (by simp [hstage])) (h.served d hd)
        fun _ hclosing => by cases hclosing).quiet rfl
    · exact fun _ => h.quiet rfl
  · exact fun _ => h.quiet rfl

theorem Follows.readDone (h : Follows content size t s chunks) {result : Except Reason Bytes}
    (hbooks : Books (readDone s t result))
    (hanswer : ∀ d, s.downloads.get t = some d → d.stage = .reading → ReadsOn content d.transferred result) :
    Follows content size t (readDone s t result) (chunks ++ newChunks s (readDone s t result)) := by
  revert hbooks
  unfold FileSession.readDone
  split
  · rename_i d hd
    split
    · rename_i hstage
      obtain ⟨_, _, hresult, -⟩ := hanswer d hd hstage
      cases hresult
    · rename_i hstage
      obtain ⟨n, -, hresult, hprogress⟩ := hanswer d hd hstage
      intro hbooks
      refine (h.set hd hbooks rfl (h.promised d hd (by simp [hstage])) (h.served d hd)
        fun outcome hclosing => ?_).quiet rfl
      -- nothing is read at the end only
      obtain ⟨pieces, -, -, hsum, -⟩ := h.served d hd
      have hempty := (Except.ok.inj hresult).symm
      simp only [take_eq_nil_iff, drop_eq_nil_iff] at hempty
      cases hclosing
      exact ⟨rfl, by dsimp only; omega⟩
    · rename_i b bytes hstage
      obtain ⟨n, -, hresult, -⟩ := hanswer d hd hstage
      obtain ⟨hclosed, hdisposed, hmark⟩ := h.going d hd
      have hpiece : b :: bytes = (content.drop d.transferred).take n := Except.ok.inj hresult
      have hpromised := h.promised d hd (by simp [hstage])
      dsimp only
      rw [send_of_open hclosed hdisposed, readNext_of_going (by exact hdisposed) (by exact hmark)]
      intro hbooks
      have hnew : newChunks s { s with
          downloads := s.downloads.set t ⟨d.transferId, d.resolved, d.sizeBytes, d.transferred + (b :: bytes).length,
            d.seq + 1, .reading⟩
          replies := s.replies ++ [.chunk d.transferId d.seq (b :: bytes)
            (d.sizeBytes ≤ d.transferred + (b :: bytes).length)] } =
          [⟨d.seq, encode (b :: bytes), d.sizeBytes ≤ d.transferred + (b :: bytes).length⟩] := by
        simp [newChunks, wireChunk]
      refine hnew ▸ h.set hd hbooks rfl hpromised ?_ fun _ hclosing => by cases hclosing
      have hserved := (h.served d hd).concat (n := n) (by rw [← hpiece]; simp)
      rw [← hpiece] at hserved
      rw [hpromised]
      exact hserved
    · exact fun _ => h.quiet rfl
  · exact fun _ => h.quiet rfl

theorem Follows.closeDone (h : Follows content size t s chunks) {error : Option Reason}
    (hbooks : Books (closeDone s t error))
    (hanswer : ∀ d, s.downloads.get t = some d → ∀ outcome, d.stage = .closing outcome → error = none) :
    Follows content size t (closeDone s t error) (chunks ++ newChunks s (closeDone s t error)) := by
  revert hbooks
  unfold FileSession.closeDone
  split
  · rename_i d hd
    split
    · rename_i outcome e hstage
      cases hanswer d hd outcome hstage
    · rename_i outcome hstage
      obtain ⟨rfl, hall⟩ := h.closing d hd outcome hstage
      have hpromised := h.promised d hd (by simp [hstage])
      intro hbooks
      have hnone := get_delete_self s.downloads t
      refine .quiet ?_ rfl
      exact {
        books := hbooks
        fresh := fun ht => absurd (h.books.asked t d hd).1 (not_lt.mpr ht)
        served := fun e he => by cases hnone.symm.trans he
        going := fun e he => by cases hnone.symm.trans he
        promised := fun e he => by cases hnone.symm.trans he
        closing := fun e he => by cases hnone.symm.trans he
        completed := fun audit haudit => by
          refine ⟨hnone, ?_⟩
          rcases mem_audit.mp haudit with haudit | ⟨-, rfl, -⟩
          · cases (h.completed audit haudit).1.symm.trans hd
          · exact ⟨by rw [← hpromised]; rfl, d.seq, hall ▸ h.served d hd⟩ }
    · exact fun _ => h.quiet rfl
  · exact fun _ => h.quiet rfl

theorem Follows.accept (h : Follows content size t s chunks) (hclosed : s.closed = false)
    (hdisposed : s.disposed = false) (id path : Str) (now : Now platform) :
    Follows content size t (handleDownload c s id path now) chunks := by
  have hbooks := (Moves.handleDownload (c := c) h.books id path now).books
  have hnext : Aside t s { s with next := s.next + 1, cancelledDownloads := s.cancelledDownloads.filter (· ≠ id) } :=
    { (Aside.refl s).unmark id with next := le_succ _ }
  revert hbooks
  unfold handleDownload
  split
  · exact fun hbooks => h.aside ((hnext.send _).audit _ fun _ hstatus _ => by cases hstatus) hbooks
  · rename_i resolved _
    intro hbooks
    by_cases ht : s.next = t
    · subst ht
      have hget := get_set_self s.downloads s.next ⟨id, resolved, 0, 0, 0, .stat⟩
      exact {
        books := hbooks
        fresh := fun ht => absurd ht (by simp)
        served := fun d hd => by cases hget.symm.trans hd; exact h.fresh le_rfl ▸ served_nil
        going := fun d hd => by
          cases hget.symm.trans hd
          exact ⟨hclosed, hdisposed, by simp⟩
        promised := fun d hd hstage => by cases hget.symm.trans hd; exact absurd rfl hstage
        closing := fun d hd _ hclosing => by cases hget.symm.trans hd; cases hclosing
        completed := fun audit haudit => absurd (h.books.known _ haudit.1) (lt_irrefl _) }
    · exact h.aside (hnext.setDownload ht _) hbooks

/-- The end of the session, or of its channel, after the download. -/
theorem Follows.over (h : Follows content size t s chunks) (hnone : s.downloads.get t = none)
    {closed disposed : Bool} (hbooks : Books (cleanupAllUploads { s with closed := closed, disposed := disposed })) :
    Follows content size t (cleanupAllUploads { s with closed := closed, disposed := disposed }) chunks where
  books := hbooks
  fresh := h.fresh
  served d hd := by cases hnone.symm.trans hd
  going d hd := by cases hnone.symm.trans hd
  promised d hd := by cases hnone.symm.trans hd
  closing d hd := by cases hnone.symm.trans hd
  completed := h.completed

theorem Follows.cancel (h : Follows content size t s chunks) {id : Str}
    (hother : ∀ d, s.downloads.get t = some d → d.transferId ≠ id) (hbooks : Books (handleCancel s id)) :
    Follows content size t (handleCancel s id) chunks := by
  have hmarked : Books { s with cancelledDownloads := s.cancelledDownloads ++ [id] } := { h.books with }
  have hmark : Follows content size t { s with cancelledDownloads := s.cancelledDownloads ++ [id] } chunks :=
    { h with
      books := hmarked
      going := fun d hd => by
        obtain ⟨hclosed, hdisposed, hfree⟩ := h.going d hd
        exact ⟨hclosed, hdisposed, by simpa using ⟨hfree, hother d hd⟩⟩ }
  revert hbooks
  unfold handleCancel
  dsimp only
  split
  · exact fun hbooks => hmark.aside ((Aside.refl _).setState _ _) hbooks
  · exact fun hbooks => hmark.aside (Aside.refl _) hbooks

/-- One step of the session, of the download or aside. -/
theorem Follows.step (h : Follows content size t s chunks) {e : Event platform}
    (hfile : FromFile content size t s e) :
    Follows content size t (step c s e) (if concerns t e then chunks ++ newChunks s (step c s e) else chunks) := by
  have hbooks := (Moves.step (c := c) h.books e).books
  cases e with
  | message m now =>
    revert hbooks
    simp only [FileSession.step]
    split
    · exact fun _ => h
    · rename_i hopen
      obtain ⟨hdisposed, hclosed⟩ := or_eq_false_iff.mp (eq_false_iff.mpr hopen)
      unfold handleMessage
      split
      · exact fun hbooks => h.aside ((Aside.refl s).send _) hbooks
      · cases m with
        | download id path => exact fun _ => h.accept hclosed hdisposed id path now
        | upload id path size => exact fun hbooks => h.aside (.handleUploadStart id path size now) hbooks
        | chunk id data => exact fun hbooks => h.aside (((Aside.refl s).observe id data).handleChunk id data now) hbooks
        | uploadDone id => exact fun hbooks => h.aside ((Aside.refl s).handleUploadDone id now) hbooks
        | cancel id => exact fun hbooks => h.cancel hfile hbooks
  | statDone u result =>
    by_cases hu : u = t
    · subst hu
      simp only [concerns]
      exact h.statDone hbooks (hfile rfl)
    · simp only [concerns, hu]
      exact h.aside ((aside_of_other hu).1 result) hbooks
  | openDone u error =>
    by_cases hu : u = t
    · subst hu
      simp only [concerns, decide_true, if_true]
      exact h.openDone hbooks (hfile rfl)
    · simp only [concerns, hu, decide_false, false_eq_true, if_false]
      exact h.aside ((aside_of_other hu).2.1 error) hbooks
  | readDone u result =>
    by_cases hu : u = t
    · subst hu
      simp only [concerns, decide_true, if_true]
      exact h.readDone hbooks (hfile rfl)
    · simp only [concerns, hu, decide_false, false_eq_true, if_false]
      exact h.aside ((aside_of_other hu).2.2.1 result) hbooks
  | closeDone u error =>
    by_cases hu : u = t
    · subst hu
      simp only [concerns, decide_true, if_true]
      exact h.closeDone hbooks (hfile rfl)
    · simp only [concerns, hu, decide_false, false_eq_true, if_false]
      exact h.aside ((aside_of_other hu).2.2.2 error) hbooks
  | mkdirDone u error => exact h.aside ((Aside.refl s).mkdirDone u error) hbooks
  | renameRun u error => exact h.aside ((Aside.refl s).renameRun u error) hbooks
  | renameDone u => exact h.aside ((Aside.refl s).renameDone u) hbooks
  | othersOpen => exact h.aside ((Aside.refl s).uploads _ _ _ _ _) hbooks
  | othersClose fd =>
    revert hbooks
    simp only [FileSession.step]
    split
    · exact fun hbooks => h.aside ((Aside.refl s).uploads _ _ _ _ _) hbooks
    · exact fun _ => h
  | closed => exact h.over hfile hbooks
  | dispose =>
    revert hbooks
    simp only [FileSession.step, FileSession.dispose]
    split
    · exact fun _ => h
    · exact fun hbooks => h.over hfile hbooks

/-! ## Runs -/

theorem watch_run (tr : List (Event platform)) : ((watch c t).run tr).1 = (machine c).run tr := by
  induction tr using reverseRecOn with
  | nil => rfl
  | append_singleton tr e ih =>
    rw [run_append, run_append, ← ih]
    rfl

theorem chunksOf_snoc (tr : List (Event platform)) (e : Event platform) : chunksOf c t (tr ++ [e]) =
      if concerns t e then chunksOf c t tr ++ newChunks ((machine c).run tr) (step c ((machine c).run tr) e)
      else chunksOf c t tr := by
  rw [← watch_run (t := t)]
  simp only [chunksOf, run_append]
  rfl

theorem run_snoc (tr : List (Event platform)) (e : Event platform) :
    (machine c).run (tr ++ [e]) = step c ((machine c).run tr) e := by
  rw [run_append]
  rfl

variable {tr : List (Event platform)}

theorem follows_run (h : (machine c).Guarded (FromFile content size t) tr) :
    Follows content size t ((machine c).run tr) (chunksOf c t tr) := by
  induction tr using reverseRecOn with
  | nil =>
    have hnone : (opened : FileSession platform).downloads.get t = none := rfl
    exact {
      books := books_opened
      fresh := fun _ => rfl
      served := fun d hd => by cases hnone.symm.trans hd
      going := fun d hd => by cases hnone.symm.trans hd
      promised := fun d hd => by cases hnone.symm.trans hd
      closing := fun d hd => by cases hnone.symm.trans hd
      completed := fun audit haudit => by cases haudit.1 }
  | append_singleton tr e ih =>
    obtain ⟨htr, he⟩ := guarded_snoc.mp h
    rw [run_snoc, chunksOf_snoc]
    exact (ih htr).step he

/-- The chunks of a download that completes. -/
theorem Follows.frames (h : Follows content size t s chunks) {audit : FileTransferAuditPayload}
    (haudit : Completed t s audit) : audit.sizeBytes = .finite size ∧ ∃ pieces : List Bytes,
      (∀ p ∈ pieces, p ≠ []) ∧ pieces.flatten = content ∧ chunks = frames size 0 0 pieces := by
  obtain ⟨-, hsize, seq, pieces, hpieces, hwhole, -, -, hchunks⟩ := h.completed audit haudit
  exact ⟨hsize, pieces, hpieces, hwhole.trans take_length, hchunks⟩

/-! ### Answers -/

def IsReading (s : FileSession platform) (t seq transferred : Nat) : Prop :=
  ∃ d, s.downloads.get t = some d ∧ d.stage = .reading ∧ d.seq = seq ∧ d.transferred = transferred

/-- The pieces of what is left are read and sent one by one. -/
theorem answers_pieces {seq transferred : Nat} {pieces : List Bytes}
    (hguard : (machine c).Guarded (FromFile content size t) tr)
    (hreading : IsReading ((machine c).run tr) t seq transferred)
    (hpieces : ∀ p ∈ pieces, p ≠ [] ∧ p.length ≤ CHUNK_SIZE) (hleft : pieces.flatten = content.drop transferred) :
    let tr' := tr ++ pieces.map fun p => .readDone t (.ok p)
    (machine c).Guarded (FromFile content size t) tr' ∧
      IsReading ((machine c).run tr') t (seq + pieces.length) (transferred + pieces.flatten.length) ∧
      chunksOf c t tr' = chunksOf c t tr ++ frames size seq transferred pieces := by
  induction pieces generalizing tr seq transferred with
  | nil => simpa [frames] using ⟨hguard, hreading⟩
  | cons p pieces ih =>
    simp only [mem_cons, forall_eq_or_imp] at hpieces
    obtain ⟨⟨hne, hfits⟩, hpieces⟩ := hpieces
    obtain ⟨d, hd, hstage, rfl, rfl⟩ := hreading
    have hfollows := follows_run hguard
    obtain ⟨hclosed, hdisposed, hmark⟩ := hfollows.going d hd
    have hpromised := hfollows.promised d hd (by simp [hstage])
    have hpiece : (content.drop d.transferred).take p.length = p := by simp [← hleft]
    have hguard' : (machine c).Guarded (FromFile content size t) (tr ++ [.readDone t (.ok p)]) := by
      refine guarded_snoc.mpr ⟨hguard, fun _ e he _ => ?_⟩
      cases hd.symm.trans he
      exact ⟨p.length, hfits, by rw [hpiece], fun _ => length_pos_iff.mpr hne⟩
    obtain ⟨b, bytes, rfl⟩ := exists_cons_of_ne_nil hne
    have hstep : step c ((machine c).run tr) (.readDone t (.ok (b :: bytes))) =
        { (machine c).run tr with
          downloads := ((machine c).run tr).downloads.set t ⟨d.transferId, d.resolved, d.sizeBytes,
            d.transferred + (b :: bytes).length, d.seq + 1, .reading⟩
          replies := ((machine c).run tr).replies ++ [.chunk d.transferId d.seq (b :: bytes)
            (d.sizeBytes ≤ d.transferred + (b :: bytes).length)] } := by
      simp only [step, readDone, hd, hstage]
      rw [send_of_open hclosed hdisposed, readNext_of_going (by exact hdisposed) (by exact hmark)]
    have hreading' : IsReading ((machine c).run (tr ++ [.readDone t (.ok (b :: bytes))])) t (d.seq + 1)
        (d.transferred + (b :: bytes).length) := by
      rw [run_snoc, hstep]
      exact ⟨_, get_set_self .., rfl, rfl, rfl⟩
    have hleft' : pieces.flatten = content.drop (d.transferred + (b :: bytes).length) := by
      rw [← drop_drop, ← hleft, flatten_cons, drop_left]
    have hrest := ih hguard' hreading' hpieces hleft'
    have hchunks : chunksOf c t (tr ++ [.readDone t (.ok (b :: bytes))]) = chunksOf c t tr ++
        [⟨d.seq, encode (b :: bytes), size ≤ d.transferred + (b :: bytes).length⟩] := by
      rw [chunksOf_snoc, hstep]
      simp [concerns, newChunks, wireChunk, hpromised]
    rw [hchunks] at hrest
    simpa [frames, add_assoc, add_comm 1] using hrest

/-- A download that is let through gets to its loop. -/
theorem answers_open {e : Event platform}
    (hguard : (machine c).Guarded (FromFile content size t) tr) (hrequest : Requests c t ((machine c).run tr) e) :
    let tr' := tr ++ [e, .statDone t (.ok size), .openDone t none]
    (machine c).Guarded (FromFile content size t) tr' ∧ IsReading ((machine c).run tr') t 0 0 := by
  unfold Requests at hrequest
  split at hrequest
  · rename_i id path now
    obtain ⟨hnext, hdisposed, hclosed, hid, resolved, hallowed⟩ := hrequest
    have hasked : ((machine c).run (tr ++ [.message (.download id path) now])).downloads.get t =
        some ⟨id, resolved, 0, 0, 0, .stat⟩ := by
      rw [run_snoc]
      simp [step, hdisposed, hclosed, handleMessage, Message.transferId, hid, handleDownload,
        hallowed, hnext, get_set_self]
    have hguard₁ : (machine c).Guarded (FromFile content size t) (tr ++ [.message (.download id path) now]) :=
      guarded_snoc.mpr ⟨hguard, trivial⟩
    have hguard₂ : (machine c).Guarded (FromFile content size t)
        (tr ++ [.message (.download id path) now] ++ [.statDone t (.ok size)]) :=
      guarded_snoc.mpr ⟨hguard₁, fun _ _ _ _ => rfl⟩
    have hguard₃ : (machine c).Guarded (FromFile content size t)
        (tr ++ [.message (.download id path) now] ++ [.statDone t (.ok size)] ++ [.openDone t none]) :=
      guarded_snoc.mpr ⟨hguard₂, fun _ _ _ _ => rfl⟩
    have hstat : ((machine c).run
        (tr ++ [.message (.download id path) now] ++ [.statDone t (.ok size)])).downloads.get t =
        some ⟨id, resolved, size, 0, 0, .opening⟩ := by
      rw [run_snoc]
      simp only [step, statDone, hasked]
      exact get_set_self ..
    obtain ⟨-, hopen, hmark⟩ := (follows_run hguard₂).going _ hstat
    have hreading : IsReading ((machine c).run (tr ++ [.message (.download id path) now] ++ [.statDone t (.ok size)] ++
        [.openDone t none])) t 0 0 := by
      rw [run_snoc]
      simp only [step, openDone, hstat]
      rw [readNext_of_going hopen hmark]
      exact ⟨_, get_set_self .., rfl, rfl, rfl⟩
    simpa using And.intro hguard₃ hreading
  · exact hrequest.elim

/-- At the end of the file, the loop is left and the download completes. -/
theorem answers_end {seq : Nat}
    (hguard : (machine c).Guarded (FromFile content size t) tr)
    (hreading : IsReading ((machine c).run tr) t seq content.length) :
    let tr' := tr ++ [.readDone t (.ok []), .closeDone t none]
    (machine c).Guarded (FromFile content size t) tr' ∧ (∃ audit, Completed t ((machine c).run tr') audit) ∧
      chunksOf c t tr' = chunksOf c t tr := by
  obtain ⟨d, hd, hstage, rfl, hall⟩ := hreading
  have hguard₁ : (machine c).Guarded (FromFile content size t) (tr ++ [.readDone t (.ok [])]) := by
    refine guarded_snoc.mpr ⟨hguard, fun _ e he _ => ?_⟩
    cases hd.symm.trans he
    exact ⟨0, zero_le _, rfl, fun hlt => absurd hlt (by omega)⟩
  have hguard₂ : (machine c).Guarded (FromFile content size t)
      (tr ++ [.readDone t (.ok [])] ++ [.closeDone t none]) :=
    guarded_snoc.mpr ⟨hguard₁, fun _ _ _ _ _ => rfl⟩
  have hread : (machine c).run (tr ++ [.readDone t (.ok [])]) = { (machine c).run tr with
      downloads := ((machine c).run tr).downloads.set t { d with stage := .closing (.ok false) } } := by
    rw [run_snoc]
    simp [step, readDone, hd, hstage]
  have hclose : step c ((machine c).run (tr ++ [.readDone t (.ok [])])) (.closeDone t none) =
      finishDownload ((machine c).run (tr ++ [.readDone t (.ok [])])) t
        { d with stage := .closing (.ok false) } (.ok false) := by
    have hget : ((machine c).run (tr ++ [.readDone t (.ok [])])).downloads.get t =
        some { d with stage := .closing (.ok false) } := by
      rw [hread]
      exact get_set_self ..
    simp only [step, closeDone, hget]
  have hcompleted : ∃ audit,
      Completed t ((machine c).run (tr ++ [.readDone t (.ok [])] ++ [.closeDone t none])) audit := by
    rw [run_snoc, hclose]
    exact ⟨_, mem_append_right _ (mem_singleton.mpr rfl), rfl, rfl⟩
  have hchunks : chunksOf c t (tr ++ [.readDone t (.ok [])] ++ [.closeDone t none]) = chunksOf c t tr := by
    rw [chunksOf_snoc, chunksOf_snoc, hclose, ← run_snoc, hread]
    simp [concerns, newChunks, finishDownload, sendFileTransferAudit]
  rw [append_assoc] at hguard₂ hcompleted hchunks
  exact ⟨hguard₂, hcompleted, hchunks⟩

/-- What a download asks for is answered in turn, and it completes. -/
theorem answers_complete {e : Event platform} {pieces : List Bytes}
    (hguard : (machine c).Guarded (FromFile content size t) tr) (hrequest : Requests c t ((machine c).run tr) e)
    (hsplits : Splits content pieces) :
    let tr' := tr ++ e :: answers size t pieces
    (machine c).Guarded (FromFile content size t) tr' ∧ (∃ audit, Completed t ((machine c).run tr') audit) ∧
      chunksOf c t tr' = frames size 0 0 pieces := by
  obtain ⟨hguard₁, hreading₁⟩ := answers_open hguard hrequest
  obtain ⟨hguard₂, hreading₂, hchunks₂⟩ := answers_pieces hguard₁ hreading₁ hsplits.nonempty (by simp [hsplits.whole])
  rw [hsplits.whole, zero_add, zero_add] at hreading₂
  obtain ⟨hguard₃, hcompleted, hchunks₃⟩ := answers_end hguard₂ hreading₂
  -- nothing was sent before the loop
  have hnone : chunksOf c t (tr ++ [e, .statDone t (.ok size), .openDone t none]) = [] := by
    obtain ⟨d, hd, -, hseq, -⟩ := hreading₁
    obtain ⟨pieces', -, -, -, hlength, hchunks⟩ := (follows_run hguard₁).served d hd
    rw [hchunks, length_eq_zero_iff.mp (hlength.symm.trans hseq)]
    rfl
  rw [hchunks₂, hnone, nil_append] at hchunks₃
  have hall : tr ++ e :: answers size t pieces = tr ++ [e, .statDone t (.ok size), .openDone t none] ++
      (pieces.map fun p => .readDone t (.ok p)) ++ [.readDone t (.ok []), .closeDone t none] := by
    simp [answers]
  dsimp only
  rw [hall]
  exact ⟨hguard₃, hcompleted, hchunks₃⟩

end Follows

/-! ## Framing -/

/-- A download of a file that stays as it is is well framed exactly if the file has bytes, as many as `stat` reported;
and whatever pieces the file is read in, what the download waits for can be answered so that it completes. -/
theorem wellFramed_iff_ne_nil {platform : Platform} (c : Endpoint platform) (content : Bytes) (size t : Nat)
    (tr : List (Event platform)) (hguard : (machine c).Guarded (FromFile content size t) tr) :
    (∀ audit, Completed t ((machine c).run tr) audit →
      (WellFramed content (chunksOf c t tr) audit ↔ content ≠ [] ∧ size = content.length)) ∧
    ∀ e pieces, Requests c t ((machine c).run tr) e → Splits content pieces →
      (machine c).Guarded (FromFile content size t) (tr ++ e :: answers size t pieces) ∧
      (∃ audit, Completed t ((machine c).run (tr ++ e :: answers size t pieces)) audit) ∧
      (chunksOf c t (tr ++ e :: answers size t pieces)).map (fun k => decode k.data) = pieces.map some := by
  constructor
  · intro audit haudit
    obtain ⟨hsize, pieces, hpieces, hwhole, hchunks⟩ := (follows_run hguard).frames haudit
    rw [hchunks]
    exact wellFramed_frames_iff hpieces hwhole hsize
  · intro e pieces hrequest hsplits
    obtain ⟨hanswered, hcompleted, hchunks⟩ := answers_complete hguard hrequest hsplits
    exact ⟨hanswered, hcompleted, by rw [hchunks, decode_frames]⟩

def getFile : Event .linux := message (.download (text "a") (text "/tmp/notes"))

theorem requests_getFile : Requests sampleEndpoint 0 ((machine sampleEndpoint).run []) getFile := by
  have hallowed : sampleJail.check sampleHost sampleFiles (.str (text "/tmp/notes")) =
      .allowed (linuxPath (text "/tmp/notes")) := by
    decide +kernel
  exact ⟨rfl, rfl, rfl, by decide, _, hallowed⟩

/-- A file of two bytes, read one by one. -/
theorem wellFramed_twoReads : ∃ tr audit, Completed 0 ((machine sampleEndpoint).run tr) audit ∧
      WellFramed [1, 2] (chunksOf sampleEndpoint 0 tr) audit := by
  have hstart : (machine sampleEndpoint).Guarded (FromFile [1, 2] 2 0) [] := guarded_nil
  have hsplits : Splits [1, 2] [[1], [2]] := ⟨by simp [CHUNK_SIZE], rfl⟩
  obtain ⟨hguard, ⟨audit, haudit⟩, -⟩ := answers_complete hstart requests_getFile hsplits
  exact ⟨_, audit, haudit, ((wellFramed_iff_ne_nil sampleEndpoint _ _ _ _ hguard).1 audit haudit).mpr ⟨by decide, rfl⟩⟩

/-- The download of an empty file completes without a chunk. -/
theorem not_wellFramed_emptyFile :
    ¬ ∀ (content : Bytes) (tr : List (Event .linux)) (audit : FileTransferAuditPayload),
      (machine sampleEndpoint).Guarded (FromFile content content.length 0) tr →
      Completed 0 ((machine sampleEndpoint).run tr) audit →
      WellFramed content (chunksOf sampleEndpoint 0 tr) audit := by
  intro h
  have hstart : (machine sampleEndpoint).Guarded (FromFile [] 0 0) [] := guarded_nil
  have hsplits : Splits [] [] := ⟨by simp, rfl⟩
  obtain ⟨hguard, ⟨audit, haudit⟩, hchunks⟩ := answers_complete hstart requests_getFile hsplits
  obtain ⟨before, last, hended, -⟩ := (h [] _ audit hguard haudit).ended
  rw [hchunks] at hended
  simp [frames] at hended

end FileSession

end Rcp
