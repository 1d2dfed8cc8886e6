-- SUMMARY: When a finished recording is kept until it is delivered: what recorders, hand-off and uploads keep together, and the runs without a second recording under a name.
import Tracenium.Lib.Locks
import Tracenium.Rcp.Recordings

open Utf16 OrderedMap List Option

namespace Rcp.Recording

open Recording Slots State

/-- What ends the debt for a file. An upload must have read its bytes. -/
def Note.releases (r : Note) (sessionId : Str) (content : List UInt8) : Prop :=
  match r with
  | .uploaded sessionId' content' => sessionId' = sessionId ∧ content' = content
  | .rejected sessionId' | .abandoned sessionId' | .expired sessionId' => sessionId' = sessionId
  | _ => False

/-- The key was handed over for the file, and nothing has released it since. -/
def Owes : List Note → Str → Nat → List UInt8 → Prop
  | [], _, _, _ => False
  | r :: rs, sessionId, inode, content =>
    (∃ n, r = .handed n sessionId inode content) ∨ ¬ r.releases sessionId content ∧ Owes rs sessionId inode content

/-- The agent has swept at its start, and opened no recording since. -/
def JustSwept : List Note → Prop
  | .swept :: _ => True
  | .requested _ :: rs => JustSwept rs
  | _ => False

/-- Finished recordings are neither destroyed nor mixed. -/
structure Preserved (s : State) : Prop where
  kept : ∀ sessionId inode content, Owes s.history sessionId inode content →
    s.recordings.get sessionId = some inode ∧ s.contentOf inode = content
  vouched : ∀ sessionId writtenAt inode, s.markers.get sessionId = some writtenAt →
    s.recordings.get sessionId = some inode → ∃ n, .handed n sessionId inode (s.contentOf inode) ∈ s.history
  swept : JustSwept s.history → ∀ sessionId inode, s.recordings.get sessionId = some inode →
    ∃ n, .handed n sessionId inode (s.contentOf inode) ∈ s.history

section Owes

variable {rs : List Note} {sessionId : Str} {inode : Nat} {content : List UInt8}

/-- Notes about no recording. -/
def Note.IsNeutral : Note → Prop
  | .opened _ | .requested _ | .restarted | .swept => True
  | _ => False

theorem owes_cons_neutral {r : Note} (hr : r.IsNeutral) : Owes (r :: rs) sessionId inode content ↔
    Owes rs sessionId inode content := by
  cases r with
  | handed | uploaded | rejected | abandoned | expired => cases hr
  | _ => simp [Owes, Note.releases]

theorem Owes.mem (h : Owes rs sessionId inode content) : ∃ n, .handed n sessionId inode content ∈ rs := by
  induction rs with
  | nil => cases h
  | cons r rs ih =>
    rcases h with ⟨n, rfl⟩ | ⟨-, h⟩
    · exact ⟨n, mem_cons_self⟩
    · obtain ⟨n, hn⟩ := ih h
      exact ⟨n, mem_cons_of_mem _ hn⟩

/-- What is uploaded, rejected, abandoned or expired is not owed for its session, if its bytes were read. -/
theorem not_owes_cons {r : Note} (hr : ∀ content, Owes rs sessionId inode content → r.releases sessionId content)
    (hhanded : ∀ n sessionId inode content, r ≠ .handed n sessionId inode content) :
    ¬ Owes (r :: rs) sessionId inode content := by
  rintro (⟨n, rfl⟩ | ⟨hreleases, h⟩)
  · exact hhanded _ _ _ _ rfl
  · exact hreleases (hr content h)

/-- The session of a note that ends a debt. -/
def Note.IsAbout (r : Note) (sessionId : Str) : Prop :=
  match r with
  | .uploaded sessionId' _ | .rejected sessionId' | .abandoned sessionId' | .expired sessionId' =>
    sessionId' = sessionId
  | _ => False

theorem owes_cons_of_ne {r : Note} {sessionId' : Str} (hr : r.IsAbout sessionId') (hne : sessionId ≠ sessionId') :
    Owes (r :: rs) sessionId inode content ↔ Owes rs sessionId inode content := by
  cases r with
  | opened | handed | requested | restarted | swept => cases hr
  | uploaded => simp [Owes, Note.releases, show _ = sessionId' from hr, hne.symm]
  | _ => simp [Owes, Note.releases, show _ = sessionId' from hr, hne.symm]

end Owes

/-! ## Invariant -/

def UploadEntry.IsActive (e : UploadEntry) : Prop := e.timer ≠ none ∨ e.reading ≠ none

/-- What recorders, hand-off and uploads keep together. A recorder that is not over is alone with its name. -/
structure Invariant (s : State) : Prop where
  kept : ∀ sessionId inode content, Owes s.history sessionId inode content →
    s.recordings.get sessionId = some inode ∧ s.contentOf inode = content
  marked : ∀ sessionId inode content, Owes s.history sessionId inode content →
    ∃ writtenAt, s.markers.get sessionId = some writtenAt ∧ s.modifiedAt inode ≤ writtenAt
  owed : ∀ sessionId writtenAt inode, s.markers.get sessionId = some writtenAt →
    s.recordings.get sessionId = some inode → Owes s.history sessionId inode (s.contentOf inode)
  exists_file : ∀ sessionId inode, s.recordings.get sessionId = some inode → inode < s.files.length
  distinct : ∀ sessionId sessionId' inode, s.recordings.get sessionId = some inode →
    s.recordings.get sessionId' = some inode → sessionId = sessionId'
  past : ∀ inode, s.modifiedAt inode ≤ s.now
  writes : ∀ (n : Nat) r inode offset, s.recorders[n]? = some r → r.fd = some (inode, offset) →
    r.ended = false ∧ inode < s.files.length ∧
      ∀ sessionId, s.recordings.get sessionId = some inode → sessionId = r.sessionId
  unowed : ∀ (n : Nat) r, s.recorders[n]? = some r → r.ended = false →
    ∀ inode content, ¬ Owes s.history r.sessionId inode content
  unmarked : ∀ (n : Nat) r, s.recorders[n]? = some r → r.ended = false → s.markers.get r.sessionId = none
  alone : ∀ (n m : Nat) r r', s.recorders[n]? = some r → s.recorders[m]? = some r' → r.ended = false →
    r'.ended = false → r.sessionId = r'.sessionId → n = m
  idle : ∀ (n : Nat) r, s.recorders[n]? = some r → r.ended = false →
    ∀ (k : Nat) e, s.entries[k]? = some e → e.sessionId = r.sessionId → ¬ e.IsActive
  reads : ∀ (k : Nat) e content, s.entries[k]? = some e → e.reading = some content →
    ∀ inode content', Owes s.history e.sessionId inode content' → content = content'
  booting : s.initialized = false → ∀ (n : Nat) r, s.recorders[n]? = some r → r.ended = true
  swept : JustSwept s.history → (∀ (n : Nat) r, s.recorders[n]? = some r → r.ended = true) ∧
    ∀ sessionId inode, s.recordings.get sessionId = some inode → ∃ writtenAt, s.markers.get sessionId = some writtenAt

theorem Preserved.of_invariant {s : State} (hs : Invariant s) : Preserved s where
  kept := hs.kept
  vouched sessionId writtenAt inode hmarker hfile := (hs.owed sessionId writtenAt inode hmarker hfile).mem
  swept hswept sessionId inode hfile := by
    obtain ⟨writtenAt, hmarker⟩ := (hs.swept hswept).2 sessionId inode hfile
    exact (hs.owed sessionId writtenAt inode hmarker hfile).mem

/-! ## Operations -/

section Operations

variable {s : State}

/-- What is owed stays the same. -/
theorem Invariant.rewrite (hs : Invariant s) {l : List Note}
    (howes : ∀ sessionId inode content, Owes l sessionId inode content ↔ Owes s.history sessionId inode content)
    (hswept : JustSwept l → JustSwept s.history) : Invariant { s with history := l } where
  kept sessionId inode content h := hs.kept sessionId inode content ((howes _ _ _).mp h)
  marked sessionId inode content h := hs.marked sessionId inode content ((howes _ _ _).mp h)
  owed sessionId writtenAt inode hmarker hfile := (howes _ _ _).mpr (hs.owed sessionId writtenAt inode hmarker hfile)
  exists_file := hs.exists_file
  distinct := hs.distinct
  past := hs.past
  writes := hs.writes
  unowed n r hn hover inode content h := hs.unowed n r hn hover inode content ((howes _ _ _).mp h)
  unmarked := hs.unmarked
  alone := hs.alone
  idle := hs.idle
  reads k e content hk hreading inode content' h := hs.reads k e content hk hreading inode content' ((howes _ _ _).mp h)
  booting := hs.booting
  swept h := hs.swept (hswept h)

/-- A sweep keeps what is owed, and its markers. -/
theorem Invariant.sweep (hs : Invariant s) {p q : Str → Nat → Bool} {l : List Note}
    (howes : ∀ sessionId inode content, Owes l sessionId inode content → Owes s.history sessionId inode content ∧
      p sessionId inode ∧ ∀ writtenAt, s.modifiedAt inode ≤ writtenAt → q sessionId writtenAt)
    (howed : ∀ sessionId inode content, s.recordings.get sessionId = some inode → p sessionId inode →
      Owes s.history sessionId inode content → Owes l sessionId inode content)
    (hswept : JustSwept l → (∀ (n : Nat) r, s.recorders[n]? = some r → r.ended) ∧ ∀ sessionId inode,
      s.recordings.get sessionId = some inode → p sessionId inode →
        ∃ writtenAt, s.markers.get sessionId = some writtenAt ∧ q sessionId writtenAt) :
    Invariant { s with recordings := s.recordings.filter p, markers := s.markers.filter q, history := l } where
  kept sessionId inode content h := by
    obtain ⟨h, hp, -⟩ := howes _ _ _ h
    obtain ⟨hfile, hcontent⟩ := hs.kept _ _ _ h
    exact ⟨get_filter_eq_some.mpr ⟨hfile, hp⟩, hcontent⟩
  marked sessionId inode content h := by
    obtain ⟨h, -, hq⟩ := howes _ _ _ h
    obtain ⟨writtenAt, hmarker, hle⟩ := hs.marked _ _ _ h
    exact ⟨writtenAt, get_filter_eq_some.mpr ⟨hmarker, hq writtenAt hle⟩, hle⟩
  owed sessionId writtenAt inode hmarker hfile := by
    obtain ⟨hfile, hp⟩ := get_filter_eq_some.mp hfile
    have h := hs.owed sessionId writtenAt inode (get_filter_eq_some.mp hmarker).1 hfile
    exact howed _ _ _ hfile hp h
  exists_file sessionId inode hfile := hs.exists_file sessionId inode (get_filter_eq_some.mp hfile).1
  distinct sessionId sessionId' inode hfile hfile' := hs.distinct sessionId sessionId' inode
    (get_filter_eq_some.mp hfile).1 (get_filter_eq_some.mp hfile').1
  past := hs.past
  writes n r inode offset hn hfd := by
    obtain ⟨hlive, hlt, hown⟩ := hs.writes n r inode offset hn hfd
    exact ⟨hlive, hlt, fun sessionId hfile => hown sessionId (get_filter_eq_some.mp hfile).1⟩
  unowed n r hn hlive inode content h := hs.unowed n r hn hlive inode content (howes _ _ _ h).1
  unmarked n r hn hlive := by
    have hnone := hs.unmarked n r hn hlive
    refine eq_none_iff_forall_ne_some.mpr fun writtenAt h => ?_
    cases hnone.symm.trans (get_filter_eq_some.mp h).1
  alone := hs.alone
  idle := hs.idle
  reads k e content hk hreading inode content' h := hs.reads k e content hk hreading inode content' (howes _ _ _ h).1
  booting := hs.booting
  swept h := by
    obtain ⟨hover, hmarked⟩ := hswept h
    refine ⟨hover, fun sessionId inode hfile => ?_⟩
    obtain ⟨hfile, hp⟩ := get_filter_eq_some.mp hfile
    obtain ⟨writtenAt, hmarker, hq⟩ := hmarked sessionId inode hfile hp
    exact ⟨writtenAt, get_filter_eq_some.mpr ⟨hmarker, hq⟩⟩

variable {sessionId : Str}

/-- A recording is removed with its marker, and is not owed any more. -/
theorem Invariant.remove (hs : Invariant s) {l : List Note}
    (hnone : ∀ inode content, ¬ Owes l sessionId inode content)
    (hsame : ∀ sessionId' inode content, sessionId' ≠ sessionId →
      (Owes l sessionId' inode content ↔ Owes s.history sessionId' inode content))
    (hswept : JustSwept l → JustSwept s.history) :
    Invariant { s with
      recordings := s.recordings.delete sessionId, markers := s.markers.delete sessionId, history := l } := by
  refine hs.sweep (p := fun k _ => k ≠ sessionId) (q := fun k _ => k ≠ sessionId)
    (fun sessionId' inode content h => ?_)
    (fun sessionId' _ _ _ hne h => (hsame _ _ _ (of_decide_eq_true hne)).mpr h) fun h => ?_
  · have hne : sessionId' ≠ sessionId := by
      rintro rfl
      exact hnone inode content h
    exact ⟨(hsame _ _ _ hne).mp h, decide_eq_true hne, fun _ _ => decide_eq_true hne⟩
  · obtain ⟨hover, hmarked⟩ := hs.swept (hswept h)
    refine ⟨hover, fun sessionId' inode hfile hne => ?_⟩
    obtain ⟨writtenAt, hmarker⟩ := hmarked sessionId' inode hfile
    exact ⟨writtenAt, hmarker, hne⟩

/-- The file of a recorder that wrote nothing is unlinked. -/
theorem Invariant.unlink (hs : Invariant s)
    (hnone : ∀ inode content, ¬ Owes s.history sessionId inode content) : Invariant (s.unlink sessionId) := by
  have hswept := hs.sweep (p := fun k _ => k ≠ sessionId) (q := fun _ _ => true) (l := s.history)
    (fun sessionId' inode content h => ⟨h, decide_eq_true fun heq => hnone inode content (heq ▸ h), fun _ _ => rfl⟩)
    (fun _ _ _ _ _ h => h) fun h => ⟨(hs.swept h).1, fun sessionId' inode hfile _ => by
      simpa using (hs.swept h).2 sessionId' inode hfile⟩
  rwa [OrderedMap.filter_true] at hswept

/-- Recorders may stop writing, and be over. One that writes has its file already. -/
theorem Invariant.recorders (hs : Invariant s) {rs : List Recorder}
    (hrecorders : ∀ (m : Nat) r, rs[m]? = some r → ∃ r₀, s.recorders[m]? = some r₀ ∧ r.sessionId = r₀.sessionId ∧
      (r.ended = false → r₀.ended = false) ∧ ∀ inode offset, r.fd = some (inode, offset) →
        r.ended = r₀.ended ∧ ∃ offset₀, r₀.fd = some (inode, offset₀)) : Invariant { s with recorders := rs } := by
  have hdead : (∀ (n : Nat) r, s.recorders[n]? = some r → r.ended) →
      ∀ (n : Nat) r, rs[n]? = some r → r.ended := by
    intro hover m r hm
    obtain ⟨r₀, hr₀, -, hlive₀, -⟩ := hrecorders m r hm
    by_contra h
    simp [hover m r₀ hr₀] at hlive₀
    exact h hlive₀
  refine { hs with
    writes := fun m r inode offset hm hfd => ?_
    unowed := fun m r hm hlive => ?_
    unmarked := fun m r hm hlive => ?_
    alone := fun m m' r r' hm hm' hlive hlive' heq => ?_
    idle := fun m r hm hlive k e hk heq => ?_
    booting := fun hboot => hdead (hs.booting hboot)
    swept := fun hswept => ⟨hdead (hs.swept hswept).1, (hs.swept hswept).2⟩ }
  · obtain ⟨r₀, hr₀, hsame, -, hfd₀⟩ := hrecorders m r hm
    obtain ⟨hover, offset₀, hfd₀⟩ := hfd₀ inode offset hfd
    obtain ⟨hlive, hlt, hown⟩ := hs.writes m r₀ inode offset₀ hr₀ hfd₀
    exact ⟨hover.trans hlive, hlt, fun sessionId hfile => (hown sessionId hfile).trans hsame.symm⟩
  · obtain ⟨r₀, hr₀, hsame, hlive₀, -⟩ := hrecorders m r hm
    exact hsame ▸ hs.unowed m r₀ hr₀ (hlive₀ hlive)
  · obtain ⟨r₀, hr₀, hsame, hlive₀, -⟩ := hrecorders m r hm
    exact hsame ▸ hs.unmarked m r₀ hr₀ (hlive₀ hlive)
  · obtain ⟨r₀, hr₀, hsame, hlive₀, -⟩ := hrecorders m r hm
    obtain ⟨r₁, hr₁, hsame', hlive₁, -⟩ := hrecorders m' r' hm'
    exact hs.alone m m' r₀ r₁ hr₀ hr₁ (hlive₀ hlive) (hlive₁ hlive') (hsame.symm.trans (heq.trans hsame'))
  · obtain ⟨r₀, hr₀, hsame, hlive₀, -⟩ := hrecorders m r hm
    exact hs.idle m r₀ hr₀ (hlive₀ hlive) k e hk (heq.trans hsame)

theorem Invariant.update (hs : Invariant s) (n : Nat) {f : Recorder → Recorder}
    (hsession : ∀ r, (f r).sessionId = r.sessionId) (hover : ∀ r, r.ended → (f r).ended)
    (hfd : ∀ r, s.recorders[n]? = some r → (f r).fd = none) : Invariant (s.updateRecorder n f) := by
  refine hs.recorders fun m r hm => ?_
  obtain ⟨r', hr', rfl⟩ := of_getElem?_modify hm
  refine ⟨r', hr', ?_⟩
  split
  · rename_i heq
    subst heq
    refine ⟨hsession r', fun h => ?_, by simp [hfd r' hr']⟩
    by_contra h'
    rw [hover r' (by simpa using h')] at h
    cases h
  · exact ⟨rfl, id, fun _ _ h => ⟨rfl, _, h⟩⟩

theorem Invariant.finishWith (hs : Invariant s) {n : Nat} {r : Recorder} (hn : s.recorders[n]? = some r)
    (hlive : r.ended = false) (reason : StopReason) : Invariant (finishWith s n r reason) := by
  have hupdate := hs.update n (f := fun r => { r with stopped := r.stopped.or (some reason), fd := none })
    (fun _ => rfl) (fun _ => id) fun _ _ => rfl
  unfold Recording.finishWith
  split
  · exact hupdate
  · exact hupdate.unlink (hs.unowed n r hn hlive)

/-- A record goes to the file of the recorder, which nobody is owed. -/
theorem Invariant.write (hs : Invariant s) {n : Nat} {r : Recorder} {inode offset : Nat} (hn : s.recorders[n]? = some r)
    (hfd : r.fd = some (inode, offset)) {g : File → File} (hg : ∀ f, (g f).modifiedAt = s.now)
    {f : Recorder → Recorder}
    (hf : ∀ r, (f r).sessionId = r.sessionId ∧ (f r).ended = r.ended ∧ ∃ offset, (f r).fd = some (inode, offset)) :
    Invariant { s with files := s.files.modify inode g, recorders := s.recorders.modify n f } := by
  obtain ⟨hlive, hlt, hown⟩ := hs.writes n r inode offset hn hfd
  have hother : ∀ inode', inode' ≠ inode → (s.files.modify inode g)[inode']? = s.files[inode']? := by
    intro inode' hne
    simp [hne.symm]
  have howed : ∀ {sessionId inode' content'}, Owes s.history sessionId inode' content' → inode' ≠ inode := by
    rintro sessionId inode' content' h rfl
    have hsession := hown sessionId (hs.kept _ _ _ h).1
    exact hs.unowed n r hn hlive _ _ (hsession ▸ h)
  have hrecorders : Invariant { s with recorders := s.recorders.modify n f } := by
    refine hs.recorders fun m r' hm => ?_
    obtain ⟨r₀, hr₀, rfl⟩ := of_getElem?_modify hm
    refine ⟨r₀, hr₀, ?_⟩
    split
    · rename_i heq
      subst heq
      cases hn.symm.trans hr₀
      obtain ⟨hsession, hover, offset₀, hfd₀⟩ := hf r
      refine ⟨hsession, hover.symm.trans, fun inode' offset' h => ⟨hover, offset, ?_⟩⟩
      cases hfd₀.symm.trans h
      exact hfd
    · exact ⟨rfl, id, fun _ _ h => ⟨rfl, _, h⟩⟩
  refine { hrecorders with
    kept := fun sessionId inode' content' h => ?_
    marked := fun sessionId inode' content' h => ?_
    owed := fun sessionId writtenAt inode' hmarker hfile => ?_
    exists_file := fun sessionId inode' hfile => by simpa using hs.exists_file sessionId inode' hfile
    past := fun inode' => ?_
    writes := fun m r' inode' offset' hm hfd' => by simpa using hrecorders.writes m r' inode' offset' hm hfd' }
  · obtain ⟨hfile, hcontent⟩ := hs.kept sessionId inode' content' h
    exact ⟨hfile, by simpa [contentOf, hother inode' (howed h)] using hcontent⟩
  · obtain ⟨writtenAt, hmarker, hle⟩ := hs.marked sessionId inode' content' h
    exact ⟨writtenAt, hmarker, by simpa [modifiedAt, hother inode' (howed h)] using hle⟩
  · have h := hs.owed sessionId writtenAt inode' hmarker hfile
    simpa [contentOf, hother inode' (howed h)] using h
  · by_cases heq : inode' = inode
    · subst heq
      obtain ⟨file, hfile⟩ : ∃ file, s.files[inode']? = some file := ⟨_, getElem?_eq_getElem hlt⟩
      simp [modifiedAt, hfile, hg]
    · simpa [modifiedAt, hother inode' heq] using hs.past inode'

theorem Invariant.append (hs : Invariant s) {n : Nat} {r : Recorder} {inode offset : Nat}
    (hn : s.recorders[n]? = some r) (hfd : r.fd = some (inode, offset)) (keyframe frame : Bool) (record : List UInt8)
    (writes : Bool) : Invariant (append s n r inode offset keyframe frame record writes) := by
  unfold Recording.append
  split
  · exact hs.write hn hfd (fun _ => rfl) fun _ => ⟨rfl, rfl, _, rfl⟩
  · exact hs.finishWith hn (hs.writes n r inode offset hn hfd).1 .writeError

theorem Invariant.offer (hs : Invariant s) (n : Nat) (full : Bool) (incomingBytes : Nat) (record : List UInt8)
    (freeBytes : Option Nat) (writes : Bool) : Invariant (offer s n full incomingBytes record freeBytes writes) := by
  unfold Recording.offer
  split
  · rename_i r hn
    split
    · rename_i inode offset hfd
      split
      · exact hs
      · split
        · exact hs.finishWith hn (hs.writes n r inode offset hn hfd).1 _
        · exact hs.append hn hfd full true record writes
    · exact hs
  · exact hs

theorem Invariant.offerInput (hs : Invariant s) (n incomingBytes : Nat) (record : List UInt8) (freeBytes : Option Nat)
    (writes : Bool) : Invariant (offerInput s n incomingBytes record freeBytes writes) := by
  unfold Recording.offerInput
  split
  · rename_i r hn
    split
    · rename_i inode offset hfd
      split
      · exact hs.finishWith hn (hs.writes n r inode offset hn hfd).1 _
      · exact hs.append hn hfd false false record writes
    · exact hs
  · exact hs

/-! ## The end of a recording -/

/-- The key of a file is handed over, and its marker written. -/
theorem Invariant.hand (hs : Invariant s) {inode : Nat} (hfile : s.recordings.get sessionId = some inode)
    (hunowed : ∀ inode content, ¬ Owes s.history sessionId inode content)
    (hover : ∀ (n : Nat) r, s.recorders[n]? = some r → r.sessionId = sessionId → r.ended)
    (hidle : ∀ (k : Nat) e, s.entries[k]? = some e → e.sessionId = sessionId → ¬ e.IsActive) (n : Nat) :
    Invariant ((s.note (.handed n sessionId inode (s.contentOf inode))).writeConfirmedMarker sessionId true) := by
  have howes : ∀ {sessionId' inode' content'}, Owes (.handed n sessionId inode (s.contentOf inode) :: s.history)
      sessionId' inode' content' →
      (sessionId' = sessionId ∧ inode' = inode ∧ content' = s.contentOf inode) ∨
        sessionId' ≠ sessionId ∧ Owes s.history sessionId' inode' content' := by
    rintro sessionId' inode' content' (⟨m, heq⟩ | ⟨-, h⟩)
    · cases heq
      exact .inl ⟨rfl, rfl, rfl⟩
    · refine .inr ⟨?_, h⟩
      rintro rfl
      exact hunowed _ _ h
  have hlive : ∀ {m : Nat} {r : Recorder}, s.recorders[m]? = some r → r.ended = false → r.sessionId ≠ sessionId := by
    intro m r hm hlive heq
    simp [hover m r hm heq] at hlive
  refine { hs with
    kept := fun sessionId' inode' content' h => ?_
    marked := fun sessionId' inode' content' h => ?_
    owed := fun sessionId' writtenAt inode' hmarker hfile' => ?_
    unowed := fun m r hm hlive' inode' content' h => ?_
    unmarked := fun m r hm hlive' => (get_set_of_ne (hlive hm hlive')).trans (hs.unmarked m r hm hlive')
    reads := fun k e content hk hreading inode' content' h => ?_
    swept := fun h => False.elim h }
  · obtain ⟨rfl, rfl, rfl⟩ | ⟨-, h⟩ := howes h
    · exact ⟨hfile, rfl⟩
    · exact hs.kept sessionId' inode' content' h
  · obtain ⟨rfl, rfl, rfl⟩ | ⟨hne, h⟩ := howes h
    · exact ⟨s.now, get_set_self _ _ _, hs.past inode'⟩
    · obtain ⟨writtenAt, hmarker, hle⟩ := hs.marked sessionId' inode' content' h
      exact ⟨writtenAt, (get_set_of_ne hne).trans hmarker, hle⟩
  · by_cases heq : sessionId' = sessionId
    · subst heq
      cases hfile.symm.trans hfile'
      exact .inl ⟨n, rfl⟩
    · have hmarker' := (get_set_of_ne heq).symm.trans hmarker
      exact .inr ⟨id, hs.owed sessionId' writtenAt inode' hmarker' hfile'⟩
  · obtain ⟨heq, -, -⟩ | ⟨-, h⟩ := howes h
    · exact hlive hm hlive' heq
    · exact hs.unowed m r hm hlive' inode' content' h
  · obtain ⟨heq, -, -⟩ | ⟨-, h⟩ := howes h
    · exact absurd (.inr (by simp [hreading])) (hidle k e hk heq)
    · exact hs.reads k e content hk hreading inode' content' h

/-- What ends a recorder leaves of the rest. -/
theorem finishWith_rest (s : State) (n : Nat) (r : Recorder) (reason : StopReason) :
    (finishWith s n r reason).history = s.history ∧ (finishWith s n r reason).markers = s.markers ∧
      (finishWith s n r reason).entries = s.entries := by
  unfold finishWith
  split <;> exact ⟨rfl, rfl, rfl⟩

theorem finishWith_recorders (s : State) (n : Nat) (r : Recorder) (reason : StopReason) :
    (finishWith s n r reason).recorders =
      s.recorders.modify n fun r => { r with stopped := r.stopped.or (some reason), fd := none } := by
  unfold finishWith
  split <;> rfl

/-- A key that is handed over gets its marker, and no key is lost. -/
theorem Invariant.stopRecording (hs : Invariant s) (n : Nat) {delivery : Delivery} {marks : Bool}
    (hdelivery : ∀ r ∈ s.recorders[n]?, r.ended = false → r.wroteAnything →
      delivery ≠ .lost ∧ (delivery = .delivered → marks)) : Invariant (stopRecording s n delivery marks) := by
  unfold Recording.stopRecording
  split
  · rename_i r hn
    split
    · exact hs
    · rename_i hover
      have hlive : r.ended = false := by simpa using hover
      have hfinish := hs.finishWith hn hlive .sessionEnded
      have hclosed : ∀ r', (Recording.finishWith s n r .sessionEnded).recorders[n]? = some r' → r'.fd = none := by
        intro r' hr'
        rw [finishWith_recorders] at hr'
        obtain ⟨r₀, -, rfl⟩ := of_getElem?_modify hr'
        simp
      have hstop := hfinish.update n (f := fun r => { r with ended := true }) (fun _ => rfl) (fun _ _ => rfl)
        hclosed
      dsimp only
      split
      · rename_i hwrote
        obtain ⟨hhistory, hmarkers, hentries⟩ := finishWith_rest s n r .sessionEnded
        have hunowed : ∀ inode content,
            ¬ Owes (Recording.finishWith s n r .sessionEnded).history r.sessionId inode content :=
          hhistory ▸ hs.unowed n r hn hlive
        obtain ⟨hlost, hmarks⟩ := hdelivery r hn hlive hwrote
        unfold handOffRecording
        split
        · exact hstop.remove hunowed (fun _ _ _ _ => Iff.rfl) id
        · rename_i inode hfile
          split
          · exact hstop.remove hunowed (fun _ _ _ _ => Iff.rfl) id
          · exact absurd rfl hlost
          · rw [hmarks rfl]
            refine hstop.hand hfile hunowed (fun m r' hm heq => ?_) (fun k e hk heq => ?_) n
            · obtain ⟨r₁, hr₁, rfl⟩ := of_getElem?_modify hm
              split
              · rfl
              · rename_i hne
                rw [finishWith_recorders] at hr₁
                obtain ⟨r₀, hr₀, rfl⟩ := of_getElem?_modify hr₁
                simp only [hne] at heq ⊢
                by_contra hlive₀
                exact hne (hs.alone n m r r₀ hn hr₀ hlive (by simpa using hlive₀) heq.symm)
            · exact hs.idle n r hn hlive k e (by rw [← hentries]; exact hk) heq
      · exact hstop
  · exact hs

/-! ## Uploads -/

/-- Entries that are active keep clear of recorders, and read what is owed. -/
theorem Invariant.queueing (hs : Invariant s) {entries : List UploadEntry} (queue : Nat → Str → Option Nat)
    (uploaders : Nat) (uploader : Option Nat) (hidle : ∀ (k : Nat) e, entries[k]? = some e → e.IsActive →
      ∀ (n : Nat) r, s.recorders[n]? = some r → r.ended = false → e.sessionId ≠ r.sessionId)
    (hreads : ∀ (k : Nat) e content, entries[k]? = some e → e.reading = some content →
      ∀ inode content', Owes s.history e.sessionId inode content' → content = content') :
    Invariant { s with entries := entries, queue := queue, uploaders := uploaders, uploader := uploader } :=
  { hs with
    idle := fun n r hn hlive k e hk heq hactive => hidle k e hk hactive n r hn hlive heq
    reads := hreads }

theorem Invariant.clear (hs : Invariant s) {k : Nat} {e : UploadEntry} (hk : s.entries[k]? = some e)
    (hactive : e.IsActive) {n : Nat} {r : Recorder} (hn : s.recorders[n]? = some r) (hlive : r.ended = false) :
    e.sessionId ≠ r.sessionId :=
  fun heq => hs.idle n r hn hlive k e hk heq hactive

/-- An entry is changed that is active, or does not become so. -/
theorem Invariant.updateEntry (hs : Invariant s) (k : Nat) {f : UploadEntry → UploadEntry}
    (hsession : ∀ e, (f e).sessionId = e.sessionId)
    (hactive : ∀ e, s.entries[k]? = some e → (f e).IsActive → e.IsActive)
    (hreading : ∀ e content, s.entries[k]? = some e → (f e).reading = some content → e.reading = some content ∨
      ∀ inode content', Owes s.history e.sessionId inode content' → content = content') :
    Invariant (s.updateEntry k f) := by
  refine hs.queueing s.queue s.uploaders s.uploader (fun m e hm ha n r hn hlive => ?_)
    fun m e content hm hreads inode content' h => ?_
  · obtain ⟨e₀, he₀, rfl⟩ := of_getElem?_modify hm
    split at ha
    · rename_i heq
      subst heq
      simpa [hsession] using hs.clear he₀ (hactive e₀ he₀ ha) hn hlive
    · rename_i hne
      simpa [hne] using hs.clear he₀ ha hn hlive
  · obtain ⟨e₀, he₀, rfl⟩ := of_getElem?_modify hm
    split at hreads
    · rename_i heq
      subst heq
      simp only [if_true, hsession] at h
      rcases hreading e₀ content he₀ hreads with hold | hnew
      · exact hs.reads k e₀ content he₀ hold inode content' h
      · exact hnew inode content' h
    · rename_i hne
      simp only [hne] at h
      exact hs.reads m e₀ content he₀ hreads inode content' h

/-- A session that is not owed any more is removed, with a note that says why. -/
theorem Invariant.settle (hs : Invariant s) {r : Note} (habout : r.IsAbout sessionId)
    (hreleases : ∀ inode content, Owes s.history sessionId inode content → r.releases sessionId content) :
    Invariant ((s.note r).removeRecording sessionId) := by
  refine hs.remove (l := r :: s.history) (fun inode content => ?_) (fun sessionId' inode content hne => ?_) fun h => ?_
  · refine not_owes_cons (hreleases inode) fun n sessionId' inode' content' heq => ?_
    rw [heq] at habout
    cases habout
  · exact owes_cons_of_ne habout hne
  · cases r with
    | swept | requested => cases habout
    | _ => cases h

theorem Invariant.reject (hs : Invariant s) (u : Nat) (sessionId : Str) : Invariant (reject s u sessionId) := by
  unfold Recording.reject
  split
  · exact hs
  · rename_i k hk
    have hdequeue : Invariant (dequeue s u sessionId) := { hs with }
    have hupdate := hdequeue.updateEntry k (f := fun e => { e with timer := none }) (fun _ => rfl)
      (fun _ _ h => .inr (h.resolve_left (by simp))) fun _ _ _ h => .inl h
    exact hupdate.settle (r := .rejected sessionId) rfl fun _ _ _ => rfl

/-- An entry is added. -/
theorem Invariant.addEntry (hs : Invariant s) (e : UploadEntry) (queue : Nat → Str → Option Nat)
    (hreading : e.reading = none)
    (hover : e.IsActive → ∀ r ∈ s.recorders, r.sessionId = e.sessionId → r.ended) :
    Invariant { s with entries := s.entries ++ [e], queue := queue } := by
  refine hs.queueing queue s.uploaders s.uploader (fun k e' hk hactive n r hn hlive => ?_)
    fun k e' content hk hreads inode content' h => ?_
  · rcases of_getElem?_concat hk with hk | ⟨-, rfl⟩
    · exact hs.clear hk hactive hn hlive
    · intro heq
      simp [hover hactive r (mem_of_getElem? hn) heq.symm] at hlive
  · rcases of_getElem?_concat hk with hk | ⟨-, rfl⟩
    · exact hs.reads k e' content hk hreads inode content' h
    · simp [hreading] at hreads

/-- An upload is planned for a session that nobody records. -/
theorem Invariant.enqueue (hs : Invariant s) (u : Nat) (url : Str)
    (hover : ∀ r ∈ s.recorders, r.sessionId = sessionId → r.ended) : Invariant (enqueue s u sessionId url) := by
  unfold Recording.enqueue
  dsimp only
  split
  · rename_i k hk
    have hupdate := hs.updateEntry k (f := fun e => { e with timer := none }) (fun _ => rfl)
      (fun _ _ h => .inr (h.resolve_left (by simp))) fun _ _ _ h => .inl h
    exact hupdate.addEntry _ _ rfl fun _ => hover
  · exact hs.addEntry _ _ rfl fun _ => hover

theorem Invariant.resume (hs : Invariant s) (u : Nat) (sessionIds : List Str) :
    Invariant (resume s u sessionIds) ∧ (resume s u sessionIds).recorders = s.recorders := by
  induction sessionIds generalizing s with
  | nil => exact ⟨hs, rfl⟩
  | cons sessionId rest ih =>
    unfold resume
    split
    · exact ih hs
    · have hadd := hs.addEntry ⟨u, sessionId, none, 0, none, none⟩
        (Function.update s.queue u (Function.update (s.queue u) sessionId (some s.entries.length))) rfl
        fun hactive => absurd hactive (by simp [UploadEntry.IsActive])
      exact ih (hadd.rewrite (l := .requested sessionId :: s.history) (fun _ _ _ => owes_cons_neutral trivial) id)

theorem Invariant.resumePendingUploads (hs : Invariant s) :
    Invariant (resumePendingUploads s) ∧ (resumePendingUploads s).recorders = s.recorders := by
  have hs' : Invariant { s with uploaders := s.uploaders + 1, uploader := some s.uploaders } := { hs with }
  exact hs'.resume _ _

/-- A destination is taken for a session that nobody records. -/
theorem Invariant.handleRecordingUpload (hs : Invariant s) {accepted : Bool} {url : Str}
    (hover : accepted → url ≠ [] → ∀ r ∈ s.recorders, r.sessionId = sessionId → r.ended) :
    Invariant (handleRecordingUpload s sessionId accepted url) := by
  have hanswer : ∀ (s' : State) u, Invariant s' → s'.recorders = s.recorders →
      Invariant (if !accepted || url = [] then Recording.reject s' u sessionId
        else Recording.enqueue s' u sessionId url) := by
    intro s' u hs' hrecorders
    split
    · exact hs'.reject _ _
    · rename_i haccepted
      simp only [Bool.or_eq_true, Bool.not_eq_true', decide_eq_true_eq, not_or, Bool.not_eq_false] at haccepted
      exact hs'.enqueue _ _ (hrecorders ▸ hover haccepted.1 haccepted.2)
  unfold Recording.handleRecordingUpload
  split
  · exact hs
  · by_cases huploader : s.uploader.isNone
    · simp only [huploader]
      split
      · exact hs.resumePendingUploads.1
      · exact hanswer _ _ hs.resumePendingUploads.1 hs.resumePendingUploads.2
    · simp only [huploader]
      split
      · exact hs
      · exact hanswer s _ hs rfl

theorem Invariant.attempt (hs : Invariant s) (k : Nat) : Invariant (attempt s k) := by
  have hquiet : ∀ s' : State, Invariant s' → Invariant (s'.updateEntry k fun e => { e with timer := none }) :=
    fun s' hs' => hs'.updateEntry k (fun _ => rfl) (fun _ _ h => .inr (h.resolve_left (by simp))) fun _ _ _ h => .inl h
  unfold Recording.attempt
  split
  · rename_i e hk
    split
    · rename_i hdue
      split
      · exact hquiet s hs
      · split
        · exact hquiet _ { hs with }
        · rename_i inode hfile
          refine hs.updateEntry k (fun _ => rfl) (fun e' hk' _ => ?_) fun e' content hk' hreading => .inr ?_
          · cases hk.symm.trans hk'
            refine .inl fun hnone => ?_
            simp [hnone] at hdue
          · cases hk.symm.trans hk'
            intro inode' content' h
            obtain ⟨hfile', hcontent⟩ := hs.kept _ _ _ h
            cases hfile.symm.trans hfile'
            exact (some.inj hreading).symm.trans hcontent
    · exact hs
  · exact hs

theorem Invariant.putDone (hs : Invariant s) (k : Nat) (outcome : UploadOutcome) : Invariant (putDone s k outcome) := by
  have hquiet : ∀ s' : State, Invariant s' → Invariant (s'.updateEntry k fun e => { e with reading := none }) :=
    fun s' hs' => hs'.updateEntry k (fun _ => rfl) (fun _ _ h => .inl (h.resolve_right (by simp))) fun _ _ _ h => by
      cases h
  unfold Recording.putDone
  split
  · rename_i e hk
    split
    · exact hs
    · rename_i content hreading
      have hdequeue := hquiet (dequeue s e.uploader e.sessionId) { hs with }
      split
      · refine hdequeue.settle (r := .uploaded e.sessionId content) rfl fun inode content' h => ⟨rfl, ?_⟩
        exact hs.reads k e content hk hreading inode content' h
      · split
        · have hupdate := hs.updateEntry k (f := fun e => { e with reading := none, url := none }) (fun _ => rfl)
            (fun _ _ h => .inl (h.resolve_right (by simp))) fun _ _ _ h => by cases h
          exact hupdate.rewrite (l := .requested e.sessionId :: s.history) (fun _ _ _ => owes_cons_neutral trivial) id
        · split
          · exact hdequeue.settle (r := .abandoned e.sessionId) rfl fun _ _ _ => rfl
          · refine hs.updateEntry k (fun _ => rfl) (fun e' hk' _ => ?_) fun _ _ _ h => by cases h
            cases hk.symm.trans hk'
            exact .inr (by simp [hreading])
  · exact hs

/-! ## Sweeps -/

theorem owes_expired (es : List (Str × Nat)) {l : List Note} {inode : Nat} {content : List UInt8} :
    Owes ((es.map fun e => .expired e.1) ++ l) sessionId inode content ↔
      (∀ e ∈ es, e.1 ≠ sessionId) ∧ Owes l sessionId inode content := by
  induction es with
  | nil => simp
  | cons e es ih => simp [Owes, Note.releases, ih, and_assoc]

/-- A marker is no older than its recording, and does not expire before it. -/
theorem Invariant.purgeExpired (hs : Invariant s) : Invariant s.purgeExpired := by
  have hfresh : ∀ {inode writtenAt}, s.modifiedAt inode ≤ writtenAt →
      (!s.isExpired (s.modifiedAt inode)) → (!s.isExpired writtenAt) := by
    intro inode writtenAt hle h
    simp only [isExpired, Bool.not_eq_true', decide_eq_false_iff_not] at h ⊢
    omega
  refine hs.sweep (fun sessionId inode content h => ?_) (fun sessionId inode content hfile hp h => ?_) fun h => ?_
  · obtain ⟨hnames, h⟩ := (owes_expired _).mp h
    have hmem := get_eq_some_iff.mp (hs.kept _ _ _ h).1
    have hp : (!s.isExpired (s.modifiedAt inode)) := by
      by_contra hp
      exact hnames _ (mem_filter.mpr ⟨hmem, by simpa using hp⟩) rfl
    exact ⟨h, hp, fun writtenAt hle => hfresh hle hp⟩
  · refine (owes_expired _).mpr ⟨fun e he heq => ?_, h⟩
    obtain ⟨hmem, hexpired⟩ := mem_filter.mp he
    subst heq
    rw [eq_of_mem hmem (get_eq_some_iff.mp hfile)] at hexpired
    simp [hexpired] at hp
  · -- No note of an expiry stands before the sweep.
    cases hl : s.recordings.entries.filter fun e => s.isExpired (s.modifiedAt e.2) with
    | cons e es =>
      rw [hl] at h
      cases h
    | nil =>
      rw [hl] at h
      obtain ⟨hover, hmarked⟩ := hs.swept h
      refine ⟨hover, fun sessionId inode hfile hp => ?_⟩
      obtain ⟨writtenAt, hmarker⟩ := hmarked sessionId inode hfile
      obtain ⟨writtenAt', hmarker', hle⟩ := hs.marked _ _ _ (hs.owed _ _ _ hmarker hfile)
      cases hmarker.symm.trans hmarker'
      exact ⟨writtenAt, hmarker, hfresh hle hp⟩

theorem Invariant.purgeUnconfirmed (hs : Invariant s)
    (hover : ∀ (n : Nat) r, s.recorders[n]? = some r → r.ended) : Invariant (purgeUnconfirmed s) := by
  refine hs.sweep (fun sessionId inode content h => ?_) (fun sessionId inode content _ _ h => ?_) fun _ => ⟨hover, ?_⟩
  · have h' := (owes_cons_neutral (r := .swept) trivial).mp h
    obtain ⟨writtenAt, hmarker, -⟩ := hs.marked _ _ _ h'
    have hp : (s.markers.get sessionId).isSome := by simp [hmarker]
    refine ⟨h', hp, fun _ _ => ?_⟩
    rw [isSome_iff_exists]
    exact ⟨inode, get_filter_eq_some.mpr ⟨(hs.kept _ _ _ h').1, hp⟩⟩
  · exact (owes_cons_neutral (r := .swept) trivial).mpr h
  · intro sessionId inode hfile hp
    obtain ⟨writtenAt, hmarker⟩ := isSome_iff_exists.mp hp
    refine ⟨writtenAt, hmarker, ?_⟩
    rw [isSome_iff_exists]
    exact ⟨inode, get_filter_eq_some.mpr ⟨hfile, hp⟩⟩

/-- At the first message of a process no recorder is left. -/
theorem Invariant.initRcp (hs : Invariant s) : Invariant (initRcp s) := by
  unfold Recording.initRcp
  split
  · exact hs
  · rename_i hboot
    have hstarted : Invariant { s with initialized := true } := { hs with booting := fun h => by cases h }
    exact (hstarted.purgeUnconfirmed (hs.booting (by simpa using hboot))).resumePendingUploads.1

/-- What was in memory is gone, what is on disk stays. -/
theorem Invariant.restart (hs : Invariant s) : Invariant (restart s) := by
  have hover : ∀ (n : Nat) r, (Recording.restart s).recorders[n]? = some r → r.fd = none ∧ r.ended := by
    intro n r hn
    obtain ⟨r₀, -, rfl⟩ := map_eq_some_iff.mp (getElem?_map.symm.trans hn)
    exact ⟨rfl, rfl⟩
  have hentry : ∀ (k : Nat) e, (Recording.restart s).entries[k]? = some e → e.reading = none := by
    intro k e hk
    obtain ⟨e₀, -, rfl⟩ := map_eq_some_iff.mp (getElem?_map.symm.trans hk)
    rfl
  have hrestart : Invariant { s with history := .restarted :: s.history } :=
    hs.rewrite (fun _ _ _ => owes_cons_neutral trivial) fun h => False.elim h
  have hdead : ∀ {n : Nat} {r : Recorder} {P : Prop}, (Recording.restart s).recorders[n]? = some r →
      r.ended = false → P := by
    intro n r P hn hlive
    simp [(hover n r hn).2] at hlive
  exact
    { hrestart with
      writes := fun n r inode offset hn hfd => by simp [(hover n r hn).1] at hfd
      unowed := fun n r hn hlive => hdead hn hlive
      unmarked := fun n r hn hlive => hdead hn hlive
      alone := fun n m r r' hn _ hlive => hdead hn hlive
      idle := fun n r hn hlive => hdead hn hlive
      reads := fun k e content hk hreading => by simp [hentry k e hk] at hreading
      booting := fun _ n r hn => (hover n r hn).2
      swept := fun h => False.elim h }

/-! ## The start of a recording -/

/-- Nothing is left of a recording under the name. -/
structure State.IsFree (s : State) (sessionId : Str) : Prop where
  unnamed : s.recordings.get sessionId = none
  unmarked : s.markers.get sessionId = none
  ended : ∀ r ∈ s.recorders, r.sessionId = sessionId → r.ended = true
  idle : ∀ e ∈ s.entries, e.sessionId = sessionId → ¬ e.IsActive

/-- A new file gets a recorder of its own. -/
theorem Invariant.opened (hs : Invariant s) (hboot : s.initialized)
    (hfree : s.IsFree sessionId) :
    Invariant { s with
      files := s.files ++ [⟨[], s.now⟩]
      recordings := s.recordings.set sessionId s.files.length
      recorders := s.recorders ++ [⟨sessionId, some (s.files.length, 0), 0, 0, 0, none, false, false⟩]
      history := .opened sessionId :: s.history } := by
  have howes : ∀ {sessionId' inode content}, Owes (.opened sessionId :: s.history) sessionId' inode content →
      Owes s.history sessionId' inode content := (owes_cons_neutral (r := .opened sessionId) trivial).mp
  have hfile : ∀ {sessionId' inode}, s.recordings.get sessionId' = some inode →
      sessionId' ≠ sessionId ∧ (s.files ++ [⟨[], s.now⟩])[inode]? = s.files[inode]? := by
    intro sessionId' inode hfile
    refine ⟨?_, getElem?_append_left (hs.exists_file _ _ hfile)⟩
    rintro rfl
    cases hfree.unnamed.symm.trans hfile
  have hget : ∀ {sessionId' inode}, (s.recordings.set sessionId s.files.length).get sessionId' = some inode →
      sessionId' = sessionId ∧ inode = s.files.length ∨
        sessionId' ≠ sessionId ∧ s.recordings.get sessionId' = some inode := by
    intro sessionId' inode h
    by_cases heq : sessionId' = sessionId
    · subst heq
      exact .inl ⟨rfl, (some.inj ((get_set_self _ _ _).symm.trans h)).symm⟩
    · exact .inr ⟨heq, (get_set_of_ne heq).symm.trans h⟩
  have hunowed : ∀ inode content, ¬ Owes s.history sessionId inode content := by
    intro inode content h
    cases hfree.unnamed.symm.trans (hs.kept _ _ _ h).1
  have hold : ∀ {n : Nat} {r : Recorder}, s.recorders[n]? = some r → r.ended = false → r.sessionId ≠ sessionId := by
    intro n r hn hlive heq
    simp [hfree.ended r (mem_of_getElem? hn) heq] at hlive
  refine
    { kept := fun sessionId' inode content h => ?_
      marked := fun sessionId' inode content h => ?_
      owed := fun sessionId' writtenAt inode hmarker hname => ?_
      exists_file := fun sessionId' inode hname => ?_
      distinct := fun sessionId' sessionId'' inode hname hname' => ?_
      past := fun inode => ?_
      writes := fun n r inode offset hn hfd => ?_
      unowed := fun n r hn hlive inode content h => ?_
      unmarked := fun n r hn hlive => ?_
      alone := fun n m r r' hn hm hlive hlive' heq => ?_
      idle := fun n r hn hlive k e hk heq => ?_
      reads := fun k e content hk hreading inode content' h => hs.reads k e content hk hreading inode content' (howes h)
      booting := fun h => by cases hboot.symm.trans h
      swept := fun h => False.elim h }
  · obtain ⟨hname, hcontent⟩ := hs.kept _ _ _ (howes h)
    obtain ⟨hne, hsame⟩ := hfile hname
    exact ⟨(get_set_of_ne hne).trans hname, by simpa [contentOf, hsame] using hcontent⟩
  · obtain ⟨writtenAt, hmarker, hle⟩ := hs.marked _ _ _ (howes h)
    obtain ⟨-, hsame⟩ := hfile (hs.kept _ _ _ (howes h)).1
    exact ⟨writtenAt, hmarker, by simpa [modifiedAt, hsame] using hle⟩
  · obtain ⟨rfl, -⟩ | ⟨-, hname⟩ := hget hname
    · cases hfree.unmarked.symm.trans hmarker
    · have h := hs.owed _ _ _ hmarker hname
      refine (owes_cons_neutral (r := .opened sessionId) trivial).mpr ?_
      simpa [contentOf, (hfile hname).2] using h
  · obtain ⟨-, rfl⟩ | ⟨-, hname⟩ := hget hname
    · simp
    · have hlt := hs.exists_file _ _ hname
      simp only [length_append, length_singleton]
      omega
  · -- The inode is new, and no other name leads to it.
    obtain ⟨rfl, rfl⟩ | ⟨-, hname⟩ := hget hname
    · obtain ⟨rfl, -⟩ | ⟨-, hname'⟩ := hget hname'
      · rfl
      · exact absurd (hs.exists_file _ _ hname') (lt_irrefl _)
    · obtain ⟨-, rfl⟩ | ⟨-, hname'⟩ := hget hname'
      · exact absurd (hs.exists_file _ _ hname) (lt_irrefl _)
      · exact hs.distinct _ _ _ hname hname'
  · have hpast := hs.past inode
    cases hnew : (s.files ++ [⟨[], s.now⟩])[inode]? with
    | none => simp [modifiedAt, hnew]
    | some f =>
      obtain hf | ⟨-, rfl⟩ := of_getElem?_concat hnew
      · simpa [modifiedAt, hnew, hf] using hpast
      · simp [modifiedAt, hnew]
  · obtain hn | ⟨-, rfl⟩ := of_getElem?_concat hn
    · obtain ⟨hlive, hlt, hown⟩ := hs.writes n r inode offset hn hfd
      refine ⟨hlive, by simp only [length_append, length_singleton]; omega, fun sessionId' hname => ?_⟩
      obtain ⟨-, rfl⟩ | ⟨-, hname⟩ := hget hname
      · exact absurd hlt (lt_irrefl _)
      · exact hown sessionId' hname
    · cases hfd
      refine ⟨rfl, by simp, fun sessionId' hname => ?_⟩
      obtain ⟨rfl, -⟩ | ⟨-, hname⟩ := hget hname
      · rfl
      · exact absurd (hs.exists_file _ _ hname) (lt_irrefl _)
  · obtain hn | ⟨-, rfl⟩ := of_getElem?_concat hn
    · exact hs.unowed n r hn hlive inode content (howes h)
    · exact hunowed inode content (howes h)
  · obtain hn | ⟨-, rfl⟩ := of_getElem?_concat hn
    · exact hs.unmarked n r hn hlive
    · exact hfree.unmarked
  · obtain hn | ⟨rfl, rfl⟩ := of_getElem?_concat hn
    · obtain hm | ⟨-, rfl⟩ := of_getElem?_concat hm
      · exact hs.alone n m r r' hn hm hlive hlive' heq
      · exact absurd heq (hold hn hlive)
    · obtain hm | ⟨rfl, -⟩ := of_getElem?_concat hm
      · exact absurd heq.symm (hold hm hlive')
      · rfl
  · obtain hn | ⟨-, rfl⟩ := of_getElem?_concat hn
    · exact hs.idle n r hn hlive k e hk heq
    · exact hfree.idle e (mem_of_getElem? hk) heq

theorem Invariant.start (hs : Invariant s) {freeBytes : Option Nat} {bufferBytes : Nat} {opens : Bool}
    (hfree : s.initialized → canStart freeBytes bufferBytes = none → opens →
      s.purgeExpired.IsFree sessionId) : Invariant (start s sessionId freeBytes bufferBytes opens) := by
  unfold Recording.start
  split
  · exact hs
  · rename_i hboot
    split
    · exact hs.purgeExpired
    · rename_i hstarts
      simp only [Bool.or_eq_true, isSome_iff_ne_none, ne_eq, Bool.not_eq_true', not_or, not_not,
        Bool.not_eq_false] at hstarts
      have hfree' := hfree (by simpa using hboot) hstarts.1 hstarts.2
      have hopened := hs.purgeExpired.opened (by simpa [State.purgeExpired] using hboot) hfree'
      simpa [openFile, hfree'.unnamed, note] using hopened

end Operations

/-! ## Runs -/

/-- A name is recorded again when nothing is left of it, a key that is sent arrives and is marked, and a
destination does not come while its name is recorded. -/
def Undisturbed (s : State) : Event → Prop
  | .start sessionId freeBytes bufferBytes opens =>
    s.initialized = true → canStart freeBytes bufferBytes = none → opens = true → s.purgeExpired.IsFree sessionId
  | .stop n delivery marks =>
    ∀ r ∈ s.recorders[n]?, r.ended = false → r.wroteAnything = true →
      delivery ≠ .lost ∧ (delivery = .delivered → marks = true)
  | .answer sessionId accepted url =>
    accepted = true → url ≠ [] → ∀ r ∈ s.recorders, r.sessionId = sessionId → r.ended = true
  | _ => True

instance (e : UploadEntry) : Decidable e.IsActive := inferInstanceAs (Decidable (_ ∨ _))

instance (s : State) (sessionId : Str) : Decidable (s.IsFree sessionId) :=
  decidable_of_iff
    (s.recordings.get sessionId = none ∧ s.markers.get sessionId = none ∧
      (∀ r ∈ s.recorders, r.sessionId = sessionId → r.ended = true) ∧
      ∀ e ∈ s.entries, e.sessionId = sessionId → ¬ e.IsActive)
    ⟨fun ⟨hname, hmarker, hover, hidle⟩ => ⟨hname, hmarker, hover, hidle⟩,
      fun h => ⟨h.unnamed, h.unmarked, h.ended, h.idle⟩⟩

instance (s : State) : ∀ e, Decidable (Undisturbed s e)
  | .start .. => inferInstanceAs (Decidable (_ → _ → _ → _))
  | .stop n .. => inferInstanceAs (Decidable (∀ r ∈ s.recorders[n]?, _))
  | .answer .. => inferInstanceAs (Decidable (_ → _ → ∀ r ∈ s.recorders, _))
  | .init | .frame .. | .input .. | .timer _ | .put .. | .restart | .tick _ => inferInstanceAs (Decidable True)

theorem Invariant.step {s : State} (hs : Invariant s) {e : Event} (he : Undisturbed s e) : Invariant (step s e) := by
  cases e with
  | init => exact hs.initRcp
  | start => exact hs.start he
  | frame => exact hs.offer ..
  | input => exact hs.offerInput ..
  | stop n => exact hs.stopRecording n he
  | answer => exact hs.handleRecordingUpload he
  | timer k => exact hs.attempt k
  | put k outcome => exact hs.putDone k outcome
  | restart => exact hs.restart
  | tick d => exact { hs with past := fun inode => (hs.past inode).trans (Nat.le_add_right _ _) }

theorem invariant_init : Invariant machine.init := by
  constructor <;> simp [machine, Owes, get_eq_some_iff, modifiedAt]

/-- Along every run that is not disturbed, finished recordings are kept apart until they are delivered. -/
theorem always_preserved {tr : List Event} (h : machine.Guarded Undisturbed tr) : machine.Always Preserved tr :=
  (h.always invariant_init fun _ _ hs he => hs.step he).mono fun _ => Preserved.of_invariant

def closedRun : List Event :=
  [.init, .start (text "s-1") none 0 true, .frame 0 true 3 [1, 2, 3] none true, .stop 0 .delivered true,
    .answer (text "s-1") true (text "https://bucket/s-1"), .tick UPLOAD_DELAY_MS, .timer 0, .put 0 .ok, .restart, .init]

theorem always_preserved_closedRun : machine.Always Preserved closedRun :=
  always_preserved (Machine.guarded_iff_guardedFrom.mpr (by decide))

/-- The session is rebuilt while its recording waits, and the recording is truncated. -/
def rebuiltRun : List Event :=
  [.init, .start (text "s-1") none 0 true, .frame 0 true 3 [1, 2, 3] none true, .stop 0 .delivered true,
    .start (text "s-1") none 0 true]

theorem not_always_preserved_rebuiltRun : ¬ machine.Always Preserved rebuiltRun := by
  intro h
  have howes : Owes (machine.run rebuiltRun).history (text "s-1") 0 [1, 2, 3] :=
    .inr ⟨id, .inl ⟨0, rfl⟩⟩
  have hkept := (h.last.kept _ _ _ howes).2
  exact absurd hkept (by decide)

end Rcp.Recording
