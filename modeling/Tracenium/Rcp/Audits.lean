-- SUMMARY: When every transfer that a file session began to audit ends with one audit.
import Tracenium.Lib.Ledger
import Tracenium.Rcp.Uploads

/-!
`started` opens a transfer, and any other status closes it. The end of the session drops the uploads that are still
registered.
-/

open OrderedMap hiding size
open Utf16 Bool Option List Nat

namespace Rcp

open TransferStatus Iff Ledger

namespace FileSession

variable {platform : Platform} (c : Endpoint platform) (s : FileSession platform)

/-! ## The ledger of a session -/

def entryOf (r : Nat × FileTransferAuditPayload) : Nat × LedgerEntry :=
  (r.1, if r.2.status = .started then .opens else .closes)

def Active (t : Nat) : Prop :=
  ∃ id upload, s.uploads.get id = some t ∧ s.states t = some upload ∧ upload.hash.digested = false

def Running (t : Nat) : Prop :=
  ∃ d, s.downloads.get t = some d ∧ d.stage.isStat = false

def ledger : Ledger Nat where
  log := s.audits.map entryOf
  outstanding := fun t => Active s t ∨ (s.finishing.get t).isSome = true ∨ Running s t

def active (id : Str) : Bool := (s.registered id).any fun (_, upload) => !upload.hash.digested

/-- An upload gets its staged file. -/
def accepts (id path : Str) (size : Size) (now : Now platform) : Bool :=
  !size.exceeds (maxUploadBytes now) &&
    match c.jail.check c.host now.fs (.str path) with
    | .allowed _ => (s.disk.openStaged c.host id s.next now.openError).isOk
    | .denied _ _ => false

/-- An event takes no entry away from an upload that was not finished, and none that is being
finished is stopped. -/
def accountsFor (s : FileSession platform) : Event platform → Bool
  | .message m now =>
    s.disposed || s.closed || !isTransferId m.transferId ||
      match m with
      | .upload id path size => !(active s id && accepts c s id path size now)
      | .chunk id data => (s.registered id).all fun (_, upload) =>
        !upload.hash.digested || upload.cancelled || upload.received + data.length ≤ maxUploadBytes now
      | _ => true
  | .mkdirDone t (some _) => (s.finishing.get t).all fun f =>
    match f.stage with
    | .mkdir => !active s f.transferId
    | _ => true
  | .renameDone t => (s.finishing.get t).all fun f =>
    match f.stage with
    | .renamed _ => !active s f.transferId
    | _ => true
  | .closed => s.uploads.entries.all fun e => !active s e.1
  | .dispose => s.disposed || s.uploads.entries.all fun e => !active s e.1
  | _ => true

def AccountsFor (s : FileSession platform) (e : Event platform) : Prop := accountsFor c s e = true

instance (s : FileSession platform) (e : Event platform) : Decidable (AccountsFor c s e) :=
  inferInstanceAs (Decidable (accountsFor c s e = true))

/-! ## Books -/

structure Books : Prop where
  fresh : ∀ t upload, s.states t = some upload → t < s.next
  known : ∀ r ∈ s.audits, r.1 < s.next
  asked : ∀ t d, s.downloads.get t = some d → t < s.next ∧ s.states t = none ∧
    (d.stage.isStat = true → ∀ r ∈ s.audits, r.1 ≠ t)
  named : ∀ id t, s.uploads.get id = some t → ∃ upload, s.states t = some upload ∧ upload.tmpPath = id
  finishing : ∀ t f, s.finishing.get t = some f →
    ∃ upload, s.states t = some upload ∧ upload.hash.digested = true ∧ upload.tmpPath = f.transferId
  pending : ∀ id t upload, s.uploads.get id = some t → s.states t = some upload →
    upload.hash.digested = true → (s.finishing.get t).isSome = true
  unclosed : ∀ t, Active s t → ∀ r ∈ s.audits, r.1 = t → r.2.status = .started
  ended : s.closed = true ∨ s.disposed = true → ∀ id, s.uploads.get id = none

section Books

variable {c s}

theorem books_opened : Books (opened : FileSession platform) where
  fresh := nofun
  known := nofun
  asked := nofun
  named := nofun
  finishing := nofun
  pending := nofun
  unclosed := fun _ h => by obtain ⟨_, _, h, -⟩ := h; cases h
  ended := fun _ _ => rfl

variable {t : Nat}

/-- An upload is registered under its own name only. -/
theorem Books.id_eq (hs : Books s) {id id' : Str} (h : s.uploads.get id = some t)
    (h' : s.uploads.get id' = some t) : id = id' := by
  obtain ⟨upload, hstate, rfl⟩ := hs.named id t h
  obtain ⟨other, hother, rfl⟩ := hs.named id' t h'
  cases hstate.symm.trans hother
  rfl

theorem active_eq_true {id : Str} : active s id ↔ ∃ t, s.uploads.get id = some t ∧ Active s t := by
  unfold active
  rw [Option.any_eq_true]
  constructor
  · rintro ⟨⟨t, upload⟩, hreg, hlive⟩
    obtain ⟨hid, hstate⟩ := registered_eq_some.mp hreg
    exact ⟨t, hid, id, upload, hid, hstate, not_eq_true' _ ▸ hlive⟩
  · rintro ⟨t, hid, id', upload, -, hstate, hlive⟩
    exact ⟨(t, upload), registered_eq_some.mpr ⟨hid, hstate⟩, by simp [hlive]⟩

/-- An upload whose entry goes is not active any more. -/
theorem Books.active_delete (hs : Books s) {id : Str} {u : Nat} :
    Active { s with uploads := s.uploads.delete id } u ↔ Active s u ∧ s.uploads.get id ≠ some u := by
  constructor
  · rintro ⟨id', upload, hid', hstate, hlive⟩
    obtain ⟨hmem, hne⟩ := mem_delete.mp (get_eq_some_iff.mp hid')
    have hid' := get_eq_some_iff.mpr hmem
    exact ⟨⟨id', upload, hid', hstate, hlive⟩, fun hid => hne (hs.id_eq hid' hid)⟩
  · rintro ⟨⟨id', upload, hid', hstate, hlive⟩, hnot⟩
    refine ⟨id', upload, ?_, hstate, hlive⟩
    have hne : id' ≠ id := by
      rintro rfl
      exact hnot hid'
    exact (get_delete_of_ne hne).trans hid'

variable {upload : UploadState platform}

theorem active_setState {t u : Nat} (h : u ≠ t) : Active (s.setState t upload) u ↔ Active s u := by
  constructor
  · rintro ⟨id, other, hid, hother, hlive⟩
    exact ⟨id, other, hid, (setState_of_ne upload h).symm.trans hother, hlive⟩
  · rintro ⟨id, other, hid, hother, hlive⟩
    exact ⟨id, other, hid, (setState_of_ne upload h).trans hother, hlive⟩

theorem active_setState_same {t u : Nat} {upload upload' : UploadState platform}
    (hstate : s.states t = some upload) (hsame : upload'.hash.digested = upload.hash.digested) :
    Active (s.setState t upload') u ↔ Active s u := by
  by_cases hut : u = t
  · subst hut
    constructor
    · rintro ⟨id, other, hid, hother, hlive⟩
      rw [setState_self] at hother
      obtain rfl := some.inj hother
      exact ⟨id, upload, hid, hstate, hsame.symm.trans hlive⟩
    · rintro ⟨id, other, hid, hother, hlive⟩
      cases hstate.symm.trans hother
      exact ⟨id, upload', hid, setState_self u upload', hsame.trans hlive⟩
  · exact active_setState hut

theorem Books.not_finishing (hs : Books s)
    (hstate : s.states t = some upload) (hlive : upload.hash.digested = false) :
    ¬ (s.finishing.get t).isSome := by
  intro h
  obtain ⟨f, hf⟩ := isSome_iff_exists.mp h
  obtain ⟨other, hother, hdone, -⟩ := hs.finishing t f hf
  cases hstate.symm.trans hother
  cases hlive.symm.trans hdone

theorem Books.not_running (hs : Books s) (hstate : s.states t = some upload) : ¬ Running s t := by
  rintro ⟨d, hd, -⟩
  rw [(hs.asked t d hd).2.1] at hstate
  cases hstate

theorem not_active_of_digested
    (hstate : s.states t = some upload) (hdone : upload.hash.digested) : ¬ Active s t := by
  rintro ⟨id, other, hid, hother, hlive⟩
  cases hstate.symm.trans hother
  cases hdone.symm.trans hlive

/-- An upload that is active was not closed. -/
theorem Books.closings_eq_zero (hs : Books s) (ht : Active s t) : closings (ledger s).log t = 0 := by
  refine count_eq_zero.mpr fun hmem => ?_
  obtain ⟨r, hr, heq⟩ := mem_map.mp hmem
  obtain ⟨hid, hentry⟩ := Prod.mk.inj heq
  rw [if_pos (hs.unclosed t ht r hr hid)] at hentry
  cases hentry

/-! ## What is kept -/

theorem Books.advance (hs : Books s) : Books { s with next := s.next + 1 } :=
  { hs with
    fresh := fun t upload hstate => lt_succ_of_lt (hs.fresh t upload hstate)
    known := fun r hr => lt_succ_of_lt (hs.known r hr)
    asked := fun t d hd => ⟨lt_succ_of_lt (hs.asked t d hd).1, (hs.asked t d hd).2⟩ }

theorem Books.audit (hs : Books s) (t : Nat) (row : FileTransferAuditPayload) (ht : t < s.next)
    (hasked : ∀ d, s.downloads.get t = some d → d.stage.isStat = false)
    (hunclosed : Active s t → row.status = .started) : Books (s.sendFileTransferAudit t row) :=
  { hs with
    known := by
      intro r hr
      rcases mem_append.mp hr with hr | hr
      · exact hs.known r hr
      · obtain rfl := mem_singleton.mp hr
        exact ht
    asked := by
      intro u d hd
      obtain ⟨hu, hnone, hrows⟩ := hs.asked u d hd
      refine ⟨hu, hnone, fun hstat r hr => ?_⟩
      rcases mem_append.mp hr with hr | hr
      · exact hrows hstat r hr
      · obtain rfl := mem_singleton.mp hr
        rintro rfl
        cases hstat.symm.trans (hasked d hd)
    unclosed := by
      intro u hu r hr hid
      rcases mem_append.mp hr with hr | hr
      · exact hs.unclosed u hu r hr hid
      · obtain rfl := mem_singleton.mp hr
        obtain rfl : t = u := hid
        exact hunclosed hu }

variable {d : Download platform}

theorem Books.setDownload (hs : Books s) (ht : t < s.next)
    (hnone : s.states t = none) (hasked : d.stage.isStat → ∀ r ∈ s.audits, r.1 ≠ t) :
    Books { s with downloads := s.downloads.set t d } :=
  { hs with
    asked := by
      intro u e he
      by_cases hut : u = t
      · subst hut
        rw [get_set_self] at he
        obtain rfl := some.inj he
        exact ⟨ht, hnone, hasked⟩
      · rw [get_set_of_ne hut] at he
        exact hs.asked u e he }

theorem Books.deleteDownload (hs : Books s) (t : Nat) : Books { s with downloads := s.downloads.delete t } :=
  { hs with
    asked := by
      intro u e he
      rw [get_eq_some_iff, mem_delete] at he
      exact hs.asked u e (get_eq_some_iff.mpr he.1) }

theorem Books.delete (hs : Books s) (id : Str) : Books { s with uploads := s.uploads.delete id } := by
  have hkept : ∀ {id' : Str} {t : Nat}, (s.uploads.delete id).get id' = some t →
      s.uploads.get id' = some t := by
    intro id' t hid
    rw [get_eq_some_iff, mem_delete] at hid
    exact get_eq_some_iff.mpr hid.1
  exact
    { hs with
      named := fun id' t hid => hs.named id' t (hkept hid)
      pending := fun id' t upload hid => hs.pending id' t upload (hkept hid)
      unclosed := fun t ht => hs.unclosed t (hs.active_delete.mp ht).1
      ended := by
        intro hended id'
        cases hid' : (s.uploads.delete id).get id' with
        | none => rfl
        | some t => cases (hs.ended hended id').symm.trans (hkept hid') }

/-- The state of an upload is replaced, and it may be put with those that are being finished. -/
theorem Books.replace (hs : Books s) (hstate : s.states t = some upload) (upload' : UploadState platform)
    (finishing : OrderedMap Nat (Finishing platform)) (htmp : upload'.tmpPath = upload.tmpPath)
    (hdone : upload.hash.digested → upload'.hash.digested)
    (hsame : ∀ u, u ≠ t → finishing.get u = s.finishing.get u) (hfinishing : ∀ f, finishing.get t = some f →
      upload'.hash.digested ∧ upload'.tmpPath = f.transferId)
    (hpending : ∀ id, s.uploads.get id = some t → upload'.hash.digested → (finishing.get t).isSome) :
    Books ({ s with finishing := finishing }.setState t upload') := by
  constructor
  · intro u other hother
    rcases of_setState hother with ⟨rfl, -⟩ | ⟨-, hother⟩
    · exact hs.fresh u upload hstate
    · exact hs.fresh u other hother
  · exact hs.known
  · intro u d hd
    obtain ⟨hu, hnone, hrows⟩ := hs.asked u d hd
    refine ⟨hu, (setState_of_ne upload' ?_).trans hnone, hrows⟩
    rintro rfl
    cases hstate.symm.trans hnone
  · intro id u hid
    obtain ⟨other, hother, hname⟩ := hs.named id u hid
    by_cases hut : u = t
    · subst hut
      cases hstate.symm.trans hother
      exact ⟨upload', setState_self u upload', htmp.trans hname⟩
    · exact ⟨other, (setState_of_ne upload' hut).trans hother, hname⟩
  · intro u f hf
    by_cases hut : u = t
    · subst hut
      obtain ⟨hdone', hname⟩ := hfinishing f hf
      exact ⟨upload', setState_self u upload', hdone', hname⟩
    · obtain ⟨other, hother, hdone', hname⟩ := hs.finishing u f ((hsame u hut).symm.trans hf)
      exact ⟨other, (setState_of_ne upload' hut).trans hother, hdone', hname⟩
  · intro id u other hid hother hdone'
    rcases of_setState hother with ⟨rfl, rfl⟩ | ⟨hut, hother⟩
    · exact hpending id hid hdone'
    · exact (congrArg isSome (hsame u hut)).trans (hs.pending id u other hid hother hdone')
  · intro u hu
    apply hs.unclosed u
    by_cases hut : u = t
    · subst hut
      obtain ⟨id, other, hid, hother, hlive⟩ := hu
      rw [setState_self] at hother
      obtain rfl := some.inj hother
      refine ⟨id, upload, hid, hstate, ?_⟩
      cases hdigested : upload.hash.digested with
      | false => rfl
      | true => cases (hdone hdigested).symm.trans hlive
    · exact (active_setState hut).mp hu
  · exact hs.ended

/-- What an upload is being finished with changes. -/
theorem Books.setFinishing (hs : Books s) {f f' : Finishing platform}
    (hf : s.finishing.get t = some f) (hname : f'.transferId = f.transferId) :
    Books { s with finishing := s.finishing.set t f' } := by
  obtain ⟨upload, hstate, hdone, htmp⟩ := hs.finishing t f hf
  have h := hs.replace hstate upload (s.finishing.set t f') rfl (fun h => h)
    (fun u hu => get_set_of_ne hu)
    (by
      intro g hg
      rw [get_set_self] at hg
      obtain rfl := some.inj hg
      exact ⟨hdone, htmp.trans hname.symm⟩)
    (by
      intro id hid _
      rw [get_set_self]
      rfl)
  rw [setState_eq_self] at h
  · exact h
  · exact hstate

/-- An upload that is not registered any more is finished. -/
theorem Books.deleteFinishing (hs : Books s) (hgone : ∀ id, s.uploads.get id ≠ some t) :
    Books { s with finishing := s.finishing.delete t } :=
  { hs with
    finishing := by
      intro u f hf
      rw [get_eq_some_iff, mem_delete] at hf
      exact hs.finishing u f (get_eq_some_iff.mpr hf.1)
    pending := by
      intro id u upload hid hstate hdone
      have hut : u ≠ t := by
        rintro rfl
        exact hgone id hid
      exact (congrArg isSome (get_delete_of_ne hut)).trans
        (hs.pending id u upload hid hstate hdone) }

/-- A step of the session, and what it is for the ledger. -/
structure Moves (s s' : FileSession platform) (guard : Bool) : Prop where
  books : Books s'
  sound : guard = true → Steps (ledger s) (ledger s')
  slips : guard = false → ∃ L, Slip (ledger s) L ∧ Steps L (ledger s')

/-- A step of a handler that can not slip. -/
theorem Moves.of_step {s' : FileSession platform} (hbooks : Books s')
    (hstep : Step (ledger s) (ledger s')) : Moves s s' true :=
  ⟨hbooks, fun _ => hstep.steps, nofun⟩

theorem Moves.refl (hs : Books s) : Moves s s true := ⟨hs, fun _ => .refl, nofun⟩

/-! ## Downloads -/

theorem log_audit (t : Nat) (row : FileTransferAuditPayload) :
    (s.audits ++ [(t, row)]).map entryOf = (ledger s).log ++ [entryOf (t, row)] :=
  map_append

theorem Books.not_mem_log (hs : Books s) {entry : LedgerEntry} : (s.next, entry) ∉ (ledger s).log := by
  intro hmem
  obtain ⟨r, hr, heq⟩ := mem_map.mp hmem
  have hid : r.1 = s.next := congrArg Prod.fst heq
  exact absurd (hid ▸ hs.known r hr) (lt_irrefl _)

theorem Books.no_download (hs : Books s) : s.downloads.get s.next = none := by
  cases hd : s.downloads.get s.next with
  | none => rfl
  | some d => exact absurd (hs.asked _ d hd).1 (lt_irrefl _)

theorem Books.no_state (hs : Books s) : s.states s.next = none := by
  cases hstate : s.states s.next with
  | none => rfl
  | some upload => exact absurd (hs.fresh _ upload hstate) (lt_irrefl _)

variable {row : FileTransferAuditPayload}

/-- A request is refused with an audit of its own. -/
theorem Books.refuse (hs : Books s) (hrow : row.status ≠ .started)
    (cancelledDownloads : List Str) (replies : List Reply) :
    Moves s { s with
      next := s.next + 1
      cancelledDownloads := cancelledDownloads
      replies := replies
      audits := s.audits ++ [(s.next, row)] } true := by
  apply Moves.of_step
  · have h := hs.advance.audit s.next row (lt_succ_self _)
      (fun d hd => by cases hs.no_download.symm.trans hd)
      (by
        rintro ⟨id, upload, -, hstate, -⟩
        cases hs.no_state.symm.trans hstate)
    exact { h with }
  · refine .refuses s.next ?_ hs.not_mem_log fun _ => Iff.rfl
    refine (log_audit s.next row).trans ?_
    rw [entryOf, if_neg hrow]

theorem Running.iff_of_set {t u : Nat} (hut : u ≠ t) :
    Running { s with downloads := s.downloads.set t d } u ↔ Running s u := by
  unfold Running
  rw [get_set_of_ne hut]

theorem running_set_self : Running { s with downloads := s.downloads.set t d } t ↔ d.stage.isStat = false := by
  unfold Running
  rw [get_set_self]
  exact ⟨fun ⟨e, he, hstage⟩ => some.inj he ▸ hstage, fun h => ⟨d, rfl, h⟩⟩

theorem running_delete {t u : Nat} :
    Running { s with downloads := s.downloads.delete t } u ↔ u ≠ t ∧ Running s u := by
  unfold Running
  by_cases hut : u = t
  · subst hut
    rw [get_delete_self]
    exact iff_of_false (fun ⟨_, h, _⟩ => by cases h) fun h => h.1 rfl
  · rw [get_delete_of_ne hut]
    exact (and_iff_right hut).symm

/-- A download is no upload. -/
theorem Books.not_active_download (hs : Books s)
    (hd : s.downloads.get t = some d) : ¬ Active s t ∧ ¬ (s.finishing.get t).isSome := by
  have hnone := (hs.asked t d hd).2.1
  constructor
  · rintro ⟨id, upload, -, hstate, -⟩
    cases hnone.symm.trans hstate
  · intro hf
    obtain ⟨f, hf⟩ := isSome_iff_exists.mp hf
    obtain ⟨upload, hstate, -⟩ := hs.finishing t f hf
    cases hnone.symm.trans hstate

theorem Moves.handleDownload (hs : Books s) (id path : Str) (now : Now platform) :
    Moves s (handleDownload c s id path now) true := by
  unfold FileSession.handleDownload
  split
  · exact hs.refuse noConfusion _ _
  · rename_i resolved _
    apply Moves.of_step
    · have h := hs.advance.setDownload (t := s.next) (d := ⟨id, resolved, 0, 0, 0, .stat⟩)
        (lt_succ_self _) hs.no_state
        (fun _ r hr => Nat.ne_of_lt (hs.known r hr))
      exact { h with }
    · refine .idle rfl fun u => or_congr Iff.rfl (or_congr Iff.rfl ?_)
      by_cases hut : u = s.next
      · subst hut
        refine iff_of_false ?_ ?_
        · exact fun h => by cases running_set_self.mp h
        · rintro ⟨d, hd, -⟩
          cases hs.no_download.symm.trans hd
      · exact Running.iff_of_set hut

/-- The stage of a download that runs changes. -/
theorem Books.proceed (hs : Books s) {d d' : Download platform}
    (hd : s.downloads.get t = some d) (hrunning : d.stage.isStat = false)
    (hrunning' : d'.stage.isStat = false) (replies : List Reply) :
    Moves s { s with downloads := s.downloads.set t d', replies := replies } true := by
  obtain ⟨ht, hnone, -⟩ := hs.asked t d hd
  apply Moves.of_step
  · have h := hs.setDownload (d := d') ht hnone fun hstat =>
      absurd (hstat.symm.trans hrunning') Bool.noConfusion
    exact { h with }
  · refine .idle rfl fun u => or_congr Iff.rfl (or_congr Iff.rfl ?_)
    by_cases hut : u = t
    · subst hut
      exact iff_of_true (running_set_self.mpr hrunning') ⟨d, hd, hrunning⟩
    · exact Running.iff_of_set hut

/-- A download that runs ends with an audit. -/
theorem Books.endDownload (hs : Books s)
    (hd : s.downloads.get t = some d) (hrunning : d.stage.isStat = false)
    (hrow : row.status ≠ .started) (cancelledDownloads : List Str)
    (replies : List Reply) :
    Moves s { s with
      downloads := s.downloads.delete t
      cancelledDownloads := cancelledDownloads
      replies := replies
      audits := s.audits ++ [(t, row)] } true := by
  obtain ⟨ht, hnone, -⟩ := hs.asked t d hd
  obtain ⟨hactive, hfinishing⟩ := hs.not_active_download hd
  apply Moves.of_step
  · have h := (hs.deleteDownload t).audit t row ht
      (by
        intro e he
        cases (get_delete_self s.downloads t).symm.trans he)
      fun h => absurd h hactive
    exact { h with }
  · refine .closes t ?_ (.inr (.inr ⟨d, hd, hrunning⟩)) fun u => ?_
    · refine (log_audit t row).trans ?_
      rw [entryOf, if_neg hrow]
    · have hrest := running_delete (s := s) (t := t) (u := u)
      constructor
      · rintro (h | h | h)
        · exact ⟨fun hut => hactive (hut ▸ h), .inl h⟩
        · exact ⟨fun hut => hfinishing (hut ▸ h), .inr (.inl h)⟩
        · obtain ⟨hut, h⟩ := hrest.mp h
          exact ⟨hut, .inr (.inr h)⟩
      · rintro ⟨hut, h | h | h⟩
        · exact .inl h
        · exact .inr (.inl h)
        · exact .inr (.inr (hrest.mpr ⟨hut, h⟩))

/-- A download that is not found ends with an audit of its own. -/
theorem Books.refuseStat (hs : Books s)
    (hd : s.downloads.get t = some d) (hstat : d.stage.isStat)
    (hrow : row.status ≠ .started) (replies : List Reply) :
    Moves s { s with
      downloads := s.downloads.delete t
      replies := replies
      audits := s.audits ++ [(t, row)] } true := by
  obtain ⟨ht, hnone, hnew⟩ := hs.asked t d hd
  apply Moves.of_step
  · have h := (hs.deleteDownload t).audit t row ht
      (by
        intro e he
        cases (get_delete_self s.downloads t).symm.trans he)
      fun h => absurd h (hs.not_active_download hd).1
    exact { h with }
  · refine .refuses t ?_ ?_ fun u => or_congr Iff.rfl (or_congr Iff.rfl ?_)
    · refine (log_audit t row).trans ?_
      rw [entryOf, if_neg hrow]
    · intro hmem
      obtain ⟨r, hr, heq⟩ := mem_map.mp hmem
      exact hnew hstat r hr (congrArg Prod.fst heq)
    · refine (running_delete (s := s) (t := t) (u := u)).trans (and_iff_right_of_imp ?_)
      rintro ⟨e, he, hrunning⟩ rfl
      cases hd.symm.trans he
      cases hstat.symm.trans hrunning

/-- A download that is found starts with an audit. -/
theorem Books.startDownload (hs : Books s) {d d' : Download platform}
    (hd : s.downloads.get t = some d) (hstat : d.stage.isStat)
    (hrunning' : d'.stage.isStat = false)
    (hrow : row.status = .started) :
    Moves s { s with
      downloads := s.downloads.set t d'
      audits := s.audits ++ [(t, row)] } true := by
  obtain ⟨ht, hnone, hnew⟩ := hs.asked t d hd
  apply Moves.of_step
  · have hset := hs.setDownload (d := d') ht hnone fun h =>
      absurd (h.symm.trans hrunning') Bool.noConfusion
    have h := hset.audit t row ht
      (by
        intro e he
        cases (get_set_self _ _ _).symm.trans he
        exact hrunning')
      fun _ => hrow
    exact { h with }
  · refine .opens t ?_ ?_ fun u => ?_
    · refine (log_audit t row).trans ?_
      rw [entryOf, if_pos hrow]
    · intro r hr
      obtain ⟨r', hr', rfl⟩ := mem_map.mp hr
      exact hnew hstat r' hr'
    · by_cases hut : u = t
      · subst hut
        exact iff_of_true (.inr (.inr (running_set_self.mpr hrunning'))) (.inl rfl)
      · rw [or_iff_right hut]
        exact or_congr Iff.rfl (or_congr Iff.rfl (Running.iff_of_set hut))

theorem Moves.statDone (hs : Books s) (t : Nat) (result : Except Reason Nat) :
    Moves s (statDone s t result) true := by
  unfold FileSession.statDone
  split
  · rename_i d hd
    split
    · rename_i hstage
      exact hs.refuseStat hd (by rw [hstage]; rfl) noConfusion _
    · rename_i hstage
      exact hs.startDownload hd (by rw [hstage]; rfl) rfl rfl
    · exact .refl hs
  · exact .refl hs

theorem Moves.finishDownload (hs : Books s) (hd : s.downloads.get t = some d) (hrunning : d.stage.isStat = false)
    (outcome : Except Reason Bool) : Moves s (finishDownload s t d outcome) true := by
  unfold FileSession.finishDownload
  split
  · exact hs.endDownload hd hrunning noConfusion _ _
  · rename_i cancelled
    apply hs.endDownload hd hrunning
    cases cancelled with
    | true => exact noConfusion
    | false => exact noConfusion

theorem Moves.readNext (hs : Books s) {d d' : Download platform}
    (hd : s.downloads.get t = some d) (hrunning : d.stage.isStat = false) (replies : List Reply) :
    Moves s (readNext { s with replies := replies } t d') true := by
  apply hs.proceed hd hrunning
  split
  · rfl
  · rfl

theorem Moves.openDone (hs : Books s) (t : Nat) (error : Option Reason) : Moves s (openDone s t error) true := by
  unfold FileSession.openDone
  split
  · rename_i d hd
    split
    · rename_i hstage
      exact .finishDownload hs hd (by rw [hstage]; rfl) _
    · rename_i hstage
      exact .readNext hs hd (by rw [hstage]; rfl) _
    · exact .refl hs
  · exact .refl hs

theorem Moves.readDone (hs : Books s) (t : Nat) (result : Except Reason Bytes) :
    Moves s (readDone s t result) true := by
  unfold FileSession.readDone
  split
  · rename_i d hd
    split
    · rename_i hstage
      exact hs.proceed hd (by rw [hstage]; rfl) rfl _
    · rename_i hstage
      exact hs.proceed hd (by rw [hstage]; rfl) rfl _
    · rename_i hstage
      exact .readNext hs hd (by rw [hstage]; rfl) _
    · exact .refl hs
  · exact .refl hs

theorem Moves.closeDone (hs : Books s) (t : Nat) (error : Option Reason) : Moves s (closeDone s t error) true := by
  unfold FileSession.closeDone
  split
  · rename_i d hd
    split
    · rename_i hstage
      exact .finishDownload hs hd (by rw [hstage]; rfl) _
    · rename_i hstage
      exact .finishDownload hs hd (by rw [hstage]; rfl) _
    · exact .refl hs
  · exact .refl hs

/-! ## Uploads -/

theorem Books.download_ne (hs : Books s) (hstate : s.states t = some upload) : s.downloads.get t = none := by
  cases hd : s.downloads.get t with
  | none => rfl
  | some d => cases hstate.symm.trans (hs.asked t d hd).2.1

/-- An entry that goes takes an active upload with it, or nothing. -/
theorem Moves.of_delete (hs : Books s) {id : Str} {s' : FileSession platform} (hbooks : Books s')
    (hstep : Step (ledger { s with uploads := s.uploads.delete id }) (ledger s')) :
    Moves s s' (!active s id) := by
  refine ⟨hbooks, fun hguard => ?_, fun hguard => ?_⟩
  · have hnone : ∀ u, Active s u → s.uploads.get id ≠ some u := by
      intro u hu hid
      rw [active_eq_true.mpr ⟨u, hid, hu⟩] at hguard
      cases hguard
    refine @Steps.step _ _ (ledger { s with uploads := s.uploads.delete id }) _
      (.idle rfl fun u => or_congr ?_ Iff.rfl) hstep.steps
    exact hs.active_delete.trans (and_iff_left_of_imp (hnone u))
  · obtain ⟨t, hid, ht⟩ := active_eq_true.mp (not_eq_false' _ ▸ hguard)
    have hlive := ht
    obtain ⟨-, upload, -, hstate, hlive⟩ := hlive
    refine ⟨ledger { s with uploads := s.uploads.delete id }, .drops t rfl (.inl ht) ?_ ?_ ?_, hstep.steps⟩
    · rintro (h | h | h)
      · exact (hs.active_delete.mp h).2 hid
      · exact hs.not_finishing hstate hlive h
      · exact hs.not_running hstate h
    · rintro u (h | h | h)
      · exact .inl (hs.active_delete.mp h).1
      · exact .inr (.inl h)
      · exact .inr (.inr h)
    · rintro u (h | h | h) hgone
      · exact hs.closings_eq_zero h
      · exact absurd (.inr (.inl h)) hgone
      · exact absurd (.inr (.inr h)) hgone

/-- A new upload starts with an audit. -/
theorem Books.startUpload (hs : Books s) (hopen : s.closed = false ∧ s.disposed = false) {id : Str}
    (htmp : upload.tmpPath = id) (hlive : upload.hash.digested = false)
    (hrow : row.status = .started) (disk : Disk)
    (replies : List Reply) :
    Moves s ({ s with
      next := s.next + 1
      disk := disk
      uploads := s.uploads.set id s.next
      audits := s.audits ++ [(s.next, row)]
      replies := replies }.setState s.next upload) (!active s id) := by
  have hne : ∀ {u : Nat} {other : UploadState platform}, s.states u = some other → u ≠ s.next :=
    fun hother => Nat.ne_of_lt (hs.fresh _ _ hother)
  have hreg : ∀ {id' : Str} {u : Nat}, (s.uploads.set id s.next).get id' = some u →
      (id' = id ∧ u = s.next) ∨ (id' ≠ id ∧ s.uploads.get id' = some u) := by
    intro id' u hid'
    by_cases hid : id' = id
    · subst hid
      rw [get_set_self] at hid'
      exact .inl ⟨rfl, (some.inj hid').symm⟩
    · rw [get_set_of_ne hid] at hid'
      exact .inr ⟨hid, hid'⟩
  have hactive : ∀ u, Active ({ s with
      next := s.next + 1
      disk := disk
      uploads := s.uploads.set id s.next
      audits := s.audits ++ [(s.next, row)]
      replies := replies }.setState s.next upload) u ↔
      u = s.next ∨ Active { s with uploads := s.uploads.delete id } u := by
    intro u
    constructor
    · rintro ⟨id', other, hid', hother, hlive'⟩
      rcases hreg hid' with ⟨-, rfl⟩ | ⟨hne', hid'⟩
      · exact .inl rfl
      · rcases of_setState hother with ⟨rfl, -⟩ | ⟨-, hother⟩
        · exact .inl rfl
        · exact .inr ⟨id', other, (get_delete_of_ne hne').trans hid', hother, hlive'⟩
    · rintro (rfl | h)
      · exact ⟨id, upload, get_set_self _ _ _, setState_self _ upload, hlive⟩
      · obtain ⟨id', other, hid', hother, hlive'⟩ := h
        obtain ⟨hmem, hne'⟩ := mem_delete.mp (get_eq_some_iff.mp hid')
        refine ⟨id', other, ?_, (setState_of_ne upload (hne hother)).trans hother, hlive'⟩
        exact (get_set_of_ne hne').trans (get_eq_some_iff.mpr hmem)
  apply Moves.of_delete hs
  · constructor
    · intro u other hother
      rcases of_setState hother with ⟨rfl, -⟩ | ⟨-, hother⟩
      · exact lt_succ_self _
      · exact lt_succ_of_lt (hs.fresh u other hother)
    · intro r hr
      rcases mem_append.mp hr with hr | hr
      · exact lt_succ_of_lt (hs.known r hr)
      · obtain rfl := mem_singleton.mp hr
        exact lt_succ_self _
    · intro u d hd
      obtain ⟨hu, hnone, hrows⟩ := hs.asked u d hd
      have hut : u ≠ s.next := Nat.ne_of_lt hu
      refine ⟨lt_succ_of_lt hu, (setState_of_ne upload hut).trans hnone, fun hstat r hr => ?_⟩
      rcases mem_append.mp hr with hr | hr
      · exact hrows hstat r hr
      · obtain rfl := mem_singleton.mp hr
        exact hut.symm
    · intro id' u hid'
      rcases hreg hid' with ⟨rfl, rfl⟩ | ⟨-, hid'⟩
      · exact ⟨upload, setState_self _ upload, htmp⟩
      · obtain ⟨other, hother, hname⟩ := hs.named id' u hid'
        exact ⟨other, (setState_of_ne upload (hne hother)).trans hother, hname⟩
    · intro u f hf
      obtain ⟨other, hother, hdone, hname⟩ := hs.finishing u f hf
      exact ⟨other, (setState_of_ne upload (hne hother)).trans hother, hdone, hname⟩
    · intro id' u other hid' hother hdone
      rcases of_setState hother with ⟨rfl, rfl⟩ | ⟨hut, hother⟩
      · cases hlive.symm.trans hdone
      · rcases hreg hid' with ⟨-, rfl⟩ | ⟨-, hid'⟩
        · exact absurd rfl hut
        · exact hs.pending id' u other hid' hother hdone
    · intro u hu r hr hid'
      rcases mem_append.mp hr with hr | hr
      · rcases (hactive u).mp hu with rfl | hu
        · exact absurd hid' (Nat.ne_of_lt (hs.known r hr))
        · exact hs.unclosed u (hs.active_delete.mp hu).1 r hr hid'
      · obtain rfl := mem_singleton.mp hr
        exact hrow
    · rintro (hended | hended)
      · cases hopen.1.symm.trans hended
      · cases hopen.2.symm.trans hended
  · refine .opens s.next ?_ ?_ fun u => ?_
    · refine (log_audit s.next row).trans ?_
      rw [entryOf, if_pos hrow]
      rfl
    · intro r hr
      obtain ⟨r', hr', rfl⟩ := mem_map.mp hr
      exact Nat.ne_of_lt (hs.known r' hr')
    · exact (or_congr (hactive u) Iff.rfl).trans or_assoc

theorem Moves.handleUploadStart (hs : Books s) (hopen : s.closed = false ∧ s.disposed = false)
    (id path : Str) (size : Size) (now : Now platform) : Moves s (handleUploadStart c s id path size now)
      (!(active s id && accepts c s id path size now)) := by
  have hrefused (h : accepts c s id path size now = false) :
      (!(active s id && accepts c s id path size now)) := by
    rw [h, Bool.and_false]
    rfl
  unfold FileSession.handleUploadStart
  dsimp only
  split
  · rename_i hlarge
    rw [hrefused]
    · exact hs.refuse noConfusion _ _
    · unfold accepts
      rw [hlarge]
      rfl
  · rename_i hsmall
    split
    · rename_i hdenied
      rw [hrefused]
      · exact hs.refuse noConfusion _ _
      · unfold accepts
        rw [hdenied, Bool.and_false]
    · rename_i resolved hallowed
      split
      · rename_i herror
        rw [hrefused]
        · exact .of_step { hs.advance with } (.idle rfl fun _ => Iff.rfl)
        · unfold accepts
          rw [hallowed]
          rw [herror]
          exact and_false _
      · rename_i fd disk hstaged
        have haccepts : accepts c s id path size now := by
          unfold accepts
          rw [hallowed]
          dsimp only
          rw [hstaged, eq_false_iff.mpr hsmall]
          rfl
        rw [haccepts, Bool.and_true]
        apply hs.startUpload hopen
        · rfl
        · rfl
        · rfl

/-- An upload is changed, and not finished. -/
theorem Books.update (hs : Books s)
    (hstate : s.states t = some upload) (upload' : UploadState platform) (htmp : upload'.tmpPath = upload.tmpPath)
    (hsame : upload'.hash.digested = upload.hash.digested) : Moves s (s.setState t upload') true := by
  apply Moves.of_step
  · refine hs.replace hstate upload' s.finishing htmp (fun h => hsame.trans h)
      (fun _ _ => rfl) ?_ ?_
    · intro f hf
      obtain ⟨other, hother, hdone, hname⟩ := hs.finishing t f hf
      cases hstate.symm.trans hother
      exact ⟨hsame.trans hdone, htmp.trans hname⟩
    · exact fun id hid hdone => hs.pending id t upload hid hstate (hsame.symm.trans hdone)
  · exact .idle rfl fun u => or_congr (active_setState_same hstate hsame) Iff.rfl

/-- The entry of an upload goes, with an audit. -/
theorem Books.stopUpload (hs : Books s) {id : Str}
    (hid : s.uploads.get id = some t) (hstate : s.states t = some upload)
    (upload' : UploadState platform) (htmp : upload'.tmpPath = upload.tmpPath)
    (hdone : upload.hash.digested → upload'.hash.digested)
    (hrow : row.status ≠ .started) (disk : Disk)
    (replies : List Reply) :
    Moves s ({ s with
      disk := disk
      uploads := s.uploads.delete id
      audits := s.audits ++ [(t, row)]
      replies := replies }.setState t upload') (!upload.hash.digested) := by
  have hgone : ∀ id', (s.uploads.delete id).get id' ≠ some t := by
    intro id' hid'
    obtain ⟨hmem, hne⟩ := mem_delete.mp (get_eq_some_iff.mp hid')
    exact hne (hs.id_eq (get_eq_some_iff.mpr hmem) hid)
  have hbooks : Books ({ s with
      disk := disk
      uploads := s.uploads.delete id
      audits := s.audits ++ [(t, row)]
      replies := replies }.setState t upload') := by
    have hreplaced := (hs.delete id).replace hstate upload' s.finishing htmp hdone
      (fun _ _ => rfl)
      (by
        intro f hf
        obtain ⟨other, hother, hdigested, hname⟩ := hs.finishing t f hf
        cases hstate.symm.trans hother
        exact ⟨hdone hdigested, htmp.trans hname⟩)
      (fun id' hid' => absurd hid' (hgone id'))
    have h := hreplaced.audit t row (hs.fresh t upload hstate)
      (fun d hd => by cases (hs.download_ne hstate).symm.trans hd)
      (by
        rintro ⟨id', other, hid', -⟩
        exact absurd hid' (hgone id'))
    exact { h with }
  have hlog : (s.audits ++ [(t, row)]).map entryOf = (ledger s).log ++ [(t, .closes)] := by
    refine (log_audit t row).trans ?_
    rw [entryOf, if_neg hrow]
  have hactive : ∀ u, Active ({ s with
      disk := disk
      uploads := s.uploads.delete id
      audits := s.audits ++ [(t, row)]
      replies := replies }.setState t upload') u ↔ u ≠ t ∧ Active s u := by
    intro u
    by_cases hut : u = t
    · subst hut
      refine iff_of_false ?_ fun h => h.1 rfl
      rintro ⟨id', other, hid', -⟩
      exact hgone id' hid'
    · have hne : s.uploads.get id ≠ some u := fun h => hut (some.inj (h.symm.trans hid))
      refine (active_setState hut).trans (hs.active_delete.trans ?_)
      exact (and_iff_left hne).trans (and_iff_right hut).symm
  refine ⟨hbooks, fun hguard => ?_, fun hguard => ?_⟩
  · have hlive : upload.hash.digested = false := not_eq_true' _ ▸ hguard
    refine Step.steps (.closes t hlog (.inl ⟨id, upload, hid, hstate, hlive⟩) fun u => ?_)
    constructor
    · rintro (h | h | h)
      · exact ⟨((hactive u).mp h).1, .inl ((hactive u).mp h).2⟩
      · refine ⟨?_, .inr (.inl h)⟩
        rintro rfl
        exact hs.not_finishing hstate hlive h
      · refine ⟨?_, .inr (.inr h)⟩
        rintro rfl
        exact hs.not_running hstate h
    · rintro ⟨hut, h | h | h⟩
      · exact .inl ((hactive u).mpr ⟨hut, h⟩)
      · exact .inr (.inl h)
      · exact .inr (.inr h)
  · have hdigested : upload.hash.digested := not_eq_false' _ ▸ hguard
    refine ⟨_, .again t hlog (.inr (.inl (hs.pending id t upload hid hstate hdigested))) ?_, .refl⟩
    refine fun u => or_congr ((hactive u).trans ?_) Iff.rfl
    refine and_iff_right_of_imp fun h => ?_
    rintro rfl
    exact not_active_of_digested hstate hdigested h

theorem Moves.handleChunk (hs : Books s) (id : Str) (data : Bytes) (now : Now platform) :
    Moves s (handleChunk c s id data now) ((s.registered id).all fun (_, upload) =>
      !upload.hash.digested || upload.cancelled || upload.received + data.length ≤ maxUploadBytes now) := by
  unfold FileSession.handleChunk
  cases hreg : s.registered id with
  | none => exact .refl hs
  | some entry =>
    obtain ⟨t, upload⟩ := entry
    obtain ⟨hid, hstate⟩ := registered_eq_some.mp hreg
    rw [all_some]
    dsimp only
    split
    · rename_i hcancelled
      rw [hcancelled, Bool.or_true, Bool.true_or]
      exact .refl hs
    · rename_i hcancelled
      split
      · rename_i hover
        rw [Bool.eq_false_iff.mpr hcancelled, decide_eq_false (Nat.not_le_of_lt hover), Bool.or_false, Bool.or_false]
        apply hs.stopUpload hid hstate
        · rfl
        · exact fun h => h
        · exact noConfusion
      · rename_i hunder
        rw [decide_eq_true (Nat.le_of_not_lt hunder), Bool.or_true]
        split
        · exact hs.update hstate _ rfl rfl
        · split
          · rename_i disk _ _
            have hmoves := hs.update hstate { upload with failure := some digestCalled } rfl rfl
            exact ⟨{ hmoves.books with }, hmoves.sound, hmoves.slips⟩
          · rename_i disk _ hlive
            have hmoves := hs.update hstate
              { upload with
                hash := ⟨upload.hash.data ++ data, false⟩
                received := upload.received + data.length } rfl (eq_false_iff.mpr hlive).symm
            exact ⟨{ hmoves.books with }, hmoves.sound, hmoves.slips⟩

variable {f : Finishing platform}

/-- An upload that has all it needs is finished after its handler. -/
theorem Books.finishUpload (hs : Books s) {id : Str} {upload upload' : UploadState platform}
    (hid : s.uploads.get id = some t) (hstate : s.states t = some upload)
    (hlive : upload.hash.digested = false) (htmp : upload'.tmpPath = upload.tmpPath)
    (hdone : upload'.hash.digested) (hname : f.transferId = id) {disk : Disk} :
    Moves s ({ s with disk := disk, finishing := s.finishing.set t f }.setState t upload') true := by
  obtain ⟨other, hother, htmp'⟩ := hs.named id t hid
  cases hstate.symm.trans hother
  apply Moves.of_step
  · have h := hs.replace hstate upload' (s.finishing.set t f) htmp (fun _ => hdone)
      (fun _ hu => get_set_of_ne hu)
      (by
        intro g hg
        cases (get_set_self _ _ _).symm.trans hg
        exact ⟨hdone, (htmp.trans htmp').trans hname.symm⟩)
      (by
        intro _ _ _
        rw [get_set_self]
        rfl)
    exact { h with }
  · refine .idle rfl fun u => ?_
    by_cases hut : u = t
    · subst hut
      refine iff_of_true (.inr (.inl ?_)) (.inl ⟨id, upload, hid, hstate, hlive⟩)
      show ((s.finishing.set u f).get u).isSome
      rw [get_set_self]
      rfl
    · refine or_congr (active_setState hut) (or_congr ?_ Iff.rfl)
      show ((s.finishing.set t f).get u).isSome ↔ _
      rw [get_set_of_ne hut]

/-- What is counted of an upload is no part of its audits. -/
theorem observe_eq (id : Str) (data : Bytes) : ∃ sent, observe s id data = { s with sent := sent } := by
  unfold observe
  split
  · split
    · exact ⟨s.sent, rfl⟩
    · exact ⟨_, rfl⟩
  · exact ⟨s.sent, rfl⟩

theorem Moves.observe (hs : Books s) (id : Str) (data : Bytes) (now : Now platform) :
    Moves s (FileSession.handleChunk c (FileSession.observe s id data) id data now)
      ((s.registered id).all fun (_, upload) => !upload.hash.digested || upload.cancelled ||
          upload.received + data.length ≤ maxUploadBytes now) := by
  obtain ⟨sent, heq⟩ := observe_eq (s := s) id data
  rw [heq]
  have h := Moves.handleChunk (c := c) (s := { s with sent := sent }) { hs with } id data now
  exact ⟨h.books, h.sound, h.slips⟩

theorem Moves.handleUploadDone (hs : Books s) (id : Str) (now : Now platform) :
    Moves s (handleUploadDone c s id now) true := by
  unfold FileSession.handleUploadDone
  cases hreg : s.registered id with
  | none => exact .refl hs
  | some entry =>
    obtain ⟨t, upload⟩ := entry
    obtain ⟨hid, hstate⟩ := registered_eq_some.mp hreg
    dsimp only
    cases hdigested : upload.hash.digested with
    | true =>
      exact .of_step { hs with } (.idle rfl fun _ => Iff.rfl)
    | false =>
      rw [if_neg Bool.false_ne_true]
      have hstop {row : FileTransferAuditPayload} (hrow : row.status ≠ .started) (disk : Disk)
          (replies : List Reply) := hs.stopUpload hid hstate
          { upload with
            hash := ⟨upload.hash.data, true⟩
            failure := failureAtEnd c upload } rfl (fun _ => rfl) hrow disk replies
      rw [hdigested] at hstop
      split
      · exact hstop noConfusion _ _
      · split
        · exact hstop noConfusion _ _
        · split
          · exact hstop noConfusion _ _
          · apply hs.finishUpload hid hstate hdigested
            · rfl
            · rfl
            · rfl

/-- An upload that was finished is registered no more under its name. -/
theorem Books.not_registered (hs : Books s) (hf : s.finishing.get t = some f) (id : Str) :
    (s.uploads.delete f.transferId).get id ≠ some t := by
  intro hid
  obtain ⟨hmem, hne⟩ := mem_delete.mp (get_eq_some_iff.mp hid)
  obtain ⟨upload, hstate, rfl⟩ := hs.named id t (get_eq_some_iff.mpr hmem)
  obtain ⟨other, hother, -, hname⟩ := hs.finishing t f hf
  cases hstate.symm.trans hother
  exact hne hname

/-- What waits for the end of an upload ends with an audit, and takes the entry under its name. -/
theorem Books.settleUpload (hs : Books s)
    (hf : s.finishing.get t = some f)
    (hrow : row.status ≠ .started) (disk : Disk) (replies : List Reply)
    (completions : List Completion) :
    Moves s { s with
      finishing := s.finishing.delete t
      uploads := s.uploads.delete f.transferId
      disk := disk
      audits := s.audits ++ [(t, row)]
      replies := replies
      completions := completions } (!active s f.transferId) := by
  obtain ⟨upload, hstate, hdone, -⟩ := hs.finishing t f hf
  have hgone := hs.not_registered hf
  apply Moves.of_delete hs
  · have h := ((hs.delete f.transferId).deleteFinishing hgone).audit t row
      (hs.fresh t upload hstate)
      (fun d hd => by cases (hs.download_ne hstate).symm.trans hd)
      (by
        rintro ⟨id, other, hid, -⟩
        exact absurd hid (hgone id))
    exact { h with }
  · refine .closes t ?_ (.inr (.inl (isSome_iff_exists.mpr ⟨f, hf⟩))) fun u => ?_
    · refine (log_audit t row).trans ?_
      rw [entryOf, if_neg hrow]
      rfl
    · constructor
      · rintro (h | h | h)
        · refine ⟨?_, .inl h⟩
          rintro rfl
          exact not_active_of_digested hstate hdone (hs.active_delete.mp h).1
        · have hut : u ≠ t := by
            rintro rfl
            rw [show (s.finishing.delete u).get u = none from get_delete_self _ _] at h
            cases h
          refine ⟨hut, .inr (.inl ?_)⟩
          exact (congrArg isSome (get_delete_of_ne hut)).symm.trans h
        · refine ⟨?_, .inr (.inr h)⟩
          rintro rfl
          exact hs.not_running hstate h
      · rintro ⟨hut, h | h | h⟩
        · exact .inl h
        · refine .inr (.inl ?_)
          exact (congrArg isSome (get_delete_of_ne hut)).trans h
        · exact .inr (.inr h)

theorem Moves.finalizeFailed (hs : Books s) (hf : s.finishing.get t = some f) (e : Reason) :
    Moves s (finalizeFailed c s t f e) (!active s f.transferId) := by
  obtain ⟨upload, hstate, -⟩ := hs.finishing t f hf
  unfold FileSession.finalizeFailed
  rw [hstate]
  exact hs.settleUpload hf noConfusion _ _ _

/-- The stage of an upload that is being finished changes. -/
theorem Moves.setFinishing (hs : Books s) {f f' : Finishing platform}
    (hf : s.finishing.get t = some f) (hname : f'.transferId = f.transferId) (disk : Disk) :
    Moves s { s with disk := disk, finishing := s.finishing.set t f' } true := by
  apply Moves.of_step
  · exact { hs.setFinishing hf hname with }
  · refine .idle rfl fun u => or_congr Iff.rfl (or_congr ?_ Iff.rfl)
    show ((s.finishing.set t f').get u).isSome ↔ _
    by_cases hut : u = t
    · subst hut
      rw [get_set_self, hf]
      exact Iff.rfl
    · rw [get_set_of_ne hut]

theorem Moves.mkdirDone (hs : Books s) (t : Nat) (error : Option Reason) :
    Moves s (mkdirDone c s t error) (accountsFor c s (.mkdirDone t error)) := by
  unfold FileSession.mkdirDone accountsFor
  cases error with
  | none =>
    split
    · rename_i f hf
      cases hstage : f.stage with
      | mkdir =>
        apply Moves.setFinishing hs hf
        rfl
      | rename => exact .refl hs
      | renamed result => exact .refl hs
    · exact .refl hs
  | some e =>
    dsimp only
    split
    · rename_i f hf
      rw [hf, all_some]
      cases hstage : f.stage with
      | mkdir => exact .finalizeFailed hs hf e
      | rename => exact .refl hs
      | renamed result => exact .refl hs
    · rename_i hf
      rw [hf]
      exact .refl hs

theorem Moves.renameRun (hs : Books s) (t : Nat) (error : Option Reason) : Moves s (renameRun c s t error) true := by
  unfold FileSession.renameRun
  split
  · rename_i f hf
    split
    · apply Moves.setFinishing hs hf
      rfl
    · split
      · apply Moves.setFinishing hs hf
        rfl
      · apply Moves.setFinishing hs hf
        rfl
    · exact .refl hs
  · exact .refl hs

theorem Moves.renameDone (hs : Books s) (t : Nat) : Moves s (renameDone c s t) (accountsFor c s (.renameDone t)) := by
  unfold FileSession.renameDone accountsFor
  dsimp only
  split
  · rename_i f hf
    rw [hf, all_some]
    cases hstage : f.stage with
    | mkdir => exact .refl hs
    | rename => exact .refl hs
    | renamed result =>
      cases result with
      | error e => exact .finalizeFailed hs hf e
      | ok file =>
        obtain ⟨upload, hstate, -⟩ := hs.finishing t f hf
        rw [hstate]
        exact hs.settleUpload hf noConfusion _ _ _
  · rename_i hf
    rw [hf]
    exact .refl hs

theorem Moves.handleCancel (hs : Books s) (id : Str) : Moves s (handleCancel s id) true := by
  unfold FileSession.handleCancel
  dsimp only
  split
  · rename_i t upload hreg
    obtain ⟨hid, hstate⟩ := registered_eq_some.mp hreg
    have hmoves := hs.update hstate { upload with cancelled := true } rfl rfl
    exact ⟨{ hmoves.books with }, hmoves.sound, hmoves.slips⟩
  · exact .of_step { hs with } (.idle rfl fun _ => Iff.rfl)

/-- The end of the session drops the uploads that are active. -/
theorem Moves.cleanupAllUploads (hs : Books s) (closed disposed : Bool) :
    Moves s (FileSession.cleanupAllUploads { s with closed := closed, disposed := disposed })
      (s.uploads.entries.all fun e => !active s e.1) := by
  have hnone : ∀ u, ¬ Active
      (FileSession.cleanupAllUploads { s with closed := closed, disposed := disposed }) u := by
    rintro u ⟨id, upload, hid, -⟩
    cases hid
  have hbooks : Books
      (FileSession.cleanupAllUploads { s with closed := closed, disposed := disposed }) :=
    { hs with
      named := nofun
      pending := nofun
      unclosed := fun u hu => absurd hu (hnone u)
      ended := fun _ _ => rfl }
  refine ⟨hbooks, fun hguard => ?_, fun hguard => ?_⟩
  · refine Ledger.Step.steps (.idle rfl fun u => or_congr (iff_of_false (hnone u) ?_) Iff.rfl)
    intro hu
    obtain ⟨id, upload, hid, hstate, hlive⟩ := hu
    have hentry := all_eq_true.mp hguard _ (get_eq_some_iff.mp hid)
    dsimp only at hentry
    rw [active_eq_true.mpr ⟨u, hid, id, upload, hid, hstate, hlive⟩] at hentry
    cases hentry
  · obtain ⟨e, he, hactive⟩ := all_eq_false.mp hguard
    obtain ⟨t, -, ht⟩ := active_eq_true.mp (not_eq_false' _ ▸ eq_false_iff.mpr hactive)
    refine ⟨ledger (FileSession.cleanupAllUploads { s with closed := closed, disposed := disposed }),
      .drops t rfl (.inl ht) ?_ ?_ ?_, .refl⟩
    · obtain ⟨id, upload, -, hstate, hlive⟩ := ht
      rintro (h | h | h)
      · exact hnone t h
      · exact hs.not_finishing hstate hlive h
      · exact hs.not_running hstate h
    · rintro u (h | h)
      · exact absurd h (hnone u)
      · exact .inr h
    · rintro u (h | h) hgone
      · exact hs.closings_eq_zero h
      · exact absurd (.inr h) hgone

theorem Moves.handleMessage (hs : Books s) (hopen : s.closed = false ∧ s.disposed = false) (m : Message)
    (now : Now platform) : Moves s (handleMessage c s m now) (accountsFor c s (.message m now)) := by
  unfold FileSession.handleMessage accountsFor
  rw [hopen.1, hopen.2, Bool.or_self]
  dsimp only
  rw [Bool.false_or]
  split
  · rename_i hinvalid
    rw [hinvalid, Bool.true_or]
    exact .of_step { hs with } (.idle rfl fun _ => Iff.rfl)
  · rename_i hvalid
    rw [Bool.eq_false_iff.mpr hvalid, Bool.false_or]
    cases m with
    | download id path => exact .handleDownload hs id path now
    | upload id path size => exact .handleUploadStart hs hopen id path size now
    | chunk id data => exact .observe hs id data now
    | uploadDone id => exact .handleUploadDone hs id now
    | cancel id => exact .handleCancel hs id

/-- Whatever happens keeps the books, and slips where the guard is not met. -/
theorem Moves.step (hs : Books s) (e : Event platform) : Moves s (step c s e) (accountsFor c s e) := by
  unfold FileSession.step
  cases e with
  | message m now =>
    dsimp only
    split
    · rename_i hended
      unfold accountsFor
      dsimp only
      rw [hended, Bool.true_or, Bool.true_or]
      exact .refl hs
    · rename_i hopen
      obtain ⟨hdisposed, hclosed⟩ := or_eq_false_iff.mp (eq_false_iff.mpr hopen)
      exact .handleMessage hs ⟨hclosed, hdisposed⟩ m now
  | statDone t result => exact .statDone hs t result
  | openDone t error => exact .openDone hs t error
  | readDone t result => exact .readDone hs t result
  | closeDone t error => exact .closeDone hs t error
  | mkdirDone t error => exact .mkdirDone hs t error
  | renameRun t error => exact .renameRun hs t error
  | renameDone t => exact .renameDone hs t
  | othersOpen => exact .of_step { hs with } (.idle rfl fun _ => Iff.rfl)
  | othersClose fd =>
    dsimp only
    split
    · exact .of_step { hs with } (.idle rfl fun _ => Iff.rfl)
    · exact .refl hs
  | closed => exact .cleanupAllUploads hs _ _
  | dispose =>
    dsimp only
    unfold FileSession.dispose
    split
    · rename_i hdisposed
      unfold accountsFor
      dsimp only
      rw [hdisposed, Bool.true_or]
      exact .refl hs
    · rename_i hdisposed
      unfold accountsFor
      dsimp only
      rw [Bool.eq_false_iff.mpr hdisposed, Bool.false_or]
      exact .cleanupAllUploads hs _ _

end Books

end FileSession

end Rcp
