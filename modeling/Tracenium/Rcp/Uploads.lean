-- SUMMARY: When the uploads of a file session keep out of each other's files.
import Tracenium.Rcp.Confinement
import Tracenium.Rcp.FileSession

/-!
An upload stays registered while it is being finished, when its descriptor is closed. What arrives for it then goes by
a number, and its rename by a name, that may be another upload's.
-/

open Utf16 OrderedMap Option Bool Nat

namespace Rcp

open Descriptors

namespace FileSession

variable {platform : Platform} (c : Endpoint platform) (s : FileSession platform)

/-- The file of an upload that completed has the chunks that were sent for it, and the reported
digest is that of the file. -/
def Intact : Prop :=
  ∀ d ∈ s.completions, s.disk.files d.file = s.sent d.transfer ∧ d.sha256 = c.sha256 (s.disk.files d.file)

/-- An event does not act on a file that another upload has under the same number or name, and the
system writes all of a chunk or nothing. -/
def keepsApart (s : FileSession platform) : Event platform → Bool
  | .message (.chunk transferId data) now =>
    (s.registered transferId).all fun (_, upload) =>
      upload.cancelled ||
        if maxUploadBytes now < upload.received + data.length then
          !upload.hash.digested || (s.disk.fds.get upload.fd).isNone
        else if upload.hash.digested then (s.disk.fds.get upload.fd).all isNone
        else now.write.toOption.all (data.length ≤ ·)
  | .message (.uploadDone transferId) _ =>
    (s.registered transferId).all fun (_, upload) =>
      !upload.hash.digested || (s.disk.fds.get upload.fd).isNone
  | .renameRun t none =>
    (s.finishing.get t).all fun f =>
      match f.stage with
      | .rename => (s.disk.staging.get (caseKey c.host f.transferId)).all (· = t)
      | _ => true
  | _ => true

def KeepsApart (s : FileSession platform) (e : Event platform) : Prop := keepsApart c s e = true

instance (s : FileSession platform) (e : Event platform) : Decidable (KeepsApart c s e) :=
  inferInstanceAs (Decidable (keepsApart c s e = true))

/-- The upload was finished, and its file has what was sent. -/
def Settled (t : Nat) (digest : Str) : Prop :=
  ∃ upload, s.states t = some upload ∧ upload.hash.digested = true ∧
    s.disk.files t = s.sent t ∧ digest = c.sha256 (s.sent t)

/-- A registered upload has its descriptor until it is finished, and an open descriptor is that of
its upload. -/
structure Apart : Prop where
  fresh : ∀ t upload, s.states t = some upload → t < s.next
  unsent : ∀ t, s.next ≤ t → s.sent t = []
  named : ∀ id t, s.uploads.get id = some t → ∃ upload, s.states t = some upload ∧ upload.tmpPath = id
  owned : ∀ n t, s.disk.fds.get n = some (some t) →
    ∃ upload, s.states t = some upload ∧ upload.fd = n ∧ upload.hash.digested = false
  held : ∀ id t upload, s.uploads.get id = some t → s.states t = some upload →
    upload.hash.digested = false → s.disk.fds.get upload.fd = some (some t)
  written : ∀ t upload, s.states t = some upload → upload.hash.digested = false →
    upload.failure = none → upload.cancelled = false →
    s.disk.files t = upload.hash.data ∧ upload.hash.data = s.sent t
  finished : ∀ t f, s.finishing.get t = some f →
    Settled c s t f.digest ∧ ∀ file, f.stage = .renamed (.ok file) → file = t
  complete : ∀ d ∈ s.completions, d.file = d.transfer ∧ Settled c s d.transfer d.sha256

section Apart

variable {c s}

theorem Apart.intact (hs : Apart c s) : Intact c s := by
  intro d hd
  obtain ⟨hfile, upload, -, -, hfiles, hdigest⟩ := hs.complete d hd
  rw [hfile, hfiles]
  exact ⟨rfl, hdigest⟩

theorem apart_opened : Apart c opened where
  fresh := nofun
  unsent := fun _ _ => rfl
  named := nofun
  owned := nofun
  held := nofun
  written := nofun
  finished := nofun
  complete := nofun

variable {upload : UploadState platform} {t : Nat}

theorem registered_eq_some {id : Str} :
    s.registered id = some (t, upload) ↔ s.uploads.get id = some t ∧ s.states t = some upload := by
  unfold registered
  cases s.uploads.get id with
  | none => exact iff_of_false nofun fun h => by cases h.1
  | some u =>
    rw [map_eq_some_iff, some_inj]
    constructor
    · rintro ⟨upload', hstate, heq⟩
      obtain ⟨rfl, rfl⟩ := Prod.mk.inj heq
      exact ⟨rfl, hstate⟩
    · rintro ⟨rfl, hstate⟩
      exact ⟨upload, hstate, rfl⟩

/-- What was settled stays so while its state is kept and nothing writes to its file. -/
theorem Settled.mono {s' : FileSession platform} {digest : Str} (h : Settled c s t digest)
    (hstates : ∀ upload, s.states t = some upload → upload.hash.digested →
      ∃ upload', s'.states t = some upload' ∧ upload'.hash.digested)
    (hfiles : s'.disk.files t = s.disk.files t) (hsent : s'.sent t = s.sent t) : Settled c s' t digest := by
  obtain ⟨upload, hstate, hdigested, hwritten, hdigest⟩ := h
  obtain ⟨upload', hstate', hdigested'⟩ := hstates upload hstate hdigested
  refine ⟨upload', hstate', hdigested', ?_, ?_⟩
  · rw [hfiles, hsent]
    exact hwritten
  · rw [hsent]
    exact hdigest

theorem setState_self (t : Nat) (upload : UploadState platform) :
    (s.setState t upload).states t = some upload := if_pos rfl

theorem setState_of_ne {t u : Nat} (upload : UploadState platform) (h : u ≠ t) :
    (s.setState t upload).states u = s.states u := if_neg h

theorem of_setState {t u : Nat} {upload other : UploadState platform}
    (h : (s.setState t upload).states u = some other) :
    (u = t ∧ other = upload) ∨ (u ≠ t ∧ s.states u = some other) := by
  by_cases hut : u = t
  · subst hut
    rw [setState_self] at h
    exact .inl ⟨rfl, (some.inj h).symm⟩
  · exact .inr ⟨hut, (setState_of_ne upload hut).symm.trans h⟩

/-- The state of an upload is replaced, and its descriptor and its file may change with it. -/
theorem Apart.replace (hs : Apart c s) (hstate : s.states t = some upload) (upload' : UploadState platform)
    (fds : Descriptors (Option Nat)) (files sent : Nat → Bytes) (hfd : upload'.fd = upload.fd)
    (htmp : upload'.tmpPath = upload.tmpPath) (hdone : upload.hash.digested → upload'.hash.digested)
    (hfiles : ∀ u, u ≠ t ∨ upload.hash.digested → files u = s.disk.files u)
    (hsent : ∀ u, u ≠ t ∨ upload.hash.digested → sent u = s.sent u)
    (hfds : ∀ n u, fds.get n = some (some u) → s.disk.fds.get n = some (some u) ∧
      (u = t → upload'.hash.digested = false))
    (hheld : ∀ id u other, s.uploads.get id = some u → s.states u = some other →
      other.hash.digested = false → (u = t → upload'.hash.digested = false) →
      fds.get other.fd = s.disk.fds.get other.fd) (hwritten : upload'.hash.digested = false → upload'.failure = none →
      upload'.cancelled = false → files t = upload'.hash.data ∧ upload'.hash.data = sent t) :
    Apart c ({ s with disk := { s.disk with fds := fds, files := files }, sent := sent }.setState
      t upload') := by
  have hsettled : ∀ u digest, Settled c s u digest → Settled c
      ({ s with disk := { s.disk with fds := fds, files := files }, sent := sent }.setState t upload')
      u digest := by
    intro u digest hu
    have hor : u ≠ t ∨ upload.hash.digested := by
      by_cases hut : u = t
      · subst hut
        obtain ⟨other, hother, hdigested, -⟩ := hu
        cases hstate.symm.trans hother
        exact .inr hdigested
      · exact .inl hut
    refine hu.mono ?_ (hfiles u hor) (hsent u hor)
    intro other hother hdigested
    by_cases hut : u = t
    · subst hut
      cases hstate.symm.trans hother
      exact ⟨upload', setState_self u upload', hdone hdigested⟩
    · exact ⟨other, (setState_of_ne upload' hut).trans hother, hdigested⟩
  constructor
  · intro u other hother
    rcases of_setState hother with ⟨rfl, -⟩ | ⟨-, hother⟩
    · exact hs.fresh u upload hstate
    · exact hs.fresh u other hother
  · intro u hu
    have hne : u ≠ t := by
      rintro rfl
      exact absurd (hs.fresh u upload hstate) (Nat.not_lt_of_le hu)
    exact (hsent u (.inl hne)).trans (hs.unsent u hu)
  · intro id u hid
    obtain ⟨other, hother, hname⟩ := hs.named id u hid
    by_cases hut : u = t
    · subst hut
      cases hstate.symm.trans hother
      exact ⟨upload', setState_self u upload', htmp.trans hname⟩
    · exact ⟨other, (setState_of_ne upload' hut).trans hother, hname⟩
  · intro n u hn
    obtain ⟨hn, hlive'⟩ := hfds n u hn
    obtain ⟨other, hother, hnum, hlive⟩ := hs.owned n u hn
    by_cases hut : u = t
    · subst hut
      cases hstate.symm.trans hother
      exact ⟨upload', setState_self u upload', hfd.trans hnum, hlive' rfl⟩
    · exact ⟨other, (setState_of_ne upload' hut).trans hother, hnum, hlive⟩
  · intro id u other hid hother hlive
    rcases of_setState hother with ⟨rfl, rfl⟩ | ⟨hut, hother⟩
    · have hlive₀ : upload.hash.digested = false := by
        cases hdigested : upload.hash.digested with
        | false => rfl
        | true => cases (hdone hdigested).symm.trans hlive
      rw [hfd]
      exact (hheld id u upload hid hstate hlive₀ fun _ => hlive).trans
        (hs.held id u upload hid hstate hlive₀)
    · exact (hheld id u other hid hother hlive fun h => absurd h hut).trans
        (hs.held id u other hid hother hlive)
  · intro u other hother hlive hfailure hcancelled
    rcases of_setState hother with ⟨rfl, rfl⟩ | ⟨hut, hother⟩
    · exact hwritten hlive hfailure hcancelled
    · obtain ⟨hdata, hall⟩ := hs.written u other hother hlive hfailure hcancelled
      exact ⟨(hfiles u (.inl hut)).trans hdata, hall.trans (hsent u (.inl hut)).symm⟩
  · intro u f hf
    exact ⟨hsettled u f.digest (hs.finished u f hf).1, (hs.finished u f hf).2⟩
  · intro d hd
    exact ⟨(hs.complete d hd).1, hsettled d.transfer d.sha256 (hs.complete d hd).2⟩

/-- An upload that is not finished may be written to and changed. -/
theorem Apart.touch (hs : Apart c s) (hstate : s.states t = some upload) (hlive : upload.hash.digested = false)
    (upload' : UploadState platform) (files sent : Nat → Bytes) (hfd : upload'.fd = upload.fd)
    (htmp : upload'.tmpPath = upload.tmpPath) (hlive' : upload'.hash.digested = false)
    (hfiles : ∀ u, u ≠ t → files u = s.disk.files u) (hsent : ∀ u, u ≠ t → sent u = s.sent u)
    (hwritten : upload'.failure = none → upload'.cancelled = false →
      files t = upload'.hash.data ∧ upload'.hash.data = sent t) :
    Apart c ({ s with disk := { s.disk with files := files }, sent := sent }.setState t upload') := by
  have hnot : upload.hash.digested ≠ true := eq_false_iff.mp hlive
  apply hs.replace hstate upload' s.disk.fds files sent hfd htmp (fun h => absurd h hnot)
  · exact fun u hu => hfiles u (hu.resolve_right hnot)
  · exact fun u hu => hsent u (hu.resolve_right hnot)
  · exact fun n u hn => ⟨hn, fun _ => hlive'⟩
  · exact fun _ _ _ _ _ _ _ => rfl
  · exact fun _ => hwritten

/-- An upload that was finished may be changed. -/
theorem Apart.mark (hs : Apart c s) {upload upload' : UploadState platform}
    (hstate : s.states t = some upload) (hdone : upload.hash.digested)
    (hfd : upload'.fd = upload.fd) (htmp : upload'.tmpPath = upload.tmpPath)
    (hdone' : upload'.hash.digested) : Apart c (s.setState t upload') := by
  apply hs.replace hstate upload' s.disk.fds s.disk.files s.sent hfd htmp (fun _ => hdone')
  · exact fun _ _ => rfl
  · exact fun _ _ => rfl
  · intro n u hn
    refine ⟨hn, ?_⟩
    rintro rfl
    obtain ⟨other, hother, -, hlive⟩ := hs.owned n u hn
    cases hstate.symm.trans hother
    cases hdone.symm.trans hlive
  · exact fun _ _ _ _ _ _ _ => rfl
  · exact fun hlive' => absurd (hdone'.symm.trans hlive') Bool.noConfusion

theorem Apart.delete (hs : Apart c s) (id : Str) : Apart c { s with uploads := s.uploads.delete id } := by
  have hkept : ∀ {id' : Str} {t : Nat}, (s.uploads.delete id).get id' = some t →
      s.uploads.get id' = some t := by
    intro id' t hid
    rw [get_eq_some_iff, mem_delete] at hid
    exact get_eq_some_iff.mpr hid.1
  exact
    { hs with
      named := fun id' t hid => hs.named id' t (hkept hid)
      held := fun id' t upload hid => hs.held id' t upload (hkept hid) }

/-- A descriptor may be closed that no upload needs. -/
theorem Apart.close (hs : Apart c s) {n : Nat}
    (hn : ∀ id t upload, s.uploads.get id = some t → s.states t = some upload →
      upload.hash.digested = false → upload.fd ≠ n) : Apart c { s with disk := s.disk.closeSync n } :=
  { hs with
    owned := fun m t hm => hs.owned m t (of_get_close hm).2
    held := by
      intro id t upload hid hstate hlive
      exact (get_close_of_ne (hn id t upload hid hstate hlive)).trans
        (hs.held id t upload hid hstate hlive) }

/-- The descriptor of an upload is no other upload's. -/
theorem Apart.fd_ne (hs : Apart c s) {id id' : Str} {t u : Nat} {upload other : UploadState platform}
    (hid : s.uploads.get id = some t) (hstate : s.states t = some upload)
    (hfd : upload.hash.digested → s.disk.fds.get upload.fd = none)
    (hid' : s.uploads.get id' = some u) (hother : s.states u = some other)
    (hlive : other.hash.digested = false) (hne : u ≠ t) : other.fd ≠ upload.fd := by
  intro heq
  have hheld := hs.held id' u other hid' hother hlive
  rw [heq] at hheld
  cases hdigested : upload.hash.digested with
  | false =>
    have hown := hs.held id t upload hid hstate hdigested
    exact hne (some.inj (some.inj (hheld.symm.trans hown)))
  | true =>
    rw [hfd hdigested] at hheld
    cases hheld

/-- An upload is finished: its descriptor is closed, and its digest taken. -/
theorem Apart.finish (hs : Apart c s) {id : Str} (hid : s.uploads.get id = some t) (hstate : s.states t = some upload)
    (hlive : upload.hash.digested = false) (failure : Option Reason) :
    Apart c ({ s with disk := s.disk.closeSync upload.fd }.setState t
      { upload with hash := ⟨upload.hash.data, true⟩, failure := failure }) := by
  have hnot : upload.hash.digested ≠ true := eq_false_iff.mp hlive
  apply hs.replace hstate { upload with hash := ⟨upload.hash.data, true⟩, failure := failure }
    (s.disk.fds.close upload.fd) s.disk.files s.sent
  · rfl
  · rfl
  · exact fun _ => rfl
  · exact fun _ _ => rfl
  · exact fun _ _ => rfl
  · intro n u hn
    obtain ⟨hne, hn⟩ := of_get_close hn
    refine ⟨hn, ?_⟩
    rintro rfl
    obtain ⟨other, hother, hnum, -⟩ := hs.owned n u hn
    cases hstate.symm.trans hother
    exact absurd hnum.symm hne
  · intro id' u other hid' hother hlive' hut
    apply get_close_of_ne
    apply hs.fd_ne hid hstate (fun h => absurd h hnot) hid' hother hlive'
    intro heq
    cases hut heq
  · exact fun h => by cases h

/-- A new upload gets a descriptor and a file of its own. -/
theorem Apart.start (hs : Apart c s) (ht : t = s.next) {fd : Nat} {disk : Disk}
    {id name : Str} {error : Option Reason} (hopen : s.disk.openStaged c.host name t error = .ok (fd, disk))
    (hfd : upload.fd = fd) (htmp : upload.tmpPath = id) (hhash : upload.hash = ⟨[], false⟩) :
    Apart c ({ s with next := t + 1, disk := disk, uploads := s.uploads.set id t }.setState t upload) := by
  subst ht
  have hdisk : fd = s.disk.fds.free ∧ disk.fds = s.disk.fds.openFile (some s.next) ∧
      disk.files = fun u => if u = s.next then [] else s.disk.files u := by
    unfold Disk.openStaged at hopen
    split at hopen
    · cases hopen
    · split at hopen
      · cases hopen
      · cases hopen
        exact ⟨rfl, rfl, rfl⟩
  obtain ⟨rfl, hfds, hfiles⟩ := hdisk
  have hne : ∀ {u : Nat} {other : UploadState platform}, s.states u = some other → u ≠ s.next :=
    fun hother => Nat.ne_of_lt (hs.fresh _ _ hother)
  have hsettled : ∀ u digest, Settled c s u digest → Settled c
      ({ s with next := s.next + 1, disk := disk, uploads := s.uploads.set id s.next }.setState
        s.next upload) u digest := by
    intro u digest hu
    have hut : u ≠ s.next := by
      obtain ⟨other, hother, -⟩ := hu
      exact hne hother
    refine hu.mono ?_ ?_ rfl
    · intro other hother hdigested
      exact ⟨other, (setState_of_ne upload hut).trans hother, hdigested⟩
    · exact (congrFun hfiles u).trans (if_neg hut)
  have hreg : ∀ {id' : Str} {u : Nat}, (s.uploads.set id s.next).get id' = some u →
      (id' = id ∧ u = s.next) ∨ s.uploads.get id' = some u := by
    intro id' u hid'
    by_cases hid : id' = id
    · subst hid
      rw [get_set_self] at hid'
      exact .inl ⟨rfl, (some.inj hid').symm⟩
    · rw [get_set_of_ne hid] at hid'
      exact .inr hid'
  constructor
  · intro u other hother
    rcases of_setState hother with ⟨rfl, -⟩ | ⟨-, hother⟩
    · exact lt_succ_self _
    · exact lt_succ_of_lt (hs.fresh u other hother)
  · exact fun u hu => hs.unsent u (le_of_succ_le hu)
  · intro id' u hid'
    rcases hreg hid' with ⟨rfl, rfl⟩ | hid'
    · exact ⟨upload, setState_self _ upload, htmp⟩
    · obtain ⟨other, hother, hname⟩ := hs.named id' u hid'
      exact ⟨other, (setState_of_ne upload (hne hother)).trans hother, hname⟩
  · intro n u hn
    change disk.fds.get n = some (some u) at hn
    rw [hfds] at hn
    rcases of_get_openFile hn with ⟨rfl, heq⟩ | hn
    · obtain rfl := some.inj heq
      exact ⟨upload, setState_self _ upload, hfd, by rw [hhash]⟩
    · obtain ⟨other, hother, hnum, hlive⟩ := hs.owned n u hn
      exact ⟨other, (setState_of_ne upload (hne hother)).trans hother, hnum, hlive⟩
  · intro id' u other hid' hother hlive
    show disk.fds.get other.fd = _
    rw [hfds]
    rcases of_setState hother with ⟨rfl, rfl⟩ | ⟨hut, hother⟩
    · rw [hfd]
      exact get_openFile_self _ _
    · apply get_openFile_of_get
      rcases hreg hid' with ⟨-, rfl⟩ | hid'
      · exact absurd rfl hut
      · exact hs.held id' u other hid' hother hlive
  · intro u other hother hlive hfailure hcancelled
    rcases of_setState hother with ⟨rfl, rfl⟩ | ⟨hut, hother⟩
    · refine ⟨?_, ?_⟩
      · rw [hhash]
        exact (congrFun hfiles _).trans (if_pos rfl)
      · rw [hhash]
        exact (hs.unsent _ (le_refl _)).symm
    · obtain ⟨hdata, hall⟩ := hs.written u other hother hlive hfailure hcancelled
      exact ⟨((congrFun hfiles u).trans (if_neg hut)).trans hdata, hall⟩
  · intro u f hf
    exact ⟨hsettled u f.digest (hs.finished u f hf).1, (hs.finished u f hf).2⟩
  · intro d hd
    exact ⟨(hs.complete d hd).1, hsettled d.transfer d.sha256 (hs.complete d hd).2⟩

/-- What an upload is being finished with changes. -/
theorem Apart.finishing (hs : Apart c s) {f : Finishing platform}
    (hsettled : Settled c s t f.digest) (hfile : ∀ file, f.stage = .renamed (.ok file) → file = t) :
    Apart c { s with finishing := s.finishing.set t f } :=
  { hs with
    finished := by
      intro u g hg
      by_cases hut : u = t
      · subst hut
        rw [get_set_self] at hg
        obtain rfl := some.inj hg
        exact ⟨hsettled, hfile⟩
      · rw [get_set_of_ne hut] at hg
        exact hs.finished u g hg }

theorem Apart.settle (hs : Apart c s) (t : Nat) : Apart c { s with finishing := s.finishing.delete t } :=
  { hs with
    finished := by
      intro u g hg
      rw [get_eq_some_iff, mem_delete] at hg
      exact hs.finished u g (get_eq_some_iff.mpr hg.1) }

/-! ## Steps -/

theorem Apart.handleDownload (hs : Apart c s) (id path : Str) (now : Now platform) :
    Apart c (handleDownload c s id path now) := by
  have hnext : Apart c { s with next := s.next + 1 } :=
    { hs with
      fresh := fun t upload hstate => lt_succ_of_lt (hs.fresh t upload hstate)
      unsent := fun t ht => hs.unsent t (le_of_succ_le ht) }
  unfold FileSession.handleDownload
  split
  · exact { hnext with }
  · exact { hnext with }

theorem Apart.handleUploadStart (hs : Apart c s) (id path : Str) (size : Size) (now : Now platform) :
    Apart c (handleUploadStart c s id path size now) := by
  have hnext : Apart c { s with next := s.next + 1 } :=
    { hs with
      fresh := fun t upload hstate => lt_succ_of_lt (hs.fresh t upload hstate)
      unsent := fun t ht => hs.unsent t (le_of_succ_le ht) }
  unfold FileSession.handleUploadStart
  dsimp only
  split
  · exact { hnext with }
  · split
    · exact { hnext with }
    · split
      · exact { hnext with }
      · rename_i fd disk hopen
        exact { hs.start rfl hopen rfl rfl rfl with }

/-- What a write that succeeds leaves. -/
theorem writeSync_eq_ok {disk disk' : Disk} {fd : Nat} {data : Bytes} {result : Except Reason Nat}
    (h : disk.writeSync fd data result = .ok disk') :
    (disk.fds.get fd = some none ∧ disk' = disk) ∨
      ∃ file count, disk.fds.get fd = some (some file) ∧ result = .ok count ∧ disk' = { disk with
          files := fun t => if t = file then disk.files t ++ data.take count else disk.files t } := by
  unfold Disk.writeSync at h
  split at h
  · cases h
  · cases h
  · cases h
    exact .inl ⟨‹_›, rfl⟩
  · rename_i file count hfd
    cases h
    exact .inr ⟨file, count, hfd, rfl, rfl⟩

theorem setState_eq_self (h : s.states t = some upload) : s.setState t upload = s := by
  have hstates : (fun u => if u = t then some upload else s.states u) = s.states := by
    funext u
    split
    · rename_i hut
      rw [hut, h]
    · rfl
  unfold setState
  rw [hstates]

/-- What is sent for an upload after it was finished is not counted. -/
theorem observe_chunk {id : Str} {data : Bytes}
    (hreg : s.registered id = some (t, upload)) :
    observe s id data = { s with
      sent := fun u => if u = t ∧ upload.hash.digested = false then s.sent u ++ data else s.sent u } := by
  unfold observe
  rw [hreg]
  dsimp only
  cases upload.hash.digested with
  | true => simp
  | false => simp

/-- An upload is stopped, and its entry goes. -/
theorem Apart.stop (hs : Apart c s) {id : Str} (hid : s.uploads.get id = some t) (hstate : s.states t = some upload)
    (hfd : upload.hash.digested → s.disk.fds.get upload.fd = none) {sent : Nat → Bytes}
    (hsent : ∀ u, u ≠ t ∨ upload.hash.digested → sent u = s.sent u) : Apart c ({ s with
      uploads := s.uploads.delete id
      disk := s.disk.closeSync upload.fd
      sent := sent }.setState t { upload with cancelled := true }) := by
  have hclosed := (hs.delete id).close (n := upload.fd) (by
    intro id' u other hid' hother hlive
    obtain ⟨hmem, hne⟩ := mem_delete.mp (get_eq_some_iff.mp hid')
    have hid' := get_eq_some_iff.mpr hmem
    apply hs.fd_ne hid hstate hfd hid' hother hlive
    -- an upload is registered under its own name only
    rintro rfl
    obtain ⟨first, hfirst, hname⟩ := hs.named id u hid
    obtain ⟨second, hsecond, hname'⟩ := hs.named id' u hid'
    cases hfirst.symm.trans hsecond
    exact hne (hname'.symm.trans hname))
  apply hclosed.replace hstate { upload with cancelled := true } (s.disk.fds.close upload.fd)
    s.disk.files sent
  · rfl
  · rfl
  · exact fun h => h
  · exact fun _ _ => rfl
  · exact hsent
  · intro n u hn
    refine ⟨hn, ?_⟩
    rintro rfl
    obtain ⟨other, hother, -, hlive⟩ := hclosed.owned n u hn
    cases hstate.symm.trans hother
    exact hlive
  · exact fun _ _ _ _ _ _ _ => rfl
  · exact fun _ _ hcancelled => by cases hcancelled

theorem Apart.chunk (hs : Apart c s) {id : Str} {data : Bytes} {now : Now platform}
    (hkeeps : KeepsApart c s (.message (.chunk id data) now)) :
    Apart c (handleChunk c (observe s id data) id data now) := by
  cases hreg : s.registered id with
  | none =>
    have hsame : observe s id data = s := by
      unfold observe
      rw [hreg]
    rw [hsame]
    unfold handleChunk
    rw [hreg]
    exact hs
  | some entry =>
    obtain ⟨t, upload⟩ := entry
    obtain ⟨hid, hstate⟩ := registered_eq_some.mp hreg
    rw [observe_chunk hreg]
    have hsent : ∀ u, u ≠ t ∨ upload.hash.digested = true →
        (if u = t ∧ upload.hash.digested = false then s.sent u ++ data else s.sent u) = s.sent u := by
      intro u hu
      refine if_neg ?_
      rintro ⟨hut, hlive⟩
      rcases hu with hne | hdone
      · exact hne hut
      · cases hlive.symm.trans hdone
    have hfds : ∀ n u, s.disk.fds.get n = some (some u) → s.disk.fds.get n = some (some u) ∧
        (u = t → upload.hash.digested = false) := by
      intro n u hn
      refine ⟨hn, ?_⟩
      rintro rfl
      obtain ⟨other, hother, -, hlive⟩ := hs.owned n u hn
      cases hstate.symm.trans hother
      exact hlive
    -- what happens to an upload that cannot complete any more
    have hspoilt : ∀ upload' : UploadState platform, upload'.fd = upload.fd →
        upload'.tmpPath = upload.tmpPath → upload'.hash.digested = upload.hash.digested →
        upload'.failure ≠ none ∨ upload'.cancelled = true → Apart c ({ s with
          sent := fun u => if u = t ∧ upload.hash.digested = false then s.sent u ++ data else s.sent u
            }.setState t upload') := by
      intro upload' hfd htmp hsame hnever
      apply hs.replace hstate upload' s.disk.fds s.disk.files _ hfd htmp (fun h => hsame.trans h)
      · exact fun _ _ => rfl
      · exact hsent
      · exact fun n u hn => ⟨hn, fun hut => hsame.trans ((hfds n u hn).2 hut)⟩
      · exact fun _ _ _ _ _ _ _ => rfl
      · intro _ hfailure hcancelled
        rcases hnever with h | h
        · exact absurd hfailure h
        · cases h.symm.trans hcancelled
    have hreg' : ({ s with
        sent := fun u => if u = t ∧ upload.hash.digested = false then s.sent u ++ data else s.sent u } :
          FileSession platform).registered id = some (t, upload) := hreg
    unfold handleChunk
    rw [hreg']
    dsimp only
    split
    · rename_i hcancelled
      have h := hspoilt upload rfl rfl rfl (.inr hcancelled)
      rw [setState_eq_self] at h
      · exact h
      · exact hstate
    · rename_i hcancelled
      have hkeep : (if maxUploadBytes now < upload.received + data.length then
          !upload.hash.digested || (s.disk.fds.get upload.fd).isNone
        else if upload.hash.digested then (s.disk.fds.get upload.fd).all isNone
        else now.write.toOption.all (data.length ≤ ·)) = true := by
        unfold KeepsApart keepsApart at hkeeps
        dsimp only at hkeeps
        rw [hreg, Option.all_some, Bool.eq_false_iff.mpr hcancelled, Bool.false_or] at hkeeps
        exact hkeeps
      split
      · rename_i hover
        rw [if_pos hover] at hkeep
        refine { hs.stop hid hstate (fun hdone => ?_) hsent with }
        rw [hdone, Bool.not_true, Bool.false_or] at hkeep
        exact isNone_iff_eq_none.mp hkeep
      · rename_i hover
        rw [if_neg hover] at hkeep
        split
        · exact hspoilt _ rfl rfl rfl (.inl nofun)
        · rename_i disk' hwrite
          cases hdigested : upload.hash.digested with
          | true =>
            rw [if_pos hdigested] at hkeep
            rcases writeSync_eq_ok hwrite with ⟨-, rfl⟩ | ⟨file, -, hfile, -⟩
            · rw [if_pos rfl]
              have h := hspoilt { upload with failure := some digestCalled } rfl rfl rfl (.inl nofun)
              rw [hdigested] at h
              exact h
            · rw [hfile] at hkeep
              cases hkeep
          | false =>
            rw [if_neg (eq_false_iff.mp hdigested)] at hkeep
            have hheld := hs.held id t upload hid hstate hdigested
            rcases writeSync_eq_ok hwrite with ⟨hnone, -⟩ | ⟨file, count, hfile, hcount, rfl⟩
            · cases hheld.symm.trans hnone
            · obtain rfl := some.inj (some.inj (hheld.symm.trans hfile))
              have hall : data.take count = data := by
                rw [hcount] at hkeep
                exact List.take_of_length_le (of_decide_eq_true hkeep)
              apply hs.touch hstate hdigested
              · rfl
              · rfl
              · rfl
              · exact fun u hu => if_neg hu
              · exact fun u hu => if_neg fun h => hu h.1
              · intro hfailure hcancelled
                obtain ⟨hdata, hsame⟩ := hs.written t upload hstate hdigested hfailure hcancelled
                rw [if_pos rfl, if_pos ⟨rfl, rfl⟩, hall, hdata, ← hsame]
                exact ⟨rfl, rfl⟩

theorem failure_of_failureAtEnd (h : failureAtEnd c upload = none) : upload.failure = none := by
  unfold failureAtEnd at h
  split at h
  · cases h
  · exact h

theorem Apart.uploadDone (hs : Apart c s) {id : Str} {now : Now platform}
    (hkeeps : KeepsApart c s (.message (.uploadDone id) now)) : Apart c (handleUploadDone c s id now) := by
  unfold handleUploadDone
  cases hreg : s.registered id with
  | none => exact hs
  | some entry =>
    obtain ⟨t, upload⟩ := entry
    obtain ⟨hid, hstate⟩ := registered_eq_some.mp hreg
    dsimp only
    cases hdigested : upload.hash.digested with
    | true =>
      apply hs.close
      intro id' u other hid' hother hlive
      have hstale : s.disk.fds.get upload.fd = none := by
        unfold KeepsApart keepsApart at hkeeps
        dsimp only at hkeeps
        rw [hreg, Option.all_some, hdigested, Bool.not_true, Bool.false_or] at hkeeps
        exact isNone_iff_eq_none.mp hkeeps
      apply hs.fd_ne hid hstate (fun _ => hstale) hid' hother hlive
      rintro rfl
      cases hstate.symm.trans hother
      cases hdigested.symm.trans hlive
    | false =>
      rw [if_neg Bool.false_ne_true]
      have hfinish := hs.finish hid hstate hdigested (failureAtEnd c upload)
      split
      · exact { hfinish.delete id with }
      · rename_i hnone
        split
        · exact { hfinish.delete id with }
        · rename_i hcancelled
          split
          · exact { hfinish.delete id with }
          · obtain ⟨hdata, hall⟩ := hs.written t upload hstate hdigested
              (failure_of_failureAtEnd hnone) (eq_false_iff.mpr hcancelled)
            apply hfinish.finishing
            · exact ⟨_, setState_self t _, rfl, hdata.trans hall, congrArg c.sha256 hall⟩
            · exact fun _ h => by cases h

theorem Apart.finalizeFailed (hs : Apart c s) (t : Nat) (f : Finishing platform) (e : Reason) :
    Apart c (finalizeFailed c s t f e) := by
  unfold FileSession.finalizeFailed
  split
  · exact { (hs.settle t).delete f.transferId with }
  · exact hs

theorem Apart.mkdirDone (hs : Apart c s) (t : Nat) (error : Option Reason) : Apart c (mkdirDone c s t error) := by
  unfold FileSession.mkdirDone
  split
  · rename_i f hf
    split
    · exact hs.finalizeFailed t f _
    · exact hs.finishing (hs.finished t f hf).1 fun _ h => by cases h
    · exact hs
  · exact hs

theorem Apart.renameRun (hs : Apart c s) {error : Option Reason}
    (hkeeps : KeepsApart c s (.renameRun t error)) : Apart c (renameRun c s t error) := by
  unfold FileSession.renameRun
  split
  · rename_i f hf
    have hsettled := (hs.finished t f hf).1
    split
    · exact hs.finishing hsettled fun _ h => by cases h
    · rename_i hstage
      split
      · exact hs.finishing hsettled fun _ h => by cases h
      · rename_i file hfile
        have hown : file = t := by
          unfold KeepsApart keepsApart at hkeeps
          dsimp only at hkeeps
          rw [hf, all_some, hstage] at hkeeps
          dsimp only at hkeeps
          rw [hfile] at hkeeps
          exact of_decide_eq_true hkeeps
        exact { hs.finishing (f := { f with stage := .renamed (.ok file) }) hsettled
          fun _ h => by cases h; exact hown with }
    · exact hs
  · exact hs

theorem Apart.renameDone (hs : Apart c s) (t : Nat) : Apart c (renameDone c s t) := by
  unfold FileSession.renameDone
  split
  · rename_i f hf
    obtain ⟨hsettled, hfile⟩ := hs.finished t f hf
    split
    · exact hs.finalizeFailed t f _
    · rename_i file hstage
      split
      · have hgone := (hs.settle t).delete f.transferId
        exact
          { hgone with
            complete := by
              intro d hd
              rcases List.mem_append.mp hd with hd | hd
              · exact hs.complete d hd
              · obtain rfl := List.mem_singleton.mp hd
                exact ⟨hfile file hstage, hsettled⟩ }
      · exact hs
    · exact hs
  · exact hs

theorem Apart.handleCancel (hs : Apart c s) (id : Str) : Apart c (handleCancel s id) := by
  unfold FileSession.handleCancel
  dsimp only
  split
  · rename_i t upload hreg
    obtain ⟨hid, hstate⟩ := registered_eq_some.mp hreg
    have hmarked : Apart c (s.setState t { upload with cancelled := true }) := by
      cases hdigested : upload.hash.digested with
      | true => exact hs.mark hstate hdigested rfl rfl hdigested
      | false =>
        apply hs.touch hstate hdigested { upload with cancelled := true } s.disk.files s.sent
        · rfl
        · rfl
        · exact hdigested
        · exact fun _ _ => rfl
        · exact fun _ _ => rfl
        · exact fun _ h => by cases h
    exact { hmarked with }
  · exact { hs with }

/-- Closing descriptors opens none. -/
theorem of_get_closeAll {entries : List (Str × Nat)} {fds : Descriptors (Option Nat)} {n : Nat}
    {f : Option Nat}
    (h : (entries.foldl (fun fds e => match s.states e.2 with
      | some upload => fds.close upload.fd
      | none => fds) fds).get n = some f) : fds.get n = some f := by
  induction entries generalizing fds with
  | nil => exact h
  | cons e entries ih =>
    have hrest := ih h
    dsimp only at hrest
    split at hrest
    · exact (of_get_close hrest).2
    · exact hrest

theorem Apart.cleanupAllUploads (hs : Apart c s) : Apart c (cleanupAllUploads s) :=
  { hs with
    named := nofun
    owned := fun n t hn => hs.owned n t (of_get_closeAll hn)
    held := fun _ _ _ h => by cases h }

theorem Apart.handleMessage (hs : Apart c s) {m : Message} {now : Now platform}
    (hkeeps : KeepsApart c s (.message m now)) : Apart c (handleMessage c s m now) := by
  unfold FileSession.handleMessage
  split
  · exact { hs with }
  · cases m with
    | download id path => exact hs.handleDownload id path now
    | upload id path size => exact hs.handleUploadStart id path size now
    | chunk id data => exact hs.chunk hkeeps
    | uploadDone id => exact hs.uploadDone hkeeps
    | cancel id => exact hs.handleCancel id

/-! Downloads leave the uploads alone. -/

theorem Apart.readNext (hs : Apart c s) (t : Nat) (d : Download platform) : Apart c (readNext s t d) := { hs with }

theorem Apart.finishDownload (hs : Apart c s) (t : Nat) (d : Download platform)
    (outcome : Except Reason Bool) : Apart c (finishDownload s t d outcome) := by
  unfold FileSession.finishDownload
  split
  · exact { hs with }
  · exact { hs with }

theorem Apart.statDone (hs : Apart c s) (t : Nat) (result : Except Reason Nat) : Apart c (statDone s t result) := by
  unfold FileSession.statDone
  split
  · split
    · exact { hs with }
    · exact { hs with }
    · exact hs
  · exact hs

theorem Apart.openDone (hs : Apart c s) (t : Nat) (error : Option Reason) : Apart c (openDone s t error) := by
  unfold FileSession.openDone
  split
  · split
    · exact hs.finishDownload _ _ _
    · exact hs.readNext _ _
    · exact hs
  · exact hs

theorem Apart.readDone (hs : Apart c s) (t : Nat) (result : Except Reason Bytes) : Apart c (readDone s t result) := by
  unfold FileSession.readDone
  split
  · split
    · exact { hs with }
    · exact { hs with }
    · exact { hs with }
    · exact hs
  · exact hs

theorem Apart.closeDone (hs : Apart c s) (t : Nat) (error : Option Reason) : Apart c (closeDone s t error) := by
  unfold FileSession.closeDone
  split
  · split
    · exact hs.finishDownload _ _ _
    · exact hs.finishDownload _ _ _
    · exact hs
  · exact hs

/-- A step that acts on no file of another upload keeps the uploads apart. -/
theorem Apart.step (hs : Apart c s) {e : Event platform} (hkeeps : KeepsApart c s e) : Apart c (step c s e) := by
  unfold FileSession.step
  cases e with
  | message m now =>
    dsimp only
    split
    · exact hs
    · exact hs.handleMessage hkeeps
  | statDone t result => exact hs.statDone t result
  | openDone t error => exact hs.openDone t error
  | readDone t result => exact hs.readDone t result
  | closeDone t error => exact hs.closeDone t error
  | mkdirDone t error => exact hs.mkdirDone t error
  | renameRun t error => exact hs.renameRun hkeeps
  | renameDone t => exact hs.renameDone t
  | othersOpen =>
    exact
      { hs with
        owned := by
          intro n t hn
          rcases of_get_openFile hn with ⟨-, h⟩ | hn
          · cases h
          · exact hs.owned n t hn
        held := fun id t upload hid hstate hlive =>
          get_openFile_of_get (hs.held id t upload hid hstate hlive) }
  | othersClose fd =>
    dsimp only
    split
    · rename_i hnone
      apply hs.close
      rintro id t upload hid hstate hlive rfl
      cases (hs.held id t upload hid hstate hlive).symm.trans hnone
    · exact hs
  | closed => exact (show Apart c { s with closed := true } from { hs with }).cleanupAllUploads
  | dispose =>
    dsimp only
    unfold FileSession.dispose
    split
    · exact hs
    · exact (show Apart c { s with disposed := true } from { hs with }).cleanupAllUploads

end Apart

/-- In every state of a run whose steps all keep the uploads apart, the files of the uploads that
completed have what was sent for them. -/
theorem always_intact (c : Endpoint platform) {tr : List (Event platform)}
    (h : (machine c).Guarded (KeepsApart c) tr) : (machine c).Always (Intact c) tr :=
  (h.always (apart_opened (c := c)) fun _ _ hs hkeeps => hs.step hkeeps).mono fun _ hs => hs.intact

/-! ## Two uploads -/

/-- The digest of the sample is the bytes themselves. -/
def sampleEndpoint : Endpoint .linux where
  host := sampleHost
  jail := sampleJail
  sha256 := List.map UInt8.toUInt16
  numeral := fun _ => []

/-- The disk answers, and takes every chunk. -/
def sampleNow : Now .linux := ⟨sampleFiles, none, none, .ok 64⟩

def message (m : Message) : Event .linux := .message m sampleNow

def putUpload (id : Str) (data : Bytes) : List (Event .linux) :=
  [message (.upload id (text "/tmp/" ++ id) (.finite data.length)), message (.chunk id data),
    message (.uploadDone id)]

def finalize (t : Nat) : List (Event .linux) := [.mkdirDone t none, .renameRun t none, .renameDone t]

/-- One upload. -/
theorem always_intact_single :
    (machine sampleEndpoint).Always (Intact sampleEndpoint) (putUpload (text "a") [1] ++ finalize 0) :=
  always_intact sampleEndpoint (Machine.guarded_iff_guardedFrom.mpr (by
    refine ⟨?_, ?_, ?_, ?_, ?_, ?_, trivial⟩ <;> decide +kernel))

/-- While the first upload is renamed, a second one gets its descriptor, and then another chunk of
the first one comes. -/
def lateChunk : List (Event .linux) :=
  putUpload (text "a") [1] ++
    [message (.upload (text "b") (text "/tmp/b") (.finite 1)), message (.chunk (text "a") [9]),
      message (.chunk (text "b") [2]), message (.uploadDone (text "b"))] ++ finalize 1

/-- The second file has the chunk of the first one. -/
theorem not_always_intact_lateChunk : ¬ (machine sampleEndpoint).Always (Intact sampleEndpoint) lateChunk := by
  intro halways
  have hmixed : (((machine sampleEndpoint).run lateChunk).completions.any fun d =>
      ((machine sampleEndpoint).run lateChunk).disk.files d.file ≠
        ((machine sampleEndpoint).run lateChunk).sent d.transfer) := by decide +kernel
  obtain ⟨d, hd, hne⟩ := List.any_eq_true.mp hmixed
  exact of_decide_eq_true hne (halways.last d hd).1

end FileSession

end Rcp
