-- SUMMARY: A file session: its transfers, the descriptors and staged files they hold, and what it tells.
import Tracenium.Lib.Descriptors
import Tracenium.Lib.Machine
import Tracenium.Rcp.PathJail
import Mathlib.Data.Rat.Floor

/-!
`src/plugins/rcp/file-session.ts`. A handler runs to its end, or to the first thing that it waits
for, before anything else happens; what it waits for settles in events of its own. What the system
answers is given with the event. A transfer is a call of `handleDownload` or of `handleUploadStart`,
and has a number that the program does not see.
-/

open Utf16

namespace Rcp

abbrev Bytes := List UInt8

def DEFAULT_MAX_UPLOAD_BYTES : Nat := 2 * 1024 * 1024 * 1024

/-! ## Numbers and reasons -/

/-- A number of JavaScript. -/
inductive Size
  | nan
  | negInfinity
  | infinity
  | finite (q : ℚ)
  deriving DecidableEq

/-- `Number.isFinite(size) && size > bound`. -/
def Size.exceeds (size : Size) (bound : Nat) : Bool :=
  match size with
  | .finite q => decide ((bound : ℚ) < q)
  | _ => false

/-- `size > 0`. -/
def Size.isPositive : Size → Bool
  | .infinity => true
  | .finite q => decide (0 < q)
  | _ => false

/-- `Number(size) || 0`. -/
def Size.orZero : Size → Size
  | .nan => .finite 0
  | size => size

structure Reason where
  text : Str
  nonempty : text ≠ []
  deriving DecidableEq

def badDescriptor : Reason := ⟨text "EBADF: bad file descriptor", by decide⟩
def alreadyThere : Reason := ⟨text "EEXIST: file already exists", by decide⟩
def notThere : Reason := ⟨text "ENOENT: no such file or directory", by decide⟩
def digestCalled : Reason := ⟨text "Digest already called", by decide⟩

/-- `path.basename`. -/
def basename (platform : Platform) (s : Str) : Str :=
  let body := match s with
    | c :: d :: rest => if platform = Platform.win32 ∧ isDriveLetter c ∧ d = colon then rest else s
    | _ => s
  let isSep := isPathSeparator platform
  ((body.reverse.dropWhile isSep).takeWhile fun c => !isSep c).reverse

def JailDenyCode.text : JailDenyCode → Str
  | .pathInvalid => Utf16.text "PATH_INVALID"
  | .pathOutsideRoots => Utf16.text "PATH_OUTSIDE_ROOTS"
  | .pathDenied => Utf16.text "PATH_DENIED"
  | .pathUnresolvable => Utf16.text "PATH_UNRESOLVABLE"

/-! ## The disk -/

/-- The open files of the process, the staging directory of the session, and the files that were
staged in it, each under the number of its transfer. A descriptor without a number is none of the
uploads'. -/
structure Disk where
  fds : Descriptors (Option Nat)
  staging : OrderedMap Str Nat
  files : Nat → Bytes

section Disk

variable {platform : Platform} (host : Host platform)

/-- `openSync` with `O_CREAT | O_EXCL`. -/
def Disk.openStaged (disk : Disk) (name : Str) (transfer : Nat) (error : Option Reason) :
    Except Reason (Nat × Disk) :=
  match error with
  | some e => .error e
  | none =>
    if (disk.staging.get (caseKey host name)).isSome then .error alreadyThere
    else
      .ok (disk.fds.free,
        { fds := disk.fds.openFile (some transfer)
          staging := disk.staging.set (caseKey host name) transfer
          files := fun t => if t = transfer then [] else disk.files t })

/-- `writeSync`, where the system takes so many bytes. -/
def Disk.writeSync (disk : Disk) (fd : Nat) (data : Bytes) (result : Except Reason Nat) :
    Except Reason Disk :=
  match disk.fds.get fd, result with
  | none, _ => .error badDescriptor
  | some _, .error e => .error e
  | some none, .ok _ => .ok disk
  | some (some file), .ok count =>
    .ok { disk with
      files := fun t => if t = file then disk.files t ++ data.take count else disk.files t }

def Disk.closeSync (disk : Disk) (fd : Nat) : Disk := { disk with fds := disk.fds.close fd }

/-- `cleanupTmp`. -/
def Disk.unlink (disk : Disk) (name : Str) : Disk :=
  { disk with staging := disk.staging.delete (caseKey host name) }

end Disk

/-! ## Transfers -/

inductive Direction
  | download
  | upload
  deriving DecidableEq

inductive TransferStatus
  | started
  | completed
  | failed
  | cancelled
  deriving DecidableEq

structure FileTransferAuditPayload where
  transferId : Str
  direction : Direction
  remotePath : Str
  filename : Str
  sizeBytes : Size
  transferredBytes : Nat
  status : TransferStatus
  errorMessage : Str

structure Hash where
  data : Bytes
  digested : Bool

structure UploadState (platform : Platform) where
  path : AbsPath platform
  tmpPath : Str
  fd : Nat
  size : Size
  received : Nat
  cancelled : Bool
  failure : Option Reason
  hash : Hash

/-- What a call of `handleUploadDone` waits for. The rename is asked for before it happens. -/
inductive FinishStage
  | mkdir
  | rename
  | renamed (result : Except Reason Nat)

structure Finishing (platform : Platform) where
  transferId : Str
  realPath : AbsPath platform
  digest : Str
  stage : FinishStage

/-- What a call of `handleDownload` waits for. The handle is closed after an error, or when all was
read or the download was cancelled. -/
inductive DownloadStage
  | stat
  | opening
  | reading
  | closing (outcome : Except Reason Bool)

def DownloadStage.isStat : DownloadStage → Bool
  | .stat => true
  | _ => false

structure Download (platform : Platform) where
  transferId : Str
  resolved : AbsPath platform
  sizeBytes : Nat
  transferred : Nat
  seq : Nat
  stage : DownloadStage

inductive Reply
  | ready (transferId : Str)
  | chunk (transferId : Str) (seq : Nat) (data : Bytes) (done : Bool)
  | uploadComplete (transferId : Str) (bytes : Nat) (sha256 : Str)
  | error (code message : Str) (transferId : Option Str)

/-- A file that was renamed into place for a transfer that completed, and the digest reported. -/
structure Completion where
  transfer : Nat
  file : Nat
  sha256 : Str

structure FileSession (platform : Platform) where
  disposed : Bool
  closed : Bool
  uploads : OrderedMap Str Nat
  states : Nat → Option (UploadState platform)
  finishing : OrderedMap Nat (Finishing platform)
  cancelledDownloads : List Str
  downloads : OrderedMap Nat (Download platform)
  next : Nat
  disk : Disk
  audits : List (Nat × FileTransferAuditPayload)
  replies : List Reply
  completions : List Completion
  /-- The bytes of the chunk messages for an upload before its `uploadDone`. -/
  sent : Nat → Bytes

/-- What the session has from its process: the jail, SHA-256 and how numbers are written. -/
structure Endpoint (platform : Platform) where
  host : Host platform
  jail : PathJail
  sha256 : Bytes → Str
  numeral : Size → Str

/-- What a message finds: the disk that the jail looks at, the limit of the policy, and what the
system answers. -/
structure Now (platform : Platform) where
  fs : FileSystem platform
  remoteFileMaxUploadBytes : Option Nat
  openError : Option Reason
  write : Except Reason Nat

namespace FileSession

variable {platform : Platform}

def registered (s : FileSession platform) (transferId : Str) :
    Option (Nat × UploadState platform) :=
  match s.uploads.get transferId with
  | some t => (s.states t).map fun upload => (t, upload)
  | none => none

def setState (s : FileSession platform) (t : Nat) (upload : UploadState platform) :
    FileSession platform :=
  { s with states := fun u => if u = t then some upload else s.states u }

/-- Nothing is sent by a session that is disposed, or over a channel that is closed. -/
def send (s : FileSession platform) (reply : Reply) : FileSession platform :=
  { s with replies := if s.disposed || s.closed then s.replies else s.replies ++ [reply] }

def sendFileTransferAudit (s : FileSession platform) (t : Nat) (audit : FileTransferAuditPayload) :
    FileSession platform :=
  { s with audits := s.audits ++ [(t, audit)] }

def maxUploadBytes (now : Now platform) : Nat :=
  match now.remoteFileMaxUploadBytes with
  | some n => if n = 0 then DEFAULT_MAX_UPLOAD_BYTES else min n DEFAULT_MAX_UPLOAD_BYTES
  | none => DEFAULT_MAX_UPLOAD_BYTES

def isTransferId (s : Str) : Bool :=
  s ≠ [] && s.length ≤ 64 && s.all fun c =>
    (0x41 ≤ c && c ≤ 0x5A) || (0x61 ≤ c && c ≤ 0x7A) || (0x30 ≤ c && c ≤ 0x39) || c = 0x5F || c = 0x2D

/-- A request that is refused has an audit of the path that was asked for. -/
def refusal (transferId : Str) (direction : Direction) (asked : Str) (sizeBytes : Size)
    (errorMessage : Str) : FileTransferAuditPayload where
  transferId := transferId
  direction := direction
  remotePath := asked.take 512
  filename := basename platform asked
  sizeBytes := sizeBytes
  transferredBytes := 0
  status := .failed
  errorMessage := errorMessage

def blockedByPolicy : Str := text "blocked by remote access path policy"

/-! ## Downloads -/

def downloadAudit (d : Download platform) (status : TransferStatus) (errorMessage : Str) :
    FileTransferAuditPayload where
  transferId := d.transferId
  direction := .download
  remotePath := render d.resolved
  filename := basename platform (render d.resolved)
  sizeBytes := .finite d.sizeBytes
  transferredBytes := d.transferred
  status := status
  errorMessage := errorMessage

def handleDownload (c : Endpoint platform) (s : FileSession platform) (transferId filePath : Str)
    (now : Now platform) : FileSession platform :=
  let t := s.next
  let s := { s with
    next := t + 1
    cancelledDownloads := s.cancelledDownloads.filter (· ≠ transferId) }
  match c.jail.check c.host now.fs (.str filePath) with
  | .denied code message =>
    (s.send (.error code.text message (some transferId))).sendFileTransferAudit t
      (@refusal platform transferId .download filePath (.finite 0) blockedByPolicy)
  | .allowed resolved =>
    { s with downloads := s.downloads.set t ⟨transferId, resolved, 0, 0, 0, .stat⟩ }

/-- `stat` answers with a size. -/
def statDone (s : FileSession platform) (t : Nat) (result : Except Reason Nat) :
    FileSession platform :=
  match s.downloads.get t with
  | some d =>
    match d.stage, result with
    | .stat, .error e =>
      ({ s with downloads := s.downloads.delete t }.sendFileTransferAudit t
        (downloadAudit d .failed e.text)).send
          (.error (text "DOWNLOAD_FAILED") e.text (some d.transferId))
    | .stat, .ok sizeBytes =>
      let d := { d with sizeBytes := sizeBytes, stage := .opening }
      { s with downloads := s.downloads.set t d }.sendFileTransferAudit t
        (downloadAudit d .started [])
    | _, _ => s
  | none => s

def readNext (s : FileSession platform) (t : Nat) (d : Download platform) : FileSession platform :=
  let stage : DownloadStage :=
    if s.cancelledDownloads.contains d.transferId || s.disposed then .closing (.ok true) else .reading
  { s with downloads := s.downloads.set t { d with stage := stage } }

/-- A download ends with one audit. -/
def finishDownload (s : FileSession platform) (t : Nat) (d : Download platform)
    (outcome : Except Reason Bool) : FileSession platform :=
  let s := { s with
    downloads := s.downloads.delete t
    cancelledDownloads := s.cancelledDownloads.filter (· ≠ d.transferId) }
  match outcome with
  | .error e =>
    (s.send (.error (text "READ_FAILED") e.text (some d.transferId))).sendFileTransferAudit t
      (downloadAudit d .failed e.text)
  | .ok cancelled =>
    s.sendFileTransferAudit t (downloadAudit d (if cancelled then .cancelled else .completed) [])

def openDone (s : FileSession platform) (t : Nat) (error : Option Reason) : FileSession platform :=
  match s.downloads.get t with
  | some d =>
    match d.stage, error with
    | .opening, some e => finishDownload s t d (.error e)
    | .opening, none => readNext s t d
    | _, _ => s
  | none => s

def readDone (s : FileSession platform) (t : Nat) (result : Except Reason Bytes) :
    FileSession platform :=
  match s.downloads.get t with
  | some d =>
    match d.stage, result with
    | .reading, .error e =>
      { s with downloads := s.downloads.set t { d with stage := .closing (.error e) } }
    | .reading, .ok [] =>
      { s with downloads := s.downloads.set t { d with stage := .closing (.ok false) } }
    | .reading, .ok (b :: bytes) =>
      let data := b :: bytes
      let transferred := d.transferred + data.length
      readNext (s.send (.chunk d.transferId d.seq data (d.sizeBytes ≤ transferred))) t
        { d with transferred := transferred, seq := d.seq + 1 }
    | _, _ => s
  | none => s

/-- An error of `close` takes the place of what came before. -/
def closeDone (s : FileSession platform) (t : Nat) (error : Option Reason) : FileSession platform :=
  match s.downloads.get t with
  | some d =>
    match d.stage, error with
    | .closing _, some e => finishDownload s t d (.error e)
    | .closing outcome, none => finishDownload s t d outcome
    | _, _ => s
  | none => s

/-! ## Uploads -/

def uploadAudit (transferId : Str) (upload : UploadState platform) (status : TransferStatus)
    (errorMessage : Str) : FileTransferAuditPayload where
  transferId := transferId
  direction := .upload
  remotePath := render upload.path
  filename := basename platform (render upload.path)
  sizeBytes := upload.size
  transferredBytes := upload.received
  status := status
  errorMessage := errorMessage

/-- `Math.round(bytes / 1048576)`. -/
def megabytes (c : Endpoint platform) (size : Size) : Str :=
  match size with
  | .finite q => c.numeral (.finite ⌊q / 1048576 + 1 / 2⌋)
  | _ => c.numeral size

def handleUploadStart (c : Endpoint platform) (s : FileSession platform) (transferId destPath : Str)
    (size : Size) (now : Now platform) : FileSession platform :=
  let t := s.next
  let s := { s with next := t + 1 }
  let maxBytes := maxUploadBytes now
  if size.exceeds maxBytes then
    let message := text "This file is " ++ megabytes c size ++ text " MB; the limit for this device is " ++
      megabytes c (.finite maxBytes) ++ text " MB."
    (s.send (.error (text "UPLOAD_TOO_LARGE") message (some transferId))).sendFileTransferAudit t
      (@refusal platform transferId .upload destPath size.orZero
        (text "exceeds the upload size limit"))
  else
    match c.jail.check c.host now.fs (.str destPath) with
    | .denied code message =>
      (s.send (.error code.text message (some transferId))).sendFileTransferAudit t
        (@refusal platform transferId .upload destPath size.orZero blockedByPolicy)
    | .allowed resolved =>
      match s.disk.openStaged c.host transferId t now.openError with
      | .error e => s.send (.error (text "UPLOAD_INIT_FAILED") e.text (some transferId))
      | .ok (fd, disk) =>
        let upload : UploadState platform :=
          { path := resolved
            tmpPath := transferId
            fd := fd
            size := size
            received := 0
            cancelled := false
            failure := none
            hash := ⟨[], false⟩ }
        let s := { s with disk := disk, uploads := s.uploads.set transferId t }.setState t upload
        (s.sendFileTransferAudit t (uploadAudit transferId upload .started [])).send
          (.ready transferId)

/-- An upload that comes to nothing: its staged file and its entry go. -/
def discard (c : Endpoint platform) (s : FileSession platform) (transferId : Str) (t : Nat)
    (upload : UploadState platform) (status : TransferStatus) (errorMessage : Str) :
    FileSession platform :=
  { s with
    disk := s.disk.unlink c.host upload.tmpPath
    uploads := s.uploads.delete transferId }.sendFileTransferAudit t
      (uploadAudit transferId upload status errorMessage)

def handleChunk (c : Endpoint platform) (s : FileSession platform) (transferId : Str) (data : Bytes)
    (now : Now platform) : FileSession platform :=
  match s.registered transferId with
  | none => s
  | some (t, upload) =>
    if upload.cancelled then s
    else if maxUploadBytes now < upload.received + data.length then
      let upload := { upload with cancelled := true }
      let s := { s with disk := s.disk.closeSync upload.fd }.setState t upload
      (discard c s transferId t upload .failed
        (text "exceeded the upload size limit mid-transfer")).send
          (.error (text "UPLOAD_TOO_LARGE")
            (text "The upload exceeded this device's size limit and was stopped.") (some transferId))
    else
      match s.disk.writeSync upload.fd data now.write with
      | .error e => s.setState t { upload with failure := some e }
      | .ok disk =>
        let s := { s with disk := disk }
        if upload.hash.digested then s.setState t { upload with failure := some digestCalled }
        else
          s.setState t
            { upload with
              hash := ⟨upload.hash.data ++ data, false⟩
              received := upload.received + data.length }

def incomplete (c : Endpoint platform) (upload : UploadState platform) : Reason where
  text := text "incomplete: received " ++ c.numeral (.finite upload.received) ++ text " of " ++
    c.numeral upload.size ++ text " bytes"
  nonempty := by
    rw [List.append_assoc, List.append_assoc, List.append_assoc]
    exact List.append_ne_nil_of_left_ne_nil (by decide) _

/-- The failure that an upload has when it is to be finished. -/
def failureAtEnd (c : Endpoint platform) (upload : UploadState platform) : Option Reason :=
  if !upload.cancelled && upload.failure.isNone && upload.size.isPositive &&
      upload.size ≠ .finite upload.received then
    some (incomplete c upload)
  else upload.failure

/-- A second call throws where the digest is taken. -/
def handleUploadDone (c : Endpoint platform) (s : FileSession platform) (transferId : Str)
    (now : Now platform) : FileSession platform :=
  match s.registered transferId with
  | none => s
  | some (t, upload) =>
    let s := { s with disk := s.disk.closeSync upload.fd }
    if upload.hash.digested then s
    else
      let upload := { upload with
        hash := ⟨upload.hash.data, true⟩
        failure := failureAtEnd c upload }
      let s := s.setState t upload
      match upload.failure with
      | some reason =>
        (discard c s transferId t upload .failed reason.text).send
          (.error (text "UPLOAD_INCOMPLETE") reason.text (some transferId))
      | none =>
        if upload.cancelled then discard c s transferId t upload .cancelled []
        else
          match c.jail.check c.host now.fs (.str (render upload.path)) with
          | .denied code message =>
            (discard c s transferId t upload .failed blockedByPolicy).send
              (.error code.text message (some transferId))
          | .allowed realPath =>
            let f := ⟨transferId, realPath, c.sha256 upload.hash.data, .mkdir⟩
            { s with finishing := s.finishing.set t f }

/-- The `catch` of `handleUploadDone`. -/
def finalizeFailed (c : Endpoint platform) (s : FileSession platform) (t : Nat)
    (f : Finishing platform) (e : Reason) : FileSession platform :=
  match s.states t with
  | some upload =>
    (discard c { s with finishing := s.finishing.delete t } f.transferId t upload .failed e.text).send
      (.error (text "UPLOAD_FINALIZE_FAILED") e.text (some f.transferId))
  | none => s

def mkdirDone (c : Endpoint platform) (s : FileSession platform) (t : Nat) (error : Option Reason) :
    FileSession platform :=
  match s.finishing.get t with
  | some f =>
    match f.stage, error with
    | .mkdir, some e => finalizeFailed c s t f e
    | .mkdir, none => { s with finishing := s.finishing.set t { f with stage := .rename } }
    | _, _ => s
  | none => s

/-- The system renames whatever has the name then. -/
def renameRun (c : Endpoint platform) (s : FileSession platform) (t : Nat) (error : Option Reason) :
    FileSession platform :=
  match s.finishing.get t with
  | some f =>
    match f.stage, error with
    | .rename, some e =>
      { s with finishing := s.finishing.set t { f with stage := .renamed (.error e) } }
    | .rename, none =>
      match s.disk.staging.get (caseKey c.host f.transferId) with
      | none => { s with finishing := s.finishing.set t { f with stage := .renamed (.error notThere) } }
      | some file =>
        { s with
          disk := s.disk.unlink c.host f.transferId
          finishing := s.finishing.set t { f with stage := .renamed (.ok file) } }
    | _, _ => s
  | none => s

def renameDone (c : Endpoint platform) (s : FileSession platform) (t : Nat) : FileSession platform :=
  match s.finishing.get t with
  | some f =>
    match f.stage with
    | .renamed (.error e) => finalizeFailed c s t f e
    | .renamed (.ok file) =>
      match s.states t with
      | some upload =>
        ({ s with
          finishing := s.finishing.delete t
          uploads := s.uploads.delete f.transferId
          completions := s.completions ++ [⟨t, file, f.digest⟩] : FileSession platform }.send
            (.uploadComplete f.transferId upload.received f.digest)).sendFileTransferAudit t
              (uploadAudit f.transferId upload .completed [])
      | none => s
    | _ => s
  | none => s

def handleCancel (s : FileSession platform) (transferId : Str) : FileSession platform :=
  let s := { s with cancelledDownloads := s.cancelledDownloads ++ [transferId] }
  match s.registered transferId with
  | some (t, upload) => s.setState t { upload with cancelled := true }
  | none => s

/-! ## The session -/

def cleanupAllUploads (s : FileSession platform) : FileSession platform :=
  { s with
    disk := { s.disk with
      fds := s.uploads.entries.foldl
        (fun fds e => match s.states e.2 with
          | some upload => fds.close upload.fd
          | none => fds) s.disk.fds
      staging := .empty }
    uploads := .empty }

def dispose (s : FileSession platform) : FileSession platform :=
  if s.disposed then s else cleanupAllUploads { s with disposed := true }

inductive Message
  | download (transferId path : Str)
  | upload (transferId path : Str) (size : Size)
  | chunk (transferId : Str) (data : Bytes)
  | uploadDone (transferId : Str)
  | cancel (transferId : Str)

def Message.transferId : Message → Str
  | .download transferId _ => transferId
  | .upload transferId _ _ => transferId
  | .chunk transferId _ => transferId
  | .uploadDone transferId => transferId
  | .cancel transferId => transferId

/-- The chunks that are sent for an upload, whatever becomes of them. -/
def observe (s : FileSession platform) (transferId : Str) (data : Bytes) : FileSession platform :=
  match s.registered transferId with
  | some (t, upload) =>
    if upload.hash.digested then s
    else { s with sent := fun u => if u = t then s.sent u ++ data else s.sent u }
  | none => s

def handleMessage (c : Endpoint platform) (s : FileSession platform) (m : Message)
    (now : Now platform) : FileSession platform :=
  if !isTransferId m.transferId then
    s.send (.error (text "INVALID_TRANSFER_ID")
      (text "Transfer id must be alphanumeric (with - or _), 1-64 characters.") none)
  else
    match m with
    | .download transferId path => handleDownload c s transferId path now
    | .upload transferId path size => handleUploadStart c s transferId path size now
    | .chunk transferId data => handleChunk c (observe s transferId data) transferId data now
    | .uploadDone transferId => handleUploadDone c s transferId now
    | .cancel transferId => handleCancel s transferId

/-- A message arrives, something that a handler waits for settles, another part of the process opens
or closes a file, or the session ends. -/
inductive Event (platform : Platform)
  | message (m : Message) (now : Now platform)
  | statDone (t : Nat) (result : Except Reason Nat)
  | openDone (t : Nat) (error : Option Reason)
  | readDone (t : Nat) (result : Except Reason Bytes)
  | closeDone (t : Nat) (error : Option Reason)
  | mkdirDone (t : Nat) (error : Option Reason)
  | renameRun (t : Nat) (error : Option Reason)
  | renameDone (t : Nat)
  | othersOpen
  | othersClose (fd : Nat)
  | closed
  | dispose

def step (c : Endpoint platform) (s : FileSession platform) : Event platform → FileSession platform
  | .message m now => if s.disposed || s.closed then s else handleMessage c s m now
  | .statDone t result => statDone s t result
  | .openDone t error => openDone s t error
  | .readDone t result => readDone s t result
  | .closeDone t error => closeDone s t error
  | .mkdirDone t error => mkdirDone c s t error
  | .renameRun t error => renameRun c s t error
  | .renameDone t => renameDone c s t
  | .othersOpen => { s with disk := { s.disk with fds := s.disk.fds.openFile none } }
  | .othersClose fd =>
    match s.disk.fds.get fd with
    | some none => { s with disk := s.disk.closeSync fd }
    | _ => s
  | .closed => cleanupAllUploads { s with closed := true }
  | .dispose => s.dispose

def opened : FileSession platform where
  disposed := false
  closed := false
  uploads := .empty
  states := fun _ => none
  finishing := .empty
  cancelledDownloads := []
  downloads := .empty
  next := 0
  disk := ⟨.empty, .empty, fun _ => []⟩
  audits := []
  replies := []
  completions := []
  sent := fun _ => []

def machine (c : Endpoint platform) : Machine (FileSession platform) (Event platform) where
  init := opened
  step := step c

end FileSession

end Rcp
