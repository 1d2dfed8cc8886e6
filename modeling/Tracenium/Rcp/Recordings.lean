-- SUMMARY: Recordings on their way to the control plane, and the frames that a recorder keeps of those that it is offered.
import Tracenium.Lib.Machine
import Tracenium.Lib.OrderedMap
import Tracenium.Lib.JsonText
import Mathlib.Logic.Function.Basic

/-!
`src/plugins/rcp/screen-recorder.ts`, `recording-store.ts`, `recording-handoff.ts`, `recording-uploader.ts` and
what `screen-session.ts` and `index.ts` do with them. A file is named by its session and found by its inode,
an open recorder writes at its own offset. Names of sessions hold no separators, and unlinking succeeds.
-/

open Utf16 Function

namespace Rcp.Recording

def KEYFRAME_MIN_INTERVAL_MS : Nat := 1000
def MAX_SESSION_BYTES : Nat := 200 * 1024 * 1024
def MAX_TOTAL_BYTES : Nat := 1024 * 1024 * 1024
def MIN_FREE_DISK_BYTES : Nat := 2 * 1024 * 1024 * 1024
def BUFFER_TTL_MS : Nat := 7 * 24 * 60 * 60 * 1000
def UPLOAD_DELAY_MS : Nat := 2 * 60 * 1000
def MAX_ATTEMPTS : Nat := 5

inductive StopReason
  | sessionEnded
  | sessionCap
  | totalCap
  | diskLow
  | writeError
  deriving DecidableEq

/-- Why a recording cannot start. The free space is `none` where it cannot be measured. -/
def canStart (freeBytes : Option Nat) (bufferBytes : Nat) : Option StopReason :=
  if freeBytes.any fun free => free < MIN_FREE_DISK_BYTES then some .diskLow
  else if MAX_TOTAL_BYTES ≤ bufferBytes then some .totalCap
  else none

/-- Why a record cannot be written. -/
def canWriteMore (sessionBytes incomingBytes : Nat) (freeBytes : Option Nat) : Option StopReason :=
  if MAX_SESSION_BYTES < sessionBytes + incomingBytes then some .sessionCap
  else if freeBytes.any fun free => free < MIN_FREE_DISK_BYTES + incomingBytes then some .diskLow
  else none

/-! ## State -/

structure File where
  content : List UInt8
  modifiedAt : Nat
  deriving DecidableEq

/-- `fd` is an inode and an offset. `ended` says that the session has let go of it. -/
structure Recorder where
  sessionId : Str
  fd : Option (Nat × Nat)
  bytes : Nat
  frames : Nat
  lastKeyframeAt : Nat
  stopped : Option StopReason
  wroteAnything : Bool
  ended : Bool
  deriving DecidableEq

/-- An entry of the queue of an uploader, and what a `putFile` of it reads. -/
structure UploadEntry where
  uploader : Nat
  sessionId : Str
  url : Option Str
  attempts : Nat
  timer : Option Nat
  reading : Option (List UInt8)
  deriving DecidableEq

inductive Note
  | opened (sessionId : Str)
  /-- The key of the recording has reached the control plane. -/
  | handed (n : Nat) (sessionId : Str) (inode : Nat) (content : List UInt8)
  | uploaded (sessionId : Str) (content : List UInt8)
  | rejected (sessionId : Str)
  | abandoned (sessionId : Str)
  | expired (sessionId : Str)
  | requested (sessionId : Str)
  | restarted
  | swept
  deriving DecidableEq

structure State where
  now : Nat
  /-- `initRcp` has run in this process. -/
  initialized : Bool
  files : List File
  recordings : OrderedMap Str Nat
  markers : OrderedMap Str Nat
  recorders : List Recorder
  uploaders : Nat
  uploader : Option Nat
  entries : List UploadEntry
  queue : Nat → Str → Option Nat
  history : List Note

namespace State

def note (s : State) (r : Note) : State := { s with history := r :: s.history }

def unlink (s : State) (sessionId : Str) : State := { s with recordings := s.recordings.delete sessionId }

def removeRecording (s : State) (sessionId : Str) : State :=
  { s with recordings := s.recordings.delete sessionId, markers := s.markers.delete sessionId }

def writeConfirmedMarker (s : State) (sessionId : Str) (works : Bool) : State :=
  if works then { s with markers := s.markers.set sessionId s.now } else s

def updateRecorder (s : State) (n : Nat) (f : Recorder → Recorder) : State :=
  { s with recorders := s.recorders.modify n f }

def updateEntry (s : State) (k : Nat) (f : UploadEntry → UploadEntry) : State :=
  { s with entries := s.entries.modify k f }

def isExpired (s : State) (modifiedAt : Nat) : Bool := BUFFER_TTL_MS < s.now - modifiedAt

def modifiedAt (s : State) (inode : Nat) : Nat := (s.files[inode]?.map File.modifiedAt).getD 0

def contentOf (s : State) (inode : Nat) : List UInt8 := (s.files[inode]?.map File.content).getD []

/-- Recordings and markers are names in the same directory. -/
def purgeExpired (s : State) : State :=
  { s with
    recordings := s.recordings.filter fun _ inode => !s.isExpired (s.modifiedAt inode)
    markers := s.markers.filter fun _ writtenAt => !s.isExpired writtenAt
    history := ((s.recordings.entries.filter fun e => s.isExpired (s.modifiedAt e.2)).map fun e =>
      Note.expired e.1) ++ s.history }

end State

/-! ## Recorders -/

/-- The file is truncated, or created. -/
def openFile (s : State) (sessionId : Str) : State × Nat :=
  match s.recordings.get sessionId with
  | some inode => ({ s with files := s.files.set inode ⟨[], s.now⟩ }, inode)
  | none =>
    ({ s with files := s.files ++ [⟨[], s.now⟩], recordings := s.recordings.set sessionId s.files.length },
      s.files.length)

/-- `startRecording`. A recorder that does not start is forgotten. -/
def start (s : State) (sessionId : Str) (freeBytes : Option Nat) (bufferBytes : Nat) (opens : Bool) : State :=
  if !s.initialized then s
  else
    let s := s.purgeExpired
    if (canStart freeBytes bufferBytes).isSome || !opens then s
    else
      let opened := openFile s sessionId
      { opened.1.note (.opened sessionId) with
        recorders := s.recorders ++ [⟨sessionId, some (opened.2, 0), 0, 0, 0, none, false, false⟩] }

/-- What is written at an offset. A hole reads as zeros. -/
def overwrite (content : List UInt8) (offset : Nat) (record : List UInt8) : List UInt8 :=
  content.take offset ++ List.replicate (offset - content.length) 0 ++ record ++ content.drop (offset + record.length)

def finishWith (s : State) (n : Nat) (r : Recorder) (reason : StopReason) : State :=
  let s := s.updateRecorder n fun r => { r with stopped := r.stopped.or (some reason), fd := none }
  if r.wroteAnything then s else s.unlink r.sessionId

def append (s : State) (n : Nat) (r : Recorder) (inode offset : Nat) (keyframe frame : Bool) (record : List UInt8)
    (writes : Bool) : State :=
  if writes then
    { s with
      files := s.files.modify inode fun f => ⟨overwrite f.content offset record, s.now⟩
      recorders := s.recorders.modify n fun r =>
        { r with
          fd := some (inode, offset + record.length)
          bytes := r.bytes + record.length
          frames := if frame then r.frames + 1 else r.frames
          lastKeyframeAt := if keyframe then s.now else r.lastKeyframeAt
          wroteAnything := true } }
  else finishWith s n r .writeError

/-- A frame, with the record that it is encrypted to. -/
def offer (s : State) (n : Nat) (full : Bool) (incomingBytes : Nat) (record : List UInt8) (freeBytes : Option Nat)
    (writes : Bool) : State :=
  match s.recorders[n]? with
  | some r =>
    match r.fd with
    | some (inode, offset) =>
      if full && r.wroteAnything && decide (s.now - r.lastKeyframeAt < KEYFRAME_MIN_INTERVAL_MS) then s
      else
        match canWriteMore r.bytes incomingBytes freeBytes with
        | some reason => finishWith s n r reason
        | none => append s n r inode offset full true record writes
    | none => s
  | none => s

/-- An input event, redacted and encrypted. -/
def offerInput (s : State) (n : Nat) (incomingBytes : Nat) (record : List UInt8) (freeBytes : Option Nat)
    (writes : Bool) : State :=
  match s.recorders[n]? with
  | some r =>
    match r.fd with
    | some (inode, offset) =>
      match canWriteMore r.bytes incomingBytes freeBytes with
      | some reason => finishWith s n r reason
      | none => append s n r inode offset false false record writes
    | none => s
  | none => s

/-- What becomes of the message with the key. -/
inductive Delivery
  | delivered
  | lost
  | throws
  deriving DecidableEq

/-- The hash of the file is taken before the key is sent. -/
def handOffRecording (s : State) (n : Nat) (sessionId : Str) (delivery : Delivery) (marks : Bool) : State :=
  match s.recordings.get sessionId with
  | none => s.removeRecording sessionId
  | some inode =>
    match delivery with
    | .throws => s.removeRecording sessionId
    | .lost => s.writeConfirmedMarker sessionId marks
    | .delivered =>
      (s.note (.handed n sessionId inode (s.contentOf inode))).writeConfirmedMarker sessionId marks

def stopRecording (s : State) (n : Nat) (delivery : Delivery) (marks : Bool) : State :=
  match s.recorders[n]? with
  | some r =>
    if r.ended then s
    else
      let s := (finishWith s n r .sessionEnded).updateRecorder n fun r => { r with ended := true }
      if r.wroteAnything then handOffRecording s n r.sessionId delivery marks else s
  | none => s

/-! ## Uploads -/

def backoffMs (attempt : Nat) : Nat := min (attempt * attempt * 60000) (30 * 60000)

inductive UploadOutcome
  | ok
  | fails (retryable freshUrl : Bool)
  deriving DecidableEq

/-- The recordings that wait get an entry, and their destinations are requested. -/
def resume (s : State) (u : Nat) : List Str → State
  | [] => s
  | sessionId :: rest =>
    if (s.queue u sessionId).isSome then resume s u rest
    else
      resume
        { s with
          entries := s.entries ++ [⟨u, sessionId, none, 0, none, none⟩]
          queue := update s.queue u (update (s.queue u) sessionId (some s.entries.length))
          history := .requested sessionId :: s.history }
        u rest

def pendingUploads (s : State) : List Str :=
  (s.recordings.entries.map Prod.fst).filter fun sessionId => (s.markers.get sessionId).isSome

def resumePendingUploads (s : State) : State :=
  resume { s with uploaders := s.uploaders + 1, uploader := some s.uploaders } s.uploaders (pendingUploads s)

/-- Recordings without a marker, then markers without a recording. -/
def purgeUnconfirmed (s : State) : State :=
  let recordings := s.recordings.filter fun sessionId _ => (s.markers.get sessionId).isSome
  { s with
    recordings := recordings
    markers := s.markers.filter fun sessionId _ => (recordings.get sessionId).isSome
    history := .swept :: s.history }

/-- The first message of a session in a process. -/
def initRcp (s : State) : State :=
  if s.initialized then s else resumePendingUploads (purgeUnconfirmed { s with initialized := true })

def dequeue (s : State) (u : Nat) (sessionId : Str) : State :=
  { s with queue := update s.queue u (update (s.queue u) sessionId none) }

def reject (s : State) (u : Nat) (sessionId : Str) : State :=
  match s.queue u sessionId with
  | none => s
  | some k =>
    (((dequeue s u sessionId).updateEntry k fun e => { e with timer := none }).note (.rejected sessionId)
      ).removeRecording sessionId

/-- The entry of a session that has one is replaced, and its timer cleared. -/
def enqueue (s : State) (u : Nat) (sessionId url : Str) : State :=
  let attempts := ((s.queue u sessionId).bind fun k => s.entries[k]?.map UploadEntry.attempts).getD 0
  let delay := if (s.queue u sessionId).isSome then backoffMs attempts else UPLOAD_DELAY_MS
  let s := match s.queue u sessionId with
    | some k => s.updateEntry k fun e => { e with timer := none }
    | none => s
  { s with
    entries := s.entries ++ [⟨u, sessionId, some url, attempts, some (s.now + delay), none⟩]
    queue := update s.queue u (update (s.queue u) sessionId (some s.entries.length)) }

/-- The answer of the control plane to a key. -/
def handleRecordingUpload (s : State) (sessionId : Str) (accepted : Bool) (url : Str) : State :=
  if sessionId = [] then s
  else
    let s := if s.uploader.isNone then resumePendingUploads s else s
    match s.uploader with
    | none => s
    | some u => if !accepted || url = [] then reject s u sessionId else enqueue s u sessionId url

def attempt (s : State) (k : Nat) : State :=
  match s.entries[k]? with
  | some e =>
    if e.timer.any (· ≤ s.now) then
      if e.url.isNone then s.updateEntry k fun e => { e with timer := none }
      else
        match s.recordings.get e.sessionId with
        | none => (dequeue s e.uploader e.sessionId).updateEntry k fun e => { e with timer := none }
        | some inode =>
          s.updateEntry k fun e =>
            { e with timer := none, attempts := e.attempts + 1, reading := some (s.contentOf inode) }
    else s
  | none => s

/-- `putFile` resolves. -/
def putDone (s : State) (k : Nat) (outcome : UploadOutcome) : State :=
  match s.entries[k]? with
  | some e =>
    match e.reading with
    | none => s
    | some content =>
      match outcome with
      | .ok =>
        (((dequeue s e.uploader e.sessionId).updateEntry k fun e => { e with reading := none }).note
          (.uploaded e.sessionId content)).removeRecording e.sessionId
      | .fails retryable freshUrl =>
        if freshUrl then
          (s.updateEntry k fun e => { e with reading := none, url := none }).note (.requested e.sessionId)
        else if !retryable || decide (MAX_ATTEMPTS ≤ e.attempts) then
          (((dequeue s e.uploader e.sessionId).updateEntry k fun e => { e with reading := none }).note
            (.abandoned e.sessionId)).removeRecording e.sessionId
        else
          s.updateEntry k fun e => { e with reading := none, timer := some (s.now + backoffMs e.attempts) }
  | none => s

/-! ## The machine -/

/-- What was in memory is gone. -/
def restart (s : State) : State :=
  { s with
    initialized := false
    recorders := s.recorders.map fun r => { r with fd := none, ended := true }
    uploader := none
    entries := s.entries.map fun e => { e with timer := none, reading := none }
    history := .restarted :: s.history }

inductive Event
  | init
  | start (sessionId : Str) (freeBytes : Option Nat) (bufferBytes : Nat) (opens : Bool)
  | frame (n : Nat) (full : Bool) (incomingBytes : Nat) (record : List UInt8) (freeBytes : Option Nat) (writes : Bool)
  | input (n incomingBytes : Nat) (record : List UInt8) (freeBytes : Option Nat) (writes : Bool)
  | stop (n : Nat) (delivery : Delivery) (marks : Bool)
  | answer (sessionId : Str) (accepted : Bool) (url : Str)
  | timer (k : Nat)
  | put (k : Nat) (outcome : UploadOutcome)
  | restart
  | tick (d : Nat)

def step (s : State) (e : Event) : State :=
  match e with
  | .init => initRcp s
  | .start sessionId freeBytes bufferBytes opens => start s sessionId freeBytes bufferBytes opens
  | .frame n full incomingBytes record freeBytes writes => offer s n full incomingBytes record freeBytes writes
  | .input n incomingBytes record freeBytes writes => offerInput s n incomingBytes record freeBytes writes
  | .stop n delivery marks => stopRecording s n delivery marks
  | .answer sessionId accepted url => handleRecordingUpload s sessionId accepted url
  | .timer k => attempt s k
  | .put k outcome => putDone s k outcome
  | .restart => restart s
  | .tick d => { s with now := s.now + d }

def machine : Machine State Event where
  init := ⟨0, false, [], .empty, .empty, [], 0, none, [], fun _ _ => none, []⟩
  step := step

end Rcp.Recording

/-!
# Replay

`ScreenRecorder` of `src/plugins/rcp/screen-recorder.ts`, once it has started. The recorder drops full frames within a
second of the last one, and keeps every partial frame. So a recording replays what was seen as long as no partial frame
is painted next to what only a dropped frame had. Encryption keeps the length of what it encrypts, and a write is whole
or fails.
-/

open Json

namespace Rcp.ScreenRecorder

open Recording (StopReason canWriteMore KEYFRAME_MIN_INTERVAL_MS MAX_SESSION_BYTES)

def DISK_CHECK_EVERY : Nat := 20

/-! ## Records -/

structure Frame where
  payload : List UInt8
  full : Bool
  (x y rw rh w h : Int)
  deriving DecidableEq

structure FrameMeta where
  input : Bool
  t : Int
  full : Bool
  (x y rw rh w h : Int)

def intText (z : Int) : Str := if z < 0 then 0x2D :: decimal z.natAbs else decimal z.natAbs

def field (name : String) (value : Str) : Str := quoted (text name) ++ Json.colon :: value

/-- `JSON.stringify(meta)`, with `kind` for input events only. -/
def FrameMeta.header (m : FrameMeta) : Str :=
  let kind := if m.input then [field "kind" (quoted (text "input"))] else []
  let fields := kind ++ [field "t" (intText m.t), field "full" (if m.full then trueText else falseText),
    field "x" (intText m.x), field "y" (intText m.y), field "rw" (intText m.rw), field "rh" (intText m.rh),
    field "w" (intText m.w), field "h" (intText m.h)]
  lbrace :: [comma].intercalate fields ++ [rbrace]

/-- The length of `encodeRecord(meta, payload, key)`: the header is ASCII, `iv` has 12 bytes and `tag` 16. -/
def recordLength (m : FrameMeta) (payload : List UInt8) : Nat :=
  4 + m.header.length + 12 + 16 + 4 + payload.length

/-- What is in the file, the input events with their payload. -/
inductive Record
  | frame (m : FrameMeta) (frame : Frame)
  | input (m : FrameMeta) (payload : List UInt8)

def Record.length : Record → Nat
  | .frame m f => recordLength m f.payload
  | .input m payload => recordLength m payload

/-! ## The recorder -/

/-- `fd` is open. `offered` are the frames that were offered, and `fresh` says that the last event was recorded. -/
structure State where
  fd : Bool
  bytes : Nat
  frames : Nat
  framesSinceDiskCheck : Nat
  lastFreeBytes : Option Nat
  startedAt : Int
  lastKeyframeAt : Int
  stopped : Option StopReason
  wroteAnything : Bool
  file : List Record
  offered : List Frame
  fresh : Bool

def State.active (s : State) : Bool := s.fd && s.stopped.isNone

/-- The file without a record is removed. -/
def finishWith (s : State) (reason : StopReason) : State :=
  { s with stopped := s.stopped.or (some reason), fd := false }

/-- A full frame after the first one is too early. -/
def State.drops (s : State) (f : Frame) (now : Int) : Bool :=
  f.full && s.wroteAnything && decide (now - s.lastKeyframeAt < KEYFRAME_MIN_INTERVAL_MS)

/-- `freeDiskBytes`, every so many frames. -/
def checkDisk (s : State) (free : Option Nat) : State :=
  if DISK_CHECK_EVERY ≤ s.framesSinceDiskCheck then { s with lastFreeBytes := free, framesSinceDiskCheck := 0 } else s

def frameMeta (s : State) (f : Frame) (now : Int) : FrameMeta :=
  ⟨false, now - s.startedAt, f.full, f.x, f.y, f.rw, f.rh, f.w, f.h⟩

def inputMeta (s : State) (now : Int) : FrameMeta := ⟨true, now - s.startedAt, false, 0, 0, 0, 0, 0, 0⟩

/-- A frame at a time, with the free space that is measured and whether the write succeeds. -/
def offer (s : State) (f : Frame) (now : Int) (free : Option Nat) (writes : Bool) : State :=
  let s := { s with offered := s.offered ++ [f], fresh := false }
  if !s.active then s
  else if s.drops f now then s
  else
    let s := checkDisk s free
    match canWriteMore s.bytes f.payload.length s.lastFreeBytes with
    | some reason => finishWith s reason
    | none =>
      if writes then
        { s with
          file := s.file ++ [.frame (frameMeta s f now) f]
          bytes := s.bytes + recordLength (frameMeta s f now) f.payload
          frames := s.frames + 1
          framesSinceDiskCheck := s.framesSinceDiskCheck + 1
          wroteAnything := true
          lastKeyframeAt := if f.full then now else s.lastKeyframeAt
          fresh := true }
      else finishWith s .writeError

/-- An input event, with the payload that is left of it. -/
def offerInput (s : State) (payload : List UInt8) (now : Int) (writes : Bool) : State :=
  let s := { s with fresh := false }
  if !s.active then s
  else
    match canWriteMore s.bytes payload.length s.lastFreeBytes with
    | some reason => finishWith s reason
    | none =>
      if writes then
        { s with
          file := s.file ++ [.input (inputMeta s now) payload]
          bytes := s.bytes + recordLength (inputMeta s now) payload
          wroteAnything := true }
      else finishWith s .writeError

inductive Event
  | frame (frame : Frame) (now : Int) (free : Option Nat) (writes : Bool)
  | input (payload : List UInt8) (now : Int) (writes : Bool)
  | stop

def step (s : State) : Event → State
  | .frame f now free writes => offer s f now free writes
  | .input payload now writes => offerInput s payload now writes
  | .stop => { finishWith s .sessionEnded with fresh := false }

/-- A recorder that has just started. -/
def recorder (startedAt : Int) (free : Option Nat) : Machine State Event where
  init := ⟨true, 0, 0, 0, free, startedAt, 0, none, false, [], [], false⟩
  step := step

/-! ## Replay -/

section Replay

variable {Pixel : Type} (decode : List UInt8 → Int → Int → Pixel)

/-- What is at each point of the desktop, nothing before the first frame. -/
abbrev Canvas (Pixel : Type) := Int → Int → Option Pixel

def Frame.covers (f : Frame) (px py : Int) : Bool :=
  decide (f.x ≤ px ∧ px < f.x + f.rw ∧ f.y ≤ py ∧ py < f.y + f.rh)

/-- A full frame replaces the canvas, and a partial one its rectangle. -/
def paintFrame (c : Canvas Pixel) (f : Frame) : Canvas Pixel := fun px py =>
  if f.full then
    if 0 ≤ px ∧ px < f.w ∧ 0 ≤ py ∧ py < f.h then some (decode f.payload px py) else none
  else if f.covers px py then some (decode f.payload (px - f.x) (py - f.y))
  else c px py

def paint (fs : List Frame) : Canvas Pixel := fs.foldl (paintFrame decode) fun _ _ => none

/-- The frames of a recording. -/
def framesIn (file : List Record) : List Frame :=
  file.filterMap fun
    | .frame _ f => some f
    | .input _ _ => none

def State.recorded (s : State) : Canvas Pixel := paint decode (framesIn s.file)

def State.seen (s : State) : Canvas Pixel := paint decode s.offered

def fileSize (file : List Record) : Nat := (file.map Record.length).sum

/-- After a recorded frame the recording shows what was seen, and it is not too long. -/
structure Replays (s : State) : Prop where
  shows : s.fresh → s.recorded decode = s.seen decode
  size : fileSize s.file ≤ MAX_SESSION_BYTES

def State.records (s : State) : Event → Bool
  | .frame f now free writes =>
    s.active && !s.drops f now && writes &&
      (canWriteMore (checkDisk s free).bytes f.payload.length (checkDisk s free).lastFreeBytes).isNone
  | .input payload _ writes => s.active && writes && (canWriteMore s.bytes payload.length s.lastFreeBytes).isNone
  | .stop => false

/-- A partial frame covers what a dropped frame has changed. -/
def State.Covered (s : State) (f : Frame) : Prop :=
  f.full ∨ ∀ px py, f.covers px py = false → s.recorded decode px py = s.seen decode px py

/-- What a recorded event has to meet: the record fits with its header, and a partial frame covers what is stale. -/
def Sound (s : State) (e : Event) : Prop :=
  s.records e →
    match e with
    | .frame f now _ _ =>
      s.Covered decode f ∧ s.bytes + recordLength (frameMeta s f now) f.payload ≤ MAX_SESSION_BYTES
    | .input payload now _ => s.bytes + recordLength (inputMeta s now) payload ≤ MAX_SESSION_BYTES
    | .stop => True

/-! ## Steps -/

variable {decode} {s : State} {f : Frame} {now : Int} {free : Option Nat} {writes : Bool} {payload : List UInt8}
  {e : Event}

/-- The free space is all that a look at the disk changes. -/
theorem checkDisk_eq (s : State) (free : Option Nat) :
    ∃ n l, checkDisk s free = { s with framesSinceDiskCheck := n, lastFreeBytes := l } ∧
    ∀ fs fresh, checkDisk { s with offered := fs, fresh := fresh } free =
      { s with framesSinceDiskCheck := n, lastFreeBytes := l, offered := fs, fresh := fresh } := by
  unfold checkDisk
  split
  · exact ⟨_, _, rfl, fun _ _ => rfl⟩
  · exact ⟨_, _, rfl, fun _ _ => rfl⟩

/-- What is recorded of a frame. -/
theorem step_frame (h : s.records (.frame f now free writes)) :
    (step s (.frame f now free writes)).file = s.file ++ [.frame (frameMeta s f now) f] ∧
    (step s (.frame f now free writes)).bytes = s.bytes + recordLength (frameMeta s f now) f.payload ∧
    (step s (.frame f now free writes)).offered = s.offered ++ [f] ∧
    (step s (.frame f now free writes)).fresh := by
  obtain ⟨n, l, hdisk, hoffered⟩ := checkDisk_eq s free
  simp only [State.records, hdisk, Bool.and_eq_true, Bool.not_eq_true', Option.isNone_iff_eq_none] at h
  obtain ⟨⟨⟨hactive, hdrops⟩, hwrites⟩, hgate⟩ := h
  simp only [State.active] at hactive
  simp only [State.drops] at hdrops
  simp only [step, offer, hoffered]
  simp [State.active, State.drops, hactive, hdrops, hgate, hwrites, frameMeta]

theorem step_input (h : s.records (.input payload now writes)) :
    (step s (.input payload now writes)).file = s.file ++ [.input (inputMeta s now) payload] ∧
    (step s (.input payload now writes)).bytes = s.bytes + recordLength (inputMeta s now) payload ∧
    (step s (.input payload now writes)).fresh = false := by
  simp only [State.records, Bool.and_eq_true, Option.isNone_iff_eq_none] at h
  obtain ⟨⟨hactive, hwrites⟩, hgate⟩ := h
  simp only [State.active] at hactive
  simp [step, offerInput, State.active, hactive, hgate, hwrites, inputMeta]

theorem step_unrecorded (h : s.records e = false) :
    (step s e).file = s.file ∧ (step s e).bytes = s.bytes ∧ (step s e).fresh = false := by
  cases e with
  | frame f now free writes =>
    obtain ⟨n, l, hdisk, hoffered⟩ := checkDisk_eq s free
    simp only [State.records, hdisk] at h
    simp only [step, offer, hoffered]
    cases hactive : s.fd && s.stopped.isNone with
    | false => simp [State.active, hactive]
    | true =>
      cases hdrops : f.full && s.wroteAnything && decide (now - s.lastKeyframeAt < KEYFRAME_MIN_INTERVAL_MS) with
      | true => simp [State.drops, hdrops]
      | false =>
        cases hgate : canWriteMore s.bytes f.payload.length l with
        | some reason => simp [State.active, State.drops, hactive, hdrops, finishWith]
        | none =>
          have hwrites : writes = false := by simpa [State.active, State.drops, hactive, hdrops, hgate] using h
          simp [State.active, State.drops, hactive, hdrops, hwrites, finishWith]
  | input payload now writes =>
    simp only [step, offerInput]
    cases hactive : s.fd && s.stopped.isNone with
    | false => simp [State.active, hactive]
    | true =>
      cases hgate : canWriteMore s.bytes payload.length s.lastFreeBytes with
      | some reason => simp [State.active, hactive, finishWith]
      | none =>
        have hwrites : writes = false := by simpa [State.records, State.active, hactive, hgate] using h
        simp [State.active, hactive, hwrites, finishWith]
  | stop => exact ⟨rfl, rfl, rfl⟩

/-! ## Runs -/

theorem paint_append (fs : List Frame) (f : Frame) :
    paint decode (fs ++ [f]) = paintFrame decode (paint decode fs) f := by
  simp [paint]

/-- A frame makes two canvases the same exactly if it covers where they differ. -/
theorem paintFrame_eq_iff {c c' : Canvas Pixel} : paintFrame decode c f = paintFrame decode c' f ↔
      f.full ∨ ∀ px py, f.covers px py = false → c px py = c' px py := by
  constructor
  · intro h
    by_cases hfull : f.full
    · exact .inl hfull
    · refine .inr fun px py hcovers => ?_
      have hpoint := congrFun (congrFun h px) py
      simpa [paintFrame, hfull, hcovers] using hpoint
  · intro h
    funext px py
    by_cases hfull : f.full
    · simp [paintFrame, hfull]
    · cases hcovers : f.covers px py with
      | true => simp [paintFrame, hcovers]
      | false => simpa [paintFrame, hfull, hcovers] using (h.resolve_left hfull) px py hcovers

/-- The bytes are those of the file, and the recording replays what was seen. -/
structure Inv (decode : List UInt8 → Int → Int → Pixel) (s : State) : Prop extends Replays decode s where
  bytes : fileSize s.file = s.bytes

theorem fileSize_append (file : List Record) (r : Record) : fileSize (file ++ [r]) = fileSize file + r.length := by
  simp [fileSize]

theorem framesIn_append (file : List Record) (m : FrameMeta) (f : Frame) :
    framesIn (file ++ [.frame m f]) = framesIn file ++ [f] := by
  simp [framesIn]

/-- A recorded frame leaves the recording as the screen exactly if it covers what is stale. -/
theorem shows_step_iff (h : s.records (.frame f now free writes)) :
    (step s (.frame f now free writes)).recorded decode = (step s (.frame f now free writes)).seen decode ↔
      s.Covered decode f := by
  obtain ⟨hfile, _, hoffered, _⟩ := step_frame h
  rw [State.recorded, State.seen, hfile, hoffered, framesIn_append, paint_append, paint_append, paintFrame_eq_iff]
  rfl

theorem Inv.step (h : Inv decode s) (hsound : Sound decode s e) : Inv decode (step s e) := by
  cases hrecords : s.records e with
  | false =>
    obtain ⟨hfile, hbytes, hfresh⟩ := step_unrecorded hrecords
    exact ⟨⟨fun hf => by simp [hfresh] at hf, by rw [hfile]; exact h.size⟩, by rw [hfile, hbytes]; exact h.bytes⟩
  | true =>
    cases e with
    | frame f now free writes =>
      obtain ⟨hcovered, hsize⟩ := hsound hrecords
      obtain ⟨hfile, hbytes, _, _⟩ := step_frame hrecords
      have hlength : fileSize (step s (.frame f now free writes)).file =
          s.bytes + recordLength (frameMeta s f now) f.payload := by
        rw [hfile, fileSize_append, h.bytes]
        rfl
      exact ⟨⟨fun _ => (shows_step_iff hrecords).mpr hcovered, by rw [hlength]; exact hsize⟩, by rw [hlength, hbytes]⟩
    | input payload now writes =>
      obtain ⟨hfile, hbytes, hfresh⟩ := step_input hrecords
      have hlength : fileSize (step s (.input payload now writes)).file =
          s.bytes + recordLength (inputMeta s now) payload := by
        rw [hfile, fileSize_append, h.bytes]
        rfl
      exact ⟨⟨fun hf => by simp [hfresh] at hf, by rw [hlength]; exact hsound hrecords⟩, by rw [hlength, hbytes]⟩
    | stop => cases hrecords

theorem not_replays_step (h : Inv decode s) (hsound : ¬ Sound decode s e) : ¬ Replays decode (step s e) := by
  intro hreplays
  refine hsound fun hrecords => ?_
  cases e with
  | frame f now free writes =>
    obtain ⟨hfile, _, _, hfresh⟩ := step_frame hrecords
    refine ⟨(shows_step_iff hrecords).mp (hreplays.shows hfresh), ?_⟩
    have hsize := hreplays.size
    rw [hfile, fileSize_append, h.bytes] at hsize
    exact hsize
  | input payload now writes =>
    have hsize := hreplays.size
    rw [(step_input hrecords).1, fileSize_append, h.bytes] at hsize
    exact hsize
  | stop => trivial

/-- A recording always replays what was seen exactly if each recorded event is sound. -/
theorem replays_iff_sound (decode : List UInt8 → Int → Int → Pixel) (startedAt : Int) (free : Option Nat)
    (tr : List Event) : (recorder startedAt free).Always (Replays decode) tr ↔
      (recorder startedAt free).Guarded (Sound decode) tr := by
  refine Machine.always_iff_guarded (I := Inv decode) ?_ (fun s e h hsound => h.step hsound) (fun s h => h.toReplays)
    (fun s e h hsound => not_replays_step h hsound) tr
  exact ⟨⟨fun hf => (nomatch hf), Nat.zero_le _⟩, rfl⟩

end Replay

/-! ## A dropped frame -/

def fullFrame (b : UInt8) : Frame := ⟨[b], true, 0, 0, 8, 8, 8, 8⟩

/-- Two full frames within a second, and a partial one of one point. -/
def droppedFrame : List Event :=
  [.frame (fullFrame 1) 2000 none true, .frame (fullFrame 2) 2500 none true,
    .frame ⟨[3], false, 0, 0, 1, 1, 8, 8⟩ 2600 none true]

/-- Next to the partial frame, the recording shows the frame before the dropped one. -/
theorem not_replays_droppedFrame : ¬ ∀ (decode : List UInt8 → Int → Int → UInt8) (startedAt : Int) (free : Option Nat)
    (f : Frame) (now : Int) (free' : Option Nat) (writes : Bool) (tr : List Event), f.full = true →
    (recorder startedAt free).Always (Replays decode) (.frame f now free' writes :: tr) := by
  intro h
  let decode (payload : List UInt8) (_ _ : Int) : UInt8 := payload.headD 0
  have hlast : Replays decode ((recorder 1000 none).run droppedFrame) :=
    (h decode 1000 none (fullFrame 1) 2000 none true droppedFrame.tail rfl).last
  have hfresh : ((recorder 1000 none).run droppedFrame).fresh := by decide +kernel
  have hpoint := congrFun (congrFun (hlast.shows hfresh) 5) 5
  revert hpoint
  decide +kernel

end Rcp.ScreenRecorder
