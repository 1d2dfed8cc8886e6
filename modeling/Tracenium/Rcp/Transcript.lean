-- SUMMARY: The transcript of a shell: what is buffered and sent, and the writes after which its chunks are not what they should be.
import Tracenium.Lib.Machine
import Tracenium.Lib.Utf16
import Mathlib.Data.Rat.Defs
import Mathlib.Algebra.Order.Ring.Unbundled.Rat

/-!
`TranscriptBuffer` collects what the shell writes and passes it on in chunks, when there is enough of it, when a timer
fires and when the session ends. A write of more than `MAX_CHUNK_BYTES` is passed on in slices of its own.
-/

open Utf16

namespace Rcp.Transcript

def FLUSH_THRESHOLD_BYTES : Nat := 8 * 1024
def MAX_CHUNK_BYTES : Nat := 64 * 1024

structure Chunk where
  stream : Str
  tsDeltaSeconds : ℚ
  data : Str
  bytesCount : Nat
  deriving DecidableEq

structure TranscriptBuffer where
  sessionStartedAtMs : Int
  buffer : Str
  bufferBytes : Nat
  bufferStartMs : Option Int
  flushTimer : Bool
  disposed : Bool

/-- `Math.max(0, t - sessionStartedAtMs) / 1000`. -/
def seconds (sessionStartedAtMs t : Int) : ℚ := (max 0 (t - sessionStartedAtMs) : Int) / 1000

/-- The loop of `sliceAndSendOversize`: the slices of a text from an offset on. -/
def slicesFrom (data : Str) (offset : Nat) : List Str :=
  if offset < data.length then (data.drop offset).take MAX_CHUNK_BYTES :: slicesFrom data (offset + MAX_CHUNK_BYTES)
  else []
termination_by data.length - offset
decreasing_by
  have : 0 < MAX_CHUNK_BYTES := by decide
  omega

namespace TranscriptBuffer

def clearTimer (b : TranscriptBuffer) : TranscriptBuffer := { b with flushTimer := false }

def armTimer (b : TranscriptBuffer) : TranscriptBuffer := if b.flushTimer then b else { b with flushTimer := true }

def flush (b : TranscriptBuffer) : TranscriptBuffer × List Chunk :=
  if b.disposed then (b, [])
  else match b.bufferStartMs with
  | none => (b.clearTimer, [])
  | some bufferStartMs =>
    if b.buffer.isEmpty then (b.clearTimer, [])
    else
      (clearTimer { b with buffer := [], bufferBytes := 0, bufferStartMs := none },
        [⟨text "stdout", seconds b.sessionStartedAtMs bufferStartMs, b.buffer, b.bufferBytes⟩])

def sliceAndSendOversize (b : TranscriptBuffer) (data : Str) (startedAt : Int) : List Chunk :=
  (slicesFrom data 0).map fun slice =>
    ⟨text "stdout", seconds b.sessionStartedAtMs startedAt, slice, byteLength slice⟩

/-- The start of a cycle, if none has started. -/
def begin (b : TranscriptBuffer) (now : Int) : TranscriptBuffer :=
  match b.bufferStartMs with
  | none => armTimer { b with bufferStartMs := some now }
  | some _ => b

/-- The clock shows `now` when a write comes, and `startedAt` when its slices are sent. -/
def append (b : TranscriptBuffer) (data : Str) (now startedAt : Int) : TranscriptBuffer × List Chunk :=
  if b.disposed then (b, [])
  else if data.isEmpty then (b, [])
  else
    let started := b.begin now
    let inboundBytes := byteLength data
    if MAX_CHUNK_BYTES < inboundBytes then
      (started.flush.1, started.flush.2 ++ started.flush.1.sliceAndSendOversize data startedAt)
    else
      let filled :=
        { started with buffer := started.buffer ++ data, bufferBytes := started.bufferBytes + inboundBytes }
      if FLUSH_THRESHOLD_BYTES ≤ filled.bufferBytes then filled.flush else (filled, [])

/-- A timer that is armed fires. -/
def fire (b : TranscriptBuffer) : TranscriptBuffer × List Chunk :=
  if b.flushTimer then flush { b with flushTimer := false } else (b, [])

def dispose (b : TranscriptBuffer) : TranscriptBuffer × List Chunk :=
  if b.disposed then (b, [])
  else (clearTimer { b.flush.1 with disposed := true }, b.flush.2)

end TranscriptBuffer

/-! ## Runs -/

structure Entry where
  data : Str
  now : Int
  startedAt : Int

inductive Event
  | append (entry : Entry)
  | flush
  | timer
  | dispose

/-- The buffer, what was passed on, and the writes that came before the end of the session. -/
structure State where
  buf : TranscriptBuffer
  sent : List Chunk
  log : List Entry

def State.after (s : State) (r : TranscriptBuffer × List Chunk) (written : List Entry) : State :=
  ⟨r.1, s.sent ++ r.2, s.log ++ written⟩

def step (s : State) : Event → State
  | .append e => s.after (s.buf.append e.data e.now e.startedAt) (if s.buf.disposed then [] else [e])
  | .flush => s.after s.buf.flush []
  | .timer => s.after s.buf.fire []
  | .dispose => s.after s.buf.dispose []

def machine (sessionStartedAtMs : Int) : Machine State Event where
  init := ⟨⟨sessionStartedAtMs, [], 0, none, false, false⟩, [], []⟩
  step := step

/-! ## What a transcript should be -/

def textOf (chunks : List Chunk) : Str := chunks.flatMap Chunk.data

def written (log : List Entry) : Str := log.flatMap Entry.data

def entryAt : List Entry → Nat → Option Entry
  | [], _ => none
  | e :: log, i => if i < e.data.length then some e else entryAt log (i - e.data.length)

/-- The time is one that the clock showed during the write that the character is from. -/
def IsTimeOf (session : Int) (log : List Entry) (i : Nat) (time : ℚ) : Prop :=
  ∃ e, entryAt log i = some e ∧ (time = seconds session e.now ∨ time = seconds session e.startedAt)

/-- Each chunk has the time of its first character, where the first chunk starts with a given character. -/
def Timed (session : Int) (log : List Entry) : Nat → List Chunk → Prop
  | _, [] => True
  | i, c :: chunks => IsTimeOf session log i c.tsDeltaSeconds ∧ Timed session log (i + c.data.length) chunks

/-- The clock was never set back. -/
def Forward (log : List Entry) : Prop := (log.flatMap fun e => [e.now, e.startedAt]).Pairwise (· ≤ ·)

/-- Nothing is lost, the chunks are what they should be, and what is in the buffer is about to be flushed. -/
structure Kept (session : Int) (s : State) : Prop where
  complete : textOf s.sent ++ s.buf.buffer = written s.log
  closed : s.buf.disposed = true → s.buf.buffer = []
  counted : ∀ c ∈ s.sent, c.bytesCount = byteLength c.data
  bounded : ∀ c ∈ s.sent, c.bytesCount ≤ MAX_CHUNK_BYTES
  armed : s.buf.buffer ≠ [] → s.buf.disposed = false → s.buf.flushTimer = true
  timed : Timed session s.log 0 s.sent
  sorted : Forward s.log → (s.sent.map Chunk.tsDeltaSeconds).Pairwise (· ≤ ·)

/-- A write after which the transcript is still what it should be: one that goes to the buffer fits in a chunk with
what is there, does not end a surrogate pair that the buffer starts, and does not come in a cycle that only a longer
write has started; and one that is longer has no slice that is longer than a chunk. -/
def Safe (s : State) : Event → Prop
  | .append e => s.buf.disposed = false → e.data ≠ [] →
    if MAX_CHUNK_BYTES < byteLength e.data then ∀ slice ∈ slicesFrom e.data 0, byteLength slice ≤ MAX_CHUNK_BYTES
    else
      s.buf.bufferBytes + byteLength e.data ≤ MAX_CHUNK_BYTES ∧
        splitsPair (s.buf.buffer ++ e.data) s.buf.buffer.length = false ∧
        ∀ startMs ∈ s.buf.bufferStartMs, s.buf.buffer = [] → FLUSH_THRESHOLD_BYTES ≤ byteLength e.data ∧
          (seconds s.buf.sessionStartedAtMs startMs = seconds s.buf.sessionStartedAtMs e.now ∨
            seconds s.buf.sessionStartedAtMs startMs = seconds s.buf.sessionStartedAtMs e.startedAt)
  | _ => True

end Rcp.Transcript
