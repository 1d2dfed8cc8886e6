-- SUMMARY: Splitting a facts payload into chunks, and how the Linux bridge puts it together again.
import Tracenium.Lib.Machine
import Tracenium.Lib.Utf8
import Mathlib.Algebra.Order.BigOperators.Group.List
import Mathlib.Algebra.Order.Group.Nat
import Mathlib.Logic.Function.Basic

/-!
The agent splits a payload that does not fit in one request at every `FACTS_CHUNK_SIZE` UTF-16
units (`src/transport/grpc-client.ts`). The chunks are slices, so their concatenation is always
the payload, but a boundary may fall inside a surrogate pair.
-/

open Utf16 List Function Nat

namespace Facts

def MAX_FACTS_IPC_BYTES : Nat := 32 * 1024

def FACTS_CHUNK_SIZE : Nat := 32 * 1024

theorem FACTS_CHUNK_SIZE_pos : 0 < FACTS_CHUNK_SIZE := by decide

def MAX_FACTS_PAYLOAD_BYTES : Nat := 16 * 1024 * 1024

/-- The error code of a payload that no reassembler takes. -/
def FACTS_TOO_LARGE : String := "facts_too_large"

/-- `str.slice(i, j)` for `0 ≤ i ≤ j`. -/
def slice (str : Str) (i j : Nat) : Str := (str.drop i).take (j - i)

/-- The iterations of the loop of `chunkString` from index `i` on. With `size = 0` the source
does not terminate. -/
def chunksFrom (str : Str) (size i : Nat) : List Str :=
  if i < str.length ∧ 0 < size then
    slice str i (i + size) :: chunksFrom str size (i + size)
  else []
termination_by str.length - i

def chunkString (str : Str) (size : Nat) : List Str := chunksFrom str size 0

theorem chunksFrom_of_lt {str : Str} {size i : Nat} (hi : i < str.length) (hsize : 0 < size) :
    chunksFrom str size i = (str.drop i).take size :: chunksFrom str size (i + size) := by
  rw [chunksFrom, if_pos ⟨hi, hsize⟩, slice, Nat.add_sub_cancel_left]

theorem chunksFrom_of_le {str : Str} {size i : Nat} (hi : str.length ≤ i) : chunksFrom str size i = [] := by
  rw [chunksFrom, if_neg (by omega)]

/-- The loop ends with everything from `i` on in its chunks. -/
theorem flatten_chunksFrom (str : Str) {size : Nat} (hsize : 0 < size) (i : Nat) :
    (chunksFrom str size i).flatten = str.drop i := by
  fun_induction chunksFrom str size i with
  | case1 i h ih =>
    rw [List.flatten_cons, ih, slice, Nat.add_sub_cancel_left, ← List.drop_drop, take_append_drop]
  | case2 i h =>
    rw [flatten_nil, drop_eq_nil_of_le (by omega)]

/-- The chunks of a payload concatenate to it. -/
theorem flatten_chunkString (str : Str) {size : Nat} (hsize : 0 < size) : (chunkString str size).flatten = str := by
  simpa [chunkString] using flatten_chunksFrom str hsize 0

/-- All chunks but the last are full, so a payload has as many as it needs. -/
theorem length_chunksFrom_mul_le (str : Str) (size i : Nat) :
    (chunksFrom str size i).length * size < str.length - i + size ∨ size = 0 := by
  fun_induction chunksFrom str size i with
  | case1 i h ih =>
    left
    rcases ih with hlt | hz
    · rw [List.length_cons, Nat.add_mul]
      rcases lt_or_ge (i + size) str.length with hin | hout
      · omega
      · rw [chunksFrom_of_le hout]
        simp
        omega
    · omega
  | case2 i h =>
    rcases Nat.eq_zero_or_pos size with hz | hpos
    · exact .inr hz
    · left
      simp
      omega

/-- The chunks of a payload of at most `n * size` units are at most `n`. -/
theorem length_chunkString_le {str : Str} {size n : Nat} (hsize : 0 < size)
    (h : str.length ≤ n * size) : (chunkString str size).length ≤ n := by
  rcases length_chunksFrom_mul_le str size 0 with hlt | hz
  · have hmul : (chunkString str size).length * size < (n + 1) * size := by
      rw [Nat.add_mul]
      unfold chunkString
      omega
    exact Nat.lt_succ_iff.mp (Nat.lt_of_mul_lt_mul_right hmul)
  · omega

/-- The chunks from a clean cut on are well formed exactly when no later boundary is inside a
surrogate pair. -/
theorem wellFormed_chunksFrom_iff {str : Str} {size : Nat} (hsize : 0 < size) {i : Nat}
    (hwf : WellFormed (str.drop i)) : (∀ c ∈ chunksFrom str size i, WellFormed c) ↔
      ∀ j, splitsPair str (i + (j + 1) * size) = false := by
  fun_induction chunksFrom str size i with
  | case1 i h ih =>
    have hhead : WellFormed ((str.drop i).take size) ↔ splitsPair str (i + size) = false := by
      rw [hwf.take_iff, splitsPair_drop str i hsize]
    have hindex (j : Nat) : i + size + (j + 1) * size = i + (j + 1 + 1) * size := by
      rw [Nat.add_mul (j + 1) 1]
      omega
    have hdrop (hcut : splitsPair str (i + size) = false) :
        WellFormed (str.drop (i + size)) := by
      rw [← drop_drop]
      exact hwf.drop (by rwa [splitsPair_drop str i hsize])
    rw [List.forall_mem_cons, slice, Nat.add_sub_cancel_left, hhead]
    constructor
    · rintro ⟨hcut, htail⟩
      have hrest := (ih (hdrop hcut)).mp htail
      intro j
      cases j with
      | zero => simpa using hcut
      | succ j => rw [← hindex, hrest j]
    · intro hall
      have hcut : splitsPair str (i + size) = false := by simpa using hall 0
      refine ⟨hcut, (ih (hdrop hcut)).mpr fun j => ?_⟩
      rw [hindex, hall (j + 1)]
  | case2 i h =>
    refine ⟨fun _ j => splitsPair_of_length_le (by omega), nofun⟩

/-- The chunks of a payload are well formed exactly when no chunk boundary is inside a surrogate
pair. -/
theorem wellFormed_chunkString_iff {str : Str} {size : Nat} (hsize : 0 < size) (hwf : WellFormed str) :
    (∀ c ∈ chunkString str size, WellFormed c) ↔ ∀ k, splitsPair str (k * size) = false := by
  rw [chunkString, wellFormed_chunksFrom_iff hsize (by simpa using hwf)]
  constructor
  · intro h k
    cases k with
    | zero => simp
    | succ k => simpa using h k
  · intro h j
    simpa using h (j + 1)

end Facts

/-!
# Reassembly in the Linux privileged service

`handleFactsChunk` of `privsvc/linux/src/grpc-bridge.ts` collects the chunks of each event in an
array and hands the joined payload to `handleFactsSend` once no slot is empty. A repeated chunk
replaces the one that is there. Uploads that were given up are dropped by a timer.
-/

namespace Facts

def MAX_FACTS_CHUNKS : Nat := 1024

/-- `params` of a `grpc.facts.chunk` request, after the conversions at the head of the handler. A
number that is no integer is `none`. -/
structure ChunkParams where
  eventId : Str
  chunkIndex : Option Int
  totalChunks : Option Int
  payloadChunk : Str
  factNamespace : Str
  namespaces : List Str
  deriving DecidableEq

/-- The Facts message of the control-plane stream. -/
structure FactsFrame where
  traceId : Str
  eventId : Str
  deviceId : Str
  factNamespace : Str
  namespaces : List Str
  payloadJson : List UInt8
  deriving DecidableEq

inductive Answer
  | sendAccepted (eventId : Str)
  | chunkAccepted (eventId : Str) (chunkIndex totalChunks : Nat)
  | fail (code message : String)
  deriving DecidableEq

/-- The request is answered with `facts_too_large`. -/
def Answer.isTooLarge : Answer → Bool
  | .fail code _ => code == FACTS_TOO_LARGE
  | _ => false

namespace Linux

def CHUNK_TTL_MS : Int := 5 * 60 * 1000

def MAX_CHUNK_BYTES : Nat := 64 * 1024

/-- Replacing one chunk changes the size of all by the difference. -/
theorem sum_map_set {cs : List Str} {i : Nat} (hi : i < cs.length) (c : Str) :
    ((cs.set i c).map byteLength).sum + byteLength cs[i] = (cs.map byteLength).sum + byteLength c := by
  induction cs generalizing i with
  | nil => simp at hi
  | cons d cs ih =>
    cases i with
    | zero =>
      simp only [set_cons_zero, map_cons, sum_cons, getElem_cons_zero]
      omega
    | succ i =>
      have hrest := ih (i := i) (by simpa using hi)
      simp only [set_cons_succ, map_cons, sum_cons, getElem_cons_succ]
      omega

/-- An upload under way. A slot whose chunk has not come is the empty string. -/
structure Entry where
  totalChunks : Nat
  chunks : List Str
  bytes : Nat
  createdAt : Int
  factNamespace : Str
  namespaces : List Str
  length_eq : chunks.length = totalChunks
  bytes_eq : bytes = (chunks.map byteLength).sum

def Entry.new (totalChunks : Nat) (createdAt : Int) (factNamespace : Str)
    (namespaces : List Str) : Entry where
  totalChunks := totalChunks
  chunks := replicate totalChunks []
  bytes := 0
  createdAt := createdAt
  factNamespace := factNamespace
  namespaces := namespaces
  length_eq := length_replicate
  bytes_eq := by simp [byteLength]

/-- Namespaces of a later chunk only fill the ones that are missing. -/
def Entry.fillNamespaces (e : Entry) (factNamespace : Str) (namespaces : List Str) : Entry :=
  { e with
    factNamespace := if factNamespace ≠ [] ∧ e.factNamespace = [] then factNamespace
      else e.factNamespace
    namespaces := if namespaces.length > 0 ∧ e.namespaces.length = 0 then namespaces
      else e.namespaces }

@[simp] theorem Entry.fillNamespaces_totalChunks (e : Entry) (ns : Str) (nss : List Str) :
    (e.fillNamespaces ns nss).totalChunks = e.totalChunks := rfl

@[simp] theorem Entry.fillNamespaces_chunks (e : Entry) (ns : Str) (nss : List Str) :
    (e.fillNamespaces ns nss).chunks = e.chunks := rfl

/-- `chunks[chunkIndex] = payloadChunk`, and the byte count with it. -/
def Entry.put (e : Entry) (chunkIndex : Nat) (h : chunkIndex < e.totalChunks)
    (payloadChunk : Str) : Entry :=
  have hi : chunkIndex < e.chunks.length := by rw [e.length_eq]; exact h
  { e with
    chunks := e.chunks.set chunkIndex payloadChunk
    bytes := e.bytes - byteLength e.chunks[chunkIndex] + byteLength payloadChunk
    length_eq := by rw [length_set, e.length_eq]
    bytes_eq := by
      have hsum := sum_map_set hi payloadChunk
      have hle : byteLength e.chunks[chunkIndex] ≤ (e.chunks.map byteLength).sum :=
        le_sum_of_mem (mem_map_of_mem (getElem_mem hi))
      have hbytes := e.bytes_eq
      omega }

/-- The part of the bridge state that facts requests touch, with the frames handed to `write` and
the answers given so far. -/
structure State where
  chunks : Str → Option Entry
  written : List FactsFrame
  answers : List (ChunkParams × Answer)

/-- What a request finds: the clock, the device of the connection and how `write` ends. -/
structure Env where
  now : Int
  deviceId : Str
  writeError : Option String

/-- `String(payloadJson || "{}")`. -/
def orEmptyObject (payloadJson : Str) : Str :=
  if payloadJson = [] then ascii ['{', '}'] else payloadJson

def handleFactsSend (s : State) (env : Env) (eventId payloadJson factNamespace : Str)
    (namespaces : List Str) : State × Answer :=
  if eventId = [] then (s, .fail "bad_request" "eventId required")
  else
    let frame : FactsFrame :=
      { traceId := eventId
        eventId := eventId
        deviceId := env.deviceId
        factNamespace := factNamespace
        namespaces := namespaces.filter (0 < ·.length)
        payloadJson := Utf8.encode (orEmptyObject payloadJson) }
    let sent := { s with written := s.written ++ [frame] }
    match env.writeError with
    | none => (sent, .sendAccepted eventId)
    | some message => (sent, .fail "facts_send_failed" message)

/-- The tail of `handleFactsChunk`, from the check of the byte count on: `current` is the entry
before the chunk is stored. -/
def storeChunk (s : State) (env : Env) (p : ChunkParams) (current : Entry) (chunkIndex : Nat)
    (h : chunkIndex < current.totalChunks) : State × Answer :=
  let next := current.put chunkIndex h p.payloadChunk
  let deleted := { s with chunks := update s.chunks p.eventId none }
  if next.bytes > MAX_FACTS_PAYLOAD_BYTES then
    (deleted, .fail FACTS_TOO_LARGE s!"facts payload exceeds {MAX_FACTS_PAYLOAD_BYTES} bytes")
  else if next.chunks.all (0 < ·.length) then
    handleFactsSend deleted env p.eventId next.chunks.flatten next.factNamespace next.namespaces
  else
    ({ s with chunks := update s.chunks p.eventId (some next) },
      .chunkAccepted p.eventId chunkIndex current.totalChunks)

def currentEntry (s : State) (env : Env) (p : ChunkParams) (totalChunks : Nat) : Entry :=
  (s.chunks p.eventId).getD
    (.new totalChunks env.now p.factNamespace (p.namespaces.filter (0 < ·.length)))

def handleFactsChunk (s : State) (env : Env) (p : ChunkParams) : State × Answer :=
  match p.chunkIndex, p.totalChunks with
  | some chunkIndex, some totalChunks =>
    if p.eventId = [] ∨ totalChunks ≤ 0 then
      (s, .fail "bad_request" "invalid chunk parameters")
    else if totalChunks > MAX_FACTS_CHUNKS then
      (s, .fail FACTS_TOO_LARGE s!"totalChunks {totalChunks} exceeds cap {MAX_FACTS_CHUNKS}")
    else if hi : chunkIndex < 0 ∨ chunkIndex ≥ totalChunks then
      (s, .fail "bad_request" s!"chunkIndex {chunkIndex} out of range")
    else if p.payloadChunk.length > MAX_CHUNK_BYTES then
      (s, .fail "bad_request"
        s!"chunk size {p.payloadChunk.length} exceeds cap {MAX_CHUNK_BYTES}")
    else
      let current := currentEntry s env p totalChunks.toNat
      if ht : current.totalChunks ≠ totalChunks.toNat then
        (s, .fail "bad_request" "totalChunks changed mid-stream")
      else
        have h : chunkIndex.toNat < current.totalChunks := by omega
        storeChunk s env p
          (current.fillNamespaces p.factNamespace (p.namespaces.filter (0 < ·.length)))
          chunkIndex.toNat h
  | _, _ => (s, .fail "bad_request" "invalid chunk parameters")

/-- The timer that drops uploads older than `CHUNK_TTL_MS`. -/
def sweepStaleChunks (s : State) (now : Int) : State :=
  { s with
    chunks := fun eventId =>
      (s.chunks eventId).filter fun e => !decide (now - e.createdAt > CHUNK_TTL_MS) }

inductive Event
  | request (env : Env) (p : ChunkParams)
  | sweep (now : Int)

def step (s : State) : Event → State
  | .request env p =>
    let r := handleFactsChunk s env p
    { r.1 with answers := r.1.answers ++ [(p, r.2)] }
  | .sweep now => sweepStaleChunks s now

def machine : Machine State Event where
  init := ⟨fun _ => none, [], []⟩
  step := step

/-! ## What one request does -/

@[simp] theorem handleFactsSend_chunks (s : State) (env : Env) (eventId payload ns : Str)
    (nss : List Str) : (handleFactsSend s env eventId payload ns nss).1.chunks = s.chunks := by
  unfold handleFactsSend
  split
  · rfl
  · split <;> rfl

@[simp] theorem handleFactsSend_answers (s : State) (env : Env) (eventId payload ns : Str)
    (nss : List Str) : (handleFactsSend s env eventId payload ns nss).1.answers = s.answers := by
  unfold handleFactsSend
  split
  · rfl
  · split <;> rfl

/-- At most one frame is written, with the event and the payload of the request. -/
theorem handleFactsSend_written (s : State) (env : Env) (eventId payload ns : Str) (nss : List Str) :
    ∀ f ∈ (handleFactsSend s env eventId payload ns nss).1.written, f ∈ s.written ∨
        (f.eventId = eventId ∧ f.payloadJson = Utf8.encode (orEmptyObject payload)) := by
  unfold handleFactsSend
  split
  · exact fun f hf => .inl hf
  · dsimp only
    split <;>
      · intro f hf
        rcases mem_append.mp hf with hf | hf
        · exact .inl hf
        · rw [mem_singleton.mp hf]
          exact .inr ⟨rfl, rfl⟩

theorem handleFactsSend_not_tooLarge (s : State) (env : Env) (eventId payload ns : Str)
    (nss : List Str) : (handleFactsSend s env eventId payload ns nss).2.isTooLarge = false := by
  unfold handleFactsSend
  split
  · rfl
  · dsimp only
    split <;> rfl

/-- What a chunk request can do: it is refused before the entry is touched, or it is stored in the
entry of its event, which is new if there was none. -/
theorem handleFactsChunk_cases (s : State) (env : Env) (p : ChunkParams) :
    (∃ message, handleFactsChunk s env p = (s, .fail "bad_request" message)) ∨
    (∃ totalChunks message, p.totalChunks = some totalChunks ∧ totalChunks > MAX_FACTS_CHUNKS ∧
      handleFactsChunk s env p = (s, .fail FACTS_TOO_LARGE message)) ∨
    (∃ (i : Nat) (current : Entry) (h : i < current.totalChunks),
      p.chunkIndex = some (i : Int) ∧ p.totalChunks = some (current.totalChunks : Int) ∧
      ((∃ e, s.chunks p.eventId = some e ∧ current.chunks = e.chunks) ∨ (s.chunks p.eventId = none ∧
          current.chunks = replicate current.totalChunks [])) ∧
      handleFactsChunk s env p = storeChunk s env p current i h) := by
  unfold handleFactsChunk
  split
  case h_2 => exact .inl ⟨_, rfl⟩
  case h_1 chunkIndex totalChunks hindex htotal =>
    split
    · exact .inl ⟨_, rfl⟩
    split
    · exact .inr (.inl ⟨_, _, htotal, ‹_›, rfl⟩)
    split
    · exact .inl ⟨_, rfl⟩
    split
    · exact .inl ⟨_, rfl⟩
    dsimp only
    split
    · exact .inl ⟨_, rfl⟩
    rename_i hpos hmax hrange hlen htotals
    rw [not_not] at htotals
    have hlt : chunkIndex.toNat < (currentEntry s env p totalChunks.toNat).totalChunks := by omega
    refine .inr (.inr ⟨chunkIndex.toNat, Entry.fillNamespaces _ _ _, hlt, ?_, ?_, ?_, rfl⟩)
    · rw [hindex, Int.toNat_of_nonneg (by omega)]
    · rw [htotal, Entry.fillNamespaces_totalChunks, htotals, Int.toNat_of_nonneg (by omega)]
    · rw [Entry.fillNamespaces_chunks, Entry.fillNamespaces_totalChunks, currentEntry]
      cases s.chunks p.eventId with
      | none => exact .inr ⟨rfl, rfl⟩
      | some e => exact .inl ⟨e, rfl, rfl⟩

/-- What storing a chunk can do: the upload is dropped as too large, forwarded as complete, or
kept. -/
theorem storeChunk_cases (s : State) (env : Env) (p : ChunkParams) (current : Entry) {i : Nat}
    (h : i < current.totalChunks) :
    let next := current.put i h p.payloadChunk
    (next.bytes > MAX_FACTS_PAYLOAD_BYTES ∧ ∃ message, storeChunk s env p current i h =
      ({ s with chunks := update s.chunks p.eventId none }, .fail FACTS_TOO_LARGE message)) ∨
    ((∀ c ∈ next.chunks, c ≠ []) ∧ storeChunk s env p current i h =
      handleFactsSend { s with chunks := update s.chunks p.eventId none } env p.eventId
        next.chunks.flatten next.factNamespace next.namespaces) ∨
    storeChunk s env p current i h = ({ s with chunks := update s.chunks p.eventId (some next) },
        .chunkAccepted p.eventId i current.totalChunks) := by
  intro next
  unfold storeChunk
  dsimp only
  split
  · exact .inl ⟨‹_›, _, rfl⟩
  split
  · rename_i hall
    refine .inr (.inl ⟨?_, rfl⟩)
    simpa [length_pos_iff] using hall
  · exact .inr (.inr rfl)

/-- A chunk request touches only the upload of its own event. -/
theorem handleFactsChunk_chunks_ne (s : State) (env : Env) (p : ChunkParams) {eventId : Str}
    (h : eventId ≠ p.eventId) : (handleFactsChunk s env p).1.chunks eventId = s.chunks eventId := by
  rcases handleFactsChunk_cases s env p with ⟨_, heq⟩ | ⟨_, _, -, -, heq⟩ |
    ⟨i, current, hi, -, -, -, heq⟩
  · rw [heq]
  · rw [heq]
  · rw [heq]
    rcases storeChunk_cases s env p current hi with ⟨-, _, hs⟩ | ⟨-, hs⟩ | hs <;> simp [hs, h]

theorem handleFactsChunk_answers (s : State) (env : Env) (p : ChunkParams) :
    (handleFactsChunk s env p).1.answers = s.answers := by
  rcases handleFactsChunk_cases s env p with ⟨_, heq⟩ | ⟨_, _, -, -, heq⟩ |
    ⟨i, current, hi, -, -, -, heq⟩
  · rw [heq]
  · rw [heq]
  · rw [heq]
    rcases storeChunk_cases s env p current hi with ⟨-, _, hs⟩ | ⟨-, hs⟩ | hs <;> simp [hs]

/-- The frames a chunk request writes are frames of its event. -/
theorem handleFactsChunk_written (s : State) (env : Env) (p : ChunkParams) :
    ∀ f ∈ (handleFactsChunk s env p).1.written, f ∈ s.written ∨ f.eventId = p.eventId := by
  intro f hf
  rcases handleFactsChunk_cases s env p with ⟨_, heq⟩ | ⟨_, _, -, -, heq⟩ |
    ⟨i, current, hi, -, -, -, heq⟩
  · rw [heq] at hf
    exact .inl hf
  · rw [heq] at hf
    exact .inl hf
  · rw [heq] at hf
    rcases storeChunk_cases s env p current hi with ⟨-, _, hs⟩ | ⟨-, hs⟩ | hs
    · rw [hs] at hf
      exact .inl hf
    · rw [hs] at hf
      exact (handleFactsSend_written _ _ _ _ _ _ f hf).imp_right And.left
    · rw [hs] at hf
      exact .inl hf

/-! ## Collecting one payload -/

/-- Every slot is empty or holds the chunk of its index. -/
def Partial (cs xs : List Str) : Prop := Forall₂ (fun x c => x = [] ∨ x = c) xs cs

namespace Partial

theorem replicate (cs : List Str) : Partial cs (replicate cs.length []) := by
  induction cs with
  | nil => exact .nil
  | cons c cs ih => exact .cons (.inl rfl) ih

theorem set {cs xs : List Str} (h : Partial cs xs) {i : Nat} {c : Str} (hc : cs[i]? = some c) :
    Partial cs (xs.set i c) := by
  induction h generalizing i with
  | nil => exact .nil
  | @cons x d xs cs hx hrest ih =>
    cases i with
    | zero =>
      obtain rfl : d = c := by simpa using hc
      exact .cons (.inr rfl) hrest
    | succ i => exact .cons hx (ih (by simpa using hc))

/-- What has come is no larger than the payload. -/
theorem sum_le {cs xs : List Str} (h : Partial cs xs) : (xs.map byteLength).sum ≤ (cs.map byteLength).sum := by
  induction h with
  | nil => exact le_refl _
  | cons hx _ ih =>
    simp only [map_cons, sum_cons]
    rcases hx with rfl | rfl
    · simp only [byteLength]
      omega
    · omega

/-- When no slot is empty, all chunks have come. -/
theorem eq_of_full {cs xs : List Str} (h : Partial cs xs) (hfull : ∀ x ∈ xs, x ≠ []) : xs = cs := by
  induction h with
  | nil => rfl
  | cons hx _ ih =>
    obtain ⟨hhead, htail⟩ := forall_mem_cons.mp hfull
    rw [hx.resolve_left hhead, ih htail]

end Partial

theorem orEmptyObject_of_ne_nil {payloadJson : Str} (h : payloadJson ≠ []) :
    orEmptyObject payloadJson = payloadJson := by
  rw [orEmptyObject, if_neg h]

/-- The request carries a chunk of `cs`, under its index. -/
def IsChunkOf (cs : List Str) (p : ChunkParams) : Prop :=
  ∃ i : Nat, p.chunkIndex = some (i : Int) ∧ p.totalChunks = some (cs.length : Int) ∧ cs[i]? = some p.payloadChunk

/-- The upload of an event is a part of `cs`. -/
def Collects (cs : List Str) (eventId : Str) (s : State) : Prop :=
  ∀ e, s.chunks eventId = some e → e.totalChunks = cs.length ∧ Partial cs e.chunks

/-- A chunk of a payload that fits is not refused as too large, it keeps the upload a part of the
payload, and what it makes the bridge write is the payload. -/
theorem handleFactsChunk_of_isChunkOf {cs : List Str} {s : State} {p : ChunkParams}
    (hcol : Collects cs p.eventId s) (hp : IsChunkOf cs p) (hcount : cs.length ≤ MAX_FACTS_CHUNKS)
    (hsize : (cs.map byteLength).sum ≤ MAX_FACTS_PAYLOAD_BYTES) (env : Env) :
    Collects cs p.eventId (handleFactsChunk s env p).1 ∧ (handleFactsChunk s env p).2.isTooLarge = false ∧
      ∀ f ∈ (handleFactsChunk s env p).1.written, f ∈ s.written ∨ f.payloadJson = Utf8.encode cs.flatten := by
  obtain ⟨j, hindex, htotal, hchunk⟩ := hp
  rcases handleFactsChunk_cases s env p with ⟨message, heq⟩ | ⟨total, message, ht, hmax, heq⟩ |
    ⟨i, current, hi, hindex', htotal', hcurrent, heq⟩
  · rw [heq]
    exact ⟨hcol, rfl, fun f hf => .inl hf⟩
  · -- the payload has few enough chunks
    rw [htotal] at ht
    obtain rfl := Option.some.inj ht
    omega
  · obtain rfl : j = i := by
      rw [hindex] at hindex'
      exact Int.ofNat.inj (Option.some.inj hindex')
    have hlen : current.totalChunks = cs.length := by
      rw [htotal] at htotal'
      exact Int.ofNat.inj (Option.some.inj htotal').symm
    have hpart : Partial cs current.chunks := by
      rcases hcurrent with ⟨e, hentry, hsame⟩ | ⟨-, hnew⟩
      · rw [hsame]
        exact (hcol e hentry).2
      · rw [hnew, hlen]
        exact .replicate cs
    have hnext : Partial cs (current.put j hi p.payloadChunk).chunks := hpart.set hchunk
    have hbytes : (current.put j hi p.payloadChunk).bytes ≤ MAX_FACTS_PAYLOAD_BYTES := by
      rw [(current.put j hi p.payloadChunk).bytes_eq]
      exact hnext.sum_le.trans hsize
    rw [heq]
    rcases storeChunk_cases s env p current hi with ⟨hover, -⟩ | ⟨hfull, hs⟩ | hs
    · omega
    · rw [hs, hnext.eq_of_full hfull]
      have hne : cs.flatten ≠ [] := by
        rw [hnext.eq_of_full hfull] at hfull
        intro hnil
        have hmem := mem_of_getElem? hchunk
        exact hfull _ hmem (flatten_eq_nil_iff.mp hnil _ hmem)
      refine ⟨fun e he => by simp at he, handleFactsSend_not_tooLarge _ _ _ _ _ _, ?_⟩
      intro f hf
      rw [← orEmptyObject_of_ne_nil hne]
      exact (handleFactsSend_written _ _ _ _ _ _ f hf).imp_right And.right
    · rw [hs]
      refine ⟨fun e he => ?_, rfl, fun f hf => .inl hf⟩
      obtain rfl : current.put j hi p.payloadChunk = e := by simpa using he
      exact ⟨hlen, hnext⟩

/-- Of the requests for `eventId`, the event delivers only chunks of `cs`. -/
def Delivers (cs : List Str) (eventId : Str) : Event → Prop
  | .request _ p => p.eventId = eventId → IsChunkOf cs p
  | .sweep _ => True

/-- The bridge has been faithful to the payload of `eventId`. -/
structure Faithful (cs : List Str) (eventId : Str) (s : State) : Prop where
  collects : Collects cs eventId s
  answers : ∀ a ∈ s.answers, a.1.eventId = eventId → a.2.isTooLarge = false
  written : ∀ f ∈ s.written, f.eventId = eventId → f.payloadJson = Utf8.encode cs.flatten

theorem Faithful.step {cs : List Str} {eventId : Str} {s : State} (hs : Faithful cs eventId s)
    (hcount : cs.length ≤ MAX_FACTS_CHUNKS) (hsize : (cs.map byteLength).sum ≤ MAX_FACTS_PAYLOAD_BYTES) {ev : Event}
    (hev : Delivers cs eventId ev) : Faithful cs eventId (step s ev) := by
  cases ev with
  | sweep now =>
    refine ⟨fun e he => ?_, hs.answers, hs.written⟩
    simp only [Linux.step, sweepStaleChunks, Option.filter_eq_some_iff] at he
    exact hs.collects e he.1
  | request env p =>
    have hanswers : ∀ a ∈ (Linux.step s (.request env p)).answers,
        a ∈ s.answers ∨ a = (p, (handleFactsChunk s env p).2) := by
      intro a ha
      simpa [Linux.step, handleFactsChunk_answers] using ha
    by_cases hown : p.eventId = eventId
    · have hp := hev hown
      subst hown
      obtain ⟨hcol, hok, hwritten⟩ := handleFactsChunk_of_isChunkOf hs.collects hp hcount hsize env
      refine ⟨hcol, ?_, ?_⟩
      · intro a ha hid
        rcases hanswers a ha with ha | rfl
        · exact hs.answers a ha hid
        · exact hok
      · intro f hf hid
        rcases hwritten f hf with hf | hf
        · exact hs.written f hf hid
        · exact hf
    · refine ⟨fun e he => ?_, ?_, ?_⟩
      · refine hs.collects e ?_
        rw [← he]
        exact (handleFactsChunk_chunks_ne s env p (Ne.symm hown)).symm
      · intro a ha hid
        rcases hanswers a ha with ha | rfl
        · exact hs.answers a ha hid
        · exact absurd hid hown
      · intro f hf hid
        rcases handleFactsChunk_written s env p f hf with hf | hf
        · exact hs.written f hf hid
        · exact absurd (hf.symm.trans hid) hown

/-- Whatever the order, the repetitions and the partial attempts, and whatever is sent for other
events, the bridge is faithful to a payload that fits. -/
theorem faithful_run {cs : List Str} (hcount : cs.length ≤ MAX_FACTS_CHUNKS)
    (hsize : (cs.map byteLength).sum ≤ MAX_FACTS_PAYLOAD_BYTES) {eventId : Str}
    {tr : List Event} (htr : ∀ ev ∈ tr, Delivers cs eventId ev) : Faithful cs eventId (machine.run tr) := by
  have hinit : Faithful cs eventId machine.init :=
    ⟨fun e he => by simp [machine] at he, by simp [machine], by simp [machine]⟩
  have hguard : machine.Guarded (fun _ ev => Delivers cs eventId ev) tr :=
    Machine.guarded_of_forall fun ev hev _ => htr ev hev
  exact (hguard.always hinit fun s ev hs hev => hs.step hcount hsize hev).last

end Linux

end Facts
