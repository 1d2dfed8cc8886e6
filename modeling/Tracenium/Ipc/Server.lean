-- SUMMARY: How messages are read off a connection by the clients and by the Linux server, and when the framing is exact.
import Tracenium.Ipc.Wire
import Tracenium.Lib.Batches
import Mathlib.Data.List.InsertIdx

/-!
`PrivSvcClient.onData` (Linux) and `PipeLane.onData` (Windows). Both decode every chunk of bytes by
itself, and the Linux client bounds the text it holds.
-/

open Utf16 Utf8 Lines List

namespace Ipc

/-! ## The Linux client -/

namespace Linux

def MAX_BUFFER_CHARS : Nat := 2 * 1024 * 1024

/-- The client's connection: `closed` after an overflow, which destroys the socket, and after an
exception in the handler. -/
structure Client where
  buffer : Str
  dispatched : List Json
  closed : Bool

def Client.start : Client := ⟨[], [], false⟩

/-- The loop over the complete lines: the messages dispatched, and whether it threw. Looking for a
property of `null` does. -/
def dispatchLines : List Str → List Json × Bool
  | [] => ([], false)
  | line :: lines =>
    match parseLine line with
    | none => dispatchLines lines
    | some .null => ([], true)
    | some msg => (msg :: (dispatchLines lines).1, (dispatchLines lines).2)

def Client.onData (c : Client) (data : List UInt8) : Client :=
  if c.closed then c
  else
    let buffer := c.buffer ++ decode data
    if buffer.length > MAX_BUFFER_CHARS then { c with buffer := [], closed := true }
    else
      let lines := splitLines buffer
      let r := dispatchLines lines.1
      { buffer := lines.2, dispatched := c.dispatched ++ r.1, closed := r.2 }

def receive (chunks : List (List UInt8)) : List Json :=
  (chunks.foldl Client.onData .start).dispatched

end Linux

/-! ## The Windows client -/

namespace Windows

structure Client where
  buffer : Str
  dispatched : List Json

def Client.start : Client := ⟨[], []⟩

def Client.onData (c : Client) (data : List UInt8) : Client :=
  let lines := drainLines (c.buffer ++ decode data)
  { buffer := lines.2, dispatched := c.dispatched ++ lines.1.filterMap parseLine }

def receive (chunks : List (List UInt8)) : List Json :=
  (chunks.foldl Client.onData .start).dispatched

end Windows

/-! ## The text that is read -/

theorem wire_injective {ms ms' : List Message} (h : wire ms' = wire ms)
    (hcrlf : ms'.map Message.crlf = ms.map Message.crlf) : ms' = ms := by
  have hsplit := congrArg splitLines h
  rw [splitLines_wire, splitLines_wire] at hsplit
  have hlines : ms'.map Message.line = ms.map Message.line := congrArg Prod.fst hsplit
  refine eq_of_map_eq ?_ hcrlf
  rw [← filterMap_parseLine, hlines, filterMap_parseLine]

/-- The text read is that of as many messages, and of those written exactly if no chunk begins
inside a character. -/
theorem exists_decoded {ms : List Message} {chunks : List (List UInt8)} (hflat : chunks.flatten = encode (wire ms)) :
    ∃ ms', chunks.flatMap decode = wire ms' ∧ ms'.map Message.crlf = ms.map Message.crlf ∧
      (ms' = ms ↔ ∀ c ∈ chunks, beginsInside c = false) := by
  obtain ⟨hcor, hiff⟩ := flatMap_decode (wellFormed_wire ms) hflat
  obtain ⟨ms', htext, hcrlf⟩ := corrupts_wire hcor
  refine ⟨ms', htext, hcrlf, ?_⟩
  rw [← hiff, htext]
  exact ⟨fun h => by rw [h], fun h => wire_injective h hcrlf⟩

/-- A line of the text of messages holds an object. -/
theorem exists_parseLine {ms : List Message} :
    ∀ l ∈ (splitLines (wire ms)).1, ∃ v, parseLine l = some v ∧ v.isObject := by
  rw [splitLines_wire]
  intro l hl
  obtain ⟨m, -, rfl⟩ := mem_map.mp hl
  exact ⟨m.value, parseLine_line m, m.isObject⟩

/-! ## The Windows client -/

namespace Windows

/-- The client has the lines of the text so far. -/
theorem foldl_onData (chunks : List (List UInt8)) : chunks.foldl Client.onData .start =
      ⟨(splitLines (chunks.flatMap decode)).2, (splitLines (chunks.flatMap decode)).1.filterMap parseLine⟩ := by
  induction chunks using reverseRecOn with
  | nil => rfl
  | append_singleton chunks chunk ih =>
    rw [foldl_concat, ih, Client.onData, flatMap_append, splitLines_append, drainLines_eq]
    simp

/-- The messages come through exactly if no chunk begins inside a character. -/
theorem receive_eq_iff {ms : List Message} {chunks : List (List UInt8)} (hflat : chunks.flatten = encode (wire ms)) :
    receive chunks = ms.map Message.value ↔ ∀ c ∈ chunks, beginsInside c = false := by
  obtain ⟨ms', htext, hcrlf, hiff⟩ := exists_decoded hflat
  have hreceive : receive chunks = ms'.map Message.value := by
    rw [receive, foldl_onData, htext, splitLines_wire, filterMap_parseLine]
  rw [hreceive, ← hiff]
  exact ⟨fun h => eq_of_map_eq h hcrlf, fun h => by rw [h]⟩

end Windows

/-! ## The Linux client -/

namespace Linux

/-- On lines that hold objects the loop dispatches what they hold. -/
theorem dispatchLines_eq {lines : List Str} (h : ∀ l ∈ lines, ∃ v, parseLine l = some v ∧ v.isObject) :
    dispatchLines lines = (lines.filterMap parseLine, false) := by
  induction lines with
  | nil => rfl
  | cons l lines ih =>
    obtain ⟨⟨v, hv, hobj⟩, hlines⟩ := forall_mem_cons.mp h
    rw [dispatchLines, hv, ih hlines, filterMap_cons, hv]
    cases v with
    | obj => rfl
    | _ => cases hobj

/-- On a text of objects the client dispatches what a reader with its bound reads. -/
theorem foldl_onData {chunks : List (List UInt8)}
    (h : ∀ l ∈ (splitLines (chunks.flatMap decode)).1, ∃ v, parseLine l = some v ∧ v.isObject) :
    let r := Reader.readAll MAX_BUFFER_CHARS (chunks.map decode)
    chunks.foldl Client.onData .start = ⟨r.buffer, r.lines.filterMap parseLine, r.closed⟩ := by
  induction chunks using reverseRecOn with
  | nil => rfl
  | append_singleton chunks chunk ih =>
    rw [flatMap_append, flatMap_singleton, splitLines_append] at h
    have hpre := ih fun l hl => h l (mem_append_left _ hl)
    rw [foldl_concat, hpre, map_append, map_singleton, Reader.readAll_snoc, Reader.feed, Client.onData]
    dsimp only
    rcases readAll_cases MAX_BUFFER_CHARS (chunks.map decode) with ⟨-, heq⟩ | ⟨_, _, -, -, -, heq⟩
    · rw [heq, ← flatMap_def]
      simp only [Bool.false_eq_true, if_false]
      split
      · rfl
      · have hlines := dispatchLines_eq fun l hl => h l (mem_append_right _ hl)
        rw [hlines, filterMap_append]
    · rw [heq]
      rfl

/-- The messages come through exactly if no chunk begins inside a character and none overfills the
buffer. -/
theorem receive_eq_iff {ms : List Message} {chunks : List (List UInt8)} (hflat : chunks.flatten = encode (wire ms)) :
    receive chunks = ms.map Message.value ↔
      (∀ c ∈ chunks, beginsInside c = false) ∧ Fits MAX_BUFFER_CHARS (chunks.map decode) := by
  obtain ⟨ms', htext, hcrlf, hiff⟩ := exists_decoded hflat
  have hlines : splitLines (chunks.map decode).flatten = (ms'.map Message.line, []) := by
    rw [← flatMap_def, htext, splitLines_wire]
  have hreceive : receive chunks =
      (Reader.readAll MAX_BUFFER_CHARS (chunks.map decode)).lines.filterMap parseLine := by
    rw [receive, foldl_onData (by rw [htext]; exact exists_parseLine)]
  rw [hreceive, ← hiff, ← lines_readAll_iff hlines]
  constructor
  · intro h
    have hread := lines_readAll_prefix MAX_BUFFER_CHARS (chunks.map decode)
    rw [hlines, prefix_iff_eq_take, ← map_take] at hread
    rw [hread, filterMap_parseLine] at h
    -- as many messages are read as were written, so all of them are
    have hcount : ms'.length = ms.length := by simpa using congrArg length hcrlf
    have htake : ms'.take (Reader.readAll MAX_BUFFER_CHARS (chunks.map decode)).lines.length =
        ms' := by
      refine take_of_length_le ?_
      have hlen := congrArg length h
      simp only [length_map, length_take] at hlen
      omega
    rw [htake] at h hread
    exact ⟨eq_of_map_eq h hcrlf, hread⟩
  · rintro ⟨rfl, hall⟩
    rw [hall, filterMap_parseLine]

end Linux

end Ipc

/-!
# The server's reading of requests

`handleClient` of `privsvc/linux/src/server.ts`. Every chunk of bytes is decoded by itself, and its
lines are handled one after another, waiting for each answer, while later chunks are read and
handled as well: a connection is a run of `Batches`, one batch for each chunk.
-/

namespace Ipc

namespace Server

def MAX_LINE_CHARS : Nat := 2 * 1024 * 1024

/-- `!req`, for the values JSON has. `isZero` tells which spellings of numbers are zero. -/
def isFalsy (isZero : Numeral → Bool) : Json → Bool
  | .null => true
  | .bool b => !b
  | .num n => isZero n
  | .str s => s.isEmpty
  | .arr _ => false
  | .obj _ => false

def nextRequest (isZero : Numeral → Bool) : List Str → Option (Json × List Str)
  | [] => none
  | raw :: lines =>
    match parseLine raw with
    | none => nextRequest isZero lines
    | some req => if isFalsy isZero req then nextRequest isZero lines else some (req, lines)

/-- A connection: the text of the line under way, the lines that each waiting handler has left, in
the order of their chunks, and the requests routed so far. -/
structure State where
  buffer : Str
  closed : Bool
  handlers : List (List Str)
  dispatched : List Json

/-- A chunk comes, or the answer that the `k`-th waiting handler waits for. -/
inductive Event
  | data (chunk : List UInt8)
  | resume (k : Nat)

def onData (isZero : Numeral → Bool) (s : State) (chunk : List UInt8) : State :=
  if s.closed then s
  else
    let buffer := s.buffer ++ decode chunk
    if buffer.length > MAX_LINE_CHARS then { s with buffer := buffer, closed := true }
    else
      let lines := splitLines buffer
      match nextRequest isZero lines.1 with
      | none => { s with buffer := lines.2 }
      | some (req, rest) =>
        { s with
          buffer := lines.2
          handlers := s.handlers ++ [rest]
          dispatched := s.dispatched ++ [req] }

def onResume (isZero : Numeral → Bool) (s : State) (k : Nat) : State :=
  match s.handlers[k]? with
  | none => s
  | some lines =>
    match nextRequest isZero lines with
    | none => { s with handlers := s.handlers.eraseIdx k }
    | some (req, rest) =>
      { s with handlers := s.handlers.set k rest, dispatched := s.dispatched ++ [req] }

def step (isZero : Numeral → Bool) (s : State) : Event → State
  | .data chunk => onData isZero s chunk
  | .resume k => onResume isZero s k

def machine (isZero : Numeral → Bool) : Machine State Event where
  init := ⟨[], false, [], []⟩
  step := step isZero

def chunksOf : List Event → List (List UInt8)
  | [] => []
  | .data chunk :: tr => chunk :: chunksOf tr
  | .resume _ :: tr => chunksOf tr

/-- The run reads the chunks and handles all their lines. -/
def Completes (isZero : Numeral → Bool) (chunks : List (List UInt8)) (tr : List Event) : Prop :=
  chunksOf tr = chunks ∧ ((machine isZero).run tr).handlers = []

/-! ## The batches of a connection -/

/-- The messages on the lines that the chunk completes, after the chunks `pre`. -/
def batch (pre : List (List UInt8)) (chunk : List UInt8) : List Json :=
  (splitLines ((splitLines (pre.flatMap decode)).2 ++ decode chunk)).1.filterMap parseLine

/-- The batches of the chunks that come after `pre`. -/
def batchesFrom (pre : List (List UInt8)) : List (List UInt8) → List (List Json)
  | [] => []
  | chunk :: chunks => batch pre chunk :: batchesFrom (pre ++ [chunk]) chunks

def batches (chunks : List (List UInt8)) : List (List Json) := batchesFrom [] chunks

theorem flatten_batchesFrom (pre chunks : List (List UInt8)) :
    ((splitLines (pre.flatMap decode)).1.filterMap parseLine) ++ (batchesFrom pre chunks).flatten =
      (splitLines ((pre ++ chunks).flatMap decode)).1.filterMap parseLine := by
  induction chunks generalizing pre with
  | nil => simp [batchesFrom]
  | cons chunk chunks ih =>
    have hrest := ih (pre ++ [chunk])
    rw [append_assoc, singleton_append] at hrest
    rw [← hrest, batchesFrom, flatten_cons, ← append_assoc, batch,
      ← filterMap_append, flatMap_append, flatMap_singleton,
      splitLines_append (pre.flatMap decode)]

/-- The batches make up the messages on the lines of the whole text. -/
theorem flatten_batches (chunks : List (List UInt8)) : (batches chunks).flatten =
      (splitLines (chunks.flatMap decode)).1.filterMap parseLine := by
  simpa [batches] using flatten_batchesFrom [] chunks

/-- The run of batches that a run of the connection makes after the chunks `pre`. -/
def absFrom (pre : List (List UInt8)) : List Event → List (Batches.Event Json)
  | [] => []
  | .data chunk :: tr => .arrive (batch pre chunk) :: absFrom (pre ++ [chunk]) tr
  | .resume k :: tr => .resume k :: absFrom pre tr

theorem arrivals_absFrom (pre : List (List UInt8)) (tr : List Event) :
    Batches.arrivals (absFrom pre tr) = batchesFrom pre (chunksOf tr) := by
  induction tr generalizing pre with
  | nil => rfl
  | cons e tr ih =>
    cases e with
    | data chunk => simp [absFrom, Batches.arrivals, chunksOf, batchesFrom, ih]
    | resume k => simp [absFrom, Batches.arrivals, chunksOf, ih]

theorem absFrom_append (pre : List (List UInt8)) (a b : List Event) :
    absFrom pre (a ++ b) = absFrom pre a ++ absFrom (pre ++ chunksOf a) b := by
  induction a generalizing pre with
  | nil => simp [absFrom, chunksOf]
  | cons e a ih => cases e <;> simp [absFrom, chunksOf, ih]

theorem chunksOf_append (a b : List Event) : chunksOf (a ++ b) = chunksOf a ++ chunksOf b := by
  induction a with
  | nil => rfl
  | cons e a ih => cases e <;> simp [chunksOf, ih]

def concretize : List (List UInt8) → List (Batches.Event Json) → List Event
  | _, [] => []
  | [], .arrive _ :: tr => concretize [] tr
  | chunk :: chunks, .arrive _ :: tr => .data chunk :: concretize chunks tr
  | chunks, .resume k :: tr => .resume k :: concretize chunks tr

theorem concretize_spec (pre chunks : List (List UInt8)) {tr : List (Batches.Event Json)}
    (h : Batches.arrivals tr = batchesFrom pre chunks) :
    chunksOf (concretize chunks tr) = chunks ∧ absFrom pre (concretize chunks tr) = tr := by
  induction tr generalizing pre chunks with
  | nil =>
    cases chunks with
    | nil => exact ⟨rfl, rfl⟩
    | cons chunk chunks => cases h
  | cons e tr ih =>
    cases e with
    | arrive b =>
      cases chunks with
      | nil => cases h
      | cons chunk chunks =>
        obtain ⟨rfl, htail⟩ := cons.inj h
        obtain ⟨hchunks, habs⟩ := ih _ _ htail
        rw [concretize, chunksOf, absFrom, hchunks, habs]
        exact ⟨rfl, rfl⟩
    | resume k =>
      obtain ⟨hchunks, habs⟩ := ih pre chunks h
      rw [concretize, chunksOf, absFrom, hchunks, habs]
      exact ⟨rfl, rfl⟩

/-! ## The refinement -/

def HoldsObject (l : Str) : Prop := ∃ v, parseLine l = some v ∧ v.isObject = true

section Refinement

variable {isZero : Numeral → Bool}

theorem not_isFalsy {v : Json} (h : v.isObject) : isFalsy isZero v = false := by
  cases v with
  | obj => rfl
  | _ => cases h

/-- On lines that hold objects, the next request is on the next line. -/
theorem nextRequest_cons {l : Str} {v : Json} (hv : parseLine l = some v)
    (hobj : v.isObject) (ls : List Str) : nextRequest isZero (l :: ls) = some (v, ls) := by
  rw [nextRequest, hv]
  simp [not_isFalsy hobj]

/-- The open connection, after the chunks `chunks`, is in the state `a` of its batches. -/
structure Refines (chunks : List (List UInt8)) (s : State) (a : Batches.State Json) : Prop where
  closed : s.closed = false
  buffer : s.buffer = (splitLines (chunks.flatMap decode)).2
  waiting : s.handlers.map (·.filterMap parseLine) = a.waiting
  taken : s.dispatched = a.taken
  objects : ∀ ls ∈ s.handlers, ∀ l ∈ ls, HoldsObject l

variable {chunks : List (List UInt8)}

theorem Refines.onData {s : State} {a : Batches.State Json} (h : Refines chunks s a) {chunk : List UInt8}
    (hfits : ((splitLines (chunks.flatMap decode)).2 ++ decode chunk).length ≤ MAX_LINE_CHARS)
    (hobjects : ∀ l ∈ (splitLines ((splitLines (chunks.flatMap decode)).2 ++ decode chunk)).1, HoldsObject l) :
    Refines (chunks ++ [chunk]) (onData isZero s chunk) (Batches.step a (.arrive (batch chunks chunk))) := by
  have hrest : (splitLines ((splitLines (chunks.flatMap decode)).2 ++ decode chunk)).2 =
      (splitLines ((chunks ++ [chunk]).flatMap decode)).2 := by
    rw [flatMap_append, flatMap_singleton, splitLines_append (chunks.flatMap decode)]
  rw [Server.onData, h.closed, h.buffer, batch]
  simp only
  rw [if_neg (Nat.not_lt.mpr hfits)]
  cases hlines : (splitLines ((splitLines (chunks.flatMap decode)).2 ++ decode chunk)).1 with
  | nil => exact ⟨rfl, hrest, h.waiting, h.taken, h.objects⟩
  | cons l ls =>
    rw [hlines] at hobjects
    obtain ⟨⟨v, hv, hobj⟩, hls⟩ := forall_mem_cons.mp hobjects
    rw [nextRequest_cons hv hobj, filterMap_cons, hv]
    refine ⟨rfl, hrest, ?_, ?_, ?_⟩
    · simp [Batches.step, h.waiting]
    · simp [Batches.step, h.taken]
    · intro ls' hls'
      rcases mem_append.mp hls' with hls' | hls'
      · exact h.objects ls' hls'
      · rw [mem_singleton.mp hls']
        exact hls

theorem Refines.onResume {s : State} {a : Batches.State Json} (h : Refines chunks s a) (k : Nat) :
    Refines chunks (onResume isZero s k) (Batches.step a (.resume k)) := by
  have hget : a.waiting[k]? = (s.handlers[k]?).map (·.filterMap parseLine) := by
    rw [← h.waiting, getElem?_map]
  rw [Server.onResume, Batches.step, hget]
  cases hk : s.handlers[k]? with
  | none => exact h
  | some lines =>
    have hlines := h.objects lines (mem_of_getElem? hk)
    cases lines with
    | nil =>
      refine ⟨h.closed, h.buffer, ?_, h.taken, ?_⟩
      · simp only [nextRequest, Option.map_some, filterMap_nil]
        rw [← h.waiting, eraseIdx_map]
      · intro ls hls
        exact h.objects ls (mem_of_mem_eraseIdx hls)
    | cons l ls =>
      obtain ⟨⟨v, hv, hobj⟩, hls⟩ := forall_mem_cons.mp hlines
      dsimp only [Option.map_some]
      rw [nextRequest_cons hv hobj, filterMap_cons, hv]
      refine ⟨h.closed, h.buffer, ?_, ?_, ?_⟩
      · dsimp only
        rw [← h.waiting, map_set]
      · simp [h.taken]
      · intro ls' hls'
        rcases mem_or_eq_of_mem_set hls' with hls' | rfl
        · exact h.objects ls' hls'
        · exact hls

/-- As long as every chunk fits and the text holds objects, a run of the connection is a run of
its batches. -/
theorem refines_run (isZero : Numeral → Bool) (tr : List Event)
    (hfits : Fits MAX_LINE_CHARS ((chunksOf tr).map decode))
    (hobjects : ∀ l ∈ (splitLines ((chunksOf tr).flatMap decode)).1, HoldsObject l) :
    Refines (chunksOf tr) ((machine isZero).run tr) ((Batches.machine Json).run (absFrom [] tr)) := by
  induction tr using reverseRecOn with
  | nil => exact ⟨rfl, rfl, rfl, rfl, by simp [machine]⟩
  | append_singleton tr e ih =>
    rw [chunksOf_append] at hfits hobjects ⊢
    rw [absFrom_append, Machine.run_append, Machine.run_append]
    cases e with
    | data chunk =>
      simp only [chunksOf, map_append, flatMap_append, flatMap_singleton] at hfits hobjects
      obtain ⟨hpre, hlast⟩ := fits_snoc.mp hfits
      rw [splitLines_append] at hobjects
      have hrun := ih hpre fun l hl => hobjects l (mem_append_left _ hl)
      exact hrun.onData hlast fun l hl => hobjects l (mem_append_right _ hl)
    | resume k =>
      simp only [chunksOf, append_nil] at hfits hobjects ⊢
      exact (ih hfits hobjects).onResume k

/-- With every chunk fitting, each run of the batches is made by a run of the connection. -/
theorem exists_run (isZero : Numeral → Bool) (hfits : Fits MAX_LINE_CHARS (chunks.map decode))
    (hobjects : ∀ l ∈ (splitLines (chunks.flatMap decode)).1, HoldsObject l)
    {tr : List (Batches.Event Json)} (htr : Batches.Completes (batches chunks) tr) :
    Completes isZero chunks (concretize chunks tr) ∧ Refines chunks ((machine isZero).run (concretize chunks tr))
        ((Batches.machine Json).run tr) := by
  obtain ⟨hchunks, habs⟩ := concretize_spec [] chunks htr.1
  have hrun := refines_run isZero (concretize chunks tr) (by rwa [hchunks]) (by rwa [hchunks])
  rw [hchunks, habs] at hrun
  refine ⟨⟨hchunks, ?_⟩, hrun⟩
  have hwaiting := hrun.waiting
  rw [htr.2] at hwaiting
  exact map_eq_nil_iff.mp hwaiting

theorem completes_drainAll (chunks : List (List UInt8)) :
    Batches.Completes (batches chunks) (Batches.drainAll 0 (batches chunks)) ∧
      ((Batches.machine Json).run (Batches.drainAll 0 (batches chunks))).taken =
        (splitLines (chunks.flatMap decode)).1.filterMap parseLine := by
  have hrun : (Batches.machine Json).run (Batches.drainAll 0 (batches chunks)) =
      ⟨[], (batches chunks).flatten⟩ := Batches.exec_drainAll [] (batches chunks) []
  rw [hrun, ← flatten_batches]
  exact ⟨⟨Batches.arrivals_drainAll 0 _, by rw [hrun]⟩, rfl⟩

/-- After an overflow chunks are not read. -/
theorem exec_data_of_closed {s : State} (h : s.closed) (chunks : List (List UInt8)) :
    (machine isZero).exec s (chunks.map .data) = s := by
  induction chunks with
  | nil => rfl
  | cons chunk chunks ih =>
    have hstep : (machine isZero).step s (.data chunk) = s := by
      simp [machine, step, onData, h]
    rw [map_cons, Machine.exec_cons, hstep, ih]

theorem exec_data_of_over (isZero : Numeral → Bool) {s : State} (hclosed : s.closed = false) {chunk : List UInt8}
    (hover : MAX_LINE_CHARS < (s.buffer ++ decode chunk).length) (chunks : List (List UInt8)) :
    (machine isZero).exec s ((chunk :: chunks).map .data) =
      { s with buffer := s.buffer ++ decode chunk, closed := true } := by
  have hstep : (machine isZero).step s (.data chunk) =
      { s with buffer := s.buffer ++ decode chunk, closed := true } := by
    simp only [machine, step, onData, hclosed, Bool.false_eq_true, if_false]
    rw [if_pos hover]
  rw [map_cons, Machine.exec_cons, hstep, exec_data_of_closed rfl]

theorem chunksOf_map_data (chunks : List (List UInt8)) : chunksOf (chunks.map .data) = chunks := by
  induction chunks with
  | nil => rfl
  | cons chunk chunks ih => rw [map_cons, chunksOf, ih]

/-- When a chunk does not fit, the server may do what the Linux client does: handle all lines up
to that chunk, and nothing after it. -/
theorem exists_run_of_not_fits (isZero : Numeral → Bool) (hfits : ¬ Fits MAX_LINE_CHARS (chunks.map decode))
    (hobjects : ∀ l ∈ (splitLines (chunks.flatMap decode)).1, HoldsObject l) : ∃ tr, Completes isZero chunks tr ∧
      ((machine isZero).run tr).dispatched = Linux.receive chunks := by
  have hreceive : Linux.receive chunks =
      (Reader.readAll MAX_LINE_CHARS (chunks.map decode)).lines.filterMap parseLine := by
    rw [Linux.receive, Linux.foldl_onData hobjects]
    rfl
  rcases readAll_cases MAX_LINE_CHARS (chunks.map decode) with ⟨h, -⟩ |
    ⟨texts, text, ⟨post, hsplit⟩, hpre, hover, hread⟩
  · exact absurd h hfits
  · obtain ⟨front, back, rfl, hfront, -⟩ := map_eq_append_iff.mp hsplit.symm
    obtain ⟨pre, last, rfl, rfl, hlast⟩ := map_eq_append_iff.mp hfront
    obtain ⟨chunk, rfl, rfl⟩ := map_eq_singleton_iff.mp hlast
    have hlines : ∀ l ∈ (splitLines (pre.flatMap decode)).1, HoldsObject l := by
      rw [append_assoc, flatMap_append, splitLines_append] at hobjects
      exact fun l hl => hobjects l (mem_append_left _ hl)
    obtain ⟨hcompletes, htaken⟩ := completes_drainAll pre
    obtain ⟨⟨hchunks, hhandlers⟩, hrun⟩ := exists_run isZero hpre hlines hcompletes
    -- all lines up to the chunk are handled before it comes
    have hexec := exec_data_of_over isZero hrun.closed
      (by rwa [hrun.buffer, flatMap_def]) back
    refine ⟨concretize pre (Batches.drainAll 0 (batches pre)) ++ (chunk :: back).map .data, ⟨?_, ?_⟩, ?_⟩
    · rw [chunksOf_append, hchunks, chunksOf_map_data, append_assoc, singleton_append]
    · rw [Machine.run_append, hexec]
      exact hhandlers
    · rw [Machine.run_append, hexec, hreceive, hread]
      rw [hrun.taken, htaken, flatMap_def]

/-- The server handles the requests in order on every schedule exactly if no chunk begins inside a
character, none overfills the buffer, and no request that waits for an earlier answer differs from
one of a later chunk. -/
theorem dispatched_eq_iff {ms : List Message} (hflat : chunks.flatten = encode (wire ms)) :
    (∀ tr, Completes isZero chunks tr → ((machine isZero).run tr).dispatched = ms.map Message.value) ↔
      (∀ c ∈ chunks, beginsInside c = false) ∧ Fits MAX_LINE_CHARS (chunks.map decode) ∧
        Batches.InOrder (batches chunks) := by
  obtain ⟨ms', htext, hcrlf, hiff⟩ := exists_decoded hflat
  have hobjects : ∀ l ∈ (splitLines (chunks.flatMap decode)).1, HoldsObject l := by
    rw [htext]
    exact exists_parseLine
  have hall : (splitLines (chunks.flatMap decode)).1.filterMap parseLine =
      ms'.map Message.value := by
    rw [htext, splitLines_wire, filterMap_parseLine]
  constructor
  · intro h
    by_cases hfits : Fits MAX_LINE_CHARS (chunks.map decode)
    · -- the schedule that finishes every chunk before the next gives what was read
      obtain ⟨hcompletes, htaken⟩ := completes_drainAll chunks
      obtain ⟨hdone, hrun⟩ := exists_run isZero hfits hobjects hcompletes
      have hvalues := h _ hdone
      rw [hrun.taken, htaken, hall] at hvalues
      refine ⟨hiff.mp (eq_of_map_eq hvalues hcrlf), hfits, Batches.taken_iff_inOrder.mp ?_⟩
      intro tr htr
      obtain ⟨hdone', hrun'⟩ := exists_run isZero hfits hobjects htr
      rw [← hrun'.taken, h _ hdone', flatten_batches, hall, hvalues]
    · obtain ⟨tr, hcompletes, hdispatched⟩ := exists_run_of_not_fits isZero hfits hobjects
      have hreceive := h tr hcompletes
      rw [hdispatched, Linux.receive_eq_iff hflat] at hreceive
      exact absurd hreceive.2 hfits
  · rintro ⟨hbegins, hfits, horder⟩ tr ⟨hchunks, hhandlers⟩
    have hrun := refines_run isZero tr (by rwa [hchunks]) (by rwa [hchunks])
    have hcompletes : Batches.Completes (batches chunks) (absFrom [] tr) := by
      refine ⟨by rw [arrivals_absFrom, hchunks, batches], ?_⟩
      rw [← hrun.waiting, hhandlers, map_nil]
    rw [hrun.taken, Batches.taken_iff_inOrder.mpr horder _ hcompletes, flatten_batches, hall, hiff.mpr hbegins]

end Refinement

end Server

/-! ## All readers -/

/-- The readers on both ends of the sockets dispatch the messages `ms`, in order, when the bytes
come in as `chunks`, the server on every schedule of its handlers. -/
structure FramingIsExact (isZero : Numeral → Bool) (ms : List Message)
    (chunks : List (List UInt8)) : Prop where
  linuxClient : Linux.receive chunks = ms.map Message.value
  windowsClient : Windows.receive chunks = ms.map Message.value
  server : ∀ tr, Server.Completes isZero chunks tr →
    ((Server.machine isZero).run tr).dispatched = ms.map Message.value

/-- Whatever the chunks that the bytes of the messages come in, the framing is exact if and only if
no chunk begins inside a character, none overfills the buffers, and no request that waits for an
earlier answer differs from one of a later chunk. -/
theorem framingIsExact_iff (isZero : Numeral → Bool) {ms : List Message}
    {chunks : List (List UInt8)} (hflat : chunks.flatten = encode (wire ms)) : FramingIsExact isZero ms chunks ↔
      (∀ c ∈ chunks, beginsInside c = false) ∧ Fits (2 * 1024 * 1024) (chunks.map decode) ∧
        Batches.InOrder (Server.batches chunks) := by
  constructor
  · intro h
    exact (Server.dispatched_eq_iff hflat).mp h.server
  · rintro ⟨hbegins, hfits, horder⟩
    exact ⟨(Linux.receive_eq_iff hflat).mpr ⟨hbegins, hfits⟩, (Windows.receive_eq_iff hflat).mpr hbegins,
      (Server.dispatched_eq_iff hflat).mpr ⟨hbegins, hfits, horder⟩⟩

def emptyMessage : Message := ⟨.obj [], false, rfl⟩

theorem framingIsExact_empty : FramingIsExact (fun _ => false) [emptyMessage] [encode (wire [emptyMessage])] := by
  refine (framingIsExact_iff _ flatten_singleton).mpr ⟨by decide, ?_, ?_⟩
  · have htext : [encode (wire [emptyMessage])].map decode = [] ++ [[Json.lbrace, Json.rbrace, lf]] := rfl
    refine fits_snoc.mpr ⟨fits_nil _, ?_⟩
    exact Nat.le_of_ble_eq_true rfl
  · exact pairwise_singleton _ _

def accentedMessage : Message := ⟨.obj [([0xE9], .null)], false, rfl⟩

/-- Its bytes in two chunks, the second of which begins inside the letter. -/
def cutChunks : List (List UInt8) :=
  [(encode (wire [accentedMessage])).take 3, (encode (wire [accentedMessage])).drop 3]

/-- None of the readers gets the message from these chunks, though its line is short. -/
theorem not_framingIsExact_cut : cutChunks.flatten = encode (wire [accentedMessage]) ∧
      accentedMessage.line.length = 10 ∧ Linux.receive cutChunks ≠ [accentedMessage.value] ∧
      Windows.receive cutChunks ≠ [accentedMessage.value] ∧
      ¬ FramingIsExact (fun _ => false) [accentedMessage] cutChunks := by
  have hflat : cutChunks.flatten = encode (wire [accentedMessage]) := by
    rw [cutChunks, flatten_cons, flatten_singleton, take_append_drop]
  have hinside : ¬ ∀ c ∈ cutChunks, beginsInside c = false := by decide
  refine ⟨hflat, rfl, ?_, ?_, ?_⟩
  · intro h
    exact hinside ((Linux.receive_eq_iff hflat).mp h).1
  · intro h
    exact hinside ((Windows.receive_eq_iff hflat).mp h)
  · intro h
    exact hinside ((framingIsExact_iff _ hflat).mp h).1

end Ipc
