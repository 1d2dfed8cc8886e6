-- SUMMARY: The requests that carry a facts payload, and when the Windows pipe takes their lines.
import Tracenium.Facts.Reassembly
import Tracenium.Lib.JsonText

/-!
`stream.write` of `src/transport/grpc-client.ts`. The named pipe takes lines of at most `64 * 1024` units, and a chunk
is escaped again inside its request.
-/

open Utf16 List Nat

namespace Facts

open Json

/-! ## Requests -/

structure Event where
  eventId : Str
  factNamespace : Str
  factNamespaces : List Str
  tenantId : Str
  deviceId : Str

structure Request where
  id : Str
  method : Str
  params : List (Str × Json)
  tenantId : Str
  deviceId : Str

def Request.json (r : Request) : Json :=
  .obj [(text "v", .nat 1), (text "id", .str r.id), (text "method", .str r.method),
    (text "params", .obj r.params),
    (text "meta", .obj [(text "tenantId", .str r.tenantId), (text "deviceId", .str r.deviceId)])]

/-- The line of a request, without its line feed. -/
def Request.line (r : Request) : Str := r.json.stringify

def sendMethod : Str := text "grpc.facts.send"

def chunkMethod : Str := text "grpc.facts.chunk"

def sendRequest (e : Event) (payloadJson : Str) : Request where
  id := text "facts-" ++ e.eventId
  method := sendMethod
  params :=
    [(text "eventId", .str e.eventId), (text "namespace", .str e.factNamespace),
      (text "namespaces", .arr (e.factNamespaces.map .str)),
      (text "payloadJson", .str payloadJson)]
  tenantId := e.tenantId
  deviceId := e.deviceId

/-- The request that carries the chunk `i` of `totalChunks`. -/
def chunkRequest (e : Event) (totalChunks i : Nat) (chunk : Str) : Request where
  id := text "facts-chunk-" ++ e.eventId ++ text "-" ++ decimal i
  method := chunkMethod
  params :=
    [(text "eventId", .str e.eventId), (text "namespace", .str e.factNamespace),
      (text "namespaces", .arr (e.factNamespaces.map .str)), (text "chunkIndex", .nat i),
      (text "totalChunks", .nat totalChunks), (text "payloadChunk", .str chunk)]
  tenantId := e.tenantId
  deviceId := e.deviceId

/-! ## The pipe -/

inductive Response
  | ok
  | fail (code message : String)

/-- What `resp?.error?.message || resp?.error` is as a string. -/
def errorText (message : String) : String := if message = "" then "[object Object]" else message

/-- The handlers behind the pipe. None of them answers that a request is too large. -/
structure Router where
  handle : Json → Response
  ne_too_large : ∀ req message, handle req ≠ .fail "request_too_large" message

/-- What `HandleClientAsync` answers to a line. -/
def Router.respond (router : Router) (line : Str) : Response :=
  if line.length > 64 * 1024 then
    .fail "request_too_large" "IPC request exceeds allowed size."
  else
    match parse line with
    | none => .fail "bad_json" "Invalid JSON."
    | some req => router.handle req

def Router.accepting : Router := ⟨fun _ => .ok, by simp⟩

/-! ## The facts branch of `stream.write` -/

/-- How a send ends: the payload is with the server, it is rejected for good, or an error is thrown,
after which the outbox sends the event again. -/
inductive Outcome
  | accepted
  | rejected (reason : String)
  | failed (message : String)

/-- The requests written, in order, and how the send ended. -/
structure Sent where
  requests : List Request
  outcome : Outcome

/-- The loop over the chunks, from the chunk `i` on. -/
def sendChunks (router : Router) (e : Event) (totalChunks : Nat) : Nat → List Str → Sent
  | _, [] => ⟨[], .accepted⟩
  | i, chunk :: chunks =>
    let req := chunkRequest e totalChunks i chunk
    match router.respond req.line with
    | .ok =>
      let rest := sendChunks router e totalChunks (i + 1) chunks
      ⟨req :: rest.requests, rest.outcome⟩
    | .fail code message =>
      if code = FACTS_TOO_LARGE then
        ⟨[req], .rejected s!"{errorText message} (chunkIndex={i}/{totalChunks})"⟩
      else
        ⟨[req],
          .failed s!"FACTS_CHUNK_FAILED:{errorText message} (chunkIndex={i}/{totalChunks})"⟩

def sendChunked (router : Router) (e : Event) (payloadJsonStr : Str) : Sent :=
  let chunks := chunkString payloadJsonStr FACTS_CHUNK_SIZE
  sendChunks router e chunks.length 0 chunks

def sendFacts (router : Router) (e : Event) (payloadJsonStr : Str) : Sent :=
  let payloadSizeBytes := byteLength payloadJsonStr
  if payloadSizeBytes > MAX_FACTS_PAYLOAD_BYTES then
    ⟨[], .rejected s!"payload {payloadSizeBytes} bytes exceeds {MAX_FACTS_PAYLOAD_BYTES}"⟩
  else if payloadSizeBytes ≤ MAX_FACTS_IPC_BYTES then
    let req := sendRequest e payloadJsonStr
    match router.respond req.line with
    | .ok => ⟨[req], .accepted⟩
    | .fail code message =>
      if code = "request_too_large" then
        let sent := sendChunked router e payloadJsonStr
        { sent with requests := req :: sent.requests }
      else ⟨[req], .failed (errorText message)⟩
  else sendChunked router e payloadJsonStr

/-! ## The length of a line -/

/-- A chunk makes its line longer by its escaped text. -/
theorem length_chunkRequest (e : Event) (totalChunks i : Nat) (chunk : Str) :
    (chunkRequest e totalChunks i chunk).line.length =
      (chunkRequest e totalChunks i []).line.length + (escape chunk).length := by
  simp only [Request.line, Request.json, chunkRequest, stringify, membersTail,
    quoted, escape, length_cons, length_append, length_nil]
  omega

/-- The units that the window `i` of a payload takes in its line: one each, one more for a quote or
a backslash, and five more for half of a pair that is cut off at either end. -/
def windowLength (p : Str) (i : Nat) : Nat :=
  let window := (p.drop (i * FACTS_CHUNK_SIZE)).take FACTS_CHUNK_SIZE
  window.length + window.count quote + window.count backslash +
    5 * ((if splitsPair p (i * FACTS_CHUNK_SIZE) then 1 else 0) +
      (if splitsPair p ((i + 1) * FACTS_CHUNK_SIZE) then 1 else 0))

theorem length_escape_window (v : Json) (i : Nat) :
    (escape ((v.stringify.drop (i * FACTS_CHUNK_SIZE)).take FACTS_CHUNK_SIZE)).length =
      windowLength v.stringify i := by
  obtain ⟨hwf, hcontrol⟩ := isLine_stringify v
  rw [length_escape, loneHalves_slice hwf _ FACTS_CHUNK_SIZE_pos, windowLength, Nat.add_mul i 1, Nat.one_mul]
  intro u hu
  exact hcontrol u (mem_of_mem_drop (mem_of_mem_take hu))

/-! ## The chunk requests of a payload -/

/-- The pipe takes the line of a request. -/
def Request.Fits (r : Request) : Prop := r.line.length ≤ 64 * 1024

/-- The requests for the chunks, from the chunk `i` on. -/
def chunkRequests (e : Event) (totalChunks : Nat) : Nat → List Str → List Request
  | _, [] => []
  | i, chunk :: chunks =>
    chunkRequest e totalChunks i chunk :: chunkRequests e totalChunks (i + 1) chunks

variable {e : Event} {totalChunks i : Nat} {chunks : List Str}

theorem method_chunkRequests : ∀ r ∈ chunkRequests e totalChunks i chunks, r.method = chunkMethod := by
  induction chunks generalizing i with
  | nil => simp [chunkRequests]
  | cons chunk chunks ih => exact forall_mem_cons.mpr ⟨rfl, ih⟩

/-- What the loop writes are first requests for the chunks. -/
theorem requests_sendChunks (router : Router) (e : Event) (totalChunks i : Nat) (chunks : List Str) :
    (sendChunks router e totalChunks i chunks).requests <+: chunkRequests e totalChunks i chunks := by
  induction chunks generalizing i with
  | nil => exact prefix_refl _
  | cons chunk chunks ih =>
    rw [sendChunks, chunkRequests]
    split
    · exact cons_prefix_cons.mpr ⟨rfl, ih (i + 1)⟩
    · split <;> exact cons_prefix_cons.mpr ⟨rfl, nil_prefix⟩

/-- A router gets what the pipe takes. -/
theorem Router.respond_of_fits (router : Router) {r : Request} (h : r.Fits) :
    router.respond r.line = router.handle r.json := by
  rw [Router.respond, if_neg (not_lt.mpr h), Request.line, parse_stringify]

theorem Router.respond_of_not_fits (router : Router) {r : Request} (h : ¬ r.Fits) : router.respond r.line =
      .fail "request_too_large" "IPC request exceeds allowed size." := by
  rw [Router.respond, if_pos (Nat.lt_of_not_le h)]

variable {router : Router}

/-- Handlers that take everything get all chunks whose lines the pipe takes. -/
theorem sendChunks_of_fits (hok : ∀ req, router.handle req = .ok)
    (h : ∀ r ∈ chunkRequests e totalChunks i chunks, r.Fits) : sendChunks router e totalChunks i chunks =
      ⟨chunkRequests e totalChunks i chunks, .accepted⟩ := by
  induction chunks generalizing i with
  | nil => rfl
  | cons chunk chunks ih =>
    obtain ⟨hfits, hrest⟩ := forall_mem_cons.mp h
    rw [sendChunks, router.respond_of_fits hfits, hok, ih hrest, chunkRequests]

/-- A chunk whose line the pipe does not take ends the send with an error. -/
theorem sendChunks_of_not_fits {chunk : Str} (h : ¬ (chunkRequest e totalChunks i chunk).Fits) :
    ∃ message, (sendChunks router e totalChunks i (chunk :: chunks)).outcome = .failed message := by
  have hcode : "request_too_large" ≠ FACTS_TOO_LARGE := by decide
  rw [sendChunks, router.respond_of_not_fits h]
  exact ⟨_, rfl⟩

/-- The pipe takes all lines that are written only if it takes those of all chunks. -/
theorem fits_of_sendChunks (h : ∀ r ∈ (sendChunks .accepting e totalChunks i chunks).requests, r.Fits) :
    ∀ r ∈ chunkRequests e totalChunks i chunks, r.Fits := by
  induction chunks generalizing i with
  | nil => simp [chunkRequests]
  | cons chunk chunks ih =>
    have hhead : (chunkRequest e totalChunks i chunk).Fits := by
      refine h _ ?_
      rw [sendChunks]
      split
      · exact mem_cons_self
      · split <;> exact mem_cons_self
    rw [sendChunks, Router.respond_of_fits _ hhead] at h
    exact forall_mem_cons.mpr ⟨hhead, ih (forall_mem_cons.mp h).2⟩

/-- The lines of the chunks from the chunk `i` on fit exactly if the windows do. -/
theorem fits_chunkRequests_iff (e : Event) (totalChunks : Nat) (v : Json) (i : Nat) :
    (∀ r ∈ chunkRequests e totalChunks i (chunksFrom v.stringify FACTS_CHUNK_SIZE (i * FACTS_CHUNK_SIZE)), r.Fits) ↔
      ∀ j, i ≤ j → j * FACTS_CHUNK_SIZE < v.stringify.length →
        (chunkRequest e totalChunks j []).line.length + windowLength v.stringify j ≤ 64 * 1024 := by
  generalize hstart : i * FACTS_CHUNK_SIZE = start
  fun_induction chunksFrom v.stringify FACTS_CHUNK_SIZE start generalizing i with
  | case1 start h ih =>
    obtain rfl := hstart
    have hrest := ih (i + 1) (by rw [Nat.add_mul, Nat.one_mul])
    rw [chunkRequests, forall_mem_cons, hrest, Request.Fits, length_chunkRequest, slice,
      Nat.add_sub_cancel_left, length_escape_window]
    constructor
    · rintro ⟨hfirst, hlater⟩ j hij hj
      rcases eq_or_lt_of_le hij with rfl | hij
      · exact hfirst
      · exact hlater j hij hj
    · intro hall
      exact ⟨hall i (le_refl i) h.1, fun j hij hj => hall j (le_of_lt hij) hj⟩
  | case2 start h =>
    obtain rfl := hstart
    refine iff_of_true (by simp [chunkRequests]) fun j hij hj => ?_
    -- there is no window from `i` on
    have hle := mul_le_mul_right FACTS_CHUNK_SIZE hij
    exact absurd ⟨lt_of_le_of_lt hle hj, FACTS_CHUNK_SIZE_pos⟩ h

/-! ## When the pipe takes every chunk -/

/-- Whatever is behind the pipe, it takes every chunk request that the facts path writes for a
payload, and if everything is taken behind it, no error is thrown that makes the outbox send the
event again. -/
structure ChunksAccepted (e : Event) (p : Str) : Prop where
  fits : ∀ router : Router, ∀ r ∈ (sendFacts router e p).requests, r.method = chunkMethod → r.line.length ≤ 64 * 1024
  answered : ∀ router : Router, ∀ r ∈ (sendFacts router e p).requests,
    r.method = chunkMethod → ∀ message, router.respond r.line ≠ .fail "request_too_large" message
  finishes : ∀ router : Router, (∀ req, router.handle req = .ok) →
    ∀ message, (sendFacts router e p).outcome ≠ .failed message

/-- Every window of the payload fits in its request. -/
def WindowsFit (e : Event) (p : Str) : Prop :=
  ∀ i, i * FACTS_CHUNK_SIZE < p.length → (chunkRequest e (chunkString p FACTS_CHUNK_SIZE).length i []).line.length +
      windowLength p i ≤ 64 * 1024

theorem windowsFit_iff (e : Event) (v : Json) : WindowsFit e v.stringify ↔
      ∀ r ∈ chunkRequests e (chunkString v.stringify FACTS_CHUNK_SIZE).length 0
        (chunkString v.stringify FACTS_CHUNK_SIZE), r.Fits := by
  have h := fits_chunkRequests_iff e (chunkString v.stringify FACTS_CHUNK_SIZE).length v 0
  rw [zero_mul] at h
  rw [chunkString] at h ⊢
  rw [h, WindowsFit, chunkString]
  exact ⟨fun hall j _ => hall j, fun hall j => hall j (zero_le j)⟩

theorem sendMethod_ne : sendMethod ≠ chunkMethod := by decide

/-- The chunk requests that are written are some of those of the payload. -/
theorem mem_of_sendFacts {p : Str} {r : Request}
    (h : r ∈ (sendFacts router e p).requests) (hmethod : r.method = chunkMethod) :
    r ∈ chunkRequests e (chunkString p FACTS_CHUNK_SIZE).length 0 (chunkString p FACTS_CHUNK_SIZE) := by
  have hmade := requests_sendChunks router e (chunkString p FACTS_CHUNK_SIZE).length 0
    (chunkString p FACTS_CHUNK_SIZE)
  have hsend : r ≠ sendRequest e p := by
    rintro rfl
    exact sendMethod_ne hmethod
  simp only [sendFacts] at h
  split at h
  · cases h
  · split at h
    · split at h
      · exact absurd (mem_singleton.mp h) hsend
      · split at h
        · exact hmade.mem ((mem_cons.mp h).resolve_left hsend)
        · exact absurd (mem_singleton.mp h) hsend
    · exact hmade.mem h

/-- A payload goes in one request if that fits. -/
theorem sendFacts_of_send_fits {p : Str}
    (hsize : byteLength p ≤ MAX_FACTS_IPC_BYTES) (hfits : (sendRequest e p).Fits) :
    (sendFacts router e p).requests = [sendRequest e p] ∧ (router.handle (sendRequest e p).json = .ok →
        (sendFacts router e p).outcome = .accepted) := by
  have hmax : ¬ byteLength p > MAX_FACTS_PAYLOAD_BYTES := by
    simp only [MAX_FACTS_IPC_BYTES, MAX_FACTS_PAYLOAD_BYTES] at hsize ⊢
    omega
  rw [sendFacts]
  simp only [if_neg hmax, if_pos hsize, router.respond_of_fits hfits]
  split
  · exact ⟨rfl, fun _ => rfl⟩
  · rename_i code message hfail
    have hcode : code ≠ "request_too_large" := by
      rintro rfl
      exact router.ne_too_large _ _ hfail
    rw [if_neg hcode]
    exact ⟨rfl, fun hok => by rw [hok] at hfail; cases hfail⟩

/-- A payload that does not go in one request goes in chunks. -/
theorem sendFacts_of_not_send_fits {p : Str} (hmax : byteLength p ≤ MAX_FACTS_PAYLOAD_BYTES)
    (hsend : ¬ (byteLength p ≤ MAX_FACTS_IPC_BYTES ∧ (sendRequest e p).Fits)) :
    (∀ r ∈ (sendChunked router e p).requests, r ∈ (sendFacts router e p).requests) ∧
      (sendFacts router e p).outcome = (sendChunked router e p).outcome := by
  rw [sendFacts]
  simp only [if_neg (not_lt.mpr hmax)]
  split
  · rename_i hsize
    rw [router.respond_of_not_fits fun hfits => hsend ⟨hsize, hfits⟩]
    exact ⟨fun r hr => mem_cons_of_mem _ hr, rfl⟩
  · exact ⟨fun r hr => hr, rfl⟩

theorem outcome_sendFacts (hok : ∀ req, router.handle req = .ok)
    {v : Json} (h : WindowsFit e v.stringify) (message : String) :
    (sendFacts router e v.stringify).outcome ≠ .failed message := by
  by_cases hmax : byteLength v.stringify ≤ MAX_FACTS_PAYLOAD_BYTES
  · by_cases hsend : byteLength v.stringify ≤ MAX_FACTS_IPC_BYTES ∧ (sendRequest e v.stringify).Fits
    · rw [(sendFacts_of_send_fits hsend.1 hsend.2).2 (hok _)]
      exact Outcome.noConfusion
    · rw [(sendFacts_of_not_send_fits hmax hsend).2, sendChunked, sendChunks_of_fits hok ((windowsFit_iff e v).mp h)]
      exact Outcome.noConfusion
  · rw [sendFacts]
    simp only [if_pos (Nat.lt_of_not_le hmax)]
    exact Outcome.noConfusion

/-- For every event and value, the pipe takes all chunks of the value's text if and only if the
text is too large to be sent, or it goes in one request, or every window of it fits. -/
theorem chunksAccepted_iff (e : Event) (v : Json) : ChunksAccepted e v.stringify ↔
      MAX_FACTS_PAYLOAD_BYTES < byteLength v.stringify ∨ (byteLength v.stringify ≤ MAX_FACTS_IPC_BYTES ∧
          (sendRequest e v.stringify).line.length ≤ 64 * 1024) ∨ WindowsFit e v.stringify := by
  constructor
  · intro h
    by_cases hmax : byteLength v.stringify ≤ MAX_FACTS_PAYLOAD_BYTES
    · refine .inr (or_iff_not_imp_left.mpr fun hsend => (windowsFit_iff e v).mpr ?_)
      -- behind the pipe everything is taken, so all chunks up to one that does not fit are written
      refine fits_of_sendChunks fun r hr => h.fits .accepting r ?_ ?_
      · exact (sendFacts_of_not_send_fits hmax hsend).1 r hr
      · exact method_chunkRequests r ((requests_sendChunks _ _ _ _ _).mem hr)
    · exact .inl (Nat.lt_of_not_le hmax)
  · intro h
    have hfits : ∀ router : Router, ∀ r ∈ (sendFacts router e v.stringify).requests,
        r.method = chunkMethod → r.Fits := by
      intro router r hr hmethod
      rcases h with hmax | ⟨hsize, hsend⟩ | hwindows
      · rw [sendFacts] at hr
        simp only [if_pos hmax] at hr
        cases hr
      · rw [(sendFacts_of_send_fits hsize hsend).1, mem_singleton] at hr
        subst hr
        exact absurd hmethod sendMethod_ne
      · exact (windowsFit_iff e v).mp hwindows r (mem_of_sendFacts hr hmethod)
    refine ⟨hfits, fun router r hr hmethod message => ?_, fun router hok message => ?_⟩
    · rw [router.respond_of_fits (hfits router r hr hmethod)]
      exact router.ne_too_large _ _
    · rcases h with hmax | ⟨hsize, hsend⟩ | hwindows
      · rw [sendFacts]
        simp only [if_pos hmax]
        exact Outcome.noConfusion
      · rw [(sendFacts_of_send_fits hsize hsend).2 (hok _)]
        exact Outcome.noConfusion
      · exact outcome_sendFacts hok hwindows message

/-! ## A payload of backslashes -/

/-- A string of as many backslashes as make their text longer than one chunk. -/
def backslashes : Json := .str (replicate 16384 backslash)

theorem escape_replicate_backslash (n : Nat) : escape (replicate n backslash) = replicate (2 * n) backslash := by
  induction n with
  | zero => rfl
  | succ n ih =>
    have hunit : escapeUnit backslash = [backslash, backslash] := by decide
    rw [replicate_succ, escape_cons (fun h => absurd h (by decide)), ih, hunit,
      Nat.mul_add, Nat.add_comm, List.replicate_add]
    rfl

/-- The text of the value, and its first chunk. -/
theorem stringify_backslashes : backslashes.stringify = quote :: (replicate (2 * 16384) backslash ++ [quote]) := by
  rw [backslashes, stringify, quoted, escape_replicate_backslash]

theorem take_backslashes : backslashes.stringify.take FACTS_CHUNK_SIZE = quote :: replicate 32767 backslash := by
  rw [stringify_backslashes, show FACTS_CHUNK_SIZE = 32767 + 1 from rfl, take_succ_cons,
    take_append_of_le_length (by rw [length_replicate]; omega), take_replicate]
  rfl

def bareEvent : Event := ⟨[], [], [], [], []⟩

theorem not_fits_backslashes (totalChunks : Nat) : ¬ (chunkRequest bareEvent totalChunks 0
      (backslashes.stringify.take FACTS_CHUNK_SIZE)).Fits := by
  have hescape : (escape (backslashes.stringify.take FACTS_CHUNK_SIZE)).length = 65536 := by
    rw [take_backslashes, escape_cons (fun h => absurd h (by decide)),
      escape_replicate_backslash, length_append, length_replicate]
    rfl
  have hline : 0 < (chunkRequest bareEvent totalChunks 0 []).line.length := by
    simp [Request.line, Request.json, stringify]
  rw [Request.Fits, length_chunkRequest, hescape]
  omega

/-- The pipe does not take the chunks of every value: this one is sent and fails every time. -/
theorem not_chunksAccepted_backslashes : ¬ ChunksAccepted bareEvent backslashes.stringify ∧
      ∀ router : Router, ∃ message, (sendFacts router bareEvent backslashes.stringify).outcome = .failed message := by
  have hlength : backslashes.stringify.length = 32770 := by
    rw [stringify_backslashes, length_cons, length_append, length_replicate]
    rfl
  have hlow := length_le_byteLength (isLine_stringify backslashes).1
  have hhigh := byteLength_le backslashes.stringify
  have hfailed (router : Router) : ∃ message,
      (sendFacts router bareEvent backslashes.stringify).outcome = .failed message := by
    have hmax : byteLength backslashes.stringify ≤ MAX_FACTS_PAYLOAD_BYTES := by
      simp only [MAX_FACTS_PAYLOAD_BYTES]
      omega
    have hsend : ¬ (byteLength backslashes.stringify ≤ MAX_FACTS_IPC_BYTES ∧
        (sendRequest bareEvent backslashes.stringify).Fits) := by
      simp only [MAX_FACTS_IPC_BYTES]
      omega
    have hfirst : chunkString backslashes.stringify FACTS_CHUNK_SIZE = backslashes.stringify.take FACTS_CHUNK_SIZE ::
          chunksFrom backslashes.stringify FACTS_CHUNK_SIZE (0 + FACTS_CHUNK_SIZE) := by
      rw [chunkString, chunksFrom_of_lt (by rw [hlength]; omega) FACTS_CHUNK_SIZE_pos, drop_zero]
    rw [(sendFacts_of_not_send_fits hmax hsend).2, sendChunked, hfirst]
    exact sendChunks_of_not_fits (not_fits_backslashes _)
  refine ⟨fun h => ?_, hfailed⟩
  obtain ⟨message, hmessage⟩ := hfailed .accepting
  exact h.finishes .accepting (fun _ => rfl) message hmessage

end Facts
