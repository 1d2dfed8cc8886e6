-- SUMMARY: The Windows service's reassembly of chunked facts payloads, and when the way to both services is the identity.
import Tracenium.Lib.SortedDict
import Tracenium.Facts.Reassembly

/-!
`FactsChunkAssembler` (`Ipc/FactsChunkAssembler.cs`) keeps the chunks of each event in a
dictionary sorted by index. A repeated chunk is ignored, a bad parameter is an exception, and
abandoned uploads are dropped when the next request comes (`IpcGrpcHandlers.HandleFactsChunk`).
-/

open Utf16 Function List

namespace Facts.Windows

def MaxPayloadBytes : Nat := 16 * 1024 * 1024

def MaxChunks : Nat := 1024

def StaleAfter : Int := 2 * 60 * 1000

/-- `char.IsWhiteSpace`. -/
def isWhiteSpace (u : UInt16) : Bool :=
  (0x0009 ≤ u && u ≤ 0x000D) || u == 0x0020 || u == 0x0085 || u == 0x00A0 || u == 0x1680 ||
    (0x2000 ≤ u && u ≤ 0x200A) || u == 0x2028 || u == 0x2029 || u == 0x202F || u == 0x205F ||
    u == 0x3000

/-- `string.IsNullOrWhiteSpace`, of a string that is not null. -/
def isNullOrWhiteSpace (s : Str) : Bool := s.all isWhiteSpace

structure Entry where
  totalChunks : Nat
  createdAt : Int
  bytes : Nat
  chunks : SortedDict Str
  factNamespace : Str
  namespaces : List Str
  bytes_eq : bytes = (chunks.values.map byteLength).sum

/-- The entry with a new chunk, counted in its bytes. -/
def Entry.push (entry : Entry) (chunkIndex : Nat) (payloadChunk : Str)
    (h : entry.chunks.containsKey chunkIndex = false) : Entry :=
  { entry with
    bytes := entry.bytes + byteLength payloadChunk
    chunks := entry.chunks.set chunkIndex payloadChunk
    bytes_eq := by rw [SortedDict.sum_set h, ← entry.bytes_eq, Nat.add_comm] }

/-- The uploads under way, by event. -/
abbrev Entries := Str → Option Entry

inductive Outcome
  | pending (duplicate : Bool)
  | complete (payload factNamespace : Str) (namespaces : List Str)
  | tooLarge (reason : String)
  deriving DecidableEq

/-- The arguments of `Add`, as `HandleFactsChunk` parses them. -/
structure AddParams where
  eventId : Str
  chunkIndex : Int
  totalChunks : Int
  payloadChunk : Str
  factNamespace : Str
  namespaces : List Str
  deriving DecidableEq

/-- `SweepStale`. -/
def sweepStale (entries : Entries) (now : Int) : Entries :=
  fun eventId => (entries eventId).filter fun e => !decide (now - e.createdAt > StaleAfter)

/-- The part of `Add` after the entry is found: `entry` is the upload of the event. -/
def addTo (entries : Entries) (p : AddParams) (entry : Entry) (chunkIndex : Nat) :
    Entries × Outcome :=
  if hdup : entry.chunks.containsKey chunkIndex then
    (update entries p.eventId (some entry), .pending true)
  else
    let next := entry.push chunkIndex p.payloadChunk (by simpa using hdup)
    if next.bytes > MaxPayloadBytes then
      (update entries p.eventId none,
        .tooLarge s!"facts payload exceeds {MaxPayloadBytes} bytes")
    else if next.chunks.count < next.totalChunks then
      (update entries p.eventId (some next), .pending false)
    else
      (update entries p.eventId none, .complete next.chunks.values.flatten next.factNamespace next.namespaces)

/-- `Add`. An exception keeps the entries as they are. -/
def add (entries : Entries) (p : AddParams) (now : Int) : Except String (Entries × Outcome) :=
  if isNullOrWhiteSpace p.eventId then .error "eventId required"
  else if p.totalChunks ≤ 0 then .error "totalChunks must be > 0"
  else if p.chunkIndex < 0 ∨ p.chunkIndex ≥ p.totalChunks then .error "chunkIndex out of range"
  else if p.totalChunks > MaxChunks then
    .ok (entries, .tooLarge s!"totalChunks {p.totalChunks} exceeds cap {MaxChunks}")
  else
    match entries p.eventId with
    | none =>
      .ok (addTo entries p
        { totalChunks := p.totalChunks.toNat
          createdAt := now
          bytes := 0
          chunks := .empty
          factNamespace := p.factNamespace
          namespaces := p.namespaces
          bytes_eq := rfl }
        p.chunkIndex.toNat)
    | some entry =>
      if (entry.totalChunks : Int) ≠ p.totalChunks then
        .error "inconsistent totalChunks for eventId"
      else .ok (addTo entries p entry p.chunkIndex.toNat)

/-- What a request makes of the assembler: the uploads under way and every result so far. -/
structure State where
  entries : Entries
  results : List (AddParams × Except String Outcome)

/-- `HandleFactsChunk`, for a request whose parameters parse: abandoned uploads go first. -/
def handleFactsChunk (s : State) (p : AddParams) (now : Int) : State :=
  let entries := sweepStale s.entries now
  match add entries p now with
  | .error message => ⟨entries, s.results ++ [(p, .error message)]⟩
  | .ok (entries', outcome) => ⟨entries', s.results ++ [(p, .ok outcome)]⟩

structure Event where
  p : AddParams
  now : Int

def machine : Machine State Event where
  init := ⟨fun _ => none, []⟩
  step s ev := handleFactsChunk s ev.p ev.now

/-! ## What one request does -/

/-- What storing a chunk can do: a repeated one is ignored, a new one drops the upload as too
large, is kept, or completes it. -/
theorem addTo_cases (entries : Entries) (p : AddParams) (entry : Entry) (i : Nat) :
    (addTo entries p entry i = (update entries p.eventId (some entry), .pending true)) ∨
    (∃ h, let next := entry.push i p.payloadChunk h
      (next.bytes > MaxPayloadBytes ∧ ∃ reason, addTo entries p entry i =
        (update entries p.eventId none, .tooLarge reason)) ∨
      addTo entries p entry i = (update entries p.eventId (some next), .pending false) ∨
      (next.totalChunks ≤ next.chunks.count ∧ addTo entries p entry i = (update entries p.eventId none,
          .complete next.chunks.values.flatten next.factNamespace next.namespaces))) := by
  unfold addTo
  split
  · exact .inl rfl
  · rename_i hdup
    refine .inr ⟨by simpa using hdup, ?_⟩
    dsimp only
    split
    · exact .inl ⟨‹_›, _, rfl⟩
    split
    · exact .inr (.inl rfl)
    · exact .inr (.inr ⟨Nat.le_of_not_lt ‹_›, rfl⟩)

/-- What `Add` can do: it is refused before the entry is touched, or it stores the chunk in the
entry of its event, which is empty if there was none. -/
theorem add_cases (entries : Entries) (p : AddParams) (now : Int) : (∃ message, add entries p now = .error message) ∨
    (p.totalChunks > MaxChunks ∧ ∃ reason, add entries p now = .ok (entries, .tooLarge reason)) ∨
    (∃ entry : Entry, (entry.totalChunks : Int) = p.totalChunks ∧ (entries p.eventId = some entry ∨
        (entries p.eventId = none ∧ entry.chunks = .empty)) ∧
      add entries p now = .ok (addTo entries p entry p.chunkIndex.toNat)) := by
  unfold add
  split
  · exact .inl ⟨_, rfl⟩
  split
  · exact .inl ⟨_, rfl⟩
  split
  · exact .inl ⟨_, rfl⟩
  split
  · exact .inr (.inl ⟨‹_›, _, rfl⟩)
  split
  · rename_i hnone
    refine .inr (.inr ⟨_, ?_, .inr ⟨hnone, rfl⟩, rfl⟩)
    dsimp only
    omega
  · rename_i entry hsome
    split
    · exact .inl ⟨_, rfl⟩
    · rename_i htotal
      exact .inr (.inr ⟨entry, not_not.mp htotal, .inl hsome, rfl⟩)

theorem addTo_ne (entries : Entries) (p : AddParams) (entry : Entry) (i : Nat) {eventId : Str}
    (h : eventId ≠ p.eventId) : (addTo entries p entry i).1 eventId = entries eventId := by
  rcases addTo_cases entries p entry i with heq | ⟨_, ⟨-, _, heq⟩ | heq | ⟨-, heq⟩⟩ <;>
    simp [heq, h]

/-- A chunk of one event leaves the uploads of the others alone. -/
theorem add_ne {entries entries' : Entries} {p : AddParams} {now : Int} {outcome : Outcome}
    (hadd : add entries p now = .ok (entries', outcome)) {eventId : Str}
    (h : eventId ≠ p.eventId) : entries' eventId = entries eventId := by
  rcases add_cases entries p now with ⟨_, heq⟩ | ⟨-, _, heq⟩ | ⟨entry, -, -, heq⟩
  · rw [heq] at hadd
    cases hadd
  · rw [heq] at hadd
    cases hadd
    rfl
  · rw [heq] at hadd
    have hfst := congrArg Prod.fst (Except.ok.inj hadd)
    rw [← show (addTo entries p entry p.chunkIndex.toNat).1 = entries' from hfst]
    exact addTo_ne entries p entry _ h

/-! ## Collecting one payload -/

/-- The request carries a chunk of `cs`, under its index. -/
def IsChunkOf (cs : List Str) (p : AddParams) : Prop :=
  ∃ i : Nat, p.chunkIndex = (i : Int) ∧ p.totalChunks = (cs.length : Int) ∧ cs[i]? = some p.payloadChunk

/-- The upload of an event is a part of `cs`. -/
def Collects (cs : List Str) (eventId : Str) (entries : Entries) : Prop :=
  ∀ e, entries eventId = some e → e.totalChunks = cs.length ∧ e.chunks.PartOf cs

/-- The result neither refuses the payload as too large nor completes with another one. -/
def Outcome.IsFaithful (payload : Str) : Outcome → Prop
  | .pending _ => True
  | .complete p _ _ => p = payload
  | .tooLarge _ => False

theorem Collects.sweepStale {cs : List Str} {eventId : Str} {entries : Entries}
    (h : Collects cs eventId entries) (now : Int) : Collects cs eventId (sweepStale entries now) := by
  intro e he
  simp only [Windows.sweepStale, Option.filter_eq_some_iff] at he
  exact h e he.1

/-- A chunk of a payload that fits keeps the upload a part of the payload, and the result is
faithful to it. -/
theorem add_of_isChunkOf {cs : List Str} {entries entries' : Entries} {p : AddParams}
    (hcol : Collects cs p.eventId entries) (hp : IsChunkOf cs p) (hcount : cs.length ≤ MaxChunks)
    (hsize : (cs.map byteLength).sum ≤ MaxPayloadBytes) {now : Int} {outcome : Outcome}
    (hadd : add entries p now = .ok (entries', outcome)) :
    Collects cs p.eventId entries' ∧ outcome.IsFaithful cs.flatten := by
  obtain ⟨i, hindex, htotal, hchunk⟩ := hp
  rcases add_cases entries p now with ⟨_, heq⟩ | ⟨hmax, _, -⟩ | ⟨entry, hlen, hentry, heq⟩
  · rw [heq] at hadd
    cases hadd
  · omega
  · have hi : p.chunkIndex.toNat = i := by omega
    have hlen : entry.totalChunks = cs.length := by omega
    have hpart : entry.chunks.PartOf cs := by
      rcases hentry with hsome | ⟨-, hempty⟩
      · exact (hcol entry hsome).2
      · rw [hempty]
        exact .empty cs
    rw [heq, hi] at hadd
    rcases addTo_cases entries p entry i with hs | ⟨hnew, hcases⟩
    · rw [hs] at hadd
      cases hadd
      refine ⟨fun e he => ?_, trivial⟩
      obtain rfl : entry = e := by simpa using he
      exact ⟨hlen, hpart⟩
    · have hnext : (entry.push i p.payloadChunk hnew).chunks.PartOf cs := hpart.set hchunk
      rcases hcases with ⟨hover, -⟩ | hs | ⟨hfull, hs⟩
      · -- the part that has come is no larger than the payload
        have hbytes := hnext.sum_le byteLength
        rw [← (entry.push i p.payloadChunk hnew).bytes_eq] at hbytes
        omega
      · rw [hs] at hadd
        cases hadd
        refine ⟨fun e he => ?_, trivial⟩
        obtain rfl : entry.push i p.payloadChunk hnew = e := by simpa using he
        exact ⟨hlen, hnext⟩
      · rw [hs] at hadd
        cases hadd
        refine ⟨fun e he => by simp at he, ?_⟩
        have htotal : (entry.push i p.payloadChunk hnew).totalChunks = cs.length := hlen
        rw [Outcome.IsFaithful, hnext.values_eq_of_count (by omega)]

/-- Of the requests for `eventId`, the event delivers only chunks of `cs`. -/
def Delivers (cs : List Str) (eventId : Str) (ev : Event) : Prop :=
  ev.p.eventId = eventId → IsChunkOf cs ev.p

/-- The assembler has been faithful to the payload of `eventId`. -/
structure Faithful (cs : List Str) (eventId : Str) (s : State) : Prop where
  collects : Collects cs eventId s.entries
  results : ∀ r ∈ s.results, r.1.eventId = eventId → ∀ outcome, r.2 = .ok outcome → outcome.IsFaithful cs.flatten

theorem Faithful.step {cs : List Str} {eventId : Str} {s : State} (hs : Faithful cs eventId s)
    (hcount : cs.length ≤ MaxChunks) (hsize : (cs.map byteLength).sum ≤ MaxPayloadBytes)
    {ev : Event} (hev : Delivers cs eventId ev) : Faithful cs eventId (handleFactsChunk s ev.p ev.now) := by
  have hswept := hs.collects.sweepStale ev.now
  unfold handleFactsChunk
  dsimp only
  split
  · refine ⟨hswept, fun r hr hid outcome hok => ?_⟩
    rcases mem_append.mp hr with hr | hr
    · exact hs.results r hr hid outcome hok
    · rw [mem_singleton.mp hr] at hok
      cases hok
  · rename_i entries' outcome hadd
    have hown : Collects cs eventId entries' ∧
        (ev.p.eventId = eventId → outcome.IsFaithful cs.flatten) := by
      by_cases hid : ev.p.eventId = eventId
      · have hp := hev hid
        subst hid
        exact (add_of_isChunkOf hswept hp hcount hsize hadd).imp_right fun h _ => h
      · refine ⟨fun e he => hswept e ?_, fun h => absurd h hid⟩
        rw [← he]
        exact (add_ne hadd (Ne.symm hid)).symm
    refine ⟨hown.1, fun r hr hid outcome' hok => ?_⟩
    rcases mem_append.mp hr with hr | hr
    · exact hs.results r hr hid outcome' hok
    · obtain rfl := mem_singleton.mp hr
      obtain rfl := Except.ok.inj hok
      exact hown.2 hid

/-- Whatever the order, the repetitions and the partial attempts, and whatever is sent for other
events, the assembler is faithful to a payload that fits. -/
theorem faithful_run {cs : List Str} (hcount : cs.length ≤ MaxChunks)
    (hsize : (cs.map byteLength).sum ≤ MaxPayloadBytes) {eventId : Str} {tr : List Event}
    (htr : ∀ ev ∈ tr, Delivers cs eventId ev) : Faithful cs eventId (machine.run tr) := by
  have hinit : Faithful cs eventId machine.init := ⟨fun e he => by simp [machine] at he, by simp [machine]⟩
  have hguard : machine.Guarded (fun _ ev => Delivers cs eventId ev) tr :=
    Machine.guarded_of_forall fun ev hev _ => htr ev hev
  exact (hguard.always hinit fun s ev hs hev => hs.step hcount hsize hev).last

end Facts.Windows

/-!
# The facts chunk pipeline

A chunk boundary inside a surrogate pair puts half of the pair at the end of a chunk, which is then no text a strict
JSON reader can decode.
-/

namespace Facts

/-- The chunks of `p` as they go on the wire. -/
def chunksOf (p : Str) : List Str := chunkString p FACTS_CHUNK_SIZE

/-- Every chunk is text, no reassembler refuses the payload as too large, and what a reassembler
completes with is the payload: for every order and repetition of the chunks, every partial
attempt before, and whatever is sent for other events in between. -/
structure PipelineIsIdentity (p : Str) : Prop where
  wellFormed : ∀ c ∈ chunksOf p, WellFormed c
  linux : ∀ (eventId : Str) (tr : List Linux.Event), (∀ ev ∈ tr, Linux.Delivers (chunksOf p) eventId ev) →
    (∀ a ∈ (Linux.machine.run tr).answers, a.1.eventId = eventId → a.2.isTooLarge = false) ∧
    ∀ f ∈ (Linux.machine.run tr).written, f.eventId = eventId → f.payloadJson = Utf8.encode p
  windows : ∀ (eventId : Str) (tr : List Windows.Event), (∀ ev ∈ tr, Windows.Delivers (chunksOf p) eventId ev) →
    ∀ r ∈ (Windows.machine.run tr).results, r.1.eventId = eventId →
      ∀ outcome, r.2 = .ok outcome → outcome.IsFaithful p

theorem flatten_chunksOf (p : Str) : (chunksOf p).flatten = p := flatten_chunkString p FACTS_CHUNK_SIZE_pos

/-- A payload of allowed size has few enough chunks. -/
theorem length_chunksOf_le {p : Str} (hwf : WellFormed p) (hsize : byteLength p ≤ MAX_FACTS_PAYLOAD_BYTES) :
    (chunksOf p).length ≤ MAX_FACTS_CHUNKS := by
  refine length_chunkString_le FACTS_CHUNK_SIZE_pos ?_
  have hlen := length_le_byteLength hwf
  simp only [MAX_FACTS_PAYLOAD_BYTES, MAX_FACTS_CHUNKS, FACTS_CHUNK_SIZE] at *
  omega

/-- On a well-formed payload of allowed size, the pipeline is the identity exactly when no chunk
boundary falls inside a surrogate pair. -/
theorem pipelineIsIdentity_iff {p : Str} (hwf : WellFormed p) (hsize : byteLength p ≤ MAX_FACTS_PAYLOAD_BYTES) :
    PipelineIsIdentity p ↔ ∀ k, splitsPair p (k * FACTS_CHUNK_SIZE) = false := by
  have hchunks := wellFormed_chunkString_iff FACTS_CHUNK_SIZE_pos hwf
  constructor
  · intro h
    exact hchunks.mp h.wellFormed
  · intro hcuts
    have hwell : ∀ c ∈ chunksOf p, WellFormed c := hchunks.mpr hcuts
    have hcount := length_chunksOf_le hwf hsize
    have hsum : ((chunksOf p).map byteLength).sum ≤ MAX_FACTS_PAYLOAD_BYTES := by
      rw [← byteLength_flatten hwell, flatten_chunksOf]
      exact hsize
    refine ⟨hwell, fun eventId tr htr => ?_, fun eventId tr htr => ?_⟩
    · have hrun := Linux.faithful_run hcount hsum htr
      refine ⟨hrun.answers, fun f hf hid => ?_⟩
      rw [hrun.written f hf hid, flatten_chunksOf]
    · have hrun := Windows.faithful_run hcount hsum htr
      intro r hr hid outcome hok
      rw [← flatten_chunksOf p]
      exact hrun.results r hr hid outcome hok

/-- A payload without surrogates goes through. -/
theorem pipelineIsIdentity_ascii : PipelineIsIdentity (ascii ['{', '}']) := by
  have hwf : WellFormed (ascii ['{', '}']) := 
    .unit (by decide) (by decide) (.unit (by decide) (by decide) .nil)
  refine (pipelineIsIdentity_iff hwf (by decide)).mpr fun k => ?_
  cases k with
  | zero => exact splitsPair_zero _
  | succ k =>
    refine splitsPair_of_length_le ?_
    have hlen : (ascii ['{', '}']).length = 2 := rfl
    simp only [FACTS_CHUNK_SIZE]
    omega

def straddlingPayload : Str := replicate 32767 (UInt16.ofNat 0x61) ++ [0xD83D, 0xDE00]

/-- The pipeline is not the identity on every payload of allowed size. -/
theorem not_pipelineIsIdentity_straddling :
    WellFormed straddlingPayload ∧ byteLength straddlingPayload ≤ MAX_FACTS_PAYLOAD_BYTES ∧
      ¬ PipelineIsIdentity straddlingPayload := by
  have hplain : WellFormed (replicate 32767 (UInt16.ofNat 0x61)) := by
    refine .of_forall fun u hu => ?_
    rw [eq_of_mem_replicate hu]
    decide
  have hpair : WellFormed [0xD83D, 0xDE00] := .pair (by decide) (by decide) .nil
  have hwf : WellFormed straddlingPayload := hplain.append hpair
  have hsize : byteLength straddlingPayload ≤ MAX_FACTS_PAYLOAD_BYTES := by
    refine (byteLength_le _).trans ?_
    rw [straddlingPayload, length_append, length_replicate]
    decide
  refine ⟨hwf, hsize, fun h => ?_⟩
  have hcut := (wellFormed_chunkString_iff FACTS_CHUNK_SIZE_pos hwf).mp h.wellFormed 1
  have hsplit : splitsPair straddlingPayload (32767 + 1) = true := by
    have happend := splitsPair_append (replicate 32767 (UInt16.ofNat 0x61)) [0xD83D, 0xDE00]
      Nat.one_pos
    rw [length_replicate] at happend
    rw [straddlingPayload, happend]
    rfl
  rw [show 1 * FACTS_CHUNK_SIZE = 32767 + 1 from rfl, hsplit] at hcut
  cases hcut

end Facts
