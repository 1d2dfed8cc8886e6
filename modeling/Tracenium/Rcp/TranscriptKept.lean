-- SUMMARY: The runs along which the transcript of a shell is kept are those whose writes are all safe.
import Tracenium.Rcp.Transcript
import Mathlib.Algebra.Order.Field.Rat
import Mathlib.Algebra.Order.Field.Basic
import Mathlib.Tactic.NormNum

open Utf16 List Nat

namespace Rcp.Transcript

open TranscriptBuffer State

/-! ## Sizes of joined texts -/

theorem unitBytes_of_isHigh {u : UInt16} (h : isHigh u) : unitBytes u = 3 := by
  simp only [isHigh] at h
  rw [unitBytes, if_neg (by grind), if_neg (by grind)]

theorem unitBytes_of_isLow {u : UInt16} (h : isLow u) : unitBytes u = 3 := by
  simp only [isLow] at h
  rw [unitBytes, if_neg (by grind), if_neg (by grind)]

/-- A pair is smaller than its two halves. -/
theorem byteLength_join (a b : Str) :
    byteLength (a ++ b) + (if splitsPair (a ++ b) a.length then 2 else 0) = byteLength a + byteLength b := by
  fun_induction byteLength a with
  | case1 => simp
  | case2 u =>
    cases b with
    | nil => simp [byteLength]
    | cons v b =>
      rw [singleton_append, length_singleton, splitsPair_cons_one]
      cases hpair : isHigh u && isLow v with
      | true =>
        obtain ⟨hhigh, hlow⟩ := Bool.and_eq_true _ _ ▸ hpair
        rw [byteLength_pair hhigh hlow, byteLength_cons (not_isHigh_of_isLow hlow), if_pos rfl,
          unitBytes_of_isHigh hhigh, unitBytes_of_isLow hlow]
        omega
      | false => simp [byteLength, hpair]
  | case3 u v s hpair ih =>
    obtain ⟨hhigh, hlow⟩ := Bool.and_eq_true _ _ ▸ hpair
    -- the boundary after a pair is none inside one, so it is the boundary in the rest that counts
    have hsplit : splitsPair (v :: (s ++ b)) (s.length + 1) = splitsPair (s ++ b) s.length := by
      cases s with
      | nil => cases b <;> simp [splitsPair_cons_one, not_isHigh_of_isLow hlow]
      | cons w s => rfl
    rw [cons_append, cons_append, byteLength_pair hhigh hlow, length_cons, length_cons,
      splitsPair_cons_add_two, hsplit]
    omega
  | case4 u v s hpair ih =>
    rw [cons_append, cons_append, byteLength, if_neg hpair, length_cons, length_cons, splitsPair_cons_add_two]
    rw [cons_append, length_cons] at ih
    omega

theorem byteLength_append_le (a b : Str) : byteLength (a ++ b) ≤ byteLength a + byteLength b :=
  byteLength_join a b ▸ le_add_right _ _

theorem byteLength_append_eq_iff {a b : Str} :
    byteLength (a ++ b) = byteLength a + byteLength b ↔ splitsPair (a ++ b) a.length = false := by
  have hjoin := byteLength_join a b
  cases hsplit : splitsPair (a ++ b) a.length <;> simp only [hsplit] at hjoin ⊢ <;> simp at hjoin ⊢ <;> omega

/-! ## Slices -/

theorem max_chunk_pos : 0 < MAX_CHUNK_BYTES := by decide

theorem flatten_slicesFrom (data : Str) (offset : Nat) : (slicesFrom data offset).flatten = data.drop offset := by
  fun_induction slicesFrom data offset with
  | case1 offset h ih =>
    rw [flatten_cons, ih, ← drop_drop]
    exact take_append_drop _ _
  | case2 offset h => simp [List.drop_eq_nil_of_le (Nat.le_of_not_lt h)]

theorem ne_nil_of_mem_slicesFrom {data slice : Str} {offset : Nat} (h : slice ∈ slicesFrom data offset) :
    slice ≠ [] := by
  fun_induction slicesFrom data offset with
  | case1 offset hlt ih =>
    rcases mem_cons.mp h with rfl | h
    · have hlength : 0 < ((data.drop offset).take MAX_CHUNK_BYTES).length := by
        rw [length_take, length_drop]
        have := max_chunk_pos
        omega
      exact ne_nil_of_length_pos hlength
    · exact ih h
  | case2 offset h' => cases h

/-! ## Times -/

section Times

variable {session : Int} {log l : List Entry} {e : Entry} {i : Nat} {time : ℚ} {a b : List Chunk}

theorem seconds_mono {t t' : Int} (h : t ≤ t') : seconds session t ≤ seconds session t' := by
  have hmax : max 0 (t - session) ≤ max 0 (t' - session) := max_le_max_left 0 (by omega)
  exact div_le_div_of_nonneg_right (Int.cast_le.mpr hmax) (by norm_num)

@[simp] theorem textOf_nil : textOf [] = [] := rfl

@[simp] theorem textOf_append : textOf (a ++ b) = textOf a ++ textOf b := flatMap_append

@[simp] theorem written_append : written (log ++ l) = written log ++ written l := flatMap_append

@[simp] theorem written_singleton : written [e] = e.data := by simp [written]

theorem entryAt_append (h : entryAt log i = some e) : entryAt (log ++ l) i = some e := by
  induction log generalizing i with
  | nil => cases h
  | cons e' log ih =>
    rw [cons_append]
    rw [entryAt] at h ⊢
    split at h
    · rename_i hlt
      rw [if_pos hlt, h]
    · rename_i hge
      rw [if_neg hge, ih h]

/-- What comes after the text of the log so far is from the next write. -/
theorem entryAt_concat (hge : (written log).length ≤ i) (hlt : i < (written log).length + e.data.length) :
    entryAt (log ++ [e]) i = some e := by
  induction log generalizing i with
  | nil => simp [entryAt, show i < e.data.length by simpa [written] using hlt]
  | cons e' log ih =>
    have hlength : (written (e' :: log)).length = e'.data.length + (written log).length := by simp [written]
    rw [cons_append, entryAt, if_neg (by omega)]
    exact ih (by omega) (by omega)

theorem IsTimeOf.append (h : IsTimeOf session log i time) : IsTimeOf session (log ++ l) i time := by
  obtain ⟨e, he, htime⟩ := h
  exact ⟨e, entryAt_append he, htime⟩

theorem timed_append : Timed session log i (a ++ b) ↔
    Timed session log i a ∧ Timed session log (i + (textOf a).length) b := by
  induction a generalizing i with
  | nil => simp [Timed]
  | cons c a ih =>
    have hlength : i + (textOf (c :: a)).length = i + c.data.length + (textOf a).length := by
      simp [textOf, add_assoc]
    rw [cons_append, Timed, Timed, ih, hlength, and_assoc]

theorem Timed.log_append (h : Timed session log i a) : Timed session (log ++ l) i a := by
  induction a generalizing i with
  | nil => trivial
  | cons c a ih => exact ⟨h.1.append, ih h.2⟩

theorem forward_concat (h : Forward (log ++ [e])) :
    Forward log ∧ e.now ≤ e.startedAt ∧ ∀ e' ∈ log, e'.startedAt ≤ e.now := by
  rw [Forward, flatMap_append, flatMap_singleton, pairwise_append] at h
  obtain ⟨hlog, hlast, hcross⟩ := h
  refine ⟨hlog, rel_of_pairwise_cons hlast mem_cons_self, fun e' he' => ?_⟩
  exact hcross _ (mem_flatMap.mpr ⟨e', he', by simp⟩) _ mem_cons_self

end Times

/-! ## What safe writes keep -/

section Kept

variable {session : Int} {s : State} {e : Entry}

/-- The chunks and the buffer, also in the middle of a call. -/
structure Sound (session : Int) (s : State) : Prop where
  session_eq : s.buf.sessionStartedAtMs = session
  complete : textOf s.sent ++ s.buf.buffer = written s.log
  counted : ∀ c ∈ s.sent, c.bytesCount = byteLength c.data
  bounded : ∀ c ∈ s.sent, c.bytesCount ≤ MAX_CHUNK_BYTES
  timed : Timed session s.log 0 s.sent
  sorted : Forward s.log → (s.sent.map Chunk.tsDeltaSeconds).Pairwise (· ≤ ·)
  recent : Forward s.log → ∀ c ∈ s.sent, ∃ e ∈ s.log, c.tsDeltaSeconds ≤ seconds session e.startedAt
  bytes : s.buf.bufferBytes = byteLength s.buf.buffer
  fits : s.buf.bufferBytes ≤ MAX_CHUNK_BYTES
  origin : s.buf.buffer ≠ [] → ∃ t, s.buf.bufferStartMs = some t ∧
    IsTimeOf session s.log (textOf s.sent).length (seconds session t) ∧
      (Forward s.log → (∀ c ∈ s.sent, c.tsDeltaSeconds ≤ seconds session t) ∧
        ∃ e ∈ s.log, seconds session t ≤ seconds session e.startedAt)

structure Quiet (b : TranscriptBuffer) : Prop where
  small : b.bufferBytes < FLUSH_THRESHOLD_BYTES
  armed : b.buffer ≠ [] → b.flushTimer = true
  idle : b.buffer = [] → b.flushTimer = false
  closed : b.disposed = true → b.buffer = []

/-- What a flush does to a buffer that is not disposed of. -/
inductive Flushes (b : TranscriptBuffer) : TranscriptBuffer × List Chunk → Prop
  | empty (h : b.buffer = []) : Flushes b (b.clearTimer, [])
  | sent (h : b.buffer ≠ []) {t : Int} (ht : b.bufferStartMs = some t) :
    Flushes b ({ b with buffer := [], bufferBytes := 0, bufferStartMs := none, flushTimer := false },
      [⟨text "stdout", seconds b.sessionStartedAtMs t, b.buffer, b.bufferBytes⟩])

theorem flushes (b : TranscriptBuffer) (hdisposed : b.disposed = false)
    (hstart : b.buffer ≠ [] → ∃ t, b.bufferStartMs = some t) : Flushes b b.flush := by
  rw [flush, if_neg (by simp [hdisposed])]
  by_cases hbuffer : b.buffer = []
  · have hempty : b.buffer.isEmpty := isEmpty_iff.mpr hbuffer
    cases b.bufferStartMs <;> simp only [hempty] <;> exact .empty hbuffer
  · obtain ⟨t, ht⟩ := hstart hbuffer
    simp only [ht, List.isEmpty_iff, if_neg hbuffer]
    exact .sent hbuffer ht

theorem Sound.start (h : Sound session s) (hne : s.buf.buffer ≠ []) : ∃ t, s.buf.bufferStartMs = some t :=
  (h.origin hne).imp fun _ ht => ht.1

/-- After a flush the buffer is empty, and its text is in a chunk that is as it should be. -/
theorem Sound.flush (h : Sound session s) (hdisposed : s.buf.disposed = false) :
    Sound session (s.after s.buf.flush []) ∧ s.buf.flush.1.buffer = [] ∧ s.buf.flush.1.flushTimer = false ∧
      s.buf.flush.1.disposed = false := by
  have hflush := flushes s.buf hdisposed h.start
  have hcomplete := h.complete
  revert hflush
  generalize s.buf.flush = r
  rintro (⟨hbuffer⟩ | @⟨hbuffer, t, ht⟩)
  · refine ⟨?_, hbuffer, rfl, hdisposed⟩
    simp only [State.after, append_nil]
    exact { h with }
  · obtain ⟨t', ht', htime, hlast⟩ := h.origin hbuffer
    obtain rfl : t = t' := Option.some.inj (ht.symm.trans ht')
    have hsession := h.session_eq
    refine ⟨⟨hsession, ?_, ?_, ?_, ?_, ?_, ?_, rfl, zero_le _, fun hne => absurd rfl hne⟩, rfl, rfl, hdisposed⟩
    · simpa [State.after, textOf] using hcomplete
    · intro c hc
      rcases mem_append.mp hc with hc | hc
      · exact h.counted c hc
      · rw [mem_singleton.mp hc]
        exact h.bytes
    · intro c hc
      rcases mem_append.mp hc with hc | hc
      · exact h.bounded c hc
      · rw [mem_singleton.mp hc]
        exact h.fits
    · simp only [State.after, append_nil]
      refine timed_append.mpr ⟨h.timed, ?_, trivial⟩
      rw [zero_add, hsession]
      exact htime
    · simp only [State.after, append_nil, map_append, pairwise_append]
      intro hforward
      refine ⟨h.sorted hforward, pairwise_singleton _ _, fun x hx y hy => ?_⟩
      obtain ⟨c, hc, rfl⟩ := mem_map.mp hx
      rw [mem_singleton.mp hy, hsession]
      exact (hlast hforward).1 c hc
    · simp only [State.after, append_nil]
      intro hforward c hc
      rcases mem_append.mp hc with hc | hc
      · exact h.recent hforward c hc
      · rw [mem_singleton.mp hc, hsession]
        exact (hlast hforward).2

theorem begin_of_some {b : TranscriptBuffer} {t : Int} (h : b.bufferStartMs = some t) (now : Int) :
    b.begin now = b := by
  rw [begin, h]

theorem begin_of_none {b : TranscriptBuffer} (h : b.bufferStartMs = none) (now : Int) :
    b.begin now = { b with bufferStartMs := some now, flushTimer := true } := by
  cases htimer : b.flushTimer <;> simp [begin, armTimer, h]

@[simp] theorem begin_buffer (b : TranscriptBuffer) (now : Int) : (b.begin now).buffer = b.buffer := by
  cases h : b.bufferStartMs <;> simp [begin_of_some, begin_of_none, h]

@[simp] theorem begin_bufferBytes (b : TranscriptBuffer) (now : Int) : (b.begin now).bufferBytes = b.bufferBytes := by
  cases h : b.bufferStartMs <;> simp [begin_of_some, begin_of_none, h]

@[simp] theorem begin_disposed (b : TranscriptBuffer) (now : Int) : (b.begin now).disposed = b.disposed := by
  cases h : b.bufferStartMs <;> simp [begin_of_some, begin_of_none, h]

@[simp] theorem begin_bufferStartMs (b : TranscriptBuffer) (now : Int) :
    (b.begin now).bufferStartMs = some (b.bufferStartMs.getD now) := by
  cases h : b.bufferStartMs <;> simp [begin_of_some, begin_of_none, h]

theorem Sound.begin (h : Sound session s) (now : Int) : Sound session { s with buf := s.buf.begin now } := by
  cases hstart : s.buf.bufferStartMs with
  | some t => rwa [begin_of_some hstart]
  | none =>
    have hbuffer : s.buf.buffer = [] := by
      by_contra hne
      obtain ⟨t, ht⟩ := h.start hne
      cases hstart.symm.trans ht
    rw [begin_of_none hstart]
    exact { h with origin := fun hne => absurd hbuffer hne }

theorem Forward.le_of_mem {log : List Entry} {e e' : Entry} (h : Forward (log ++ [e])) (he' : e' ∈ log) :
    seconds session e'.startedAt ≤ seconds session e.now :=
  seconds_mono ((forward_concat h).2.2 e' he')

/-- The buffer with the text of a safe write. -/
theorem Sound.fill (h : Sound session s) {t : Int} (ht : s.buf.bufferStartMs = some t) (hdata : e.data ≠ [])
    (hfits : s.buf.bufferBytes + byteLength e.data ≤ MAX_CHUNK_BYTES)
    (hsplit : splitsPair (s.buf.buffer ++ e.data) s.buf.buffer.length = false)
    (htime : s.buf.buffer = [] → seconds session t = seconds session e.now ∨
      seconds session t = seconds session e.startedAt) : Sound session
      ⟨{ s.buf with buffer := s.buf.buffer ++ e.data, bufferBytes := s.buf.bufferBytes + byteLength e.data },
        s.sent, s.log ++ [e]⟩ where
  session_eq := h.session_eq
  complete := by simp [← h.complete]
  counted := h.counted
  bounded := h.bounded
  timed := h.timed.log_append
  sorted hforward := h.sorted (forward_concat hforward).1
  recent hforward c hc :=
    (h.recent (forward_concat hforward).1 c hc).imp fun _ he' => ⟨mem_append_left _ he'.1, he'.2⟩
  bytes := by rw [h.bytes, byteLength_append_eq_iff.mpr hsplit]
  fits := hfits
  origin := by
    intro _
    by_cases hbuffer : s.buf.buffer = []
    · -- the text of the write is the first of its chunk
      have hlength : (textOf s.sent).length = (written s.log).length := by simp [← h.complete, hbuffer]
      have hpos := length_pos_iff.mpr hdata
      have hfirst : IsTimeOf session (s.log ++ [e]) (textOf s.sent).length (seconds session t) :=
        ⟨e, entryAt_concat (by omega) (by omega), htime hbuffer⟩
      refine ⟨t, ht, hfirst, fun hforward => ?_⟩
      obtain ⟨hlog, hnow, -⟩ := forward_concat hforward
      have hnow : seconds session e.now ≤ seconds session e.startedAt := seconds_mono hnow
      refine ⟨fun c hc => ?_, e, by simp, ?_⟩
      · obtain ⟨e', he', hle⟩ := h.recent hlog c hc
        have hlast := hle.trans (Forward.le_of_mem hforward he')
        rcases htime hbuffer with heq | heq
        · exact heq ▸ hlast
        · exact heq ▸ hlast.trans hnow
      · rcases htime hbuffer with heq | heq
        · exact heq ▸ hnow
        · exact heq.le
    · obtain ⟨t', ht', htime', hlast⟩ := h.origin hbuffer
      refine ⟨t', ht', htime'.append, fun hforward => ?_⟩
      obtain ⟨hsent, e', he', hle⟩ := hlast (forward_concat hforward).1
      exact ⟨hsent, e', mem_append_left _ he', hle⟩

/-- The slices of a long write come after what was flushed, and all have the time of the write. -/
theorem timed_slices {log : List Entry} {slices : List Str} {i : Nat} (hne : ∀ slice ∈ slices, slice ≠ [])
    (hge : (written log).length ≤ i) (hle : i + slices.flatten.length ≤ (written log).length + e.data.length) :
    Timed session (log ++ [e]) i
      (slices.map fun slice => ⟨text "stdout", seconds session e.startedAt, slice, byteLength slice⟩) := by
  induction slices generalizing i with
  | nil => trivial
  | cons slice slices ih =>
    have hpos := length_pos_iff.mpr (hne slice mem_cons_self)
    rw [flatten_cons, length_append] at hle
    refine ⟨⟨e, entryAt_concat hge (by omega), .inr rfl⟩, ?_⟩
    exact ih (fun slice' h => hne slice' (mem_cons_of_mem _ h)) (by omega) (by dsimp only; omega)

theorem Sound.slices (h : Sound session s) (hbuffer : s.buf.buffer = [])
    (hslices : ∀ slice ∈ slicesFrom e.data 0, byteLength slice ≤ MAX_CHUNK_BYTES) :
    Sound session ⟨s.buf, s.sent ++ s.buf.sliceAndSendOversize e.data e.startedAt, s.log ++ [e]⟩ := by
  have hflatten : (slicesFrom e.data 0).flatten = e.data := flatten_slicesFrom e.data 0
  have htext : textOf (s.buf.sliceAndSendOversize e.data e.startedAt) = e.data := by
    rw [sliceAndSendOversize, textOf, flatMap_map]
    simpa using hflatten
  have hlength : (textOf s.sent).length = (written s.log).length := by simp [← h.complete, hbuffer]
  have hnew {c : Chunk} (hc : c ∈ s.buf.sliceAndSendOversize e.data e.startedAt) :
      c.bytesCount = byteLength c.data ∧ c.bytesCount ≤ MAX_CHUNK_BYTES ∧
        c.tsDeltaSeconds = seconds session e.startedAt := by
    obtain ⟨slice, hslice, rfl⟩ := mem_map.mp hc
    exact ⟨rfl, hslices slice hslice, h.session_eq ▸ rfl⟩
  refine ⟨h.session_eq, ?_, ?_, ?_, ?_, ?_, ?_, h.bytes, h.fits, fun hne => absurd hbuffer hne⟩
  · simp [htext, ← h.complete, hbuffer]
  · exact fun c hc => (mem_append.mp hc).elim (h.counted c) fun hc => (hnew hc).1
  · exact fun c hc => (mem_append.mp hc).elim (h.bounded c) fun hc => (hnew hc).2.1
  · refine timed_append.mpr ⟨h.timed.log_append, ?_⟩
    rw [sliceAndSendOversize, h.session_eq]
    exact timed_slices (fun _ => ne_nil_of_mem_slicesFrom) (by omega) (by rw [hflatten]; omega)
  · intro hforward
    simp only [map_append, pairwise_append]
    refine ⟨h.sorted (forward_concat hforward).1, ?_, fun x hx y hy => ?_⟩
    · refine pairwise_of_forall_mem_list fun x hx y hy => ?_
      obtain ⟨c, hc, rfl⟩ := mem_map.mp hx
      obtain ⟨c', hc', rfl⟩ := mem_map.mp hy
      rw [(hnew hc).2.2, (hnew hc').2.2]
    · obtain ⟨c, hc, rfl⟩ := mem_map.mp hx
      obtain ⟨c', hc', rfl⟩ := mem_map.mp hy
      obtain ⟨e', he', hle⟩ := h.recent (forward_concat hforward).1 c hc
      rw [(hnew hc').2.2]
      exact hle.trans ((Forward.le_of_mem hforward he').trans (seconds_mono (forward_concat hforward).2.1))
  · intro hforward c hc
    rcases mem_append.mp hc with hc | hc
    · exact (h.recent (forward_concat hforward).1 c hc).imp fun _ he' => ⟨mem_append_left _ he'.1, he'.2⟩
    · exact ⟨e, by simp, (hnew hc).2.2.le⟩

/-- What the guarded steps keep. -/
def Inv (session : Int) (s : State) : Prop := Sound session s ∧ Quiet s.buf

theorem Inv.kept (h : Inv session s) : Kept session s where
  complete := h.1.complete
  closed := h.2.closed
  counted := h.1.counted
  bounded := h.1.bounded
  armed hne _ := h.2.armed hne
  timed := h.1.timed
  sorted := h.1.sorted

theorem quiet_of_empty {b : TranscriptBuffer} (hbytes : b.bufferBytes = byteLength b.buffer) (hbuffer : b.buffer = [])
    (htimer : b.flushTimer = false) : Quiet b where
  small := by
    rw [hbytes, hbuffer]
    decide
  armed hne := absurd hbuffer hne
  idle _ := htimer
  closed _ := hbuffer

theorem Sound.inv_flush (h : Sound session s) (hdisposed : s.buf.disposed = false) :
    Inv session (s.after s.buf.flush []) := by
  obtain ⟨hsound, hbuffer, htimer, -⟩ := h.flush hdisposed
  exact ⟨hsound, quiet_of_empty hsound.bytes hbuffer htimer⟩

/-- A step that changes neither the text nor the chunks. -/
theorem Inv.log_nil (h : Inv session s) (hdata : e.data = []) : Inv session ⟨s.buf, s.sent, s.log ++ [e]⟩ := by
  refine ⟨⟨h.1.session_eq, ?_, h.1.counted, h.1.bounded, h.1.timed.log_append, ?_, ?_, h.1.bytes, h.1.fits, ?_⟩, h.2⟩
  · simp [h.1.complete, hdata]
  · exact fun hforward => h.1.sorted (forward_concat hforward).1
  · exact fun hforward c hc =>
      (h.1.recent (forward_concat hforward).1 c hc).imp fun _ he' => ⟨mem_append_left _ he'.1, he'.2⟩
  · intro hne
    obtain ⟨t, ht, htime, hlast⟩ := h.1.origin hne
    refine ⟨t, ht, htime.append, fun hforward => ?_⟩
    obtain ⟨hsent, e', he', hle⟩ := hlast (forward_concat hforward).1
    exact ⟨hsent, e', mem_append_left _ he', hle⟩

/-- The state with a write in its buffer, before it is looked at whether there is enough to flush. -/
def State.filled (s : State) (e : Entry) : State :=
  ⟨{ s.buf.begin e.now with
      buffer := (s.buf.begin e.now).buffer ++ e.data,
      bufferBytes := (s.buf.begin e.now).bufferBytes + byteLength e.data },
    s.sent, s.log ++ [e]⟩

/-- The state after the flush before a long write. -/
def State.flushed (s : State) (e : Entry) : State :=
  after { s with buf := s.buf.begin e.now } (s.buf.begin e.now).flush []

theorem step_append (hdisposed : s.buf.disposed = false) (hdata : e.data ≠ []) : step s (.append e) =
      if MAX_CHUNK_BYTES < byteLength e.data then
        ⟨(s.flushed e).buf, (s.flushed e).sent ++ (s.flushed e).buf.sliceAndSendOversize e.data e.startedAt,
          (s.flushed e).log ++ [e]⟩ else if FLUSH_THRESHOLD_BYTES ≤ (s.filled e).buf.bufferBytes then
        (s.filled e).after (s.filled e).buf.flush [] else s.filled e := by
  have hlive : ¬ s.buf.disposed := by simp [hdisposed]
  have hne : ¬ e.data.isEmpty := by simpa using hdata
  rw [step, if_neg hlive, append, if_neg hlive, if_neg hne]
  by_cases hmax : MAX_CHUNK_BYTES < byteLength e.data
  · rw [if_pos hmax, if_pos hmax]
    simp [State.after, State.flushed]
  · rw [if_neg hmax, if_neg hmax]
    change s.after (if FLUSH_THRESHOLD_BYTES ≤ (s.filled e).buf.bufferBytes then (s.filled e).buf.flush
      else ((s.filled e).buf, [])) [e] = _
    by_cases hfull : FLUSH_THRESHOLD_BYTES ≤ (s.filled e).buf.bufferBytes
    · rw [if_pos hfull, if_pos hfull]
      simp [State.after, State.filled]
    · rw [if_neg hfull, if_neg hfull]
      simp [State.after, State.filled]

/-- The timer that a buffer that is not full runs under is armed by the write, or was by an earlier one. -/
theorem timer_filled (hquiet : Quiet s.buf)
    (hstale : ∀ startMs ∈ s.buf.bufferStartMs, s.buf.buffer = [] → FLUSH_THRESHOLD_BYTES ≤ byteLength e.data ∧
      (seconds s.buf.sessionStartedAtMs startMs = seconds s.buf.sessionStartedAtMs e.now ∨
        seconds s.buf.sessionStartedAtMs startMs = seconds s.buf.sessionStartedAtMs e.startedAt))
    (hroom : ¬ FLUSH_THRESHOLD_BYTES ≤ (s.filled e).buf.bufferBytes) : (s.filled e).buf.flushTimer := by
  cases hstart : s.buf.bufferStartMs with
  | none => simp [filled, begin_of_none hstart]
  | some startMs =>
    have hfull : s.buf.buffer ≠ [] := fun hbuffer =>
      hroom (le_trans (hstale startMs hstart hbuffer).1 (le_add_left _ _))
    simpa [filled, begin_of_some hstart] using hquiet.armed hfull

theorem inv_step (s : State) (ev : Event) (h : Inv session s) (hsafe : Safe s ev) : Inv session (step s ev) := by
  obtain ⟨hsound, hquiet⟩ := h
  have hsame : Inv session (s.after (s.buf, []) []) := by
    rw [State.after, append_nil, append_nil]
    exact ⟨hsound, hquiet⟩
  cases hdisposed : s.buf.disposed with
  | true =>
    have htimer := hquiet.idle (hquiet.closed hdisposed)
    cases ev with
    | append e => simpa [step, append, hdisposed] using hsame
    | flush => simpa [step, flush, hdisposed] using hsame
    | timer => simpa [step, fire, htimer] using hsame
    | dispose => simpa [step, dispose, hdisposed] using hsame
  | false =>
    cases ev with
    | flush => exact hsound.inv_flush hdisposed
    | timer =>
      cases htimer : s.buf.flushTimer with
      | false => simpa [step, fire, htimer] using hsame
      | true =>
        have hunarmed : Sound session { s with buf := { s.buf with flushTimer := false } } := { hsound with }
        rw [step, fire, if_pos htimer]
        exact hunarmed.inv_flush hdisposed
    | dispose =>
      obtain ⟨hflushed, hbuffer, -, -⟩ := hsound.flush hdisposed
      have hclosed : Sound session (s.after (clearTimer { s.buf.flush.1 with disposed := true },
          s.buf.flush.2) []) := { hflushed with }
      have hstep : step s .dispose = s.after (clearTimer { s.buf.flush.1 with disposed := true },
          s.buf.flush.2) [] := by
        simp [step, dispose, hdisposed]
      rw [hstep]
      exact ⟨hclosed, quiet_of_empty hclosed.bytes hbuffer rfl⟩
    | append e =>
      by_cases hdata : e.data = []
      · have hstep : step s (.append e) = ⟨s.buf, s.sent, s.log ++ [e]⟩ := by
          simp [step, State.after, TranscriptBuffer.append, hdisposed, hdata]
        rw [hstep]
        exact Inv.log_nil ⟨hsound, hquiet⟩ hdata
      · have hsafe := hsafe hdisposed hdata
        have hbegin := hsound.begin e.now
        rw [step_append hdisposed hdata]
        split at hsafe
        · rename_i hmax
          obtain ⟨hflushed, hbuffer, htimer, -⟩ := hbegin.flush (by rwa [begin_disposed])
          have hslices := hflushed.slices (e := e) hbuffer hsafe
          rw [if_pos hmax]
          exact ⟨hslices, quiet_of_empty hslices.bytes hbuffer htimer⟩
        · rename_i hmax
          obtain ⟨hfits, hsplit, hstale⟩ := hsafe
          have hfilled : Sound session (s.filled e) := by
            refine hbegin.fill (begin_bufferStartMs s.buf e.now) hdata (by simpa using hfits) (by simpa using hsplit) ?_
            rw [begin_buffer]
            intro hbuffer
            cases hstart : s.buf.bufferStartMs with
            | none => exact .inl rfl
            | some startMs => exact hsound.session_eq ▸ (hstale startMs hstart hbuffer).2
          rw [if_neg hmax]
          split
          · exact hfilled.inv_flush (by simpa [filled] using hdisposed)
          · rename_i hroom
            refine ⟨hfilled, Nat.lt_of_not_le hroom, fun _ => ?_, fun hnil => ?_, fun hclosed => ?_⟩
            · exact timer_filled hquiet hstale hroom
            · exact absurd (append_eq_nil_iff.mp hnil).2 hdata
            · simp [filled, hdisposed] at hclosed

/-! ## What other writes break -/

/-- The transcript is kept, and the size of the buffer is counted. -/
def KeptCounted (session : Int) (s : State) : Prop :=
  Kept session s ∧ s.buf.bufferBytes = byteLength s.buf.buffer

/-- The chunk that a full buffer is passed on in. -/
theorem flush_filled (hdisposed : s.buf.disposed = false) (hdata : e.data ≠ []) :
    (s.filled e).buf.flush.2 = [⟨text "stdout", seconds s.buf.sessionStartedAtMs (s.buf.bufferStartMs.getD e.now),
      s.buf.buffer ++ e.data, s.buf.bufferBytes + byteLength e.data⟩] := by
  have hsession : (s.buf.begin e.now).sessionStartedAtMs = s.buf.sessionStartedAtMs := by
    cases h : s.buf.bufferStartMs <;> simp [begin_of_some, begin_of_none, h]
  simp [filled, flush, hdisposed, hdata, hsession]

theorem not_kept_step (s : State) (ev : Event) (h : Inv session s) (hsafe : ¬ Safe s ev) :
    ¬ KeptCounted session (step s ev) := by
  obtain ⟨hsound, hquiet⟩ := h
  cases ev with
  | flush => exact absurd trivial hsafe
  | timer => exact absurd trivial hsafe
  | dispose => exact absurd trivial hsafe
  | append e =>
    simp only [Safe, Classical.not_imp] at hsafe
    obtain ⟨hdisposed, hdata, hsafe⟩ := hsafe
    rw [step_append hdisposed hdata]
    rintro ⟨hkept, hbytes⟩
    split at hsafe
    · rename_i hmax
      rw [if_pos hmax] at hkept
      refine hsafe fun slice hslice => ?_
      have hsent : (⟨text "stdout", seconds (s.flushed e).buf.sessionStartedAtMs e.startedAt, slice,
          byteLength slice⟩ : Chunk) ∈ (s.flushed e).buf.sliceAndSendOversize e.data e.startedAt :=
        mem_map.mpr ⟨slice, hslice, rfl⟩
      exact hkept.bounded _ (mem_append_right _ hsent)
    · rename_i hmax
      rw [if_neg hmax] at hkept hbytes
      have hchunk := flush_filled hdisposed hdata
      split at hkept
      · rename_i hfull
        -- the chunk of the full buffer is the one that is not what it should be
        have hmem : ∀ c ∈ (s.filled e).buf.flush.2, c ∈ ((s.filled e).after (s.filled e).buf.flush []).sent :=
          fun c hc => mem_append_right _ hc
        rw [hchunk] at hmem
        have hbounded := hkept.bounded _ (hmem _ mem_cons_self)
        have hcounted := hkept.counted _ (hmem _ mem_cons_self)
        refine hsafe ⟨hbounded, byteLength_append_eq_iff.mp (hsound.bytes ▸ hcounted.symm), fun t ht hbuffer => ?_⟩
        have ht : s.buf.bufferStartMs = some t := ht
        refine ⟨by simpa [filled, hsound.bytes, hbuffer, byteLength] using hfull, ?_⟩
        have htimed : Timed session (s.log ++ [e] ++ []) 0 (s.sent ++ (s.filled e).buf.flush.2) := hkept.timed
        rw [append_nil, timed_append, hchunk] at htimed
        obtain ⟨-, htimed⟩ := htimed
        obtain ⟨⟨e', he', htime⟩, -⟩ := htimed
        have hlength : (textOf s.sent).length = (written s.log).length := by simp [← hsound.complete, hbuffer]
        have hpos := length_pos_iff.mpr hdata
        rw [entryAt_concat (by omega) (by omega)] at he'
        obtain rfl := Option.some.inj he'
        simpa [ht, hsound.session_eq] using htime
      · rename_i hroom
        rw [if_neg hroom] at hbytes
        have hbytes : s.buf.bufferBytes + byteLength e.data = byteLength (s.buf.buffer ++ e.data) := by
          simpa [filled] using hbytes
        have hsmall : s.buf.bufferBytes + byteLength e.data < FLUSH_THRESHOLD_BYTES := by
          simpa [filled] using hroom
        have hle : FLUSH_THRESHOLD_BYTES ≤ MAX_CHUNK_BYTES := by decide
        refine hsafe ⟨by omega, byteLength_append_eq_iff.mp (hsound.bytes ▸ hbytes.symm), fun t ht hbuffer => ?_⟩
        -- the buffer has text, and no timer that flushes it
        have ht : s.buf.bufferStartMs = some t := ht
        have harmed := hkept.armed (by simp [filled, hdata]) (by simp [filled, hdisposed])
        rw [filled, begin_of_some ht] at harmed
        exact absurd (hquiet.idle hbuffer) (by simpa using harmed)

end Kept

/-! ## Runs -/

section Runs

variable {session : Int} {s : State}

theorem inv_init (session : Int) : Inv session (machine session).init := by
  refine ⟨⟨rfl, rfl, by simp [machine], by simp [machine], trivial, fun _ => Pairwise.nil, by simp [machine], rfl,
    zero_le _, fun hne => absurd rfl hne⟩, ⟨?_, fun hne => absurd rfl hne, fun _ => rfl, fun _ => rfl⟩⟩
  exact show 0 < FLUSH_THRESHOLD_BYTES by decide

theorem always_keptCounted_iff (session : Int) (tr : List Event) :
    (machine session).Always (KeptCounted session) tr ↔ (machine session).Guarded Safe tr :=
  Machine.always_iff_guarded (inv_init session) inv_step (fun _ h => ⟨h.kept, h.1.bytes⟩) not_kept_step tr

/-- What every step keeps: what was passed on and what is in the buffer is what was written. -/
structure Basic (s : State) : Prop where
  complete : textOf s.sent ++ s.buf.buffer = written s.log
  le : byteLength s.buf.buffer ≤ s.buf.bufferBytes
  empty : s.buf.buffer = [] → s.buf.bufferBytes = 0
  started : s.buf.buffer ≠ [] → ∃ t, s.buf.bufferStartMs = some t
  closed : s.buf.disposed = true → s.buf.buffer = []

def SentMiscounted (s : State) : Prop := ∃ c ∈ s.sent, c.bytesCount ≠ byteLength c.data

/-- A chunk was counted wrong, or the text that the next one will have is. -/
def Miscounted (s : State) : Prop := SentMiscounted s ∨ byteLength s.buf.buffer < s.buf.bufferBytes

theorem Basic.sentMiscounted (h : Basic s) (hbuffer : s.buf.buffer = []) (hmis : Miscounted s) : SentMiscounted s := by
  refine hmis.resolve_right fun hlt => ?_
  rw [h.empty hbuffer] at hlt
  exact absurd hlt (not_lt_zero _)

theorem SentMiscounted.append (h : SentMiscounted s) {b : TranscriptBuffer} {cs : List Chunk} {log : List Entry} :
    SentMiscounted ⟨b, s.sent ++ cs, log⟩ :=
  h.imp fun _ hc => ⟨mem_append_left _ hc.1, hc.2⟩

theorem Basic.flush (h : Basic s) (hdisposed : s.buf.disposed = false) :
    Basic (s.after s.buf.flush []) ∧ s.buf.flush.1.buffer = [] ∧
      (Miscounted s → SentMiscounted (s.after s.buf.flush [])) := by
  have hflush := flushes s.buf hdisposed h.started
  revert hflush
  generalize s.buf.flush = r
  rintro (⟨hbuffer⟩ | @⟨hbuffer, t, ht⟩)
  · refine ⟨?_, hbuffer, fun hmis => (h.sentMiscounted hbuffer hmis).append⟩
    simp only [State.after, append_nil]
    exact { h with }
  · refine ⟨⟨?_, zero_le _, fun _ => rfl, fun hne => absurd rfl hne, fun _ => rfl⟩, rfl, ?_⟩
    · simpa [State.after, textOf] using h.complete
    · rintro (hsent | hlt)
      · exact hsent.append
      · exact ⟨_, List.mem_append_right _ List.mem_cons_self, (Nat.ne_of_lt hlt).symm⟩

theorem Basic.begin (h : Basic s) (now : Int) : Basic { s with buf := s.buf.begin now } where
  complete := by simpa using h.complete
  le := by simpa using h.le
  empty := by simpa using h.empty
  started _ := ⟨_, begin_bufferStartMs _ _⟩
  closed := by simpa using h.closed

theorem Basic.filled {e : Entry} (h : Basic s) (hdisposed : s.buf.disposed = false) (hdata : e.data ≠ []) :
    Basic (s.filled e) ∧ (Miscounted s → Miscounted (s.filled e)) := by
  have hle := byteLength_append_le s.buf.buffer e.data
  refine ⟨⟨by simp [State.filled, ← h.complete], ?_, fun hnil => ?_, fun _ => ⟨_, begin_bufferStartMs _ _⟩, ?_⟩, ?_⟩
  · simpa [State.filled] using hle.trans (Nat.add_le_add_right h.le _)
  · exact absurd (append_eq_nil_iff.mp hnil).2 hdata
  · simp [State.filled, hdisposed]
  · rintro (hsent | hlt)
    · exact .inl hsent
    · exact .inr (by simpa [State.filled] using Nat.lt_of_le_of_lt hle (Nat.add_lt_add_right hlt _))

theorem basic_step (s : State) (ev : Event) (h : Basic s) :
    Basic (step s ev) ∧ (Miscounted s → Miscounted (step s ev)) := by
  have hsame : Basic (s.after (s.buf, []) []) ∧ (Miscounted s → Miscounted (s.after (s.buf, []) [])) := by
    rw [State.after, append_nil, append_nil]
    exact ⟨h, id⟩
  cases hdisposed : s.buf.disposed with
  | true =>
    cases ev with
    | append e => simpa only [step, append, hdisposed, if_true] using hsame
    | flush => simpa only [step, flush, hdisposed, if_true] using hsame
    | timer =>
      have hflush : s.buf.fire = ({ s.buf with flushTimer := false }, []) := by
        cases htimer : s.buf.flushTimer <;> simp [fire, flush, htimer, hdisposed]
        rw [← htimer, ← hdisposed]
      rw [step, hflush, State.after, append_nil, append_nil]
      exact ⟨{ h with }, id⟩
    | dispose => simpa only [step, dispose, hdisposed, if_true] using hsame
  | false =>
    cases ev with
    | flush =>
      obtain ⟨hbasic, -, hmis⟩ := h.flush hdisposed
      exact ⟨hbasic, fun hs => .inl (hmis hs)⟩
    | timer =>
      cases htimer : s.buf.flushTimer with
      | false => simpa only [step, fire, htimer, Bool.false_eq_true, if_false] using hsame
      | true =>
        have hunarmed : Basic { s with buf := { s.buf with flushTimer := false } } := { h with }
        obtain ⟨hbasic, -, hmis⟩ := hunarmed.flush hdisposed
        rw [step, fire, if_pos htimer]
        exact ⟨hbasic, fun hs => .inl (hmis hs)⟩
    | dispose =>
      obtain ⟨hbasic, hbuffer, hmis⟩ := h.flush hdisposed
      rw [step, dispose, if_neg (by simp [hdisposed])]
      exact ⟨{ hbasic with closed := fun _ => hbuffer }, fun hs => .inl (hmis hs)⟩
    | append e =>
      by_cases hdata : e.data = []
      · have hstep : step s (.append e) = ⟨s.buf, s.sent, s.log ++ [e]⟩ := by
          simp [step, State.after, TranscriptBuffer.append, hdisposed, hdata]
        rw [hstep]
        exact ⟨{ h with complete := by simp [h.complete, hdata] }, id⟩
      · obtain ⟨hfilled, hmis⟩ := h.filled hdisposed hdata
        obtain ⟨hflushed, hbuffer, hsent⟩ := (h.begin e.now).flush (by rwa [begin_disposed])
        rw [step_append hdisposed hdata]
        split
        · have htext : textOf ((s.flushed e).buf.sliceAndSendOversize e.data e.startedAt) = e.data := by
            rw [sliceAndSendOversize, textOf, flatMap_map]
            simpa using flatten_slicesFrom e.data 0
          have hbuffer : (s.flushed e).buf.buffer = [] := hbuffer
          have hcomplete : textOf (s.flushed e).sent ++ [] = written (s.flushed e).log := hbuffer ▸ hflushed.complete
          refine ⟨{ hflushed with complete := ?_ }, fun hs => .inl ?_⟩
          · rw [append_nil] at hcomplete
            simp [htext, hbuffer, hcomplete]
          · exact (hsent (by simpa [Miscounted, SentMiscounted] using hs)).append
        · split
          · obtain ⟨hbasic, -, hlast⟩ := hfilled.flush (by simpa [filled] using hdisposed)
            exact ⟨hbasic, fun hs => .inl (hlast (hmis hs))⟩
          · exact ⟨hfilled, hmis⟩

theorem basic_init (session : Int) : Basic (machine session).init :=
  ⟨rfl, le_refl _, fun _ => rfl, fun hne => absurd rfl hne, fun _ => rfl⟩

/-- What was passed on and what is in the buffer is what was written, after every run. -/
theorem basic_run (session : Int) (tr : List Event) : Basic ((machine session).run tr) :=
  Machine.invariant (basic_init session) (fun s ev h => (basic_step s ev h).1) tr

/-- Text that is counted wrong stays so until it is passed on, and the chunk has the wrong count. -/
theorem miscounted_exec (session : Int) (hbasic : Basic s) (hmis : Miscounted s) (tr : List Event) :
    Basic ((machine session).exec s tr) ∧ Miscounted ((machine session).exec s tr) := by
  have hstep (s : State) (ev : Event) (h : Basic s ∧ Miscounted s) : Basic (step s ev) ∧ Miscounted (step s ev) :=
    ⟨(basic_step s ev h.1).1, (basic_step s ev h.1).2 h.2⟩
  exact Machine.invariant (M := ⟨s, step⟩) ⟨hbasic, hmis⟩ hstep tr

theorem disposed_step (s : State) : (step s .dispose).buf.disposed := by
  cases hdisposed : s.buf.disposed <;>
    simp [step, State.after, TranscriptBuffer.dispose, TranscriptBuffer.clearTimer, hdisposed]

/-- The transcript of a session, up to its end, is what it should be exactly if its writes are all safe. -/
theorem always_kept_iff_safe (session : Int) (tr : List Event) :
    (machine session).Always (Kept session) (tr ++ [.dispose]) ↔ (machine session).Guarded Safe tr := by
  constructor
  · intro h
    refine (always_keptCounted_iff session tr).mp fun pre hpre => ⟨h pre (hpre.trans (prefix_append _ _)), ?_⟩
    by_contra hne
    obtain ⟨post, rfl⟩ := hpre
    have hbasic := basic_run session pre
    have hmis : Miscounted ((machine session).run pre) := .inr (lt_of_le_of_ne hbasic.le (Ne.symm hne))
    obtain ⟨hend, hmis⟩ := miscounted_exec session hbasic hmis (post ++ [.dispose])
    have hrun : (machine session).run (pre ++ post ++ [.dispose]) =
        (machine session).exec ((machine session).run pre) (post ++ [.dispose]) := by simp
    have hdisposed : ((machine session).run (pre ++ post ++ [.dispose])).buf.disposed := by
      rw [Machine.run_append]
      exact disposed_step _
    rw [← hrun] at hend hmis
    obtain ⟨c, hc, hcount⟩ := hend.sentMiscounted (hend.closed hdisposed) hmis
    exact hcount (h.last.counted c hc)
  · intro h
    have hdispose : (machine session).Guarded Safe (tr ++ [.dispose]) := Machine.guarded_snoc.mpr ⟨h, trivial⟩
    exact ((always_keptCounted_iff session _).mpr hdispose).mono fun _ hs => hs.1

def longWrite : Entry := ⟨replicate 65537 0x61, 1000, 1000⟩

def shortWrite : Entry := ⟨text "x", 2000, 2000⟩

theorem byteLength_longWrite : byteLength longWrite.data = 65537 := by
  have hlength (n : Nat) : byteLength (replicate n 0x61) = n := by
    induction n with
    | zero => rfl
    | succ n ih =>
      rw [replicate_succ, byteLength_cons (by decide), ih, show unitBytes 0x61 = 1 by decide, add_comm]
  exact hlength 65537

/-- A short write after a long one waits in the buffer, and no timer flushes it. -/
theorem not_always_kept_longWrite :
    ¬ (machine 0).Always (Kept 0) ([.append longWrite, .append shortWrite] ++ [.dispose]) := by
  intro h
  have hkept := h [.append longWrite, .append shortWrite] (prefix_append _ _)
  obtain ⟨s, hs⟩ : ∃ s, s = step (machine 0).init (.append longWrite) := ⟨_, rfl⟩
  have hbuf : s.buf = ⟨0, [], 0, some 1000, false, false⟩ := by
    have hne : longWrite.data ≠ [] := cons_ne_nil _ _
    rw [hs, step_append rfl hne, byteLength_longWrite, if_pos (by decide)]
    rfl
  have hrun : (machine 0).run [.append longWrite, .append shortWrite] = s.filled shortWrite := by
    have hdisposed : s.buf.disposed = false := by rw [hbuf]
    have hroom : (s.filled shortWrite).buf.bufferBytes = 1 := by
      have hbytes : byteLength shortWrite.data = 1 := by decide
      simp [filled, hbuf, hbytes]
    have htwo (a b : Event) : (machine 0).run [a, b] = step (step (machine 0).init a) b := rfl
    rw [htwo, ← hs, step_append hdisposed (by decide), if_neg (by decide), hroom, if_neg (by decide)]
  rw [hrun] at hkept
  have harmed := hkept.armed (by simp [filled, shortWrite, text, ascii]) (by simp [filled, hbuf])
  rw [filled, hbuf] at harmed
  cases harmed

end Runs

end Rcp.Transcript
