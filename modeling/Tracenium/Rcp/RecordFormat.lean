-- SUMMARY: The records of a recording, which carry two lengths and a sealed payload, and what a cut file gives back.
import Tracenium.Lib.ByteNumerals
import Tracenium.Lib.JsonText
import Tracenium.Lib.Records

/-!
`encodeRecord` and `decodeRecord` of `src/plugins/rcp/recording-store.ts`. A reader clamps what runs past the end of the
file, so a cut is found by the length of the payload that is not there any more, or by the tag of the payload.
-/

open BigEndian Json List Option
open Utf16 (text)

namespace Rcp.RecordFormat

open Utf8

/-! ## Encryption -/

abbrev Iv := { bytes : List UInt8 // bytes.length = 12 }

abbrev Tag := { bytes : List UInt8 // bytes.length = 16 }

/-- `aes-256-gcm` of `node:crypto`, with the keys that it takes. -/
structure Gcm (Key : Type) where
  encrypt : Key → Iv → List UInt8 → List UInt8 × Tag
  decrypt : Key → (iv tag enc : List UInt8) → Option (List UInt8)

variable {Key : Type}

/-- The tag is that of the encrypted payload and of no other bytes. -/
structure Gcm.Authentic (gcm : Gcm Key) (key : Key) (iv : Iv) (payload : List UInt8) : Prop where
  inverts : gcm.decrypt key iv.1 (gcm.encrypt key iv payload).2.1 (gcm.encrypt key iv payload).1 = some payload
  rejects : ∀ enc, enc ≠ (gcm.encrypt key iv payload).1 →
    gcm.decrypt key iv.1 (gcm.encrypt key iv payload).2.1 enc = none

/-! ## Buffers -/

/-- Without an offset that is out of range. -/
def writeUInt32BE (n : Nat) : Option (List UInt8) := if n < 2 ^ 32 then some (bytesOf 4 n) else none

def readUInt32BE (buf : List UInt8) (offset : Nat) : Option Nat :=
  if offset + 4 ≤ buf.length then some (value ((buf.drop offset).take 4)) else none

/-- Both ends are clamped to the buffer. -/
def subarray (buf : List UInt8) (start stop : Nat) : List UInt8 := (buf.take stop).drop start

theorem readUInt32BE_append {before after : List UInt8} {n offset : Nat} (hn : n < 2 ^ 32)
    (ho : offset = before.length) : readUInt32BE (before ++ (bytesOf 4 n ++ after)) offset = some n := by
  have htake : ((before ++ (bytesOf 4 n ++ after)).drop offset).take 4 = bytesOf 4 n := by
    simp [ho]
  rw [readUInt32BE, if_pos (by simp [ho]), htake, value_bytesOf (by simpa using hn)]

theorem readUInt32BE_of_lt {buf : List UInt8} {offset : Nat} (h : buf.length < offset + 4) :
    readUInt32BE buf offset = none := if_neg (not_le.mpr h)

/-- What runs past the end is not there. -/
theorem subarray_eq_take {before rest : List UInt8} {start stop n : Nat} (hstart : start = before.length)
    (hstop : stop = before.length + n) : subarray (before ++ rest) start stop = rest.take n := by
  simp [subarray, hstart, hstop, take_append]

theorem subarray_append {before bytes after : List UInt8} {start stop : Nat} (hstart : start = before.length)
    (hstop : stop = before.length + bytes.length) : subarray (before ++ (bytes ++ after)) start stop = bytes := by
  rw [subarray_eq_take hstart hstop, take_left]

/-! ## Records -/

/-- A record before it is written, with the random bytes that `encodeRecord` takes for it. -/
structure Written where
  frameMeta : Json
  payload : List UInt8
  iv : Iv

/-- What comes before the encrypted payload: both lengths, the clear header, `iv` and `tag`. -/
def encodeRecord (gcm : Gcm Key) (w : Written) (key : Key) : Option (List UInt8) := do
  let (enc, tag) := gcm.encrypt key w.iv w.payload
  let header := encode w.frameMeta.stringify
  let head ← writeUInt32BE header.length
  let plen ← writeUInt32BE enc.length
  return head ++ header ++ w.iv.1 ++ tag.1 ++ plen ++ enc

structure Decoded where
  frameMeta : Json
  payload : List UInt8
  next : Nat

def decodeRecord (gcm : Gcm Key) (buf : List UInt8) (offset : Nat) (key : Key) : Option Decoded := do
  let headLen ← readUInt32BE buf offset
  let p := offset + 4
  let frameMeta ← Json.parse (decode (subarray buf p (p + headLen)))
  let p := p + headLen
  let iv := subarray buf p (p + 12)
  let p := p + 12
  let tag := subarray buf p (p + 16)
  let p := p + 16
  let plen ← readUInt32BE buf p
  let p := p + 4
  let enc := subarray buf p (p + plen)
  let p := p + plen
  let payload ← gcm.decrypt key iv tag enc
  return ⟨frameMeta, payload, p⟩

/-- The next record is behind this one. -/
theorem offset_lt_next {gcm : Gcm Key} {key : Key} {buf : List UInt8} {offset : Nat} {d : Decoded}
    (h : decodeRecord gcm buf offset key = some d) : offset < d.next := by
  simp only [decodeRecord, Option.bind_eq_bind, Option.bind_eq_some_iff, Option.pure_def, Option.some.injEq] at h
  obtain ⟨headLen, -, m, -, plen, -, payload, -, rfl⟩ := h
  simp only
  omega

/-- Going from one record to the next while the offset is in the file. -/
def reader (gcm : Gcm Key) (key : Key) : Records.Reader UInt8 (Json × List UInt8) where
  read buf offset := (decodeRecord gcm buf offset key).map fun d => ((d.frameMeta, d.payload), d.next)
  advances h := by
    obtain ⟨d, hd, heq⟩ := map_eq_some_iff.mp h
    have hlt := offset_lt_next hd
    simp_all

/-! ## A record that is whole, and one that is cut -/

/-- What is before the encrypted payload. -/
def framing (w : Written) (tag : Tag) (plen : Nat) : List UInt8 :=
  bytesOf 4 (encode w.frameMeta.stringify).length ++ (encode w.frameMeta.stringify ++
    (w.iv.1 ++ (tag.1 ++ bytesOf 4 plen)))

theorem encodeRecord_cases {gcm : Gcm Key} {key : Key} {w : Written} {bytes : List UInt8}
    (h : encodeRecord gcm w key = some bytes) :
    (encode w.frameMeta.stringify).length < 2 ^ 32 ∧ (gcm.encrypt key w.iv w.payload).1.length < 2 ^ 32 ∧
      bytes = framing w (gcm.encrypt key w.iv w.payload).2 (gcm.encrypt key w.iv w.payload).1.length ++
        (gcm.encrypt key w.iv w.payload).1 := by
  simp only [encodeRecord, writeUInt32BE, Option.bind_eq_bind, Option.bind_eq_some_iff, Option.pure_def,
    some.injEq, ite_none_right_eq_some] at h
  obtain ⟨head, ⟨hhead, rfl⟩, plen, ⟨hplen, rfl⟩, rfl⟩ := h
  exact ⟨hhead, hplen, by simp [framing]⟩

theorem decode_stringify (v : Json) : Json.parse (decode (encode v.stringify)) = some v := by
  rw [decode_encode (isLine_stringify v).1, parse_stringify]

/-- With the framing in place, the payload decides. -/
theorem decodeRecord_framing (gcm : Gcm Key) (key : Key) {w : Written} (tag : Tag) {plen : Nat}
    (hhead : (encode w.frameMeta.stringify).length < 2 ^ 32) (hplen : plen < 2 ^ 32) (before rest : List UInt8) :
    decodeRecord gcm (before ++ (framing w tag plen ++ rest)) before.length key =
      (gcm.decrypt key w.iv.1 tag.1 (rest.take plen)).map fun payload =>
        ⟨w.frameMeta, payload, before.length + ((framing w tag plen).length + plen)⟩ := by
  obtain ⟨m, sent, iv, hiv⟩ := w
  obtain ⟨tag, htag⟩ := tag
  have hparse := decode_stringify m
  simp only [framing] at hhead ⊢
  generalize encode m.stringify = header at hhead hparse ⊢
  obtain ⟨head, hhd⟩ : ∃ head, head = bytesOf 4 header.length := ⟨_, rfl⟩
  have hheadLen : head.length = 4 := by simp [hhd]
  rw [← hhd]
  -- the buffer, cut at each of the offsets
  let buf := before ++ (head ++ (header ++ (iv ++ (tag ++ bytesOf 4 plen))) ++ rest)
  have hread : readUInt32BE buf before.length = some header.length := by
    simpa [buf, hhd] using
      @readUInt32BE_append before (header ++ (iv ++ (tag ++ (bytesOf 4 plen ++ rest)))) _ _ hhead rfl
  have hheader : subarray buf (before.length + 4) (before.length + 4 + header.length) = header := by
    have hbuf : buf = (before ++ head) ++ (header ++ (iv ++ (tag ++ (bytesOf 4 plen ++ rest)))) := by simp [buf]
    rw [hbuf]
    exact subarray_append (by simp [hheadLen]) (by simp [hheadLen])
  have hivs : subarray buf (before.length + 4 + header.length) (before.length + 4 + header.length + 12) = iv := by
    have hbuf : buf = (before ++ head ++ header) ++ (iv ++ (tag ++ (bytesOf 4 plen ++ rest))) := by simp [buf]
    rw [hbuf]
    exact subarray_append (by simp; omega) (by simp; omega)
  have htags : subarray buf (before.length + 4 + header.length + 12) (before.length + 4 + header.length + 12 + 16)
      = tag := by
    have hbuf : buf = (before ++ head ++ header ++ iv) ++ (tag ++ (bytesOf 4 plen ++ rest)) := by simp [buf]
    rw [hbuf]
    exact subarray_append (by simp; omega) (by simp; omega)
  have hplens : readUInt32BE buf (before.length + 4 + header.length + 12 + 16) = some plen := by
    have hbuf : buf = (before ++ head ++ header ++ iv ++ tag) ++ (bytesOf 4 plen ++ rest) := by simp [buf]
    rw [hbuf]
    exact readUInt32BE_append hplen (by simp; omega)
  have hencs : subarray buf (before.length + 4 + header.length + 12 + 16 + 4)
      (before.length + 4 + header.length + 12 + 16 + 4 + plen) = rest.take plen := by
    have hbuf : buf = (before ++ head ++ header ++ iv ++ tag ++ bytesOf 4 plen) ++ rest := by simp [buf]
    rw [hbuf]
    exact subarray_eq_take (by simp; omega) (by simp; omega)
  have hnext : before.length + 4 + header.length + 12 + 16 + 4 + plen =
      before.length + ((head ++ (header ++ (iv ++ (tag ++ bytesOf 4 plen)))).length + plen) := by
    simp
    omega
  change decodeRecord gcm buf before.length key = _
  rw [← hnext]
  simp only [decodeRecord, hread, hheader, hparse, hivs, htags, hplens, hencs, bind_eq_bind, bind_some]
  cases gcm.decrypt key iv tag (rest.take plen) <;> rfl

/-- A cut in the framing leaves no room for one of the two lengths. -/
theorem decodeRecord_cut_framing (gcm : Gcm Key) (key : Key) {w : Written} {tag : Tag} {plen : Nat}
    (hhead : (encode w.frameMeta.stringify).length < 2 ^ 32) (before : List UInt8) {part : List UInt8}
    (hpart : part <+: framing w tag plen) (hlen : part.length < (framing w tag plen).length) :
    decodeRecord gcm (before ++ part) before.length key = none := by
  have hframing : (framing w tag plen).length = 4 + (encode w.frameMeta.stringify).length + 12 + 16 + 4 := by
    simp [framing, w.iv.2]
    omega
  by_cases hfour : part.length < 4
  · have hnone : readUInt32BE (before ++ part) before.length = none := readUInt32BE_of_lt (by simp; omega)
    simp [decodeRecord, hnone]
  · -- the first length is there, and it says where the second one would be
    obtain ⟨rest, rfl⟩ : bytesOf 4 (encode w.frameMeta.stringify).length <+: part :=
      prefix_of_prefix_length_le (prefix_append _ _) hpart (by simpa using hfour)
    have hread := @readUInt32BE_append before rest _ _ hhead rfl
    have hnone : readUInt32BE (before ++ (bytesOf 4 (encode w.frameMeta.stringify).length ++ rest))
        (before.length + 4 + (encode w.frameMeta.stringify).length + 12 + 16) = none := by
      apply readUInt32BE_of_lt
      simp only [length_append] at hlen ⊢
      omega
    simp [decodeRecord, hread, hnone]

/-- A record is read back wherever it stands, and a record that is cut is not read. -/
theorem reads_encodeRecord {gcm : Gcm Key} {key : Key} {w : Written} {bytes : List UInt8}
    (hw : gcm.Authentic key w.iv w.payload) (h : encodeRecord gcm w key = some bytes) :
    (reader gcm key).Reads (w.frameMeta, w.payload) bytes := by
  obtain ⟨hhead, hplen, rfl⟩ := encodeRecord_cases h
  constructor
  · intro before after
    have hdecode := decodeRecord_framing gcm key (gcm.encrypt key w.iv w.payload).2 hhead hplen before
      ((gcm.encrypt key w.iv w.payload).1 ++ after)
    rw [take_left, hw.inverts] at hdecode
    simp [reader, hdecode]
  · intro before part hpart hne
    by_cases hlen : part.length < (framing w (gcm.encrypt key w.iv w.payload).2
        (gcm.encrypt key w.iv w.payload).1.length).length
    · have hin := prefix_of_prefix_length_le hpart (prefix_append _ _) hlen.le
      simp [reader, decodeRecord_cut_framing gcm key hhead before hin hlen]
    · -- only encrypted bytes are missing, and what is left of them has another tag
      obtain ⟨rest, rfl⟩ := prefix_of_prefix_length_le (prefix_append _ _) hpart (not_lt.mp hlen)
      have hrest : rest <+: (gcm.encrypt key w.iv w.payload).1 := by simpa using hpart
      have hother : rest ≠ (gcm.encrypt key w.iv w.payload).1 := fun heq => hne (by rw [heq])
      have hdecode := decodeRecord_framing gcm key (gcm.encrypt key w.iv w.payload).2 hhead hplen before rest
      rw [take_of_length_le hrest.length_le, hw.rejects rest hother] at hdecode
      simp [reader, hdecode]

/-! ## A recording -/

theorem forall₂_reads {gcm : Gcm Key} {key : Key} {ws : List Written} {recs : List (List UInt8)}
    (hws : ∀ w ∈ ws, gcm.Authentic key w.iv w.payload)
    (hrecs : Forall₂ (fun w bytes => encodeRecord gcm w key = some bytes) ws recs) :
    Forall₂ (reader gcm key).Reads (ws.map fun w => (w.frameMeta, w.payload)) recs := by
  induction hrecs with
  | nil => exact .nil
  | cons hw _ ih =>
    obtain ⟨hfirst, hws⟩ := forall_mem_cons.mp hws
    exact .cons (reads_encodeRecord hfirst hw) (ih hws)

/-- A recording gives back what was written. Cut anywhere, it gives back the records that are complete, and then it ends
where the file ends or it throws. -/
theorem readAll_recording (gcm : Gcm Key) (key : Key) (ws : List Written) (recs : List (List UInt8))
    (hws : ∀ w ∈ ws, gcm.Authentic key w.iv w.payload)
    (hrecs : Forall₂ (fun w bytes => encodeRecord gcm w key = some bytes) ws recs) :
    (reader gcm key).readAll recs.flatten 0 =
      (ws.map fun w => (w.frameMeta, w.payload), .stopped recs.flatten.length) ∧
    ∀ buf, buf <+: recs.flatten → ∃ k ≤ recs.length,
      (recs.take k).flatten <+: buf ∧ (k < recs.length → ¬ (recs.take (k + 1)).flatten <+: buf) ∧
      (reader gcm key).readAll buf 0 = ((ws.take k).map fun w => (w.frameMeta, w.payload),
          if (recs.take k).flatten = buf then .stopped buf.length else .threw) := by
  have hreads := forall₂_reads hws hrecs
  refine ⟨Records.readAll_flatten hreads, fun buf hbuf => ?_⟩
  obtain ⟨k, hk, hin, hnext, hread⟩ := Records.readAll_prefix hreads [] hbuf
  exact ⟨k, hk, hin, hnext, by simpa using hread⟩

/-- What `aes-256-gcm` does with one key for two payloads, each with its own `iv`. -/
def sampleGcm : Gcm (List UInt8) where
  encrypt _ iv _ :=
    if iv.1 = replicate 12 0 then
      ([187, 201, 47], ⟨[243, 237, 41, 52, 1, 134, 205, 190, 159, 141, 193, 96, 6, 98, 215, 47], rfl⟩)
    else ([], ⟨[93, 231, 117, 237, 224, 80, 224, 117, 143, 78, 150, 226, 36, 221, 142, 81], rfl⟩)
  decrypt _ iv tag enc :=
    if iv = replicate 12 0 ∧ enc = [187, 201, 47] ∧
        tag = [243, 237, 41, 52, 1, 134, 205, 190, 159, 141, 193, 96, 6, 98, 215, 47] then some [117, 110, 111]
    else if iv = replicate 12 1 ∧ enc = [] ∧
        tag = [93, 231, 117, 237, 224, 80, 224, 117, 143, 78, 150, 226, 36, 221, 142, 81] then some []
    else none

def sampleWritten : List Written :=
  [⟨.obj [(text "full", .bool true)], [117, 110, 111], ⟨replicate 12 0, rfl⟩⟩,
    ⟨.obj [(text "full", .bool false)], [], ⟨replicate 12 1, rfl⟩⟩]

def sampleRecords : List (List UInt8) :=
  sampleWritten.filterMap fun w => encodeRecord sampleGcm w (replicate 32 0)

theorem readAll_recording_sampleRecords : (reader sampleGcm (replicate 32 0)).readAll sampleRecords.flatten 0 =
      (sampleWritten.map fun w => (w.frameMeta, w.payload), .stopped sampleRecords.flatten.length) := by
  have hws : ∀ w ∈ sampleWritten, sampleGcm.Authentic (replicate 32 0) w.iv w.payload := by
    simp only [sampleWritten, forall_mem_cons, not_mem_nil, false_implies, implies_true, and_true]
    exact ⟨⟨rfl, fun enc hne => by simp_all [sampleGcm]⟩, ⟨rfl, fun enc hne => by simp_all [sampleGcm]⟩⟩
  have hmap : sampleWritten.map (fun w => encodeRecord sampleGcm w (replicate 32 0)) = sampleRecords.map some := by
    decide
  have hrecs : Forall₂ (fun w bytes => encodeRecord sampleGcm w (replicate 32 0) = some bytes) sampleWritten
      sampleRecords := by
    rw [← forall₂_eq_eq_eq, forall₂_map_left_iff, forall₂_map_right_iff] at hmap
    exact hmap
  exact (readAll_recording sampleGcm (replicate 32 0) sampleWritten sampleRecords hws hrecs).1

end Rcp.RecordFormat
