-- SUMMARY: The OID reader of the certificate collector, the identifiers it reads as they are, and the contents it confuses.
import Tracenium.Lib.ByteNumerals
import Tracenium.Lib.Numerals
import Tracenium.Lib.Segments

/-!
`readTlv` and `decodeOid` of `src/plugins/cdp/der.ts`. The reader takes the first two arcs from the first byte, which
is the whole first subidentifier only while that is below 128, and it reads a group whatever it begins with.
-/

open Utf16 Json Base128 List UInt8

namespace Cdp

def TAG_OID : UInt8 := 0x06
def MAX_OID_BYTES : Nat := 64
def MAX_SAFE_INTEGER : Nat := 2 ^ 53 - 1

/-- `end'` is the offset after the content. -/
structure Tlv where
  tag : UInt8
  (headerStart start end' next : Nat)
  deriving DecidableEq

/-- The length, and how long the header is. -/
def readLength (buf : List UInt8) (offset : Nat) (lengthByte : UInt8) : Option (Nat × Nat) :=
  if lengthByte < 0x80 then some (lengthByte.toNat, 2)
  else if lengthByte = 0x80 then none
  else
    let numBytes := (lengthByte &&& 0x7F).toNat
    if 4 < numBytes ∨ buf.length < offset + 2 + numBytes then none
    else some (BigEndian.value ((buf.drop (offset + 2)).take numBytes), 2 + numBytes)

/-- The offsets of callers are not negative. -/
def readTlv (buf : List UInt8) (offset : Nat) : Option Tlv :=
  if buf.length < offset + 2 then none
  else
    match readLength buf offset (buf.getD (offset + 1) 0) with
    | none => none
    | some (length, headerLen) =>
      let start := offset + headerLen
      let stop := start + length
      if buf.length < stop then none else some ⟨buf.getD offset 0, offset, start, stop, stop⟩

def slice (buf : List UInt8) (start stop : Nat) : List UInt8 := (buf.drop start).take (stop - start)

/-- The loop of `decodeOid` over the bytes after the first: the arcs that it pushes. -/
def readArcs : Nat → Bool → List UInt8 → Option (List Nat)
  | _, pending, [] => if pending then none else some []
  | value, _, byte :: bytes =>
    if MAX_SAFE_INTEGER < value * 128 then none
    else
      let value := value * 128 + (byte &&& 0x7F).toNat
      if byte &&& 0x80 = 0 then (readArcs 0 false bytes).map (value :: ·) else readArcs value true bytes

/-- `parts.join(".")`. -/
def join (parts : List Nat) : Str := Segments.spell 0x2E (parts.map decimal)

def decodeOid (buf : List UInt8) : Option Tlv → Option Str
  | none => none
  | some tlv =>
    let len := tlv.end' - tlv.start
    if tlv.tag ≠ TAG_OID ∨ len = 0 ∨ MAX_OID_BYTES < len then none
    else
      let first := (buf.getD tlv.start 0).toNat
      (readArcs 0 false (slice buf (tlv.start + 1) tlv.end')).map fun arcs => join (first / 40 :: first % 40 :: arcs)

/-! ## Arcs -/

section Arcs

variable {value : Nat} {pending : Bool} {byte : UInt8} {bytes : List UInt8}

theorem and_eq_zero_iff (byte : UInt8) : byte &&& 0x80 = 0 ↔ ¬ isOpen byte := by
  have hall : ∀ n < 256, (UInt8.ofNat n &&& 0x80 = 0 ↔ ¬ isOpen (UInt8.ofNat n)) := by decide +kernel
  have hbyte := hall byte.toNat byte.toNat_lt
  rwa [UInt8.ofNat_toNat] at hbyte

theorem toNat_and (byte : UInt8) : (byte &&& 0x7F).toNat = byte.toNat % 128 := by
  exact Nat.and_two_pow_sub_one_eq_mod _ 7

/-- The arcs are read unless one does not end, or does not fit. -/
theorem readArcs_eq : readArcs value pending bytes =
    if (bytes = [] ∧ pending) ∨ IsPending bytes ∨ ∃ n ∈ arcsFrom value bytes, MAX_SAFE_INTEGER < n then none
    else some (arcsFrom value bytes) := by
  induction bytes generalizing value pending with
  | nil => cases pending <;> simp [readArcs, isPending_nil, arcsFrom]
  | cons byte bytes ih =>
    have hvalue : value * 128 + (byte &&& 0x7F).toNat = shift value byte := by rw [toNat_and, shift]
    rw [readArcs]
    rw [hvalue]
    by_cases hlarge : MAX_SAFE_INTEGER < value * 128
    · -- the group does not end, or is too large
      have hbad : IsPending (byte :: bytes) ∨ ∃ n ∈ arcsFrom value (byte :: bytes), MAX_SAFE_INTEGER < n := by
        by_cases hpending : IsPending (byte :: bytes)
        · exact .inl hpending
        · exact .inr (exists_arc_ge (cons_ne_nil _ _) hpending hlarge)
      rw [if_pos hlarge, if_pos (.inr hbad)]
    · rw [if_neg hlarge]
      by_cases hopen : isOpen byte
      · rw [if_neg (by simp [and_eq_zero_iff, hopen]), ih, arcsFrom_open hopen]
        by_cases hnil : bytes = []
        · simp [hnil, isPending_singleton, hopen]
        · simp [hnil, isPending_cons]
      · have hfits : ¬ MAX_SAFE_INTEGER < shift value byte := by
          simp only [MAX_SAFE_INTEGER, shift] at hlarge ⊢
          omega
        have hpending : IsPending (byte :: bytes) ↔ IsPending bytes := by
          by_cases hnil : bytes = []
          · simp [hnil, isPending_singleton, hopen, isPending_nil]
          · exact isPending_cons hnil
        rw [if_pos ((and_eq_zero_iff byte).mpr hopen), ih, arcsFrom_closed hopen]
        simp only [hpending, mem_cons, exists_eq_or_imp, hfits, false_or, reduceCtorEq, and_false, false_and]
        split <;> simp

end Arcs

/-! ## Contents -/

def contentOf (buf : List UInt8) (tlv : Tlv) : List UInt8 := slice buf tlv.start tlv.end'

def IsOid (buf : List UInt8) (tlv : Tlv) : Prop := tlv.tag = TAG_OID ∧ ∃ offset, readTlv buf offset = some tlv

/-- There is a first byte and there are not too many, and the arcs after the first two end and fit. -/
structure IsRead (content : List UInt8) : Prop where
  ne_nil : content ≠ []
  length_le : content.length ≤ MAX_OID_BYTES
  ends : ¬ IsPending content.tail
  fits : ∀ n ∈ arcs content.tail, n ≤ MAX_SAFE_INTEGER

/-- Without what the groups after the first byte begin with and do not need. -/
def unpadded (content : List UInt8) : List UInt8 := content.headD 0 :: unpad content.tail

def partsOf (content : List UInt8) : List Nat :=
  (content.headD 0).toNat / 40 :: (content.headD 0).toNat % 40 :: arcs content.tail

section Contents

variable {buf buf' content content' bytes : List UInt8} {offset : Nat} {tlv tlv' : Tlv} {byte : UInt8}

theorem readTlv_bounds (h : readTlv buf offset = some tlv) : tlv.start ≤ tlv.end' ∧ tlv.end' ≤ buf.length := by
  unfold readTlv at h
  split_ifs at h with hshort
  split at h
  · cases h
  · dsimp only at h
    split_ifs at h with hfits
    cases h
    dsimp only
    omega

theorem length_contentOf (h : IsOid buf tlv) : (contentOf buf tlv).length = tlv.end' - tlv.start := by
  obtain ⟨_, offset, hread⟩ := h
  have hbounds := readTlv_bounds hread
  simp only [contentOf, slice, length_take, length_drop]
  omega

theorem contentOf_eq (h : tlv.start < tlv.end' ∧ tlv.end' ≤ buf.length) :
    contentOf buf tlv = buf.getD tlv.start 0 :: slice buf (tlv.start + 1) tlv.end' := by
  obtain ⟨k, hk⟩ := Nat.exists_eq_add_of_lt h.1
  have hstart : tlv.start < buf.length := by omega
  have hlen : tlv.end' - tlv.start = tlv.end' - (tlv.start + 1) + 1 := by omega
  rw [contentOf, slice, drop_eq_getElem_cons hstart, hlen, take_succ_cons, slice]
  simp [hstart]

theorem decodeOid_of_isRead (h : IsOid buf tlv) (hread : IsRead (contentOf buf tlv)) :
    decodeOid buf (some tlv) = some (join (partsOf (contentOf buf tlv))) := by
  have hlength := length_contentOf h
  have hpos := length_pos_of_ne_nil hread.ne_nil
  have hle := hread.length_le
  obtain ⟨htag, offset, hoffset⟩ := h
  have hcontent : contentOf buf tlv = _ := contentOf_eq ⟨by omega, (readTlv_bounds hoffset).2⟩
  have hends := hread.ends
  have hfits := hread.fits
  rw [hcontent, tail_cons] at hends hfits
  have hgood : ¬ ((slice buf (tlv.start + 1) tlv.end' = [] ∧ false) ∨
      IsPending (slice buf (tlv.start + 1) tlv.end') ∨
      ∃ n ∈ arcsFrom 0 (slice buf (tlv.start + 1) tlv.end'), MAX_SAFE_INTEGER < n) := by
    rintro (⟨_, hfalse⟩ | hpending | ⟨n, hn, hlarge⟩)
    · cases hfalse
    · exact hends hpending
    · exact absurd (hfits n hn) (by omega)
  have hguard : ¬ (tlv.tag ≠ TAG_OID ∨ tlv.end' - tlv.start = 0 ∨ MAX_OID_BYTES < tlv.end' - tlv.start) := by
    simp only [htag, ne_eq, not_true_eq_false, false_or]
    omega
  rw [decodeOid, if_neg hguard, readArcs_eq, if_neg hgood, hcontent]
  rfl

theorem decodeOid_of_not_isRead (h : IsOid buf tlv) (hread : ¬ IsRead (contentOf buf tlv)) :
    decodeOid buf (some tlv) = none := by
  have hlength := length_contentOf h
  obtain ⟨htag, offset, hoffset⟩ := h
  rw [decodeOid]
  split_ifs with hguard
  · rfl
  · have hguard : ¬ tlv.end' - tlv.start = 0 ∧ ¬ MAX_OID_BYTES < tlv.end' - tlv.start := by
      constructor
      · exact fun h => hguard (.inr (.inl h))
      · exact fun h => hguard (.inr (.inr h))
    have hcontent : contentOf buf tlv = _ := contentOf_eq ⟨by omega, (readTlv_bounds hoffset).2⟩
    rw [readArcs_eq, if_pos, Option.map_none]
    by_contra hgood
    refine hread ⟨by simp [hcontent], by omega, ?_, ?_⟩
    · rw [hcontent, tail_cons]
      exact fun hpending => hgood (.inr (.inl hpending))
    · rw [hcontent, tail_cons]
      exact fun n hn => Nat.le_of_not_lt fun hlarge => hgood (.inr (.inr ⟨n, hn, hlarge⟩))

/-- Parts are told apart by what is joined of them. -/
theorem join_inj {parts parts' : List Nat} (h : parts ≠ []) (h' : parts' ≠ []) :
    join parts = join parts' ↔ parts = parts' := by
  have hclean (parts : List Nat) : Segments.Clean (· == (0x2E : UInt16)) (parts.map decimal) := by
    intro s hs u hu
    obtain ⟨n, _, rfl⟩ := mem_map.mp hs
    have hdigit := isDigit_decimal n u hu
    simp only [beq_eq_false_iff_ne]
    rintro rfl
    exact absurd hdigit (by decide)
  have hsplit {parts : List Nat} (h : parts ≠ []) :
      (join parts).splitOnP (· == (0x2E : UInt16)) = parts.map decimal :=
    Segments.splitOnP_spell_of_clean (by simp) (by simpa using h) (hclean parts)
  constructor
  · intro heq
    refine map_injective_iff.mpr Numerals.decimal_injective ?_
    rw [← hsplit h, ← hsplit h', heq]
  · exact congrArg join

theorem partsOf_eq_iff (h : IsRead content) (h' : IsRead content') :
    partsOf content = partsOf content' ↔ unpadded content = unpadded content' := by
  have hhead : ((content.headD 0).toNat / 40 = (content'.headD 0).toNat / 40 ∧
      (content.headD 0).toNat % 40 = (content'.headD 0).toNat % 40) ↔ content.headD 0 = content'.headD 0 := by
    rw [← UInt8.toNat_inj]
    omega
  rw [partsOf, partsOf, unpadded, unpadded, cons.injEq, cons.injEq, cons.injEq,
    arcs_eq_iff h.ends h'.ends, ← and_assoc, hhead]

/-- Two contents that are read are confused when they differ in superfluous bytes only. -/
theorem decodeOid_eq_iff (h : IsOid buf tlv) (h' : IsOid buf' tlv') :
    (∃ s, decodeOid buf (some tlv) = some s ∧ decodeOid buf' (some tlv') = some s) ↔
      IsRead (contentOf buf tlv) ∧ IsRead (contentOf buf' tlv') ∧
        unpadded (contentOf buf tlv) = unpadded (contentOf buf' tlv') := by
  by_cases hread : IsRead (contentOf buf tlv)
  · by_cases hread' : IsRead (contentOf buf' tlv')
    · have hparts : join (partsOf (contentOf buf tlv)) = join (partsOf (contentOf buf' tlv')) ↔
          partsOf (contentOf buf tlv) = partsOf (contentOf buf' tlv') :=
        join_inj (cons_ne_nil _ _) (cons_ne_nil _ _)
      rw [decodeOid_of_isRead h hread, decodeOid_of_isRead h' hread', ← partsOf_eq_iff hread hread', ← hparts]
      simp [hread, hread', eq_comm]
    · simp [decodeOid_of_not_isRead h' hread', hread']
  · simp [decodeOid_of_not_isRead h hread, hread]

/-- Only of the first byte it is not asked whether the group ends. -/
theorem decodeOid_pending (h : IsOid buf tlv) (hpending : IsPending (contentOf buf tlv)) :
    decodeOid buf (some tlv) = none ↔ (contentOf buf tlv).length ≠ 1 := by
  constructor
  · intro hnone hone
    obtain ⟨byte, hbyte⟩ := length_eq_one_iff.mp hone
    have hread : IsRead (contentOf buf tlv) := by
      refine ⟨by simp [hbyte], by simp [hbyte, MAX_OID_BYTES], ?_, ?_⟩
      · simpa [hbyte] using isPending_nil
      · simp [hbyte, arcs, arcsFrom]
    rw [decodeOid_of_isRead h hread] at hnone
    cases hnone
  · intro hlength
    refine decodeOid_of_not_isRead h fun hread => ?_
    obtain ⟨byte, bytes, hcontent⟩ := exists_cons_of_ne_nil hread.ne_nil
    have hends := hread.ends
    rw [hcontent] at hlength hpending hends
    have hbytes : bytes ≠ [] := by
      rintro rfl
      exact hlength rfl
    exact hends ((isPending_cons hbytes).mp hpending)

end Contents

/-! ## Identifiers -/

structure Oid where
  first : Nat
  second : Nat
  rest : List Nat
  first_le : first ≤ 2
  second_lt : first < 2 → second < 40

namespace Oid

variable (oid : Oid)

def subidentifiers : List Nat := (40 * oid.first + oid.second) :: oid.rest

def content : List UInt8 := encodeAll oid.subidentifiers

/-- The tag, the length of a content with less than 128 bytes, and the content. -/
def encoding : List UInt8 := TAG_OID :: ofNat oid.content.length :: oid.content

def dotted : Str := join (oid.first :: oid.second :: oid.rest)

variable {oid}

theorem readTlv_encoding (h : oid.content.length ≤ MAX_OID_BYTES) :
    readTlv oid.encoding 0 = some ⟨TAG_OID, 0, 2, 2 + oid.content.length, 2 + oid.content.length⟩ := by
  have hle : oid.content.length ≤ 64 := h
  have hbyte : (ofNat oid.content.length).toNat = oid.content.length := by
    rw [toNat_ofNat']
    omega
  have hshort : ofNat oid.content.length < 0x80 := by
    rw [lt_iff_toNat_lt, hbyte]
    exact Nat.lt_of_le_of_lt hle (by decide)
  simp [readTlv, encoding, readLength, hshort]
  omega

theorem isOid_encoding (h : oid.content.length ≤ MAX_OID_BYTES) :
    IsOid oid.encoding ⟨TAG_OID, 0, 2, 2 + oid.content.length, 2 + oid.content.length⟩ :=
  ⟨rfl, 0, readTlv_encoding h⟩

theorem contentOf_encoding : contentOf oid.encoding ⟨TAG_OID, 0, 2, 2 + oid.content.length, 2 + oid.content.length⟩ =
    oid.content := by
  simp [contentOf, slice, encoding]

/-- The first byte is the first subidentifier exactly when the second arc is below 40. -/
theorem headD_content (h : oid.second < 40) : (oid.content.headD 0).toNat = 40 * oid.first + oid.second ∧
    oid.content.tail = encodeAll oid.rest := by
  have hfirst := oid.first_le
  have hcontent : oid.content = ofNat (40 * oid.first + oid.second) :: encodeAll oid.rest := by
    rw [content, subidentifiers, encodeAll, flatMap_cons, encode_of_lt (by omega)]
    rfl
  rw [hcontent]
  refine ⟨?_, rfl⟩
  rw [headD_cons, toNat_ofNat']
  omega

theorem le_headD_content (h : ¬ oid.second < 40) : 120 ≤ (oid.content.headD 0).toNat := by
  have hfirst : oid.first = 2 := by
    have := oid.first_le
    have := oid.second_lt
    omega
  rw [content, subidentifiers, encodeAll, flatMap_cons]
  by_cases hsmall : 40 * oid.first + oid.second < 128
  · rw [encode_of_lt hsmall, singleton_append, headD_cons, toNat_ofNat']
    omega
  · obtain ⟨b, bs, hencode, hb⟩ := encode_of_ge (Nat.le_of_not_lt hsmall)
    have hb := isOpen_iff.mp hb
    rw [hencode, cons_append, headD_cons]
    omega

theorem decodeOid_encoding (hlength : oid.content.length ≤ MAX_OID_BYTES)
    (hfits : ∀ n ∈ oid.subidentifiers, n ≤ MAX_SAFE_INTEGER) :
    decodeOid oid.encoding (readTlv oid.encoding 0) = some oid.dotted ↔ oid.second < 40 := by
  have hoid := isOid_encoding hlength
  have hcontent : contentOf oid.encoding _ = oid.content := contentOf_encoding
  rw [readTlv_encoding hlength]
  constructor
  · intro hdecode
    by_contra hsecond
    have hhead := le_headD_content hsecond
    have hread : IsRead oid.content := by
      by_contra hread
      rw [decodeOid_of_not_isRead hoid (by rwa [hcontent])] at hdecode
      cases hdecode
    rw [decodeOid_of_isRead hoid (by rwa [hcontent]), hcontent] at hdecode
    have hparts : partsOf oid.content = oid.first :: oid.second :: oid.rest :=
      (join_inj (cons_ne_nil _ _) (cons_ne_nil _ _)).mp (Option.some.inj hdecode)
    have hfirst : (oid.content.headD 0).toNat / 40 = oid.first := (cons.inj hparts).1
    have hle := oid.first_le
    omega
  · intro hsecond
    obtain ⟨hhead, htail⟩ := headD_content hsecond
    have hread : IsRead oid.content := by
      refine ⟨?_, hlength, ?_, ?_⟩
      · intro hnil
        rw [content, subidentifiers, encodeAll, flatMap_cons, encode] at hnil
        simp at hnil
      · rw [htail]
        exact isPending_encodeAll _
      · rw [htail, arcs_encodeAll]
        exact fun n hn => hfits n (mem_cons_of_mem _ hn)
    have hparts : partsOf oid.content = oid.first :: oid.second :: oid.rest := by
      rw [partsOf, hhead, htail, arcs_encodeAll]
      simp only [cons.injEq, and_true]
      omega
    rw [decodeOid_of_isRead hoid (by rwa [hcontent]), hcontent, hparts, dotted]

end Oid

/-- Identifiers are read back when their second arc is below 40, contents that do not end are refused when they are not
one byte, and contents are told apart unless they differ in superfluous bytes only. -/
theorem decodeOid_exact (oid : Oid) (buf buf' : List UInt8) (tlv tlv' : Tlv) :
    (oid.content.length ≤ MAX_OID_BYTES → (∀ n ∈ oid.subidentifiers, n ≤ MAX_SAFE_INTEGER) →
      (decodeOid oid.encoding (readTlv oid.encoding 0) = some oid.dotted ↔ oid.second < 40)) ∧
    (IsOid buf tlv → IsPending (contentOf buf tlv) →
      (decodeOid buf (some tlv) = none ↔ (contentOf buf tlv).length ≠ 1)) ∧ (IsOid buf tlv → IsOid buf' tlv' →
      ((contentOf buf tlv ≠ contentOf buf' tlv' →
          ¬ ∃ s, decodeOid buf (some tlv) = some s ∧ decodeOid buf' (some tlv') = some s) ↔
        (IsRead (contentOf buf tlv) → IsRead (contentOf buf' tlv') →
          unpadded (contentOf buf tlv) = unpadded (contentOf buf' tlv') →
          contentOf buf tlv = contentOf buf' tlv'))) := by
  refine ⟨Oid.decodeOid_encoding, decodeOid_pending, fun h h' => ?_⟩
  rw [decodeOid_eq_iff h h']
  constructor
  · intro htold hread hread' hsame
    by_contra hne
    exact htold hne ⟨hread, hread', hsame⟩
  · rintro hsame hne ⟨hread, hread', heq⟩
    exact hne (hsame hread hread' heq)

section Samples

/-- `2.999.3`. -/
def sampleOid : Oid := ⟨2, 999, [3], by decide, by decide⟩

/-- `1.2.3`, and the same with a superfluous byte. -/
def sampleShort : List UInt8 := [0x06, 0x02, 0x2A, 0x03]
def samplePadded : List UInt8 := [0x06, 0x03, 0x2A, 0x80, 0x03]

/-- A content that does not end, and one of a single byte that does not. -/
def sampleOpen : List UInt8 := [0x06, 0x02, 0x2A, 0x80]
def sampleByte : List UInt8 := [0x06, 0x01, 0x88]

/-- What `readTlv` makes of them. -/
def sampleTlv (length : Nat) : Tlv := ⟨TAG_OID, 0, 2, 2 + length, 2 + length⟩

/-- `2.999.3` is read as another identifier, a content of one byte that does not end is read, and a superfluous byte
makes no difference. -/
theorem decodeOid_confuses : decodeOid sampleOid.encoding (readTlv sampleOid.encoding 0) ≠ some sampleOid.dotted ∧
    (IsPending (contentOf sampleByte (sampleTlv 1)) ∧
      decodeOid sampleByte (readTlv sampleByte 0) = some (text "3.16")) ∧
    contentOf sampleShort (sampleTlv 2) ≠ contentOf samplePadded (sampleTlv 3) ∧
    decodeOid sampleShort (readTlv sampleShort 0) = some (text "1.2.3") ∧
    decodeOid samplePadded (readTlv samplePadded 0) = some (text "1.2.3") := by
  decide +kernel

theorem decodeOid_exact_samples :
    (decodeOid sampleOid.encoding (readTlv sampleOid.encoding 0) = some sampleOid.dotted ↔ sampleOid.second < 40) ∧
    (decodeOid sampleOpen (some (sampleTlv 2)) = none ↔ (contentOf sampleOpen (sampleTlv 2)).length ≠ 1) ∧
    ((contentOf sampleShort (sampleTlv 2) ≠ contentOf samplePadded (sampleTlv 3) →
        ¬ ∃ s, decodeOid sampleShort (some (sampleTlv 2)) = some s ∧
          decodeOid samplePadded (some (sampleTlv 3)) = some s) ↔
      (IsRead (contentOf sampleShort (sampleTlv 2)) → IsRead (contentOf samplePadded (sampleTlv 3)) →
        unpadded (contentOf sampleShort (sampleTlv 2)) = unpadded (contentOf samplePadded (sampleTlv 3)) →
        contentOf sampleShort (sampleTlv 2) = contentOf samplePadded (sampleTlv 3))) := by
  obtain ⟨hread, hopen, -⟩ := decodeOid_exact sampleOid sampleOpen sampleOpen (sampleTlv 2) (sampleTlv 2)
  obtain ⟨-, -, happart⟩ := decodeOid_exact sampleOid sampleShort samplePadded (sampleTlv 2) (sampleTlv 3)
  exact ⟨hread (by decide +kernel) (by decide +kernel), hopen ⟨rfl, 0, by decide +kernel⟩ (by decide +kernel),
    happart ⟨rfl, 0, by decide⟩ ⟨rfl, 0, by decide⟩⟩

end Samples

end Cdp
