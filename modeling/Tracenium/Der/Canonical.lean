-- SUMMARY: When the DER writer and reader agree: round trips, the parts of a sequence, and one encoding for each value.
import Tracenium.Der.Reader
import Mathlib.Data.List.Infix

/-! The reader takes any form of a length, modulo `2 ^ 32` and with a sign; the writer makes the shortest. -/

open BigEndian List UInt8 Option Nat

namespace Der

section Spec

/-- What is written is read back, and to its end. -/
def RoundTrips (tag : UInt8) (content : List UInt8) : Prop :=
  ∃ e t, tlv tag content = some e ∧ readTlv e 0 = some t ∧ t.tag = tag ∧ contentOf e t = content ∧ t.end' = e.length

def IsEncoding (e : List UInt8) : Prop := ∃ tag content, tlv tag content = some e

/-- The children of the sequence of the encodings are the encodings, in their order. -/
def Recovers (parts : List (List UInt8)) : Prop :=
  ∃ e t fuel cs, seq parts = some e ∧ readTlv e 0 = some t ∧ children fuel e t = some cs ∧ cs.map (rawOf e) = parts

/-- The writer throws, or the reader has the length back, behind any tag. -/
def DecodesLength (n : Nat) : Prop :=
  ∀ length, encodeLength n = some length → ∀ tag, isMultiByte tag = false →
      readLength (tag :: length) 0 (length.headD 0) = some (((tag :: length).length : Int), (n : Int))

/-- From its offset to its end, the buffer is what the writer makes of tag and content. -/
def Reproduced (buf : List UInt8) (t : Tlv) : Prop :=
  tlv t.tag (contentOf buf t) = some (rawOf buf t) ∧ ((rawOf buf t).length : Int) = t.end' - t.offset

/-- The length of the header at `p` is in its shortest form, and below `2 ^ 31`. -/
def IsShortest (buf : List UInt8) (p : Nat) : Prop :=
  let first := buf.getD (p + 1) 0
  let bytes := (buf.drop (p + 2)).take (first &&& 0x7F).toNat
  first < 0x80 ∨ IsMinimal bytes ∧ 0x80 ≤ value bytes ∧ value bytes < 2 ^ 31

instance (buf : List UInt8) (p : Nat) : Decidable (IsShortest buf p) := inferInstanceAs (Decidable (_ ∨ _))

def IsRead (buf : List UInt8) (t : Tlv) : Prop := readTlv buf 0 = some t ∧ t.end' = buf.length

end Spec

/-! ## Bytes -/

theorem not_lt_of_long {k : Nat} : ¬(0x80 ||| ofNat k) < 0x80 := by
  have hbits : ∀ b : BitVec 8, ¬(0x80#8 ||| b) < 0x80#8 := by decide
  exact fun h => hbits _ (lt_iff_toBitVec_lt.mp h)

theorem toNat_and_of_long {k : Nat} (h : k ≤ 4) : ((0x80 ||| ofNat k) &&& 0x7F).toNat = k := by
  match k, h with
  | 0, _ | 1, _ | 2, _ | 3, _ | 4, _ => rfl

theorem or_and_of_long {first : UInt8} (h : ¬first < 0x80) : 0x80 ||| (first &&& 0x7F) = first := by
  have hbits : ∀ b : BitVec 8, ¬b < 0x80#8 → 0x80#8 ||| (b &&& 0x7F#8) = b := by decide
  exact UInt8.toBitVec_inj.mp (hbits _ fun hlt => h (UInt8.lt_iff_toBitVec_lt.mpr hlt))

/-- How a header spells a length, in the byte behind the tag and in bytes of its own. -/
def Spells (first : UInt8) (bytes : List UInt8) (n : Nat) : Prop :=
  first < 0x80 ∧ bytes = [] ∧ n = first.toNat ∨
    ¬first < 0x80 ∧ bytes.length = (first &&& 0x7F).toNat ∧ bytes.length ≠ 0 ∧ bytes.length ≤ 4 ∧ n = value bytes

/-- A length is spelled in one way once the first byte is chosen. -/
theorem Spells.eq {first : UInt8} {a b : List UInt8} {n : Nat} (ha : Spells first a n) (hb : Spells first b n) :
    a = b := by
  rcases ha with ⟨hshort, rfl, -⟩ | ⟨hlong, hlen, -, -, hn⟩
  · rcases hb with ⟨-, rfl, -⟩ | ⟨hlong, -⟩
    · rfl
    · exact absurd hshort hlong
  · rcases hb with ⟨hshort, -⟩ | ⟨-, hlen', -, -, hn'⟩
    · exact absurd hshort hlong
    · exact eq_of_value_eq (hlen.trans hlen'.symm) (hn.symm.trans hn')

/-- The writer spells the length modulo `2 ^ 32`. -/
theorem exists_spells_of_encodeLength {n : Nat} :
    ∃ first bytes, encodeLength n = some (first :: bytes) ∧ Spells first bytes (n % 2 ^ 32) := by
  by_cases hn : n < 0x80
  · refine ⟨ofNat n, [], encodeLength_of_lt hn, .inl ⟨?_, rfl, ?_⟩⟩
    · rw [lt_iff_toNat_lt, toNat_ofNat']
      exact (mod_le _ _).trans_lt hn
    · rw [toNat_ofNat']
      omega
  · have hle := length_lengthBytes_le_four n
    refine ⟨_, _, encodeLength_of_le (not_lt.mp hn), .inr ⟨not_lt_of_long, ?_, ?_, hle, ?_⟩⟩
    · rw [toNat_and_of_long hle]
    · simpa using lengthBytes_ne_nil (by omega : n ≠ 0)
    · rw [value_lengthBytes]

/-- What a header of this form announces. -/
theorem announced_of_spells {buf rest bytes : List UInt8} {p n : Nat} {tag first : UInt8}
    (hdrop : buf.drop p = tag :: first :: bytes ++ rest) (htag : isMultiByte tag = false)
    (hspells : Spells first bytes n) : announced buf p = some (p + 2 + bytes.length, n) := by
  rcases hspells with ⟨hshort, rfl, rfl⟩ | ⟨hlong, hlen, hpos, hfour, rfl⟩
  · simp [announced, hdrop, htag, hshort]
  · have hwidth : ¬((first &&& 0x7F).toNat = 0 ∨ 4 < (first &&& 0x7F).toNat ∨
        (bytes ++ rest).length < (first &&& 0x7F).toNat) := by
      rw [← hlen, length_append]
      omega
    simp only [announced, hdrop, cons_append, htag, hlong, hwidth, if_false, Bool.false_eq_true]
    rw [← hlen, take_left]

variable {buf : List UInt8}

/-- Every header has this form. -/
theorem exists_spells_of_announced {p start n : Nat} (h : announced buf p = some (start, n)) :
    ∃ first bytes rest, buf.drop p = buf.getD p 0 :: first :: bytes ++ rest ∧ isMultiByte (buf.getD p 0) = false ∧
      start = p + 2 + bytes.length ∧ Spells first bytes n := by
  unfold announced at h
  split at h
  · rename_i tag first rest hdrop
    rw [getD_of_drop hdrop]
    dsimp only at h
    split_ifs at h with htag hshort hwidth
    · cases h
      exact ⟨first, [], rest, hdrop, by simpa using htag, rfl, .inl ⟨hshort, rfl, rfl⟩⟩
    · cases h
      have hlen : (rest.take (first &&& 0x7F).toNat).length = (first &&& 0x7F).toNat := by
        rw [length_take]
        omega
      refine ⟨first, _, rest.drop (first &&& 0x7F).toNat, ?_, by simpa using htag, by rw [hlen],
        .inr ⟨hshort, hlen, by omega, by omega, rfl⟩⟩
      rw [hdrop, cons_append, cons_append, take_append_drop]
  · cases h

/-! ## Parts of a buffer -/

theorem subarray_natCast {a b : Nat} (ha : a ≤ buf.length) (hb : b ≤ buf.length) :
    subarray buf a b = (buf.drop a).take (b - a) := by
  have hclamp : ∀ i : Nat, i ≤ buf.length → clamp buf.length i = i := by
    intro i hi
    simp only [clamp]
    omega
  rw [subarray, hclamp a ha, hclamp b hb]

theorem rawOf_eq {t : Tlv} {p : Nat} (hoffset : t.offset = p) (hp : p ≤ buf.length) :
    rawOf buf t = (buf.drop p).take (clamp buf.length t.end' - p) := by
  have hclamp : clamp buf.length t.offset = p := by
    simp only [clamp]
    omega
  rw [rawOf, subarray, hclamp]

/-- At `p` there is a value of less than `2 ^ 31` bytes. -/
structure Layout (buf : List UInt8) (p : Nat) (tag first : UInt8) (bytes content rest : List UInt8) : Prop where
  drop : buf.drop p = tag :: first :: (bytes ++ (content ++ rest))
  single : isMultiByte tag = false
  spells : Spells first bytes content.length
  small : content.length < 2 ^ 31

def valueAt (p : Nat) (tag : UInt8) (bytes content : List UInt8) : Tlv :=
  ⟨tag, p, p + 2 + bytes.length, content.length, p + 2 + bytes.length + content.length⟩

section Layout

variable {buf : List UInt8} {p : Nat} {tag first : UInt8} {bytes content rest : List UInt8}

theorem Layout.length (h : Layout buf p tag first bytes content rest) :
    buf.length = p + 2 + bytes.length + content.length + rest.length := by
  have hlen := length_of_drop h.drop (by simp)
  simp only [length_append, length_cons] at hlen
  omega

theorem Layout.readTlv (h : Layout buf p tag first bytes content rest) :
    readTlv buf p = some (valueAt p tag bytes content) := by
  have hlen := h.length
  have hread := announced_of_spells (by rw [h.drop]; rfl) h.single h.spells
  have hfits : ¬(buf.length : Int) < p + 2 + bytes.length + content.length := by omega
  rw [readTlv_natCast, hread, bind_some, getD_of_drop h.drop, signed_of_lt h.small]
  simp [hfits, valueAt]

theorem Layout.contentOf (h : Layout buf p tag first bytes content rest) :
    contentOf buf (valueAt p tag bytes content) = content := by
  have hlen := h.length
  have hdrop : buf.drop (p + 2 + bytes.length) = content ++ rest := by
    rw [← drop_drop, ← drop_drop, h.drop]
    simp
  have hsub := subarray_natCast (a := p + 2 + bytes.length) (b := p + 2 + bytes.length + content.length)
    (by omega : p + 2 + bytes.length ≤ buf.length) (by omega)
  rw [hdrop, Nat.add_sub_cancel_left, List.take_left] at hsub
  exact_mod_cast hsub

theorem Layout.rawOf (h : Layout buf p tag first bytes content rest) :
    rawOf buf (valueAt p tag bytes content) = tag :: first :: (bytes ++ content) := by
  have hlen := h.length
  have hsub := subarray_natCast (a := p) (b := p + 2 + bytes.length + content.length)
    (by omega : p ≤ buf.length) (by omega)
  have hdrop : buf.drop p = (tag :: first :: (bytes ++ content)) ++ rest := by simp [h.drop]
  have hsize : p + 2 + bytes.length + content.length - p = (tag :: first :: (bytes ++ content)).length := by
    simp only [length_cons, length_append]
    omega
  rw [hsize, hdrop, take_left] at hsub
  exact_mod_cast hsub

end Layout

/-- A value that does not end before its content has this layout. -/
theorem exists_layout {p : Nat} {t : Tlv} (h : readTlv buf p = some t) (hforward : t.start ≤ t.end') :
    ∃ first bytes content rest, Layout buf p t.tag first bytes content rest ∧ t = valueAt p t.tag bytes content := by
  obtain ⟨start, n, hread, hfits, ht⟩ := exists_announced h
  obtain ⟨-, -, -, hn⟩ := announced_bounds hread
  obtain ⟨first, bytes, tail, hdrop, hsingle, rfl, hspells⟩ := exists_spells_of_announced hread
  have hlen := length_of_drop hdrop (by simp)
  simp only [length_append, length_cons] at hlen
  subst ht
  dsimp only at hforward ⊢
  have hsmall : n < 2 ^ 31 := (signed_nonneg_iff hn).mp (by omega)
  rw [signed_of_lt hsmall] at hfits ⊢
  have htake : (tail.take n).length = n := by
    rw [length_take]
    omega
  refine ⟨first, bytes, tail.take n, tail.drop n, ⟨?_, hsingle, by rwa [htake], by rwa [htake]⟩, ?_⟩
  · rw [hdrop, take_append_drop]
    rfl
  · simp only [valueAt, htake]
    rfl

/-! ## Round trips -/

theorem exists_tlv (tag : UInt8) (content : List UInt8) : ∃ first bytes,
    tlv tag content = some (tag :: first :: (bytes ++ content)) ∧ Spells first bytes (content.length % 2 ^ 32) := by
  obtain ⟨first, bytes, hlength, hspells⟩ := exists_spells_of_encodeLength (n := content.length)
  exact ⟨first, bytes, by simp [tlv, hlength], hspells⟩

/-- What the reader makes of a written value, wherever it is. -/
theorem readTlv_of_tlv {buf content e rest : List UInt8} {p : Nat} {tag : UInt8} (htlv : tlv tag content = some e)
    (hsingle : isMultiByte tag = false) (hdrop : buf.drop p = e ++ rest) :
    announced buf p = some (p + (e.length - content.length), content.length % 2 ^ 32) := by
  obtain ⟨first, bytes, he, hspells⟩ := exists_tlv tag content
  cases he.symm.trans htlv
  have hheader : buf.drop p = tag :: first :: bytes ++ (content ++ rest) := by simp [hdrop]
  rw [announced_of_spells hheader hsingle hspells]
  simp only [length_cons, length_append]
  congr 2
  omega

theorem roundTrips_iff {tag : UInt8} (hsingle : isMultiByte tag = false) (content : List UInt8) :
    RoundTrips tag content ↔ content.length < 2 ^ 31 := by
  obtain ⟨first, bytes, he, hspells⟩ := exists_tlv tag content
  constructor
  · rintro ⟨e, t, he', hread, -, -, hstop⟩
    cases he.symm.trans he'
    have hdrop : (tag :: first :: (bytes ++ content)).drop 0 = (tag :: first :: (bytes ++ content)) ++ [] := by simp
    have hannounced := readTlv_of_tlv he hsingle hdrop
    obtain ⟨start, n, hheader, -, rfl⟩ := exists_announced (p := 0) hread
    cases hannounced.symm.trans hheader
    simp only [length_cons, length_append, signed_mod] at hstop
    exact signed_eq_self_iff.mp (by omega)
  · intro hsmall
    have hlayout : Layout (tag :: first :: (bytes ++ content)) 0 tag first bytes content [] :=
      ⟨by simp, hsingle, by rwa [mod_eq_of_lt (by omega)] at hspells, hsmall⟩
    refine ⟨_, _, he, hlayout.readTlv, rfl, hlayout.contentOf, ?_⟩
    simp only [valueAt, length_cons, length_append]
    omega

/-- The reader has a length back exactly below `2 ^ 31`. -/
theorem decodesLength_iff (n : Nat) : DecodesLength n ↔ n < 2 ^ 31 := by
  obtain ⟨first, bytes, hlength, hspells⟩ := exists_spells_of_encodeLength (n := n)
  have hread : ∀ tag, isMultiByte tag = false → readLength (tag :: first :: bytes) 0 first =
      some (((tag :: first :: bytes).length : Int), signed n) := by
    intro tag hsingle
    rw [readLength_eq (p := 0) rfl hsingle, announced_of_spells (p := 0) (by simp; rfl) hsingle hspells]
    simp only [map_some, signed_mod, length_cons]
    congr 2
    omega
  constructor
  · intro h
    have hsigned := (hread DER_SEQUENCE (by decide)).symm.trans (h _ hlength DER_SEQUENCE (by decide))
    simp only [some.injEq, Prod.mk.injEq, true_and] at hsigned
    exact signed_eq_self_iff.mp hsigned
  · rintro hsmall length hlength' tag hsingle
    cases hlength.symm.trans hlength'
    rw [← signed_of_lt hsmall]
    exact hread tag hsingle

/-! ## One encoding -/

theorem isMinimal_lengthBytes {n : Nat} (h : n < 2 ^ 32) : IsMinimal (lengthBytes n) := by
  induction n using Nat.strongRecOn with
  | ind n ih =>
    by_cases hn : n = 0
    · simp [hn, lengthBytes_zero, IsMinimal]
    · rw [lengthBytes_of_ne hn, mod_eq_of_lt h]
      by_cases hbyte : n < 256
      · have hlast : ofNat n ≠ 0 := by
          rw [ne_eq, ← UInt8.toNat_inj, UInt8.toNat_ofNat', Nat.mod_eq_of_lt hbyte]
          simpa using hn
        simpa [div_eq_of_lt hbyte, lengthBytes_zero, IsMinimal] using hlast
      · have hrest := ih (n / 256) (by omega) (by omega)
        have hne : lengthBytes (n / 256) ≠ [] := lengthBytes_ne_nil (by omega)
        rw [IsMinimal, head?_append_of_ne_nil _ hne]
        exact hrest

/-- The writer makes the shortest form. -/
theorem encodeLength_of_spells {first : UInt8} {bytes : List UInt8} {n : Nat} (hspells : Spells first bytes n)
    (hshortest : first < 0x80 ∨ IsMinimal bytes ∧ 0x80 ≤ n) : encodeLength n = some (first :: bytes) := by
  rcases hspells with ⟨hshort, rfl, rfl⟩ | ⟨hlong, hlen, -, hfour, rfl⟩
  · rw [encodeLength_of_lt (UInt8.lt_iff_toNat_lt.mp hshort), UInt8.ofNat_toNat]
  · obtain ⟨hmin, hn⟩ := hshortest.resolve_left hlong
    rw [encodeLength_of_le hn, lengthBytes_value hmin hfour, hlen, UInt8.ofNat_toNat, or_and_of_long hlong]

theorem shortest_of_encodeLength {first : UInt8} {bytes : List UInt8} {n : Nat} (hn : n < 2 ^ 31)
    (h : encodeLength n = some (first :: bytes)) : first < 0x80 ∨ IsMinimal bytes ∧ 0x80 ≤ n := by
  by_cases hshort : n < 0x80
  · rw [encodeLength_of_lt hshort] at h
    cases h
    refine .inl ?_
    exact (mod_le _ _).trans_lt hshort
  · rw [encodeLength_of_le (not_lt.mp hshort)] at h
    cases h
    exact .inr ⟨isMinimal_lengthBytes (by omega), not_lt.mp hshort⟩

/-- The condition on a header, in terms of what it spells. -/
theorem isShortest_iff {buf bytes rest : List UInt8} {p n : Nat} {tag first : UInt8}
    (hdrop : buf.drop p = tag :: first :: (bytes ++ rest)) (hspells : Spells first bytes n) :
    IsShortest buf p ↔ n < 2 ^ 31 ∧ (first < 0x80 ∨ IsMinimal bytes ∧ 0x80 ≤ n) := by
  have hfirst : buf.getD (p + 1) 0 = first := getD_of_drop (by rw [← drop_drop, hdrop]; rfl)
  have hnext : buf.drop (p + 2) = bytes ++ rest := by
    rw [← drop_drop, hdrop]
    rfl
  simp only [IsShortest, hfirst, hnext]
  rcases hspells with ⟨hshort, -, rfl⟩ | ⟨hlong, hlen, -, -, rfl⟩
  · have := first.toNat_lt
    simp only [hshort, true_or, and_true, true_iff]
    omega
  · rw [← hlen, take_left]
    tauto

/-- What the writer makes of tag and content is a part of the buffer only below `2 ^ 31` bytes. -/
theorem forward_of_reproduced {p : Nat} {t : Tlv} (hread : readTlv buf p = some t)
    (h : Reproduced buf t) : t.start ≤ t.end' := by
  obtain ⟨htlv, hlength⟩ := h
  obtain ⟨start, n, hheader, -, rfl⟩ := exists_announced hread
  obtain ⟨hstart, -, hbuf, -⟩ := announced_bounds hheader
  obtain ⟨-, -, -, -, hsingle, -⟩ := exists_spells_of_announced hheader
  have hdrop := (take_append_drop (clamp buf.length (start + signed n) - p) (buf.drop p)).symm
  rw [← rawOf_eq (t := ⟨buf.getD p 0, p, start, signed n, start + signed n⟩) rfl (by omega)] at hdrop
  have hagain := (readTlv_of_tlv htlv hsingle hdrop).symm.trans hheader
  simp only [some.injEq, Prod.mk.injEq] at hagain hlength
  dsimp only
  omega

/-- The writer makes again what the reader took exactly where the header has the shortest form. -/
theorem reproduced_iff {offset : Int} {t : Tlv} (hread : readTlv buf offset = some t) :
    Reproduced buf t ↔ IsShortest buf offset.toNat := by
  match offset with
  | .negSucc k =>
    rw [readTlv_of_neg (Int.negSucc_lt_zero k)] at hread
    cases hread
  | .ofNat p =>
    change Reproduced buf t ↔ IsShortest buf p
    by_cases hforward : t.start ≤ t.end'
    · obtain ⟨first, bytes, content, rest, hlayout, ht⟩ := exists_layout hread hforward
      generalize t.tag = tag at ht hlayout
      subst ht
      have hwritten : tlv tag content = some (tag :: first :: (bytes ++ content)) ↔
          encodeLength content.length = some (first :: bytes) := by
        cases hlength : encodeLength content.length with
        | none => simp [tlv, hlength]
        | some length =>
          simp only [tlv, hlength, map_some, some.injEq]
          exact ⟨fun heq => append_cancel_right (cons_inj_right tag |>.mp heq), fun heq => by rw [heq]; rfl⟩
      have hsize : ((tag :: first :: (bytes ++ content)).length : Int) =
          (valueAt p tag bytes content).end' - (valueAt p tag bytes content).offset := by
        simp only [valueAt, length_cons, length_append]
        omega
      rw [isShortest_iff hlayout.drop hlayout.spells]
      simp only [Reproduced, hlayout.contentOf, hlayout.rawOf, hsize, and_true, hlayout.small, true_and]
      rw [show (valueAt p tag bytes content).tag = tag from rfl, hwritten]
      exact ⟨shortest_of_encodeLength hlayout.small, encodeLength_of_spells hlayout.spells⟩
    · refine iff_of_false (fun h => hforward (forward_of_reproduced hread h)) fun h => hforward ?_
      obtain ⟨start, n, hheader, -, rfl⟩ := exists_announced hread
      obtain ⟨first, bytes, rest, hdrop, -, -, hspells⟩ := exists_spells_of_announced hheader
      simp [signed_of_lt ((isShortest_iff hdrop hspells).mp h).1]

/-- Bytes that are read as one value have no more than its tag and content, and the form of its length. -/
theorem eq_iff_of_isRead {a b : List UInt8} {s t : Tlv} (hs : IsRead a s) (ht : IsRead b t) (htag : s.tag = t.tag)
    (hcontent : contentOf a s = contentOf b t) : a = b ↔ a[1]? = b[1]? := by
  have hshape : ∀ {c : List UInt8} {r : Tlv}, IsRead c r → ∃ first bytes,
      c = r.tag :: first :: (bytes ++ contentOf c r) ∧ Spells first bytes (contentOf c r).length := by
    rintro c r ⟨hread, hstop⟩
    have hforward : r.start ≤ r.end' := by
      obtain ⟨start, n, hheader, -, rfl⟩ := exists_announced (p := 0) hread
      have hbuf := (announced_bounds hheader).2.2.1
      dsimp only at hstop ⊢
      omega
    obtain ⟨first, bytes, content, rest, hlayout, hr⟩ := exists_layout (p := 0) hread hforward
    have hrest : rest = [] := by
      have hlen := hlayout.length
      rw [hr] at hstop
      simp only [valueAt] at hstop
      exact length_eq_zero_iff.mp (by omega)
    have hwhole : contentOf c r = content := by
      rw [hr]
      exact hlayout.contentOf
    rw [hwhole]
    exact ⟨first, bytes, by simpa [hrest] using hlayout.drop, hlayout.spells⟩
  refine ⟨fun h => by rw [h], fun hsecond => ?_⟩
  obtain ⟨first, bytes, ha, hspells⟩ := hshape hs
  obtain ⟨first', bytes', hb, hspells'⟩ := hshape ht
  rw [ha, hb] at hsecond
  cases hsecond
  rw [ha, hb, htag, hcontent, hspells.eq (by rwa [hcontent])]

/-! ## Sequences -/

theorem IsEncoding.ne_nil {e : List UInt8} (h : IsEncoding e) : e ≠ [] := by
  obtain ⟨tag, content, htlv⟩ := h
  obtain ⟨first, bytes, he, -⟩ := exists_tlv tag content
  cases he.symm.trans htlv
  simp

/-- Over written values that end with the buffer, the loop has one child for each. -/
theorem exists_childrenFrom_parts {parts : List (List UInt8)} (hparts : ∀ e ∈ parts, IsEncoding e)
    (hsingle : ∀ e ∈ parts, ∀ tag ∈ e.head?, isMultiByte tag = false) (hsmall : parts.flatten.length < 2 ^ 31)
    {p : Nat} (hp : p ≤ buf.length) (hdrop : buf.drop p = parts.flatten) :
    ∃ fuel cs, childrenFrom buf buf.length fuel p = some cs ∧ cs.map (rawOf buf) = parts := by
  induction parts generalizing p with
  | nil =>
    have hdone : ¬(p : Int) < buf.length := by
      have := drop_eq_nil_iff.mp hdrop
      omega
    exact ⟨1, [], by simp [childrenFrom, hdone], rfl⟩
  | cons e parts ih =>
    obtain ⟨tag, content, htlv⟩ := hparts e (by simp)
    obtain ⟨first, bytes, he, hspells⟩ := exists_tlv tag content
    cases he.symm.trans htlv
    simp only [flatten_cons, length_append, length_cons] at hsmall hdrop
    have hlayout : Layout buf p tag first bytes content parts.flatten :=
      ⟨by simp [hdrop], hsingle _ mem_cons_self tag rfl, by rwa [mod_eq_of_lt (by omega)] at hspells, by omega⟩
    have hlen := hlayout.length
    have hrest : buf.drop (p + 2 + bytes.length + content.length) = parts.flatten := by
      rw [← drop_drop, ← drop_drop, ← drop_drop, hlayout.drop]
      simp
    obtain ⟨fuel, cs, hloop, hraw⟩ := ih (fun e he => hparts e (by simp [he])) (fun e he => hsingle e (by simp [he]))
      (by omega) (by omega) hrest
    have hbegun : (p : Int) < buf.length := by omega
    refine ⟨fuel + 1, valueAt p tag bytes content :: cs, ?_, ?_⟩
    · simp only [childrenFrom, hbegun, if_true, hlayout.readTlv, valueAt]
      have hloop' : childrenFrom buf buf.length fuel (p + 2 + bytes.length + content.length) = some cs := by
        exact_mod_cast hloop
      rw [hloop', map_some]
    · rw [map_cons, hlayout.rawOf, hraw]

theorem mem_childrenFrom {stop p : Int} {fuel : Nat} {cs : List Tlv}
    (h : childrenFrom buf stop fuel p = some cs) : ∀ c ∈ cs, ∃ q, readTlv buf q = some c := by
  induction fuel generalizing p cs with
  | zero => cases h
  | succ fuel ih =>
    unfold childrenFrom at h
    split at h
    · split at h
      · simp_all
      · rename_i t ht
        simp only [map_eq_some_iff] at h
        obtain ⟨rest, hrest, rfl⟩ := h
        simp only [mem_cons, forall_eq_or_imp]
        exact ⟨⟨p, ht⟩, ih hrest⟩
    · simp_all

/-- The bytes of a value begin with its tag. -/
theorem single_of_mem_rawOf {q : Int} {c : Tlv} (h : readTlv buf q = some c) :
    ∀ tag ∈ (rawOf buf c).head?, isMultiByte tag = false := by
  match q with
  | .negSucc k =>
    rw [readTlv_of_neg (Int.negSucc_lt_zero k)] at h
    cases h
  | .ofNat p =>
    obtain ⟨start, n, hheader, -, rfl⟩ := exists_announced h
    obtain ⟨hstart, -, hbuf, -⟩ := announced_bounds hheader
    obtain ⟨first, bytes, rest, hdrop, hsingle, -⟩ := exists_spells_of_announced hheader
    intro tag htag
    rw [rawOf_eq (p := p) rfl (by omega), hdrop, cons_append, head?_take] at htag
    split at htag
    · cases htag
    · cases htag
      exact hsingle

/-- A child whose bytes are an encoding is as long as it says, unless its end is counted from that of a buffer of a
multiple of `2 ^ 32` bytes. -/
theorem length_rawOf_of_isEncoding {q : Int} {c : Tlv} (h : readTlv buf q = some c)
    (hraw : IsEncoding (rawOf buf c)) : 0 ≤ q ∧ c.end' < q + 6 + 2 ^ 31 ∧
      (0 ≤ c.end' ∧ ((rawOf buf c).length : Int) = c.end' - q ∨ c.end' < 0 ∧ 2 ^ 32 ∣ buf.length) := by
  match q with
  | .negSucc k =>
    rw [readTlv_of_neg (Int.negSucc_lt_zero k)] at h
    cases h
  | .ofNat p =>
    have hsingle := single_of_mem_rawOf h
    obtain ⟨start, n, hheader, hfits, rfl⟩ := exists_announced h
    obtain ⟨hstart, hwidth, hbuf, -⟩ := announced_bounds hheader
    have hn := signed_lt n
    have hpos := length_pos_iff.mpr hraw.ne_nil
    obtain ⟨tag, content, htlv⟩ := hraw
    have heq := rawOf_eq (t := ⟨buf.getD p 0, p, start, signed n, start + signed n⟩) rfl (by omega : p ≤ buf.length)
    have hlen := congrArg length heq
    rw [length_take, length_drop] at hlen
    refine ⟨Int.natCast_nonneg p, ?_, ?_⟩
    · change (start : Int) + signed n < p + 6 + 2 ^ 31
      omega
    · change 0 ≤ (start : Int) + signed n ∧ _ = (start : Int) + signed n - p ∨ (start : Int) + signed n < 0 ∧ _
      by_cases hend : 0 ≤ (start : Int) + signed n
      · refine .inl ⟨hend, ?_⟩
        simp only [clamp] at hlen
        omega
      · refine .inr ⟨by omega, ?_⟩
        have hdrop := (take_append_drop (clamp buf.length (start + signed n) - p) (buf.drop p)).symm
        rw [← heq] at hdrop
        obtain ⟨first, bytes, he, -⟩ := exists_tlv tag content
        have hraw := he.symm.trans htlv
        simp only [some.injEq] at hraw
        have hsize := congrArg length hraw
        have hagain := (readTlv_of_tlv htlv (hsingle tag (by rw [← hraw]; rfl)) hdrop).symm.trans hheader
        simp only [some.injEq, Prod.mk.injEq] at hagain
        have hsigned := signed_eq n
        simp only [clamp] at hlen
        split at hsigned <;> omega

/-- The last of the children begins before the end, and has less than `2 ^ 31` bytes of content. -/
theorem length_flatten_lt {stop p : Int} {fuel : Nat} {cs : List Tlv}
    (h : childrenFrom buf stop fuel p = some cs) (hparts : ∀ c ∈ cs, IsEncoding (rawOf buf c)) (hne : cs ≠ []) :
    0 ≤ p ∧ p < stop ∧ (p + (cs.map (rawOf buf)).flatten.length < stop + 2 ^ 31 + 6 ∨ 2 ^ 32 ∣ buf.length) := by
  induction fuel generalizing p cs with
  | zero => cases h
  | succ fuel ih =>
    unfold childrenFrom at h
    split at h
    · rename_i hbegun
      split at h
      · simp_all
      · rename_i t ht
        simp only [map_eq_some_iff] at h
        obtain ⟨rest, hrest, rfl⟩ := h
        obtain ⟨hp, hend, hlen⟩ := length_rawOf_of_isEncoding ht (hparts t (by simp))
        refine ⟨hp, hbegun, ?_⟩
        rcases hlen with ⟨hstop, hlen⟩ | ⟨-, hmultiple⟩
        · by_cases hlast : rest = []
          · subst hlast
            refine .inl ?_
            simp only [map_cons, map_nil, flatten_cons, flatten_nil, append_nil]
            omega
          · obtain ⟨-, -, hrest⟩ := ih hrest (fun c hc => hparts c (by simp [hc])) hlast
            refine hrest.imp_left fun hless => ?_
            simp only [map_cons, flatten_cons, length_append]
            omega
        · exact .inr hmultiple
    · simp_all

/-- A sequence gives back its parts exactly where they have tags of one byte, and less than `2 ^ 31` bytes. -/
theorem recovers_iff {parts : List (List UInt8)} (hparts : ∀ e ∈ parts, IsEncoding e) :
    Recovers parts ↔ (∀ e ∈ parts, ∀ tag ∈ e.head?, isMultiByte tag = false) ∧ parts.flatten.length < 2 ^ 31 := by
  obtain ⟨first, bytes, he, hspells⟩ := exists_tlv DER_SEQUENCE parts.flatten
  constructor
  · rintro ⟨e, t, fuel, cs, he', hread, hloop, hraw⟩
    have hsome : ∀ c ∈ cs, IsEncoding (rawOf e c) := fun c hc => hparts _ (hraw ▸ mem_map_of_mem hc)
    refine ⟨?_, ?_⟩
    · rw [← hraw]
      simp only [List.mem_map, forall_exists_index, and_imp, forall_apply_eq_imp_iff₂]
      intro c hc
      obtain ⟨q, hq⟩ := mem_childrenFrom hloop c hc
      exact single_of_mem_rawOf hq
    · by_cases hne : cs = []
      · simp [← hraw, hne]
      · obtain ⟨-, hbegun, hlen⟩ := length_flatten_lt hloop hsome hne
        rw [hraw] at hlen
        cases he.symm.trans he'
        have hsize : ((DER_SEQUENCE :: first :: (bytes ++ parts.flatten)).length : Nat) =
            2 + bytes.length + parts.flatten.length := by
          simp only [length_cons, length_append]
          omega
        obtain ⟨start, n, hheader, -, rfl⟩ := exists_announced (p := 0) hread
        have hfour := (announced_bounds hheader).2.1
        cases (readTlv_of_tlv he (by decide) (append_nil _).symm).symm.trans hheader
        have hsigned := signed_eq (parts.flatten.length % 2 ^ 32)
        dsimp only at hlen hbegun
        split at hsigned <;> omega
  · rintro ⟨hsingle, hsmall⟩
    have hlayout : Layout (DER_SEQUENCE :: first :: (bytes ++ parts.flatten)) 0 DER_SEQUENCE first bytes
        parts.flatten [] :=
      ⟨by simp, by decide, by rwa [mod_eq_of_lt (by omega)] at hspells, hsmall⟩
    have hlen := hlayout.length
    obtain ⟨fuel, cs, hloop, hraw⟩ := exists_childrenFrom_parts hparts hsingle hsmall
      (by omega : 2 + bytes.length ≤ (DER_SEQUENCE :: first :: (bytes ++ parts.flatten)).length)
      (by rw [← drop_drop]; simp)
    refine ⟨_, _, fuel, cs, he, hlayout.readTlv, ?_, hraw⟩
    rw [hlen] at hloop
    simp only [children, valueAt]
    simpa using hloop

/-- A value with its length in one byte, and the same value with its length in two. -/
def shortForm : List UInt8 := [0x04, 0x01, 0xAA]

def longForm : List UInt8 := [0x04, 0x81, 0x01, 0xAA]

/-- The writer and the reader agree on contents below `2 ^ 31` bytes, and on the shortest form of a length. -/
theorem writer_reader_agree (tag : UInt8) (content : List UInt8) (parts : List (List UInt8)) (n : Nat)
    (buf : List UInt8) (offset : Int) (r : Tlv) (a b : List UInt8) (s t : Tlv) :
    (isMultiByte tag = false → (RoundTrips tag content ↔ content.length < 2 ^ 31)) ∧ ((∀ e ∈ parts, IsEncoding e) →
      (Recovers parts ↔ (∀ e ∈ parts, ∀ tag ∈ e.head?, isMultiByte tag = false) ∧ parts.flatten.length < 2 ^ 31)) ∧
    (DecodesLength n ↔ n < 2 ^ 31) ∧
    (readTlv buf offset = some r → (Reproduced buf r ↔ IsShortest buf offset.toNat)) ∧
    (IsRead a s → IsRead b t → s.tag = t.tag → contentOf a s = contentOf b t → (a = b ↔ a[1]? = b[1]?)) :=
  ⟨fun hsingle => roundTrips_iff hsingle content, fun hparts => recovers_iff hparts, decodesLength_iff n,
    fun hread => reproduced_iff hread, fun hs ht htag hcontent => eq_iff_of_isRead hs ht htag hcontent⟩

theorem writer_reader_agree_shortForm :
    RoundTrips 0x04 [0xAA] ∧ Recovers [shortForm, shortForm] ∧ Reproduced shortForm ⟨0x04, 0, 2, 1, 3⟩ ∧
      ¬Reproduced longForm ⟨0x04, 0, 3, 1, 4⟩ := by
  have hagree (buf : List UInt8) (r : Tlv) :=
    writer_reader_agree 0x04 [0xAA] [shortForm, shortForm] 0 buf 0 r [] [] r r
  obtain ⟨htrip, hparts, -, hraw, -⟩ := hagree shortForm ⟨0x04, 0, 2, 1, 3⟩
  have hmem : ∀ e ∈ [shortForm, shortForm], e = shortForm := by simp
  refine ⟨(htrip (by decide)).mpr (by decide), (hparts fun e he => ?_).mpr ⟨fun e he tag htag => ?_, by decide⟩,
    (hraw (by decide)).mpr (by decide), fun h => ?_⟩
  · rw [hmem e he]
    exact ⟨0x04, [0xAA], by decide⟩
  · rw [hmem e he] at htag
    cases htag
    rfl
  · obtain ⟨-, -, -, hraw, -⟩ := hagree longForm ⟨0x04, 0, 3, 1, 4⟩
    exact absurd ((hraw (by decide)).mp h) (by decide)

/-- The reader takes both for one value. -/
theorem not_unique_longForm :
    ¬∀ a b s t, IsRead a s → IsRead b t → s.tag = t.tag → contentOf a s = contentOf b t → a = b := by
  intro h
  have heq := h shortForm longForm ⟨0x04, 0, 2, 1, 3⟩ ⟨0x04, 0, 3, 1, 4⟩ ⟨by decide, rfl⟩ ⟨by decide, rfl⟩ rfl
    (by decide)
  cases heq

end Der
