-- SUMMARY: UTF-8 encoding of UTF-16 strings, and what its decoder gives of whole texts and of streams of chunks.
import Tracenium.Lib.Utf16

/-! Decoding puts one U+FFFD for each maximal part that is no character. -/

open List UInt8 UInt16

open Utf16 (Str isHigh isLow WellFormed)

namespace Utf8

/-! ## Encoding -/

def encodeScalar (c : Nat) : List UInt8 :=
  if c < 0x80 then [ofNat c]
  else if c < 0x800 then [ofNat (0xC0 + c / 0x40), ofNat (0x80 + c % 0x40)]
  else if c < 0x10000 then
    [ofNat (0xE0 + c / 0x1000), ofNat (0x80 + c / 0x40 % 0x40), ofNat (0x80 + c % 0x40)]
  else
    [ofNat (0xF0 + c / 0x40000), ofNat (0x80 + c / 0x1000 % 0x40),
      ofNat (0x80 + c / 0x40 % 0x40), ofNat (0x80 + c % 0x40)]

/-- U+FFFD, the replacement character. -/
def replacement : UInt16 := 0xFFFD

def unitScalar (u : UInt16) : Nat :=
  if isHigh u || isLow u then replacement.toNat else u.toNat

def pairScalar (h l : UInt16) : Nat :=
  0x10000 + (h.toNat - 0xD800) * 0x400 + (l.toNat - 0xDC00)

/-- The UTF-8 bytes of a string, each lone surrogate written as U+FFFD. -/
def encode : Str → List UInt8
  | [] => []
  | [u] => encodeScalar (unitScalar u)
  | u :: v :: s =>
    if isHigh u && isLow v then encodeScalar (pairScalar u v) ++ encode s
    else encodeScalar (unitScalar u) ++ encode (v :: s)

def scalarUnits (c : Nat) : Str :=
  if c < 0x10000 then [ofNat c]
  else [ofNat (0xD800 + (c - 0x10000) / 0x400), ofNat (0xDC00 + (c - 0x10000) % 0x400)]

/-- A Unicode scalar value: a code point that is no surrogate. -/
def IsScalar (c : Nat) : Prop :=
  c < 0xD800 ∨ (0xE000 ≤ c ∧ c < 0x110000)

variable {u : UInt16}

theorem encode_cons (hu : isHigh u = false) (s : Str) :
    encode (u :: s) = encodeScalar (unitScalar u) ++ encode s := by
  cases s with
  | nil => simp [encode]
  | cons v s => simp [encode, hu]

theorem encode_pair {h l : UInt16} (hhigh : isHigh h) (hlow : isLow l) (s : Str) :
    encode (h :: l :: s) = encodeScalar (pairScalar h l) ++ encode s := by
  simp [encode, hhigh, hlow]

theorem isHigh_iff : isHigh u ↔ 0xD800 ≤ u.toNat ∧ u.toNat ≤ 0xDBFF := by
  simp [isHigh, UInt16.le_iff_toNat_le]

theorem isLow_iff : isLow u ↔ 0xDC00 ≤ u.toNat ∧ u.toNat ≤ 0xDFFF := by
  simp [isLow, UInt16.le_iff_toNat_le]

theorem isHigh_eq_false_iff : isHigh u = false ↔ u.toNat < 0xD800 ∨ 0xDBFF < u.toNat := by
  rw [← Bool.not_eq_true, isHigh_iff]
  omega

theorem isLow_eq_false_iff : isLow u = false ↔ u.toNat < 0xDC00 ∨ 0xDFFF < u.toNat := by
  rw [← Bool.not_eq_true, isLow_iff]
  omega

theorem unitScalar_of_not_surrogate (hhigh : isHigh u = false) (hlow : isLow u = false) : unitScalar u = u.toNat := by
  simp [unitScalar, hhigh, hlow]

theorem isScalar_unit (hhigh : isHigh u = false) (hlow : isLow u = false) : IsScalar (unitScalar u) := by
  rw [unitScalar_of_not_surrogate hhigh hlow]
  rw [isHigh_eq_false_iff] at hhigh
  rw [isLow_eq_false_iff] at hlow
  have := u.toNat_lt
  unfold IsScalar
  omega

theorem isScalar_pair {h l : UInt16} (hhigh : isHigh h) (hlow : isLow l) :
    IsScalar (pairScalar h l) := by
  rw [isHigh_iff] at hhigh
  rw [isLow_iff] at hlow
  unfold IsScalar pairScalar
  omega

theorem scalarUnits_unit (hhigh : isHigh u = false) (hlow : isLow u = false) : scalarUnits (unitScalar u) = [u] := by
  have hlt := u.toNat_lt
  rw [unitScalar_of_not_surrogate hhigh hlow, scalarUnits, if_pos (by omega)]
  simp

theorem scalarUnits_pair {h l : UInt16} (hhigh : isHigh h) (hlow : isLow l) :
    scalarUnits (pairScalar h l) = [h, l] := by
  rw [isHigh_iff] at hhigh
  rw [isLow_iff] at hlow
  have hsub : pairScalar h l - 0x10000 =
      (h.toNat - 0xD800) * 0x400 + (l.toNat - 0xDC00) := by
    unfold pairScalar
    omega
  have hdiv : 0xD800 + (pairScalar h l - 0x10000) / 0x400 = h.toNat := by
    omega
  have hmod : 0xDC00 + (pairScalar h l - 0x10000) % 0x400 = l.toNat := by
    rw [hsub]
    omega
  rw [scalarUnits, if_neg (by unfold pairScalar; omega), hdiv, hmod]
  simp

variable {c : Nat}

/-- A scalar value is written as one unit that is no surrogate, or as a surrogate pair. -/
theorem scalarUnits_cases (hc : IsScalar c) :
    (∃ u, scalarUnits c = [u] ∧ isHigh u = false ∧ isLow u = false ∧ unitScalar u = c ∧ u.toNat = c) ∨
    (∃ h l, scalarUnits c = [h, l] ∧ isHigh h ∧ isLow l ∧ pairScalar h l = c ∧ 0x10000 ≤ c) := by
  unfold IsScalar at hc
  unfold scalarUnits
  split
  · have hval : (UInt16.ofNat c).toNat = c := by
      rw [UInt16.toNat_ofNat']
      omega
    have hhigh : isHigh (ofNat c) = false := by
      rw [isHigh_eq_false_iff, hval]
      omega
    have hlow : isLow (ofNat c) = false := by
      rw [isLow_eq_false_iff, hval]
      omega
    refine .inl ⟨_, rfl, hhigh, hlow, ?_, hval⟩
    rw [unitScalar_of_not_surrogate hhigh hlow, hval]
  · have hh : (UInt16.ofNat (0xD800 + (c - 0x10000) / 0x400)).toNat =
        0xD800 + (c - 0x10000) / 0x400 := by
      rw [UInt16.toNat_ofNat']
      omega
    have hl : (UInt16.ofNat (0xDC00 + (c - 0x10000) % 0x400)).toNat =
        0xDC00 + (c - 0x10000) % 0x400 := by
      rw [UInt16.toNat_ofNat']
      omega
    refine .inr ⟨_, _, rfl, ?_, ?_, ?_, by omega⟩
    · rw [isHigh_iff, hh]
      omega
    · rw [isLow_iff, hl]
      omega
    · unfold pairScalar
      omega

theorem wellFormed_scalarUnits (hc : IsScalar c) : WellFormed (scalarUnits c) := by
  rcases scalarUnits_cases hc with ⟨u, hu, hhigh, hlow, -⟩ | ⟨h, l, hu, hhigh, hlow, -⟩
  · rw [hu]
    exact .unit hhigh hlow .nil
  · rw [hu]
    exact .pair hhigh hlow .nil

/-- A string starts with one character. -/
theorem scalarUnits_append_inj {c c' : Nat} (hc : IsScalar c) (hc' : IsScalar c') {s s' : Str}
    (h : scalarUnits c ++ s = scalarUnits c' ++ s') : c = c' ∧ s = s' := by
  rcases scalarUnits_cases hc with ⟨u, hu, hhigh, -, -, hval⟩ | ⟨u, v, hu, hhigh, -, hval, -⟩ <;>
    rcases scalarUnits_cases hc' with ⟨u', hu', hhigh', -, -, hval'⟩ |
      ⟨u', v', hu', hhigh', -, hval', -⟩ <;>
    simp only [hu, hu'] at h
  · obtain ⟨rfl, rfl⟩ := h
    exact ⟨hval.symm.trans hval', rfl⟩
  · obtain ⟨rfl, -⟩ := h
    rw [hhigh] at hhigh'
    cases hhigh'
  · obtain ⟨rfl, -⟩ := h
    rw [hhigh] at hhigh'
    cases hhigh'
  · obtain ⟨rfl, rfl, rfl⟩ := h
    exact ⟨hval.symm.trans hval', rfl⟩

theorem encode_scalarUnits_append (hc : IsScalar c) (s : Str) :
    encode (scalarUnits c ++ s) = encodeScalar c ++ encode s := by
  rcases scalarUnits_cases hc with ⟨u, hu, hhigh, -, hval, -⟩ | ⟨h, l, hu, hhigh, hlow, hval, -⟩
  · rw [hu, singleton_append, encode_cons hhigh, hval]
  · rw [hu, cons_append, singleton_append, encode_pair hhigh hlow, hval]

/-- Induction over the characters of a well-formed string. -/
theorem scalar_induction {P : (s : Str) → WellFormed s → Prop} (nil : P [] .nil)
    (scalar : ∀ c s (hc : IsScalar c) (hs : WellFormed s), P s hs →
      P (scalarUnits c ++ s) ((wellFormed_scalarUnits hc).append hs)) {s : Str} (hs : WellFormed s) : P s hs := by
  induction hs with
  | nil => exact nil
  | @unit u s hhigh hlow hs ih =>
    have h := scalar _ s (isScalar_unit hhigh hlow) hs ih
    simpa only [scalarUnits_unit hhigh hlow, cons_append, nil_append] using h
  | @pair u v s hhigh hlow hs ih =>
    have h := scalar _ s (isScalar_pair hhigh hlow) hs ih
    simpa only [scalarUnits_pair hhigh hlow, cons_append, nil_append] using h

/-- A byte inside a character, not at its start. -/
def isContinuation (b : UInt8) : Bool := 0x80 ≤ b && b ≤ 0xBF

theorem isContinuation_iff {b : UInt8} : isContinuation b ↔ 0x80 ≤ b.toNat ∧ b.toNat ≤ 0xBF := by
  simp [isContinuation, UInt8.le_iff_toNat_le]

/-! ## Decoding -/

/-- The decoder inside a character: how many bytes are still to come, the bounds of the next one,
and the bits read so far. Between characters `needed` is zero. -/
structure State where
  needed : Nat
  lower : Nat
  upper : Nat
  acc : Nat

def start : State := ⟨0, 0x80, 0xBF, 0⟩

/-- The least second byte after a leading byte: smaller ones are overlong forms. -/
def lowerBound (b : Nat) : Nat := if b = 0xE0 then 0xA0 else if b = 0xF0 then 0x90 else 0x80

/-- The largest second byte after a leading byte: larger ones are surrogates or too large. -/
def upperBound (b : Nat) : Nat := if b = 0xED then 0x9F else if b = 0xF4 then 0x8F else 0xBF

/-- What a byte between two characters gives. -/
def first (b : Nat) : Str × State :=
  if b < 0x80 then ([ofNat b], start)
  else if 0xC2 ≤ b ∧ b ≤ 0xDF then ([], ⟨1, 0x80, 0xBF, b - 0xC0⟩)
  else if 0xE0 ≤ b ∧ b ≤ 0xEF then ([], ⟨2, lowerBound b, upperBound b, b - 0xE0⟩)
  else if 0xF0 ≤ b ∧ b ≤ 0xF4 then ([], ⟨3, lowerBound b, upperBound b, b - 0xF0⟩)
  else ([replacement], start)

/-- What a byte gives. A byte that does not continue the character ends it as U+FFFD and is read
again between characters. -/
def next (st : State) (b : Nat) : Str × State :=
  if st.needed = 0 then first b
  else if st.lower ≤ b ∧ b ≤ st.upper then
    if st.needed = 1 then (scalarUnits (st.acc * 0x40 + (b - 0x80)), start)
    else ([], ⟨st.needed - 1, 0x80, 0xBF, st.acc * 0x40 + (b - 0x80)⟩)
  else (replacement :: (first b).1, (first b).2)

def feed (st : State) : List UInt8 → Str × State
  | [] => ([], st)
  | b :: bs =>
    let r := next st b.toNat
    let r' := feed r.2 bs
    (r.1 ++ r'.1, r'.2)

/-- The end of the input inside a character is one U+FFFD. -/
def flush (st : State) : Str := if st.needed = 0 then [] else [replacement]

def decode (bs : List UInt8) : Str :=
  (feed start bs).1 ++ flush (feed start bs).2

@[simp] theorem feed_nil (st : State) : feed st [] = ([], st) := rfl

theorem feed_cons (st : State) (b : UInt8) (bs : List UInt8) : feed st (b :: bs) =
      ((next st b.toNat).1 ++ (feed (next st b.toNat).2 bs).1, (feed (next st b.toNat).2 bs).2) := rfl

@[simp] theorem decode_nil : decode [] = [] := rfl

theorem feed_append (st : State) (a b : List UInt8) : feed st (a ++ b) =
      ((feed st a).1 ++ (feed (feed st a).2 b).1, (feed (feed st a).2 b).2) := by
  induction a generalizing st with
  | nil => simp
  | cons x a ih => simp only [cons_append, feed_cons, ih, append_assoc]

/-- Bytes that bring the decoder back between characters are decoded by themselves. -/
theorem decode_append_of_feed {a : List UInt8} {out : Str} (h : feed start a = (out, start))
    (b : List UInt8) : decode (a ++ b) = out ++ decode b := by
  simp [decode, feed_append, h]

/-- A continuation byte between characters is a U+FFFD of its own. -/
theorem decode_continuation {b : UInt8} (hb : isContinuation b) (bs : List UInt8) :
    decode (b :: bs) = replacement :: decode bs := by
  rw [isContinuation_iff] at hb
  have hfirst : first b.toNat = ([replacement], start) := by
    unfold first
    rw [if_neg (by omega), if_neg (by omega), if_neg (by omega), if_neg (by omega)]
  have hfeed : feed start [b] = ([replacement], start) := by
    simp [feed_cons, next, start, hfirst]
  simpa using decode_append_of_feed hfeed bs

theorem decode_continuations {q : List UInt8} (hq : ∀ b ∈ q, isContinuation b)
    (bs : List UInt8) : decode (q ++ bs) = replicate q.length replacement ++ decode bs := by
  induction q with
  | nil => rfl
  | cons b q ih =>
    rw [cons_append, decode_continuation (hq b (by simp)), ih fun x hx => hq x (by simp [hx])]
    rfl

/-- The bytes `bs` finish the character `c` from the state `st`. -/
inductive Expects : State → List UInt8 → Nat → Prop
  | last {lower upper acc : Nat} {b : UInt8} (hb : lower ≤ b.toNat ∧ b.toNat ≤ upper) :
      Expects ⟨1, lower, upper, acc⟩ [b] (acc * 0x40 + (b.toNat - 0x80))
  | more {n lower upper acc c : Nat} {b : UInt8} {bs : List UInt8}
      (hb : lower ≤ b.toNat ∧ b.toNat ≤ upper)
      (hbs : Expects ⟨n + 1, 0x80, 0xBF, acc * 0x40 + (b.toNat - 0x80)⟩ bs c) :
      Expects ⟨n + 2, lower, upper, acc⟩ (b :: bs) c

namespace Expects

theorem feed_eq {st : State} {bs : List UInt8} {c : Nat} (h : Expects st bs c) :
    feed st bs = (scalarUnits c, start) := by
  induction h with
  | last hb => simp [feed_cons, next, hb]
  | more hb _ ih => simp [feed_cons, next, hb, ih]

/-- Before the last byte nothing is read, and the decoder still waits for a byte. -/
theorem feed_prefix {st : State} {bs : List UInt8} {c : Nat} (h : Expects st bs c)
    {p q : List UInt8} (hq : q ≠ []) (hpq : bs = p ++ q) : (feed st p).1 = [] ∧ (feed st p).2.needed ≠ 0 := by
  induction h generalizing p with
  | last hb =>
    cases p with
    | nil => simp
    | cons x p => simp_all
  | more hb hbs ih =>
    cases p with
    | nil => simp
    | cons x p =>
      obtain ⟨rfl, rfl⟩ := cons.inj hpq
      have hrest := ih rfl
      simpa [feed_cons, next, hb] using hrest

end Expects

theorem toNat_ofNat_byte {n : Nat} (h : n < 0x100) : (UInt8.ofNat n).toNat = n := by
  simpa using h

/-- The low six bits of a character as a continuation byte. -/
theorem toNat_continuation (n : Nat) : (UInt8.ofNat (0x80 + n % 0x40)).toNat = 0x80 + n % 0x40 :=
  toNat_ofNat_byte (by omega)

theorem isContinuation_continuation (n : Nat) : isContinuation (UInt8.ofNat (0x80 + n % 0x40)) := by
  rw [isContinuation_iff, toNat_continuation]
  omega

theorem isContinuation_leading {b : Nat} (h : 0xC0 ≤ b) (hb : b < 0x100) :
    isContinuation (UInt8.ofNat b) = false := by
  rw [← Bool.not_eq_true, isContinuation_iff, toNat_ofNat_byte hb]
  omega

theorem lowerBound_le {b x : Nat} (hE0 : b = 0xE0 → 0xA0 ≤ x) (hF0 : b = 0xF0 → 0x90 ≤ x)
    (hx : 0x80 ≤ x) : lowerBound b ≤ x := by
  unfold lowerBound
  split
  · exact hE0 ‹_›
  · split
    · exact hF0 ‹_›
    · exact hx

theorem le_upperBound {b x : Nat} (hED : b = 0xED → x ≤ 0x9F) (hF4 : b = 0xF4 → x ≤ 0x8F)
    (hx : x ≤ 0xBF) : x ≤ upperBound b := by
  unfold upperBound
  split
  · exact hED ‹_›
  · split
    · exact hF4 ‹_›
    · exact hx

/-- The last byte of a character, from the bits before it. -/
theorem expects_last {lower upper acc c : Nat} (hacc : acc = c / 0x40)
    (hlower : lower ≤ 0x80 + c % 0x40) (hupper : 0x80 + c % 0x40 ≤ upper) :
    Expects ⟨1, lower, upper, acc⟩ [UInt8.ofNat (0x80 + c % 0x40)] c := by
  have hlast := @Expects.last lower upper acc (ofNat (0x80 + c % 0x40))
    (by rw [toNat_continuation]; exact ⟨hlower, hupper⟩)
  rw [toNat_continuation] at hlast
  have hval : acc * 0x40 + (0x80 + c % 0x40 - 0x80) = c := by omega
  rwa [hval] at hlast

/-- An earlier continuation byte, from the bits before it. -/
theorem expects_more {n lower upper acc m c : Nat} {bs : List UInt8} (hacc : acc = m / 0x40)
    (hlower : lower ≤ 0x80 + m % 0x40) (hupper : 0x80 + m % 0x40 ≤ upper)
    (hbs : Expects ⟨n + 1, 0x80, 0xBF, m⟩ bs c) :
    Expects ⟨n + 2, lower, upper, acc⟩ (UInt8.ofNat (0x80 + m % 0x40) :: bs) c := by
  refine .more (by rw [toNat_continuation]; exact ⟨hlower, hupper⟩) ?_
  have hval : acc * 0x40 + (0x80 + m % 0x40 - 0x80) = m := by omega
  rwa [toNat_continuation, hval]

/-- A character of more than one byte: its leading byte leaves the decoder waiting for the
others, which are continuation bytes. -/
theorem encodeScalar_cons (hc : IsScalar c) (h : 0x80 ≤ c) :
    ∃ b bs st, encodeScalar c = b :: bs ∧ isContinuation b = false ∧
      (∀ x ∈ bs, isContinuation x) ∧ first b.toNat = ([], st) ∧ Expects st bs c := by
  unfold IsScalar at hc
  unfold encodeScalar
  rw [if_neg (by omega)]
  split
  · have hb : 0xC0 + c / 0x40 < 0x100 := by omega
    refine ⟨_, _, ⟨1, 0x80, 0xBF, c / 0x40⟩, rfl, isContinuation_leading (by omega) hb, ?_, ?_, ?_⟩
    · simp only [List.forall_mem_cons, isContinuation_continuation]
      simp
    · rw [toNat_ofNat_byte hb, first, if_neg (by omega), if_pos (by omega)]
      simp
    · exact expects_last rfl (by omega) (by omega)
  split
  · have hb : 0xE0 + c / 0x1000 < 0x100 := by omega
    refine ⟨_, _, ⟨2, lowerBound (0xE0 + c / 0x1000), upperBound (0xE0 + c / 0x1000), c / 0x1000⟩,
      rfl, isContinuation_leading (by omega) hb, ?_, ?_, ?_⟩
    · simp only [List.forall_mem_cons, isContinuation_continuation, true_and]
      simp
    · rw [toNat_ofNat_byte hb, first, if_neg (by omega), if_neg (by omega), if_pos (by omega)]
      simp
    · refine expects_more (by omega) ?_ ?_ (expects_last rfl (by omega) (by omega))
      · exact lowerBound_le (by omega) (by omega) (by omega)
      · exact le_upperBound (by omega) (by omega) (by omega)
  · have hb : 0xF0 + c / 0x40000 < 0x100 := by omega
    refine ⟨_, _, ⟨3, lowerBound (0xF0 + c / 0x40000), upperBound (0xF0 + c / 0x40000),
      c / 0x40000⟩, rfl, isContinuation_leading (by omega) hb, ?_, ?_, ?_⟩
    · simp only [List.forall_mem_cons, isContinuation_continuation, true_and]
      simp
    · rw [toNat_ofNat_byte hb, first, if_neg (by omega), if_neg (by omega), if_neg (by omega), if_pos (by omega)]
      simp
    · refine expects_more (by omega) ?_ ?_ (expects_more (by omega) (by omega) (by omega)
        (expects_last rfl (by omega) (by omega)))
      · exact lowerBound_le (by omega) (by omega) (by omega)
      · exact le_upperBound (by omega) (by omega) (by omega)

/-- A character is decoded from its own bytes. -/
theorem feed_encodeScalar (hc : IsScalar c) : feed start (encodeScalar c) = (scalarUnits c, start) := by
  by_cases h : c < 0x80
  · have hb : c < 0x100 := by omega
    have hfirst : first c = ([UInt16.ofNat c], start) := by rw [first, if_pos h]
    have hunits : scalarUnits c = [UInt16.ofNat c] := by rw [scalarUnits, if_pos (by omega)]
    rw [encodeScalar, if_pos h, feed_cons, toNat_ofNat_byte hb, hunits]
    simp [next, start, hfirst]
  · obtain ⟨b, bs, st, heq, -, -, hfirst, hexp⟩ := encodeScalar_cons hc (by omega)
    rw [heq, feed_cons]
    simp [next, show start.needed = 0 from rfl, hfirst, hexp.feed_eq]

/-- A character with a cut inside it is not ASCII. -/
theorem le_of_cut {p q : List UInt8} (hp : p ≠ []) (hq : q ≠ []) (hpq : encodeScalar c = p ++ q) : 0x80 ≤ c := by
  by_contra h
  rw [encodeScalar, if_pos (by omega)] at hpq
  have hlen := congrArg length hpq
  have hpl := length_pos_iff.mpr hp
  have hql := length_pos_iff.mpr hq
  simp at hlen
  omega

/-- The start of a character, cut off, is decoded as one U+FFFD. -/
theorem decode_cut (hc : IsScalar c) {p q : List UInt8} (hp : p ≠ []) (hq : q ≠ [])
    (hpq : encodeScalar c = p ++ q) : decode p = [replacement] := by
  obtain ⟨b, bs, st, heq, -, -, hfirst, hexp⟩ := encodeScalar_cons hc (le_of_cut hp hq hpq)
  cases p with
  | nil => exact absurd rfl hp
  | cons x p =>
    rw [heq] at hpq
    obtain ⟨rfl, hbs⟩ := cons.inj hpq
    obtain ⟨hout, hneeded⟩ := hexp.feed_prefix hq hbs
    simp [decode, feed_cons, next, show start.needed = 0 from rfl, hfirst, hout, flush, hneeded]

/-- The rest of a character after a cut inside it is continuation bytes. -/
theorem isContinuation_of_cut (hc : IsScalar c) {p q : List UInt8} (hp : p ≠ [])
    (hpq : encodeScalar c = p ++ q) : ∀ b ∈ q, isContinuation b := by
  by_cases h : c < 0x80
  · rw [encodeScalar, if_pos h] at hpq
    cases p with
    | nil => exact absurd rfl hp
    | cons x p => simp_all
  · obtain ⟨b, bs, st, heq, -, hcont, -, -⟩ := encodeScalar_cons hc (by omega)
    cases p with
    | nil => exact absurd rfl hp
    | cons x p =>
      rw [heq] at hpq
      obtain ⟨rfl, rfl⟩ := cons.inj hpq
      intro y hy
      exact hcont y (by simp [hy])

/-- A character does not start with a continuation byte. -/
theorem encodeScalar_head (hc : IsScalar c) {b : UInt8} {bs : List UInt8}
    (h : encodeScalar c = b :: bs) : isContinuation b = false := by
  by_cases hlt : c < 0x80
  · rw [encodeScalar, if_pos hlt] at h
    obtain ⟨rfl, -⟩ := cons.inj h
    rw [← Bool.not_eq_true, isContinuation_iff, toNat_ofNat_byte (by omega)]
    omega
  · obtain ⟨b', bs', st, heq, hcont, -⟩ := encodeScalar_cons hc (by omega)
    rw [heq] at h
    obtain ⟨rfl, -⟩ := List.cons.inj h
    exact hcont

/-! ## Round trip -/

/-- Well-formed text decodes to itself, whatever bytes follow it. -/
theorem decode_encode_append {s : Str} (hs : WellFormed s) (bs : List UInt8) :
    decode (encode s ++ bs) = s ++ decode bs := by
  induction hs using scalar_induction with
  | nil => rfl
  | scalar c s hc _ ih =>
    rw [encode_scalarUnits_append hc, append_assoc, decode_append_of_feed (feed_encodeScalar hc), ih, append_assoc]

theorem decode_encode {s : Str} (hs : WellFormed s) : decode (encode s) = s := by
  simpa using decode_encode_append hs []

theorem exists_unitScalar_eq (u : UInt16) : ∃ v, isHigh v = false ∧ isLow v = false ∧ unitScalar v = unitScalar u := by
  cases hsurrogate : isHigh u || isLow u with
  | true => exact ⟨replacement, rfl, rfl, by rw [unitScalar, unitScalar, hsurrogate]; rfl⟩
  | false =>
    obtain ⟨hhigh, hlow⟩ := Bool.or_eq_false_iff.mp hsurrogate
    exact ⟨u, hhigh, hlow, rfl⟩

/-- What is written is the encoding of a well-formed string, with a replacement for each lone half. -/
theorem exists_wellFormed_encode_eq : ∀ s : Str, ∃ t, WellFormed t ∧ encode t = encode s
  | [] => ⟨[], .nil, rfl⟩
  | [u] => by
    obtain ⟨v, hhigh, hlow, hscalar⟩ := exists_unitScalar_eq u
    exact ⟨[v], .unit hhigh hlow .nil, by simp [encode, hscalar]⟩
  | u :: v :: s => by
    cases hpair : isHigh u && isLow v with
    | true =>
      obtain ⟨t, ht, hencode⟩ := exists_wellFormed_encode_eq s
      obtain ⟨hhigh, hlow⟩ := Bool.and_eq_true_iff.mp hpair
      exact ⟨u :: v :: t, .pair hhigh hlow ht, by simp [encode_pair hhigh hlow, hencode]⟩
    | false =>
      obtain ⟨w, hhigh, hlow, hscalar⟩ := exists_unitScalar_eq u
      obtain ⟨t, ht, hencode⟩ := exists_wellFormed_encode_eq (v :: s)
      exact ⟨w :: t, .unit hhigh hlow ht, by simp [encode_cons hhigh, encode, hpair, hscalar, hencode]⟩

theorem decode_encode_iff (s : Str) : decode (encode s) = s ↔ WellFormed s := by
  constructor
  · intro h
    obtain ⟨t, ht, hencode⟩ := exists_wellFormed_encode_eq s
    rw [← hencode, decode_encode ht] at h
    exact h ▸ ht
  · exact decode_encode

/-! ## ASCII -/

theorem encode_of_ascii {s : Str} (hs : ∀ u ∈ s, u.toNat < 0x80) : encode s = s.map fun u => UInt8.ofNat u.toNat := by
  induction s with
  | nil => rfl
  | cons u s ih =>
    obtain ⟨hu, hs⟩ := forall_mem_cons.mp hs
    have hhigh : isHigh u = false := isHigh_eq_false_iff.mpr (by omega)
    have hlow : isLow u = false := isLow_eq_false_iff.mpr (by omega)
    rw [encode_cons hhigh, unitScalar_of_not_surrogate hhigh hlow, encodeScalar, if_pos hu, ih hs]
    rfl

/-- A part of the bytes that reads like the whole text is all of them. -/
theorem take_encode_of_decode {s : Str} (hs : ∀ u ∈ s, u.toNat < 0x80) {n : Nat}
    (h : decode ((encode s).take n) = s) : (encode s).take n = encode s := by
  have htake : ∀ u ∈ s.take n, u.toNat < 0x80 := fun u hu => hs u (List.mem_of_mem_take hu)
  have hpart : (encode s).take n = encode (s.take n) := by
    rw [encode_of_ascii hs, encode_of_ascii htake, map_take]
  have hwell : WellFormed (s.take n) := WellFormed.of_forall fun u hu =>
    ⟨isHigh_eq_false_iff.mpr (by have := htake u hu; omega), isLow_eq_false_iff.mpr (by have := htake u hu; omega)⟩
  rw [hpart, decode_encode hwell] at h
  rw [hpart, h]

end Utf8

/-!
# UTF-8 read chunk by chunk

`Corrupts` is how the text read relates to the text written: characters of more than one byte may be replaced, each by
two or more U+FFFD.
-/

namespace Utf8

/-! ## Corrupted text -/

/-- `Corrupts s t`: `t` is `s` with some characters outside ASCII replaced by U+FFFD, two or more
for each. -/
inductive Corrupts : Str → Str → Prop
  | nil : Corrupts [] []
  | keep {c : Nat} {s t : Str} (hc : IsScalar c) (h : Corrupts s t) :
      Corrupts (scalarUnits c ++ s) (scalarUnits c ++ t)
  | lose {c : Nat} {s t : Str} (n : Nat) (hc : IsScalar c) (hascii : 0x80 ≤ c)
      (h : Corrupts s t) :
      Corrupts (scalarUnits c ++ s) (replicate (n + 2) replacement ++ t)

namespace Corrupts

/-- Well-formed text may come through unchanged. -/
theorem refl {s : Str} (hs : WellFormed s) : Corrupts s s := by
  induction hs using scalar_induction with
  | nil => exact .nil
  | scalar c s hc _ ih => exact .keep hc ih

theorem append {a b s t : Str} (hab : Corrupts a b) (hst : Corrupts s t) : Corrupts (a ++ s) (b ++ t) := by
  induction hab with
  | nil => exact hst
  | keep hc _ ih =>
    rw [append_assoc, append_assoc]
    exact .keep hc ih
  | lose n hc hascii _ ih =>
    rw [append_assoc, append_assoc]
    exact .lose n hc hascii ih

/-- A character contains U+FFFD at most once. -/
theorem count_scalarUnits_le {c : Nat} (hc : IsScalar c) : (scalarUnits c).count replacement ≤ 1 := by
  rcases scalarUnits_cases hc with ⟨u, hu, -⟩ | ⟨h, l, hu, hhigh, hlow, -⟩
  · rw [hu]
    exact count_le_length
  · have hh : h ≠ replacement := by
      rintro rfl
      simp [isHigh, replacement] at hhigh
    have hl : l ≠ replacement := by
      rintro rfl
      simp [isLow, replacement] at hlow
    rw [hu]
    simp [hh, hl]

variable {s t : Str}

/-- No U+FFFD goes away. -/
theorem count_le (h : Corrupts s t) : s.count replacement ≤ t.count replacement := by
  induction h with
  | nil => exact Nat.le_refl _
  | keep _ _ ih =>
    simp only [count_append]
    omega
  | lose n hc _ _ ih =>
    have hone := count_scalarUnits_le hc
    simp only [count_append, count_replicate_self]
    omega

/-- A lost character is seen in the text. -/
theorem lose_ne {c n : Nat} (hc : IsScalar c) (h : Corrupts s t) :
    replicate (n + 2) replacement ++ t ≠ scalarUnits c ++ s := by
  intro heq
  have hone := count_scalarUnits_le hc
  have hle := h.count_le
  have hcount := congrArg (count replacement) heq
  simp only [count_append, count_replicate_self] at hcount
  omega

/-- The first character is kept or lost. -/
theorem scalar_inv {c : Nat} (hc : IsScalar c) (h : Corrupts (scalarUnits c ++ s) t) :
    (∃ t', t = scalarUnits c ++ t' ∧ Corrupts s t') ∨
    (∃ n t', 0x80 ≤ c ∧ t = replicate (n + 2) replacement ++ t' ∧ Corrupts s t') := by
  generalize hw : scalarUnits c ++ s = w at h
  cases h with
  | nil =>
    rcases scalarUnits_cases hc with ⟨u, hu, -⟩ | ⟨u, v, hu, -⟩ <;> simp [hu] at hw
  | @keep c' s' t' hc' h =>
    obtain ⟨rfl, rfl⟩ := scalarUnits_append_inj hc hc' hw
    exact .inl ⟨t', rfl, h⟩
  | @lose c' s' t' n hc' hascii h =>
    obtain ⟨rfl, rfl⟩ := scalarUnits_append_inj hc hc' hw
    exact .inr ⟨n, t', hascii, rfl, h⟩

/-- What comes of a text and what follows it is what comes of each. -/
theorem split {a b t : Str} (ha : WellFormed a) (h : Corrupts (a ++ b) t) :
    ∃ t₁ t₂, t = t₁ ++ t₂ ∧ Corrupts a t₁ ∧ Corrupts b t₂ := by
  induction ha using scalar_induction generalizing t with
  | nil => exact ⟨[], t, rfl, .nil, h⟩
  | scalar c a hc _ ih =>
    rw [append_assoc] at h
    rcases h.scalar_inv hc with ⟨t', rfl, h'⟩ | ⟨n, t', hascii, rfl, h'⟩
    · obtain ⟨t₁, t₂, rfl, h₁, h₂⟩ := ih h'
      exact ⟨scalarUnits c ++ t₁, t₂, by simp, .keep hc h₁, h₂⟩
    · obtain ⟨t₁, t₂, rfl, h₁, h₂⟩ := ih h'
      exact ⟨replicate (n + 2) replacement ++ t₁, t₂, by simp, .lose n hc hascii h₁, h₂⟩

theorem eq_nil {t : Str} (h : Corrupts [] t) : t = [] := by
  generalize hw : [] = w at h
  cases h with
  | nil => rfl
  | keep hc _ =>
    rcases scalarUnits_cases hc with ⟨u, hu, -⟩ | ⟨u, v, hu, -⟩ <;> simp [hu] at hw
  | lose _ hc _ _ =>
    rcases scalarUnits_cases hc with ⟨u, hu, -⟩ | ⟨u, v, hu, -⟩ <;> simp [hu] at hw

/-- A unit that is no surrogate is kept, or it is outside ASCII and lost. -/
theorem unit_inv {u : UInt16} (hhigh : isHigh u = false) (hlow : isLow u = false) (h : Corrupts (u :: s) t) :
    ∃ t', Corrupts s t' ∧ (t = u :: t' ∨ ∃ n, 0x80 ≤ u.toNat ∧ t = replicate (n + 2) replacement ++ t') := by
  have hval := unitScalar_of_not_surrogate hhigh hlow
  have hunits := scalarUnits_unit hhigh hlow
  rw [← singleton_append, ← hunits] at h
  rcases h.scalar_inv (isScalar_unit hhigh hlow) with ⟨t', rfl, h'⟩ | ⟨n, t', hascii, rfl, h'⟩
  · exact ⟨t', h', .inl (by rw [hunits, singleton_append])⟩
  · exact ⟨t', h', .inr ⟨n, by omega, rfl⟩⟩

/-- A pair is kept or lost as a whole. -/
theorem pair_inv {u v : UInt16} (hhigh : isHigh u) (hlow : isLow v) (h : Corrupts (u :: v :: s) t) :
    ∃ t', Corrupts s t' ∧ (t = u :: v :: t' ∨ ∃ n, t = replicate (n + 2) replacement ++ t') := by
  have hunits := scalarUnits_pair hhigh hlow
  have happend (r : Str) : scalarUnits (pairScalar u v) ++ r = u :: v :: r := by
    simp only [hunits, cons_append, nil_append]
  rw [← happend] at h
  generalize hc : pairScalar u v = c at *
  have hscalar : IsScalar c := hc ▸ isScalar_pair hhigh hlow
  rcases h.scalar_inv hscalar with ⟨t', rfl, h'⟩ | ⟨n, t', -, rfl, h'⟩
  · exact ⟨t', h', .inl (happend t')⟩
  · exact ⟨t', h', .inr ⟨n, rfl⟩⟩

/-- ASCII comes through unchanged. -/
theorem cons_ascii {u : UInt16} (hu : u.toNat < 0x80) (h : Corrupts (u :: s) t) :
    ∃ t', t = u :: t' ∧ Corrupts s t' := by
  have hhigh : isHigh u = false := isHigh_eq_false_iff.mpr (by omega)
  have hlow : isLow u = false := isLow_eq_false_iff.mpr (by omega)
  obtain ⟨t', h', rfl | ⟨n, hascii, -⟩⟩ := h.unit_inv hhigh hlow
  · exact ⟨t', rfl, h'⟩
  · omega

theorem eq_of_ascii (hs : ∀ u ∈ s, u.toNat < 0x80) (h : Corrupts s t) : t = s := by
  induction s generalizing t with
  | nil => exact h.eq_nil
  | cons u s ih =>
    obtain ⟨hu, hs⟩ := forall_mem_cons.mp hs
    obtain ⟨t', rfl, h'⟩ := h.cons_ascii hu
    rw [ih hs h']

end Corrupts

/-! ## Cuts -/

/-- A cut of the bytes of a text falls between two characters or inside one. -/
theorem encode_cut {s : Str} (hs : WellFormed s) {p q : List UInt8} (hpq : encode s = p ++ q) :
    (∃ a b, s = a ++ b ∧ WellFormed a ∧ WellFormed b ∧ p = encode a ∧ q = encode b) ∨
    (∃ a c b p' q', s = a ++ (scalarUnits c ++ b) ∧ WellFormed a ∧ WellFormed b ∧ IsScalar c ∧
      p' ≠ [] ∧ q' ≠ [] ∧ encodeScalar c = p' ++ q' ∧ p = encode a ++ p' ∧ q = q' ++ encode b) := by
  induction hs using scalar_induction generalizing p with
  | nil =>
    obtain ⟨rfl, rfl⟩ := append_eq_nil_iff.mp hpq.symm
    exact .inl ⟨[], [], rfl, .nil, .nil, rfl, rfl⟩
  | scalar c s hc hs ih =>
    have hwf := wellFormed_scalarUnits hc
    rw [encode_scalarUnits_append hc] at hpq
    rcases append_eq_append_iff.mp hpq with ⟨p', rfl, hrest⟩ | ⟨q', hscalar, rfl⟩
    · -- the cut is past this character
      rcases ih hrest with ⟨a, b, rfl, ha, hb, rfl, rfl⟩ |
        ⟨a, d, b, p'', q'', rfl, ha, hb, hd, hp, hq, hcut, rfl, rfl⟩
      · refine .inl ⟨scalarUnits c ++ a, b, by simp, hwf.append ha, hb, ?_, rfl⟩
        rw [encode_scalarUnits_append hc]
      · refine .inr ⟨scalarUnits c ++ a, d, b, p'', q'', by simp, hwf.append ha, hb, hd, hp, hq, hcut, ?_, rfl⟩
        rw [encode_scalarUnits_append hc, append_assoc]
    · by_cases hp : p = []
      · subst hp
        refine .inl ⟨[], scalarUnits c ++ s, rfl, .nil, hwf.append hs, rfl, ?_⟩
        rw [encode_scalarUnits_append hc, hscalar]
        rfl
      by_cases hq : q' = []
      · subst hq
        refine .inl ⟨scalarUnits c, s, rfl, hwf, hs, ?_, rfl⟩
        have henc := encode_scalarUnits_append hc []
        rw [append_nil] at henc
        rw [henc, hscalar]
        simp [encode]
      · exact .inr ⟨[], c, s, p, q', rfl, .nil, hs, hc, hp, hq, hscalar, rfl, rfl⟩

/-- Text starts with a character, so its bytes do not start inside one. -/
theorem encode_head {s : Str} (hs : WellFormed s) {b : UInt8} {bs : List UInt8}
    (h : encode s = b :: bs) : isContinuation b = false := by
  induction hs using scalar_induction with
  | nil => cases h
  | scalar c s hc _ _ =>
    rw [encode_scalarUnits_append hc] at h
    cases hscalar : encodeScalar c with
    | nil =>
      exfalso
      rcases Nat.lt_or_ge c 0x80 with hlt | hge
      · rw [encodeScalar, if_pos hlt] at hscalar
        cases hscalar
      · obtain ⟨b', bs', st, heq, -⟩ := encodeScalar_cons hc hge
        rw [heq] at hscalar
        cases hscalar
    | cons x xs =>
      rw [hscalar] at h
      obtain ⟨rfl, -⟩ := cons.inj h
      exact encodeScalar_head hc hscalar

/-! ## Chunks -/

/-- The chunk begins inside a character. -/
def beginsInside (c : List UInt8) : Bool :=
  match c with
  | [] => false
  | b :: _ => isContinuation b

/-- Chunks that begin with the bytes `b :: bs` have one that begins with `b`. -/
theorem exists_chunk_of_flatten {cs : List (List UInt8)} {b : UInt8} {bs : List UInt8}
    (h : cs.flatten = b :: bs) : ∃ c ∈ cs, c.head? = some b := by
  induction cs with
  | nil => cases h
  | cons c cs ih =>
    cases c with
    | nil =>
      obtain ⟨c', hc', hhead⟩ := ih (by simpa using h)
      exact ⟨c', by simp [hc'], hhead⟩
    | cons x c =>
      obtain ⟨rfl, -⟩ := cons.inj h
      exact ⟨x :: c, by simp, rfl⟩

/-- A text without bytes is empty. -/
theorem eq_nil_of_encode {s : Str} (hs : WellFormed s) (h : encode s = []) : s = [] := by
  have hdecode := decode_encode hs
  rw [h] at hdecode
  exact hdecode.symm

/-- A chunk that begins with a text does not begin inside a character. -/
theorem beginsInside_encode {s : Str} (hs : WellFormed s) : beginsInside (encode s) = false := by
  cases henc : encode s with
  | nil => rfl
  | cons b bs => exact encode_head hs henc

/-- Chunks of a text that begin, after an earlier cut, with the rest `q` of a character. The bytes
of `q` are lost, and what follows is corrupted text, intact exactly if no chunk begins inside a
character. -/
theorem flatMap_decode_aux {cs : List (List UInt8)} {q : List UInt8}
    (hq : ∀ b ∈ q, isContinuation b) {s : Str} (hs : WellFormed s) (hflat : cs.flatten = q ++ encode s) :
    ∃ t, cs.flatMap decode = replicate q.length replacement ++ t ∧ Corrupts s t ∧
      (q = [] → (t = s ↔ ∀ c ∈ cs, beginsInside c = false)) := by
  induction cs generalizing q s with
  | nil =>
    obtain ⟨rfl, henc⟩ := append_eq_nil_iff.mp hflat.symm
    obtain rfl := eq_nil_of_encode hs henc
    exact ⟨[], rfl, .nil, by simp⟩
  | cons c cs ih =>
    rcases append_eq_append_iff.mp hflat with ⟨q', rfl, hrest⟩ | ⟨c', rfl, hrest⟩
    · -- the chunk ends before the lost character does
      have hc : ∀ b ∈ c, isContinuation b := fun b hb => hq b (by simp [hb])
      obtain ⟨t, htext, hcor, hiff⟩ := ih (fun b hb => hq b (by simp [hb])) hs hrest
      have hdecode : decode c = replicate c.length replacement := by
        simpa using decode_continuations hc []
      refine ⟨t, ?_, hcor, ?_⟩
      · rw [flatMap_cons, hdecode, htext, length_append, replicate_add, append_assoc]
      · intro hnil
        obtain ⟨rfl, rfl⟩ := append_eq_nil_iff.mp hnil
        simpa [beginsInside] using hiff rfl
    · have hlost : decode (q ++ c') = replicate q.length replacement ++ decode c' := decode_continuations hq c'
      rcases encode_cut hs hrest with ⟨a, b, rfl, ha, hb, rfl, htail⟩ |
        ⟨a, k, b, p', q', rfl, ha, hb, hk, hp, hq', hcut, rfl, htail⟩
      · -- it ends between two characters
        obtain ⟨t, htext, hcor, hiff⟩ := ih (q := []) (by simp) hb (by simpa using htail)
        refine ⟨a ++ t, ?_, (Corrupts.refl ha).append hcor, ?_⟩
        · rw [flatMap_cons, hlost, decode_encode ha, htext]
          simp
        · rintro rfl
          rw [append_cancel_left_eq, hiff rfl, forall_mem_cons, nil_append]
          simp [beginsInside_encode ha]
      · -- it ends inside the character `k`
        have hcont := isContinuation_of_cut hk hp hcut
        obtain ⟨t, htext, hcor, -⟩ := ih hcont hb htail
        have hrep : replacement :: replicate q'.length replacement =
            replicate (q'.length - 1 + 2) replacement := by
          have hlen := length_pos_iff.mpr hq'
          rw [← replicate_succ]
          congr 1
          omega
        refine ⟨a ++ (replicate (q'.length - 1 + 2) replacement ++ t), ?_,
          (Corrupts.refl ha).append (.lose _ hk (le_of_cut hp hq' hcut) hcor), ?_⟩
        · rw [flatMap_cons, hlost, decode_encode_append ha, decode_cut hk hp hq' hcut, htext, ← hrep]
          simp
        · rintro rfl
          have hne : a ++ (replicate (q'.length - 1 + 2) replacement ++ t) ≠
              a ++ (scalarUnits k ++ b) := fun heq =>
            Corrupts.lose_ne hk hcor (append_cancel_left heq)
          refine ⟨fun heq => absurd heq hne, fun hall => ?_⟩
          cases q' with
          | nil => exact absurd rfl hq'
          | cons x xs =>
            -- the next byte is in some later chunk, which begins with it
            obtain ⟨d, hd, hhead⟩ := exists_chunk_of_flatten htail
            have hinside := hall d (by simp [hd])
            cases d with
            | nil => cases hhead
            | cons y ys =>
              obtain rfl := Option.some.inj hhead
              rw [beginsInside, hcont y (by simp)] at hinside
              exact Bool.noConfusion hinside

/-- The chunks of a text, each decoded by itself, give a corruption of the text, and the text
itself exactly when no chunk begins inside a character. -/
theorem flatMap_decode {cs : List (List UInt8)} {s : Str} (hs : WellFormed s) (hflat : cs.flatten = encode s) :
    Corrupts s (cs.flatMap decode) ∧ (cs.flatMap decode = s ↔ ∀ c ∈ cs, beginsInside c = false) := by
  obtain ⟨t, htext, hcor, hiff⟩ := flatMap_decode_aux (q := []) (by simp) hs (by simpa using hflat)
  obtain rfl : cs.flatMap decode = t := by simpa using htext
  exact ⟨hcor, hiff rfl⟩

end Utf8
