-- SUMMARY: The RC2 cipher of the PKCS#12 reader, and that it inverts the encryption of its RFC.
import Tracenium.Lib.Chaining
import Tracenium.Lib.Utf16
import Mathlib.Logic.Function.Basic
import Mathlib.Data.Fin.Basic
import Mathlib.Logic.Function.Iterate
import Mathlib.Tactic.Ring

/-!
`rc2ExpandKey`, `rc2DecryptBlock` and `rc2CbcDecrypt` decrypt; `Expansion` and `encryptBlock` say what RFC 2268 expands
and encrypts. The four words of a block are indexed by `Fin 4`, so the word before the first is the last.
-/

open Utf16 Function List Nat

namespace Cdp.Rc2

def PITABLE : List UInt8 := [
    0xD9, 0x78, 0xF9, 0xC4, 0x19, 0xDD, 0xB5, 0xED, 0x28, 0xE9, 0xFD, 0x79, 0x4A, 0xA0, 0xD8, 0x9D,
    0xC6, 0x7E, 0x37, 0x83, 0x2B, 0x76, 0x53, 0x8E, 0x62, 0x4C, 0x64, 0x88, 0x44, 0x8B, 0xFB, 0xA2,
    0x17, 0x9A, 0x59, 0xF5, 0x87, 0xB3, 0x4F, 0x13, 0x61, 0x45, 0x6D, 0x8D, 0x09, 0x81, 0x7D, 0x32,
    0xBD, 0x8F, 0x40, 0xEB, 0x86, 0xB7, 0x7B, 0x0B, 0xF0, 0x95, 0x21, 0x22, 0x5C, 0x6B, 0x4E, 0x82,
    0x54, 0xD6, 0x65, 0x93, 0xCE, 0x60, 0xB2, 0x1C, 0x73, 0x56, 0xC0, 0x14, 0xA7, 0x8C, 0xF1, 0xDC,
    0x12, 0x75, 0xCA, 0x1F, 0x3B, 0xBE, 0xE4, 0xD1, 0x42, 0x3D, 0xD4, 0x30, 0xA3, 0x3C, 0xB6, 0x26,
    0x6F, 0xBF, 0x0E, 0xDA, 0x46, 0x69, 0x07, 0x57, 0x27, 0xF2, 0x1D, 0x9B, 0xBC, 0x94, 0x43, 0x03,
    0xF8, 0x11, 0xC7, 0xF6, 0x90, 0xEF, 0x3E, 0xE7, 0x06, 0xC3, 0xD5, 0x2F, 0xC8, 0x66, 0x1E, 0xD7,
    0x08, 0xE8, 0xEA, 0xDE, 0x80, 0x52, 0xEE, 0xF7, 0x84, 0xAA, 0x72, 0xAC, 0x35, 0x4D, 0x6A, 0x2A,
    0x96, 0x1A, 0xD2, 0x71, 0x5A, 0x15, 0x49, 0x74, 0x4B, 0x9F, 0xD0, 0x5E, 0x04, 0x18, 0xA4, 0xEC,
    0xC2, 0xE0, 0x41, 0x6E, 0x0F, 0x51, 0xCB, 0xCC, 0x24, 0x91, 0xAF, 0x50, 0xA1, 0xF4, 0x70, 0x39,
    0x99, 0x7C, 0x3A, 0x85, 0x23, 0xB8, 0xB4, 0x7A, 0xFC, 0x02, 0x36, 0x5B, 0x25, 0x55, 0x97, 0x31,
    0x2D, 0x5D, 0xFA, 0x98, 0xE3, 0x8A, 0x92, 0xAE, 0x05, 0xDF, 0x29, 0x10, 0x67, 0x6C, 0xBA, 0xC9,
    0xD3, 0x00, 0xE6, 0xCF, 0xE1, 0x9E, 0xA8, 0x2C, 0x63, 0x16, 0x01, 0x3F, 0x58, 0xE2, 0x89, 0xA9,
    0x0D, 0x38, 0x34, 0x1B, 0xAB, 0x33, 0xFF, 0xB0, 0xBB, 0x48, 0x0C, 0x5F, 0xB9, 0xB1, 0xCD, 0x2E,
    0xC5, 0xF3, 0xDB, 0x47, 0xE5, 0xA5, 0x9C, 0x77, 0x0A, 0xA6, 0x20, 0x68, 0xFE, 0x7F, 0xC1, 0xAD]

def pi (b : UInt8) : UInt8 := PITABLE.getD b.toNat 0

/-! ## Keys -/

/-- `Math.ceil(effectiveBits / 8)`. -/
def keyBytes (effectiveBits : Nat) : Nat := (effectiveBits + 7) / 8

/-- `0xff % (1 << (8 + effectiveBits - 8 * T8))`. -/
def keyMask (effectiveBits : Nat) : UInt8 := UInt8.ofNat (0xFF % 2 ^ (8 + effectiveBits - 8 * keyBytes effectiveBits))

/-- One byte after another, each written by what is in the buffer so far. -/
def writeAll (f : List UInt8 → Nat → UInt8) (L : List UInt8) (is : List Nat) : List UInt8 :=
  is.foldl (fun L i => L.set i (f L i)) L

def expandUp (T : Nat) (L : List UInt8) (i : Nat) : UInt8 := pi (L.getD (i - 1) 0 + L.getD (i - T) 0)

def expandDown (T8 : Nat) (L : List UInt8) (i : Nat) : UInt8 := pi (L.getD (i + 1) 0 ^^^ L.getD (i + T8) 0)

def rc2ExpandKey (key : List UInt8) (effectiveBits : Nat) : List UInt16 :=
  let T := key.length
  let T8 := keyBytes effectiveBits
  let L := writeAll (expandUp T) (key ++ replicate (128 - T) 0) (range' T (128 - T))
  let L := L.set (128 - T8) (pi (L.getD (128 - T8) 0 &&& keyMask effectiveBits))
  let L := writeAll (expandDown T8) L (range (128 - T8)).reverse
  (range 64).map fun i => (L.getD (2 * i) 0).toUInt16 ||| (L.getD (2 * i + 1) 0).toUInt16 <<< 8

/-! ## Blocks -/

/-- The words of a block, and the index of a word of the key. -/
structure State where
  R : Fin 4 → UInt16
  j : Int

def S (i : Fin 4) : UInt16 := [1, 2, 3, 5].getD i 0

def keyAt (K : List UInt16) (j : Int) : UInt16 := K.getD j.toNat 0

def unmixAt (K : List UInt16) (s : State) (i : Fin 4) : State :=
  let R := update s.R i ((s.R i >>> S i) ||| (s.R i <<< (16 - S i)))
  ⟨update R i
    (R i - keyAt K s.j - (R (i + 3) &&& R (i + 2)) - (~~~R (i + 3) &&& R (i + 1))), s.j - 1⟩

def rmix (K : List UInt16) (s : State) : State := [3, 2, 1, 0].foldl (unmixAt K) s

def unmashAt (K : List UInt16) (s : State) (i : Fin 4) : State :=
  { s with R := update s.R i (s.R i - K.getD (s.R (i + 3) &&& 63).toNat 0) }

def rmash (K : List UInt16) (s : State) : State := [3, 2, 1, 0].foldl (unmashAt K) s

/-- `readUInt16LE`, word by word. -/
def words (block : List UInt8) (i : Fin 4) : UInt16 :=
  (block.getD (2 * i) 0).toUInt16 ||| (block.getD (2 * i + 1) 0).toUInt16 <<< 8

/-- `writeUInt16LE`. -/
def wordBytes (w : UInt16) : List UInt8 := [w.toUInt8, (w >>> 8).toUInt8]

def toBlock (R : Fin 4 → UInt16) : List UInt8 := [0, 1, 2, 3].flatMap fun i => wordBytes (R i)

def decryptRounds (K : List UInt16) (s : State) : State :=
  (rmix K)^[5] (rmash K ((rmix K)^[6] (rmash K ((rmix K)^[5] s))))

def rc2DecryptBlock (K : List UInt16) (block : List UInt8) : List UInt8 :=
  toBlock (decryptRounds K ⟨words block, 63⟩).R

def rc2DecryptEcbBlock (key : List UInt8) (effectiveBits : Nat) (block : List UInt8) : List UInt8 :=
  rc2DecryptBlock (rc2ExpandKey key effectiveBits) block

/-! ## Messages -/

/-- The loop of `rc2CbcDecrypt`. -/
def cbcFrom (K : List UInt16) (prev data : List UInt8) : List UInt8 :=
  if data.isEmpty then []
  else
    let c := data.take 8
    zipWith (· ^^^ ·) (rc2DecryptBlock K c) prev ++ cbcFrom K c (data.drop 8)
termination_by data.length
decreasing_by
  have hne : data ≠ [] := by simpa using ‹¬ data.isEmpty = true›
  have := length_pos_iff.mpr hne
  rw [length_drop]
  omega

/-- The error is the message of a `Pkcs12Error`. -/
def stripPkcs7 (buf : List UInt8) : Except Str (List UInt8) :=
  let pad := (buf.getLastD 0).toNat
  if pad < 1 ∨ 8 < pad then .error (text "decryption failed")
  else if (buf.drop (buf.length - pad)).any fun b => b.toNat ≠ pad then .error (text "decryption failed")
  else .ok (buf.take (buf.length - pad))

def rc2CbcDecrypt (key : List UInt8) (effectiveBits : Nat) (iv data : List UInt8) : Except Str (List UInt8) :=
  if data.length = 0 ∨ data.length % 8 ≠ 0 then .error (text "bad RC2 ciphertext length")
  else stripPkcs7 (cbcFrom (rc2ExpandKey key effectiveBits) iv data)

/-! ## RFC 2268 -/

/-- The expanded key of RFC 2268, section 2, as the bytes before and after the key is reduced. -/
structure Expansion (key : List UInt8) (effectiveBits : Nat) (L L' : List UInt8) (K : List UInt16) : Prop where
  lengths : L.length = 128 ∧ L'.length = 128 ∧ K.length = 64
  low : ∀ i < key.length, L.getD i 0 = key.getD i 0
  up : ∀ i, key.length ≤ i → i < 128 → L.getD i 0 = pi (L.getD (i - 1) 0 + L.getD (i - key.length) 0)
  mask : L'.getD (128 - keyBytes effectiveBits) 0 =
    pi (L.getD (128 - keyBytes effectiveBits) 0 &&& keyMask effectiveBits)
  keep : ∀ i, 128 - keyBytes effectiveBits < i → L'.getD i 0 = L.getD i 0
  down : ∀ i < 128 - keyBytes effectiveBits, L'.getD i 0 =
    pi (L'.getD (i + 1) 0 ^^^ L'.getD (i + keyBytes effectiveBits) 0)
  words : ∀ i < 64, (K.getD i 0).toNat = (L'.getD (2 * i) 0).toNat + 256 * (L'.getD (2 * i + 1) 0).toNat

def mixAt (K : List UInt16) (s : State) (i : Fin 4) : State :=
  let sum := s.R i + keyAt K s.j + (s.R (i - 1) &&& s.R (i - 2)) + (~~~s.R (i - 1) &&& s.R (i - 3))
  ⟨update s.R i ((sum <<< S i) ||| (sum >>> (16 - S i))), s.j + 1⟩

def mix (K : List UInt16) (s : State) : State := [0, 1, 2, 3].foldl (mixAt K) s

def mashAt (K : List UInt16) (s : State) (i : Fin 4) : State :=
  { s with R := update s.R i (s.R i + K.getD (s.R (i - 1) &&& 63).toNat 0) }

def mash (K : List UInt16) (s : State) : State := [0, 1, 2, 3].foldl (mashAt K) s

def encryptRounds (K : List UInt16) (s : State) : State :=
  (mix K)^[5] (mash K ((mix K)^[6] (mash K ((mix K)^[5] s))))

def encryptBlock (K : List UInt16) (block : List UInt8) : List UInt8 :=
  toBlock (encryptRounds K ⟨words block, 0⟩).R

end Cdp.Rc2

/-! # RC2 decryption -/

namespace Cdp.Rc2

/-! ## Steps -/

section Steps

variable {α : Type*} {shift f g f' g' : α → α}

/-- After `f`, and a shift, `g` leaves the shift only. -/
def Undoes (shift g f : α → α) : Prop := ∀ s, g (shift (f s)) = shift s

theorem Undoes.comp (h : Undoes shift g f) (h' : Undoes shift g' f') : Undoes shift (g ∘ g') (f' ∘ f) := by
  intro s
  rw [comp_apply, comp_apply, h' (f s), h s]

theorem Undoes.iterate (h : Undoes shift g f) (n : Nat) : Undoes shift g^[n] f^[n] := by
  induction n with
  | zero => exact fun _ => rfl
  | succ n ih =>
    rw [iterate_succ', iterate_succ]
    exact h.comp ih

/-- The key word before, and the one after. -/
def back (s : State) : State := { s with j := s.j - 1 }

def forth (s : State) : State := { s with j := s.j + 1 }

theorem before (i : Fin 4) : i + 3 = i - 1 ∧ i + 2 = i - 2 ∧ i + 1 = i - 3 := by
  revert i
  decide

theorem before_ne (i : Fin 4) : i - 1 ≠ i ∧ i - 2 ≠ i ∧ i - 3 ≠ i := by
  revert i
  decide

/-- Rotating a word back gives the word. -/
theorem rotate_back (x : UInt16) {k l : UInt16} (hk : 0 < k.toNat) (hl : 0 < l.toNat)
    (hsum : k.toNat + l.toNat = 16) : ((x <<< k) ||| (x >>> l)) >>> k ||| ((x <<< k) ||| (x >>> l)) <<< l = x := by
  apply UInt16.toBitVec_inj.mp
  refine BitVec.eq_of_getLsbD_eq fun n hn => ?_
  have hk' : (k.toBitVec % 16).toNat = k.toNat := by
    have hmod := mod_eq_of_lt (show k.toNat < 16 by omega)
    simpa using hmod
  have hl' : (l.toBitVec % 16).toNat = l.toNat := by
    have hmod := mod_eq_of_lt (show l.toNat < 16 by omega)
    simpa using hmod
  -- no bit is at 16 or above
  have hhigh : x.toBitVec.getLsbD (l.toNat + (k.toNat + n)) = false := BitVec.getLsbD_of_ge _ _ (by omega)
  simp only [UInt16.toBitVec_or, UInt16.toBitVec_shiftRight, UInt16.toBitVec_shiftLeft, BitVec.getLsbD_or,
    BitVec.shiftLeft_eq', BitVec.ushiftRight_eq', hk', hl', BitVec.getLsbD_shiftLeft, BitVec.getLsbD_ushiftRight]
  by_cases hn' : n < l.toNat
  · have hlow : k.toNat + n < 16 := by omega
    simp [hn', hlow, hhigh]
  · have hlow : ¬ k.toNat + n < 16 := by omega
    have hlt : n - l.toNat < k.toNat := by omega
    have hadd : l.toNat + (n - l.toNat) = n := by omega
    simp [hn, hn', hlt, hadd, hhigh]

theorem shifts (i : Fin 4) : 0 < (S i).toNat ∧ 0 < (16 - S i).toNat ∧ (S i).toNat + (16 - S i).toNat = 16 := by
  revert i
  decide

theorem rotate_right_left (x : UInt16) (i : Fin 4) :
    ((x <<< S i) ||| (x >>> (16 - S i))) >>> S i ||| ((x <<< S i) ||| (x >>> (16 - S i))) <<< (16 - S i) = x :=
  rotate_back x (shifts i).1 (shifts i).2.1 (shifts i).2.2

theorem rotate_left_right (x : UInt16) (i : Fin 4) :
    ((x >>> S i) ||| (x <<< (16 - S i))) <<< S i ||| ((x >>> S i) ||| (x <<< (16 - S i))) >>> (16 - S i) = x := by
  have hback := rotate_back x (shifts i).2.1 (shifts i).1 (by rw [add_comm]; exact (shifts i).2.2)
  rwa [UInt16.or_comm (x <<< (16 - S i)), UInt16.or_comm (_ >>> (16 - S i))] at hback

variable (K : List UInt16)

theorem undoes_unmixAt (i : Fin 4) : Undoes back (unmixAt K · i) (mixAt K · i) := by
  intro s
  obtain ⟨hthree, htwo, hone⟩ := before i
  obtain ⟨hne, hne', hne''⟩ := before_ne i
  have hsub (x k a b : UInt16) : x + k + a + b - k - a - b = x := by grind
  simp only [unmixAt, mixAt, back, hthree, htwo, hone, update_self, update_of_ne hne,
    update_of_ne hne', update_of_ne hne'', rotate_right_left, update_idem,
    Int.add_sub_cancel, hsub, update_eq_self]

theorem undoes_mixAt (i : Fin 4) : Undoes forth (mixAt K · i) (unmixAt K · i) := by
  intro s
  obtain ⟨hthree, htwo, hone⟩ := before i
  obtain ⟨hne, hne', hne''⟩ := before_ne i
  have hadd (x k a b : UInt16) : x - k - a - b + k + a + b = x := by grind
  simp only [unmixAt, mixAt, forth, hthree, htwo, hone, update_self, update_of_ne hne,
    update_of_ne hne', update_of_ne hne'', rotate_left_right, update_idem,
    Int.sub_add_cancel, hadd, update_eq_self]

theorem undoes_unmashAt (i : Fin 4) : Undoes back (unmashAt K · i) (mashAt K · i) := by
  intro s
  have hsub (x k : UInt16) : x + k - k = x := by grind
  simp only [unmashAt, mashAt, back, (before i).1, update_self, update_of_ne (before_ne i).1,
    update_idem, hsub, update_eq_self]

theorem undoes_mashAt (i : Fin 4) : Undoes forth (mashAt K · i) (unmashAt K · i) := by
  intro s
  have hadd (x k : UInt16) : x - k + k = x := by grind
  simp only [unmashAt, mashAt, forth, (before i).1, update_self, update_of_ne (before_ne i).1,
    update_idem, hadd, update_eq_self]

/-! ## Rounds -/

/-- Steps that undo others one by one undo them in the opposite order. -/
theorem undoes_foldl {ι : Type*} {u m : α → ι → α} (h : ∀ i, Undoes shift (u · i) (m · i)) (is : List ι) :
    Undoes shift (is.reverse.foldl u ·) (is.foldl m ·) := by
  induction is with
  | nil => exact fun _ => rfl
  | cons i is ih =>
    intro s
    have hrest : is.reverse.foldl u (shift (is.foldl m (m s i))) = shift (m s i) := ih (m s i)
    simpa [hrest] using h i s

theorem undoes_rmix : Undoes back (rmix K) (mix K) := undoes_foldl (undoes_unmixAt K) [0, 1, 2, 3]

theorem undoes_mix : Undoes forth (mix K) (rmix K) := undoes_foldl (undoes_mixAt K) [3, 2, 1, 0]

theorem undoes_rmash : Undoes back (rmash K) (mash K) := undoes_foldl (undoes_unmashAt K) [0, 1, 2, 3]

theorem undoes_mash : Undoes forth (mash K) (rmash K) := undoes_foldl (undoes_mashAt K) [3, 2, 1, 0]

theorem undoes_decryptRounds : Undoes back (decryptRounds K) (encryptRounds K) := by
  have hdecrypt : decryptRounds K = (rmix K)^[5] ∘ rmash K ∘ (rmix K)^[6] ∘ rmash K ∘ (rmix K)^[5] := by
    funext s
    simp only [decryptRounds, comp_apply]
  have hencrypt : encryptRounds K = ((((mix K)^[5] ∘ mash K) ∘ (mix K)^[6]) ∘ mash K) ∘ (mix K)^[5] := by
    funext s
    simp only [encryptRounds, comp_apply]
  have hmash := undoes_rmash K
  have hmix := (undoes_rmix K).iterate
  rw [hdecrypt, hencrypt]
  exact (hmix 5).comp (hmash.comp ((hmix 6).comp (hmash.comp (hmix 5))))

theorem undoes_encryptRounds : Undoes forth (encryptRounds K) (decryptRounds K) := by
  have hencrypt : encryptRounds K = (mix K)^[5] ∘ mash K ∘ (mix K)^[6] ∘ mash K ∘ (mix K)^[5] := by
    funext s
    simp only [encryptRounds, comp_apply]
  have hdecrypt : decryptRounds K = ((((rmix K)^[5] ∘ rmash K) ∘ (rmix K)^[6]) ∘ rmash K) ∘ (rmix K)^[5] := by
    funext s
    simp only [decryptRounds, comp_apply]
  have hmash := undoes_mash K
  have hmix := (undoes_mix K).iterate
  rw [hdecrypt, hencrypt]
  exact (hmix 5).comp (hmash.comp ((hmix 6).comp (hmash.comp (hmix 5))))

theorem j_mix (s : State) : (mix K s).j = s.j + 4 := by
  simp only [mix, foldl_cons, foldl_nil, mixAt]
  omega

theorem j_rmix (s : State) : (rmix K s).j = s.j - 4 := by
  simp only [rmix, foldl_cons, foldl_nil, unmixAt]
  omega

theorem j_iterate {f : State → State} {d : Int} (h : ∀ s, (f s).j = s.j + d) (n : Nat) (s : State) :
    (f^[n] s).j = s.j + n * d := by
  induction n generalizing s with
  | zero => simp
  | succ n ih =>
    rw [iterate_succ_apply, ih, h, cast_succ, add_mul]
    ring

theorem j_encryptRounds (s : State) : (encryptRounds K s).j = s.j + 64 := by
  have hmix := j_iterate (j_mix K)
  have hmash (s : State) : (mash K s).j = s.j := rfl
  simp only [encryptRounds, hmix, hmash]
  omega

theorem j_decryptRounds (s : State) : (decryptRounds K s).j = s.j - 64 := by
  have hrmix := j_iterate (d := -4) (j_rmix K)
  have hrmash (s : State) : (rmash K s).j = s.j := rfl
  simp only [decryptRounds, hrmix, hrmash]
  omega

end Steps

/-! ## Blocks -/

section Blocks

variable (K : List UInt16)

theorem length_toBlock (R : Fin 4 → UInt16) : (toBlock R).length = 8 := rfl

/-- A word is read back from its bytes. -/
theorem word_bytes (w : UInt16) : w.toUInt8.toUInt16 ||| (w >>> 8).toUInt8.toUInt16 <<< 8 = w := by
  apply UInt16.toBitVec_inj.mp
  refine BitVec.eq_of_getLsbD_eq fun n hn => ?_
  by_cases hlow : n < 8
  · simp [hn, hlow, -UInt16.toUInt16_toUInt8]
  · have hhigh : n - 8 < 8 := by omega
    have hadd : 8 + (n - 8) = n := by omega
    simp [hn, hlow, hhigh, hadd, -UInt16.toUInt16_toUInt8]

/-- Two bytes are read back from their word. -/
theorem bytes_word (a b : UInt8) : wordBytes (a.toUInt16 ||| b.toUInt16 <<< 8) = [a, b] := by
  have hlow : (a.toUInt16 ||| b.toUInt16 <<< 8).toUInt8 = a := by
    apply UInt8.toBitVec_inj.mp
    refine BitVec.eq_of_getLsbD_eq fun n hn => ?_
    simp
  have hhigh : ((a.toUInt16 ||| b.toUInt16 <<< 8) >>> 8).toUInt8 = b := by
    apply UInt8.toBitVec_inj.mp
    refine BitVec.eq_of_getLsbD_eq fun n hn => ?_
    have hn' : 8 + n < 16 := by omega
    simp [hn, hn']
  rw [wordBytes, hlow, hhigh]

theorem words_toBlock (R : Fin 4 → UInt16) : words (toBlock R) = R := by
  funext i
  match i with
  | 0 | 1 | 2 | 3 => exact word_bytes _

theorem toBlock_words {block : List UInt8} (h : block.length = 8) : toBlock (words block) = block := by
  match block, h with
  | [a, b, c, d, e, f, g, h], _ => simp [toBlock, words, bytes_word]

theorem length_encryptBlock (block : List UInt8) : (encryptBlock K block).length = 8 := rfl

theorem length_rc2DecryptBlock (block : List UInt8) : (rc2DecryptBlock K block).length = 8 := rfl

theorem rc2DecryptBlock_encryptBlock (block : List UInt8) (h : block.length = 8) :
    rc2DecryptBlock K (encryptBlock K block) = block := by
  -- the encryption is at word 64 in the end, and the decryption starts one back
  have hback : back (encryptRounds K ⟨words block, 0⟩) = ⟨(encryptRounds K ⟨words block, 0⟩).R, 63⟩ := by
    simp [back, j_encryptRounds]
  have hundo := undoes_decryptRounds K ⟨words block, 0⟩
  rw [hback] at hundo
  rw [rc2DecryptBlock, encryptBlock, words_toBlock, hundo]
  exact toBlock_words h

theorem encryptBlock_rc2DecryptBlock (block : List UInt8) (h : block.length = 8) :
    encryptBlock K (rc2DecryptBlock K block) = block := by
  have hforth : forth (decryptRounds K ⟨words block, 63⟩) = ⟨(decryptRounds K ⟨words block, 63⟩).R, 0⟩ := by
    simp [forth, j_decryptRounds]
  have hundo := undoes_encryptRounds K ⟨words block, 63⟩
  rw [hforth] at hundo
  rw [rc2DecryptBlock, encryptBlock, words_toBlock, hundo]
  exact toBlock_words h

/-- RC2 under an expanded key. -/
def cipher : Chaining.BlockCipher 8 where
  encrypt := encryptBlock K
  decrypt := rc2DecryptBlock K
  pos := by omega
  length_encrypt := length_encryptBlock K
  length_decrypt := length_rc2DecryptBlock K
  decrypt_encrypt := rc2DecryptBlock_encryptBlock K
  encrypt_decrypt := encryptBlock_rc2DecryptBlock K

end Blocks

/-! ## Keys -/

section Keys

variable {f : List UInt8 → Nat → UInt8} {L L' : List UInt8} {is : List Nat}

/-- Each byte is written once, by bytes that are not written later. -/
def Ordered (f : List UInt8 → Nat → UInt8) : List Nat → Prop
  | [] => True
  | i :: is => i ∉ is ∧ (∀ L L', (∀ k ∉ i :: is, L.getD k 0 = L'.getD k 0) → f L i = f L' i) ∧ Ordered f is

@[simp] theorem length_writeAll : (writeAll f L is).length = L.length := by
  induction is generalizing L with
  | nil => rfl
  | cons i is ih => simpa [writeAll] using ih (L := L.set i (f L i))

theorem getD_set_self {i : Nat} (h : i < L.length) (b : UInt8) : (L.set i b).getD i 0 = b := by
  simp [h]

theorem getD_set_ne {i k : Nat} (h : k ≠ i) (b : UInt8) : (L.set i b).getD k 0 = L.getD k 0 := by
  simp [h.symm]

/-- The other bytes are unchanged. -/
theorem getD_writeAll_of_notMem {k : Nat} (h : k ∉ is) : (writeAll f L is).getD k 0 = L.getD k 0 := by
  induction is generalizing L with
  | nil => rfl
  | cons i is ih =>
    have hne : k ≠ i := fun heq => h (heq ▸ mem_cons_self)
    have hrest := ih (L := L.set i (f L i)) fun hmem => h (mem_cons_of_mem i hmem)
    rw [getD_set_ne hne] at hrest
    exact hrest

/-- In the end each byte is what it was written by. -/
theorem getD_writeAll (hordered : Ordered f is) (hlt : ∀ i ∈ is, i < L.length) {k : Nat} (h : k ∈ is) :
    (writeAll f L is).getD k 0 = f (writeAll f L is) k := by
  induction is generalizing L with
  | nil => simp at h
  | cons i is ih =>
    obtain ⟨hnotMem, hdepends, hrest⟩ := hordered
    have hcons : writeAll f L (i :: is) = writeAll f (L.set i (f L i)) is := rfl
    have hlt' : ∀ k ∈ is, k < (L.set i (f L i)).length := fun k hk => by
      simpa using hlt k (mem_cons_of_mem i hk)
    rcases mem_cons.mp h with rfl | h
    · have hself : (writeAll f L (k :: is)).getD k 0 = f L k := by
        rw [hcons, getD_writeAll_of_notMem hnotMem, getD_set_self (hlt k mem_cons_self)]
      rw [hself]
      exact hdepends _ _ fun k hk => (getD_writeAll_of_notMem hk).symm
    · rw [hcons]
      exact ih hrest hlt' h

theorem ordered_expandUp {T : Nat} (hT : 1 ≤ T) (n : Nat) {s : Nat} (hs : T ≤ s) :
    Ordered (expandUp T) (range' s n) := by
  induction n generalizing s with
  | zero => trivial
  | succ n ih =>
    refine ⟨by simp, fun L L' h => ?_, ih (le_succ_of_le hs)⟩
    have hnotMem {k : Nat} (hk : k < s) : k ∉ range' s (n + 1) := by
      rw [mem_range'_1]
      omega
    have hbefore : L.getD (s - 1) 0 = L'.getD (s - 1) 0 := h _ (hnotMem (by omega))
    have hback : L.getD (s - T) 0 = L'.getD (s - T) 0 := h _ (hnotMem (by omega))
    rw [expandUp, expandUp, hbefore, hback]

theorem ordered_expandDown {T8 : Nat} (hT : 1 ≤ T8) (n : Nat) : Ordered (expandDown T8) (range n).reverse := by
  induction n with
  | zero => trivial
  | succ n ih =>
    rw [range_succ, reverse_append, reverse_singleton]
    refine ⟨by simp, fun L L' h => ?_, ih⟩
    have hafter : L.getD (n + 1) 0 = L'.getD (n + 1) 0 := h _ (by simp)
    have hfar : L.getD (n + T8) 0 = L'.getD (n + T8) 0 := h _ (by simp; omega)
    rw [expandDown, expandDown, hafter, hfar]

theorem toNat_word (a b : UInt8) : (a.toUInt16 ||| b.toUInt16 <<< 8).toNat = a.toNat + 256 * b.toNat := by
  have ha := a.toNat_lt
  have hb := b.toNat_lt
  have hor := shiftLeft_add_eq_or_of_lt ha b.toNat
  have hmod : b.toNat <<< 8 % 2 ^ 16 = b.toNat <<< 8 := mod_eq_of_lt (by rw [shiftLeft_eq]; omega)
  have height : (8 : UInt16).toNat % 16 = 8 := rfl
  rw [UInt16.toNat_or, UInt16.toNat_shiftLeft, UInt8.toNat_toUInt16, UInt8.toNat_toUInt16, height, hmod,
    Nat.or_comm, ← hor, Nat.shiftLeft_eq]
  omega

/-- The key is expanded as RFC 2268 says. -/
theorem expansion_rc2ExpandKey {key : List UInt8} {effectiveBits : Nat} (hkey : 1 ≤ key.length ∧ key.length ≤ 128)
    (hbits : 1 ≤ effectiveBits ∧ effectiveBits ≤ 1024) :
    ∃ L L', Expansion key effectiveBits L L' (rc2ExpandKey key effectiveBits) := by
  have hbytes : 1 ≤ keyBytes effectiveBits ∧ keyBytes effectiveBits ≤ 128 := by rw [keyBytes]; omega
  let L₀ := key ++ replicate (128 - key.length) 0
  let L := writeAll (expandUp key.length) L₀ (range' key.length (128 - key.length))
  let reduced := pi (L.getD (128 - keyBytes effectiveBits) 0 &&& keyMask effectiveBits)
  let L₁ := L.set (128 - keyBytes effectiveBits) reduced
  let L' := writeAll (expandDown (keyBytes effectiveBits)) L₁ (range (128 - keyBytes effectiveBits)).reverse
  have hL₀ : L₀.length = 128 := by simp only [L₀, length_append, length_replicate]; omega
  have hL : L.length = 128 := by rw [← hL₀]; exact length_writeAll
  have hL₁ : L₁.length = 128 := by rw [← hL]; exact length_set
  have hL' : L'.length = 128 := by rw [← hL₁]; exact length_writeAll
  have hkeep {i : Nat} (hi : 128 - keyBytes effectiveBits ≤ i) : L'.getD i 0 = L₁.getD i 0 :=
    getD_writeAll_of_notMem (by simpa using hi)
  refine ⟨L, L', ⟨hL, hL', by simp [rc2ExpandKey]⟩, fun i hi => ?_, fun i hle hlt => ?_, ?_, fun i hi => ?_,
    fun i hi => ?_, fun i hi => ?_⟩
  · have hnotMem : i ∉ range' key.length (128 - key.length) := by simp; omega
    rw [getD_writeAll_of_notMem hnotMem]
    simp [L₀, getElem?_append_left hi]
  · refine getD_writeAll (f := expandUp key.length) (ordered_expandUp hkey.1 _ (le_refl _)) (fun k hk => ?_) ?_
    · rw [mem_range'_1] at hk
      omega
    · rw [mem_range'_1]
      omega
  · rw [hkeep (le_refl _), getD_set_self (by omega)]
  · rw [hkeep (le_of_lt hi), getD_set_ne (by omega)]
  · refine getD_writeAll (f := expandDown (keyBytes effectiveBits)) (ordered_expandDown hbytes.1 _) (fun k hk => ?_) ?_
    · simp at hk
      omega
    · simpa using hi
  · have hword : (rc2ExpandKey key effectiveBits).getD i 0 =
        (L'.getD (2 * i) 0).toUInt16 ||| (L'.getD (2 * i + 1) 0).toUInt16 <<< 8 := by
      simp only [rc2ExpandKey, getD_eq_getElem?_getD, getElem?_map, getElem?_range hi]
      rfl
    rw [hword, toNat_word]

end Keys

/-! ## Messages -/

section Messages

open Chaining

theorem cbcFrom_eq (K : List UInt16) (prev data : List UInt8) : cbcFrom K prev data = decrypt (cipher K) prev data := by
  fun_induction cbcFrom K prev data with
  | case1 prev data hempty => rw [decrypt, if_pos hempty]
  | case2 prev data hempty c ih =>
    rw [decrypt, if_neg hempty, ih]
    simp only [Chaining.xor, cipher, c]

/-- The padding is taken off exactly where it is padding. -/
theorem stripPkcs7_eq_ok_iff {buf message : List UInt8} (h : Blocks 8 buf) :
    stripPkcs7 buf = .ok message ↔ buf = pad 8 message := by
  rw [eq_pad_iff (by omega) h]
  constructor
  · intro hok
    unfold stripPkcs7 at hok
    simp only at hok
    split_ifs at hok with hcount hbytes
    simp only [not_or, not_lt] at hcount
    injection hok with hmessage
    refine ⟨(buf.getLastD 0).toNat, by omega, hcount.2, ?_⟩
    have hlength : 8 ≤ buf.length := by
      have hne : buf ≠ [] := by
        rintro rfl
        simp at hcount
      have hpos := length_pos_iff.mpr hne
      have hdvd := le_of_dvd hpos h.dvd
      exact hdvd
    have hdrop : buf.drop (buf.length - (buf.getLastD 0).toNat) =
        replicate (buf.getLastD 0).toNat (UInt8.ofNat (buf.getLastD 0).toNat) := by
      rw [eq_replicate_iff]
      refine ⟨by rw [length_drop]; omega, fun b hb => ?_⟩
      have hb' : b.toNat = (buf.getLastD 0).toNat := by
        simp only [any_eq_true, decide_eq_true_eq, not_exists, not_and, not_not] at hbytes
        exact hbytes b hb
      rw [← hb', UInt8.ofNat_toNat]
    rw [← hmessage, ← hdrop, take_append_drop]
  · rintro ⟨k, hk, hle, rfl⟩
    have hbyte : (UInt8.ofNat k).toNat = k := by
      rw [UInt8.toNat_ofNat']
      omega
    have hlast : (message ++ replicate k (UInt8.ofNat k)).getLastD 0 = UInt8.ofNat k := by
      obtain ⟨m, rfl⟩ : ∃ m, k = m + 1 := ⟨k - 1, by omega⟩
      rw [replicate_succ', ← append_assoc, getLastD_concat]
    have hlength : (message ++ replicate k (UInt8.ofNat k)).length - k = message.length := by simp
    have hdrop : (message ++ replicate k (UInt8.ofNat k)).drop message.length =
        replicate k (UInt8.ofNat k) := drop_left
    have hcount : ¬ (k < 1 ∨ 8 < k) := by omega
    have hbytes : ((replicate k (UInt8.ofNat k)).any fun b => b.toNat ≠ k) = false := by simp [hbyte]
    simp only [stripPkcs7, hlast, hbyte, hlength, hdrop, if_neg hcount, hbytes, Bool.false_eq_true, if_false,
      take_left']

/-- A message is decrypted exactly if it is the one that was padded and encrypted. -/
theorem rc2CbcDecrypt_eq_ok_iff {key iv data message : List UInt8} {effectiveBits : Nat} (hiv : iv.length = 8) :
    rc2CbcDecrypt key effectiveBits iv data = .ok message ↔
      data = encrypt (cipher (rc2ExpandKey key effectiveBits)) iv (pad 8 message) := by
  have hpad : Blocks 8 (pad 8 message) := blocks_pad (by omega) message
  by_cases hblocks : data.length = 0 ∨ data.length % 8 ≠ 0
  · have hne : data ≠ encrypt (cipher (rc2ExpandKey key effectiveBits)) iv (pad 8 message) := by
      rintro rfl
      have hpos := (padLength_pos (by omega : 0 < 8) message).1
      have hdvd := hpad.dvd
      rw [hpad.length_encrypt] at hblocks
      rw [pad, length_append, length_replicate] at hblocks hdvd
      omega
    rw [rc2CbcDecrypt, if_pos hblocks]
    exact ⟨fun h => (by cases h), fun h => absurd h hne⟩
  · have hdata : Blocks 8 data := blocks_of_dvd (by omega)
    rw [rc2CbcDecrypt, if_neg hblocks, cbcFrom_eq, stripPkcs7_eq_ok_iff (hdata.decrypt hiv), decrypt_eq_iff hiv hdata]
    exact ⟨And.right, fun heq => ⟨hpad, heq⟩⟩

end Messages

end Cdp.Rc2
