-- SUMMARY: The key derivation of the PKCS#12 reader, and that it is the one of RFC 7292 for every size.
import Tracenium.Cdp.Rc2
import Tracenium.Lib.ByteNumerals
import Mathlib.Tactic.Linarith
import Mathlib.Tactic.Positivity

/-!
`pkcs12Kdf` fills buffers byte by byte and adds with a carry; `derived` says what RFC 7292 derives, with copies of
strings and with numbers. The hash is any function to so many bytes.
-/

open List Nat Function

namespace Cdp.Pkcs12

open BigEndian

structure Hash where
  digest : List UInt8 → List UInt8
  u : Nat
  v : Nat
  u_pos : 0 < u
  v_pos : 0 < v
  length_digest : ∀ bytes, (digest bytes).length = u

/-- `Math.ceil(n / v)`. -/
def ceilDiv (n v : Nat) : Nat := (n + v - 1) / v

/-- The bytes at `0 … len - 1`, over and over those of `src`. -/
def cycle (len : Nat) (src : List UInt8) : List UInt8 := (range len).map fun i => src.getD (i % src.length) 0

def fill (v : Nat) (src : List UInt8) : List UInt8 :=
  if src.length = 0 then [] else cycle (v * ceilDiv src.length v) src

/-- The inner loop over the bytes of a block, from the last, with the carry. -/
def addBytes (block B : List UInt8) (carry : Nat) : List UInt8 × Nat :=
  (block.zip B).foldr
    (fun p acc => (UInt8.ofNat (p.1.toNat + p.2.toNat + acc.2) :: acc.1, (p.1.toNat + p.2.toNat + acc.2) / 256))
    ([], carry)

/-- The loop over the blocks of `I`. -/
def addBlocks (v : Nat) (B I : List UInt8) : List UInt8 :=
  if I.isEmpty ∨ v = 0 then [] else (addBytes (I.take v) B 1).1 ++ addBlocks v B (I.drop v)
termination_by I.length
decreasing_by
  have hne := ‹¬ (I.isEmpty = true ∨ v = 0)›
  rw [not_or, List.isEmpty_iff] at hne
  have := length_pos_iff.mpr hne.1
  rw [length_drop]
  omega

/-- `A`, the digest of a digest so many times. -/
def hashed (h : Hash) (iter : Nat) (bytes : List UInt8) : List UInt8 :=
  (range' 1 (iter - 1)).foldl (fun A _ => h.digest A) (h.digest bytes)

/-- The loop of `pkcs12Kdf`, with the bytes from `written` on. -/
def kdfFrom (h : Hash) (D : List UInt8) (iter size written : Nat) (I : List UInt8) : List UInt8 :=
  if written < size then
    have _pos := h.u_pos
    let A := hashed h iter (D ++ I)
    let block := A.take (min h.u (size - written))
    if size ≤ written + h.u then block
    else block ++ kdfFrom h D iter size (written + h.u) (addBlocks h.v (cycle h.v A) I)
  else []
termination_by size - written

def pkcs12Kdf (h : Hash) (password salt : List UInt8) (id : UInt8) (iter size : Nat) : List UInt8 :=
  kdfFrom h (replicate h.v id) iter size 0 (fill h.v salt ++ fill h.v password)

/-! ## RFC 7292 -/

/-- Copies of a string, the last one cut, up to a length. -/
def copies (len : Nat) (src : List UInt8) : List UInt8 := (replicate len src).flatten.take len

/-- A string of whole blocks. -/
def whole (v : Nat) (src : List UInt8) : List UInt8 := copies (v * ceilDiv src.length v) src

/-- `I_j := (I_j + B + 1) mod 2 ^ v` for each block, with `B` from copies of `A`. -/
def nextI (h : Hash) (A I : List UInt8) : List UInt8 :=
  (range (I.length / h.v)).flatMap fun j =>
    let block := (I.drop (h.v * j)).take h.v
    bytesOf h.v ((value block + value (copies h.v A) + 1) % 256 ^ h.v)

/-- `A_i` for the string `I` after `i` blocks. -/
def blockA (h : Hash) (D : List UInt8) (iter : Nat) (I : List UInt8) : List UInt8 := h.digest^[iter] (D ++ I)

def stringI (h : Hash) (D : List UInt8) (iter : Nat) (I : List UInt8) (i : Nat) : List UInt8 :=
  (fun I => nextI h (blockA h D iter I) I)^[i] I

/-- The first `size` bytes of `A_1 … A_c`. -/
def derived (h : Hash) (password salt : List UInt8) (id : UInt8) (iter size : Nat) : List UInt8 :=
  let D := replicate h.v id
  let I := whole h.v salt ++ whole h.v password
  ((range (ceilDiv size h.u)).flatMap fun i => blockA h D iter (stringI h D iter I i)).take size

/-! ## Copies -/

theorem length_cycle (len : Nat) (src : List UInt8) : (cycle len src).length = len := by simp [cycle]

theorem getElem?_flatten_replicate {src : List UInt8} {m i : Nat} (h : i < m * src.length) :
    (replicate m src).flatten[i]? = src[i % src.length]? := by
  induction m generalizing i with
  | zero => simp at h
  | succ m ih =>
    rw [succ_mul] at h
    rw [replicate_succ, flatten_cons]
    by_cases hi : i < src.length
    · rw [getElem?_append_left hi, mod_eq_of_lt hi]
    · have hle : src.length ≤ i := Nat.le_of_not_lt hi
      rw [getElem?_append_right hle, ih (by omega), ← mod_eq_sub_mod hle]

/-- Bytes taken over and over are those of copies. -/
theorem cycle_eq_copies (len : Nat) {src : List UInt8} (h : 0 < src.length) : cycle len src = copies len src := by
  refine ext_getElem? fun i => ?_
  by_cases hi : i < len
  · have hlt : i < len * src.length := Nat.lt_of_lt_of_le hi (Nat.le_mul_of_pos_right len h)
    have hmod : i % src.length < src.length := mod_lt i h
    rw [copies, getElem?_take_of_lt hi, getElem?_flatten_replicate hlt, cycle, getElem?_map, getElem?_range hi]
    simp [hmod]
  · have hle : len ≤ i := Nat.le_of_not_lt hi
    rw [getElem?_eq_none (by simpa [cycle] using hle), getElem?_eq_none (by simp only [copies, length_take]; omega)]

theorem fill_eq_whole (v : Nat) (src : List UInt8) : fill v src = whole v src := by
  cases src with
  | nil => simp [fill, whole, copies]
  | cons b src => exact cycle_eq_copies _ (by simp)

/-! ## Sums -/

theorem length_addBytes {block B : List UInt8} (h : block.length = B.length) (carry : Nat) :
    (addBytes block B carry).1.length = block.length := by
  induction block generalizing B with
  | nil => rfl
  | cons a block ih =>
    cases B with
    | nil => simp at h
    | cons b B => simpa [addBytes] using ih (by simpa using h)

/-- The carry is what does not fit. -/
theorem value_addBytes {block B : List UInt8} (h : block.length = B.length) (carry : Nat) :
    value (addBytes block B carry).1 + 256 ^ block.length * (addBytes block B carry).2 =
      value block + value B + carry := by
  induction block generalizing B with
  | nil =>
    cases B with
    | nil => simp [addBytes]
    | cons b B => simp at h
  | cons a block ih =>
    cases B with
    | nil => simp at h
    | cons b B =>
      have hlength : block.length = B.length := by simpa using h
      have hrest := ih hlength
      have hcons : addBytes (a :: block) (b :: B) carry =
          (UInt8.ofNat (a.toNat + b.toNat + (addBytes block B carry).2) :: (addBytes block B carry).1,
            (a.toNat + b.toNat + (addBytes block B carry).2) / 256) := rfl
      rw [hcons, value_cons, value_cons, value_cons, length_addBytes hlength,
        ← hlength, UInt8.toNat_ofNat', length_cons]
      generalize (addBytes block B carry).2 = c at *
      have hpow : 256 ^ (block.length + 1) = 256 ^ block.length * 256 := pow_succ _ _
      rw [hpow]
      have hdiv := div_add_mod (a.toNat + b.toNat + c) 256
      generalize (a.toNat + b.toNat + c) / 256 = q at *
      generalize (a.toNat + b.toNat + c) % 256 = r at *
      have hscaled : 256 ^ block.length * (256 * q + r) = 256 ^ block.length * (a.toNat + b.toNat + c) := by rw [hdiv]
      linarith only [hrest, hscaled]

theorem addBytes_eq {block B : List UInt8} {v : Nat} (hblock : block.length = v) (hB : B.length = v) :
    (addBytes block B 1).1 = bytesOf v ((value block + value B + 1) % 256 ^ v) := by
  have hlength : block.length = B.length := hblock.trans hB.symm
  have hvalue := value_addBytes hlength 1
  have hlt := value_lt (addBytes block B 1).1
  rw [length_addBytes hlength, hblock] at hlt
  refine eq_of_value_eq ?_ ?_
  · rw [length_addBytes hlength, length_bytesOf, hblock]
  · rw [value_bytesOf (mod_lt _ (by positivity)), ← hvalue, hblock, add_mul_mod_self_left, mod_eq_of_lt hlt]

theorem addBlocks_append {v : Nat} {B block I : List UInt8} (hv : 0 < v) (hblock : block.length = v) :
    addBlocks v B (block ++ I) = (addBytes block B 1).1 ++ addBlocks v B I := by
  have hne : ¬ ((block ++ I).isEmpty ∨ v = 0) := by
    cases block with
    | nil => simp at hblock; omega
    | cons _ _ => simp; omega
  rw [addBlocks, if_neg hne]
  simp [← hblock]

/-- Each block of `I` is added to, modulo the numbers of a block. -/
theorem addBlocks_eq_nextI (h : Hash) {A I : List UInt8} (hA : A.length = h.u) (hI : Chaining.Blocks h.v I) :
    addBlocks h.v (cycle h.v A) I = nextI h A I := by
  have hcopies : cycle h.v A = copies h.v A := cycle_eq_copies _ (by rw [hA]; exact h.u_pos)
  induction hI with
  | nil => simp [addBlocks, nextI]
  | @append block I hblock _ ih =>
    have hcount : (block ++ I).length / h.v = I.length / h.v + 1 := by
      rw [length_append, hblock, add_div_left _ h.v_pos]
    have hdrop (j : Nat) : (block ++ I).drop (h.v * (j + 1)) = I.drop (h.v * j) := by
      rw [mul_succ, add_comm, ← hblock, drop_length_add_append]
    rw [addBlocks_append h.v_pos hblock, ih, addBytes_eq hblock (length_cycle _ _), nextI, nextI, hcount,
      range_succ_eq_map, flatMap_cons, flatMap_map, hcopies]
    simp only [hdrop]
    simp [← hblock]

/-! ## Rounds -/

theorem hashed_eq {h : Hash} {iter : Nat} (hiter : 1 ≤ iter) (bytes : List UInt8) :
    hashed h iter bytes = h.digest^[iter] bytes := by
  obtain ⟨n, rfl⟩ : ∃ n, iter = n + 1 := ⟨iter - 1, by omega⟩
  have hfold (s n : Nat) (A : List UInt8) : (range' s n).foldl (fun A _ => h.digest A) A = h.digest^[n] A := by
    induction n generalizing s A with
    | zero => rfl
    | succ n ih =>
      rw [range'_succ, foldl_cons, ih, iterate_succ_apply]
  rw [hashed, Nat.add_sub_cancel, hfold, Function.iterate_succ_apply]

theorem length_blockA (h : Hash) (D : List UInt8) {iter : Nat} (hiter : 1 ≤ iter) (I : List UInt8) :
    (blockA h D iter I).length = h.u := by
  obtain ⟨n, rfl⟩ : ∃ n, iter = n + 1 := ⟨iter - 1, by omega⟩
  rw [blockA, iterate_succ_apply', h.length_digest]

theorem dvd_length_fill (v : Nat) (src : List UInt8) : v ∣ (fill v src).length := by
  rw [fill]
  split
  · exact dvd_zero v
  · rw [length_cycle]
    exact dvd_mul_right _ _

theorem blocks_nextI (h : Hash) (A I : List UInt8) : Chaining.Blocks h.v (nextI h A I) := by
  rw [nextI]
  induction range (I.length / h.v) with
  | nil => exact .nil
  | cons j js ih => exact .append (length_bytesOf _ _) ih

/-- From `written` on, the loop writes the blocks that are left. -/
theorem kdfFrom_eq (h : Hash) (D : List UInt8) {iter : Nat} (hiter : 1 ≤ iter) (size written : Nat) {I : List UInt8}
    (hI : Chaining.Blocks h.v I) : kdfFrom h D iter size written I =
      ((range (ceilDiv (size - written) h.u)).flatMap fun i => blockA h D iter (stringI h D iter I i)).take
        (size - written) := by
  fun_induction kdfFrom h D iter size written I with
  | case1 written I hlt _ A block hlast =>
    have hone : ceilDiv (size - written) h.u = 1 := by
      exact Nat.div_eq_of_lt_le (by omega) (by omega)
    have hmin : min h.u (size - written) = size - written := by omega
    simp [hone, block, A, hmin, hashed_eq hiter, blockA, stringI]
  | case2 written I hlt _ A block hmore ih =>
    have hsucc : ceilDiv (size - written) h.u = ceilDiv (size - (written + h.u)) h.u + 1 := by
      rw [ceilDiv, ceilDiv, ← add_div_right _ h.u_pos]
      congr 1
      omega
    have hA : A = blockA h D iter I := hashed_eq hiter _
    have hlength : A.length = h.u := by rw [hA]; exact length_blockA h D hiter I
    have hblock : block = A := take_of_length_le (by omega)
    have hnext : addBlocks h.v (cycle h.v A) I = nextI h A I := addBlocks_eq_nextI h hlength hI
    have hstring (i : Nat) : stringI h D iter I (i + 1) = stringI h D iter (nextI h A I) i := by
      rw [stringI, iterate_succ_apply, hA]
      rfl
    have hfirst : blockA h D iter (stringI h D iter I 0) = A := hA.symm
    have hleft : size - written - A.length = size - (written + h.u) := by omega
    rw [hnext] at ih ⊢
    rw [ih (blocks_nextI h A I), hblock, hsucc, range_succ_eq_map, flatMap_cons, flatMap_map, hfirst,
      take_append, hleft, take_of_length_le (by omega : A.length ≤ size - written)]
    simp only [hstring]
  | case3 written I hle =>
    have hzero : size - written = 0 := by omega
    simp [hzero]

/-- A key of any size is the one of RFC 7292, for salts and passwords of any length. -/
theorem pkcs12Kdf_eq_derived (h : Hash) (password salt : List UInt8) (id : UInt8) {iter : Nat} (hiter : 1 ≤ iter)
    (size : Nat) : pkcs12Kdf h password salt id iter size = derived h password salt id iter size := by
  have hI : Chaining.Blocks h.v (fill h.v salt ++ fill h.v password) := by
    refine Chaining.blocks_of_dvd ?_
    rw [length_append]
    exact dvd_add (dvd_length_fill _ _) (dvd_length_fill _ _)
  rw [pkcs12Kdf, kdfFrom_eq h _ hiter size 0 hI, derived, fill_eq_whole, fill_eq_whole]
  rfl

/-! ## Both -/

open Rc2 Chaining in
/-- RC2 and the key derivation are those of their RFCs. -/
theorem rc2_kdf_correct {key iv : List UInt8} {effectiveBits : Nat} (hkey : 1 ≤ key.length ∧ key.length ≤ 128)
    (hbits : 1 ≤ effectiveBits ∧ effectiveBits ≤ 1024) (hiv : iv.length = 8) :
    (∃ L L', Expansion key effectiveBits L L' (rc2ExpandKey key effectiveBits)) ∧ (∀ block, block.length = 8 →
      rc2DecryptEcbBlock key effectiveBits (encryptBlock (rc2ExpandKey key effectiveBits) block) = block) ∧
    (∀ plain, rc2CbcDecrypt key effectiveBits iv
      (encrypt (cipher (rc2ExpandKey key effectiveBits)) iv (pad 8 plain)) = .ok plain) ∧
    (∀ data, (∀ plain, decrypt (cipher (rc2ExpandKey key effectiveBits)) iv data ≠ pad 8 plain) →
      ∃ message, rc2CbcDecrypt key effectiveBits iv data = .error message) ∧
    ∀ (h : Hash) (password salt : List UInt8) (id : UInt8) (iter size : Nat), 1 ≤ iter →
      pkcs12Kdf h password salt id iter size = derived h password salt id iter size := by
  refine ⟨expansion_rc2ExpandKey hkey hbits, rc2DecryptBlock_encryptBlock _,
    fun plain => (rc2CbcDecrypt_eq_ok_iff hiv).mpr rfl, fun data hdata => ?_,
    fun h password salt id iter size hiter => pkcs12Kdf_eq_derived h password salt id hiter size⟩
  cases hresult : rc2CbcDecrypt key effectiveBits iv data with
  | error message => exact ⟨message, rfl⟩
  | ok plain =>
    have hencrypted := (rc2CbcDecrypt_eq_ok_iff hiv).mp hresult
    refine absurd ?_ (hdata plain)
    rw [hencrypted]
    exact decrypt_encrypt (blocks_pad (by omega) plain) hiv

open Rc2 in
/-- A vector of the RFC, with 63 bits of a key of 8 bytes. -/
theorem rc2_kdf_correct_vector : rc2DecryptEcbBlock (replicate 8 0) 63
    [0xEB, 0xB7, 0x73, 0xF9, 0x93, 0x27, 0x8E, 0xFF] = replicate 8 0 := by
  have hencrypt : encryptBlock (rc2ExpandKey (replicate 8 0) 63) (replicate 8 0) =
      [0xEB, 0xB7, 0x73, 0xF9, 0x93, 0x27, 0x8E, 0xFF] := by decide +kernel
  have hkey : 1 ≤ (replicate 8 (0 : UInt8)).length ∧ (replicate 8 (0 : UInt8)).length ≤ 128 := by simp
  have hcorrect := rc2_kdf_correct hkey (⟨by omega, by omega⟩ : 1 ≤ 63 ∧ 63 ≤ 1024)
    (rfl : (replicate 8 (0 : UInt8)).length = 8)
  rw [← hencrypt]
  exact hcorrect.2.1 _ rfl

end Cdp.Pkcs12
