-- SUMMARY: Cipher block chaining over any invertible block cipher, padding, and that decryption inverts both.
import Mathlib.Algebra.Order.Group.Nat
import Mathlib.Data.List.Basic
import Mathlib.Tactic.Common

open List Nat

namespace Chaining

open Chaining

def xor (a b : List UInt8) : List UInt8 := zipWith (· ^^^ ·) a b

@[simp] theorem length_xor (a b : List UInt8) : (xor a b).length = min a.length b.length := length_zipWith

theorem xor_xor {a b : List UInt8} (h : a.length ≤ b.length) : xor (xor a b) b = a := by
  induction a generalizing b with
  | nil => rfl
  | cons x a ih =>
    cases b with
    | nil => simp at h
    | cons y b =>
      have hbyte : x ^^^ y ^^^ y = x := by rw [UInt8.xor_assoc, UInt8.xor_self, UInt8.xor_zero]
      simpa [xor, hbyte] using ih (by simpa using h)

structure BlockCipher (n : Nat) where
  encrypt : List UInt8 → List UInt8
  decrypt : List UInt8 → List UInt8
  pos : 0 < n
  length_encrypt : ∀ b, (encrypt b).length = n
  length_decrypt : ∀ b, (decrypt b).length = n
  decrypt_encrypt : ∀ b, b.length = n → decrypt (encrypt b) = b
  encrypt_decrypt : ∀ b, b.length = n → encrypt (decrypt b) = b

variable {n : Nat}

/-- The loop over the blocks, with the ciphertext block before. -/
def encrypt (c : BlockCipher n) (prev data : List UInt8) : List UInt8 :=
  if data.isEmpty then []
  else
    let block := c.encrypt (xor (data.take n) prev)
    block ++ encrypt c block (data.drop n)
termination_by data.length
decreasing_by
  have hpos := c.pos
  have hne : data ≠ [] := by simpa using ‹¬ data.isEmpty = true›
  have := length_pos_iff.mpr hne
  rw [length_drop]
  omega

def decrypt (c : BlockCipher n) (prev data : List UInt8) : List UInt8 :=
  if data.isEmpty then []
  else
    have _pos := c.pos
    let block := data.take n
    xor (c.decrypt block) prev ++ decrypt c block (data.drop n)
termination_by data.length
decreasing_by
  have hne : data ≠ [] := by simpa using ‹¬ data.isEmpty = true›
  have := length_pos_iff.mpr hne
  rw [length_drop]
  omega

section Blocks

variable {c : BlockCipher n} {prev block data : List UInt8}

@[simp] theorem encrypt_nil : encrypt c prev [] = [] := by
  rw [encrypt]
  rfl

@[simp] theorem decrypt_nil : decrypt c prev [] = [] := by
  rw [decrypt]
  rfl

theorem encrypt_append (hblock : block.length = n) : encrypt c prev (block ++ data) =
    c.encrypt (xor block prev) ++ encrypt c (c.encrypt (xor block prev)) data := by
  have hne : (block ++ data).isEmpty = false := by
    have := c.pos
    cases block with
    | nil => simp at hblock; omega
    | cons _ _ => rfl
  rw [encrypt, hne]
  simp [← hblock]

theorem decrypt_append (hblock : block.length = n) : decrypt c prev (block ++ data) =
    xor (c.decrypt block) prev ++ decrypt c block data := by
  have hne : (block ++ data).isEmpty = false := by
    have := c.pos
    cases block with
    | nil => simp at hblock; omega
    | cons _ _ => rfl
  rw [decrypt, hne]
  simp [← hblock]

/-- Whole blocks. -/
inductive Blocks (n : Nat) : List UInt8 → Prop
  | nil : Blocks n []
  | append {block data : List UInt8} (hblock : block.length = n) (hdata : Blocks n data) : Blocks n (block ++ data)

theorem blocks_of_dvd {data : List UInt8} (h : n ∣ data.length) : Blocks n data := by
  obtain ⟨m, hm⟩ := h
  induction m generalizing data with
  | zero =>
    obtain rfl := length_eq_zero_iff.mp hm
    exact .nil
  | succ m ih =>
    rw [mul_succ] at hm
    rw [← take_append_drop n data]
    exact .append (by rw [length_take]; omega) (ih (by rw [length_drop]; omega))

theorem Blocks.dvd {data : List UInt8} (h : Blocks n data) : n ∣ data.length := by
  induction h with
  | nil => exact Nat.dvd_zero n
  | append hblock _ ih => simpa [hblock] using ih

theorem Blocks.decrypt (h : Blocks n data) (hprev : prev.length = n) : Blocks n (decrypt c prev data) := by
  induction h generalizing prev with
  | nil => simpa using Blocks.nil
  | append hblock _ ih =>
    rw [decrypt_append hblock]
    exact .append (by simp [c.length_decrypt, hprev]) (ih hblock)

theorem Blocks.length_encrypt (h : Blocks n data) : (encrypt c prev data).length = data.length := by
  induction h generalizing prev with
  | nil => simp
  | append hblock _ ih =>
    rw [encrypt_append hblock, length_append, length_append, c.length_encrypt, ih, hblock]

theorem decrypt_encrypt (h : Blocks n data) (hprev : prev.length = n) :
    decrypt c prev (encrypt c prev data) = data := by
  induction h generalizing prev with
  | nil => simp
  | @append block data hblock _ ih =>
    have hxor : (xor block prev).length = n := by simp [hblock, hprev]
    rw [encrypt_append hblock, decrypt_append (c.length_encrypt _), c.decrypt_encrypt _ hxor,
      xor_xor (by omega), ih (c.length_encrypt _)]

theorem encrypt_decrypt (h : Blocks n data) (hprev : prev.length = n) :
    encrypt c prev (decrypt c prev data) = data := by
  induction h generalizing prev with
  | nil => simp
  | @append block data hblock _ ih =>
    have hxor : (xor (c.decrypt block) prev).length = n := by simp [c.length_decrypt, hprev]
    rw [decrypt_append hblock, encrypt_append hxor, xor_xor (by rw [c.length_decrypt, hprev]),
      c.encrypt_decrypt block hblock, ih hblock]

/-- Whole blocks are decrypted to a message exactly if they are its encryption. -/
theorem decrypt_eq_iff (hprev : prev.length = n) {message : List UInt8} (hdata : Blocks n data) :
    decrypt c prev data = message ↔ Blocks n message ∧ data = encrypt c prev message := by
  constructor
  · rintro rfl
    exact ⟨hdata.decrypt hprev, (encrypt_decrypt hdata hprev).symm⟩
  · rintro ⟨hmessage, rfl⟩
    exact decrypt_encrypt hmessage hprev

end Blocks

/-! ## Padding -/

/-- The number of bytes to the end of the block, of a whole one if there are none. -/
def padLength (n : Nat) (data : List UInt8) : Nat := n - data.length % n

def pad (n : Nat) (data : List UInt8) : List UInt8 :=
  data ++ replicate (padLength n data) (UInt8.ofNat (padLength n data))

theorem padLength_pos (hpos : 0 < n) (data : List UInt8) : 0 < padLength n data ∧ padLength n data ≤ n := by
  have := mod_lt data.length hpos
  rw [padLength]
  omega

theorem blocks_pad (hpos : 0 < n) (data : List UInt8) : Blocks n (pad n data) := by
  refine blocks_of_dvd ?_
  rw [pad, length_append, length_replicate, padLength]
  have hlt := mod_lt data.length hpos
  have hdiv := div_add_mod data.length n
  refine ⟨data.length / n + 1, ?_⟩
  rw [mul_succ]
  omega

/-- Whole blocks are a padded message exactly if they end with as many bytes as these bytes tell. -/
theorem eq_pad_iff (hpos : 0 < n) {data message : List UInt8} (hdata : Blocks n data) :
    data = pad n message ↔ ∃ k, 0 < k ∧ k ≤ n ∧ data = message ++ replicate k (UInt8.ofNat k) := by
  constructor
  · rintro rfl
    exact ⟨_, (padLength_pos hpos message).1, (padLength_pos hpos message).2, rfl⟩
  · rintro ⟨k, hk, hle, rfl⟩
    have hlength : k = padLength n message := by
      have hdvd := hdata.dvd
      rw [length_append, length_replicate] at hdvd
      have hlt := mod_lt message.length hpos
      have hmod : (message.length % n + k) % n = 0 := by
        rw [mod_add_mod]
        exact mod_eq_zero_of_dvd hdvd
      have hsum : message.length % n + k = n := by
        obtain ⟨q, hq⟩ := dvd_of_mod_eq_zero hmod
        have hone : q = 1 := by
          rcases q with _ | _ | q
          · omega
          · rfl
          · rw [mul_succ, mul_succ] at hq
            omega
        rw [hq, hone, mul_one]
      rw [padLength]
      omega
    rw [pad, ← hlength]

end Chaining
