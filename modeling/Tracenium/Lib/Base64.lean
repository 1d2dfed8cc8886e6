-- SUMMARY: Base64 with padding, and that decoding what was encoded gives the bytes back.
import Tracenium.Lib.Utf16

open Utf16

namespace Base64

/-! ## Digits -/

def digit (n : Nat) : UInt16 :=
  if n < 26 then UInt16.ofNat (0x41 + n)
  else if n < 52 then UInt16.ofNat (0x61 + (n - 26))
  else if n < 62 then UInt16.ofNat (0x30 + (n - 52))
  else if n = 62 then 0x2B
  else 0x2F

def valueOf (u : UInt16) : Option Nat :=
  let n := u.toNat
  if 0x41 ≤ n ∧ n ≤ 0x5A then some (n - 0x41)
  else if 0x61 ≤ n ∧ n ≤ 0x7A then some (n - 0x61 + 26)
  else if 0x30 ≤ n ∧ n ≤ 0x39 then some (n - 0x30 + 52)
  else if n = 0x2B then some 62
  else if n = 0x2F then some 63
  else none

def pad : UInt16 := 0x3D

theorem digit_spec : ∀ n < 64, valueOf (digit n) = some n ∧ digit n ≠ pad := by decide

@[simp] theorem valueOf_digit {n : Nat} (h : n < 64) : valueOf (digit n) = some n := (digit_spec n h).1

@[simp] theorem digit_ne_pad {n : Nat} (h : n < 64) : digit n ≠ pad := (digit_spec n h).2

/-! ## Groups -/

def encode : List UInt8 → Str
  | [] => []
  | [a] => [digit (a.toNat / 4), digit (a.toNat % 4 * 16), pad, pad]
  | [a, b] =>
    [digit (a.toNat / 4), digit (a.toNat % 4 * 16 + b.toNat / 16), digit (b.toNat % 16 * 4), pad]
  | a :: b :: c :: bytes =>
    digit (a.toNat / 4) :: digit (a.toNat % 4 * 16 + b.toNat / 16) ::
      digit (b.toNat % 16 * 4 + c.toNat / 64) :: digit (c.toNat % 64) :: encode bytes

def ofDigits (w x y z : Nat) : List UInt8 :=
  [UInt8.ofNat (w * 4 + x / 16), UInt8.ofNat (x % 16 * 16 + y / 4), UInt8.ofNat (y % 4 * 64 + z)]

/-- `none` where the text is no base64. -/
def decode : Str → Option (List UInt8)
  | [] => some []
  | [w, x, y, z] =>
    if z = pad then
      if y = pad then do return (ofDigits (← valueOf w) (← valueOf x) 0 0).take 1
      else do return (ofDigits (← valueOf w) (← valueOf x) (← valueOf y) 0).take 2
    else do return ofDigits (← valueOf w) (← valueOf x) (← valueOf y) (← valueOf z)
  | w :: x :: y :: z :: rest => do
    return ofDigits (← valueOf w) (← valueOf x) (← valueOf y) (← valueOf z) ++ (← decode rest)
  | _ => none

theorem ofDigits_eq (a b c : UInt8) :
    ofDigits (a.toNat / 4) (a.toNat % 4 * 16 + b.toNat / 16) (b.toNat % 16 * 4 + c.toNat / 64) (c.toNat % 64) =
      [a, b, c] := by
  have hb := b.toNat_lt
  have hc := c.toNat_lt
  have hfirst : a.toNat / 4 * 4 + (a.toNat % 4 * 16 + b.toNat / 16) / 16 = a.toNat := by omega
  have hsecond : (a.toNat % 4 * 16 + b.toNat / 16) % 16 * 16 + (b.toNat % 16 * 4 + c.toNat / 64) / 4 = b.toNat := by
    omega
  have hthird : (b.toNat % 16 * 4 + c.toNat / 64) % 4 * 64 + c.toNat % 64 = c.toNat := by omega
  rw [ofDigits, hfirst, hsecond, hthird, UInt8.ofNat_toNat, UInt8.ofNat_toNat, UInt8.ofNat_toNat]

theorem decode_encode (bytes : List UInt8) : decode (encode bytes) = some bytes := by
  match bytes with
  | [] => rfl
  | [a] =>
    have ha := a.toNat_lt
    have hgroup := ofDigits_eq a 0 0
    simp only [UInt8.toNat_zero, Nat.zero_div, Nat.add_zero] at hgroup
    simp [encode, decode, valueOf_digit (by omega : a.toNat / 4 < 64),
      valueOf_digit (by omega : a.toNat % 4 * 16 < 64), hgroup]
  | [a, b] =>
    have ha := a.toNat_lt
    have hb := b.toNat_lt
    have hgroup := ofDigits_eq a b 0
    simp only [UInt8.toNat_zero, Nat.zero_div, Nat.zero_mod, Nat.add_zero] at hgroup
    simp [encode, decode, digit_ne_pad (by omega : b.toNat % 16 * 4 < 64),
      valueOf_digit (by omega : a.toNat / 4 < 64), valueOf_digit (by omega : a.toNat % 4 * 16 + b.toNat / 16 < 64),
      valueOf_digit (by omega : b.toNat % 16 * 4 < 64), hgroup]
  | a :: b :: c :: bytes =>
    have ha := a.toNat_lt
    have hb := b.toNat_lt
    have hc := c.toNat_lt
    have ih := decode_encode bytes
    have hw := valueOf_digit (by omega : a.toNat / 4 < 64)
    have hx := valueOf_digit (by omega : a.toNat % 4 * 16 + b.toNat / 16 < 64)
    have hy := valueOf_digit (by omega : b.toNat % 16 * 4 + c.toNat / 64 < 64)
    have hz := valueOf_digit (by omega : c.toNat % 64 < 64)
    cases hrest : encode bytes with
    | nil =>
      rw [hrest] at ih
      cases ih
      simp [encode, decode, digit_ne_pad (by omega : c.toNat % 64 < 64), hw, hx, hy, hz, ofDigits_eq]
    | cons u rest =>
      rw [hrest] at ih
      simp [encode, hrest, decode, hw, hx, hy, hz, ih, ofDigits_eq]

end Base64
