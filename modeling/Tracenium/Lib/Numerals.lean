-- SUMMARY: What decimal digits are worth, and natural numbers rounded to double precision.
import Tracenium.Lib.JsonText
import Mathlib.Algebra.Group.Nat.Defs
import Mathlib.Data.Nat.Log

open Utf16 Json

namespace Numerals

def worth (s : Str) : Nat := s.foldl (fun n u => n * 10 + (u.toNat - 0x30)) 0

@[simp] theorem worth_nil : worth [] = 0 := rfl

@[simp] theorem worth_concat (s : Str) (u : UInt16) : worth (s ++ [u]) = worth s * 10 + (u.toNat - 0x30) := by
  simp [worth]

theorem toNat_digit {n : Nat} (h : n < 10) : (digit n).toNat = 0x30 + n := by
  rw [digit, UInt16.toNat_ofNat']
  omega

@[simp] theorem worth_decimal (n : Nat) : worth (decimal n) = n := by
  fun_induction decimal n with
  | case1 n h => simp [worth, toNat_digit h]
  | case2 n h ih =>
    rw [worth_concat, ih, toNat_digit (Nat.mod_lt _ (by decide))]
    omega

theorem decimal_injective : Function.Injective decimal := Function.LeftInverse.injective worth_decimal

/-- A number below a power of ten has as many digits at most. -/
theorem length_decimal_le {n k : Nat} (h : n < 10 ^ (k + 1)) : (decimal n).length ≤ k + 1 := by
  induction k generalizing n with
  | zero =>
    rw [decimal, if_pos (by simpa using h)]
    simp
  | succ k ih =>
    rw [decimal]
    split
    · simp
    · have hn : n / 10 < 10 ^ (k + 1) := Nat.div_lt_of_lt_mul (by rwa [mul_comm, ← pow_succ])
      simpa using ih hn

end Numerals

/-!
# Doubles

The even one of two that are as near. From about `2 ^ 1024` on there is none.
-/

namespace Doubles

/-- To the nearest multiple of `2 ^ shift`; of two, to the one whose quotient is even. -/
def roundTo (shift n : Nat) : Nat :=
  let quotient := n / 2 ^ shift
  let rest := n % 2 ^ shift
  let up : Bool := 2 ^ shift < 2 * rest ∨ (2 ^ shift = 2 * rest ∧ quotient % 2 = 1)
  (quotient + if up then 1 else 0) * 2 ^ shift

def bound : Nat := 2 ^ 1024

/-- `none` for what is no finite number any more. -/
def round (n : Nat) : Option Nat :=
  let rounded := roundTo (Nat.log 2 n - 52) n
  if rounded < bound then some rounded else none

theorem roundTo_zero (n : Nat) : roundTo 0 n = n := by
  simp [roundTo, Nat.mod_one]

/-- Numbers of 53 bits are exact. -/
theorem round_of_lt {n : Nat} (h : n < 2 ^ 53) : round n = some n := by
  have hlog : Nat.log 2 n - 52 = 0 := by
    have := Nat.log_lt_of_lt_pow' (by decide) h
    omega
  have hbound : 2 ^ 53 ≤ bound := by decide +kernel
  simp only [round, hlog, roundTo_zero]
  rw [if_pos (h.trans_le hbound)]

end Doubles
