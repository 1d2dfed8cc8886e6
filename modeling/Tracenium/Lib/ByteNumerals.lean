-- SUMMARY: Numbers spelled by bytes with the highest byte first, and numbers spelled in groups of seven bits.
import Mathlib.Data.List.Induction
import Mathlib.Tactic.Ring

/-!
`value` is the number that bytes spell, and `signed` reads a number as a machine does that keeps 32 bits with a sign.
-/

open List UInt8 BitVec Nat

namespace BigEndian

/-- The first byte is the highest. -/
def value (bytes : List UInt8) : Nat := bytes.foldl (fun n b => n * 256 + b.toNat) 0

@[simp] theorem value_nil : value [] = 0 := rfl

@[simp] theorem value_append_singleton (bytes : List UInt8) (b : UInt8) :
    value (bytes ++ [b]) = value bytes * 256 + b.toNat := by
  simp [value]

theorem value_cons (b : UInt8) (bytes : List UInt8) :
    value (b :: bytes) = b.toNat * 256 ^ bytes.length + value bytes := by
  induction bytes using reverseRecOn with
  | nil => simp [value]
  | append_singleton bytes x ih =>
    rw [← List.cons_append, value_append_singleton, value_append_singleton, ih, List.length_append, length_singleton]
    ring

theorem value_lt (bytes : List UInt8) : value bytes < 256 ^ bytes.length := by
  induction bytes using reverseRecOn with
  | nil => simp
  | append_singleton bytes b ih =>
    have hb : b.toNat < 256 := b.toNat_lt
    simp only [value_append_singleton, length_append, length_singleton]
    omega

/-- Bytes of one length that spell one number are the same. -/
theorem eq_of_value_eq {a b : List UInt8} (hlen : a.length = b.length) (h : value a = value b) : a = b := by
  induction a using reverseRecOn generalizing b with
  | nil => exact (length_eq_zero_iff.mp hlen.symm).symm
  | append_singleton a x ih =>
    cases b using reverseRecOn with
    | nil => simp at hlen
    | append_singleton b y =>
      have hx : x.toNat < 256 := x.toNat_lt
      have hy : y.toNat < 256 := y.toNat_lt
      simp only [value_append_singleton, length_append, length_singleton, add_right_cancel_iff] at h hlen
      have hvalue : value a = value b := by omega
      have hlast : x = y := UInt8.toNat_inj.mp (by omega)
      rw [ih hlen hvalue, hlast]

def bytesOf : Nat → Nat → List UInt8
  | 0, _ => []
  | len + 1, n => bytesOf len (n / 256) ++ [ofNat n]

@[simp] theorem length_bytesOf (len n : Nat) : (bytesOf len n).length = len := by
  induction len generalizing n with
  | zero => rfl
  | succ len ih => simp [bytesOf, ih]

theorem value_bytesOf {len n : Nat} (h : n < 256 ^ len) : value (bytesOf len n) = n := by
  induction len generalizing n with
  | zero =>
    exact (lt_one_iff.mp h).symm
  | succ len ih =>
    have hhigh : n / 256 < 256 ^ len := Nat.div_lt_of_lt_mul (by rwa [pow_succ, mul_comm] at h)
    rw [bytesOf, value_append_singleton, ih hhigh, toNat_ofNat']
    omega

/-- Bytes are those of the number that they spell. -/
theorem bytesOf_value (bytes : List UInt8) : bytesOf bytes.length (value bytes) = bytes :=
  eq_of_value_eq (length_bytesOf _ _) (value_bytesOf (value_lt bytes))

def IsMinimal (bytes : List UInt8) : Prop := bytes.head? ≠ some 0

instance (bytes : List UInt8) : Decidable (IsMinimal bytes) := inferInstanceAs (Decidable (_ ≠ _))

theorem IsMinimal.of_append {a b : List UInt8} (h : IsMinimal (a ++ b)) : IsMinimal a := by
  cases a with
  | nil => simp [IsMinimal]
  | cons x a => simpa [IsMinimal] using h

theorem IsMinimal.value_pos {bytes : List UInt8} (h : IsMinimal bytes) (hne : bytes ≠ []) : 0 < value bytes := by
  induction bytes using reverseRecOn with
  | nil => simp at hne
  | append_singleton bytes b ih =>
    simp only [value_append_singleton]
    cases bytes with
    | nil =>
      have hb : b ≠ 0 := by simpa [IsMinimal] using h
      have hpos : b.toNat ≠ 0 := fun hzero => hb (UInt8.toNat_inj.mp (by simpa using hzero))
      omega
    | cons x bytes =>
      have := ih h.of_append (by simp)
      omega

/-! ## Words of 32 bits -/

/-- The number in a word of 32 bits with a sign. -/
def signed (n : Nat) : Int := (BitVec.ofNat 32 n).toInt

theorem signed_eq (n : Nat) :
    signed n = if n % 2 ^ 32 < 2 ^ 31 then (n % 2 ^ 32 : Int) else (n % 2 ^ 32 : Int) - 2 ^ 32 := by
  simp only [signed, BitVec.toInt_eq_toNat_cond, BitVec.toNat_ofNat]
  split <;> split <;> omega

theorem signed_of_lt {n : Nat} (h : n < 2 ^ 31) : signed n = n := by
  rw [signed_eq]
  split <;> omega

theorem signed_lt (n : Nat) : signed n < 2 ^ 31 := by
  rw [signed_eq]
  split <;> omega

theorem signed_eq_self_iff {n : Nat} : signed n = n ↔ n < 2 ^ 31 := by
  rw [signed_eq]
  split <;> omega

theorem signed_nonneg_iff {n : Nat} (h : n < 2 ^ 32) : 0 ≤ signed n ↔ n < 2 ^ 31 := by
  rw [signed_eq]
  split <;> omega

theorem signed_mod (n : Nat) : signed (n % 2 ^ 32) = signed n := by
  simp [signed_eq]

/-- A byte put behind a word. -/
theorem shiftLeft_or_ofNat (n : Nat) (b : UInt8) :
    BitVec.ofNat 32 n <<< 8 ||| b.toBitVec.setWidth 32 = BitVec.ofNat 32 (n * 256 + b.toNat) := by
  have hb : b.toNat < 2 ^ 8 := b.toNat_lt
  have hshift : (n % 2 ^ 32) <<< 8 % 2 ^ 32 = (n % 2 ^ 24) <<< 8 := by
    omega
  apply BitVec.eq_of_toNat_eq
  simp only [BitVec.toNat_or, BitVec.toNat_shiftLeft, BitVec.toNat_ofNat, BitVec.toNat_setWidth,
    UInt8.toNat_toBitVec, hshift]
  rw [Nat.mod_eq_of_lt (by omega : b.toNat < 2 ^ 32), ← Nat.shiftLeft_add_eq_or_of_lt hb, Nat.shiftLeft_eq]
  omega

end BigEndian

/-!
# Base 128

`arcs` are the numbers of the groups that end. Bytes `0x80` at the beginning of a group change no number.
-/

namespace Base128

def isOpen (b : UInt8) : Bool := 0x80 ≤ b

/-- The bytes a group has before its last one. -/
def opening (n : Nat) : List UInt8 :=
  if n = 0 then [] else opening (n / 128) ++ [ofNat (0x80 + n % 128)]
termination_by n

/-- As few bytes as the number needs. -/
def encode (n : Nat) : List UInt8 := opening (n / 128) ++ [ofNat (n % 128)]

def encodeAll (ns : List Nat) : List UInt8 := ns.flatMap encode

/-- The number of a group that has been read so far, with one more byte. -/
def shift (value : Nat) (b : UInt8) : Nat := value * 128 + b.toNat % 128

/-- The numbers of the groups that end, where `value` is what has been read of the first. -/
def arcsFrom : Nat → List UInt8 → List Nat
  | _, [] => []
  | value, b :: bs => if isOpen b then arcsFrom (shift value b) bs else shift value b :: arcsFrom 0 bs

def arcs (bytes : List UInt8) : List Nat := arcsFrom 0 bytes

/-- The last group does not end. -/
def IsPending (bytes : List UInt8) : Prop := ∃ b ∈ bytes.getLast?, isOpen b = true

instance (bytes : List UInt8) : Decidable (IsPending bytes) :=
  inferInstanceAs (Decidable (∃ b ∈ bytes.getLast?, _))

/-- Drops the bytes `0x80` that groups begin with; `fresh` says that nothing of the first group has been kept. -/
def unpadFrom : Bool → List UInt8 → List UInt8
  | _, [] => []
  | fresh, b :: bs => if fresh && b == 0x80 then unpadFrom true bs else b :: unpadFrom (!isOpen b) bs

def unpad (bytes : List UInt8) : List UInt8 := unpadFrom true bytes

/-! ## Bytes of a group -/

section Bytes

variable {value n : Nat} {b : UInt8} {bytes bs : List UInt8}

theorem isOpen_iff : isOpen b ↔ 128 ≤ b.toNat := by
  simp [isOpen, le_iff_toNat_le]

@[simp] theorem shift_div (value : Nat) (b : UInt8) : shift value b / 128 = value := by
  unfold shift
  omega

@[simp] theorem shift_mod (value : Nat) (b : UInt8) : shift value b % 128 = b.toNat % 128 := by
  unfold shift
  omega

theorem le_shift (value : Nat) (b : UInt8) : value * 128 ≤ shift value b := le_add_right _ _

theorem opening_zero : opening 0 = [] := by simp [opening]

theorem opening_of_ne (h : n ≠ 0) : opening n = opening (n / 128) ++ [ofNat (0x80 + n % 128)] := by
  rw [opening]
  simp [h]

theorem isOpen_opening (n : Nat) : ∀ b ∈ opening n, isOpen b := by
  induction n using Nat.strongRecOn with
  | ind n ih =>
    by_cases hn : n = 0
    · simp [hn, opening_zero]
    · intro b hb
      rw [opening_of_ne hn, mem_append, mem_singleton] at hb
      rcases hb with hb | rfl
      · exact ih _ (by omega) b hb
      · rw [isOpen_iff, toNat_ofNat']
        omega

theorem encode_of_lt (h : n < 128) : encode n = [ofNat n] := by
  rw [encode, div_eq_of_lt h, mod_eq_of_lt h, opening_zero, nil_append]

/-- Of a number with more than seven bits the first byte goes on. -/
theorem encode_of_ge (h : 128 ≤ n) : ∃ b bs, encode n = b :: bs ∧ isOpen b := by
  have hne : n / 128 ≠ 0 := by omega
  have hopening : opening (n / 128) ≠ [] := by simp [opening_of_ne hne]
  obtain ⟨b, bs, hb⟩ := exists_cons_of_ne_nil hopening
  have hopen : isOpen b := isOpen_opening (n / 128) b (hb ▸ mem_cons_self)
  exact ⟨b, bs ++ [UInt8.ofNat (n % 128)], by rw [encode, hb, List.cons_append], hopen⟩

/-- A byte that goes on is the bits it adds, with the highest bit set. -/
theorem ofNat_open (h : isOpen b) : ofNat (0x80 + b.toNat % 128) = b := by
  have hopen := isOpen_iff.mp h
  have hlt := b.toNat_lt
  refine UInt8.toNat_inj.mp ?_
  rw [toNat_ofNat']
  omega

theorem ofNat_closed (h : ¬ isOpen b) : ofNat (b.toNat % 128) = b := by
  rw [isOpen_iff] at h
  refine UInt8.toNat_inj.mp ?_
  rw [toNat_ofNat']
  omega

/-- Only the byte `0x80` adds nothing to a group that has nothing yet. -/
theorem shift_eq_zero (h : isOpen b) : shift value b = 0 ↔ value = 0 ∧ b = 0x80 := by
  have hbyte : b.toNat % 128 = 0 ↔ b = 0x80 := by
    have hopen := isOpen_iff.mp h
    have hlt := b.toNat_lt
    rw [← UInt8.toNat_inj]
    change _ ↔ b.toNat = 128
    omega
  rw [← hbyte]
  unfold shift
  omega

theorem opening_shift (h : isOpen b) (hne : shift value b ≠ 0) :
    opening (shift value b) = opening value ++ [b] := by
  rw [opening_of_ne hne, shift_div, shift_mod, ofNat_open h]

theorem encode_shift (h : ¬ isOpen b) : encode (shift value b) = opening value ++ [b] := by
  rw [encode, shift_div, shift_mod, ofNat_closed h]

end Bytes

/-! ## Groups -/

section Groups

variable {value : Nat} {b : UInt8} {bytes bs : List UInt8}

theorem isPending_nil : ¬ IsPending [] := by simp [IsPending]

theorem isPending_singleton : IsPending [b] ↔ isOpen b := by simp [IsPending]

theorem isPending_cons (h : bs ≠ []) : IsPending (b :: bs) ↔ IsPending bs := by
  obtain ⟨c, cs, rfl⟩ := exists_cons_of_ne_nil h
  simp [IsPending]

theorem isPending_concat : IsPending (bytes ++ [b]) ↔ isOpen b := by simp [IsPending]

theorem arcsFrom_open (h : isOpen b) : arcsFrom value (b :: bs) = arcsFrom (shift value b) bs := by
  rw [arcsFrom, if_pos h]

theorem arcsFrom_closed (h : ¬ isOpen b) : arcsFrom value (b :: bs) = shift value b :: arcsFrom 0 bs := by
  rw [arcsFrom, if_neg h]

/-- What has been read of a group, and the bytes that follow without the superfluous ones, are as they are written. -/
theorem opening_unpadFrom (hpending : ¬ IsPending bytes) (hvalue : bytes = [] → value = 0) :
    opening value ++ unpadFrom (value = 0) bytes = encodeAll (arcsFrom value bytes) := by
  induction bytes generalizing value with
  | nil => simp [hvalue, opening_zero, unpadFrom, arcsFrom, encodeAll]
  | cons b bs ih =>
    by_cases hb : isOpen b
    · have hbs : bs ≠ [] := by
        rintro rfl
        exact hpending (isPending_singleton.mpr hb)
      have hih := @ih (shift value b) (by rwa [isPending_cons hbs] at hpending) (absurd · hbs)
      rw [arcsFrom_open hb, ← hih]
      by_cases hzero : shift value b = 0
      · -- superfluous: nothing of the group is kept yet
        obtain ⟨rfl, rfl⟩ := (shift_eq_zero hb).mp hzero
        simp [hzero, unpadFrom]
      · have hkept : ¬ (value = 0 ∧ b = 0x80) := fun h => hzero ((shift_eq_zero hb).mpr h)
        have hstep : unpadFrom (decide (value = 0)) (b :: bs) = b :: unpadFrom false bs := by
          rw [unpadFrom, if_neg (by simpa using hkept), hb, Bool.not_true]
        rw [hstep, opening_shift hb hzero]
        simp [hzero]
    · have hne : b ≠ 0x80 := by
        rintro rfl
        exact hb (by decide)
      have hbs : ¬ IsPending bs := by
        by_cases hnil : bs = []
        · rw [hnil]
          exact isPending_nil
        · rwa [isPending_cons hnil] at hpending
      have hih := @ih 0 hbs fun _ => rfl
      rw [opening_zero, nil_append, decide_eq_true rfl] at hih
      rw [arcsFrom_closed hb, encodeAll, flatMap_cons, encode_shift hb, ← encodeAll, ← hih, unpadFrom]
      simp [hne, hb]

/-- Without the superfluous bytes, bytes are as few as their numbers need. -/
theorem unpad_eq (h : ¬ IsPending bytes) : unpad bytes = encodeAll (arcs bytes) := by
  have h : opening 0 ++ unpadFrom (decide (0 = 0)) bytes = encodeAll (arcsFrom 0 bytes) :=
    opening_unpadFrom h fun _ => rfl
  rw [opening_zero, nil_append, decide_eq_true rfl] at h
  exact h

theorem arcsFrom_opening (n : Nat) (bs : List UInt8) : arcsFrom 0 (opening n ++ bs) = arcsFrom n bs := by
  induction n using Nat.strongRecOn generalizing bs with
  | ind n ih =>
    by_cases hn : n = 0
    · rw [hn, opening_zero, nil_append]
    · have hmod : n % 128 < 128 := mod_lt _ (by decide)
      have htoNat : (ofNat (0x80 + n % 128)).toNat = 128 + n % 128 := by
        rw [toNat_ofNat']
        omega
      have hopen : isOpen (ofNat (0x80 + n % 128)) := isOpen_iff.mpr (by omega)
      have hshift : shift (n / 128) (ofNat (0x80 + n % 128)) = n := by
        rw [shift, htoNat]
        omega
      rw [opening_of_ne hn, List.append_assoc, ih _ (by omega), List.singleton_append, arcsFrom_open hopen, hshift]

theorem arcsFrom_encode (n : Nat) (bs : List UInt8) : arcsFrom 0 (encode n ++ bs) = n :: arcsFrom 0 bs := by
  have htoNat : (ofNat (n % 128)).toNat = n % 128 := by
    rw [toNat_ofNat']
    omega
  have hclosed : ¬ isOpen (ofNat (n % 128)) := by
    rw [isOpen_iff]
    omega
  have hshift : shift (n / 128) (ofNat (n % 128)) = n := by
    rw [shift, htoNat]
    omega
  rw [encode, List.append_assoc, arcsFrom_opening, List.singleton_append, arcsFrom_closed hclosed, hshift]

@[simp] theorem arcs_encodeAll (ns : List Nat) : arcs (encodeAll ns) = ns := by
  induction ns with
  | nil => rfl
  | cons n ns ih =>
    rw [arcs] at ih ⊢
    rw [encodeAll, flatMap_cons, ← encodeAll, arcsFrom_encode, ih]

theorem isPending_encodeAll (ns : List Nat) : ¬ IsPending (encodeAll ns) := by
  induction ns using reverseRecOn with
  | nil => exact isPending_nil
  | append_singleton ns n _ =>
    rw [encodeAll, List.flatMap_append, List.flatMap_singleton, encode, ← List.append_assoc, isPending_concat,
      isOpen_iff, toNat_ofNat']
    omega

/-- Bytes spell the same numbers as others when they differ in superfluous bytes only. -/
theorem arcs_eq_iff {bytes' : List UInt8} (h : ¬ IsPending bytes) (h' : ¬ IsPending bytes') :
    arcs bytes = arcs bytes' ↔ unpad bytes = unpad bytes' := by
  rw [unpad_eq h, unpad_eq h']
  constructor
  · exact congrArg encodeAll
  · intro heq
    simpa using congrArg arcs heq

/-- A group does not get smaller. -/
theorem exists_arc_ge {limit : Nat} (hne : bytes ≠ []) (hpending : ¬ IsPending bytes) (h : limit ≤ value * 128) :
    ∃ n ∈ arcsFrom value bytes, limit ≤ n := by
  induction bytes generalizing value with
  | nil => exact absurd rfl hne
  | cons b bs ih =>
    have hshift := h.trans (le_shift value b)
    by_cases hb : isOpen b
    · have hbs : bs ≠ [] := by
        rintro rfl
        exact hpending (isPending_singleton.mpr hb)
      rw [arcsFrom_open hb]
      exact ih hbs (by rwa [isPending_cons hbs] at hpending) (by omega)
    · rw [arcsFrom_closed hb]
      exact ⟨_, mem_cons_self, hshift⟩

end Groups

end Base128
