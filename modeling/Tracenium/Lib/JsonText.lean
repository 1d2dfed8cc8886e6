-- SUMMARY: What JSON text is made of, what becomes of it when characters are lost, and how long it is.
import Tracenium.Lib.Json
import Tracenium.Lib.Utf8
import Mathlib.Data.List.TakeWhile

/-! The text of a value has no control character, and characters outside ASCII occur in its strings only. -/

open Utf16 Utf8 List UInt16

namespace Json

/-! ## Well-formed, without control characters -/

/-- Text of a line: well formed, without control characters. -/
def IsLine (s : Str) : Prop := WellFormed s ∧ ∀ u ∈ s, ¬ u < 0x20

variable {s t : Str}

theorem IsLine.append (hs : IsLine s) (ht : IsLine t) : IsLine (s ++ t) :=
  ⟨hs.1.append ht.1, fun u hu => (mem_append.mp hu).elim (hs.2 u) (ht.2 u)⟩

def isPrintable (u : UInt16) : Bool := 0x20 ≤ u && u < 0x80

variable {u : UInt16}

theorem not_surrogate_of_isPrintable (h : isPrintable u) :
    isHigh u = false ∧ isLow u = false ∧ u.toNat < 0x80 ∧ ¬ u < 0x20 := by
  simp only [isPrintable, Bool.and_eq_true, decide_eq_true_eq, le_iff_toNat_le, lt_iff_toNat_lt] at h
  rw [isHigh_eq_false_iff, isLow_eq_false_iff, lt_iff_toNat_lt]
  simp only [reduceToNat] at h ⊢
  omega

theorem isLine_of_printable {s : Str} (h : s.all isPrintable) : IsLine s := by
  rw [all_eq_true] at h
  refine ⟨.of_forall fun u hu => ?_, fun u hu => ?_⟩
  · obtain ⟨hhigh, hlow, -⟩ := not_surrogate_of_isPrintable (h u hu)
    exact ⟨hhigh, hlow⟩
  · exact (not_surrogate_of_isPrintable (h u hu)).2.2.2

theorem isLine_nil : IsLine [] := isLine_of_printable rfl

theorem IsLine.cons {s : Str} (hu : isPrintable u) (hs : IsLine s) : IsLine (u :: s) :=
  (isLine_of_printable (s := [u]) (by simpa using hu)).append hs

theorem isPrintable_hexDigit : ∀ n < 16, isPrintable (hexDigit n) := by
  decide

theorem isPrintable_hex4 (u : UInt16) : ∀ v ∈ hex4 u.toNat, isPrintable v := by
  have hlt := u.toNat_lt
  intro v hv
  simp only [hex4, mem_cons, not_mem_nil, or_false] at hv
  rcases hv with rfl | rfl | rfl | rfl <;> exact isPrintable_hexDigit _ (by omega)

theorem isPrintable_escapeLetter {u letter : UInt16} (h : escapeLetter u = some letter) :
    isPrintable letter := by
  unfold escapeLetter at h
  repeat' split at h
  all_goals cases h
  all_goals decide

/-- A unit is written as itself or in printable ASCII. -/
theorem escapeUnit_cases (u : UInt16) : (escapeUnit u = [u] ∧ ¬ u < 0x20 ∧ isHigh u = false ∧ isLow u = false) ∨
    ∀ v ∈ escapeUnit u, isPrintable v := by
  unfold escapeUnit
  split
  · rename_i letter hletter
    right
    have hprint := isPrintable_escapeLetter hletter
    intro v hv
    simp only [mem_cons, not_mem_nil, or_false] at hv
    rcases hv with rfl | rfl
    · decide
    · exact hprint
  · split
    · right
      refine forall_mem_cons.mpr ⟨by decide, forall_mem_cons.mpr ⟨by decide, ?_⟩⟩
      exact isPrintable_hex4 u
    · rename_i hplain
      simp only [Bool.or_eq_true, decide_eq_true_eq, not_or, Bool.not_eq_true] at hplain
      exact .inl ⟨rfl, hplain.1.1, hplain.1.2, hplain.2⟩

theorem isLine_escapeUnit (u : UInt16) : IsLine (escapeUnit u) := by
  rcases escapeUnit_cases u with ⟨heq, hcontrol, hhigh, hlow⟩ | hprint
  · rw [heq]
    exact ⟨.unit hhigh hlow .nil, by simpa using hcontrol⟩
  · exact isLine_of_printable (all_eq_true.mpr hprint)

theorem isLine_escape (s : Str) : IsLine (escape s) := by
  fun_induction escape s with
  | case1 => exact isLine_nil
  | case2 u => exact isLine_escapeUnit u
  | case3 u v s hpair ih =>
    rw [Bool.and_eq_true] at hpair
    have hu := ne_of_isSurrogate (.inl hpair.1)
    have hv := ne_of_isSurrogate (.inr hpair.2)
    refine ⟨.pair hpair.1 hpair.2 ih.1, ?_⟩
    exact forall_mem_cons.mpr ⟨hu.2.2, forall_mem_cons.mpr ⟨hv.2.2, ih.2⟩⟩
  | case4 u v s _ ih => exact (isLine_escapeUnit u).append ih

theorem isLine_quoted (s : Str) : IsLine (quoted s) :=
  .cons (by decide) ((isLine_escape s).append (isLine_of_printable (by decide)))

theorem isPrintable_of_isNumberUnit (h : isNumberUnit u) : isPrintable u := by
  simp only [isNumberUnit, isDigit, isPrintable, Bool.or_eq_true, Bool.and_eq_true,
    decide_eq_true_eq, beq_iff_eq] at h ⊢
  grind

theorem isPrintable_text (n : Numeral) : ∀ u ∈ n.text, isPrintable u :=
  fun u hu => isPrintable_of_isNumberUnit (isNumberUnit_of_isNumber n.valid u hu)

mutual

/-- The text of a value fits on a line. -/
theorem isLine_stringify (v : Json) : IsLine v.stringify := by
  match v with
  | .null => exact isLine_of_printable (by decide)
  | .bool true => exact isLine_of_printable (by decide)
  | .bool false => exact isLine_of_printable (by decide)
  | .num n => exact isLine_of_printable (all_eq_true.mpr (isPrintable_text n))
  | .str s => exact isLine_quoted s
  | .arr [] => exact isLine_of_printable (by decide)
  | .arr (x :: xs) => exact .cons (by decide) ((isLine_stringify x).append (isLine_elemsTail xs))
  | .obj [] => exact isLine_of_printable (by decide)
  | .obj ((k, x) :: ms) =>
    exact .cons (by decide) ((isLine_quoted k).append
      (.cons (by decide) ((isLine_stringify x).append (isLine_membersTail ms))))

theorem isLine_elemsTail (xs : List Json) : IsLine (elemsTail xs) := by
  match xs with
  | [] => exact isLine_of_printable (by decide)
  | x :: xs => exact .cons (by decide) ((isLine_stringify x).append (isLine_elemsTail xs))

theorem isLine_membersTail (ms : List (Str × Json)) : IsLine (membersTail ms) := by
  match ms with
  | [] => exact isLine_of_printable (by decide)
  | (k, x) :: ms =>
    exact .cons (by decide) ((isLine_quoted k).append
      (.cons (by decide) ((isLine_stringify x).append (isLine_membersTail ms))))

end

/-! ## Lost characters -/

theorem eq_of_corrupts_printable (hs : s.all isPrintable) (h : Corrupts s t) : t = s :=
  h.eq_of_ascii fun u hu => (not_surrogate_of_isPrintable (all_eq_true.mp hs u hu)).2.2.1

theorem corrupts_cons (hu : isPrintable u) (h : Corrupts (u :: s) t) : ∃ t', t = u :: t' ∧ Corrupts s t' :=
  h.cons_ascii (not_surrogate_of_isPrintable hu).2.2.1

theorem escape_pair {u v : UInt16} (hu : isHigh u) (hv : isLow v) (s : Str) :
    escape (u :: v :: s) = u :: v :: escape s := by
  simp [escape, hu, hv]

/-- A unit that is not half of a pair is escaped by itself. -/
theorem escape_cons {s : Str} (h : isHigh u → ∀ v ∈ s.head?, isLow v = false) :
    escape (u :: s) = escapeUnit u ++ escape s := by
  cases s with
  | nil => simp [escape]
  | cons v s =>
    have hpair : (isHigh u && isLow v) = false := by
      cases hu : isHigh u with
      | false => rfl
      | true => rw [h hu v rfl]; rfl
    simp [escape, hpair]

theorem escape_replacement (n : Nat) (s : Str) :
    escape (replicate n replacement ++ s) = replicate n replacement ++ escape s := by
  induction n with
  | zero => rfl
  | succ n ih =>
    rw [replicate_succ, cons_append, escape_cons (fun h => absurd h (by decide)), ih]
    rfl

/-- An escaped unit comes through, or it was a plain character and is lost. -/
theorem corrupts_escapeUnit (h : Corrupts (escapeUnit u ++ s) t) : ∃ t', Corrupts s t' ∧
      (t = escapeUnit u ++ t' ∨ ∃ n, t = replicate (n + 2) replacement ++ t') := by
  rcases escapeUnit_cases u with ⟨heq, -, hhigh, hlow⟩ | hprint
  · rw [heq] at h ⊢
    obtain ⟨t', h', rfl | ⟨n, -, rfl⟩⟩ := h.unit_inv hhigh hlow
    · exact ⟨t', h', .inl rfl⟩
    · exact ⟨t', h', .inr ⟨n, rfl⟩⟩
  · obtain ⟨t₁, t', rfl, h₁, h'⟩ := h.split (isLine_escapeUnit u).1
    rw [eq_of_corrupts_printable (all_eq_true.mpr hprint) h₁]
    exact ⟨t', h', .inl rfl⟩

theorem isLow_replacement : isLow replacement = false := by decide

/-- The inside of a string literal stays one. It does not come to start with a low surrogate, so
no half becomes part of a pair. -/
theorem corrupts_escape (h : Corrupts (escape s) t) :
    ∃ s', t = escape s' ∧ ∀ v ∈ s'.head?, isLow v → s.head? = some v := by
  have hlost (n : Nat) (s' : Str) (s : Str) :
      ∀ v ∈ (replicate (n + 2) replacement ++ s').head?, isLow v → s.head? = some v := by
    intro v hv hlow
    obtain rfl := Option.some.inj hv
    contradiction
  fun_induction escape s generalizing t with
  | case1 =>
    exact ⟨[], h.eq_nil, by simp⟩
  | case2 u =>
    obtain ⟨t', h', ht⟩ := corrupts_escapeUnit (s := []) (by simpa using h)
    obtain rfl := h'.eq_nil
    rcases ht with rfl | ⟨n, rfl⟩
    · exact ⟨[u], by simp [escape], by simp⟩
    · refine ⟨replicate (n + 2) replacement ++ [], ?_, hlost n [] [u]⟩
      rw [escape_replacement]
      rfl
  | case3 u v s hpair ih =>
    rw [Bool.and_eq_true] at hpair
    obtain ⟨t', h', ht⟩ := h.pair_inv hpair.1 hpair.2
    obtain ⟨s', rfl, -⟩ := ih h'
    rcases ht with rfl | ⟨n, rfl⟩
    · exact ⟨u :: v :: s', (escape_pair hpair.1 hpair.2 s').symm, by simp⟩
    · exact ⟨_, (escape_replacement _ _).symm, hlost n s' _⟩
  | case4 u v s hpair ih =>
    obtain ⟨t', h', ht⟩ := corrupts_escapeUnit h
    obtain ⟨s', rfl, hhead⟩ := ih h'
    rcases ht with rfl | ⟨n, rfl⟩
    · refine ⟨u :: s', (escape_cons fun hu w hw => ?_).symm, by simp⟩
      cases hlow : isLow w with
      | false => rfl
      | true =>
        obtain rfl : v = w := by simpa using hhead w hw hlow
        simp [hu, hlow] at hpair
    · exact ⟨_, (escape_replacement _ _).symm, hlost n s' _⟩

/-- What is left of a string literal is a string literal. -/
theorem corrupts_quoted (h : Corrupts (quoted s) t) : ∃ s', t = quoted s' := by
  obtain ⟨t', rfl, h'⟩ := corrupts_cons (by decide) h
  obtain ⟨t₁, t₂, rfl, h₁, h₂⟩ := h'.split (isLine_escape s).1
  obtain ⟨s', rfl, -⟩ := corrupts_escape h₁
  rw [eq_of_corrupts_printable (by decide) h₂]
  exact ⟨s', rfl⟩

def isObject : Json → Bool
  | .obj _ => true
  | _ => false

mutual

/-- What is left of the text of a value is the text of a value, and of an object if it was one. -/
theorem corrupts_stringify (v : Json) {t : Str} (h : Corrupts v.stringify t) :
    ∃ w : Json, t = w.stringify ∧ w.isObject = v.isObject := by
  match v with
  | .null => exact ⟨.null, eq_of_corrupts_printable (by decide) h, rfl⟩
  | .bool true => exact ⟨.bool true, eq_of_corrupts_printable (by decide) h, rfl⟩
  | .bool false => exact ⟨.bool false, eq_of_corrupts_printable (by decide) h, rfl⟩
  | .num n =>
    exact ⟨.num n, eq_of_corrupts_printable (all_eq_true.mpr (isPrintable_text n)) h, rfl⟩
  | .str s =>
    obtain ⟨s', rfl⟩ := corrupts_quoted h
    exact ⟨.str s', rfl, rfl⟩
  | .arr [] => exact ⟨.arr [], eq_of_corrupts_printable (by decide) h, rfl⟩
  | .arr (x :: xs) =>
    obtain ⟨t', rfl, h'⟩ := corrupts_cons (by decide) h
    obtain ⟨t₁, t₂, rfl, h₁, h₂⟩ := h'.split (isLine_stringify x).1
    obtain ⟨y, rfl, -⟩ := corrupts_stringify x h₁
    obtain ⟨ys, rfl⟩ := corrupts_elemsTail xs h₂
    exact ⟨.arr (y :: ys), rfl, rfl⟩
  | .obj [] => exact ⟨.obj [], eq_of_corrupts_printable (by decide) h, rfl⟩
  | .obj ((k, x) :: ms) =>
    obtain ⟨t', rfl, h'⟩ := corrupts_cons (by decide) h
    obtain ⟨t₁, t₂, rfl, h₁, h₂⟩ := h'.split (isLine_quoted k).1
    obtain ⟨k', rfl⟩ := corrupts_quoted h₁
    obtain ⟨t₃, rfl, h₃⟩ := corrupts_cons (by decide) h₂
    obtain ⟨t₄, t₅, rfl, h₄, h₅⟩ := h₃.split (isLine_stringify x).1
    obtain ⟨y, rfl, -⟩ := corrupts_stringify x h₄
    obtain ⟨ms', rfl⟩ := corrupts_membersTail ms h₅
    exact ⟨.obj ((k', y) :: ms'), rfl, rfl⟩

theorem corrupts_elemsTail (xs : List Json) {t : Str} (h : Corrupts (elemsTail xs) t) : ∃ ys, t = elemsTail ys := by
  match xs with
  | [] => exact ⟨[], eq_of_corrupts_printable (by decide) h⟩
  | x :: xs =>
    obtain ⟨t', rfl, h'⟩ := corrupts_cons (by decide) h
    obtain ⟨t₁, t₂, rfl, h₁, h₂⟩ := h'.split (isLine_stringify x).1
    obtain ⟨y, rfl, -⟩ := corrupts_stringify x h₁
    obtain ⟨ys, rfl⟩ := corrupts_elemsTail xs h₂
    exact ⟨y :: ys, rfl⟩

theorem corrupts_membersTail (ms : List (Str × Json)) {t : Str} (h : Corrupts (membersTail ms) t) :
    ∃ ms', t = membersTail ms' := by
  match ms with
  | [] => exact ⟨[], eq_of_corrupts_printable (by decide) h⟩
  | (k, x) :: ms =>
    obtain ⟨t', rfl, h'⟩ := corrupts_cons (by decide) h
    obtain ⟨t₁, t₂, rfl, h₁, h₂⟩ := h'.split (isLine_quoted k).1
    obtain ⟨k', rfl⟩ := corrupts_quoted h₁
    obtain ⟨t₃, rfl, h₃⟩ := corrupts_cons (by decide) h₂
    obtain ⟨t₄, t₅, rfl, h₄, h₅⟩ := h₃.split (isLine_stringify x).1
    obtain ⟨y, rfl, -⟩ := corrupts_stringify x h₄
    obtain ⟨ms', rfl⟩ := corrupts_membersTail ms h₅
    exact ⟨(k', y) :: ms', rfl⟩

end

/-- Different values have different texts, also in bytes. -/
theorem encode_stringify_injective : Function.Injective fun v : Json => Utf8.encode v.stringify := by
  intro v w h
  have hdecode := congrArg Utf8.decode h
  simp only [Utf8.decode_encode (isLine_stringify _).1] at hdecode
  exact stringify_injective hdecode

end Json

/-! # The size of JSON text -/

namespace Json

/-! ## Decimal numerals -/

def digit (n : Nat) : UInt16 := ofNat (0x30 + n)

/-- `String(n)` for a natural number. -/
def decimal (n : Nat) : Str :=
  if n < 10 then [digit n] else decimal (n / 10) ++ [digit (n % 10)]

theorem isDigit_digit {n : Nat} (h : n < 10) : isDigit (digit n) := by
  revert n
  decide

theorem digit_ne_zero {n : Nat} (h : n < 10) (hn : n ≠ 0) : digit n ≠ 0x30 := by
  revert n
  decide

theorem isDigit_decimal (n : Nat) : ∀ u ∈ decimal n, isDigit u := by
  fun_induction decimal n with
  | case1 n h => simpa using isDigit_digit h
  | case2 n h ih =>
    intro u hu
    rcases mem_append.mp hu with hu | hu
    · exact ih u hu
    · rw [mem_singleton.mp hu]
      exact isDigit_digit (by omega)

/-- A positive number does not start with a zero. -/
theorem decimal_head {n : Nat} (hn : n ≠ 0) : ∃ u s, decimal n = u :: s ∧ u ≠ 0x30 := by
  fun_induction decimal n with
  | case1 n h => exact ⟨_, _, rfl, digit_ne_zero h hn⟩
  | case2 n h ih =>
    obtain ⟨u, s, hdecimal, hu⟩ := ih (by omega)
    exact ⟨u, s ++ [digit (n % 10)], by rw [hdecimal, cons_append], hu⟩

/-- Digits that do not start with a superfluous zero are a number. -/
theorem isNumber_of_digits {u : UInt16} {s : Str} (hdigits : ∀ v ∈ u :: s, isDigit v)
    (hzero : s = [] ∨ u ≠ 0x30) : isNumber (u :: s) := by
  have hminus : u ≠ 0x2D := by
    rintro rfl
    have h := hdigits 0x2D mem_cons_self
    revert h
    decide
  have htake : (u :: s).takeWhile isDigit = u :: s := takeWhile_eq_self_iff.mpr hdigits
  have hdrop : (u :: s).dropWhile isDigit = [] := dropWhile_eq_nil_iff.mpr hdigits
  rw [isNumber, if_neg (by simpa using hminus), isUnsigned, htake, hdrop]
  rcases hzero with rfl | hzero
  · simp [isFraction]
  · simp [isFraction, hzero]

theorem isNumber_decimal (n : Nat) : isNumber (decimal n) := by
  rcases Nat.eq_zero_or_pos n with rfl | hn
  · rw [decimal, if_pos (by decide)]
    decide
  · have hdigits := isDigit_decimal n
    obtain ⟨u, s, hdecimal, hu⟩ := decimal_head (Nat.pos_iff_ne_zero.mp hn)
    rw [hdecimal] at hdigits ⊢
    exact isNumber_of_digits hdigits (.inr hu)

/-- A natural number as `JSON.stringify` writes it. -/
def nat (n : Nat) : Json := .num ⟨decimal n, isNumber_decimal n⟩

/-! ## String literals -/

/-- One for half of a surrogate pair. -/
def half (u : UInt16) : Nat := if isHigh u || isLow u then 1 else 0

/-- The halves of surrogate pairs that stand without their other half. -/
def loneHalves : Str → Nat
  | [] => 0
  | [u] => half u
  | u :: v :: s => if isHigh u && isLow v then loneHalves s else half u + loneHalves (v :: s)

theorem length_escapeUnit {u : UInt16} (h : ¬ u < 0x20) :
    (escapeUnit u).length = 1 + [u].count quote + [u].count backslash + 5 * half u := by
  by_cases hquote : u = quote
  · subst hquote
    decide
  by_cases hback : u = backslash
  · subst hback
    decide
  have hcount : [u].count quote = 0 ∧ [u].count backslash = 0 := by
    simp [hquote, hback]
  have hletter : escapeLetter u = none := by
    have hne (v : UInt16) (hv : v < 0x20) : u ≠ v := by
      rintro rfl
      exact h hv
    simp [escapeLetter, hquote, hback, hne 0x08 (by decide), hne 0x09 (by decide),
      hne 0x0A (by decide), hne 0x0C (by decide), hne 0x0D (by decide)]
  rw [escapeUnit, hletter, hcount.1, hcount.2, half]
  cases hsurrogate : isHigh u || isLow u with
  | true => simp [hsurrogate, h, hex4]
  | false => simp [hsurrogate, h]

/-- How long a string without control characters is inside a literal. -/
theorem length_escape {s : Str} (h : ∀ u ∈ s, ¬ u < 0x20) :
    (escape s).length = s.length + s.count quote + s.count backslash + 5 * loneHalves s := by
  fun_induction escape s with
  | case1 => rfl
  | case2 u => exact length_escapeUnit (h u (by simp))
  | case3 u v s hpair ih =>
    have hrest := ih fun w hw => h w (by simp [hw])
    have hpair' := hpair
    rw [Bool.and_eq_true] at hpair'
    have hu := ne_of_isSurrogate (.inl hpair'.1)
    have hv := ne_of_isSurrogate (.inr hpair'.2)
    rw [loneHalves, if_pos hpair, count_cons_of_ne hu.1, count_cons_of_ne hv.1,
      count_cons_of_ne hu.2.1, count_cons_of_ne hv.2.1]
    simp only [length_cons]
    omega
  | case4 u v s hpair ih =>
    have hrest := ih fun w hw => h w (mem_cons_of_mem _ hw)
    have hunit := length_escapeUnit (h u (by simp))
    have hsplit (w : UInt16) : (u :: v :: s).count w = [u].count w + (v :: s).count w := by
      rw [← count_append, singleton_append]
    rw [loneHalves, if_neg hpair, length_append, hrest, hunit, hsplit, hsplit, length_cons (a := u)]
    omega

theorem loneHalves_cons {u : UInt16} (hu : isHigh u = false) (s : Str) :
    loneHalves (u :: s) = half u + loneHalves s := by
  cases s with
  | nil => rfl
  | cons v s => simp [loneHalves, hu]

/-- Well-formed text has no lone halves. -/
theorem loneHalves_append {a : Str} (ha : WellFormed a) (b : Str) : loneHalves (a ++ b) = loneHalves b := by
  induction ha with
  | nil => rfl
  | @unit u s hhigh hlow _ ih =>
    rw [cons_append, loneHalves_cons hhigh, ih]
    simp [half, hhigh, hlow]
  | @pair u v s hhigh hlow _ ih =>
    rw [cons_append, cons_append, loneHalves, hhigh, hlow]
    simpa using ih

theorem loneHalves_wellFormed {s : Str} (hs : WellFormed s) : loneHalves s = 0 := by
  simpa [loneHalves] using loneHalves_append hs []

theorem loneHalves_take {s : Str} (hs : WellFormed s) (k : Nat) :
    loneHalves (s.take k) = if splitsPair s k then 1 else 0 := by
  cases hk : splitsPair s k with
  | false => exact loneHalves_wellFormed ((hs.take_iff k).mpr hk)
  | true =>
    obtain ⟨a, h, l, b, rfl, rfl, ha, hhigh, -, -⟩ := hs.exists_pair hk
    have htake : (a ++ h :: l :: b).take (a.length + 1) = a ++ [h] := take_length_add_append 1
    rw [htake, loneHalves_append ha]
    simp [loneHalves, half, hhigh]

/-- A slice of well-formed text has a lone half wherever it cuts through a pair. -/
theorem loneHalves_slice {s : Str} (hs : WellFormed s) (i : Nat) {size : Nat} (hsize : 0 < size) :
    loneHalves ((s.drop i).take size) =
      (if splitsPair s i then 1 else 0) + (if splitsPair s (i + size) then 1 else 0) := by
  rw [← splitsPair_drop s i hsize]
  cases hi : splitsPair s i with
  | false => simpa using loneHalves_take (hs.drop hi) size
  | true =>
    obtain ⟨a, h, l, b, rfl, rfl, -, -, hlow, hb⟩ := hs.exists_pair hi
    obtain ⟨k, rfl⟩ := Nat.exists_eq_add_of_lt hsize
    have hdrop : (a ++ h :: l :: b).drop (a.length + 1) = l :: b := by
      simp
    have htake : (l :: b).take (0 + k + 1) = l :: b.take k := by simp
    have hsplit : splitsPair (l :: b) (0 + k + 1) = splitsPair b k := by
      cases k with
      | zero =>
        cases b with
        | nil => simp
        | cons v b => rw [splitsPair_cons_one, not_isHigh_of_isLow hlow, splitsPair_zero]; rfl
      | succ k => rw [Nat.zero_add, splitsPair_cons_add_two]
    rw [hdrop, htake, hsplit, loneHalves_cons (not_isHigh_of_isLow hlow), loneHalves_take hb]
    simp [half, hlow]

end Json
