-- SUMMARY: JSON values, how JavaScript writes and reads them as UTF-16 text, and that reading the text of a value gives it back.
import Tracenium.Lib.Utf16

/-!
`Json.stringify` is well-formed `JSON.stringify` without indentation. An object is its members in the order of the
text. Numbers are kept as they are spelled.
-/

open Utf16 List Option

/-! ## Characters -/

namespace Json

def quote : UInt16 := 0x22
def backslash : UInt16 := 0x5C
def comma : UInt16 := 0x2C
def colon : UInt16 := 0x3A
def lbracket : UInt16 := 0x5B
def rbracket : UInt16 := 0x5D
def lbrace : UInt16 := 0x7B
def rbrace : UInt16 := 0x7D

def isWs (u : UInt16) : Bool := u == 0x20 || u == 0x09 || u == 0x0A || u == 0x0D

def isDigit (u : UInt16) : Bool := 0x30 ≤ u && u ≤ 0x39

def isNumberUnit (u : UInt16) : Bool :=
  isDigit u || u == 0x2D || u == 0x2B || u == 0x2E || u == 0x65 || u == 0x45

/-! ## Numbers -/

/-- Nothing, or `e`, a sign if there is one, and digits. -/
def isExponent : Str → Bool
  | [] => true
  | u :: s =>
    let digits := match s with
      | v :: t => if v == 0x2B || v == 0x2D then t else v :: t
      | [] => []
    (u == 0x65 || u == 0x45) && !digits.isEmpty && digits.all isDigit

/-- A fraction if there is one, and an exponent. -/
def isFraction : Str → Bool
  | u :: s =>
    if u == 0x2E then !(s.takeWhile isDigit).isEmpty && isExponent (s.dropWhile isDigit)
    else isExponent (u :: s)
  | [] => true

/-- An integer part without superfluous zeros, and a fraction. -/
def isUnsigned (s : Str) : Bool :=
  let int := s.takeWhile isDigit
  !int.isEmpty && (int.length == 1 || int.head? != some 0x30) && isFraction (s.dropWhile isDigit)

/-- The spellings of numbers. -/
def isNumber : Str → Bool
  | u :: s => if u == 0x2D then isUnsigned s else isUnsigned (u :: s)
  | [] => false

end Json

structure Numeral where
  text : Str
  valid : Json.isNumber text = true
  deriving DecidableEq

inductive Json
  | null
  | bool (b : Bool)
  | num (n : Numeral)
  | str (s : Str)
  | arr (xs : List Json)
  | obj (ms : List (Str × Json))

namespace Json

/-! ## Writing -/

def hexDigit (n : Nat) : UInt16 := UInt16.ofNat (if n < 10 then 0x30 + n else 0x57 + n)

def hex4 (n : Nat) : Str :=
  [hexDigit (n / 0x1000), hexDigit (n / 0x100 % 0x10), hexDigit (n / 0x10 % 0x10), hexDigit (n % 0x10)]

def escapeLetter (u : UInt16) : Option UInt16 :=
  if u = quote then some quote
  else if u = backslash then some backslash
  else if u = 0x08 then some 0x62
  else if u = 0x09 then some 0x74
  else if u = 0x0A then some 0x6E
  else if u = 0x0C then some 0x66
  else if u = 0x0D then some 0x72
  else none

/-- A unit that is not half of a pair, inside a string. -/
def escapeUnit (u : UInt16) : Str :=
  match escapeLetter u with
  | some letter => [backslash, letter]
  | none =>
    if u < 0x20 || isHigh u || isLow u then backslash :: 0x75 :: hex4 u.toNat else [u]

def escape : Str → Str
  | [] => []
  | [u] => escapeUnit u
  | u :: v :: s =>
    if isHigh u && isLow v then u :: v :: escape s else escapeUnit u ++ escape (v :: s)

def quoted (s : Str) : Str := quote :: (escape s ++ [quote])

def nullText : Str := ascii ['n', 'u', 'l', 'l']
def trueText : Str := ascii ['t', 'r', 'u', 'e']
def falseText : Str := ascii ['f', 'a', 'l', 's', 'e']

mutual

def stringify : Json → Str
  | .null => nullText
  | .bool b => if b then trueText else falseText
  | .num n => n.text
  | .str s => quoted s
  | .arr [] => [lbracket, rbracket]
  | .arr (x :: xs) => lbracket :: (x.stringify ++ elemsTail xs)
  | .obj [] => [lbrace, rbrace]
  | .obj ((k, v) :: ms) => lbrace :: (quoted k ++ colon :: (v.stringify ++ membersTail ms))

def elemsTail : List Json → Str
  | [] => [rbracket]
  | x :: xs => comma :: (x.stringify ++ elemsTail xs)

def membersTail : List (Str × Json) → Str
  | [] => [rbrace]
  | (k, v) :: ms => comma :: (quoted k ++ colon :: (v.stringify ++ membersTail ms))

end

/-! ## Reading -/

def skipWs (s : Str) : Str := s.dropWhile isWs

def hexVal (u : UInt16) : Option Nat :=
  if isDigit u then some (u.toNat - 0x30)
  else if 0x61 ≤ u && u ≤ 0x66 then some (u.toNat - 0x57)
  else if 0x41 ≤ u && u ≤ 0x46 then some (u.toNat - 0x37)
  else none

def unescapeLetter (letter : UInt16) : Option UInt16 :=
  if letter = quote then some quote
  else if letter = backslash then some backslash
  else if letter = 0x2F then some 0x2F
  else if letter = 0x62 then some 0x08
  else if letter = 0x74 then some 0x09
  else if letter = 0x6E then some 0x0A
  else if letter = 0x66 then some 0x0C
  else if letter = 0x72 then some 0x0D
  else none

def unhex4 (a b c d : UInt16) : Option UInt16 := do
  let a ← hexVal a
  let b ← hexVal b
  let c ← hexVal c
  let d ← hexVal d
  some (UInt16.ofNat (a * 0x1000 + b * 0x100 + c * 0x10 + d))

/-- The inside of a string literal up to its closing quote, and what follows it. -/
def parseChars : Str → Option (Str × Str)
  | [] => none
  | u :: s =>
    if u = quote then some ([], s)
    else if u = backslash then
      match s with
      | [] => none
      | letter :: s =>
        if letter = 0x75 then
          match s with
          | a :: b :: c :: d :: s =>
            match unhex4 a b c d with
            | some v => (parseChars s).map fun p => (v :: p.1, p.2)
            | none => none
          | _ => none
        else
          match unescapeLetter letter with
          | some v => (parseChars s).map fun p => (v :: p.1, p.2)
          | none => none
    else if u < 0x20 then none
    else (parseChars s).map fun p => (u :: p.1, p.2)

/-- A literal name or a number, and what follows it. -/
def parseAtom (s : Str) : Option (Json × Str) :=
  if nullText.isPrefixOf s then some (.null, s.drop 4)
  else if trueText.isPrefixOf s then some (.bool true, s.drop 4)
  else if falseText.isPrefixOf s then some (.bool false, s.drop 5)
  else if h : isNumber (s.takeWhile isNumberUnit) then
    some (.num ⟨_, h⟩, s.dropWhile isNumberUnit)
  else none

/-- A key and its colon, and what follows them. -/
def parseKey (s : Str) : Option (Str × Str) :=
  match skipWs s with
  | u :: s =>
    if u = quote then
      match parseChars s with
      | some (k, s) =>
        match skipWs s with
        | u :: s => if u = colon then some (k, s) else none
        | [] => none
      | none => none
    else none
  | [] => none

mutual

/-- A value at the start of the text, and what follows it. The number bounds the recursion. -/
def parseValue : Nat → Str → Option (Json × Str)
  | 0, _ => none
  | n + 1, s =>
    match skipWs s with
    | [] => none
    | u :: r =>
      if u = quote then (parseChars r).map fun p => (.str p.1, p.2)
      else if u = lbracket then parseElems n r
      else if u = lbrace then parseMembers n r
      else parseAtom (u :: r)

def parseElems : Nat → Str → Option (Json × Str)
  | 0, _ => none
  | n + 1, s =>
    match skipWs s with
    | [] => none
    | u :: r =>
      if u = rbracket then some (.arr [], r)
      else do
        let (x, r) ← parseValue n (u :: r)
        let (xs, r) ← parseElemsTail n r
        some (.arr (x :: xs), r)

def parseElemsTail : Nat → Str → Option (List Json × Str)
  | 0, _ => none
  | n + 1, s =>
    match skipWs s with
    | [] => none
    | u :: r =>
      if u = rbracket then some ([], r)
      else if u = comma then do
        let (x, r) ← parseValue n r
        let (xs, r) ← parseElemsTail n r
        some (x :: xs, r)
      else none

def parseMembers : Nat → Str → Option (Json × Str)
  | 0, _ => none
  | n + 1, s =>
    match skipWs s with
    | [] => none
    | u :: r =>
      if u = rbrace then some (.obj [], r)
      else do
        let (k, r) ← parseKey (u :: r)
        let (v, r) ← parseValue n r
        let (ms, r) ← parseMembersTail n r
        some (.obj ((k, v) :: ms), r)

def parseMembersTail : Nat → Str → Option (List (Str × Json) × Str)
  | 0, _ => none
  | n + 1, s =>
    match skipWs s with
    | [] => none
    | u :: r =>
      if u = rbrace then some ([], r)
      else if u = comma then do
        let (k, r) ← parseKey r
        let (v, r) ← parseValue n r
        let (ms, r) ← parseMembersTail n r
        some ((k, v) :: ms, r)
      else none

end

/-- `JSON.parse`: one value, with nothing but whitespace around it. -/
def parse (s : Str) : Option Json :=
  match parseValue (s.length + 1) s with
  | some (v, r) => if skipWs r = [] then some v else none
  | none => none

end Json

/-! # The JSON round trip -/

namespace Json

/-! ## Numbers -/

variable {u : UInt16}

theorem isNumberUnit_of_isDigit (h : isDigit u) : isNumberUnit u := by
  simp [isNumberUnit, h]

theorem isNumberUnit_of_isExponent {s : Str} (h : isExponent s) : ∀ u ∈ s, isNumberUnit u := by
  match s with
  | [] => simp
  | [u] => simp [isExponent] at h
  | u :: v :: s =>
    simp only [isExponent, Bool.and_eq_true, Bool.or_eq_true, beq_iff_eq] at h
    obtain ⟨⟨hletter, -⟩, hdigits⟩ := h
    have hu : isNumberUnit u := by
      rcases hletter with rfl | rfl <;> decide
    refine forall_mem_cons.mpr ⟨hu, ?_⟩
    split at hdigits
    · rename_i hsign
      have hv : isNumberUnit v := by
        rcases hsign with rfl | rfl <;> decide
      refine forall_mem_cons.mpr ⟨hv, fun w hw => ?_⟩
      exact isNumberUnit_of_isDigit (all_eq_true.mp hdigits w hw)
    · intro w hw
      exact isNumberUnit_of_isDigit (all_eq_true.mp hdigits w hw)

/-- Digits and then number units are number units. -/
theorem isNumberUnit_of_digits {s : Str}
    (h : ∀ u ∈ s.dropWhile isDigit, isNumberUnit u) : ∀ u ∈ s, isNumberUnit u := by
  intro u hu
  rw [← takeWhile_append_dropWhile (p := isDigit) (l := s)] at hu
  rcases mem_append.mp hu with hu | hu
  · exact isNumberUnit_of_isDigit (all_eq_true.mp all_takeWhile u hu)
  · exact h u hu

theorem isNumberUnit_of_isFraction {s : Str} (h : isFraction s) : ∀ u ∈ s, isNumberUnit u := by
  match s with
  | [] => simp
  | u :: s =>
    rw [isFraction] at h
    split at h
    · rename_i hdot
      rw [beq_iff_eq] at hdot
      subst hdot
      rw [Bool.and_eq_true] at h
      refine forall_mem_cons.mpr ⟨by decide, ?_⟩
      exact isNumberUnit_of_digits (isNumberUnit_of_isExponent h.2)
    · exact isNumberUnit_of_isExponent h

theorem isNumberUnit_of_isUnsigned {s : Str} (h : isUnsigned s) : ∀ u ∈ s, isNumberUnit u := by
  rw [isUnsigned, Bool.and_eq_true] at h
  exact isNumberUnit_of_digits (isNumberUnit_of_isFraction h.2)

/-- A number is spelled with number units. -/
theorem isNumberUnit_of_isNumber {s : Str} (h : isNumber s) : ∀ u ∈ s, isNumberUnit u := by
  match s with
  | [] => simp
  | u :: s =>
    rw [isNumber] at h
    split at h
    · rename_i hminus
      rw [beq_iff_eq] at hminus
      subst hminus
      exact forall_mem_cons.mpr ⟨by decide, isNumberUnit_of_isUnsigned h⟩
    · exact isNumberUnit_of_isUnsigned h

theorem ne_nil_of_isNumber {s : Str} (h : isNumber s) : s ≠ [] := by
  rintro rfl
  cases h

/-! ## Strings -/

theorem hexVal_hexDigit : ∀ n < 16, hexVal (hexDigit n) = some n := by
  decide

theorem unhex4_hex4 (u : UInt16) : unhex4 (hexDigit (u.toNat / 0x1000)) (hexDigit (u.toNat / 0x100 % 0x10))
      (hexDigit (u.toNat / 0x10 % 0x10)) (hexDigit (u.toNat % 0x10)) = some u := by
  have hlt := u.toNat_lt
  unfold unhex4
  rw [hexVal_hexDigit _ (by omega), hexVal_hexDigit _ (by omega), hexVal_hexDigit _ (by omega),
    hexVal_hexDigit _ (by omega)]
  have hval : u.toNat / 0x1000 * 0x1000 + u.toNat / 0x100 % 0x10 * 0x100 +
      u.toNat / 0x10 % 0x10 * 0x10 + u.toNat % 0x10 = u.toNat := by omega
  simp only [bind_eq_bind, bind_some, hval, UInt16.ofNat_toNat]

/-- What a unit with a two-unit escape reads back as. -/
theorem unescapeLetter_escapeLetter {u letter : UInt16} (h : escapeLetter u = some letter) :
    letter ≠ 0x75 ∧ unescapeLetter letter = some u := by
  unfold escapeLetter at h
  repeat' split at h
  all_goals cases h
  all_goals subst_vars
  all_goals exact ⟨by decide, by decide⟩

theorem ne_of_escapeLetter_none (h : escapeLetter u = none) : u ≠ quote ∧ u ≠ backslash := by
  constructor
  · rintro rfl
    cases h
  · rintro rfl
    cases h

theorem parseChars_quote (s : Str) : parseChars (quote :: s) = some ([], s) := by
  rw [parseChars.eq_def]
  simp

/-- A plain unit is read as it is. -/
theorem parseChars_cons (hquote : u ≠ quote) (hback : u ≠ backslash) (hcontrol : ¬ u < 0x20) (s : Str) :
    parseChars (u :: s) = (parseChars s).map fun p => (u :: p.1, p.2) := by
  rw [parseChars.eq_def]
  dsimp only
  rw [if_neg hquote, if_neg hback, if_neg hcontrol]

theorem parseChars_letter {letter v : UInt16} (hne : letter ≠ 0x75) (h : unescapeLetter letter = some v) (s : Str) :
    parseChars (backslash :: letter :: s) = (parseChars s).map fun p => (v :: p.1, p.2) := by
  rw [parseChars.eq_def]
  dsimp only
  rw [if_neg (by decide), if_pos rfl, if_neg hne, h]

theorem parseChars_unicode {a b c d v : UInt16} (h : unhex4 a b c d = some v) (s : Str) :
    parseChars (backslash :: 0x75 :: a :: b :: c :: d :: s) = (parseChars s).map fun p => (v :: p.1, p.2) := by
  rw [parseChars.eq_def]
  dsimp only
  rw [if_neg (by decide), if_pos rfl, if_pos rfl, h]

theorem parseChars_escapeUnit (u : UInt16) (s : Str) :
    parseChars (escapeUnit u ++ s) = (parseChars s).map fun p => (u :: p.1, p.2) := by
  unfold escapeUnit
  split
  · rename_i letter hletter
    obtain ⟨hne, hunescape⟩ := unescapeLetter_escapeLetter hletter
    exact parseChars_letter hne hunescape s
  · rename_i hnone
    obtain ⟨hquote, hback⟩ := ne_of_escapeLetter_none hnone
    split
    · exact parseChars_unicode (unhex4_hex4 u) s
    · rename_i hplain
      simp only [Bool.or_eq_true, decide_eq_true_eq, not_or] at hplain
      exact parseChars_cons hquote hback hplain.1.1 s

theorem ne_of_isSurrogate (h : isHigh u ∨ isLow u) : u ≠ quote ∧ u ≠ backslash ∧ ¬ u < 0x20 := by
  refine ⟨?_, ?_, ?_⟩
  · rintro rfl
    simp [isHigh, isLow, quote] at h
  · rintro rfl
    simp [isHigh, isLow, backslash] at h
  · simp only [isHigh, isLow] at h
    grind

theorem parseChars_escape (s r : Str) : parseChars (escape s ++ quote :: r) = some (s, r) := by
  fun_induction escape s with
  | case1 => exact parseChars_quote r
  | case2 u => rw [parseChars_escapeUnit, parseChars_quote, map_some]
  | case3 u v s hpair ih =>
    rw [Bool.and_eq_true] at hpair
    obtain ⟨hq, hb, hc⟩ := ne_of_isSurrogate (.inl hpair.1)
    obtain ⟨hq', hb', hc'⟩ := ne_of_isSurrogate (.inr hpair.2)
    rw [cons_append, cons_append, parseChars_cons hq hb hc, parseChars_cons hq' hb' hc', ih]
    rfl
  | case4 u v s _ ih =>
    rw [append_assoc, parseChars_escapeUnit, ih]
    rfl

/-! ## Values -/

/-- What follows is not a part of a number before it. -/
def EndsNumber (r : Str) : Prop := ∀ u ∈ r.head?, isNumberUnit u = false

theorem endsNumber_nil : EndsNumber [] := by
  simp [EndsNumber]

theorem endsNumber_cons (h : isNumberUnit u = false) (r : Str) : EndsNumber (u :: r) := by
  simpa [EndsNumber] using h

theorem endsNumber_elemsTail (xs : List Json) (r : Str) : EndsNumber (elemsTail xs ++ r) := by
  cases xs <;> exact endsNumber_cons (by decide) _

theorem endsNumber_membersTail (ms : List (Str × Json)) (r : Str) : EndsNumber (membersTail ms ++ r) := by
  cases ms <;> exact endsNumber_cons (by decide) _

/-- A number ends where what follows it cannot be a part of it. -/
theorem takeWhile_number {text r : Str} (h : ∀ u ∈ text, isNumberUnit u)
    (hr : EndsNumber r) : (text ++ r).takeWhile isNumberUnit = text ∧ (text ++ r).dropWhile isNumberUnit = r := by
  rw [takeWhile_append_of_pos h, dropWhile_append_of_pos h]
  cases r with
  | nil => simp
  | cons u r =>
    have hu : isNumberUnit u = false := hr u rfl
    simp [hu]

theorem ne_of_isNumberUnit (h : isNumberUnit u) :
    isWs u = false ∧ u ≠ quote ∧ u ≠ lbracket ∧ u ≠ rbracket ∧ u ≠ lbrace ∧ u ≠ rbrace ∧
      u ≠ 0x6E ∧ u ≠ 0x74 ∧ u ≠ 0x66 := by
  refine ⟨?_, ?_, ?_, ?_, ?_, ?_, ?_, ?_, ?_⟩
  · simp only [isWs, Bool.or_eq_false_iff, beq_eq_false_iff_ne]
    refine ⟨⟨⟨?_, ?_⟩, ?_⟩, ?_⟩ <;>
      · rintro rfl
        exact absurd h (by decide)
  all_goals
    rintro rfl
    exact absurd h (by decide)

theorem skipWs_cons (h : isWs u = false) (s : Str) : skipWs (u :: s) = u :: s := by
  simp [skipWs, h]

/-- The text of a value starts with something that is no whitespace and closes nothing. -/
theorem stringify_head (v : Json) : ∃ u s, v.stringify = u :: s ∧ isWs u = false ∧ u ≠ rbracket ∧ u ≠ rbrace := by
  cases v with
  | null => exact ⟨_, _, rfl, by decide, by decide, by decide⟩
  | bool b => cases b <;> exact ⟨_, _, rfl, by decide, by decide, by decide⟩
  | num n =>
    obtain ⟨text, valid⟩ := n
    cases text with
    | nil => exact absurd rfl (ne_nil_of_isNumber valid)
    | cons u s =>
      have hu := ne_of_isNumberUnit (isNumberUnit_of_isNumber valid u (by simp))
      exact ⟨u, s, rfl, hu.1, hu.2.2.2.1, hu.2.2.2.2.2.1⟩
  | str s => exact ⟨_, _, rfl, by decide, by decide, by decide⟩
  | arr xs => cases xs <;> exact ⟨_, _, rfl, by decide, by decide, by decide⟩
  | obj ms => cases ms <;> exact ⟨_, _, rfl, by decide, by decide, by decide⟩

theorem isPrefixOf_cons_of_ne {u v : UInt16} (h : v ≠ u) (s t : Str) : (u :: s).isPrefixOf (v :: t) = false := by
  simp [isPrefixOf, Ne.symm h]

theorem parseAtom_number (n : Numeral) {r : Str} (hr : EndsNumber r) :
    parseAtom (n.text ++ r) = some (.num n, r) := by
  obtain ⟨text, valid⟩ := n
  have hunits := isNumberUnit_of_isNumber valid
  obtain ⟨htake, hdrop⟩ := takeWhile_number hunits hr
  cases text with
  | nil => exact absurd rfl (ne_nil_of_isNumber valid)
  | cons u s =>
    obtain ⟨-, -, -, -, -, -, hn, ht, hf⟩ := ne_of_isNumberUnit (hunits u (by simp))
    have hnull : nullText.isPrefixOf (u :: s ++ r) = false := isPrefixOf_cons_of_ne hn _ _
    have htrue : trueText.isPrefixOf (u :: s ++ r) = false := isPrefixOf_cons_of_ne ht _ _
    have hfalse : falseText.isPrefixOf (u :: s ++ r) = false := isPrefixOf_cons_of_ne hf _ _
    simp only [parseAtom, hnull, htrue, hfalse, htake, hdrop, valid, Bool.false_eq_true, if_false, dif_pos]

theorem parseKey_quoted (k r : Str) : parseKey (quoted k ++ colon :: r) = some (k, r) := by
  rw [quoted, cons_append, append_assoc, parseKey, skipWs_cons (by decide)]
  dsimp only
  rw [if_pos rfl, singleton_append, parseChars_escape]
  dsimp only
  rfl

theorem length_stringify_pos (v : Json) : 0 < v.stringify.length := by
  obtain ⟨u, s, h, -⟩ := stringify_head v
  simp [h]

theorem length_elemsTail_pos (xs : List Json) : 0 < (elemsTail xs).length := by
  cases xs <;> simp [elemsTail]

theorem length_membersTail_pos (ms : List (Str × Json)) : 0 < (membersTail ms).length := by
  rcases ms with _ | ⟨⟨k, v⟩, ms⟩ <;> simp [membersTail]

theorem parseValue_cons (h : isWs u = false) (n : Nat) (s : Str) : parseValue (n + 1) (u :: s) =
      if u = quote then (parseChars s).map fun p => (.str p.1, p.2) else if u = lbracket then parseElems n s
      else if u = lbrace then parseMembers n s else parseAtom (u :: s) := by
  rw [parseValue, skipWs_cons h]

theorem parseValue_number (m : Numeral) (n : Nat) {r : Str} (hr : EndsNumber r) :
    parseValue (n + 1) (m.text ++ r) = some (.num m, r) := by
  have hatom := parseAtom_number m hr
  have hunits := isNumberUnit_of_isNumber m.valid
  cases htext : m.text with
  | nil => exact absurd htext (ne_nil_of_isNumber m.valid)
  | cons u s =>
    rw [htext] at hatom hunits
    obtain ⟨hws, hquote, hlbracket, -, hlbrace, -⟩ := ne_of_isNumberUnit (hunits u (by simp))
    rw [cons_append] at hatom ⊢
    rw [parseValue_cons hws, if_neg hquote, if_neg hlbracket, if_neg hlbrace, hatom]

theorem parseValue_quoted (s : Str) (n : Nat) (r : Str) : parseValue (n + 1) (quoted s ++ r) = some (.str s, r) := by
  rw [quoted, cons_append, append_assoc, singleton_append,
    parseValue_cons (by decide), if_pos rfl, parseChars_escape, map_some]

theorem parseElems_cons {x : Json} {xs : List Json} {n : Nat} {r : Str}
    (hx : parseValue n (x.stringify ++ (elemsTail xs ++ r)) = some (x, elemsTail xs ++ r))
    (hxs : parseElemsTail n (elemsTail xs ++ r) = some (xs, r)) :
    parseElems (n + 1) (x.stringify ++ (elemsTail xs ++ r)) = some (.arr (x :: xs), r) := by
  obtain ⟨u, s, hhead, hws, hclose, -⟩ := stringify_head x
  rw [hhead, cons_append] at hx ⊢
  rw [parseElems, skipWs_cons hws]
  dsimp only
  rw [if_neg hclose, hx]
  dsimp only [bind_eq_bind, bind_some]
  rw [hxs]
  rfl

theorem parseElemsTail_cons {x : Json} {xs : List Json} {n : Nat} {r : Str}
    (hx : parseValue n (x.stringify ++ (elemsTail xs ++ r)) = some (x, elemsTail xs ++ r))
    (hxs : parseElemsTail n (elemsTail xs ++ r) = some (xs, r)) :
    parseElemsTail (n + 1) (comma :: (x.stringify ++ (elemsTail xs ++ r))) = some (x :: xs, r) := by
  rw [parseElemsTail, skipWs_cons (by decide)]
  dsimp only
  rw [if_neg (by decide), if_pos rfl, hx]
  dsimp only [bind_eq_bind, bind_some]
  rw [hxs]
  rfl

theorem parseMembers_cons {k : Str} {v : Json} {ms : List (Str × Json)} {n : Nat} {r : Str}
    (hv : parseValue n (v.stringify ++ (membersTail ms ++ r)) = some (v, membersTail ms ++ r))
    (hms : parseMembersTail n (membersTail ms ++ r) = some (ms, r)) :
    parseMembers (n + 1) (quoted k ++ colon :: (v.stringify ++ (membersTail ms ++ r))) =
      some (.obj ((k, v) :: ms), r) := by
  have hkey := parseKey_quoted k (v.stringify ++ (membersTail ms ++ r))
  rw [quoted, cons_append] at hkey ⊢
  rw [parseMembers, skipWs_cons (by decide)]
  dsimp only
  rw [if_neg (by decide), hkey]
  dsimp only [bind_eq_bind, bind_some]
  rw [hv]
  dsimp only [bind_some]
  rw [hms]
  rfl

theorem parseMembersTail_cons {k : Str} {v : Json} {ms : List (Str × Json)} {n : Nat} {r : Str}
    (hv : parseValue n (v.stringify ++ (membersTail ms ++ r)) = some (v, membersTail ms ++ r))
    (hms : parseMembersTail n (membersTail ms ++ r) = some (ms, r)) : parseMembersTail (n + 1)
        (comma :: (quoted k ++ colon :: (v.stringify ++ (membersTail ms ++ r)))) = some ((k, v) :: ms, r) := by
  rw [parseMembersTail, skipWs_cons (by decide)]
  dsimp only
  rw [if_neg (by decide), if_pos rfl, parseKey_quoted]
  dsimp only [bind_eq_bind, bind_some]
  rw [hv]
  dsimp only [bind_some]
  rw [hms]
  rfl

mutual

/-- A value is read back from its text, whatever follows it. Every level of nesting takes one
unit of text and one of the bound. -/
theorem parseValue_stringify (v : Json) {n : Nat} {r : Str} (hn : v.stringify.length ≤ n)
    (hr : EndsNumber r) : parseValue n (v.stringify ++ r) = some (v, r) := by
  obtain ⟨n, rfl⟩ : ∃ m, n = m + 1 := by
    have := length_stringify_pos v
    exact ⟨n - 1, by omega⟩
  match v with
  | .null => rfl
  | .bool true => rfl
  | .bool false => rfl
  | .num m => exact parseValue_number m n hr
  | .str s => exact parseValue_quoted s n r
  | .arr [] =>
    obtain ⟨n, rfl⟩ : ∃ m, n = m + 1 := ⟨n - 1, by simp [stringify] at hn; omega⟩
    rfl
  | .arr (x :: xs) =>
    simp only [stringify, length_cons, length_append] at hn
    have hpos := length_stringify_pos x
    have htail := length_elemsTail_pos xs
    obtain ⟨n, rfl⟩ : ∃ m, n = m + 1 := ⟨n - 1, by omega⟩
    rw [stringify, cons_append, append_assoc, parseValue_cons (by decide), if_neg (by decide), if_pos rfl]
    exact parseElems_cons (parseValue_stringify x (by omega) (endsNumber_elemsTail xs r))
      (parseElemsTail_elemsTail xs r (by omega))
  | .obj [] =>
    obtain ⟨n, rfl⟩ : ∃ m, n = m + 1 := ⟨n - 1, by simp [stringify] at hn; omega⟩
    rfl
  | .obj ((k, x) :: ms) =>
    simp only [stringify, length_cons, length_append] at hn
    obtain ⟨n, rfl⟩ : ∃ m, n = m + 1 := ⟨n - 1, by omega⟩
    rw [stringify, cons_append, append_assoc, cons_append, append_assoc,
      parseValue_cons (by decide), if_neg (by decide), if_neg (by decide), if_pos rfl]
    exact parseMembers_cons (parseValue_stringify x (by omega) (endsNumber_membersTail ms r))
      (parseMembersTail_membersTail ms r (by omega))

theorem parseElemsTail_elemsTail (xs : List Json) {n : Nat} (r : Str)
    (hn : (elemsTail xs).length ≤ n) : parseElemsTail n (elemsTail xs ++ r) = some (xs, r) := by
  match xs with
  | [] =>
    obtain ⟨n, rfl⟩ : ∃ m, n = m + 1 := ⟨n - 1, by simp [elemsTail] at hn; omega⟩
    rfl
  | x :: xs =>
    simp only [elemsTail, length_cons, length_append] at hn
    obtain ⟨n, rfl⟩ : ∃ m, n = m + 1 := ⟨n - 1, by omega⟩
    rw [elemsTail, cons_append, append_assoc]
    exact parseElemsTail_cons (parseValue_stringify x (by omega) (endsNumber_elemsTail xs r))
      (parseElemsTail_elemsTail xs r (by omega))

theorem parseMembersTail_membersTail (ms : List (Str × Json)) {n : Nat} (r : Str) (hn : (membersTail ms).length ≤ n) :
    parseMembersTail n (membersTail ms ++ r) = some (ms, r) := by
  match ms with
  | [] =>
    obtain ⟨n, rfl⟩ : ∃ m, n = m + 1 := ⟨n - 1, by simp [membersTail] at hn; omega⟩
    rfl
  | (k, v) :: ms =>
    simp only [membersTail, length_cons, length_append] at hn
    obtain ⟨n, rfl⟩ : ∃ m, n = m + 1 := ⟨n - 1, by omega⟩
    rw [membersTail, cons_append, append_assoc, cons_append, append_assoc]
    exact parseMembersTail_cons
      (parseValue_stringify v (by omega) (endsNumber_membersTail ms r))
      (parseMembersTail_membersTail ms r (by omega))

end

/-- Reading the text of a value gives the value. -/
theorem parse_stringify (v : Json) : parse v.stringify = some v := by
  have h := parseValue_stringify v (n := v.stringify.length + 1) (by omega) endsNumber_nil
  rw [append_nil] at h
  rw [parse, h]
  rfl

theorem stringify_injective : Function.Injective stringify := by
  intro v w h
  have hparse := parse_stringify v
  rw [h, parse_stringify w] at hparse
  exact (some.inj hparse).symm

end Json
