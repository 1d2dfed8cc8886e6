-- SUMMARY: The order of versions as their texts are compared, and when it is that of the numbers they are made of.
import Tracenium.Lib.Numerals
import Tracenium.Update.Task
import Mathlib.Data.List.Lex

/-! A patch number with a suffix after a dash is no number, and one of more than 53 bits is rounded. -/

open Utf16 Json Hardening Numerals List Option

namespace Update

/-! ## Numbers -/

/-- What `0x`, `0o` and `0b` announce. -/
def radixOf (u : UInt16) : Option Nat :=
  if u = 0x78 ∨ u = 0x58 then some 16
  else if u = 0x6F ∨ u = 0x4F then some 8
  else if u = 0x62 ∨ u = 0x42 then some 2
  else none

def radixLiteral (radix : Nat) (s : Str) : Option Nat :=
  if s ≠ [] ∧ s.all fun u => (hexVal u).any (· < radix) then
    some (s.foldl (fun n u => n * radix + (hexVal u).getD 0) 0)
  else none

/-- Digits, and after an `e` those of the exponent. -/
def decimalLiteral (s : Str) : Option Nat :=
  let digits := s.takeWhile isDigit
  match s.dropWhile isDigit with
  | [] => if digits = [] then none else some (worth digits)
  | e :: exponent =>
    if digits ≠ [] ∧ (e = 0x65 ∨ e = 0x45) ∧ exponent ≠ [] ∧ exponent.all isDigit then
      some (worth digits * 10 ^ worth exponent)
    else none

/-- The exact number that a text without a point stands for. -/
def literal : Str → Option Nat
  | [] => some 0
  | u :: v :: s =>
    match if u = 0x30 then radixOf v else none with
    | some radix => radixLiteral radix s
    | none => decimalLiteral (u :: v :: s)
  | s => decimalLiteral s

/-- `Number(x)`, where it is finite, for text of letters, digits and a dash between them. -/
def toNumber (s : Str) : Option Nat := (literal s).bind Doubles.round

/-! ## What a version is made of, and what it is read as -/

def componentsOf (v : Str) : List Str := v.splitOn dot

def tripleOf (v : Str) : List Nat := ((componentsOf v).take 3).map fun part => worth (part.takeWhile isDigit)

/-- The numbers that are compared: of major, minor and patch, and of a suffix after a point. -/
def readsOf (v : Str) : List Nat :=
  let reads := (componentsOf v).map fun part => (toNumber part).getD 0
  reads ++ replicate (4 - reads.length) 0

def Below (as bs : List Nat) : Prop := Lex (· < ·) as bs

instance (as bs : List Nat) : Decidable (Below as bs) := inferInstanceAs (Decidable (Lex _ as bs))

/-- At the first number in which the triples differ the numbers read are in the same order, or they are alike and those
read of what follows are in that order. -/
def Precedes : List Nat → List Nat → List Nat → List Nat → Prop
  | m :: ms, n :: ns, r :: rs, s :: ss =>
    if m = n then Precedes ms ns rs ss else m < n ∧ (r < s ∨ (r = s ∧ Below rs ss))
  | _, _, _, _ => False

/-! ## Comparing components -/

section Compare

theorem below_nil : ¬ Below [] [] := nofun

theorem below_cons {a b : Nat} {as bs : List Nat} : Below (a :: as) (b :: bs) ↔ a < b ∨ a = b ∧ Below as bs :=
  cons_lex_cons_iff

theorem below_asymm {as bs : List Nat} (h : Below as bs) : ¬ Below bs as := lex_asymm (fun h => Nat.lt_asymm h) h

theorem not_below_trans {as bs cs : List Nat} (hab : ¬ Below bs as) (hbc : ¬ Below cs bs) : ¬ Below cs as :=
  List.le_trans (List.not_lex_lt.mp hab) (List.not_lex_lt.mp hbc)

theorem below_or_below {as bs : List Nat} (h : as ≠ bs) : Below as bs ∨ Below bs as := by
  by_contra hnone
  rw [not_or] at hnone
  exact h (List.le_antisymm (List.not_lex_lt.mp hnone.2) (List.not_lex_lt.mp hnone.1))

def padTo (n : Nat) (as : List Nat) : List Nat := as ++ replicate (n - as.length) 0

theorem padTo_succ (n : Nat) {as : List Nat} (h : as.length ≤ n + 1) :
    padTo (n + 1) as = as.headD 0 :: padTo n as.tail := by
  cases as with
  | nil => simp [padTo, replicate_succ]
  | cons a as => simp [padTo]

/-- The shorter list goes on with zeros on either side. -/
theorem compareParts_eq (as bs : List Nat) : compareParts as bs =
    if as.headD 0 = bs.headD 0 then compareParts as.tail bs.tail
    else if as.headD 0 > bs.headD 0 then .gt else .lt := by
  cases as with
  | cons a as => rfl
  | nil =>
    cases bs with
    | nil => rfl
    | cons b bs =>
      by_cases hb : b = 0
      · simp [compareParts, hb]
      · simp [compareParts, hb, Ne.symm hb]

theorem compareParts_iff {n : Nat} {as bs : List Nat} (ha : as.length ≤ n) (hb : bs.length ≤ n) :
    (compareParts as bs = .lt ↔ Below (padTo n as) (padTo n bs)) ∧
      (compareParts as bs = .gt ↔ Below (padTo n bs) (padTo n as)) := by
  induction n generalizing as bs with
  | zero =>
    obtain rfl := length_eq_zero_iff.mp (Nat.le_zero.mp ha)
    obtain rfl := length_eq_zero_iff.mp (Nat.le_zero.mp hb)
    simp [padTo, compareParts, below_nil]
  | succ n ih =>
    obtain ⟨hlt, hgt⟩ := @ih as.tail bs.tail (by simp; omega) (by simp; omega)
    rw [padTo_succ n ha, padTo_succ n hb, below_cons, below_cons, compareParts_eq, ← hlt, ← hgt]
    generalize as.headD 0 = a, bs.headD 0 = b
    split_ifs with heq hgreater
    · simp [heq]
    · simp only [false_iff, true_iff]
      omega
    · simp only [false_iff, true_iff]
      omega

end Compare

/-! ## The shape of a version -/

section Shape

variable {s part tag : Str}

structure IsDigits (s : Str) : Prop where
  ne_nil : s ≠ []
  digits : ∀ u ∈ s, isDigit u = true

/-- What a run of digits is read as. -/
def readDigits (n : Nat) : Nat := (Doubles.round n).getD 0

theorem IsDigits.of_takeWhile (h : (s.takeWhile isDigit).isEmpty = false) : IsDigits (s.takeWhile isDigit) where
  ne_nil := by simpa using h
  digits u hu := mem_takeWhile_imp hu

/-- Digits are taken off the text. -/
theorem digits_eq_some {rest : Str} (h : digits s = some rest) : ∃ run, IsDigits run ∧ s = run ++ rest := by
  unfold digits at h
  split_ifs at h with hempty
  obtain rfl := some.inj h
  exact ⟨s.takeWhile isDigit, .of_takeWhile (by simpa using hempty), (takeWhile_append_dropWhile).symm⟩

theorem point_eq_some {rest : Str} (h : point s = some rest) : s = dot :: rest := by
  cases s with
  | nil => cases h
  | cons u s =>
    simp only [point] at h
    split_ifs at h with hu
    obtain rfl := some.inj h
    rw [hu]

/-- Three runs of digits between points, and then a suffix or nothing. -/
theorem shape_of_looksLikeSemver {v : Str} (h : looksLikeSemver v) :
    ∃ major minor patch tag, IsDigits major ∧ IsDigits minor ∧ IsDigits patch ∧ isTag tag ∧
      v = major ++ dot :: (minor ++ dot :: (patch ++ tag)) := by
  unfold looksLikeSemver at h
  split at h
  · rename_i rest hrest
    simp only [bind_eq_some_iff] at hrest
    obtain ⟨s₄, ⟨s₃, ⟨s₂, ⟨s₁, h₁, h₂⟩, h₃⟩, h₄⟩, h₅⟩ := hrest
    obtain ⟨major, hmajor, rfl⟩ := digits_eq_some h₁
    obtain rfl := point_eq_some h₂
    obtain ⟨minor, hminor, rfl⟩ := digits_eq_some h₃
    obtain rfl := point_eq_some h₄
    obtain ⟨patch, hpatch, rfl⟩ := digits_eq_some h₅
    exact ⟨major, minor, patch, rest, hmajor, hminor, hpatch, h, rfl⟩
  · cases h

theorem IsDigits.splitOn_append (h : IsDigits s) (rest : Str) :
    (s ++ dot :: rest).splitOn dot = s :: rest.splitOn dot := by
  have hdot : ∀ u ∈ s, (u == dot) = false := by
    intro u hu
    have hdigit := h.digits u hu
    simp only [beq_eq_false_iff_ne]
    rintro rfl
    exact absurd hdigit (by decide)
  rw [splitOn_eq_splitOnP, splitOn_eq_splitOnP, splitOnP_append_cons_of_forall_mem hdot _ (by simp)]

theorem splitOn_of_not_mem (h : dot ∉ s) : s.splitOn dot = [s] := by
  refine splitOnP_eq_singleton fun u hu => ?_
  simp only [beq_eq_false_iff_ne]
  rintro rfl
  exact h hu

theorem IsDigits.dot_not_mem (h : IsDigits s) : dot ∉ s := fun hmem => absurd (h.digits dot hmem) (by decide)

/-- A suffix after a point is a component of its own; after a dash it belongs to the patch. -/
inductive Tagged : Str → Prop
  | none : Tagged []
  | point {s : Str} (h : dot ∉ s) : Tagged (dot :: s)
  | dash {s : Str} (h : dot ∉ s) : Tagged (dash :: s)

theorem tagged_of_isTag (h : isTag tag) : Tagged tag := by
  cases tag with
  | nil => exact .none
  | cons u s =>
    simp only [isTag, isRuns, Bool.and_eq_true, Bool.or_eq_true, beq_iff_eq, List.all_eq_true] at h
    obtain ⟨hu, _, hall⟩ := h
    have hdot : dot ∉ s := fun hmem => absurd (hall dot hmem) (by decide)
    rcases hu with rfl | rfl
    · exact .point hdot
    · exact .dash hdot

theorem takeWhile_digits {rest : Str} (h : IsDigits s) (hrest : ∀ u ∈ rest.head?, isDigit u = false) :
    (s ++ rest).takeWhile isDigit = s ∧ (s ++ rest).dropWhile isDigit = rest := by
  have htake : s.takeWhile isDigit = s := takeWhile_eq_self_iff.mpr h.digits
  have hdrop : s.dropWhile isDigit = [] := dropWhile_eq_nil_iff.mpr h.digits
  cases rest with
  | nil => simp [htake, hdrop]
  | cons u rest =>
    have hu : isDigit u = false := hrest u (by simp)
    rw [takeWhile_append_of_pos h.digits, dropWhile_append_of_pos h.digits]
    simp [hu]

/-- No radix is announced by a digit or a dash. -/
theorem radixOf_eq_none {u : UInt16} (h : isDigit u ∨ u = dash) : radixOf u = none := by
  have hne : ∀ v ∈ ([0x78, 0x58, 0x6F, 0x4F, 0x62, 0x42] : List UInt16), u ≠ v := by
    rintro v hv rfl
    revert h
    simp only [mem_cons, not_mem_nil, or_false] at hv
    rcases hv with rfl | rfl | rfl | rfl | rfl | rfl <;> decide
  simp [radixOf, hne]

theorem literal_of_second {u v : UInt16} (h : isDigit v ∨ v = dash) :
    literal (u :: v :: s) = decimalLiteral (u :: v :: s) := by
  rw [literal, radixOf_eq_none h]
  simp

theorem literal_digits {rest : Str} (h : IsDigits s) (hrest : ∀ u ∈ rest.head?, u = dash) :
    literal (s ++ rest) = decimalLiteral (s ++ rest) := by
  match s, h with
  | [], h => exact absurd rfl h.ne_nil
  | [u], _ =>
    cases rest with
    | nil => rfl
    | cons v rest => exact literal_of_second (.inr (hrest v (by simp)))
  | u :: v :: s, h => exact literal_of_second (.inl (h.digits v (by simp)))

theorem toNumber_digits (h : IsDigits s) : (toNumber s).getD 0 = readDigits (worth s) := by
  have hliteral : literal (s ++ []) = decimalLiteral (s ++ []) := literal_digits h (by simp)
  obtain ⟨htake, hdrop⟩ : (s ++ []).takeWhile isDigit = s ∧ (s ++ []).dropWhile isDigit = [] :=
    takeWhile_digits h (by simp)
  rw [append_nil] at hliteral htake hdrop
  rw [toNumber, hliteral, decimalLiteral, htake, hdrop]
  simp [h.ne_nil, readDigits]

/-- A dash makes it no number. -/
theorem toNumber_dash (h : IsDigits s) (rest : Str) : toNumber (s ++ dash :: rest) = none := by
  have hliteral : literal (s ++ dash :: rest) = decimalLiteral (s ++ dash :: rest) := literal_digits h (by simp)
  obtain ⟨htake, hdrop⟩ : (s ++ dash :: rest).takeWhile isDigit = s ∧
      (s ++ dash :: rest).dropWhile isDigit = dash :: rest :=
    takeWhile_digits h (by simp; decide)
  rw [toNumber, hliteral, decimalLiteral, htake, hdrop]
  have hdash : ¬ (dash = 0x65 ∨ dash = 0x45) := by decide
  simp [hdash]

end Shape

/-- Major, minor and patch, and what is compared of them: the first two as their digits are read. -/
structure Shaped (v : Str) (major minor patch readPatch readTag : Nat) : Prop where
  triple : tripleOf v = [major, minor, patch]
  reads : readsOf v = [readDigits major, readDigits minor, readPatch, readTag]
  patch : dash ∉ v → readPatch = readDigits patch
  length : (componentsOf v).length ≤ 4

theorem shaped_of_looksLikeSemver {v : Str} (h : looksLikeSemver v) :
    ∃ major minor patch readPatch readTag, Shaped v major minor patch readPatch readTag := by
  obtain ⟨major, minor, patch, tag, hmajor, hminor, hpatch, htag, rfl⟩ := shape_of_looksLikeSemver h
  have hworth {s : Str} (hs : IsDigits s) : worth (s.takeWhile isDigit) = worth s := by
    rw [takeWhile_eq_self_iff.mpr hs.digits]
  have hsplit : componentsOf (major ++ dot :: (minor ++ dot :: (patch ++ tag))) =
      major :: minor :: (patch ++ tag).splitOn dot := by
    rw [componentsOf, hmajor.splitOn_append, hminor.splitOn_append]
  cases tagged_of_isTag htag with
  | none =>
    rw [append_nil, splitOn_of_not_mem hpatch.dot_not_mem] at hsplit
    refine ⟨worth major, worth minor, worth patch, readDigits (worth patch), 0, ?_, ?_, fun _ => rfl, ?_⟩
    · simp [tripleOf, hsplit, hworth, hmajor, hminor, hpatch]
    · simp [readsOf, hsplit, toNumber_digits, hmajor, hminor, hpatch]
    · simp [hsplit]
  | @point s hs =>
    rw [hpatch.splitOn_append, splitOn_of_not_mem hs] at hsplit
    refine ⟨worth major, worth minor, worth patch, readDigits (worth patch), (toNumber s).getD 0, ?_, ?_,
      fun _ => rfl, ?_⟩
    · simp [tripleOf, hsplit, hworth, hmajor, hminor, hpatch]
    · simp [readsOf, hsplit, toNumber_digits, hmajor, hminor, hpatch]
    · simp [hsplit]
  | @dash s hs =>
    have hmem : dot ∉ patch ++ dash :: s := by
      simp only [mem_append, mem_cons, not_or]
      exact ⟨hpatch.dot_not_mem, by decide, hs⟩
    have htake : (patch ++ dash :: s).takeWhile isDigit = patch := (takeWhile_digits hpatch (by simp; decide)).1
    rw [splitOn_of_not_mem hmem] at hsplit
    refine ⟨worth major, worth minor, worth patch, 0, 0, ?_, ?_, fun hnone => absurd (by simp) hnone, ?_⟩
    · simp [tripleOf, hsplit, hworth, hmajor, hminor, htake]
    · simp [readsOf, hsplit, toNumber_digits, toNumber_dash, hmajor, hminor, hpatch]
    · simp [hsplit]

/-! ## The order of versions -/

section Order

variable {a b : Str} {major minor patch readPatch readTag major' minor' patch' readPatch' readTag' : Nat}

theorem compareSemver_iff (ha : Shaped a major minor patch readPatch readTag)
    (hb : Shaped b major' minor' patch' readPatch' readTag') :
    (compareSemver toNumber a b = .lt ↔ Below (readsOf a) (readsOf b)) ∧
      (compareSemver toNumber a b = .gt ↔ Below (readsOf b) (readsOf a)) :=
  compareParts_iff (by simpa [componentsOf] using ha.length) (by simpa [componentsOf] using hb.length)

/-- Up to the number in which the triples differ the same is read, so that only what follows counts. -/
theorem precedes_iff (ha : Shaped a major minor patch readPatch readTag)
    (hb : Shaped b major' minor' patch' readPatch' readTag') :
    Precedes (tripleOf a) (tripleOf b) (readsOf a) (readsOf b) ↔
      Below (tripleOf a) (tripleOf b) ∧ Below (readsOf a) (readsOf b) := by
  rw [ha.triple, hb.triple, ha.reads, hb.reads]
  simp only [Precedes, below_cons]
  by_cases hmajor : major = major'
  · by_cases hminor : minor = minor'
    · by_cases hpatch : patch = patch'
      · simp [hmajor, hminor, hpatch, below_nil]
      · simp [hmajor, hminor, hpatch]
    · simp [hmajor, hminor]
  · simp [hmajor]

theorem compareSemver_swap (ha : Shaped a major minor patch readPatch readTag)
    (hb : Shaped b major' minor' patch' readPatch' readTag') :
    compareSemver toNumber b a = (compareSemver toNumber a b).swap := by
  obtain ⟨hlt, hgt⟩ := compareSemver_iff ha hb
  obtain ⟨hlt', hgt'⟩ := compareSemver_iff hb ha
  cases h : compareSemver toNumber a b with
  | lt => exact hgt'.mpr (hlt.mp h)
  | gt => exact hlt'.mpr (hgt.mp h)
  | eq =>
    cases h' : compareSemver toNumber b a with
    | lt => simp [h] at hgt hlt'; exact absurd (hlt'.mp h') hgt
    | gt => simp [h] at hlt hgt'; exact absurd (hgt'.mp h') hlt
    | eq => rfl

end Order

/-- The triples of two versions are in the order of the numbers that are read of them. -/
def ReadsRight (a b : Str) : Prop :=
  (Below (tripleOf a) (tripleOf b) → Precedes (tripleOf a) (tripleOf b) (readsOf a) (readsOf b)) ∧
    (Below (tripleOf b) (tripleOf a) → Precedes (tripleOf b) (tripleOf a) (readsOf b) (readsOf a))

/-- There is a binary, and an update is forced, or asked for by the minimum, or the latest version is read as more. -/
def Offered (currentVersion : Str) (metadata : Metadata) : Prop :=
  metadata.binary.isSome = true ∧ (metadata.forceUpdate = true ∨
      (∃ v ∈ metadata.minSupportedVersion, looksLikeSemver v = true ∧ Below (readsOf currentVersion) (readsOf v)) ∨
      Below (readsOf currentVersion) (readsOf (Ipc.trim metadata.latestVersion)))

theorem isEmpty_of_looksLikeSemver {v : Str} (h : looksLikeSemver v) : v.isEmpty = false := by
  cases v with
  | nil => exact absurd h (by decide)
  | cons u v => rfl

/-- The metadata offers the version, unless it is read as less than the current one and must not be. -/
theorem available_iff {currentVersion : Str} {metadata : Metadata} (hcurrent : looksLikeSemver currentVersion)
    (hlatest : looksLikeSemver (Ipc.trim metadata.latestVersion)) :
    (checkForAvailableUpdate toNumber currentVersion metadata).available ↔ Offered currentVersion metadata ∧
        (metadata.allowDowngrade ∨
          ¬ Below (readsOf (Ipc.trim metadata.latestVersion)) (readsOf currentVersion)) := by
  obtain ⟨_, _, _, _, _, hcurrent'⟩ := shaped_of_looksLikeSemver hcurrent
  obtain ⟨_, _, _, _, _, hlatest'⟩ := shaped_of_looksLikeSemver hlatest
  obtain ⟨hlt, hgt⟩ := compareSemver_iff hcurrent' hlatest'
  have hmin : (metadata.minSupportedVersion.any fun v =>
      !v.isEmpty && looksLikeSemver v && compareSemver toNumber currentVersion v == .lt) ↔
        ∃ v ∈ metadata.minSupportedVersion, looksLikeSemver v ∧ Below (readsOf currentVersion) (readsOf v) := by
    simp only [Option.any_eq_true, Bool.and_eq_true, Bool.not_eq_true', beq_iff_eq]
    refine exists_congr fun v => and_congr_right fun _ => ?_
    constructor
    · rintro ⟨⟨_, hlooks⟩, hbreach⟩
      obtain ⟨_, _, _, _, _, hv⟩ := shaped_of_looksLikeSemver hlooks
      exact ⟨hlooks, (compareSemver_iff hcurrent' hv).1.mp hbreach⟩
    · rintro ⟨hlooks, hbreach⟩
      obtain ⟨_, _, _, _, _, hv⟩ := shaped_of_looksLikeSemver hlooks
      exact ⟨⟨isEmpty_of_looksLikeSemver hlooks, hlooks⟩, (compareSemver_iff hcurrent' hv).1.mpr hbreach⟩
  rw [Offered, ← hmin, ← hlt, ← hgt, checkForAvailableUpdate]
  rw [isEmpty_of_looksLikeSemver hlatest, hlatest]
  generalize compareSemver toNumber currentVersion (Ipc.trim metadata.latestVersion) = cmp
  generalize (metadata.minSupportedVersion.any _) = breach
  cases metadata.binary with
  | none => simp [CheckReason.available]
  | some binary =>
    cases metadata.allowDowngrade <;> cases metadata.forceUpdate <;> cases breach <;> cases cmp <;>
      simp [CheckReason.available]

/-- The units of a version are between the dash and the last letter. -/
def isPlain (u : UInt16) : Bool := 0x2D ≤ u && u ≤ 0x7A

theorem isSpace_of_isPlain {u : UInt16} (h : isPlain u) : Ipc.isSpace u = false := by
  simp only [isPlain, Bool.and_eq_true, decide_eq_true_eq] at h
  exact Ipc.isSpace_of_range h.1 h.2

theorem isPlain_of_range {u low high : UInt16} (hlow : 0x2D ≤ low) (hhigh : high ≤ 0x7A)
    (h : (decide (low ≤ u) && decide (u ≤ high))) : isPlain u := by
  simp only [isPlain, Bool.and_eq_true, decide_eq_true_eq] at h ⊢
  exact ⟨UInt16.le_trans hlow h.1, UInt16.le_trans h.2 hhigh⟩

theorem IsDigits.isPlain {s : Str} (h : IsDigits s) : ∀ u ∈ s, isPlain u :=
  fun u hu => isPlain_of_range (by decide) (by decide) (h.digits u hu)

theorem isPlain_of_isTag {tag : Str} (h : isTag tag) : ∀ u ∈ tag, isPlain u := by
  cases tag with
  | nil => simp
  | cons v s =>
    simp only [isTag, isRuns, Bool.and_eq_true, Bool.or_eq_true, beq_iff_eq, List.all_eq_true] at h
    obtain ⟨hv, _, hall⟩ := h
    rintro u (_ | ⟨_, hu⟩)
    · rcases hv with rfl | rfl <;> decide
    · rcases hall u hu with (hupper | hlower) | hdigit
      · exact isPlain_of_range (by decide) (by decide) hupper
      · exact isPlain_of_range (by decide) (by decide) hlower
      · exact isPlain_of_range (by decide) (by decide) hdigit

theorem trim_of_looksLikeSemver {v : Str} (h : looksLikeSemver v) : Ipc.trim v = v := by
  obtain ⟨major, minor, patch, tag, hmajor, hminor, hpatch, htag, rfl⟩ := shape_of_looksLikeSemver h
  refine Ipc.trim_of_forall fun u hu => isSpace_of_isPlain ?_
  have hdot : isPlain dot := by decide
  simp only [mem_append, mem_cons] at hu
  rcases hu with hu | rfl | hu | rfl | hu | hu
  · exact hmajor.isPlain u hu
  · exact hdot
  · exact hminor.isPlain u hu
  · exact hdot
  · exact hpatch.isPlain u hu
  · exact isPlain_of_isTag htag u hu

/-- Versions are ordered whatever they are read as. The order is that of their triples when what is read of them is in
the order of the triples, and an update goes back when it is offered to a version for which it is not. -/
theorem updates_exact (a b c currentVersion : Str) (metadata : Metadata) :
    (looksLikeSemver a = true → looksLikeSemver b = true → looksLikeSemver c = true →
      compareSemver toNumber b a = (compareSemver toNumber a b).swap ∧
        (compareSemver toNumber a b ≠ .gt → compareSemver toNumber b c ≠ .gt → compareSemver toNumber a c ≠ .gt)) ∧
    (looksLikeSemver a = true → looksLikeSemver b = true → tripleOf a ≠ tripleOf b →
      ((compareSemver toNumber a b = .lt ↔ Below (tripleOf a) (tripleOf b)) ∧
        (compareSemver toNumber a b = .gt ↔ Below (tripleOf b) (tripleOf a)) ↔ ReadsRight a b)) ∧
    (looksLikeSemver currentVersion = true → looksLikeSemver metadata.latestVersion = true →
      (((checkForAvailableUpdate toNumber currentVersion metadata).available = true →
          metadata.allowDowngrade = false → ¬ Below (tripleOf metadata.latestVersion) (tripleOf currentVersion)) ↔
        (metadata.allowDowngrade = false →
          Below (tripleOf metadata.latestVersion) (tripleOf currentVersion) → Offered currentVersion metadata →
          ReadsRight currentVersion metadata.latestVersion))) := by
  refine ⟨fun ha hb hc => ?_, fun ha hb hne => ?_, fun hcurrent hlatest => ?_⟩
  · obtain ⟨_, _, _, _, _, ha⟩ := shaped_of_looksLikeSemver ha
    obtain ⟨_, _, _, _, _, hb⟩ := shaped_of_looksLikeSemver hb
    obtain ⟨_, _, _, _, _, hc⟩ := shaped_of_looksLikeSemver hc
    refine ⟨compareSemver_swap ha hb, ?_⟩
    rw [ne_eq, ne_eq, ne_eq, (compareSemver_iff ha hb).2, (compareSemver_iff hb hc).2, (compareSemver_iff ha hc).2]
    exact not_below_trans
  · obtain ⟨_, _, _, _, _, ha⟩ := shaped_of_looksLikeSemver ha
    obtain ⟨_, _, _, _, _, hb⟩ := shaped_of_looksLikeSemver hb
    rw [ReadsRight, precedes_iff ha hb, precedes_iff hb ha, (compareSemver_iff ha hb).1, (compareSemver_iff ha hb).2]
    constructor
    · rintro ⟨hlt, hgt⟩
      exact ⟨fun h => ⟨h, hlt.mpr h⟩, fun h => ⟨h, hgt.mpr h⟩⟩
    · rintro ⟨hlt, hgt⟩
      rcases below_or_below hne with h | h
      · have hreads := (hlt h).2
        simp [h, hreads, below_asymm h, below_asymm hreads]
      · have hreads := (hgt h).2
        simp [h, hreads, below_asymm h, below_asymm hreads]
  · have htrim := trim_of_looksLikeSemver hlatest
    rw [available_iff hcurrent (by rwa [htrim]), htrim]
    obtain ⟨_, _, _, _, _, hcurrent⟩ := shaped_of_looksLikeSemver hcurrent
    obtain ⟨_, _, _, _, _, hlatest⟩ := shaped_of_looksLikeSemver hlatest
    rw [ReadsRight, precedes_iff hcurrent hlatest, precedes_iff hlatest hcurrent]
    constructor
    · intro hforward hallow hback hoffered
      refine ⟨fun h => absurd h (below_asymm hback), fun h => ⟨h, ?_⟩⟩
      by_contra hreads
      exact hforward ⟨hoffered, .inr hreads⟩ hallow hback
    · rintro hright ⟨hoffered, hdowngrade⟩ hallow hback
      have hreads := ((hright hallow hback hoffered).2 hback).2
      simp [hallow, hreads] at hdowngrade

section Exact

/-- Without a dash, and with numbers of at most 53 bits. -/
structure IsExact (v : Str) : Prop where
  looks : looksLikeSemver v = true
  dash : dash ∉ v
  small : ∀ n ∈ tripleOf v, n < 2 ^ 53

/-- Such versions are read as they are. -/
theorem IsExact.reads {v : Str} (h : IsExact v) : ∃ tag, readsOf v = tripleOf v ++ [tag] := by
  obtain ⟨major, minor, patch, readPatch, readTag, hv⟩ := shaped_of_looksLikeSemver h.looks
  have hsmall := h.small
  rw [hv.triple] at hsmall
  have hread : ∀ n ∈ [major, minor, patch], readDigits n = n := fun n hn => by
    rw [readDigits, Doubles.round_of_lt (hsmall n hn), getD_some]
  refine ⟨readTag, ?_⟩
  rw [hv.reads, hv.triple, hv.patch h.dash, hread major (by simp), hread minor (by simp), hread patch (by simp)]
  rfl

/-- Versions that are read as they are compare as their triples. -/
theorem readsRight_of_isExact {a b : Str} (ha : IsExact a) (hb : IsExact b) : ReadsRight a b := by
  have happend {a b : Str} {s t : Nat} (ha : IsExact a) (hb : IsExact b) (h : Below (tripleOf a) (tripleOf b)) :
      Below (tripleOf a ++ [s]) (tripleOf b ++ [t]) := by
    obtain ⟨_, _, _, _, _, ha⟩ := shaped_of_looksLikeSemver ha.looks
    obtain ⟨_, _, _, _, _, hb⟩ := shaped_of_looksLikeSemver hb.looks
    rw [ha.triple, hb.triple] at h ⊢
    simp only [cons_append, below_cons, below_nil, and_false, or_false] at h ⊢
    omega
  obtain ⟨s, hs⟩ := ha.reads
  obtain ⟨t, ht⟩ := hb.reads
  obtain ⟨_, _, _, _, _, ha'⟩ := shaped_of_looksLikeSemver ha.looks
  obtain ⟨_, _, _, _, _, hb'⟩ := shaped_of_looksLikeSemver hb.looks
  rw [ReadsRight, precedes_iff ha' hb', precedes_iff hb' ha', hs, ht]
  exact ⟨fun h => ⟨h, happend ha hb h⟩, fun h => ⟨h, happend hb ha h⟩⟩

end Exact

section Samples

/-- `1.2.3-rc1`, and metadata that has `1.2.1` as the latest version, with a binary. -/
def sampleCurrent : Str := text "1.2.3-rc1"
def sampleMetadata : Metadata := ⟨text "1.2.1", none, false, false, some none⟩

/-- A patch number with a suffix counts as zero, so that an older version is offered; large numbers are alike. -/
theorem updates_go_back : looksLikeSemver sampleCurrent = true ∧ looksLikeSemver sampleMetadata.latestVersion = true ∧
      (checkForAvailableUpdate toNumber sampleCurrent sampleMetadata).available = true ∧
      sampleMetadata.allowDowngrade = false ∧ tripleOf sampleCurrent = [1, 2, 3] ∧
      tripleOf sampleMetadata.latestVersion = [1, 2, 1] ∧
      compareSemver toNumber (text "9007199254740993.0.0") (text "9007199254740992.0.0") = .eq := by
  decide +kernel

theorem updates_exact_sample : compareSemver toNumber sampleMetadata.latestVersion sampleCurrent =
      (compareSemver toNumber sampleCurrent sampleMetadata.latestVersion).swap ∧
    ((compareSemver toNumber sampleCurrent sampleMetadata.latestVersion = .lt ↔
          Below (tripleOf sampleCurrent) (tripleOf sampleMetadata.latestVersion)) ∧
        (compareSemver toNumber sampleCurrent sampleMetadata.latestVersion = .gt ↔
          Below (tripleOf sampleMetadata.latestVersion) (tripleOf sampleCurrent)) ↔
      ReadsRight sampleCurrent sampleMetadata.latestVersion) ∧
    (((checkForAvailableUpdate toNumber sampleCurrent sampleMetadata).available = true →
        sampleMetadata.allowDowngrade = false →
        ¬ Below (tripleOf sampleMetadata.latestVersion) (tripleOf sampleCurrent)) ↔
      (sampleMetadata.allowDowngrade = false →
        Below (tripleOf sampleMetadata.latestVersion) (tripleOf sampleCurrent) → Offered sampleCurrent sampleMetadata →
        ReadsRight sampleCurrent sampleMetadata.latestVersion)) := by
  have hcurrent : looksLikeSemver sampleCurrent := by decide
  have hlatest : looksLikeSemver sampleMetadata.latestVersion := by decide
  obtain ⟨hordered, htriples, hforward⟩ :=
    updates_exact sampleCurrent sampleMetadata.latestVersion sampleCurrent sampleCurrent sampleMetadata
  exact ⟨(hordered hcurrent hlatest hcurrent).1, htriples hcurrent hlatest (by decide),
    hforward hcurrent hlatest⟩

end Samples

end Update
