-- SUMMARY: The line protocol of the IPC sockets, what a lossy decoder makes of its messages, and what is trimmed from a text.
import Tracenium.Lib.Lines
import Tracenium.Lib.JsonText
import Tracenium.Lib.Lists

/-!
Requests, responses and pushes are JSON objects, one on a line (`writeLine`, `call`). Lines end in
a line feed, or in a carriage return and a line feed where the peer's writer puts both.
-/

open Utf16 Utf8 Lines List

namespace Ipc

open Json

/-! ## Reading a line -/

/-- What `String.prototype.trim` removes. -/
def isSpace (u : UInt16) : Bool :=
  (0x0009 ≤ u && u ≤ 0x000D) || u == 0x0020 || u == 0x00A0 || u == 0x1680 ||
    (0x2000 ≤ u && u ≤ 0x200A) || u == 0x2028 || u == 0x2029 || u == 0x202F || u == 0x205F ||
    u == 0x3000 || u == 0xFEFF

/-- `s.trim()`. -/
def trim (s : Str) : Str := (s.dropWhile isSpace).rdropWhile isSpace

/-- `s.replace(/\r$/, "")`. -/
def dropCr (s : Str) : Str := if s.getLast? = some cr then s.dropLast else s

/-- A line without its ending and surrounding space, read as JSON. -/
def parseLine (line : Str) : Option Json :=
  let txt := trim (dropCr line)
  if txt = [] then none else parse txt

/-! ## Messages -/

structure Message where
  value : Json
  crlf : Bool
  isObject : value.isObject = true

def Message.line (m : Message) : Str := m.value.stringify ++ if m.crlf then [cr] else []

def wire (ms : List Message) : Str := ms.flatMap fun m => m.line ++ [lf]

theorem Message.ext_of {m m' : Message} (hvalue : m.value = m'.value) (hcrlf : m.crlf = m'.crlf) : m = m' := by
  cases m
  cases m'
  cases hvalue
  cases hcrlf
  rfl

/-- An object ends with its closing brace. -/
theorem membersTail_eq_concat (ms : List (Str × Json)) : ∃ s, membersTail ms = s ++ [rbrace] := by
  induction ms with
  | nil => exact ⟨[], rfl⟩
  | cons m ms ih =>
    obtain ⟨s, hs⟩ := ih
    refine ⟨comma :: (quoted m.1 ++ colon :: (m.2.stringify ++ s)), ?_⟩
    simp [membersTail, hs]

theorem stringify_object {v : Json} (h : v.isObject) : ∃ s, v.stringify = lbrace :: (s ++ [rbrace]) := by
  cases v with
  | obj ms =>
    cases ms with
    | nil => exact ⟨[], rfl⟩
    | cons m ms =>
      obtain ⟨s, hs⟩ := membersTail_eq_concat ms
      refine ⟨quoted m.1 ++ colon :: (m.2.stringify ++ s), ?_⟩
      simp [stringify, hs]
  | _ => cases h

/-- Nothing is trimmed from braces. -/
theorem trim_braces (s : Str) : trim (lbrace :: (s ++ [rbrace])) = lbrace :: (s ++ [rbrace]) := by
  have hopen : isSpace lbrace = false := by decide
  have hclose : isSpace rbrace = false := by decide
  rw [trim, dropWhile_cons_of_neg (by simp [hopen]), ← cons_append, rdropWhile_concat_neg _ _ _ (by simp [hclose])]

theorem dropCr_concat (s : Str) : dropCr (s ++ [cr]) = s := by
  simp [dropCr]

theorem dropCr_of_ne {s : Str} {u : UInt16} (h : u ≠ cr) : dropCr (s ++ [u]) = s ++ [u] := by
  simp [dropCr, h]

/-- A message is read back from its line. -/
theorem parseLine_line (m : Message) : parseLine m.line = some m.value := by
  obtain ⟨s, hs⟩ := stringify_object m.isObject
  have htext : trim (dropCr m.line) = m.value.stringify := by
    unfold Message.line
    cases m.crlf with
    | true =>
      rw [if_pos rfl, dropCr_concat, hs, trim_braces]
    | false =>
      rw [if_neg (by simp), append_nil, hs, ← cons_append, dropCr_of_ne (by decide), cons_append, trim_braces]
  have hne : m.value.stringify ≠ [] := by simp [hs]
  rw [parseLine, htext, if_neg hne, parse_stringify]

theorem isLine_line (m : Message) : WellFormed m.line ∧ lf ∉ m.line := by
  have h := isLine_stringify m.value
  constructor
  · refine h.1.append ?_
    split
    · exact .unit (by decide) (by decide) .nil
    · exact .nil
  · intro hmem
    rcases mem_append.mp hmem with hmem | hmem
    · exact h.2 _ hmem (by decide)
    · revert hmem
      split <;> decide

theorem wellFormed_wire (ms : List Message) : WellFormed (wire ms) := by
  induction ms with
  | nil => exact .nil
  | cons m ms ih =>
    exact ((isLine_line m).1.append (.unit (by decide) (by decide) .nil)).append ih

theorem splitLines_wire (ms : List Message) : splitLines (wire ms) = (ms.map Message.line, []) := by
  have hlines : ∀ l ∈ ms.map Message.line, lf ∉ l := by
    intro l hl
    obtain ⟨m, -, rfl⟩ := mem_map.mp hl
    exact (isLine_line m).2
  have h := splitLines_lines hlines []
  rw [flatMap_map] at h
  simpa [wire] using h

theorem filterMap_parseLine (ms : List Message) :
    (ms.map Message.line).filterMap parseLine = ms.map Message.value := by
  simp [parseLine_line]

/-! ## Messages whose characters were lost -/

/-- What is left of the text of some messages is the text of as many messages, with the same
line endings. -/
theorem corrupts_wire {ms : List Message} {t : Str} (h : Corrupts (wire ms) t) :
    ∃ ms', t = wire ms' ∧ ms'.map Message.crlf = ms.map Message.crlf := by
  induction ms generalizing t with
  | nil =>
    obtain rfl := h.eq_nil
    exact ⟨[], rfl, rfl⟩
  | cons m ms ih =>
    rw [wire, flatMap_cons, Message.line, append_assoc, append_assoc] at h
    obtain ⟨t₁, t₂, rfl, h₁, h₂⟩ := h.split (isLine_stringify m.value).1
    obtain ⟨v, rfl, hobj⟩ := corrupts_stringify m.value h₁
    rw [← append_assoc] at h₂
    have hend : WellFormed ((if m.crlf then [cr] else []) ++ [lf]) := by
      have hlf : WellFormed [lf] := .unit (by decide) (by decide) .nil
      cases m.crlf with
      | false => exact hlf
      | true => exact .unit (by decide) (by decide) hlf
    obtain ⟨t₃, t₄, rfl, h₃, h₄⟩ := h₂.split hend
    obtain rfl : t₃ = (if m.crlf then [cr] else []) ++ [lf] := by
      refine h₃.eq_of_ascii fun u hu => ?_
      cases hcrlf : m.crlf <;> simp [hcrlf] at hu
      · rw [hu]
        decide
      · rcases hu with rfl | rfl <;> decide
    obtain ⟨ms', rfl, hcrlf⟩ := ih h₄
    refine ⟨⟨v, m.crlf, hobj.trans m.isObject⟩ :: ms', ?_, by simp [hcrlf]⟩
    simp [wire, Message.line]

/-- Messages with one text of values and line endings are the same messages. -/
theorem eq_of_map_eq {ms ms' : List Message} (hvalue : ms'.map Message.value = ms.map Message.value)
    (hcrlf : ms'.map Message.crlf = ms.map Message.crlf) : ms' = ms := by
  induction ms generalizing ms' with
  | nil => simpa using hvalue
  | cons m ms ih =>
    cases ms' with
    | nil => cases hvalue
    | cons m' ms' =>
      simp only [map_cons, cons.injEq] at hvalue hcrlf
      rw [Message.ext_of hvalue.1 hcrlf.1, ih hvalue.2 hcrlf.2]

end Ipc

/-! # Trimmed texts -/

namespace Ipc

/-- Digits, letters, dashes and points are no spaces. -/
theorem isSpace_of_range {u : UInt16} (hlow : 0x2D ≤ u) (hhigh : u ≤ 0x7A) : isSpace u = false := by
  have hall : ∀ n < 0x7B, 0x2D ≤ UInt16.ofNat n → isSpace (UInt16.ofNat n) = false := by decide
  have hu := hall u.toNat (Nat.lt_succ_of_le (UInt16.le_iff_toNat_le.mp hhigh))
  rw [UInt16.ofNat_toNat] at hu
  exact hu hlow

theorem trim_cons_trim {u : UInt16} (hu : isSpace u = false) (s : Str) : trim (u :: trim s) = u :: trim s := by
  rw [trim, dropWhile_cons_of_neg (by rw [hu]; exact Bool.noConfusion), rdropWhile_eq_self_iff]
  intro hne
  by_cases htrim : trim s = []
  · simp only [htrim, getLast_singleton, hu, Bool.false_eq_true, not_false_eq_true]
  · rw [getLast_cons htrim]
    exact rdropWhile_last_not _ _ htrim

theorem trim_trim (s : Str) : trim (trim s) = trim s := by
  cases htrim : trim s with
  | nil => rfl
  | cons u t =>
    have hhead : isSpace u = false := by
      obtain ⟨rest, hrest⟩ := rdropWhile_prefix isSpace (l := s.dropWhile isSpace)
      have hnot := head?_dropWhile_not isSpace s
      rw [trim] at htrim
      rw [← hrest, htrim, cons_append, head?_cons] at hnot
      exact hnot
    rw [trim, dropWhile_cons_of_neg (by rw [hhead]; exact Bool.noConfusion), ← htrim, trim, rdropWhile_idempotent]

theorem trim_of_ends {s : Str} (hhead : ∀ u ∈ s.head?, isSpace u = false)
    (hlast : ∀ u ∈ s.getLast?, isSpace u = false) : trim s = s := by
  have hstart : s.dropWhile isSpace = s := by
    cases s with
    | nil => rfl
    | cons u s => rw [dropWhile_cons_of_neg (by simp [hhead u rfl])]
  rw [trim, hstart, rdropWhile_eq_self_iff]
  intro hne
  simp [hlast _ (getLast?_eq_some_getLast hne)]

theorem trim_of_forall {s : Str} (h : ∀ u ∈ s, isSpace u = false) : trim s = s :=
  trim_of_ends (fun u hu => h u (mem_of_mem_head? hu)) fun u hu => h u (mem_of_mem_getLast? hu)

/-- Spaces at the end are trimmed. -/
theorem trim_append_spaces {spaces : Str} (hspaces : ∀ u ∈ spaces, isSpace u) (s : Str) :
    trim (s ++ spaces) = trim s := by
  have hend (x : Str) : (x ++ spaces).rdropWhile isSpace = x.rdropWhile isSpace := by
    rw [rdropWhile, rdropWhile, reverse_append, dropWhile_append_of_pos]
    exact fun u hu => hspaces u (mem_reverse.mp hu)
  rw [trim, trim, dropWhile_append]
  split
  · rename_i hempty
    have hnil : spaces.dropWhile isSpace = [] := dropWhile_eq_nil_iff.mpr hspaces
    rw [hnil, isEmpty_iff.mp hempty]
  · exact hend _

theorem trim_dropWhile (s : Str) : trim (s.dropWhile isSpace) = trim s := by
  rw [trim, dropWhile_idempotent, trim]

theorem mem_of_mem_trim {u : UInt16} {s : Str} (h : u ∈ trim s) : u ∈ s :=
  Ends.mem_of_mem_dropWhile (Ends.mem_of_mem_rdropWhile h)

end Ipc
