-- SUMMARY: Splitting text at line feeds, at once and chunk by chunk with a bounded buffer.
import Tracenium.Lib.Utf16
import Mathlib.Data.List.Infix

/-!
A reader keeps the rest and splits again when more text comes, as long as what it holds never exceeds its bound.
-/

open Utf16 List

namespace Lines

def lf : UInt16 := 0x0A

def cr : UInt16 := 0x0D

/-- The lines that are complete, without their line feeds, and what is left. -/
def splitLines : Str → List Str × Str
  | [] => ([], [])
  | u :: s =>
    let r := splitLines s
    if u = lf then ([] :: r.1, r.2)
    else
      match r.1 with
      | [] => ([], u :: r.2)
      | l :: ls => ((u :: l) :: ls, r.2)

@[simp] theorem splitLines_nil : splitLines [] = ([], []) := rfl

theorem splitLines_lf (s : Str) : splitLines (lf :: s) = ([] :: (splitLines s).1, (splitLines s).2) := by
  simp [splitLines]

/-- A line goes from the start of the text to its first line feed. -/
theorem splitLines_line {l : Str} (hl : lf ∉ l) (s : Str) :
    splitLines (l ++ lf :: s) = (l :: (splitLines s).1, (splitLines s).2) := by
  induction l with
  | nil => exact splitLines_lf s
  | cons u l ih =>
    have hu : u ≠ lf := fun h => hl (by simp [h])
    rw [cons_append, splitLines, ih fun h => hl (by simp [h])]
    simp [hu]

theorem splitLines_of_notMem {s : Str} (h : lf ∉ s) : splitLines s = ([], s) := by
  induction s with
  | nil => rfl
  | cons u s ih =>
    have hu : u ≠ lf := fun heq => h (by simp [heq])
    rw [splitLines, ih fun hs => h (by simp [hs])]
    simp [hu]

/-- The text is its lines, each with its line feed, and what is left. -/
theorem splitLines_flatten (s : Str) : ((splitLines s).1.flatMap fun l => l ++ [lf]) ++ (splitLines s).2 = s := by
  induction s with
  | nil => rfl
  | cons u s ih =>
    rw [splitLines]
    split
    · rename_i hu
      rw [hu, flatMap_cons]
      simpa using ih
    · split
      · rename_i hnone
        rw [hnone] at ih
        simpa using ih
      · rename_i l ls hsome
        rw [hsome] at ih
        simpa using ih

theorem splitLines_lines {ls : List Str} (h : ∀ l ∈ ls, lf ∉ l) (s : Str) :
    splitLines ((ls.flatMap fun l => l ++ [lf]) ++ s) = (ls ++ (splitLines s).1, (splitLines s).2) := by
  induction ls with
  | nil => rfl
  | cons l ls ih =>
    obtain ⟨hl, hls⟩ := forall_mem_cons.mp h
    rw [flatMap_cons, append_assoc, append_assoc, singleton_append, splitLines_line hl, ih hls]
    rfl

theorem lf_notMem_lines (s : Str) : ∀ l ∈ (splitLines s).1, lf ∉ l := by
  induction s with
  | nil => simp
  | cons u s ih =>
    rw [splitLines]
    split
    · exact forall_mem_cons.mpr ⟨by simp, ih⟩
    · rename_i hu
      split
      · simp
      · rename_i l ls hsome
        rw [hsome] at ih
        obtain ⟨hl, hls⟩ := forall_mem_cons.mp ih
        exact forall_mem_cons.mpr ⟨by simp [Ne.symm hu, hl], hls⟩

/-- Text that comes in two parts gives the lines of the first, and then those of what was left of
it with the second. -/
theorem splitLines_append (a b : Str) : splitLines (a ++ b) =
      ((splitLines a).1 ++ (splitLines ((splitLines a).2 ++ b)).1, (splitLines ((splitLines a).2 ++ b)).2) := by
  conv_lhs => rw [← splitLines_flatten a, append_assoc]
  rw [splitLines_lines (lf_notMem_lines a)]

/-! ## The search for the next line feed -/

/-- The loop that cuts off one line after another at the first line feed of what is left. -/
def drainLines (buffer : Str) : List Str × Str :=
  if lf ∈ buffer then
    let newlineIndex := buffer.idxOf lf
    let r := drainLines (buffer.drop (newlineIndex + 1))
    (buffer.take newlineIndex :: r.1, r.2)
  else ([], buffer)
termination_by buffer.length
decreasing_by
  rw [length_drop]
  have := length_pos_of_mem ‹lf ∈ buffer›
  omega

theorem take_idxOf_lf {s : Str} (h : lf ∈ s) :
    lf ∉ s.take (s.idxOf lf) ∧ s.take (s.idxOf lf) ++ lf :: s.drop (s.idxOf lf + 1) = s := by
  induction s with
  | nil => cases h
  | cons u s ih =>
    by_cases hu : u = lf
    · simp [hu]
    · have hs : lf ∈ s := (mem_cons.mp h).resolve_left (Ne.symm hu)
      obtain ⟨hnot, happend⟩ := ih hs
      rw [idxOf_cons_ne _ hu, take_succ_cons, drop_succ_cons]
      refine ⟨?_, by rw [cons_append, happend]⟩
      simp [Ne.symm hu, hnot]

/-- The loop splits the text at every line feed. -/
theorem drainLines_eq (buffer : Str) : drainLines buffer = splitLines buffer := by
  fun_induction drainLines buffer with
  | case1 buffer hmem i r ih =>
    obtain ⟨hnot, happend⟩ := take_idxOf_lf hmem
    conv_rhs => rw [← happend]
    rw [splitLines_line hnot, ← ih]
  | case2 buffer hmem => exact (splitLines_of_notMem hmem).symm

/-! ## A reader with a bounded buffer -/

/-- A reader: the text of the line under way, the lines read so far, and whether it has given up
because its buffer was full. -/
structure Reader where
  buffer : Str
  lines : List Str
  closed : Bool

namespace Reader

def start : Reader := ⟨[], [], false⟩

/-- More text comes. -/
def feed (cap : Nat) (r : Reader) (text : Str) : Reader :=
  if r.closed then r
  else if (r.buffer ++ text).length > cap then { r with buffer := [], closed := true }
  else
    let s := splitLines (r.buffer ++ text)
    { buffer := s.2, lines := r.lines ++ s.1, closed := false }

def readAll (cap : Nat) (texts : List Str) : Reader := texts.foldl (feed cap) start

theorem readAll_snoc (cap : Nat) (texts : List Str) (text : Str) :
    readAll cap (texts ++ [text]) = feed cap (readAll cap texts) text := by
  simp [readAll]

end Reader

/-- No chunk of text overfills a buffer of `cap` units that holds the line under way. -/
def Fits (cap : Nat) (texts : List Str) : Prop :=
  ∀ pre text, pre ++ [text] <+: texts → ((splitLines pre.flatten).2 ++ text).length ≤ cap

theorem fits_nil (cap : Nat) : Fits cap [] := by
  intro pre text h
  simp at h

theorem fits_snoc {cap : Nat} {texts : List Str} {text : Str} : Fits cap (texts ++ [text]) ↔
      Fits cap texts ∧ ((splitLines texts.flatten).2 ++ text).length ≤ cap := by
  constructor
  · intro h
    exact ⟨fun pre t hpre => h pre t (hpre.trans (prefix_append _ _)), h texts text (prefix_refl _)⟩
  · rintro ⟨h, hlast⟩ pre t hpre
    rcases prefix_concat_iff.mp hpre with heq | hpre
    · obtain ⟨rfl, rfl⟩ := append_singleton_inj.mp heq
      exact hlast
    · exact h pre t hpre

/-- The reader has the lines of the whole text, or it gave up at a chunk that did not fit, with
the lines of the text before it. -/
theorem readAll_cases (cap : Nat) (texts : List Str) : (Fits cap texts ∧ Reader.readAll cap texts =
      ⟨(splitLines texts.flatten).2, (splitLines texts.flatten).1, false⟩) ∨
    (∃ pre text, pre ++ [text] <+: texts ∧ Fits cap pre ∧ cap < ((splitLines pre.flatten).2 ++ text).length ∧
      Reader.readAll cap texts = ⟨[], (splitLines pre.flatten).1, true⟩) := by
  induction texts using reverseRecOn with
  | nil => exact .inl ⟨fits_nil cap, rfl⟩
  | append_singleton texts text ih =>
    rw [Reader.readAll_snoc, flatten_concat]
    rcases ih with ⟨hfits, heq⟩ | ⟨pre, t, hpre, hfits, hover, heq⟩
    · rw [heq, Reader.feed, if_neg (by simp)]
      split
      · exact .inr ⟨texts, text, prefix_refl _, hfits, ‹_›, rfl⟩
      · rename_i hcap
        refine .inl ⟨fits_snoc.mpr ⟨hfits, Nat.le_of_not_lt hcap⟩, ?_⟩
        rw [splitLines_append texts.flatten text]
    · refine .inr ⟨pre, t, hpre.trans (prefix_append _ _), hfits, hover, ?_⟩
      rw [heq, Reader.feed, if_pos rfl]

/-- What the reader has are the first lines of the text. -/
theorem lines_readAll_prefix (cap : Nat) (texts : List Str) :
    (Reader.readAll cap texts).lines <+: (splitLines texts.flatten).1 := by
  rcases readAll_cases cap texts with ⟨-, heq⟩ | ⟨pre, text, ⟨post, rfl⟩, -, -, heq⟩
  · rw [heq]
  · rw [heq, append_assoc, flatten_append, splitLines_append]
    exact prefix_append _ _

/-- Of a text that ends with a line, the reader gets all lines exactly if every chunk fits. -/
theorem lines_readAll_iff {cap : Nat} {texts ls : List Str} (h : splitLines texts.flatten = (ls, [])) :
    (Reader.readAll cap texts).lines = ls ↔ Fits cap texts := by
  rcases readAll_cases cap texts with ⟨hfits, heq⟩ | ⟨pre, text, hpre, -, hover, heq⟩
  · rw [heq, h]
    exact iff_of_true rfl hfits
  · refine iff_of_false ?_ fun hfits => Nat.not_lt.mpr (hfits pre text hpre) hover
    rw [heq]
    intro hlines
    obtain ⟨post, rfl⟩ := hpre
    -- with all lines read before, nothing is left to come
    have hflat : (pre ++ [text] ++ post).flatten = pre.flatten ++ (text ++ post.flatten) := by
      simp
    rw [hflat, splitLines_append, ← hlines] at h
    obtain ⟨hfst, hsnd⟩ := Prod.mk.inj h
    have hnone := splitLines_flatten ((splitLines pre.flatten).2 ++ (text ++ post.flatten))
    rw [hsnd, append_right_eq_self.mp hfst] at hnone
    have hempty : (splitLines pre.flatten).2 ++ text = [] := by
      rw [← append_assoc] at hnone
      exact (append_eq_nil_iff.mp hnone.symm).1
    rw [hempty] at hover
    exact Nat.not_lt_zero _ hover

end Lines
