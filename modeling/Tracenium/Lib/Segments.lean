-- SUMMARY: Texts that are segments with a separator between them, and the words of a line.
import Mathlib.Data.List.Infix
import Mathlib.Data.List.TakeWhile

open List

namespace Segments

variable {α : Type*}

def spell (sep : α) : List (List α) → List α
  | [] => []
  | [x] => x
  | x :: y :: xs => x ++ sep :: spell sep (y :: xs)

/-- No separator is in a segment. -/
def Clean (p : α → Bool) (xs : List (List α)) : Prop := ∀ x ∈ xs, ∀ c ∈ x, p c = false

variable {xs : List (List α)}

theorem spell_cons (sep : α) (x : List α) (hxs : xs ≠ []) : spell sep (x :: xs) = x ++ sep :: spell sep xs := by
  cases xs with
  | nil => exact absurd rfl hxs
  | cons y xs => rfl

theorem spell_append (sep : α) {xs ys : List (List α)} (hxs : xs ≠ []) (hys : ys ≠ []) :
    spell sep (xs ++ ys) = spell sep xs ++ sep :: spell sep ys := by
  induction xs with
  | nil => exact absurd rfl hxs
  | cons x xs ih =>
    cases xs with
    | nil => exact spell_cons sep x hys
    | cons z xs =>
      have htail : z :: xs ++ ys ≠ [] := cons_ne_nil _ _
      rw [cons_append, spell_cons sep x htail, ih (cons_ne_nil _ _)]
      rw [spell_cons sep x (cons_ne_nil z xs), append_assoc, cons_append]

/-- A text is cut where its segments are. -/
theorem splitOnP_spell {p : α → Bool} {sep : α} (hsep : p sep)
    (hxs : xs ≠ []) : (spell sep xs).splitOnP p = xs.flatMap (splitOnP p) := by
  induction xs with
  | nil => exact absurd rfl hxs
  | cons x xs ih =>
    cases xs with
    | nil => exact (append_nil _).symm
    | cons y xs =>
      rw [spell_cons sep x (cons_ne_nil _ _), splitOnP_append_cons _ _ hsep, ih (cons_ne_nil _ _)]
      rfl

theorem flatMap_splitOnP {p : α → Bool} (hclean : Clean p xs) : xs.flatMap (splitOnP p) = xs := by
  induction xs with
  | nil => rfl
  | cons x xs ih =>
    rw [flatMap_cons, ih fun y hy => hclean y (mem_cons_of_mem _ hy), splitOnP_eq_singleton (hclean x mem_cons_self)]
    rfl

theorem splitOnP_spell_of_clean {p : α → Bool} {sep : α} (hsep : p sep) (hxs : xs ≠ []) (hclean : Clean p xs) :
    (spell sep xs).splitOnP p = xs :=
  (splitOnP_spell hsep hxs).trans (flatMap_splitOnP hclean)

/-- One text is another one, or goes on after it with a separator, exactly when its segments begin
with those of the other. -/
theorem spell_within_iff {p : α → Bool} {sep : α} (hsep : p sep) {xs ys : List (List α)}
    (hxs : xs ≠ []) (hys : ys ≠ []) (hxclean : Clean p xs) (hyclean : Clean p ys) :
    (spell sep ys = spell sep xs ∨ spell sep xs ++ [sep] <+: spell sep ys) ↔ xs <+: ys := by
  have hx := splitOnP_spell_of_clean hsep hxs hxclean
  have hy := splitOnP_spell_of_clean hsep hys hyclean
  constructor
  · rintro (heq | ⟨rest, hrest⟩)
    · rw [← hx, ← hy, heq]
    · rw [append_assoc, singleton_append] at hrest
      rw [← hy, ← hrest, splitOnP_append_cons _ _ hsep, hx]
      exact prefix_append _ _
  · rintro ⟨zs, rfl⟩
    cases zs with
    | nil =>
      left
      rw [append_nil]
    | cons z zs =>
      right
      rw [spell_append sep hxs (cons_ne_nil _ _)]
      exact ⟨spell sep (z :: zs), by rw [append_assoc, singleton_append]⟩

/-- A text ends as its last segment does. -/
theorem getLast?_spell (sep : α) {x : List α} (hx : x ≠ []) : (spell sep (xs ++ [x])).getLast? = x.getLast? := by
  cases xs with
  | nil => rfl
  | cons y xs =>
    rw [spell_append sep (cons_ne_nil _ _) (cons_ne_nil _ _)]
    cases x with
    | nil => exact absurd rfl hx
    | cons c x =>
      change (spell sep (y :: xs) ++ sep :: c :: x).getLast? = _
      simp [getLast?_cons]

/-- A map of the units goes over the segments, with the separators. -/
theorem map_spell {β : Type*} (f : α → β) (sep : α) (xs : List (List α)) :
    (spell sep xs).map f = spell (f sep) (xs.map (map f)) := by
  induction xs with
  | nil => rfl
  | cons x xs ih =>
    cases xs with
    | nil => rfl
    | cons y xs =>
      rw [spell_cons sep x (cons_ne_nil _ _), map_append, map_cons, ih]
      rfl

/-- What goes over the separators goes over the segments. -/
theorem spell_of_over {f : List α → List α} {sep : α}
    (hf : ∀ a b, f (a ++ sep :: b) = f a ++ sep :: f b) (hxs : xs ≠ []) :
    f (spell sep xs) = spell sep (xs.map f) := by
  induction xs with
  | nil => exact absurd rfl hxs
  | cons x xs ih =>
    cases xs with
    | nil => rfl
    | cons y xs =>
      rw [spell_cons sep x (cons_ne_nil _ _), hf, ih (cons_ne_nil _ _)]
      rfl

end Segments

/-! # Words -/

namespace Words

open Segments

variable {α : Type*} (p : α → Bool)

/-- A word: some units, none of which separates. -/
structure IsWord (w : List α) : Prop where
  ne_nil : w ≠ []
  clean : ∀ u ∈ w, p u = false

/-- The words of a text. -/
def words (s : List α) : List (List α) := (s.splitOnP p).filter fun w => !w.isEmpty

def before (s : List α) : List α := s.takeWhile fun u => !p u

def after (s : List α) : List α := s.dropWhile fun u => !p u

variable {p}

/-- The words of a line that is spelled with one separator between any two. -/
theorem words_spell {sep : α} (hsep : p sep) {ws : List (List α)} (hws : ws ≠ [])
    (hwords : ∀ w ∈ ws, IsWord p w) : words p (spell sep ws) = ws := by
  have hclean : Clean p ws := fun w hw => (hwords w hw).clean
  rw [words, splitOnP_spell_of_clean hsep hws hclean, filter_eq_self]
  intro w hw
  simpa using (hwords w hw).ne_nil

theorem before_append {w : List α} (hw : ∀ u ∈ w, p u = false) {sep : α} (hsep : p sep)
    (s : List α) : before p (w ++ sep :: s) = w := by
  rw [before, takeWhile_append_of_pos (by simpa using hw)]
  simp [hsep]

theorem after_append {w : List α} (hw : ∀ u ∈ w, p u = false) {sep : α} (hsep : p sep)
    (s : List α) : after p (w ++ sep :: s) = sep :: s := by
  rw [after, dropWhile_append_of_pos (by simpa using hw)]
  simp [hsep]

theorem before_of_clean {w : List α} (hw : ∀ u ∈ w, p u = false) : before p w = w := by
  rw [before, takeWhile_eq_self_iff]
  simpa using hw

theorem after_of_clean {w : List α} (hw : ∀ u ∈ w, p u = false) : after p w = [] := by
  rw [after, dropWhile_eq_nil_iff]
  simpa using hw

/-- A word begins what it is put before. -/
theorem IsWord.dropWhile_append {w : List α} (hw : IsWord p w) (s : List α) : (w ++ s).dropWhile p = w ++ s := by
  obtain ⟨hne, hclean⟩ := hw
  cases w with
  | nil => exact absurd rfl hne
  | cons u w => simp [hclean u mem_cons_self]

end Words
