-- SUMMARY: Lists without what their ends drop, first occurrences, the first best entry, and an insertion sort of what is left.
import Mathlib.Data.List.DropRight
import Mathlib.Data.List.Nodup
import Mathlib.Data.List.MinMax
import Mathlib.Data.List.Sort

/-! # Ends -/

open List

namespace Ends

variable {α : Type*} {p q : α → Bool}

theorem rdropWhile_append_cons {c : α} (hc : p c = false) (a x : List α) :
    (a ++ c :: x).rdropWhile p = a ++ c :: x.rdropWhile p := by
  induction x using reverseRecOn with
  | nil => simp [rdropWhile_concat_neg, hc]
  | append_singleton x u ih =>
    rw [← cons_append, ← append_assoc, rdropWhile_concat, rdropWhile_concat]
    split
    · exact ih
    · simp

theorem filter_dropWhile (h : ∀ x, q x → p x = false) (l : List α) :
    (l.dropWhile p).filter q = l.filter q := by
  induction l with
  | nil => rfl
  | cons x l ih =>
    rw [dropWhile_cons]
    split
    · rename_i hx
      have hq : q x = false := by
        by_contra hq
        simp [h x (by simpa using hq)] at hx
      rw [ih, filter_cons_of_neg (by simp [hq])]
    · rfl

theorem filter_rdropWhile (h : ∀ x, q x → p x = false) (l : List α) :
    (l.rdropWhile p).filter q = l.filter q := by
  rw [rdropWhile, filter_reverse, filter_dropWhile h, filter_reverse, reverse_reverse]

theorem mem_of_mem_dropWhile {l : List α} {x : α} (h : x ∈ l.dropWhile p) : x ∈ l := (dropWhile_sublist p).subset h

theorem mem_of_mem_rdropWhile {l : List α} {x : α} (h : x ∈ l.rdropWhile p) : x ∈ l :=
  ( rdropWhile_prefix p l).subset h

end Ends

/-! # First occurrences -/

namespace Firsts

variable {α : Type*} [BEq α] [LawfulBEq α]

theorem nodup_eraseDups (l : List α) : l.eraseDups.Nodup := by
  match l with
  | [] => simp
  | a :: l =>
    rw [eraseDups_cons, nodup_cons]
    refine ⟨?_, nodup_eraseDups _⟩
    simp
termination_by l.length
decreasing_by simpa using Nat.lt_succ_of_le (length_filter_le _ l)

theorem eraseDups_of_nodup {l : List α} (h : l.Nodup) : l.eraseDups = l := by
  induction l with
  | nil => simp
  | cons a l ih =>
    obtain ⟨hmem, hnodup⟩ := nodup_cons.mp h
    have hall : l.filter (fun b => !b == a) = l :=
      filter_eq_self.mpr fun b hb => by simpa using fun h : b = a => hmem (h ▸ hb)
    rw [eraseDups_cons, hall, ih hnodup]

/-- The first occurrences among some entries are those among all of them. -/
theorem eraseDups_filter (p : α → Bool) (l : List α) : (l.filter p).eraseDups = l.eraseDups.filter p := by
  match l with
  | [] => simp
  | a :: l =>
    have hrest := eraseDups_filter p (l.filter fun b => !b == a)
    rw [filter_comm] at hrest
    rw [eraseDups_cons]
    cases hp : p a with
    | true => rw [filter_cons_of_pos hp, filter_cons_of_pos hp, eraseDups_cons, hrest]
    | false =>
      -- nothing of `a` is left on either side
      have hnone : (l.filter p).filter (fun b => !b == a) = l.filter p :=
        filter_eq_self.mpr fun b hb => by
          have hb : p b := (mem_filter.mp hb).2
          simpa using fun h : b = a => by simp [h, hp] at hb
      rw [filter_cons_of_neg (by simp [hp]), filter_cons_of_neg (by simp [hp]), ← hrest, hnone]
termination_by l.length
decreasing_by simpa using Nat.lt_succ_of_le (length_filter_le _ l)

def add (xs : List α) (x : α) : List α := if xs.contains x then xs else xs ++ [x]

theorem mem_add {xs : List α} {a b : α} : b ∈ add xs a ↔ b ∈ xs ∨ b = a := by
  unfold add
  by_cases ha : a ∈ xs
  · simpa [ha] using fun h : b = a => h ▸ ha
  · simp [ha]

theorem foldl_add (xs l : List α) : l.foldl add xs = xs ++ (l.filter fun x => !xs.contains x).eraseDups := by
  induction l generalizing xs with
  | nil => simp
  | cons a l ih =>
    rw [foldl_cons, ih, add]
    cases hmem : xs.contains a with
    | true =>
      rw [if_pos rfl, filter_cons_of_neg (by simpa using hmem)]
    | false =>
      rw [if_neg (by simp), filter_cons_of_pos (by simpa using hmem), eraseDups_cons]
      have hrest : (l.filter fun x => !(xs ++ [a]).contains x) =
          (l.filter fun x => !xs.contains x).filter fun b => !b == a := by
        rw [filter_filter]
        refine filter_congr fun b _ => Bool.eq_iff_iff.mpr ?_
        simp [and_comm]
      rw [hrest, append_assoc, singleton_append]

end Firsts

/-! # Best entries -/

namespace Best

variable {α β γ : Type*} [LinearOrder γ]

theorem argmax_map (g : α → β) (f : β → γ) (l : List α) : (l.map g).argmax f = (l.argmax fun a => f (g a)).map g := by
  induction l with
  | nil => rfl
  | cons a l ih =>
    rw [map_cons, argmax_cons, argmax_cons, ih]
    cases l.argmax fun a => f (g a) with
    | none => rfl
    | some c => by_cases h : f (g a) < f (g c) <;> simp [h]

/-- The entries before the one that is taken are less. -/
theorem exists_of_argmax {f : α → γ} {l : List α} {m : α} (hm : l.argmax f = some m) :
    ∃ pre post, l = pre ++ m :: post ∧ (∀ a ∈ pre, f a < f m) ∧ ∀ a ∈ l, f a ≤ f m := by
  refine (?_ : ∃ pre post, l = pre ++ m :: post ∧ ∀ a ∈ pre, f a < f m).imp fun pre hpre =>
    hpre.imp fun post h => ⟨h.1, h.2, fun a ha => le_of_mem_argmax ha hm⟩
  induction l using reverseRecOn generalizing m with
  | nil => cases hm
  | append_singleton l a ih =>
    rw [argmax_concat] at hm
    cases hl : l.argmax f with
    | none =>
      rw [hl] at hm
      cases hm
      exact ⟨[], [], by simp [argmax_eq_none.mp hl], by simp⟩
    | some c =>
      obtain ⟨pre, post, hsplit, hpre⟩ := ih hl
      by_cases hlt : f c < f a
      · simp only [hl, hlt, if_true, Option.some.injEq] at hm
        subst hm
        exact ⟨l, [], rfl, fun b hb => (le_of_mem_argmax hb hl).trans_lt hlt⟩
      · simp only [hl, hlt, if_false, Option.some.injEq] at hm
        subst hm
        exact ⟨pre, post ++ [a], by simp [hsplit], hpre⟩

end Best

/-! # Sorting what is left -/

namespace Sorting

variable {α β : Type*} {r : α → α → Prop} {s : β → β → Prop} [DecidableRel r] [DecidableRel s] {f : α → Option β}

theorem orderedInsert_of_forall {b : β} {l : List β} (h : ∀ c ∈ l, s b c) : l.orderedInsert s b = b :: l := by
  cases l with
  | nil => rfl
  | cons c l => exact orderedInsert_cons_of_le _ l (h c mem_cons_self)

theorem filterMap_orderedInsert_none {a : α} (h : f a = none) (l : List α) :
    (l.orderedInsert r a).filterMap f = l.filterMap f := by
  induction l with
  | nil => simp [h]
  | cons c l ih =>
    rw [orderedInsert_cons]
    split
    · simp [h]
    · rw [filterMap_cons, filterMap_cons, ih]

theorem filterMap_orderedInsert [IsTrans α r] (hf : ∀ a a' b b', f a = some b → f a' = some b' → (s b b' ↔ r a a'))
    {a : α} {b : β} (h : f a = some b) {l : List α} (hl : l.Pairwise r) :
    (l.orderedInsert r a).filterMap f = (l.filterMap f).orderedInsert s b := by
  induction l with
  | nil => simp [h]
  | cons c l ih =>
    obtain ⟨hc, hl⟩ := pairwise_cons.mp hl
    rw [orderedInsert_cons]
    split
    · rename_i hac
      -- all that is left of the list comes after
      have hall : ∀ d ∈ (c :: l).filterMap f, s b d := by
        intro d hd
        obtain ⟨y, hy, hfy⟩ := mem_filterMap.mp hd
        refine (hf a y b d h hfy).mpr ?_
        rcases mem_cons.mp hy with rfl | hy
        · exact hac
        · exact IsTrans.trans _ _ _ hac (hc y hy)
      rw [orderedInsert_of_forall hall, filterMap_cons_some h]
    · rename_i hac
      cases hfc : f c with
      | none => rw [filterMap_cons_none hfc, filterMap_cons_none hfc, ih hl]
      | some d =>
        have hbd : ¬ s b d := fun hbd => hac ((hf a c b d h hfc).mp hbd)
        rw [filterMap_cons_some hfc, filterMap_cons_some hfc, orderedInsert_of_not_le _ _ hbd, ih hl]

/-- Sorting what the entries give. -/
theorem insertionSort_filterMap [IsTrans α r] [Std.Total r]
    (hf : ∀ a a' b b', f a = some b → f a' = some b' → (s b b' ↔ r a a')) (l : List α) :
    (l.filterMap f).insertionSort s = (l.insertionSort r).filterMap f := by
  induction l with
  | nil => rfl
  | cons a l ih =>
    rw [insertionSort_cons]
    cases h : f a with
    | none => rw [filterMap_cons_none h, filterMap_orderedInsert_none h, ih]
    | some b =>
      have hsorted := pairwise_insertionSort r l
      rw [filterMap_cons_some h, insertionSort_cons, ih, filterMap_orderedInsert hf h hsorted]

end Sorting
