-- SUMMARY: Edits of files of lines: what a reader of single lines finds after lines were dropped, added or superseded.
import Tracenium.Lib.Lists

open List

namespace LineEdits

variable {α β : Type*} {read : α → Option β} {drops : α → Bool} {isOurs : β → Bool} {ls : List α}

/-- The entries that are about the key are those of the lines that are dropped. -/
def Agree (read : α → Option β) (drops : α → Bool) (isOurs : β → Bool) : Prop :=
  ∀ line e, read line = some e → isOurs e = drops line

/-- Only entries that are about the key are lost. -/
theorem others_kept (h : Agree read drops isOurs) (ls : List α) :
    ((ls.filter fun line => !drops line).filterMap read).filter (fun e => !isOurs e) =
      (ls.filterMap read).filter fun e => !isOurs e := by
  induction ls with
  | nil => rfl
  | cons line ls ih =>
    cases hread : read line with
    | none =>
      rw [filter_cons]
      split <;> simp [hread, ih]
    | some e =>
      have he := h line e hread
      cases hdrops : drops line <;> simp [hread, he, hdrops, ih]

/-- No entry that is about the key is left. -/
theorem ours_kept (h : Agree read drops isOurs) (ls : List α) :
    ((ls.filter fun line => !drops line).filterMap read).filter isOurs = [] := by
  simp only [filter_eq_nil_iff, mem_filterMap, mem_filter]
  rintro e ⟨line, ⟨-, hdrops⟩, hread⟩
  simpa [h line e hread] using hdrops

/-! ## Lines added at the end -/

section Settle

variable {isBlank : α → Bool} {header : Option α} {added : List α}

/-- The lines up to the last that is not blank, a header if there are none, and the lines that are added. -/
def settle (isBlank : α → Bool) (header : Option α) (kept added : List α) : List α :=
  (if (kept.rdropWhile isBlank).isEmpty then header.toList else kept.rdropWhile isBlank) ++ added

theorem filterMap_rdropWhile (hblank : ∀ line, isBlank line → read line = none) (ls : List α) :
    (ls.rdropWhile isBlank).filterMap read = ls.filterMap read := by
  induction ls using reverseRecOn with
  | nil => rfl
  | append_singleton ls line ih =>
    rw [rdropWhile_concat]
    split
    · simp [ih, hblank line ‹_›]
    · rfl

/-- Blank lines and the header have no entries. -/
theorem filterMap_settle (hblank : ∀ line, isBlank line → read line = none)
    (hheader : ∀ line ∈ header, read line = none) (kept : List α) :
    (settle isBlank header kept added).filterMap read = kept.filterMap read ++ added.filterMap read := by
  rw [settle, filterMap_append, ← filterMap_rdropWhile hblank kept]
  split
  · rename_i hempty
    have hnil := isEmpty_iff.mp hempty
    cases header with
    | none => simp [hnil]
    | some line => simp [hnil, hheader line rfl]
  · rfl

/-- The entries after an edit: the others as they were, and those of the lines that are added. -/
theorem entries_settle (h : Agree read drops isOurs) (hblank : ∀ line, isBlank line → read line = none)
    (header : Option α) (hheader : ∀ line ∈ header, read line = none)
    (hadded : ∀ e ∈ added.filterMap read, isOurs e)
    (ls : List α) :
    let after := (settle isBlank header (ls.filter fun line => !drops line) added).filterMap read
    after.filter isOurs = added.filterMap read ∧
      (after.filter fun e => !isOurs e) = (ls.filterMap read).filter fun e => !isOurs e := by
  dsimp only
  rw [filterMap_settle hblank hheader, filter_append, filter_append, ours_kept h, others_kept h]
  have hours : (added.filterMap read).filter isOurs = added.filterMap read := filter_eq_self.mpr hadded
  have hothers : (added.filterMap read).filter (fun e => !isOurs e) = [] :=
    filter_eq_nil_iff.mpr fun e he => by simp [hadded e he]
  rw [hours, hothers]
  simp

/-- What is kept has no blank line at its end, and is as it was settled. -/
theorem rdropWhile_settled (hheader : ∀ line ∈ header, isBlank line = false) (kept : List α) :
    (if (kept.rdropWhile isBlank).isEmpty then header.toList else kept.rdropWhile isBlank).rdropWhile isBlank =
      if (kept.rdropWhile isBlank).isEmpty then header.toList else kept.rdropWhile isBlank := by
  split
  · cases header with
    | none => rfl
    | some line => simp [hheader line rfl]
  · exact rdropWhile_idempotent _ _

/-- An edit that is done again changes nothing. -/
theorem settle_settle {last : α} (hlast : isBlank last) (hheader : ∀ line ∈ header,
    isBlank line = false ∧ drops line = false) (hadded : ∀ line ∈ added, drops line) (ls : List α) :
    settle isBlank header ((settle isBlank header (ls.filter fun line => !drops line) added ++ [last]).filter
        fun line => !drops line) added = settle isBlank header (ls.filter fun line => !drops line) added := by
  let kept := ls.filter fun line => !drops line
  let head := if (kept.rdropWhile isBlank).isEmpty then header.toList else kept.rdropWhile isBlank
  have hkept : ∀ line ∈ head, drops line = false := by
    intro line hline
    by_cases hempty : (kept.rdropWhile isBlank).isEmpty
    · simp only [head, if_pos hempty, Option.mem_toList] at hline
      exact (hheader line hline).2
    · simp only [head, if_neg hempty] at hline
      simpa using (mem_filter.mp (Ends.mem_of_mem_rdropWhile hline)).2
  have hhead : head.filter (fun line => !drops line) = head :=
    filter_eq_self.mpr fun line hline => by simp [hkept line hline]
  have hadd : added.filter (fun line => !drops line) = [] :=
    filter_eq_nil_iff.mpr fun line hline => by simp [hadded line hline]
  have hsettled : head.rdropWhile isBlank = head := rdropWhile_settled (fun line hline => (hheader line hline).1) kept
  -- the last line goes away either way
  have hend : ((head ++ added ++ [last]).filter fun line => !drops line).rdropWhile isBlank = head := by
    rw [filter_append, filter_append, hhead, hadd, append_nil, filter_cons]
    split
    · rw [filter_nil, rdropWhile_concat_pos _ _ _ hlast, hsettled]
    · rw [filter_nil, append_nil, hsettled]
  change settle isBlank header ((head ++ added ++ [last]).filter fun line => !drops line) added = head ++ added
  rw [settle, hend]
  split
  · rename_i hempty
    have hnil : head = [] := isEmpty_iff.mp hempty
    cases hheader' : header with
    | none => simp [hnil]
    | some line =>
      have hne : head ≠ [] := by
        by_cases hempty' : (kept.rdropWhile isBlank).isEmpty
        · simp [head, if_pos hempty', hheader']
        · simpa [head, if_neg hempty'] using hempty'
      exact absurd hnil hne
  · rfl

end Settle

/-! ## Lines superseded in their place -/

section Supersede

variable {retire : α → α} {entry : α}

/-- The last of the lines becomes the entry, and the ones before it are retired. -/
def supersede (drops : α → Bool) (retire : α → α) (entry : α) : List α → List α
  | [] => []
  | line :: ls =>
    (if drops line then if ls.any drops then retire line else entry else line) :: supersede drops retire entry ls

/-- The lines before the last of the key, and those after it. -/
theorem supersede_eq (retire : α → α) (entry : α) (h : ls.any drops) :
    ∃ before line after, ls = before ++ line :: after ∧ drops line ∧ after.any drops = false ∧
      supersede drops retire entry ls =
        (before.map fun line => if drops line then retire line else line) ++ entry :: after := by
  have hnone : ∀ ls : List α, ls.any drops = false → supersede drops retire entry ls = ls := by
    intro ls hls
    induction ls with
    | nil => rfl
    | cons line ls ih =>
      obtain ⟨hline, hls⟩ : drops line = false ∧ ls.any drops = false := by simpa using hls
      simp [supersede, hline, ih hls]
  induction ls with
  | nil => simp at h
  | cons line ls ih =>
    cases hls : ls.any drops with
    | true =>
      obtain ⟨before, line', after, rfl, hline', hafter, heq⟩ := ih hls
      exact ⟨line :: before, line', after, rfl, hline', hafter, by simp [supersede, hls, heq]⟩
    | false =>
      have hline : drops line := by simpa [hls] using h
      exact ⟨[], line, ls, rfl, hline, hls, by simp [supersede, hline, hls, hnone ls hls]⟩

theorem filterMap_retired (hretire : ∀ line, read (retire line) = none) (ls : List α) :
    (ls.map fun line => if drops line then retire line else line).filterMap read =
      (ls.filter fun line => !drops line).filterMap read := by
  induction ls with
  | nil => rfl
  | cons line ls ih => cases hdrops : drops line <;> simp_all [filterMap_cons]

/-- The entries that are about other keys stay, and the one of the new line is the only one of the key. -/
theorem entries_supersede {e : β} (h : Agree read drops isOurs) (hretire : ∀ line, read (retire line) = none)
    (hentry : read entry = some e) (hours : isOurs e) (hany : ls.any drops) :
    let after := (supersede drops retire entry ls).filterMap read
    after.filter isOurs = [e] ∧ (after.filter fun e => !isOurs e) = (ls.filterMap read).filter fun e => !isOurs e := by
  obtain ⟨before, line, after, rfl, hline, hafter, heq⟩ := supersede_eq retire entry hany
  have hlater : after.filter (fun line => !drops line) = after := by
    refine filter_eq_self.mpr fun line hline => ?_
    simpa using any_eq_false.mp hafter line hline
  have hafter' : (after.filterMap read).filter isOurs = [] := by
    rw [← hlater]
    exact ours_kept h after
  dsimp only
  rw [heq, filterMap_append, filterMap_retired hretire, filterMap_cons_some hentry, filter_append,
    filter_append, ours_kept h, others_kept h]
  constructor
  · simp [hours, hafter']
  · have hgone : ((line :: after).filterMap read).filter (fun e => !isOurs e) =
        (after.filterMap read).filter fun e => !isOurs e := by
      rw [← others_kept h (line :: after), filter_cons_of_neg (by simp [hline]), hlater]
    rw [filterMap_append, filter_append, hgone, filter_cons_of_neg (by simp [hours])]

/-- An entry that is in its place already is superseded by itself. -/
theorem supersede_self {before after : List α} (hentry : drops entry)
    (hbefore : ∀ line ∈ before, drops line = false) (hafter : ∀ line ∈ after, drops line = false) :
    supersede drops retire entry (before ++ entry :: after) = before ++ entry :: after := by
  have hfree : after.any drops = false := any_eq_false.mpr fun line hline => by simp [hafter line hline]
  have hself {ls : List α} (hls : ∀ line ∈ ls, drops line = false) : supersede drops retire entry ls = ls := by
    induction ls with
    | nil => rfl
    | cons line ls ih =>
      obtain ⟨hline, hls⟩ := forall_mem_cons.mp hls
      simp [supersede, hline, ih hls]
  induction before with
  | nil => simp [supersede, hentry, hfree, hself hafter]
  | cons line before ih =>
    obtain ⟨hline, hbefore⟩ := forall_mem_cons.mp hbefore
    simp [supersede, hline, ih hbefore]

end Supersede

/-! ## Pieces -/

section Pieces

variable {sep : α} {first last : List α} {pieces rest : List (List α)}

theorem mem_intercalate {u : α} (h : u ∈ [sep].intercalate pieces) : u = sep ∨ ∃ piece ∈ pieces, u ∈ piece := by
  induction pieces with
  | nil => simp at h
  | cons piece pieces ih =>
    cases pieces with
    | nil => simp_all
    | cons next pieces =>
      rw [intercalate_cons_cons] at h
      simp only [mem_append, mem_singleton] at h
      rcases h with (h | h) | h
      · exact .inr ⟨piece, mem_cons_self, h⟩
      · exact .inl h
      · rcases ih h with rfl | ⟨piece', hmem, hu⟩
        · exact .inl rfl
        · exact .inr ⟨piece', mem_cons_of_mem _ hmem, hu⟩

theorem head?_intercalate (hfirst : first ≠ []) : ([sep].intercalate (first :: rest)).head? = first.head? := by
  obtain ⟨u, first, rfl⟩ := exists_cons_of_ne_nil hfirst
  cases rest <;> simp

theorem getLast?_intercalate (h : pieces.getLast? = some last) (hlast : last ≠ []) :
    ([sep].intercalate pieces).getLast? = last.getLast? := by
  induction pieces with
  | nil => cases h
  | cons piece pieces ih =>
    cases pieces with
    | nil => simp_all
    | cons next pieces =>
      have hsome := ih h
      rw [intercalate_cons_cons, getLast?_append, hsome, getLast?_eq_some_getLast hlast]
      rfl

end Pieces

end LineEdits
