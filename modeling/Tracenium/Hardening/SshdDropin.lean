-- SUMMARY: What sshd reads from our two drop-ins after a change of a directive, and when it is the value asked for.
import Tracenium.Hardening.Apply

/-!
sshd keeps the first value that it reads, and what comes after a `Match` is conditional. The setter looks for lines
with a space after the directive only, and puts its line where the first of them is or at the end.
-/

open Utf16 Option

namespace Hardening

open Ipc

def quote : UInt16 := 0x22

/-! ## What sshd reads -/

/-- `.replace(/^"(.*)"$/, "$1")`. -/
def unquote (v : Str) : Str :=
  match v with
  | [] => []
  | u :: rest =>
    if u == quote && rest.getLast? == some quote &&
        rest.dropLast.all fun w => w != newline && w != 0x0D && w != 0x2028 && w != 0x2029 then
      rest.dropLast
    else v

def directiveValue (line : Str) : Str :=
  let t := trim line
  let isKeyUnit := fun u => !Ipc.isSpace u && u != equals
  let v :=
    if (t.takeWhile isKeyUnit).isEmpty then t
    else
      let rest := (t.dropWhile isKeyUnit).dropWhile isSpace
      (if rest.head? = some equals then rest.tail else rest).dropWhile isSpace
  unquote (trim v)

section Reading

variable (l : Library)

/-- `scan` on the lines of a drop-in: the values of a directive, up to the first `Match`. -/
def scan (lower : Str) : List Str → List Str
  | [] => []
  | line :: ls =>
    match directiveKey l line with
    | none => scan lower ls
    | some key =>
      if key = text "match" then []
      else if key = lower then directiveValue line :: scan lower ls
      else scan lower ls

/-- The lines of a file, of none if it is not there. -/
def linesOf (file : Option Str) : List Str := lines (file.getD [])

/-- The definitions of a directive in a drop-in, in the order in which they are read. -/
def definitions (file : Option Str) (directive : Str) : List Str := scan l (l.lower directive) (linesOf file)

def directiveLines (ls : List Str) : List Str := ls.filter fun line => (directiveKey l line).isSome

def isLineOf (directive line : Str) : Bool := directiveKey l line == some (l.lower directive)

def otherLines (directive : Str) (ls : List Str) : List Str :=
  (directiveLines l ls).filter fun line => !isLineOf l directive line

end Reading

/-! ## What a change is to do -/

/-- A file is removed exactly if it had directive lines and none of them remains. -/
def RemovedIfEmpty (l : Library) (before after : Option Str) : Prop :=
  (before.isSome = true ∧ after = none) ↔ directiveLines l (linesOf before) ≠ [] ∧ directiveLines l (linesOf after) = []

structure Planned (l : Library) (current : Dropins) (directive : Str) (value : Option Str) (after : Dropins) :
    Prop where
  /-- The first definition outside any `Match` is the value. -/
  effective : ∀ v ∈ value, (definitions l after.primary directive).head? = some v
  cleared : value = none → ∀ line ∈ linesOf after.primary, isLineOf l directive line = false
  legacy : ∀ line ∈ linesOf after.legacy, isLineOf l directive line = false
  others : otherLines l directive (linesOf after.primary) = otherLines l directive (linesOf current.primary) ∧
    otherLines l directive (linesOf after.legacy) = otherLines l directive (linesOf current.legacy)
  removed : RemovedIfEmpty l current.primary after.primary ∧ RemovedIfEmpty l current.legacy after.legacy
  again : planSshDropinChanges l after directive value = after

/-- The lines of the drop-in before the one that is replaced, or all of them. -/
def leadingLines (l : Library) (current : Dropins) (directive : Str) : List Str :=
  (linesOf current.primary).takeWhile fun line => !setsDirective l directive line

def matters (l : Library) (lower line : Str) : Bool :=
  directiveKey l line == some (text "match") || directiveKey l line == some lower

/-- The first of the leading lines that sshd reads as a `Match` or as a line of the directive, if there is one, gives
the value already. -/
def Unhidden (l : Library) (current : Dropins) (directive v : Str) : Prop :=
  ∀ line ∈ (leadingLines l current directive).find? (matters l (l.lower directive)),
    directiveKey l line ≠ some (text "match") ∧ directiveValue line = v

/-- The name of a directive: no space and no equals sign, no comment, and not `Match`. -/
structure IsDirective (l : Library) (directive : Str) : Prop where
  ne_nil : directive ≠ []
  unit : ∀ u ∈ directive, isSpace u = false ∧ u ≠ equals ∧ u ≠ hash
  ne_match : l.lower directive ≠ text "match"

/-- A value in one word, as sshd reads it. -/
structure IsWritten (v : Str) : Prop where
  ne_nil : v ≠ []
  unit : ∀ u ∈ v, isSpace u = false ∧ u ≠ equals ∧ u ≠ hash ∧ u ≠ quote

/-! ## Lines -/

theorem newline_notMem_of_mem_lines {s line : Str} (h : line ∈ lines s) : newline ∉ line := by
  induction s generalizing line with
  | nil => simp_all [lines]
  | cons u s ih =>
    rw [lines, List.splitOn_cons_eq_if_modifyHead] at h
    split at h
    · rename_i hu
      rcases List.mem_cons.mp h with rfl | h
      · simp
      · exact ih h
    · rename_i hu
      cases hs : s.splitOn newline with
      | nil => simp [hs] at h
      | cons first rest =>
        have hih : ∀ line ∈ first :: rest, newline ∉ line := fun line hline => ih (by rwa [lines, hs])
        rw [hs, List.modifyHead_cons, List.mem_cons] at h
        rcases h with rfl | h
        · have hne : ¬ newline = u := fun heq => hu (by simp [heq])
          simp [hne, hih first]
        · exact hih line (List.mem_cons_of_mem _ h)

theorem lines_joinLines {ls : List Str} (hne : ls ≠ []) (hclean : ∀ line ∈ ls, newline ∉ line) :
    lines (joinLines ls) = ls :=
  List.splitOn_intercalate newline hclean hne

theorem joinLines_concat {ls : List Str} (hne : ls ≠ []) : joinLines ls ++ [newline] = joinLines (ls ++ [[]]) := by
  induction ls with
  | nil => exact absurd rfl hne
  | cons line ls ih =>
    cases ls with
    | nil => simp [joinLines]
    | cons line' ls =>
      have hcons (line : Str) {ls : List Str} (hne : ls ≠ []) :
          joinLines (line :: ls) = line ++ newline :: joinLines ls := by
        cases ls with
        | nil => exact absurd rfl hne
        | cons _ _ => simp [joinLines]
      have hne' : line' :: ls ≠ [] := List.cons_ne_nil _ _
      rw [hcons line hne', List.append_assoc, List.cons_append, ih hne']
      exact (hcons line (List.append_ne_nil_of_left_ne_nil hne' _)).symm

section Lines

variable {l : Library} {directive v line : Str} {ls : List Str}

@[simp] theorem directiveKey_nil : directiveKey l [] = none := rfl

@[simp] theorem setsDirective_nil : setsDirective l directive [] = false := rfl

theorem isSome_directiveKey_of_isLineOf (h : isLineOf l directive line) :
    (directiveKey l line).isSome := by
  rw [isLineOf, beq_iff_eq] at h
  simp [h]

/-- A line that the setter takes is one of the directive for sshd. -/
theorem isLineOf_of_setsDirective (hlower : ∀ s, equals ∈ l.lower s ↔ equals ∈ s) (hd : IsDirective l directive)
    (h : setsDirective l directive line) : isLineOf l directive line := by
  simp only [setsDirective, Bool.and_eq_true, bne_iff_ne, beq_iff_eq, map_eq_some_iff] at h
  obtain ⟨hcomment, word, hword, hlow⟩ := h
  simp only [leadingWord, ite_none_left_eq_some, Bool.or_eq_true, not_or, some.injEq] at hword
  obtain ⟨⟨hne, -⟩, hword⟩ := hword
  have hequals : equals ∉ word := by
    rw [← hlower, hlow, hlower]
    exact fun hmem => (hd.unit _ hmem).2.1 rfl
  -- the word has no equals sign, so it is the key
  have hkey : (trim line).takeWhile (fun u => !Ipc.isSpace u && u != equals) = word := by
    have hcut : (trim line).takeWhile (fun u => !Ipc.isSpace u && u != equals) =
        word.takeWhile fun u => u != equals := by
      rw [← hword, List.takeWhile_takeWhile]
      exact congrArg (List.takeWhile · _) (funext fun u => by simp [Bool.and_comm, bne, beq_eq_decide])
    rw [hcut, List.takeWhile_eq_self_iff]
    exact fun u hu => by simpa using ne_of_mem_of_not_mem hu hequals
  have ht : (trim line).isEmpty = false := by
    cases ht : trim line with
    | nil => simp [ht] at hne
    | cons u t => rfl
  simp [isLineOf, directiveKey, ht, hcomment, hkey, hword ▸ hne, hlow]

end Lines

section Entry

variable {l : Library} {directive v : Str}

theorem takeWhile_entry {p : UInt16 → Bool} (v : Str) (hp : ∀ u ∈ directive, p u)
    (hspace : p space = false) : (directive ++ space :: v).takeWhile p = directive := by
  rw [List.takeWhile_append_of_pos hp, List.takeWhile_cons_of_neg (by simp [hspace]), List.append_nil]

theorem head_entry (hd : IsDirective l directive) (v : Str) : (directive ++ space :: v).head? ≠ some hash := by
  rw [List.head?_append_of_ne_nil _ hd.ne_nil]
  exact fun hhead => (hd.unit _ (List.mem_of_mem_head? hhead)).2.2 rfl

theorem trim_entry (hd : IsDirective l directive) (hv : IsWritten v) :
    trim (directive ++ space :: v) = directive ++ space :: v := by
  refine trim_of_ends (fun u hu => ?_) fun u hu => ?_
  · rw [List.head?_append_of_ne_nil _ hd.ne_nil] at hu
    exact (hd.unit u (List.mem_of_mem_head? hu)).1
  · rw [List.getLast?_append_of_ne_nil _ (List.cons_ne_nil _ _), List.getLast?_cons_of_ne_nil hv.ne_nil] at hu
    exact (hv.unit u (List.mem_of_mem_getLast? hu)).1

theorem directiveKey_entry (hd : IsDirective l directive) (hv : IsWritten v) :
    directiveKey l (directive ++ space :: v) = some (l.lower directive) := by
  have hkey : (directive ++ space :: v).takeWhile (fun u => !Ipc.isSpace u && u != equals) = directive :=
    takeWhile_entry v (fun u hu => by simp [hd.unit u hu]) (by decide)
  have hempty : (directive ++ space :: v).isEmpty = false := by simp
  simp only [directiveKey, trim_entry hd hv, hkey, hempty, Bool.false_or, beq_iff_eq]
  rw [if_neg (head_entry hd v), if_neg (by simp [hd.ne_nil])]

theorem directiveValue_entry (hd : IsDirective l directive) (hv : IsWritten v) :
    directiveValue (directive ++ space :: v) = v := by
  have hkey : (directive ++ space :: v).takeWhile (fun u => !Ipc.isSpace u && u != equals) = directive :=
    takeWhile_entry v (fun u hu => by simp [hd.unit u hu]) (by decide)
  have hrest : (directive ++ space :: v).dropWhile (fun u => !Ipc.isSpace u && u != equals) = space :: v := by
    rw [List.dropWhile_append_of_pos fun u hu => by simp [hd.unit u hu], List.dropWhile_cons_of_neg (by decide)]
  have hhead : ∀ u ∈ v.head?, isSpace u = false ∧ u ≠ equals ∧ u ≠ hash ∧ u ≠ quote :=
    fun u hu => hv.unit u (List.mem_of_mem_head? hu)
  have hstart : v.dropWhile isSpace = v := by
    cases v with
    | nil => rfl
    | cons u v => rw [List.dropWhile_cons_of_neg (by simp [(hhead u rfl).1])]
  have hspaces : (space :: v).dropWhile isSpace = v := by
    rw [List.dropWhile_cons_of_pos (by decide), hstart]
  have hequals : v.head? ≠ some equals := fun h => (hhead _ h).2.1 rfl
  have hunquote : unquote v = v := by
    cases v with
    | nil => rfl
    | cons u v => simp [unquote, (hhead u rfl).2.2.2]
  have htrim : trim v = v :=
    trim_of_ends (fun u hu => (hhead u hu).1) fun u hu => (hv.unit u (List.mem_of_mem_getLast? hu)).1
  simp only [directiveValue, trim_entry hd hv, hkey, hrest, hspaces, if_neg hequals, hstart]
  rw [if_neg (by simp [hd.ne_nil]), htrim, hunquote]

theorem setsDirective_entry (hd : IsDirective l directive) (hv : IsWritten v) :
    setsDirective l directive (directive ++ space :: v) := by
  have hword : (directive ++ space :: v).takeWhile (fun u => !Ipc.isSpace u) = directive :=
    takeWhile_entry v (fun u hu => by simp [hd.unit u hu]) (by decide)
  have hlead : leadingWord (directive ++ space :: v) = some directive := by
    simp only [leadingWord, hword]
    rw [if_neg (by simp [hd.ne_nil])]
  simp only [setsDirective, trim_entry hd hv, hlead, map_some, BEq.rfl, Bool.and_true, bne_iff_ne]
  exact head_entry hd v

end Entry

/-! ## The setter -/

section Setter

variable {l : Library} {directive v : Str}

theorem replaceDirective_eq {entry : Str} {ls : List Str} (h : ls.any (setsDirective l directive)) :
    replaceDirective l directive entry ls = (ls.takeWhile fun line => !setsDirective l directive line) ++
        entry :: (ls.dropWhile fun line => !setsDirective l directive line).filter fun line =>
          !setsDirective l directive line := by
  induction ls with
  | nil => simp at h
  | cons line ls ih =>
    rw [replaceDirective]
    split
    · rename_i hsets
      simp [hsets]
    · rename_i hsets
      have hlater : ls.any (setsDirective l directive) := by simpa [hsets] using h
      simp [hsets, ih hlater]

theorem replaceDirective_self {entry : Str} {P Q : List Str} (hentry : setsDirective l directive entry)
    (hP : ∀ line ∈ P, setsDirective l directive line = false)
    (hQ : ∀ line ∈ Q, setsDirective l directive line = false) :
    replaceDirective l directive entry (P ++ entry :: Q) = P ++ entry :: Q := by
  induction P with
  | nil =>
    rw [List.nil_append, replaceDirective, if_pos hentry,
      List.filter_eq_self.mpr fun line hline => by simp [hQ line hline]]
  | cons line P ih =>
    obtain ⟨hline, hP⟩ := List.forall_mem_cons.mp hP
    simp [replaceDirective, hline, ih hP]

theorem dropEmptyEnd_eq {P Q : List Str} {entry : Str} (hne : entry ≠ []) :
    dropEmptyEnd (P ++ entry :: Q) = P ++ entry :: Q.rdropWhile List.isEmpty := by
  have hkept : ((P ++ entry :: Q).reverse.dropWhile List.isEmpty).reverse = P ++ entry :: Q.rdropWhile List.isEmpty :=
    Ends.rdropWhile_append_cons (by cases entry <;> simp_all) P Q
  rw [dropEmptyEnd, hkept]
  simp

/-- The text of the setter: lines that it does not take, ours, and lines that it does not take. -/
theorem setDirective_eq (l : Library) (directive v content : Str) :
    ∃ P, (∀ line ∈ P, newline ∉ line ∧ setsDirective l directive line = false) ∧
      directiveLines l P = directiveLines l ((lines content).takeWhile fun line => !setsDirective l directive line) ∧
      setDirective l content directive v = joinLines (P ++ (directive ++ space :: v) ::
          (((lines content).dropWhile fun line => !setsDirective l directive line).filter fun line =>
            !setsDirective l directive line).rdropWhile List.isEmpty ++ [[]]) := by
  have hne : directive ++ space :: v ≠ [] := by simp
  cases content with
  | nil =>
    refine ⟨[], by simp, ?_, ?_⟩
    · simp [lines, directiveLines]
    · simp only [setDirective]
      simp [lines, dropEmptyEnd]
  | cons u content =>
    have hclean : ∀ line ∈ lines (u :: content), newline ∉ line := fun line hline =>
      newline_notMem_of_mem_lines hline
    by_cases hany : (lines (u :: content)).any (setsDirective l directive)
    · refine ⟨(lines (u :: content)).takeWhile fun line => !setsDirective l directive line,
        fun line hline => ?_, rfl, ?_⟩
      · exact ⟨hclean line ((List.takeWhile_prefix _).subset hline), by simpa using List.mem_takeWhile_imp hline⟩
      · simp only [setDirective, List.isEmpty_cons, Bool.false_eq_true, if_false, hany, if_true]
        rw [replaceDirective_eq hany, dropEmptyEnd_eq hne]
    · have hnone : ∀ line ∈ lines (u :: content), setsDirective l directive line = false := by simpa using hany
      have htake : (lines (u :: content)).takeWhile (fun line => !setsDirective l directive line) =
          lines (u :: content) := List.takeWhile_eq_self_iff.mpr fun line hline => by simp [hnone line hline]
      have hdrop : (lines (u :: content)).dropWhile (fun line => !setsDirective l directive line) = [] :=
        List.dropWhile_eq_nil_iff.mpr fun line hline => by simp [hnone line hline]
      rw [htake, hdrop]
      -- our line comes at the end, after a blank one
      refine ⟨if ((lines (u :: content)).getLast?.map isBlank).getD true then lines (u :: content)
        else lines (u :: content) ++ [[]], ?_, ?_, ?_⟩
      · intro line hline
        split at hline
        · exact ⟨hclean line hline, hnone line hline⟩
        · rcases List.mem_append.mp hline with hline | hline
          · exact ⟨hclean line hline, hnone line hline⟩
          · simp [List.mem_singleton.mp hline]
      · split
        · rfl
        · simp [directiveLines]
      · simp only [setDirective, List.isEmpty_cons, Bool.false_eq_true, if_false, hany]
        rw [dropEmptyEnd_eq hne]
        rfl

/-- The lines of that text. -/
theorem lines_setDirective (content : Str) (hd : IsDirective l directive) (hv : IsWritten v) :
    ∃ P Q, (∀ line ∈ P, setsDirective l directive line = false) ∧
      (∀ line ∈ Q, setsDirective l directive line = false) ∧ Q.rdropWhile List.isEmpty = Q ∧
      directiveLines l P = directiveLines l ((lines content).takeWhile fun line => !setsDirective l directive line) ∧
      directiveLines l Q = directiveLines l (((lines content).dropWhile fun line =>
        !setsDirective l directive line).filter fun line => !setsDirective l directive line) ∧
      lines (setDirective l content directive v) = P ++ (directive ++ space :: v) :: (Q ++ [[]]) := by
  obtain ⟨P, hP, hlead, heq⟩ := setDirective_eq l directive v content
  set R := ((lines content).dropWhile fun line => !setsDirective l directive line).filter fun line =>
    !setsDirective l directive line with hR
  have hmemR (line : Str) (hline : line ∈ R) : newline ∉ line ∧ setsDirective l directive line = false := by
    rw [hR, List.mem_filter] at hline
    exact ⟨newline_notMem_of_mem_lines (Ends.mem_of_mem_dropWhile hline.1), by simpa using hline.2⟩
  have hmem (line : Str) (hline : line ∈ R.rdropWhile List.isEmpty) := hmemR line (Ends.mem_of_mem_rdropWhile hline)
  have hentry : newline ∉ directive ++ space :: v := by
    have hspace : isSpace newline := by decide
    simp only [List.mem_append, List.mem_cons, not_or]
    refine ⟨fun h => ?_, by decide, fun h => ?_⟩
    · simp [(hd.unit _ h).1] at hspace
    · simp [(hv.unit _ h).1] at hspace
  refine ⟨P, R.rdropWhile List.isEmpty, fun line hline => (hP line hline).2, fun line hline => (hmem line hline).2,
    List.rdropWhile_idempotent _ _, hlead, ?_, ?_⟩
  · exact Ends.filter_rdropWhile (fun line hline => by cases line <;> simp_all) R
  · rw [heq, lines_joinLines (by simp)]
    · simp
    · intro line hline
      simp only [List.append_assoc, List.mem_append, List.mem_cons, List.cons_append] at hline
      rcases hline with hline | rfl | hline | hline
      · exact (hP line hline).1
      · exact hentry
      · exact (hmem line hline).1
      · simp_all

/-- Our line stands after the directive lines before it, and the setter takes none after it. -/
theorem directiveLines_setDirective (content : Str) (hd : IsDirective l directive) (hv : IsWritten v) :
    directiveLines l (lines (setDirective l content directive v)) =
      directiveLines l ((lines content).takeWhile fun line => !setsDirective l directive line) ++
        (directive ++ space :: v) :: directiveLines l (((lines content).dropWhile fun line =>
          !setsDirective l directive line).filter fun line => !setsDirective l directive line) := by
  obtain ⟨P, Q, -, -, -, hlead, hrest, hlines⟩ := lines_setDirective content hd hv
  rw [hlines, ← hlead, ← hrest]
  simp [directiveLines, directiveKey_entry hd hv]

theorem setDirective_setDirective (content : Str) (hd : IsDirective l directive) (hv : IsWritten v) :
    setDirective l (setDirective l content directive v) directive v = setDirective l content directive v := by
  obtain ⟨P, Q, hP, hQ, hend, -, -, hlines⟩ := lines_setDirective content hd hv
  have hentry : setsDirective l directive (directive ++ space :: v) := setsDirective_entry hd hv
  have hjoin : joinLines (lines (setDirective l content directive v)) = setDirective l content directive v :=
    List.intercalate_splitOn newline
  have hne : (setDirective l content directive v).isEmpty = false := by
    cases hset : setDirective l content directive v with
    | nil =>
      rw [hset] at hlines
      have hlength := congrArg List.length hlines
      simp only [lines, List.splitOn_nil, List.length_append, List.length_cons] at hlength
      omega
    | cons u s => rfl
  have hany : (P ++ (directive ++ space :: v) :: (Q ++ [[]])).any (setsDirective l directive) := by
    simp [hentry]
  have hQ' : ∀ line ∈ Q ++ [[]], setsDirective l directive line = false := by
    simpa [or_imp, forall_and] using hQ
  conv_lhs => rw [setDirective]
  simp only [hne, Bool.false_eq_true, if_false, hlines, hany, if_true]
  rw [replaceDirective_self hentry hP hQ', dropEmptyEnd_eq (by simp), List.rdropWhile_concat_pos _ _ _ rfl, hend,
    ← hjoin, hlines]
  simp

end Setter

/-! ## What sshd reads, of the lines that matter -/

section Scan

variable {l : Library} {directive v : Str} {ls : List Str}

theorem head?_scan (lower : Str) (ls : List Str) :
    (scan l lower ls).head? = (ls.find? (matters l lower)).bind fun line =>
      if directiveKey l line = some (text "match") then none else some (directiveValue line) := by
  induction ls with
  | nil => rfl
  | cons line ls ih =>
    rw [scan]
    cases hkey : directiveKey l line with
    | none => simp [matters, hkey, ih]
    | some key =>
      by_cases hmatch : key = text "match"
      · simp [matters, hkey, hmatch]
      · by_cases hlower : key = lower
        · have hmatters : matters l lower line := by simp [matters, hkey, hlower]
          subst hlower
          simp [hkey, hmatch, List.find?_cons_of_pos hmatters]
        · simp [matters, hkey, hmatch, hlower, ih]

theorem find?_directiveLines (lower : Str) (ls : List Str) :
    (directiveLines l ls).find? (matters l lower) = ls.find? (matters l lower) := by
  rw [directiveLines, List.find?_filter]
  refine congrArg (List.find? · ls) (funext fun line => ?_)
  cases hkey : directiveKey l line <;> simp [matters, hkey, beq_eq_decide]

/-- sshd reads the value first if our line is not hidden. -/
theorem definitions_setDirective_iff {current : Dropins} {file : Option Str} (hd : IsDirective l directive)
    (hv : IsWritten v) (hfile : linesOf file = lines (setDirective l (current.primary.getD []) directive v)) :
    (definitions l file directive).head? = some v ↔ Unhidden l current directive v := by
  have hkey := directiveKey_entry hd hv
  have hmatters : matters l (l.lower directive) (directive ++ space :: v) := by simp [matters, hkey]
  rw [definitions, head?_scan, hfile, ← find?_directiveLines, directiveLines_setDirective _ hd hv, List.find?_append,
    List.find?_cons_of_pos hmatters, find?_directiveLines, Unhidden, leadingLines, linesOf]
  cases ((lines (current.primary.getD [])).takeWhile _).find? _ with
  | none => simp [hkey, hd.ne_match, directiveValue_entry hd hv]
  | some line => simp

end Scan

/-! ## The revert -/

section Revert

variable {l : Library} {directive : Str}

theorem isBlank_of_isSome (line : Str) (h : (directiveKey l line).isSome) : isBlank line = false := by
  rw [isBlank]
  cases htrim : trim line with
  | nil => simp [directiveKey, htrim] at h
  | cons u t => rfl

theorem otherLines_eq (ls : List Str) :
    otherLines l directive ls = directiveLines l (ls.filter fun line => !isLineOf l directive line) := by
  rw [otherLines, directiveLines, directiveLines, List.filter_filter, List.filter_filter]
  exact congrArg (List.filter · ls) (funext fun line => Bool.and_comm _ _)

theorem otherLines_of_none {ls : List Str} (h : ∀ line ∈ ls, isLineOf l directive line = false) :
    otherLines l directive ls = directiveLines l ls := by
  rw [otherLines_eq, List.filter_eq_self.mpr fun line hline => by simp [h line hline]]

theorem directiveLines_dropBlank (ls : List Str) :
    directiveLines l (dropBlankEnd (ls.dropWhile isBlank)) = directiveLines l ls := by
  have hend := Ends.filter_rdropWhile (isBlank_of_isSome (l := l)) (ls.dropWhile isBlank)
  exact hend.trans (Ends.filter_dropWhile isBlank_of_isSome ls)

/-- The three plans of a revert. -/
theorem revertDropin_cases (l : Library) (directive : Str) (file : Option Str) :
    (revertDropin l file directive = file ∧ ∀ line ∈ linesOf file, isLineOf l directive line = false) ∨
    (∃ line ∈ linesOf file, isLineOf l directive line) ∧
      ((revertDropin l file directive = none ∧ otherLines l directive (linesOf file) = []) ∨
      ∃ content, revertDropin l file directive = some content ∧ otherLines l directive (linesOf file) ≠ [] ∧
        lines content =
          dropBlankEnd (((linesOf file).filter fun line => !isLineOf l directive line).dropWhile isBlank) ++ [[]]) := by
  have hkept : (linesOf file).filter (directiveKey l · != some (l.lower directive)) =
      (linesOf file).filter fun line => !isLineOf l directive line := rfl
  by_cases hany : (linesOf file).any (isLineOf l directive)
  · right
    refine ⟨List.any_eq_true.mp hany, ?_⟩
    have hnot : (!(lines (file.getD [])).any (directiveKey l · == some (l.lower directive))) = false := by
      rw [Bool.not_eq_false']
      exact hany
    by_cases hempty : otherLines l directive (linesOf file) = []
    · left
      refine ⟨?_, hempty⟩
      have hremove : ((linesOf file).filter fun line => !isLineOf l directive line).any
          (fun line => (directiveKey l line).isSome) = false := by
        rw [otherLines_eq, directiveLines, List.filter_eq_nil_iff] at hempty
        simpa using hempty
      simp only [revertDropin, planSshRevert, hnot]
      rw [← linesOf, hkept, hremove]
      rfl
    · right
      have hwrite : ((linesOf file).filter fun line => !isLineOf l directive line).any
          (fun line => (directiveKey l line).isSome) := by
        rw [otherLines_eq, directiveLines] at hempty
        obtain ⟨line, hline⟩ := List.exists_mem_of_ne_nil _ hempty
        exact List.any_eq_true.mpr ⟨line, List.mem_filter.mp hline⟩
      refine ⟨joinLines (dropBlankEnd (((linesOf file).filter fun line =>
        !isLineOf l directive line).dropWhile isBlank)) ++ [newline], ?_, hempty, ?_⟩
      · simp only [revertDropin, planSshRevert, hnot]
        rw [← linesOf, hkept, hwrite]
        rfl
      · have hne : dropBlankEnd
            (((linesOf file).filter fun line => !isLineOf l directive line).dropWhile isBlank) ≠ [] := by
          intro hnil
          rw [otherLines_eq, ← directiveLines_dropBlank, hnil] at hempty
          exact hempty rfl
        rw [joinLines_concat hne, lines_joinLines (by simp)]
        intro line hline
        rcases List.mem_append.mp hline with hline | hline
        · have hmem := Ends.mem_of_mem_dropWhile (Ends.mem_of_mem_rdropWhile hline)
          exact newline_notMem_of_mem_lines (List.mem_filter.mp hmem).1
        · simp_all
  · left
    have hnone : ∀ line ∈ linesOf file, isLineOf l directive line = false := by simpa using hany
    refine ⟨?_, hnone⟩
    have hnoop : (!(lines (file.getD [])).any (directiveKey l · == some (l.lower directive))) := by
      rw [Bool.not_eq_true', ← Bool.not_eq_true]
      exact hany
    simp only [revertDropin, planSshRevert, hnoop, if_true]

/-- The other directive lines remain, and no line of the directive. -/
theorem directiveLines_revertDropin (l : Library) (directive : Str) (file : Option Str) :
    directiveLines l (linesOf (revertDropin l file directive)) = otherLines l directive (linesOf file) := by
  rcases revertDropin_cases l directive file with
    ⟨hsame, hnone⟩ | ⟨-, ⟨hremoved, hempty⟩ | ⟨content, hwritten, -, hlines⟩⟩
  · rw [hsame, otherLines_of_none hnone]
  · rw [hremoved, hempty]
    rfl
  · rw [hwritten]
    change directiveLines l (lines content) = _
    rw [hlines, otherLines_eq, directiveLines, List.filter_append]
    change directiveLines l _ ++ _ = _
    rw [directiveLines_dropBlank]
    simp

theorem isLineOf_revertDropin (l : Library) (directive : Str) (file : Option Str) :
    ∀ line ∈ linesOf (revertDropin l file directive), isLineOf l directive line = false := by
  intro line hline
  by_contra hset
  rw [Bool.not_eq_false] at hset
  have hmem : line ∈ directiveLines l (linesOf (revertDropin l file directive)) :=
    List.mem_filter.mpr ⟨hline, isSome_directiveKey_of_isLineOf hset⟩
  rw [directiveLines_revertDropin, otherLines, List.mem_filter] at hmem
  simp [hset] at hmem

theorem otherLines_revertDropin (l : Library) (directive : Str) (file : Option Str) :
    otherLines l directive (linesOf (revertDropin l file directive)) = otherLines l directive (linesOf file) := by
  rw [otherLines_of_none (isLineOf_revertDropin l directive file), directiveLines_revertDropin]

theorem revertDropin_of_none {file : Option Str} (h : ∀ line ∈ linesOf file, isLineOf l directive line = false) :
    revertDropin l file directive = file := by
  rcases revertDropin_cases l directive file with ⟨hsame, -⟩ | ⟨⟨line, hline, hset⟩, -⟩
  · exact hsame
  · simp [h line hline] at hset

theorem removedIfEmpty_revertDropin (l : Library) (directive : Str) (file : Option Str) :
    RemovedIfEmpty l file (revertDropin l file directive) := by
  have hleft := directiveLines_revertDropin l directive file
  rcases revertDropin_cases l directive file with
    ⟨hsame, hnone⟩ | ⟨⟨line, hline, hset⟩, ⟨hremoved, hempty⟩ | ⟨content, hwritten, hothers, -⟩⟩
  · cases file <;> simp [RemovedIfEmpty, hsame]
  · have hfile : file.isSome := by
      cases file with
      | none =>
        simp only [linesOf, lines, getD_none, List.splitOn_nil, List.mem_singleton] at hline
        simp [hline, isLineOf] at hset
      | some content => rfl
    have hmem : line ∈ directiveLines l (linesOf file) :=
      List.mem_filter.mpr ⟨hline, isSome_directiveKey_of_isLineOf hset⟩
    rw [RemovedIfEmpty, hleft]
    simp [hfile, hremoved, hempty, List.ne_nil_of_mem hmem]
  · rw [RemovedIfEmpty, hleft]
    simp [hwritten, hothers]

end Revert

/-! ## The plan -/

section Plan

variable {l : Library} {directive v : Str}

def setDropin (l : Library) (file : Option Str) (directive v : Str) : Option Str :=
  let next := setDirective l (file.getD []) directive v
  if next = file.getD [] then file else some next

theorem getD_setDropin (file : Option Str) :
    (setDropin l file directive v).getD [] = setDirective l (file.getD []) directive v := by
  rw [setDropin]
  split
  · rename_i hsame
    exact hsame.symm
  · rfl

theorem directiveLines_setDropin (hd : IsDirective l directive) (hv : IsWritten v) (file : Option Str) :
    directiveLines l (linesOf (setDropin l file directive v)) =
      directiveLines l ((linesOf file).takeWhile fun line => !setsDirective l directive line) ++
        (directive ++ space :: v) :: directiveLines l (((linesOf file).dropWhile fun line =>
          !setsDirective l directive line).filter fun line => !setsDirective l directive line) := by
  rw [linesOf, getD_setDropin, directiveLines_setDirective _ hd hv, linesOf]

theorem otherLines_setDropin (hlower : ∀ s, equals ∈ l.lower s ↔ equals ∈ s) (hd : IsDirective l directive)
    (hv : IsWritten v) (file : Option Str) :
    otherLines l directive (linesOf (setDropin l file directive v)) = otherLines l directive (linesOf file) := by
  -- the lines that the setter takes are of the directive
  have hdropped (ls : List Str) : (directiveLines l (ls.filter fun line => !setsDirective l directive line)).filter
      (fun line => !isLineOf l directive line) =
        (directiveLines l ls).filter fun line => !isLineOf l directive line := by
    simp only [directiveLines, List.filter_filter]
    refine congrArg (List.filter · ls) (funext fun line => ?_)
    cases hset : setsDirective l directive line with
    | false => simp
    | true => simp [isLineOf_of_setsDirective hlower hd hset]
  have hentry : isLineOf l directive (directive ++ space :: v) := by
    simp [isLineOf, directiveKey_entry hd hv]
  have hcut := List.takeWhile_append_dropWhile (p := fun line => !setsDirective l directive line) (l := linesOf file)
  rw [otherLines, directiveLines_setDropin hd hv, List.filter_append, List.filter_cons_of_neg (by simp [hentry]),
    hdropped, ← List.filter_append, directiveLines, directiveLines, ← List.filter_append, hcut]
  rfl

theorem removedIfEmpty_setDropin (hd : IsDirective l directive) (hv : IsWritten v) (file : Option Str) :
    RemovedIfEmpty l file (setDropin l file directive v) := by
  have hne : directiveLines l (linesOf (setDropin l file directive v)) ≠ [] := by
    simp [directiveLines_setDropin hd hv]
  have hkept : ¬ (file.isSome ∧ setDropin l file directive v = none) := by
    rintro ⟨hfile, hnone⟩
    rw [setDropin] at hnone
    split at hnone
    · simp [hnone] at hfile
    · cases hnone
  simp only [RemovedIfEmpty, hne, hkept, and_false]

theorem setDropin_setDropin (hd : IsDirective l directive) (hv : IsWritten v) (file : Option Str) :
    setDropin l (setDropin l file directive v) directive v = setDropin l file directive v := by
  conv_lhs => rw [setDropin]
  simp only [getD_setDropin, setDirective_setDirective _ hd hv, if_true]

theorem planned_none (current : Dropins) :
    Planned l current directive none (planSshDropinChanges l current directive none) where
  effective v hv := by cases hv
  cleared _ := isLineOf_revertDropin l directive current.primary
  legacy := isLineOf_revertDropin l directive current.legacy
  others := ⟨otherLines_revertDropin l directive current.primary, otherLines_revertDropin l directive current.legacy⟩
  removed :=
    ⟨removedIfEmpty_revertDropin l directive current.primary, removedIfEmpty_revertDropin l directive current.legacy⟩
  again := by
    simp only [planSshDropinChanges, revertDropin_of_none (isLineOf_revertDropin l directive _)]

/-- A change puts the value into effect, and does all else that it is to do, exactly if our line is not hidden. -/
theorem planned_iff_unhidden (hlower : ∀ s, equals ∈ l.lower s ↔ equals ∈ s) (hd : IsDirective l directive)
    (current : Dropins) (value : Option Str) (hvalue : ∀ v ∈ value, IsWritten v) :
    Planned l current directive value (planSshDropinChanges l current directive value) ↔
      ∀ v ∈ value, Unhidden l current directive v := by
  cases value with
  | none => simp [planned_none]
  | some v =>
    have hv := hvalue v rfl
    have hplan : planSshDropinChanges l current directive (some v) =
        ⟨setDropin l current.primary directive v, revertDropin l current.legacy directive⟩ := rfl
    have hfirst : (definitions l (setDropin l current.primary directive v) directive).head? = some v ↔
        Unhidden l current directive v :=
      definitions_setDirective_iff hd hv (by rw [linesOf, getD_setDropin])
    rw [hplan]
    constructor
    · rintro hplanned _ ⟨⟩
      exact hfirst.mp (hplanned.effective v rfl)
    · intro hunhidden
      exact
        { effective := by
            rintro _ ⟨⟩
            exact hfirst.mpr (hunhidden v rfl)
          cleared := by simp
          legacy := isLineOf_revertDropin l directive current.legacy
          others := ⟨otherLines_setDropin hlower hd hv current.primary,
            otherLines_revertDropin l directive current.legacy⟩
          removed := ⟨removedIfEmpty_setDropin hd hv current.primary,
            removedIfEmpty_revertDropin l directive current.legacy⟩
          again := by
            change Dropins.mk (setDropin l (setDropin l current.primary directive v) directive v)
              (revertDropin l (revertDropin l current.legacy directive) directive) = _
            rw [setDropin_setDropin hd hv, revertDropin_of_none (isLineOf_revertDropin l directive current.legacy)] }

end Plan

/-! ## A drop-in that someone else edited -/

def passwordAuthentication : Str := text "PasswordAuthentication"

theorem isDirective_passwordAuthentication : IsDirective asciiLibrary passwordAuthentication where
  ne_nil := by decide
  unit u hu := by
    have hall : passwordAuthentication.all (fun u => !Ipc.isSpace u && u != equals && u != hash) := by
      decide
    simpa [and_assoc] using List.all_eq_true.mp hall u hu
  ne_match := by decide

theorem equals_mem_asciiLower (s : Str) : equals ∈ asciiLibrary.lower s ↔ equals ∈ s := by
  have hunit (u : UInt16) : (if isUpper u then u + 0x20 else u) = equals ↔ u = equals := by
    split
    · rename_i hupper
      refine iff_of_false (fun h => ?_) fun h => ?_
      · have hu : u = equals - 0x20 := by rw [← h, UInt16.add_sub_cancel]
        exact absurd (hu ▸ hupper) (by decide)
      · exact absurd (h ▸ hupper) (by decide)
    · rfl
  simp [asciiLibrary, hunit]

/-- In another case and twice, before a `Match`. -/
def duplicates : Dropins := ⟨some (text "passwordauthentication yes\nPasswordAuthentication yes\nMatch User x\n"), none⟩

theorem planned_duplicates : Planned asciiLibrary duplicates passwordAuthentication (some (text "no"))
      (planSshDropinChanges asciiLibrary duplicates passwordAuthentication (some (text "no"))) := by
  refine (planned_iff_unhidden equals_mem_asciiLower isDirective_passwordAuthentication _ _ ?_).mpr ?_
  · rintro _ ⟨⟩
    refine ⟨by decide, fun u hu => ?_⟩
    have hall : (text "no").all (fun u => !Ipc.isSpace u && u != equals && u != hash && u != quote) := by
      decide
    simpa [and_assoc] using List.all_eq_true.mp hall u hu
  · rintro _ ⟨⟩ line hline
    have hnone : (leadingLines asciiLibrary duplicates passwordAuthentication).find?
        (matters asciiLibrary (asciiLibrary.lower passwordAuthentication)) = none := by decide
    simp [hnone] at hline

/-- With an equals sign, and after a `Match`. -/
def withEquals : Dropins := ⟨some (text "PasswordAuthentication=yes\n"), none⟩

def withMatch : Dropins := ⟨some (text "Match User x\n  PasswordAuthentication yes\n"), none⟩

/-- The other value is read first, or none. -/
theorem not_planned_hidden : ¬ Planned asciiLibrary withEquals passwordAuthentication (some (text "no"))
        (planSshDropinChanges asciiLibrary withEquals passwordAuthentication (some (text "no"))) ∧
      ¬ Planned asciiLibrary withMatch passwordAuthentication (some (text "no"))
        (planSshDropinChanges asciiLibrary withMatch passwordAuthentication (some (text "no"))) := by
  constructor
  · intro hplanned
    exact absurd (hplanned.effective _ rfl) (by decide)
  · intro hplanned
    exact absurd (hplanned.effective _ rfl) (by decide)

end Hardening
