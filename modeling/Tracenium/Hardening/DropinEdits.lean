-- SUMMARY: The editors of our files of sysctl, kernel modules and audit rules against what is read from the files.
import Tracenium.Hardening.Readers

open Utf16 List Option UInt16

namespace Hardening

open Ipc LineEdits

/-! ## Units -/

/-- What values of keys are made of: `[A-Za-z0-9_.:-]` and slashes. -/
def isPlainUnit (u : UInt16) : Bool := isNameUnit u || oneOf ".:/" u

theorem toNat_lt_of_isPlainUnit {u : UInt16} (h : isPlainUnit u) : u.toNat < 0x80 := by
  rcases Bool.or_eq_true_iff.mp h with h | h
  · simp only [isNameUnit, isWord, isUpper, isLower, Json.isDigit, Bool.or_eq_true, Bool.and_eq_true, decide_eq_true_eq,
      beq_iff_eq, UInt16.le_iff_toNat_le, ← UInt16.toNat_inj, underscore, dash, UInt16.toNat_ofNat] at h
    omega
  · have hall : (text ".:/").all (fun u => decide (u.toNat < 0x80)) := by decide
    simpa using List.all_eq_true.mp hall u (List.contains_iff_mem.mp h)

/-- A plain unit is neither a space nor a comment, a quote, a bracket or an equals sign. -/
theorem plain_unit {u : UInt16} (h : isPlainUnit u) :
    isEditedUnit u ∧ isLineEnd u = false ∧ isQuote u = false ∧ u ≠ bracket ∧ u ≠ semicolon := by
  have hall : ∀ n < 0x80, isPlainUnit (UInt16.ofNat n) →
      isEditedUnit (ofNat n) ∧ isLineEnd (ofNat n) = false ∧ isQuote (ofNat n) = false ∧
        ofNat n ≠ bracket ∧ ofNat n ≠ semicolon := by
    decide
  have hu := hall u.toNat (toNat_lt_of_isPlainUnit h)
  rw [UInt16.ofNat_toNat] at hu
  exact hu h

theorem isSpace_of_isPlainUnit {u : UInt16} (h : isPlainUnit u) : isSpace u = false := by
  have hedited := (plain_unit h).1
  simp only [isEditedUnit, isReadUnit, Bool.and_eq_true, Bool.not_eq_true'] at hedited
  exact hedited.1.2

theorem ne_newline_of_isPlainUnit {u : UInt16} (h : isPlainUnit u) : u ≠ newline := by
  rintro rfl
  exact absurd (isSpace_of_isPlainUnit h) (by decide)

/-! ## Texts of lines -/

section Texts

variable {ls kept : List Str} {header line : Str}

theorem newline_notMem_filter (file : Option Str) (p : Str → Bool) : ∀ line ∈ (linesOf file).filter p, newline ∉ line :=
  fun _ hline => newline_notMem_of_mem_lines (mem_of_mem_filter hline)

/-- A text that ends with a newline has an empty line at its end. -/
theorem lines_joinLines_newline (hne : ls ≠ []) (hclean : ∀ line ∈ ls, newline ∉ line) :
    lines (joinLines ls ++ [newline]) = ls ++ [[]] := by
  rw [joinLines_concat hne]
  refine lines_joinLines (by simp) fun line hline => ?_
  rcases mem_append.mp hline with hline | hline
  · exact hclean line hline
  · simp [mem_singleton.mp hline]

def settleText (header : Str) (kept added : List Str) : Str :=
  joinLines (settle isBlank (some header) kept added) ++ [newline]

theorem lines_settleText {added : List Str} (hheader : newline ∉ header) (hkept : ∀ line ∈ kept, newline ∉ line)
    (hadded : ∀ line ∈ added, newline ∉ line) :
    lines (settleText header kept added) = settle isBlank (some header) kept added ++ [[]] := by
  refine lines_joinLines_newline ?_ fun line hline => ?_
  · rw [settle]
    split
    · simp
    · rename_i hne
      simp only [List.isEmpty_iff] at hne
      simp [hne]
  · rw [settle, mem_append] at hline
    rcases hline with hline | hline
    · split at hline
      · obtain rfl : line = header := by simpa using hline
        exact hheader
      · exact hkept line (Ends.mem_of_mem_rdropWhile hline)
    · exact hadded line hline

end Texts

/-! ## Editors that settle -/

/-- What a reader and an editor of a file have in common: lines that are read for the key are lines that are dropped,
blank lines and the header are not read, and what is added is read for the key. -/
structure Settles {β : Type*} (read : Str → Option β) (drops : Str → Bool) (isOurs : β → Bool) (header : Str)
    (added : List Str) : Prop where
  agree : Agree read drops isOurs
  blank : ∀ line, isBlank line = true → read line = none
  header_read : read header = none
  header_kept : isBlank header = false ∧ drops header = false
  header_clean : newline ∉ header
  added_dropped : ∀ line ∈ added, drops line = true
  added_clean : ∀ line ∈ added, newline ∉ line
  added_ours : ∀ e ∈ added.filterMap read, isOurs e = true

section Settles

variable {β : Type*} {read : Str → Option β} {drops : Str → Bool} {isOurs : β → Bool} {header : Str}
  {added : List Str}

def editText (header : Str) (drops : Str → Bool) (added : List Str) (file : Option Str) : Str :=
  settleText header ((linesOf file).filter fun line => !drops line) added

theorem Settles.linesOf_editText (h : Settles read drops isOurs header added) (file : Option Str) :
    linesOf (some (editText header drops added file)) =
      settle isBlank (some header) ((linesOf file).filter fun line => !drops line) added ++ [[]] :=
  lines_settleText h.header_clean (newline_notMem_filter file _) h.added_clean

/-- The entries after the edit. -/
theorem Settles.entries (h : Settles read drops isOurs header added) (file : Option Str) :
    let after := (linesOf (some (editText header drops added file))).filterMap read
    after.filter isOurs = added.filterMap read ∧
      (after.filter fun e => !isOurs e) = ((linesOf file).filterMap read).filter fun e => !isOurs e := by
  have hlast : read [] = none := h.blank [] rfl
  have hentries := entries_settle h.agree h.blank (some header)
    (fun line hline => mem_some_iff.mp hline ▸ h.header_read) h.added_ours (linesOf file)
  dsimp only at hentries ⊢
  rw [h.linesOf_editText, filterMap_append, filterMap_cons_none hlast, filterMap_nil, append_nil]
  exact hentries

theorem Settles.again (h : Settles read drops isOurs header added) (file : Option Str) :
    editText header drops added (some (editText header drops added file)) = editText header drops added file := by
  rw [editText, h.linesOf_editText, settleText]
  refine congrArg (fun ls => joinLines ls ++ [newline]) ?_
  exact settle_settle rfl (fun line hline => mem_some_iff.mp hline ▸ h.header_kept) h.added_dropped _

end Settles

/-! ## Active lines -/

section Active

variable {β : Type*} {f : Str → Option β}

def isActive (line : Str) : Bool := !line.isEmpty && line.head? != some hash && line.head? != some semicolon

def readActive (f : Str → Option β) (raw : Str) : Option β := if isActive (trim raw) then f (trim raw) else none

theorem filterMap_activeLines (f : Str → Option β) (file : Option Str) :
    (activeLines file).filterMap f = (linesOf file).filterMap (readActive f) := by
  have h (ls : List Str) : ((ls.map trim).filter isActive).filterMap f = ls.filterMap (readActive f) := by
    induction ls with
    | nil => rfl
    | cons raw ls ih =>
      rw [map_cons, filter_cons]
      cases hactive : isActive (trim raw) with
      | true => cases hf : f (trim raw) <;> simp [readActive, hactive, hf, ih]
      | false => simp [readActive, hactive, ih]
  exact h _

theorem activeLines_eq (file : Option Str) : activeLines file = (linesOf file).filterMap (readActive some) := by
  rw [← filterMap_activeLines, filterMap_some]

theorem readActive_blank (line : Str) (h : isBlank line) : readActive f line = none := by
  rw [readActive, if_neg]
  simp [isActive, isEmpty_iff.mp h]

theorem readActive_eq_some {raw : Str} {e : β} (h : readActive f raw = some e) :
    isActive (trim raw) ∧ f (trim raw) = some e := by
  rw [readActive] at h
  split at h
  · exact ⟨‹_›, h⟩
  · cases h

theorem readActive_of_trimmed {raw : Str} (htrim : trim raw = raw) (hactive : isActive raw) :
    readActive f raw = f raw := by
  rw [readActive, htrim, if_pos hactive]

end Active

/-! ## sysctl -/

section Sysctl

variable {unit : UInt16 → Bool} {s name rest key : Str}

/-- No space and no equals sign. -/
def Separating (unit : UInt16 → Bool) : Prop := ∀ u, unit u = true → isSpace u = false ∧ u ≠ equals

theorem separating_isReadUnit : Separating isReadUnit := by
  intro u hu
  simpa [isReadUnit, and_comm] using hu

theorem separating_isEditedUnit : Separating isEditedUnit := by
  intro u hu
  simp only [isEditedUnit, Bool.and_eq_true] at hu
  exact separating_isReadUnit u hu.1

/-- A name, spaces and an equals sign. -/
theorem assigned_eq_some_iff (hunit : Separating unit) : assigned unit s = some (name, rest) ↔
    name ≠ [] ∧ (∀ u ∈ name, unit u) ∧
      ∃ spaces, (∀ u ∈ spaces, isSpace u) ∧ s = name ++ spaces ++ equals :: rest := by
  constructor
  · intro h
    rw [assigned] at h
    split at h
    · cases h
    · rename_i hname
      split at h
      · rename_i u rest' hrest
        split at h
        · rename_i hu
          obtain ⟨rfl, rfl⟩ := Prod.mk.inj (some.inj h)
          refine ⟨by simpa using hname, fun u hu => mem_takeWhile_imp hu,
            (s.dropWhile unit).takeWhile isSpace, fun u hu => mem_takeWhile_imp hu, ?_⟩
          rw [← hu, ← hrest, append_assoc, takeWhile_append_dropWhile, takeWhile_append_dropWhile]
        · cases h
      · cases h
  · rintro ⟨hname, hall, spaces, hspaces, rfl⟩
    have hstop : unit equals = false := by
      by_contra hequals
      exact (hunit equals (by simpa using hequals)).2 rfl
    have hsep : ∀ u ∈ spaces, unit u = false := by
      intro u hu
      by_contra hunit'
      have hspace := (hunit u (by simpa using hunit')).1
      simp [hspaces u hu] at hspace
    have hhead : (spaces ++ equals :: rest).takeWhile unit = [] := by
      cases spaces with
      | nil => simp [hstop]
      | cons u spaces => simp [hsep u (mem_cons_self ..)]
    have hdrop : (spaces ++ equals :: rest).dropWhile unit = spaces ++ equals :: rest := by
      cases spaces with
      | nil => simp [hstop]
      | cons u spaces => simp [hsep u (mem_cons_self ..)]
    have htake : (name ++ spaces ++ equals :: rest).takeWhile unit = name := by
      rw [append_assoc, takeWhile_append_of_pos hall, hhead, append_nil]
    have hrest : ((name ++ spaces ++ equals :: rest).dropWhile unit).dropWhile isSpace = equals :: rest := by
      rw [append_assoc, dropWhile_append_of_pos hall, hdrop, dropWhile_append_of_pos hspaces]
      exact dropWhile_cons_of_neg (by decide)
    rw [assigned, htake, if_neg (by simpa using hname), hrest]
    exact if_pos rfl

def undash (s : Str) : Str := if s.head? = some dash then s.tail else s

/-- A name that does not start with a dash is what comes after one. -/
theorem dashAssigned_eq_some_iff (hunit : Separating unit) (hname : name.head? ≠ some dash) :
    dashAssigned unit s = some (name, rest) ↔ assigned unit (undash s) = some (name, rest) := by
  cases s with
  | nil => rfl
  | cons u s =>
    rw [dashAssigned, undash]
    by_cases hu : u = dash
    · rw [if_pos hu, if_pos (by simp [hu])]
      have hself : assigned unit (u :: s) ≠ some (name, rest) := by
        intro h
        obtain ⟨hne, -, spaces, -, heq⟩ := (assigned_eq_some_iff hunit).mp h
        cases name with
        | nil => exact hne rfl
        | cons v name => exact hname (by simp [← hu, (cons.inj heq).1])
      cases h : assigned unit s with
      | none => simpa [tail_cons, h] using hself
      | some e => simp [h]
    · rw [if_neg hu, if_neg (by simp [hu])]

/-- Spaces at the end are behind the equals sign. -/
theorem assigned_append_iff (hunit : Separating unit) {spaces : Str} (hspaces : ∀ u ∈ spaces, isSpace u) :
    (∃ rest, assigned unit (s ++ spaces) = some (name, rest)) ↔ ∃ rest, assigned unit s = some (name, rest) := by
  simp only [assigned_eq_some_iff hunit]
  constructor
  · rintro ⟨rest, hne, hall, between, hbetween, heq⟩
    have hequals : equals ∉ spaces := fun hmem => absurd (hspaces _ hmem) (by decide)
    rcases append_eq_append_iff.mp heq with ⟨more, -, hmore⟩ | ⟨more, hmore, heq⟩
    · exact absurd (by simp [hmore]) hequals
    · cases more with
      | nil =>
        obtain rfl : equals :: rest = spaces := heq
        exact absurd mem_cons_self hequals
      | cons u more =>
        obtain ⟨rfl, -⟩ := cons.inj heq
        exact ⟨more, hne, hall, between, hbetween, hmore⟩
  · rintro ⟨rest, hne, hall, between, hbetween, rfl⟩
    exact ⟨rest ++ spaces, hne, hall, between, hbetween, by simp⟩

/-- The key of a parameter: names of letters, digits, lines and dashes, with dots between them. -/
structure IsParameter (key : Str) : Prop where
  ne_nil : key ≠ []
  head : key.head? ≠ some dash
  unit : ∀ u ∈ key, isPlainUnit u = true ∧ u ≠ slash

theorem isParameter_of_isSysctlKey (h : isSysctlKey key) : IsParameter key := by
  have hkey : intercalate [dot] (key.splitOn dot) = key := intercalate_splitOn dot
  rw [isSysctlKey] at h
  split at h
  · rename_i first rest hsplit
    simp only [Bool.and_eq_true, isRuns, Bool.not_eq_true', List.isEmpty_eq_false_iff, List.all_eq_true] at h
    obtain ⟨⟨⟨hne, hfirst⟩, -⟩, hrest⟩ := h
    rw [hsplit] at hkey
    have hhead : key.head? = first.head? := by
      rw [← hkey]
      exact head?_intercalate hne
    obtain ⟨v, first, rfl⟩ := exists_cons_of_ne_nil hne
    have hname (u : UInt16) (hu : isNameUnit u) : isPlainUnit u ∧ u ≠ slash := by
      refine ⟨by simp [isPlainUnit, hu], ?_⟩
      rintro rfl
      exact absurd hu (by decide)
    refine ⟨?_, ?_, fun u hu => ?_⟩
    · rintro rfl
      simp at hhead
    · have hv := hfirst v List.mem_cons_self
      rw [hhead, head?_cons, Ne, some.injEq]
      rintro rfl
      exact absurd hv (by decide)
    · rw [← hkey] at hu
      rcases mem_intercalate hu with rfl | ⟨piece, hpiece, hu⟩
      · decide
      · rcases mem_cons.mp hpiece with rfl | hpiece
        · exact hname u (by simp [isNameUnit, hfirst u hu])
        · exact hname u ((hrest piece hpiece).2 u hu)
  · cases h

/-- A name that is written for the key, with slashes for some of its dots. -/
theorem name_of_dotted (hkey : IsParameter key) (h : dotted name = key) :
    name.head? ≠ some dash ∧ ∀ u ∈ name, isEditedUnit u := by
  subst h
  constructor
  · intro hhead
    refine hkey.head ?_
    rw [dotted, head?_map, hhead]
    rfl
  · intro u hu
    by_cases hslash : u = slash
    · rw [hslash]
      decide
    · have hmem : u ∈ dotted name := mem_map.mpr ⟨u, hu, if_neg hslash⟩
      exact (plain_unit (hkey.unit u hmem).1).1

/-- A trimmed line, and the spaces after it. -/
theorem dropWhile_eq_trim_append (line : Str) : ∃ spaces, (∀ u ∈ spaces, isSpace u) ∧
    line.dropWhile isSpace = trim line ++ spaces ∧
      undash (line.dropWhile isSpace) = undash (trim line) ++ spaces := by
  obtain ⟨spaces, hspaces, hsplit⟩ : ∃ spaces, (∀ u ∈ spaces, isSpace u) ∧
      trim line ++ spaces = line.dropWhile isSpace :=
    ⟨_, fun u hu => mem_rtakeWhile_imp hu, rdropWhile_append_rtakeWhile⟩
  refine ⟨spaces, hspaces, hsplit.symm, ?_⟩
  cases hline : trim line with
  | nil =>
    rw [hline, nil_append] at hsplit
    have hnil : spaces = [] := by
      by_contra hne
      obtain ⟨u, rest, rfl⟩ := exists_cons_of_ne_nil hne
      have hhead := head?_dropWhile_not isSpace line
      rw [← hsplit, head?_cons] at hhead
      simp [hspaces u mem_cons_self] at hhead
    rw [← hsplit, hnil]
    rfl
  | cons u rest =>
    rw [← hsplit, hline, undash, undash]
    by_cases hu : u = dash <;> simp [hu]

/-- A line that is read for a parameter is one that the editor takes for a line of the parameter. -/
theorem agree_sysctl (hkey : IsParameter key) :
    Agree (readActive sysctlEntry) (fun l => sysctlLineKey l == some key) (fun e => e.1 == key) := by
  intro line e hread
  obtain ⟨-, hentry⟩ := readActive_eq_some hread
  obtain ⟨⟨name, rest⟩, hname, hvalue⟩ := bind_eq_some_iff.mp hentry
  dsimp only at hvalue
  split at hvalue
  · cases hvalue
  obtain rfl := some.inj hvalue
  obtain ⟨spaces, hspaces, hline, hundash⟩ := dropWhile_eq_trim_append line
  rw [Bool.eq_iff_iff, beq_iff_eq, beq_iff_eq, sysctlLineKey, map_eq_some_iff]
  constructor
  · intro hdotted
    obtain ⟨hdash, hunits⟩ := name_of_dotted hkey hdotted
    rw [dashAssigned_eq_some_iff separating_isReadUnit hdash, assigned_eq_some_iff separating_isReadUnit] at hname
    obtain ⟨hne, -, between, hbetween, heq⟩ := hname
    have hassigned : assigned isEditedUnit (undash (trim line)) = some (name, rest) :=
      (assigned_eq_some_iff separating_isEditedUnit).mpr ⟨hne, hunits, between, hbetween, heq⟩
    obtain ⟨rest', hrest'⟩ := (assigned_append_iff separating_isEditedUnit hspaces).mpr ⟨rest, hassigned⟩
    exact ⟨(name, rest'), (dashAssigned_eq_some_iff separating_isEditedUnit hdash).mpr (hundash ▸ hrest'), hdotted⟩
  · rintro ⟨⟨name', rest'⟩, hname', hdotted⟩
    obtain ⟨hdash, hunits⟩ := name_of_dotted hkey hdotted
    rw [dashAssigned_eq_some_iff separating_isEditedUnit hdash, hundash] at hname'
    obtain ⟨rest'', hassigned⟩ := (assigned_append_iff separating_isEditedUnit hspaces).mp ⟨rest', hname'⟩
    obtain ⟨hne, hall, between, hbetween, heq⟩ := (assigned_eq_some_iff separating_isEditedUnit).mp hassigned
    have hread : assigned isReadUnit (undash (trim line)) = some (name', rest'') := by
      refine (assigned_eq_some_iff separating_isReadUnit).mpr ⟨hne, fun u hu => ?_, between, hbetween, heq⟩
      exact (Bool.and_eq_true _ _ ▸ hall u hu).1
    have hsame := (dashAssigned_eq_some_iff separating_isReadUnit hdash).mpr hread
    rw [hname] at hsame
    obtain ⟨rfl, -⟩ := Prod.mk.inj (some.inj hsame)
    exact hdotted

/-- What is read from the line that is written for a parameter. -/
theorem read_sysctl (hkey : IsParameter key) {value : Str} (hvalue : ∀ u ∈ value, isPlainUnit u ∨ u = space) :
    readActive sysctlEntry (key ++ text " = " ++ value) = some (key, trim value) := by
  obtain ⟨v, key', rfl⟩ := exists_cons_of_ne_nil hkey.ne_nil
  have hv := plain_unit (hkey.unit v mem_cons_self).1
  have hstart : (v :: key' ++ text " = " ++ value).dropWhile isSpace = v :: key' ++ text " = " ++ value :=
    dropWhile_cons_of_neg (by simp [isSpace_of_isPlainUnit (hkey.unit v mem_cons_self).1])
  obtain ⟨spaces, hspaces, hline, -⟩ := dropWhile_eq_trim_append (v :: key' ++ text " = " ++ value)
  rw [hstart] at hline
  have hunits : ∀ u ∈ v :: key', isReadUnit u := fun u hu =>
    (Bool.and_eq_true _ _ ▸ (plain_unit (hkey.unit u hu).1).1).1
  have hequals : text " = " = [space, equals, space] := by decide
  have hassigned : assigned isReadUnit (v :: key' ++ text " = " ++ value) = some (v :: key', space :: value) := by
    refine (assigned_eq_some_iff separating_isReadUnit).mpr ⟨cons_ne_nil _ _, hunits, [space], forall_mem_singleton.mpr (by decide), ?_⟩
    simp [hequals]
  obtain ⟨rest, hrest⟩ := (assigned_append_iff separating_isReadUnit hspaces).mp ⟨space :: value, hline ▸ hassigned⟩
  have hsame : rest ++ spaces = space :: value := by
    obtain ⟨hne, hall, between, hbetween, heq⟩ := (assigned_eq_some_iff separating_isReadUnit).mp hrest
    have hassigned' : assigned isReadUnit (v :: key' ++ text " = " ++ value) = some (v :: key', rest ++ spaces) := by
      refine (assigned_eq_some_iff separating_isReadUnit).mpr ⟨hne, hall, between, hbetween, ?_⟩
      rw [hline, heq]
      simp
    rw [hassigned] at hassigned'
    exact (Prod.mk.inj (some.inj hassigned')).2.symm
  have hclean : (rest.dropWhile isSpace).any isLineEnd = false := by
    refine any_eq_false.mpr fun u hu => ?_
    have hmem : u ∈ space :: value := hsame ▸ mem_append_left _ (Ends.mem_of_mem_dropWhile hu)
    rcases mem_cons.mp hmem with rfl | hmem
    · decide
    · rcases hvalue u hmem with hu | rfl
      · simp [(plain_unit hu).2.1]
      · decide
  have htrim : trim (rest.dropWhile isSpace) = trim value := by
    rw [trim_dropWhile, ← trim_append_spaces hspaces rest, hsame, ← trim_dropWhile, dropWhile_cons_of_pos (by decide),
      trim_dropWhile]
  obtain ⟨tail, htail⟩ : ∃ tail, trim (v :: key' ++ text " = " ++ value) = v :: tail := by
    obtain ⟨-, -, between, -, heq⟩ := (assigned_eq_some_iff separating_isReadUnit).mp hrest
    exact ⟨key' ++ between ++ equals :: rest, by simpa using heq⟩
  have hdash : (v :: key').head? ≠ some dash := hkey.head
  have hfound : dashAssigned isReadUnit (trim (v :: key' ++ text " = " ++ value)) = some (v :: key', rest) := by
    rw [dashAssigned_eq_some_iff separating_isReadUnit hdash, undash, if_neg]
    · exact hrest
    · rw [htail]
      exact hdash
  have hhash : v ≠ hash := by
    rintro rfl
    exact absurd hv.1 (by decide)
  have hactive : isActive (trim (v :: key' ++ text " = " ++ value)) := by
    rw [htail]
    simp [isActive, hhash, hv.2.2.2.2]
  have hdotted : dotted (v :: key') = v :: key' :=
    (map_congr_left fun u hu => if_neg (hkey.unit u hu).2).trans (map_id' _)
  rw [readActive, if_pos hactive, sysctlEntry, hfound, bind_some]
  simp [hclean, htrim, hdotted]

def sysctlLines (key : Str) (value : Option Str) : List Str := (value.map fun v => key ++ text " = " ++ v).toList

theorem settles_sysctl (hkey : IsParameter key) {value : Option Str}
    (hvalue : ∀ v ∈ value, ∀ u ∈ v, isPlainUnit u ∨ u = space) :
    Settles (readActive sysctlEntry) (fun l => sysctlLineKey l == some key) (fun e => e.1 == key) sysctlHeader
      (sysctlLines key value) := by
  have hread : ∀ line ∈ sysctlLines key value, ∃ v, readActive sysctlEntry line = some (key, v) := by
    intro line hline
    obtain ⟨v, hv, rfl⟩ := map_eq_some_iff.mp (mem_toList.mp hline)
    exact ⟨_, read_sysctl hkey (hvalue v hv)⟩
  refine ⟨agree_sysctl hkey, fun _ => readActive_blank _, by decide, ⟨by decide, ?_⟩, by decide,
    fun line hline => ?_, fun line hline => ?_, fun e he => ?_⟩
  · have hheader : sysctlLineKey sysctlHeader = none := by decide
    rw [hheader]
    rfl
  · obtain ⟨v, hv⟩ := hread line hline
    exact (agree_sysctl hkey line _ hv).symm.trans (beq_self_eq_true key)
  · obtain ⟨v, hv, rfl⟩ := map_eq_some_iff.mp (mem_toList.mp hline)
    have hequals : text " = " = [space, equals, space] := by decide
    simp only [hequals, mem_append, not_or]
    refine ⟨⟨fun hmem => ?_, by decide⟩, fun hmem => ?_⟩
    · exact ne_newline_of_isPlainUnit (hkey.unit _ hmem).1 rfl
    · rcases hvalue v hv _ hmem with hu | hu
      · exact ne_newline_of_isPlainUnit hu rfl
      · exact absurd hu (by decide)
  · obtain ⟨line, hline, he⟩ := mem_filterMap.mp he
    obtain ⟨v, hv⟩ := hread line hline
    rw [hv] at he
    rw [← some.inj he]
    exact beq_self_eq_true key

theorem editSysctlDropin_eq (file : Option Str) (key : Str) (value : Option Str) : editSysctlDropin file key value =
      editText sysctlHeader (fun l => sysctlLineKey l == some key) (sysctlLines key value) file := rfl

structure SysctlAgrees (file : Option Str) (key : Str) (value : Option Str) : Prop where
  last : ((sysctlEntries (some (editSysctlDropin file key value))).filter fun e => e.1 == key).getLast?.map Prod.snd =
    value
  others : ((sysctlEntries (some (editSysctlDropin file key value))).filter fun e => !(e.1 == key)) =
    (sysctlEntries file).filter fun e => !(e.1 == key)
  again : editSysctlDropin (some (editSysctlDropin file key value)) key value = editSysctlDropin file key value

/-- The value is read without the spaces around it. -/
theorem sysctlAgrees_iff (file : Option Str) (hkey : IsParameter key) {value : Option Str}
    (hvalue : ∀ v ∈ value, ∀ u ∈ v, isPlainUnit u ∨ u = space) :
    SysctlAgrees file key value ↔ ∀ v ∈ value, trim v = v := by
  have hsettles := settles_sysctl hkey hvalue
  obtain ⟨hours, hothers⟩ := hsettles.entries file
  have hagain := hsettles.again file
  rw [← editSysctlDropin_eq, ← filterMap_activeLines] at hours
  rw [← editSysctlDropin_eq, ← filterMap_activeLines, ← filterMap_activeLines] at hothers
  rw [← editSysctlDropin_eq, ← editSysctlDropin_eq] at hagain
  have hlast : ((sysctlEntries (some (editSysctlDropin file key value))).filter fun e => e.1 == key).getLast?.map
      Prod.snd = value.map trim := by
    rw [sysctlEntries, hours]
    cases value with
    | none => rfl
    | some v =>
      rw [sysctlLines, map_some, toList_some, filterMap_cons_some (read_sysctl hkey (hvalue v rfl))]
      rfl
  constructor
  · intro h v hv
    have heq := hlast.symm.trans h.last
    rw [hv, map_some] at heq
    exact some.inj heq
  · intro h
    refine ⟨hlast.trans ?_, hothers, hagain⟩
    cases value with
    | none => rfl
    | some v => rw [map_some, h v rfl]

end Sysctl

/-! ## Whole lines -/

section WholeLines

variable {isOurs : Str → Bool} {header : Str} {added : List Str}

/-- Active lines of the key are those that the editor drops, when both look at the trimmed line. -/
theorem agree_trimmed (isOurs : Str → Bool) : Agree (readActive some) (fun l => isOurs (trim l)) isOurs := by
  intro line e hread
  obtain ⟨-, he⟩ := readActive_eq_some hread
  rw [← some.inj he]

/-- The lines that an editor of whole lines puts in are active and of the key, its header is neither. -/
theorem settles_trimmed (isOurs : Str → Bool) (hheader : isActive (trim header) = false ∧ isBlank header = false ∧
    isOurs (trim header) = false ∧ newline ∉ header)
    (hadded : ∀ line ∈ added, trim line = line ∧ isOurs line ∧ newline ∉ line) :
    Settles (readActive some) (fun l => isOurs (trim l)) isOurs header added where
  agree := agree_trimmed isOurs
  blank := fun _ => readActive_blank _
  header_read := by rw [readActive, hheader.1, if_neg Bool.false_ne_true]
  header_kept := ⟨hheader.2.1, hheader.2.2.1⟩
  header_clean := hheader.2.2.2
  added_dropped := fun line hline => by
    obtain ⟨htrim, hours, -⟩ := hadded line hline
    rwa [htrim]
  added_clean := fun line hline => (hadded line hline).2.2
  added_ours := fun e he => by
    obtain ⟨line, hline, hread⟩ := mem_filterMap.mp he
    obtain ⟨htrim, hours, -⟩ := hadded line hline
    obtain rfl := some.inj (readActive_eq_some hread).2
    rwa [htrim]

theorem filterMap_added (hadded : ∀ line ∈ added, trim line = line ∧ isActive line) :
    added.filterMap (readActive some) = added := by
  have hread : ∀ line ∈ added, readActive some line = some line := fun line hline =>
    readActive_of_trimmed (hadded line hline).1 (hadded line hline).2
  rw [filterMap_congr hread, filterMap_some]

end WholeLines

/-! ## Kernel modules -/

section Modprobe

variable {mod : Str} {policy : Guarded}

def blockLines (mod : Str) : List Str := [installLine mod, blacklistLine mod]

theorem blockLines_active (hown : KMOD_POLICY.own mod = some policy) : ∀ line ∈ blockLines mod,
    trim line = line ∧ isActive line ∧ newline ∉ line := by
  have hall : KMOD_POLICY.entries.all (fun e => (blockLines e.1).all fun line =>
      trim line == line && isActive line && !line.contains newline) := by
    decide
  intro line hline
  have h := all_eq_true.mp (all_eq_true.mp hall _ (Literal.mem_of_own hown)) line hline
  simpa [and_assoc] using h

theorem settles_modprobe (hown : KMOD_POLICY.own mod = some policy) (block : Bool) :
    Settles (readActive some) (fun l => (blockLines mod).contains (trim l)) (blockLines mod).contains modprobeHeader
      (if block then blockLines mod else []) := by
  have hheader : ∀ line ∈ blockLines mod, line.head? ≠ some hash := by
    intro line hline hhead
    obtain ⟨-, hactive, -⟩ := blockLines_active hown line hline
    simp [isActive, hhead] at hactive
  refine settles_trimmed _ ⟨by decide, by decide, ?_, by decide⟩ fun line hline => ?_
  · by_contra h
    have hhead : (trim modprobeHeader).head? = some hash := by decide
    exact hheader _ (by simpa using h) hhead
  · cases block with
    | true =>
      exact ⟨(blockLines_active hown line hline).1, by simpa using hline, (blockLines_active hown line hline).2.2⟩
    | false => simp at hline

theorem editModprobeDropin_eq (file : Option Str) (mod : Str) (block : Bool) :
    editModprobeDropin file mod block = editText modprobeHeader (fun l => (blockLines mod).contains (trim l))
      (if block then blockLines mod else []) file := rfl

/-- A module is blocked exactly if that was asked for, and other modules are as they were. -/
structure ModprobeAgrees (file : Option Str) (mod : Str) (block : Bool) : Prop where
  blocked : isBlocked (some (editModprobeDropin file mod block)) mod = block
  others : ∀ other, other ≠ mod → isBlocked (some (editModprobeDropin file mod block)) other = isBlocked file other
  again : editModprobeDropin (some (editModprobeDropin file mod block)) mod block = editModprobeDropin file mod block

theorem blockLines_other {other : Str} (h : other ≠ mod) : ∀ line ∈ blockLines other, line ∉ blockLines mod := by
  have hcross (a b : Str) : installLine a ≠ blacklistLine b := by
    intro heq
    have hhead := congrArg head? heq
    have hi : (text "install ").head? = some 0x69 := by decide
    have hb : (text "blacklist ").head? = some 0x62 := by decide
    simp only [installLine, blacklistLine, head?_append, hi, hb, some_or] at hhead
    exact absurd hhead (by decide)
  have hinstall : installLine other ≠ installLine mod := fun heq =>
    h (append_cancel_left (append_cancel_right heq))
  have hblacklist : blacklistLine other ≠ blacklistLine mod := fun heq => h (append_cancel_left heq)
  simp [blockLines, hcross, hinstall, hblacklist, (hcross mod other).symm]

theorem modprobeAgrees (file : Option Str) (hown : KMOD_POLICY.own mod = some policy) (block : Bool) :
    ModprobeAgrees file mod block := by
  have hsettles := settles_modprobe hown block
  obtain ⟨hours, hothers⟩ := hsettles.entries file
  have hagain := hsettles.again file
  rw [← editModprobeDropin_eq, ← activeLines_eq] at hours
  rw [← editModprobeDropin_eq, ← activeLines_eq, ← activeLines_eq] at hothers
  rw [← editModprobeDropin_eq, ← editModprobeDropin_eq] at hagain
  have hadded : (if block then blockLines mod else []).filterMap (readActive some) =
      if block then blockLines mod else [] := by
    refine filterMap_added fun line hline => ?_
    cases block with
    | true => exact ⟨(blockLines_active hown line hline).1, (blockLines_active hown line hline).2.1⟩
    | false => simp at hline
  rw [hadded] at hours
  refine ⟨?_, fun other hother => ?_, hagain⟩
  · have hmem : ∀ line ∈ blockLines mod,
        line ∈ activeLines (some (editModprobeDropin file mod block)) ↔ block := by
      intro line hline
      have hfilter := congrArg (line ∈ ·) hours
      simp only [mem_filter, contains_iff_mem, hline, and_true, eq_iff_iff] at hfilter
      rw [hfilter]
      cases block <;> simp [hline]
    have hinstall := hmem (installLine mod) (by simp [blockLines])
    have hblacklist := hmem (blacklistLine mod) (by simp [blockLines])
    rw [Bool.eq_iff_iff, isBlocked, Bool.and_eq_true, contains_iff_mem, contains_iff_mem, hinstall, hblacklist,
      and_self]
  · have hmem : ∀ line ∈ blockLines other,
        line ∈ activeLines (some (editModprobeDropin file mod block)) ↔ line ∈ activeLines file := by
      intro line hline
      have hfree := blockLines_other hother line hline
      have hfilter := congrArg (line ∈ ·) hothers
      simpa [mem_filter, hfree] using hfilter
    have hinstall := hmem (installLine other) (by simp [blockLines])
    have hblacklist := hmem (blacklistLine other) (by simp [blockLines])
    rw [Bool.eq_iff_iff, isBlocked, isBlocked, Bool.and_eq_true, Bool.and_eq_true, contains_iff_mem,
      contains_iff_mem, contains_iff_mem, contains_iff_mem, hinstall, hblacklist]

end Modprobe

/-! ## Audit rules -/

section Audit

variable {line : Str}

/-- A rule is a line that starts with a dash, ends with no space and is one line. -/
structure IsRule (line : Str) : Prop where
  head : line.head? = some dash
  last : ∀ u ∈ line.getLast?, isSpace u = false
  clean : newline ∉ line

theorem isAuditKey_last {key : Str} (h : isAuditKey key) :
    key ≠ [] ∧ (∀ u ∈ key.getLast?, isSpace u = false) ∧ newline ∉ key := by
  simp only [isAuditKey, isRun, Bool.and_eq_true, Bool.not_eq_true', List.isEmpty_eq_false_iff, List.all_eq_true] at h
  have hplain : ∀ u ∈ key, isPlainUnit u := fun u hu => by simp [isPlainUnit, h.2 u hu]
  refine ⟨h.1.1, fun u hu => isSpace_of_isPlainUnit (hplain u (List.mem_of_getLast? hu)), fun hmem => ?_⟩
  exact ne_newline_of_isPlainUnit (hplain _ hmem) rfl

/-- Words between spaces, the first of which starts with a dash and the last of which is a key. -/
theorem isRule_of_words {first key : Str} {rest : List Str} (hsplit : line.splitOn space = first :: rest)
    (hfirst : first.head? = some dash) (hlast : (first :: rest).getLast? = some key) (hkey : isAuditKey key)
    (hclean : ∀ word ∈ first :: rest, newline ∉ word) : IsRule line := by
  have hline : [space].intercalate (first :: rest) = line := hsplit ▸ intercalate_splitOn space
  obtain ⟨hne, hspace, -⟩ := isAuditKey_last hkey
  refine ⟨?_, ?_, fun hmem => ?_⟩
  · have hne' : first ≠ [] := by
      rintro rfl
      cases hfirst
    rw [← hline, head?_intercalate hne', hfirst]
  · rwa [← hline, getLast?_intercalate hlast hne]
  · rw [← hline] at hmem
    rcases mem_intercalate hmem with h | ⟨word, hword, h⟩
    · exact absurd h (by decide)
    · exact hclean word hword h

theorem isRule_of_isWatchRule (h : isWatchRule line) : IsRule line := by
  rw [isWatchRule] at h
  split at h
  · rename_i w path p perms k key hsplit
    simp only [Bool.and_eq_true, beq_iff_eq, isRuns, isRun, Bool.not_eq_true', List.all_eq_true] at h
    obtain ⟨⟨⟨⟨⟨⟨hw, hslash⟩, hpath⟩, hp⟩, hperms⟩, hk⟩, hkey⟩ := h
    have hclean : newline ∉ path := by
      cases path with
      | nil => cases hslash
      | cons u path =>
        obtain rfl := some.inj hslash
        refine not_mem_cons_of_ne_of_not_mem (by decide) fun hmem => ?_
        have hunit := hpath.2 newline hmem
        exact absurd hunit (by decide)
    refine isRule_of_words hsplit (by rw [hw]; decide) rfl hkey fun word hword => ?_
    simp only [List.mem_cons, List.not_mem_nil, or_false] at hword
    rcases hword with rfl | rfl | rfl | rfl | rfl | rfl
    · rw [hw]
      decide
    · exact hclean
    · rw [hp]
      decide
    · exact fun hmem => absurd (hperms.2 newline hmem) (by decide)
    · rw [hk]
      decide
    · exact (isAuditKey_last hkey).2.2
  · cases h

theorem newline_notMem_syscalls {calls : Str} (h : isSyscalls calls) : newline ∉ calls := by
  simp only [isSyscalls, Bool.and_eq_true, isRuns, List.all_eq_true] at h
  intro hmem
  have hjoin : intercalate [Json.comma] (calls.splitOn Json.comma) = calls := intercalate_splitOn Json.comma
  rw [← hjoin] at hmem
  rcases mem_intercalate hmem with heq | ⟨word, hword, hmem⟩
  · exact absurd heq (by decide)
  · exact absurd ((h.2 word hword).2 newline hmem) (by decide)

theorem isRule_of_isSyscallRule (h : isSyscallRule line) : IsRule line := by
  rw [isSyscallRule] at h
  split at h
  · rename_i a always f arch flag calls rest hsplit
    simp only [Bool.and_eq_true, Bool.or_eq_true, beq_iff_eq] at h
    obtain ⟨⟨⟨⟨⟨⟨ha, halways⟩, hf⟩, harch⟩, hflag⟩, hcalls⟩, hrest⟩ := h
    have hfirst : a.head? = some dash := by
      rw [ha]
      decide
    have hstart : ∀ word ∈ [a, always, f, arch, flag, calls], newline ∉ word := by
      intro word hword
      simp only [mem_cons, not_mem_nil, or_false] at hword
      rcases hword with rfl | rfl | rfl | rfl | rfl | rfl
      · rw [ha]
        decide
      · rw [halways]
        decide
      · rw [hf]
        decide
      · rcases harch with harch | harch <;> rw [harch] <;> decide
      · rw [hflag]
        decide
      · exact newline_notMem_syscalls hcalls
    have hwords : ∀ {rest : List Str}, (∀ word ∈ rest, newline ∉ word) →
        ∀ word ∈ a :: always :: f :: arch :: flag :: calls :: rest, newline ∉ word := fun hrest word hword =>
      (mem_append.mp (by simpa using hword : word ∈ [a, always, f, arch, flag, calls] ++ _)).elim (hstart word)
        (hrest word)
    split at hrest
    · rename_i k key
      simp only [Bool.and_eq_true, beq_iff_eq] at hrest
      refine isRule_of_words hsplit hfirst rfl hrest.2 (hwords fun word hword => ?_)
      simp only [mem_cons, not_mem_nil, or_false] at hword
      rcases hword with rfl | rfl
      · rw [hrest.1]
        decide
      · exact (isAuditKey_last hrest.2).2.2
    · rename_i f' auid f'' unset k key
      simp only [Bool.and_eq_true, beq_iff_eq] at hrest
      obtain ⟨⟨⟨⟨⟨hf', hauid⟩, hf''⟩, hunset⟩, hk⟩, hkey⟩ := hrest
      refine isRule_of_words hsplit hfirst rfl hkey (hwords fun word hword => ?_)
      simp only [mem_cons, not_mem_nil, or_false] at hword
      rcases hword with rfl | rfl | rfl | rfl | rfl | rfl
      · rw [hf']
        decide
      · rw [hauid]
        decide
      · rw [hf'']
        decide
      · rw [hunset]
        decide
      · rw [hk]
        decide
      · exact (isAuditKey_last hkey).2.2
    · cases hrest
  · cases h

theorem isRule_of_isAuditRule (h : isAuditRule line) : IsRule line := by
  simp only [isAuditRule, Bool.and_eq_true, Bool.or_eq_true] at h
  exact h.2.elim isRule_of_isWatchRule isRule_of_isSyscallRule

theorem IsRule.trim (h : IsRule line) : trim line = line := by
  refine trim_of_ends ?_ h.last
  rw [h.head]
  rintro u ⟨⟩
  decide

theorem IsRule.isActive (h : IsRule line) : isActive line := by
  have hne : line ≠ [] := by
    rintro rfl
    cases h.head
  have hdash : dash ≠ hash ∧ dash ≠ semicolon := by decide
  simp [Hardening.isActive, h.head, hne, hdash]

/-- What the kernel knows of a rule: a watch by its path without slashes at its end, and any other rule by its text. -/
def ruleClass (rule : Str) : Str ⊕ (Str × Str × Str) :=
  match watchParts rule with
  | some (path, perms, key) => .inr (normWatch path, perms, key)
  | none => .inl rule

theorem sameAuditRule_iff (a b : Str) : sameAuditRule a b ↔ ruleClass a = ruleClass b := by
  rw [sameAuditRule, Bool.or_eq_true, beq_iff_eq, ruleClass, ruleClass]
  constructor
  · rintro (rfl | h)
    · rfl
    · split at h
      · rename_i path perms key path' perms' key' ha hb
        simp only [Bool.and_eq_true, beq_iff_eq] at h
        simp [ha, hb, h]
      · cases h
  · intro h
    rcases ha : watchParts a with _ | ⟨path, perms, key⟩ <;> rcases hb : watchParts b with _ | ⟨path', perms', key'⟩ <;>
      simp_all

def rulesLike (file : Option Str) (rule : Str) : List Str := (activeLines file).filter (sameAuditRule · rule)

structure AuditAgrees (file : Option Str) (line : Str) (present : Bool) : Prop where
  active : (activeLines (some (editAuditRules file line present))).any (sameAuditRule · line) = present
  /-- A rule that there was is not added, and one that there was not is added once. -/
  added : ∀ rule, (rulesLike (some (editAuditRules file line present)) rule).length ≤ max (rulesLike file rule).length 1
  others : (activeLines (some (editAuditRules file line present))).filter (fun r => !sameAuditRule r line) =
    (activeLines file).filter fun r => !sameAuditRule r line
  again : editAuditRules (some (editAuditRules file line present)) line present = editAuditRules file line present

def auditHeader : Str := text "## Managed by Tracenium — audit rules added by compliance fixes."

theorem editAuditRules_eq (file : Option Str) (line : Str) (present : Bool) : editAuditRules file line present =
    if present && file.isSome && (activeLines file).any (sameAuditRule · line) then file.getD []
    else editText auditHeader (fun l => sameAuditRule (trim l) line) (if present then [line] else []) file := by
  cases present <;> rfl

theorem settles_audit (hline : IsRule line) (present : Bool) :
    Settles (readActive some) (fun l => sameAuditRule (trim l) line) (sameAuditRule · line) auditHeader
      (if present then [line] else []) := by
  have hheader : sameAuditRule (trim auditHeader) line = false := by
    have hhead : (trim auditHeader).head? = some hash := by decide
    have hparts : watchParts (trim auditHeader) = none := by decide
    have hne : trim auditHeader ≠ line := by
      rintro rfl
      rw [hline.head] at hhead
      exact absurd hhead (by decide)
    simp [sameAuditRule, hne, hparts]
  refine settles_trimmed (sameAuditRule · line)
    ⟨by decide, by decide, hheader, by decide⟩ fun added hadded => ?_
  cases present with
  | true =>
    obtain rfl : added = line := by simpa using hadded
    exact ⟨hline.trim, (sameAuditRule_iff _ _).mpr rfl, hline.clean⟩
  | false => simp at hadded

theorem auditAgrees (file : Option Str) (hline : IsRule line) (present : Bool) : AuditAgrees file line present := by
  have hsettles := settles_audit hline present
  obtain ⟨hours, hothers⟩ := hsettles.entries file
  have hagain := hsettles.again file
  have hadded : (if present then [line] else []).filterMap (readActive some) = if present then [line] else [] := by
    refine filterMap_added fun added hadded => ?_
    cases present with
    | true =>
      obtain rfl : added = line := by simpa using hadded
      exact ⟨hline.trim, hline.isActive⟩
    | false => simp at hadded
  rw [hadded, ← activeLines_eq] at hours
  rw [← activeLines_eq, ← activeLines_eq] at hothers
  have heq := editAuditRules_eq file line present
  cases hkeep : present && file.isSome && (activeLines file).any (sameAuditRule · line) with
  | true =>
    -- the rule is there in one of its forms
    rw [hkeep, if_pos rfl] at heq
    simp only [Bool.and_eq_true] at hkeep
    obtain ⟨⟨rfl, hsome⟩, hany⟩ := hkeep
    obtain ⟨content, rfl⟩ := isSome_iff_exists.mp hsome
    rw [getD_some] at heq
    refine ⟨by rw [heq, hany], fun rule => ?_, by rw [heq], by rw [heq, heq]⟩
    rw [heq]
    exact le_max_left _ _
  | false =>
    rw [hkeep, if_neg Bool.false_ne_true] at heq
    rw [← heq] at hours hothers hagain
    have hmem (r : Str) : r ∈ activeLines (some (editAuditRules file line present)) ∧ sameAuditRule r line ↔
        r ∈ if present then [line] else [] := by
      rw [← hours]
      exact (mem_filter (p := (sameAuditRule · line))).symm
    have hactive : (activeLines (some (editAuditRules file line present))).any (sameAuditRule · line) = present := by
      rw [Bool.eq_iff_iff, List.any_eq_true]
      simp only [hmem]
      cases present <;> simp
    refine ⟨hactive, fun rule => ?_, hothers, ?_⟩
    · by_cases hsame : ruleClass rule = ruleClass line
      · have hlike : rulesLike (some (editAuditRules file line present)) rule = if present then [line] else [] := by
          rw [← hours]
          refine filter_congr fun r _ => Bool.eq_iff_iff.mpr ?_
          rw [sameAuditRule_iff, sameAuditRule_iff, hsame]
        rw [hlike]
        refine le_trans ?_ (le_max_right _ 1)
        cases present <;> simp
      · -- a rule like another one is not like this one
        have hlike (f : Option Str) : rulesLike f rule =
            ((activeLines f).filter fun r => !sameAuditRule r line).filter (sameAuditRule · rule) := by
          rw [rulesLike, List.filter_filter]
          refine filter_congr fun r _ => Bool.eq_iff_iff.mpr ?_
          have hother : sameAuditRule r rule → sameAuditRule r line = false := by
            intro hr
            by_contra hline
            rw [sameAuditRule_iff] at hr
            exact hsame (hr.symm.trans ((sameAuditRule_iff _ _).mp (by simpa using hline)))
          constructor
          · intro hr
            simp [hr, hother hr]
          · intro hr
            exact (Bool.and_eq_true _ _ ▸ hr).1
        rw [hlike, hothers, ← hlike]
        exact le_max_left _ _
    · rw [editAuditRules_eq (some _), hactive]
      cases present with
      | true => rfl
      | false => exact hagain

end Audit

end Hardening
