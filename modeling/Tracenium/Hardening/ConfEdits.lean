-- SUMMARY: The editor of keys with values against what the probe reads, and when a key comes under its section.
import Tracenium.Hardening.DropinEdits

/-!
Where the editor finds the header of the section it adds a new key at the end of the file, and the header there may be
another one.
-/

open Utf16 List OrderedMap Option

namespace Hardening

open Ipc LineEdits

/-! ## Maps of entries -/

section Maps

variable {l : Library} {file file' : Option Str} {key : Str}

theorem filter_setEntries (p : Str → Bool) (k v : Str) (es : List (Str × Str)) :
    ((setEntries k v es).filter fun e => p e.1) =
      if p k then setEntries k v (es.filter fun e => p e.1) else es.filter fun e => p e.1 := by
  induction es with
  | nil => cases hk : p k <;> simp [setEntries, hk]
  | cons e es ih =>
    by_cases he : e.1 = k
    · cases hk : p k <;> simp [he, hk, setEntries]
    · cases hk : p k <;> cases he' : p e.1 <;> simp [he, hk, he', ih, setEntries]

/-- The keys that meet a predicate take no part in what the others do in the map. -/
theorem filter_foldl_set (p : Str → Bool) (es : List (Str × Str)) (m : OrderedMap Str Str) :
    ((es.foldl (fun m e => m.set e.1 e.2) m).entries.filter fun e => p e.1) =
      (es.filter fun e => p e.1).foldl (fun b e => setEntries e.1 e.2 b) (m.entries.filter fun e => p e.1) := by
  induction es generalizing m with
  | nil => rfl
  | cons e es ih =>
    rw [List.foldl_cons, ih, OrderedMap.set, filter_setEntries]
    cases he : p e.1 <;> simp [he]

def isKey (l : Library) (key : Str) (e : Str × Str) : Bool := l.lower e.1 = l.lower key

def probed (l : Library) (file : Option Str) (key : Str) : List (Str × Str) :=
  ((confEntries file).filter (isKey l key)).foldl (fun b e => setEntries e.1 e.2 b) []

theorem filter_parseKeyValue (l : Library) (file : Option Str) (key : Str) :
    (parseKeyValue file).entries.filter (isKey l key) = probed l file key :=
  filter_foldl_set (fun k => l.lower k = l.lower key) (confEntries file) .empty

theorem lookup_eq (l : Library) (file : Option Str) (key : Str) :
    lookup l (parseKeyValue file) key = (probed l file key).head?.map Prod.snd := by
  rw [← filter_parseKeyValue, head?_filter]
  rfl

theorem take_eq (l : Library) (file : Option Str) (key : Str) :
    take l file key = (probed l file key).getLast?.map Prod.snd := by
  rw [← filter_parseKeyValue]
  rfl

end Maps

/-! ## Lines of a key -/

section Lines

variable {key raw k v : Str}

/-- The key of a file of keys and values: letters, digits and lines. -/
structure IsConfKey (key : Str) : Prop where
  head : key.head?.any isConfStart = true
  unit : ∀ u ∈ key, isNameUnit u = true

structure IsConfWritten (v : Str) : Prop where
  ne_nil : v ≠ []
  unit : ∀ u ∈ v, isPlainUnit u = true

theorem isConfUnit_eq (u : UInt16) : isConfUnit (if isUpper u then u + 0x20 else u) = isConfUnit u := by
  split
  · rename_i hupper
    have hall : ∀ n < 0x80, isUpper (UInt16.ofNat n) →
        isConfUnit (UInt16.ofNat n + 0x20) = isConfUnit (UInt16.ofNat n) := by
      decide
    have hlt : u.toNat < 0x80 := toNat_lt_of_isPlainUnit (by simp [isPlainUnit, isNameUnit, isWord, hupper])
    have hu := hall u.toNat hlt
    rw [UInt16.ofNat_toNat] at hu
    exact hu hupper
  · rfl

theorem confUnit_of_fold {a b : Str} (h : fold a = fold b) (hb : ∀ u ∈ b, isConfUnit u) :
    ∀ u ∈ a, isConfUnit u := by
  intro u hu
  have hmem : (if isUpper u then u + 0x20 else u) ∈ fold b := h ▸ mem_map_of_mem hu
  obtain ⟨w, hw, heq⟩ := mem_map.mp hmem
  rw [← isConfUnit_eq, ← heq, isConfUnit_eq]
  exact hb w hw

/-- What is left of a line without its comment, and the comment. -/
theorem stripComment_eq (raw : Str) : ∃ comment, raw = stripComment raw ++ comment ∧
    (comment = [] ∨ comment.head? = some hash) := by
  induction raw with
  | nil => exact ⟨[], rfl, .inl rfl⟩
  | cons u raw ih =>
    rw [stripComment]
    split
    · rename_i hu
      simp only [Bool.and_eq_true, decide_eq_true_eq] at hu
      exact ⟨u :: raw, rfl, .inr (by simp [hu.1])⟩
    · obtain ⟨comment, heq, hcomment⟩ := ih
      exact ⟨comment, congrArg (u :: ·) heq, hcomment⟩

theorem stripComment_of_clean (h : hash ∉ raw) : stripComment raw = raw := by
  induction raw with
  | nil => rfl
  | cons u raw ih =>
    obtain ⟨hu, hraw⟩ := not_or.mp (fun hmem => h (mem_cons.mpr hmem))
    rw [stripComment, if_neg (by simp [Ne.symm hu]), ih hraw]

/-- A line that is not empty without its comment is the first thing of the raw line, after spaces. -/
theorem dropWhile_eq_confLine_append (h : confLine raw ≠ []) : ∃ rest, raw.dropWhile isSpace = confLine raw ++ rest ∧
    ∀ u ∈ rest.head?, isSpace u ∨ u = hash := by
  obtain ⟨comment, hraw, hcomment⟩ := stripComment_eq raw
  obtain ⟨spaces, hspaces, hline, -⟩ := dropWhile_eq_trim_append (stripComment raw)
  refine ⟨spaces ++ comment, ?_, ?_⟩
  · have hne : ((stripComment raw).dropWhile isSpace).isEmpty = false := by
      rw [hline]
      cases hstripped : trim (stripComment raw) with
      | nil => exact absurd hstripped h
      | cons u rest => rfl
    conv_lhs => rw [hraw]
    rw [dropWhile_append, hne, if_neg Bool.false_ne_true, hline, append_assoc]
    rfl
  · intro u hu
    cases spaces with
    | nil =>
      rcases hcomment with rfl | hhash
      · cases hu
      · rw [nil_append, hhash] at hu
        exact .inr (some.inj hu).symm
    | cons w spaces =>
      obtain rfl := some.inj hu
      exact .inl (hspaces _ mem_cons_self)

/-- What an entry tells about its line: a key, and after it an equals sign or a space. -/
theorem confEntry_key (h : confEntry raw = some (k, v)) : ∃ u rest, confLine raw = k ++ u :: rest ∧
    (u = equals ∨ isSpace u) ∧ (∀ w ∈ k, isConfUnit w) ∧ k.head?.any isConfStart := by
  rw [confEntry] at h
  split at h
  · cases h
  · rename_i hstart
    obtain ⟨value, hvalue, hkey⟩ := bind_eq_some_iff.mp h
    split at hkey
    · cases hkey
    obtain ⟨rfl, -⟩ := Prod.mk.inj (some.inj hkey)
    simp only [Bool.or_eq_true, not_or, Bool.not_eq_true', decide_eq_true_eq, List.isEmpty_iff,
      Bool.not_eq_false] at hstart
    obtain ⟨⟨hne, -⟩, hhead⟩ := hstart
    have hsplit := takeWhile_append_dropWhile (p := isConfUnit) (l := confLine raw)
    have hfirst : ((confLine raw).takeWhile isConfUnit).head?.any isConfStart := by
      obtain ⟨w, line, hline⟩ := List.exists_cons_of_ne_nil hne
      rw [hline] at hhead ⊢
      have hw : isConfUnit w := by
        have hstart : isConfStart w := by simpa using hhead
        simp only [isConfStart, Bool.or_eq_true] at hstart
        rcases hstart with (h | h) | h <;> simp [isConfUnit, isNameUnit, isWord, h]
      rw [takeWhile_cons_of_pos hw]
      simpa using hhead
    cases hrest : (confLine raw).dropWhile isConfUnit with
    | nil => simp [hrest] at hvalue
    | cons u rest =>
      rw [hrest] at hsplit
      refine ⟨u, rest, hsplit.symm, ?_, fun w hw => mem_takeWhile_imp hw, hfirst⟩
      by_cases hspace : isSpace u
      · exact .inr hspace
      · rw [hrest, dropWhile_cons_of_neg hspace] at hvalue
        dsimp only at hvalue
        split at hvalue
        · exact .inl ‹_›
        · simp [hspace] at hvalue

/-- What comes after a key is no part of it. -/
theorem not_isConfUnit {u : UInt16} (h : u = equals ∨ isSpace u) : isConfUnit u = false := by
  rcases h with rfl | hspace
  · decide
  · by_contra hunit
    have hunit : isConfUnit u := by simpa using hunit
    have hplain : isPlainUnit u := by
      have hdot : oneOf ".:/" dot := by decide
      rcases Bool.or_eq_true_iff.mp hunit with hname | hu
      · simp [isPlainUnit, hname]
      · simp [isPlainUnit, eq_of_beq hu, hdot]
    simp [isSpace_of_isPlainUnit hplain] at hspace

/-- A line that has an entry sets a key exactly if it is the key of the entry, up to case. -/
theorem setsKey_iff (hkey : IsConfKey key) (h : confEntry raw = some (k, v)) :
    setsKey key raw ↔ fold k = fold key := by
  obtain ⟨u, rest, hline, hu, hunits, hhead⟩ := confEntry_key h
  have hne : confLine raw ≠ [] := by simp [hline]
  obtain ⟨more, hraw, -⟩ := dropWhile_eq_confLine_append hne
  have hstop : isConfUnit u = false := not_isConfUnit hu
  have hs : raw.dropWhile isSpace = k ++ u :: (rest ++ more) := by simp [hraw, hline]
  have hkeyUnits : ∀ w ∈ key, isConfUnit w := fun w hw => by simp [isConfUnit, hkey.unit w hw]
  simp only [setsKey, hs, Bool.and_eq_true, beq_iff_eq]
  constructor
  · rintro ⟨⟨hfold, hnext⟩, -⟩
    -- both keys end where their units end
    have hlength : ((k ++ u :: (rest ++ more)).take key.length).length = key.length := by
      simpa [fold] using congrArg length hfold
    have htake := confUnit_of_fold hfold hkeyUnits
    obtain ⟨w, after, hafter⟩ : ∃ w after, (k ++ u :: (rest ++ more)).drop key.length = w :: after := by
      cases hdrop : (k ++ u :: (rest ++ more)).drop key.length with
      | nil => simp [hdrop] at hnext
      | cons w after => exact ⟨w, after, rfl⟩
    have hw : isConfUnit w = false := by
      rw [hafter] at hnext
      have hnext : w = equals ∨ isSpace w := by simpa using hnext
      exact not_isConfUnit hnext
    have hends {a b : Str} {c : UInt16} (ha : ∀ w ∈ a, isConfUnit w) (hc : isConfUnit c = false) :
        (a ++ c :: b).takeWhile isConfUnit = a := by
      rw [takeWhile_append_of_pos ha, takeWhile_cons_of_neg (by simp [hc]), append_nil]
    have hsame := hends (b := after) htake hw
    rw [← hafter, take_append_drop, hends hunits hstop] at hsame
    rw [hsame, hfold]
  · intro hfold
    have hlength : k.length = key.length := by simpa [fold] using congrArg length hfold
    rw [take_left' hlength, drop_left' hlength]
    refine ⟨⟨hfold, by simpa using hu⟩, ?_⟩
    obtain ⟨w, k, rfl⟩ : ∃ w k', k = w :: k' := by
      cases k with
      | nil => cases hhead
      | cons w k => exact ⟨w, k, rfl⟩
    have hw : w ≠ hash := by
      rintro rfl
      have hstart : isConfStart hash := by simpa using hhead
      exact absurd hstart (by decide)
    simp [hw]

theorem confLine_of_plain (hhash : hash ∉ raw) (hhead : ∀ u ∈ raw.head?, isSpace u = false)
    (hlast : ∀ u ∈ raw.getLast?, isSpace u = false) : confLine raw = raw := by
  rw [confLine, stripComment_of_clean hhash, trim_of_ends hhead hlast]

/-- What separates a key from its value. -/
def separator : ConfStyle → Str
  | .bare => text "\t"
  | .shell => text "="
  | .systemd => text "="
  | .eq => text " = "

theorem formatConf_eq (style : ConfStyle) (key v : Str) : formatConf style key v = key ++ separator style ++ v := by
  cases style <;> rfl

theorem separator_cases (style : ConfStyle) : separator style = [0x09] ∨ separator style = [equals] ∨
    separator style = [space, equals, space] := by
  cases style
  · exact .inr (.inr (by decide))
  · exact .inl (by decide)
  · exact .inr (.inl (by decide))
  · exact .inr (.inl (by decide))

theorem separator_unit (style : ConfStyle) : (∀ u ∈ separator style, u ≠ hash ∧ u ≠ newline) ∧
    ∃ u rest, separator style = u :: rest ∧ (u = equals ∨ isSpace u) := by
  rcases separator_cases style with h | h | h <;> rw [h]
  · exact ⟨forall_mem_singleton.mpr (by decide), _, _, rfl, .inr (by decide)⟩
  · exact ⟨forall_mem_singleton.mpr (by decide), _, _, rfl, .inl rfl⟩
  · exact ⟨by simp; decide, _, _, rfl, .inr (by decide)⟩

theorem IsConfKey.ne_nil (hkey : IsConfKey key) : key ≠ [] := by
  rintro rfl
  cases hkey.head

theorem IsConfKey.plain (hkey : IsConfKey key) : ∀ u ∈ key, isPlainUnit u :=
  fun u hu => by simp [isPlainUnit, hkey.unit u hu]

theorem ne_hash_of_isPlainUnit {u : UInt16} (h : isPlainUnit u) : u ≠ hash := by
  rintro rfl
  exact absurd (plain_unit h).1 (by decide)

theorem written_clean (hkey : IsConfKey key) (hv : IsConfWritten v) (style : ConfStyle) :
    ∀ u ∈ formatConf style key v, u ≠ hash ∧ u ≠ newline := by
  intro u hu
  rw [formatConf_eq, mem_append, mem_append] at hu
  rcases hu with (hu | hu) | hu
  · exact ⟨ne_hash_of_isPlainUnit (hkey.plain u hu), ne_newline_of_isPlainUnit (hkey.plain u hu)⟩
  · exact (separator_unit style).1 u hu
  · exact ⟨ne_hash_of_isPlainUnit (hv.unit u hu), ne_newline_of_isPlainUnit (hv.unit u hu)⟩

theorem confLine_written (hkey : IsConfKey key) (hv : IsConfWritten v) (style : ConfStyle) :
    confLine (formatConf style key v) = formatConf style key v := by
  refine confLine_of_plain (fun hmem => (written_clean hkey hv style hash hmem).1 rfl) ?_ ?_
  · intro u hu
    rw [formatConf_eq, append_assoc, head?_append_of_ne_nil _ hkey.ne_nil] at hu
    exact isSpace_of_isPlainUnit (hkey.plain u (mem_of_head? hu))
  · intro u hu
    rw [formatConf_eq, getLast?_append_of_ne_nil _ hv.ne_nil] at hu
    exact isSpace_of_isPlainUnit (hv.unit u (mem_of_getLast? hu))

theorem unquoteEnds_written (hv : IsConfWritten v) : unquoteEnds (trim v) = v := by
  have htrim : trim v = v := trim_of_ends
    (fun u hu => isSpace_of_isPlainUnit (hv.unit u (mem_of_head? hu)))
    fun u hu => isSpace_of_isPlainUnit (hv.unit u (mem_of_getLast? hu))
  have hquote {o : Option UInt16} (ho : ∀ u ∈ o, u ∈ v) : o.any isQuote = false := by
    cases o with
    | none => rfl
    | some u => simp [(plain_unit (hv.unit u (ho u rfl))).2.2.1]
  rw [htrim, unquoteEnds, hquote fun u hu => mem_of_head? hu, if_neg Bool.false_ne_true,
    hquote fun u hu => mem_of_getLast? hu, if_neg Bool.false_ne_true]

/-- The probe reads the value that is written. -/
theorem confEntry_written (hkey : IsConfKey key) (hv : IsConfWritten v) (style : ConfStyle) :
    confEntry (formatConf style key v) = some (key, v) := by
  obtain ⟨-, u, rest, hsep, hu⟩ := separator_unit style
  have hkeyUnits : ∀ w ∈ key, isConfUnit w := fun w hw => by simp [isConfUnit, hkey.unit w hw]
  have hstop := not_isConfUnit hu
  have htake : (formatConf style key v).takeWhile isConfUnit = key := by
    rw [formatConf_eq, hsep, append_assoc, takeWhile_append_of_pos hkeyUnits, cons_append,
      takeWhile_cons_of_neg (by simp [hstop]), append_nil]
  have hdrop : (formatConf style key v).dropWhile isConfUnit = separator style ++ v := by
    rw [formatConf_eq, append_assoc, dropWhile_append_of_pos hkeyUnits, hsep, cons_append,
      dropWhile_cons_of_neg (by simp [hstop])]
  obtain ⟨w, v', rfl⟩ := exists_cons_of_ne_nil hv.ne_nil
  have hw := hv.unit w mem_cons_self
  have hwspace : isSpace w = false := isSpace_of_isPlainUnit hw
  have hwequals : w ≠ equals := by
    rintro rfl
    exact absurd (plain_unit hw).1 (by decide)
  have hclean : ∀ u ∈ w :: v', isLineEnd u = false := fun u hu => (plain_unit (hv.unit u hu)).2.1
  obtain ⟨hwclean, hvclean⟩ := forall_mem_cons.mp hclean
  have hstart : (formatConf style key (w :: v')).head? = key.head? := by
    rw [formatConf_eq, append_assoc, head?_append_of_ne_nil _ hkey.ne_nil]
  have hbracket : key.head? ≠ some bracket := by
    intro h
    have hhead := hkey.head
    rw [h] at hhead
    exact absurd hhead (by decide)
  have hne : formatConf style key (w :: v') ≠ [] := by
    rw [formatConf_eq]
    simp
  rw [confEntry, confLine_written hkey hv, htake, hdrop, hstart, if_neg (by simp [hne, hbracket, hkey.head])]
  have hspaces : isSpace 0x09 ∧ isSpace space ∧ isSpace equals = false := by decide
  rcases separator_cases style with h | h | h <;> rw [h] <;>
    simpa [hspaces, hwspace, hwequals, hwclean, unquoteEnds_written hv] using hvclean

theorem setsKey_written (hkey : IsConfKey key) (hv : IsConfWritten v) (style : ConfStyle) :
    setsKey key (formatConf style key v) :=
  (setsKey_iff hkey (confEntry_written hkey hv style)).mpr rfl

/-- A line that starts with a character other than a space and a hash still does without its comment. -/
theorem head?_confLine {u : UInt16} {s : Str} (hspace : isSpace u = false) (hhash : u ≠ hash) :
    (confLine (u :: s)).head? = some u := by
  have hstrip : stripComment (u :: s) = u :: stripComment s := by
    rw [stripComment, if_neg (by simp [hhash])]
  obtain ⟨spaces, hspaces, hline, -⟩ := dropWhile_eq_trim_append (stripComment (u :: s))
  rw [hstrip, dropWhile_cons_of_neg (by simp [hspace]), ← hstrip] at hline
  rw [confLine]
  cases htrim : trim (stripComment (u :: s)) with
  | nil =>
    rw [htrim, nil_append, hstrip] at hline
    have hu := hspaces u (hline ▸ mem_cons_self)
    simp [hspace] at hu
  | cons w rest =>
    rw [htrim, hstrip] at hline
    simp [(cons.inj hline).1]

/-- A line that starts with a hash is a comment, or begins with one. -/
theorem confLine_comment (s : Str) : confLine (hash :: s) = [] ∨ (confLine (hash :: s)).head? = some hash := by
  rw [confLine, stripComment]
  split
  · exact .inl rfl
  · right
    obtain ⟨spaces, hspaces, hline, -⟩ := dropWhile_eq_trim_append (hash :: stripComment s)
    cases htrim : trim (hash :: stripComment s) with
    | nil =>
      rw [htrim, nil_append] at hline
      have hhash := hspaces hash (hline ▸ mem_cons_self)
      exact absurd hhash (by decide)
    | cons w rest =>
      rw [htrim] at hline
      simp [(cons.inj hline).1]

theorem confEntry_eq_none (h : (confLine raw).head?.any isConfStart = false) : confEntry raw = none := by
  exact if_pos (by simp [h])

theorem confEntry_comment (s : Str) : confEntry (hash :: s) = none := by
  refine confEntry_eq_none ?_
  rcases confLine_comment s with h | h <;> rw [h] <;> decide

theorem confEntry_blank (h : isBlank raw) : confLine raw = [] ∧ confEntry raw = none := by
  have htrim : trim raw = [] := isEmpty_iff.mp h
  obtain ⟨spaces, hspaces, hline, -⟩ := dropWhile_eq_trim_append raw
  have hall : ∀ u ∈ raw, isSpace u := by
    rw [← dropWhile_eq_nil_iff]
    by_contra hne
    obtain ⟨u, rest, heq⟩ := exists_cons_of_ne_nil hne
    have hhead := head?_dropWhile_not isSpace raw
    rw [htrim, nil_append, heq] at hline
    rw [heq, head?_cons] at hhead
    simp [hspaces u (hline ▸ mem_cons_self)] at hhead
  have hhash : hash ∉ raw := fun hmem => absurd (hall hash hmem) (by decide)
  have hnil : confLine raw = [] := by rw [confLine, stripComment_of_clean hhash, htrim]
  exact ⟨hnil, confEntry_eq_none (by rw [hnil]; rfl)⟩

theorem superseded_eq (line : Str) : ∃ s, superseded line = hash :: s := by
  have hstart : text "# " = [hash, space] := by decide
  exact ⟨_, rfl⟩

theorem setsKey_superseded (key line : Str) : setsKey key (superseded line) = false := by
  obtain ⟨s, hs⟩ := superseded_eq line
  rw [hs, setsKey, dropWhile_cons_of_neg (by decide)]
  simp

end Lines

/-! ## Edits -/

section Edits

variable {l : Library} {ls : List Str} {file : Option Str} {policy : ConfPolicy} {key : Str} {value : Option Str}

/-- What `toLowerCase` does to texts in ASCII. -/
def LowersAscii (l : Library) : Prop := ∀ s : Str, (∀ u ∈ s, u.toNat < 0x80) → l.lower s = fold s

/-- Lines without a newline, with one newline at their end. -/
theorem lines_endOnce (hclean : ∀ line ∈ ls, newline ∉ line) : lines (endOnce (joinLines ls)) =
    (if (ls.rdropWhile isEmpty).isEmpty then [[]] else ls.rdropWhile isEmpty) ++ [[]] := by
  have hend : (joinLines ls).rdropWhile (· == newline) = joinLines (ls.rdropWhile isEmpty) := by
    induction ls using reverseRecOn with
    | nil => rfl
    | append_singleton ls line ih =>
      have hclean' : ∀ line ∈ ls, newline ∉ line := fun line hline => hclean line (mem_append_left _ hline)
      cases line with
      | nil =>
        rw [rdropWhile_concat_pos _ _ _ rfl, ← ih hclean']
        by_cases hnil : ls = []
        · rw [hnil]
          rfl
        · rw [← joinLines_concat hnil, rdropWhile_concat_pos _ _ _ (by simp)]
      | cons u line =>
        have hlast : (joinLines (ls ++ [u :: line])).getLast? = (u :: line).getLast? :=
          getLast?_intercalate getLast?_concat (cons_ne_nil u line)
        rw [rdropWhile_concat_neg _ _ _ (by simp), rdropWhile_eq_self_iff]
        intro hne hnewline
        rw [getLast?_eq_some_getLast hne] at hlast
        have hmem := mem_of_getLast? hlast.symm
        rw [eq_of_beq hnewline] at hmem
        exact hclean (u :: line) (by simp) hmem
  rw [endOnce, hend]
  split
  · rename_i hempty
    rw [isEmpty_iff.mp hempty]
    decide
  · rename_i hne
    exact lines_joinLines_newline (by simpa using hne) fun line hline => hclean line (Ends.mem_of_mem_rdropWhile hline)

/-- Empty lines are not read. -/
theorem filterMap_endOnce {β : Type*} {read : Str → Option β} (hread : read [] = none)
    (hclean : ∀ line ∈ ls, newline ∉ line) : (linesOf (some (endOnce (joinLines ls)))).filterMap read =
      ls.filterMap read := by
  have hempty : ∀ line : Str, line.isEmpty → read line = none := fun line hline =>
    isEmpty_iff.mp hline ▸ hread
  rw [linesOf, getD_some, lines_endOnce hclean, ← filterMap_rdropWhile hempty ls]
  split
  · rename_i hnil
    simp [isEmpty_iff.mp hnil, hread]
  · simp [hread]

theorem agree_conf (hl : LowersAscii l) (hkey : IsConfKey key) : Agree confEntry (setsKey key) (isKey l key) := by
  rintro raw ⟨k, v⟩ hread
  obtain ⟨-, -, -, -, hunits, -⟩ := confEntry_key hread
  have hascii {s : Str} (hs : ∀ u ∈ s, isConfUnit u) : l.lower s = fold s := by
    refine hl s fun u hu => toNat_lt_of_isPlainUnit ?_
    have hdot : oneOf ".:/" dot := by decide
    rcases Bool.or_eq_true_iff.mp (hs u hu) with hname | hdot'
    · simp [isPlainUnit, hname]
    · simp [isPlainUnit, eq_of_beq hdot', hdot]
  rw [Bool.eq_iff_iff, setsKey_iff hkey hread, isKey, decide_eq_true_eq, hascii hunits,
    hascii fun u hu => by simp [isConfUnit, hkey.unit u hu]]

structure IsPolicy (policy : ConfPolicy) : Prop where
  header : ∀ name ∈ policy.section, confLine (sectionLine name) = sectionLine name ∧
    trim (sectionLine name) = sectionLine name ∧ newline ∉ sectionLine name

theorem head?_sectionLine (name : Str) : (sectionLine name).head? = some bracket := by
  have hbracket : (text "[").head? = some bracket := by decide
  rfl

/-- The lines that are put before a new key: the header of its section, if the file has none. -/
def headerLines (policy : ConfPolicy) (ls : List Str) (isDropin : Bool) : List Str :=
  match policy.section with
  | some name =>
    if isDropin && !(dropBlankEnd ls).any (fun l => trim l == sectionLine name) then
      (if (dropBlankEnd ls).isEmpty then [confHeader] else []) ++ [sectionLine name]
    else []
  | none => []

theorem headerLines_read (hpolicy : IsPolicy policy) (isDropin : Bool) : ∀ line ∈ headerLines policy ls isDropin,
    confEntry line = none ∧ newline ∉ line := by
  intro line hline
  rw [headerLines] at hline
  split at hline
  · rename_i name hname
    obtain ⟨hconf, -, hclean⟩ := hpolicy.header name hname
    split at hline
    · have hcases : line = confHeader ∨ line = sectionLine name := by
        rw [mem_append, mem_singleton] at hline
        refine hline.imp_left fun h => ?_
        split at h
        · exact mem_singleton.mp h
        · cases h
      rcases hcases with rfl | rfl
      · exact ⟨by decide, by decide⟩
      · refine ⟨confEntry_eq_none ?_, hclean⟩
        rw [hconf, head?_sectionLine]
        decide
    · cases hline
  · cases hline

def editedLines (policy : ConfPolicy) (key : Str) (value : Option Str) (isDropin : Bool) (ls : List Str) : List Str :=
  match value with
  | none => ls.filter fun line => !setsKey key line
  | some v =>
    if ls.any (setsKey key) then supersede (setsKey key) superseded (formatConf policy.style key v) ls
    else dropBlankEnd ls ++ headerLines policy ls isDropin ++ [formatConf policy.style key v]

theorem endOnce_of_last {s : Str} (h : ∀ u ∈ s.getLast?, u ≠ newline) : endOnce s = s ++ [newline] := by
  have hself : s.rdropWhile (· == newline) = s := by
    rw [rdropWhile_eq_self_iff]
    intro hne hlast
    exact h _ (getLast?_eq_some_getLast hne) (eq_of_beq hlast)
  rw [endOnce, hself]

theorem endOnce_endOnce (s : Str) : endOnce (endOnce s) = endOnce s := by
  rw [endOnce, endOnce, rdropWhile_concat_pos _ _ _ (by simp), rdropWhile_idempotent]

theorem getLast?_joinLines_written (hkey : IsConfKey key) {v : Str} (hv : IsConfWritten v) (style : ConfStyle)
    (ls : List Str) : ∀ u ∈ (joinLines (ls ++ [formatConf style key v])).getLast?, u ≠ newline := by
  have hne : formatConf style key v ≠ [] := by
    rw [formatConf_eq]
    simp [hkey.ne_nil]
  have hlast : (joinLines (ls ++ [formatConf style key v])).getLast? = (formatConf style key v).getLast? :=
    getLast?_intercalate getLast?_concat hne
  rw [hlast]
  exact fun u hu => (written_clean hkey hv style u (mem_of_getLast? hu)).2

theorem editConf_eq (file : Option Str) (policy : ConfPolicy) (hkey : IsConfKey key) (isDropin : Bool)
    (hvalue : ∀ v ∈ value, IsConfWritten v) : editConf file policy key value isDropin =
      endOnce (joinLines (editedLines policy key value isDropin (linesOf file))) := by
  cases value with
  | none => rfl
  | some v =>
    rw [editConf, editedLines]
    by_cases hany : (linesOf file).any (setsKey key)
    · have hany' : (lines (file.getD [])).any (setsKey key) := hany
      rw [if_pos hany, if_pos hany']
      rfl
    · have hany' : ¬ (lines (file.getD [])).any (setsKey key) := hany
      rw [if_neg hany, if_neg hany', endOnce_of_last (getLast?_joinLines_written hkey (hvalue v rfl) _ _)]
      rfl

/-- No edit puts a newline into a line. -/
theorem editedLines_clean (hpolicy : IsPolicy policy) (hkey : IsConfKey key) (hvalue : ∀ v ∈ value, IsConfWritten v)
    (isDropin : Bool) {ls : List Str} (hclean : ∀ line ∈ ls, newline ∉ line) :
    ∀ line ∈ editedLines policy key value isDropin ls, newline ∉ line := by
  cases value with
  | none => exact fun line hline => hclean line (mem_of_mem_filter hline)
  | some v =>
    have hwritten : newline ∉ formatConf policy.style key v := fun hmem =>
      (written_clean hkey (hvalue v rfl) policy.style newline hmem).2 rfl
    intro line hline
    rw [editedLines] at hline
    split at hline
    · rename_i hany
      obtain ⟨before, last, after, rfl, -, -, heq⟩ := supersede_eq superseded
        (formatConf policy.style key v) hany
      rw [heq, List.mem_append, List.mem_map, List.mem_cons] at hline
      rcases hline with ⟨old, hold, rfl⟩ | rfl | hline
      · have hold := hclean old (by simp [hold])
        split
        · have hstart : newline ∉ text "# " ∧ newline ∉ text "  # superseded by Tracenium" := by decide
          rw [superseded, mem_append, mem_append, not_or, not_or]
          exact ⟨⟨hstart.1, fun hmem => hold (mem_of_mem_trim hmem)⟩, hstart.2⟩
        · exact hold
      · exact hwritten
      · exact hclean line (by simp [hline])
    · rw [mem_append, mem_append, mem_singleton] at hline
      rcases hline with (hline | hline) | rfl
      · exact hclean line (Ends.mem_of_mem_rdropWhile hline)
      · exact (headerLines_read hpolicy isDropin line hline).2
      · exact hwritten

/-- The entries after an edit. -/
theorem entries_edited (hl : LowersAscii l) (hpolicy : IsPolicy policy) (hkey : IsConfKey key)
    (hvalue : ∀ v ∈ value, IsConfWritten v) (isDropin : Bool) (ls : List Str) :
    let after := (editedLines policy key value isDropin ls).filterMap confEntry
    after.filter (isKey l key) = value.toList.map (fun v => (key, v)) ∧
      (after.filter fun e => !isKey l key e) = (ls.filterMap confEntry).filter fun e => !isKey l key e := by
  have hagree := agree_conf hl hkey
  cases value with
  | none => exact ⟨ours_kept hagree ls, others_kept hagree ls⟩
  | some v =>
    have hread := confEntry_written hkey (hvalue v rfl) policy.style
    have hours : isKey l key (key, v) := by simp [isKey]
    rw [editedLines]
    dsimp only
    split
    · rename_i hany
      have hretire : ∀ line, confEntry (superseded line) = none := by
        intro line
        obtain ⟨s, hs⟩ := superseded_eq line
        rw [hs, confEntry_comment]
      exact entries_supersede hagree hretire hread hours hany
    · rename_i hany
      have hkept : ls.filter (fun line => !setsKey key line) = ls := by
        refine filter_eq_self.mpr fun line hline => ?_
        simpa using fun hsets => hany (any_eq_true.mpr ⟨line, hline, hsets⟩)
      have hblank : ∀ line, isBlank line → confEntry line = none := fun line h => (confEntry_blank h).2
      have hheader : (headerLines policy ls isDropin).filterMap confEntry = [] :=
        filterMap_eq_nil_iff.mpr fun line hline => (headerLines_read hpolicy isDropin line hline).1
      have hold : (ls.filterMap confEntry).filter (isKey l key) = [] := by
        rw [← hkept]
        exact ours_kept hagree ls
      have hdrop : (dropBlankEnd ls).filterMap confEntry = ls.filterMap confEntry := filterMap_rdropWhile hblank ls
      rw [filterMap_append, filterMap_append, hheader, hdrop, append_nil,
        filterMap_cons_some hread, filterMap_nil, filter_append, filter_append, hold]
      simp [hours]

/-! ## Places -/

/-- The place of the line that is written: the lines before it and after it have nothing to do with the key. -/
structure Placed (key line : Str) (ls before after : List Str) : Prop where
  eq : ls = before ++ line :: after
  before : ∀ line ∈ before, setsKey key line = false
  after : ∀ line ∈ after, setsKey key line = false

/-- The lines before the one of the key that counts, or all of them and the header of the section. -/
def linesBefore (policy : ConfPolicy) (key : Str) (isDropin : Bool) (ls : List Str) : List Str :=
  if ls.any (setsKey key) then (ls.rdropWhile fun line => !setsKey key line).dropLast
  else dropBlankEnd ls ++ headerLines policy ls isDropin

theorem lastHeader_append (ls ls' : List Str) : lastHeader (ls ++ ls') = (lastHeader ls').or (lastHeader ls) := by
  rw [lastHeader, map_append, filter_append, getLast?_append, lastHeader, lastHeader]

theorem lastHeader_congr {f : Str → Str} (h : ∀ line ∈ ls, confLine (f line) = confLine line ∨
    (confLine (f line)).head? ≠ some bracket ∧ (confLine line).head? ≠ some bracket) :
    lastHeader (ls.map f) = lastHeader ls := by
  induction ls with
  | nil => rfl
  | cons line ls ih =>
    have ih := ih fun line hline => h line (mem_cons_of_mem _ hline)
    rw [map_cons, ← singleton_append, lastHeader_append, ih, ← singleton_append (l := ls), lastHeader_append]
    congr 1
    rcases h line mem_cons_self with heq | ⟨hnew, hold⟩
    · simp [lastHeader, heq]
    · simp [lastHeader, hnew, hold]

theorem confLine_dropWhile (raw : Str) : confLine (raw.dropWhile isSpace) = confLine raw := by
  induction raw with
  | nil => rfl
  | cons u raw ih =>
    by_cases hspace : isSpace u
    · have hhash : u ≠ hash := by
        rintro rfl
        exact absurd hspace (by decide)
      rw [dropWhile_cons_of_pos hspace, ih, confLine, confLine, stripComment, if_neg (by simp [hhash]), trim,
        trim, dropWhile_cons_of_pos hspace]
    · rw [dropWhile_cons_of_neg hspace]

/-- A line that sets a key starts with a letter or a line, after spaces. -/
theorem exists_start_of_setsKey (hkey : IsConfKey key) {line : Str} (h : setsKey key line) :
    ∃ u rest, line.dropWhile isSpace = u :: rest ∧ isConfUnit u := by
  simp only [setsKey, Bool.and_eq_true, beq_iff_eq] at h
  have hunits := confUnit_of_fold h.1.1 fun u hu => by simp [isConfUnit, hkey.unit u hu]
  have hlength : ((line.dropWhile isSpace).take key.length).length = key.length := by
    simpa [fold] using congrArg length h.1.1
  cases hline : line.dropWhile isSpace with
  | nil =>
    rw [hline, take_nil, length_nil] at hlength
    exact absurd (length_eq_zero_iff.mp hlength.symm) hkey.ne_nil
  | cons u rest =>
    refine ⟨u, rest, rfl, hunits u ?_⟩
    rw [hline, ← Nat.succ_pred (Nat.ne_of_gt (length_pos_iff.mpr hkey.ne_nil)), take_succ_cons]
    exact mem_cons_self

/-- A line that sets a key is no header. -/
theorem head?_confLine_of_setsKey (hkey : IsConfKey key) {line : Str} (h : setsKey key line) :
    (confLine line).head? ≠ some bracket := by
  obtain ⟨u, rest, hline, hu⟩ := exists_start_of_setsKey hkey h
  have hspace : isSpace u = false := by
    by_contra hspace
    simp [not_isConfUnit (.inr (by simpa using hspace))] at hu
  have hne : u ≠ hash ∧ u ≠ bracket := by
    constructor
    · rintro rfl
      exact absurd hu (by decide)
    · rintro rfl
      exact absurd hu (by decide)
  rw [← confLine_dropWhile, hline, head?_confLine hspace hne.1]
  exact fun h => hne.2 (some.inj h)

theorem setsKey_eq_false_of_head (hkey : IsConfKey key) {u : UInt16} {s : Str} (hspace : isSpace u = false)
    (hunit : isConfUnit u = false) : setsKey key (u :: s) = false := by
  by_contra hsets
  obtain ⟨w, rest, hline, hw⟩ := exists_start_of_setsKey hkey (by simpa using hsets)
  rw [dropWhile_cons_of_neg (by simp [hspace])] at hline
  rw [← (cons.inj hline).1, hunit] at hw
  cases hw

theorem setsKey_nil (hkey : IsConfKey key) : setsKey key [] = false := by
  by_contra hsets
  obtain ⟨w, rest, hline, -⟩ := exists_start_of_setsKey hkey (by simpa using hsets)
  cases hline

theorem headerLines_free (hkey : IsConfKey key) (isDropin : Bool) : ∀ line ∈ headerLines policy ls isDropin,
    setsKey key line = false := by
  intro line hline
  rw [headerLines] at hline
  split at hline
  · rename_i name hname
    split at hline
    · have hcases : line = confHeader ∨ line = sectionLine name := by
        rw [mem_append, mem_singleton] at hline
        refine hline.imp_left fun h => ?_
        split at h
        · exact mem_singleton.mp h
        · cases h
      rcases hcases with rfl | rfl
      · obtain ⟨s, hs⟩ : ∃ s, confHeader = hash :: s := ⟨confHeader.tail, by decide⟩
        exact setsKey_eq_false_of_head hkey (by decide) (by decide)
      · have hhead := head?_sectionLine name
        cases hsection : sectionLine name with
        | nil => simp [hsection] at hhead
        | cons u s =>
          obtain rfl : u = bracket := by simpa [hsection] using hhead
          exact setsKey_eq_false_of_head hkey (by decide) (by decide)
    · cases hline
  · cases hline

theorem exists_placed (hpolicy : IsPolicy policy) (hkey : IsConfKey key) {v : Str} (hv : IsConfWritten v)
    (isDropin : Bool) (file : Option Str) : ∃ before after,
      Placed key (formatConf policy.style key v) (linesOf (some (editConf file policy key (some v) isDropin)))
          before after ∧ lastHeader before = lastHeader (linesBefore policy key isDropin (linesOf file)) := by
  have hvalue : ∀ w ∈ some v, IsConfWritten w := fun w hw => some.inj hw ▸ hv
  have hclean : ∀ line ∈ editedLines policy key (some v) isDropin (linesOf file), newline ∉ line :=
    editedLines_clean hpolicy hkey hvalue isDropin fun _ => newline_notMem_of_mem_lines
  have hne : formatConf policy.style key v ≠ [] := by
    rw [formatConf_eq]
    simp [hkey.ne_nil]
  have hempty : (formatConf policy.style key v).isEmpty = false := by simpa using hne
  rw [linesOf, getD_some, editConf_eq file policy hkey isDropin hvalue, lines_endOnce hclean, editedLines,
    linesBefore]
  by_cases hany : (linesOf file).any (setsKey key)
  · rw [if_pos hany, if_pos hany]
    obtain ⟨before, line, after, heq, hline, hafter, hedited⟩ := supersede_eq superseded
      (formatConf policy.style key v) hany
    have hfree : ∀ line ∈ after, setsKey key line = false := fun line hline => by
      simpa using any_eq_false.mp hafter line hline
    have hleading : ((linesOf file).rdropWhile fun line => !setsKey key line).dropLast = before := by
      have hnil : after.rdropWhile (fun line => !setsKey key line) = [] :=
        rdropWhile_eq_nil_iff.mpr fun line hline => by simp [hfree line hline]
      rw [heq, Ends.rdropWhile_append_cons (by simp [hline]), hnil, dropLast_concat]
    rw [hedited, Ends.rdropWhile_append_cons hempty, if_neg (by simp), hleading]
    refine ⟨before.map fun line => if setsKey key line then superseded line else line,
      after.rdropWhile isEmpty ++ [[]], ⟨by simp, ?_, ?_⟩, ?_⟩
    · intro line hline
      obtain ⟨old, -, rfl⟩ := mem_map.mp hline
      split
      · exact setsKey_superseded key old
      · rename_i hsets
        simpa using hsets
    · intro line hline
      rcases mem_append.mp hline with hline | hline
      · exact hfree line (Ends.mem_of_mem_rdropWhile hline)
      · rw [mem_singleton.mp hline]
        exact setsKey_nil hkey
    · refine lastHeader_congr fun line _ => ?_
      split
      · rename_i hsets
        obtain ⟨s, hs⟩ := superseded_eq line
        refine .inr ⟨?_, head?_confLine_of_setsKey hkey hsets⟩
        rw [hs]
        rcases confLine_comment s with h | h <;> rw [h] <;> decide
      · exact .inl rfl
  · rw [if_neg hany, if_neg hany, rdropWhile_concat_neg _ _ _ (by simp [hempty]), if_neg (by simp)]
    refine ⟨dropBlankEnd (linesOf file) ++ headerLines policy (linesOf file) isDropin, [[]], ⟨by simp, ?_, ?_⟩, rfl⟩
    · intro line hline
      rcases mem_append.mp hline with hline | hline
      · have hfree := any_eq_false.mp (by simpa using hany) line (Ends.mem_of_mem_rdropWhile hline)
        simpa using hfree
      · exact headerLines_free hkey isDropin line hline
    · intro line hline
      rw [mem_singleton.mp hline]
      exact setsKey_nil hkey

/-! ## Sections -/

theorem sectioned_append (current : Option Str) (ls ls' : List Str) :
    sectioned current (ls ++ ls') = sectioned current ls ++ sectioned ((lastHeader ls).or current) ls' := by
  induction ls generalizing current with
  | nil => rfl
  | cons line ls ih =>
    rw [cons_append, sectioned, sectioned, ← singleton_append, lastHeader_append]
    by_cases hheader : (confLine line).head? = some bracket
    · have hlast : lastHeader [line] = some (confLine line) := by simp [lastHeader, hheader]
      rw [if_pos hheader, if_pos hheader, ih, hlast]
      cases lastHeader ls <;> rfl
    · have hlast : lastHeader [line] = none := by simp [lastHeader, hheader]
      rw [if_neg hheader, if_neg hheader, hlast, or_none]
      cases confEntry line with
      | none => exact ih current
      | some e => exact congrArg ((current, e) :: ·) (ih current)

theorem mem_sectioned {current : Option Str} {e : Option Str × Str × Str} (h : e ∈ sectioned current ls) :
    ∃ line ∈ ls, confEntry line = some e.2 := by
  induction ls generalizing current with
  | nil => cases h
  | cons line ls ih =>
    have hlater {current : Option Str} (h : e ∈ sectioned current ls) :
        ∃ line' ∈ line :: ls, confEntry line' = some e.2 := by
      obtain ⟨line', hline', hread⟩ := ih h
      exact ⟨line', mem_cons_of_mem _ hline', hread⟩
    rw [sectioned] at h
    split at h
    · exact hlater h
    · split at h
      · rename_i hread
        rcases mem_cons.mp h with rfl | h
        · exact ⟨line, mem_cons_self, hread⟩
        · exact hlater h
      · exact hlater h

/-- The entry of a placed line is the only one of its key, and it comes under the last header before it. -/
theorem Placed.sectioned_iff (hl : LowersAscii l) (hkey : IsConfKey key) {v : Str} (hv : IsConfWritten v)
    {style : ConfStyle} {before after : List Str} (h : Placed key (formatConf style key v) ls before after)
    (header : Str) : (∀ e ∈ sectioned none ls, l.lower e.2.1 = l.lower key → e.1 = some header) ↔
      lastHeader before = some header := by
  have hread := confEntry_written hkey hv style
  have hfree {current : Option Str} {ls : List Str} (hls : ∀ line ∈ ls, setsKey key line = false) :
      ∀ e ∈ sectioned current ls, l.lower e.2.1 ≠ l.lower key := by
    intro e he hlower
    obtain ⟨line, hline, hentry⟩ := mem_sectioned he
    have hagree := agree_conf hl hkey line e.2 hentry
    rw [hls line hline, isKey, decide_eq_false_iff_not] at hagree
    exact hagree hlower
  have hheader : (confLine (formatConf style key v)).head? ≠ some bracket :=
    head?_confLine_of_setsKey hkey (setsKey_written hkey hv style)
  have hsectioned : sectioned none ls =
      sectioned none before ++ (lastHeader before, key, v) :: sectioned (lastHeader before) after := by
    rw [h.eq, sectioned_append, or_none, sectioned, if_neg hheader, hread]
  rw [hsectioned]
  constructor
  · intro hall
    exact hall (lastHeader before, key, v) (by simp) rfl
  · intro hlast e he hlower
    rcases mem_append.mp he with he | he
    · exact absurd hlower (hfree h.before e he)
    · rcases mem_cons.mp he with rfl | he
      · exact hlast
      · exact absurd hlower (hfree h.after e he)

/-- The probe finds what the editor wrote, and the editor wrote it under its section. -/
structure ConfAgrees (l : Library) (file : Option Str) (policy : ConfPolicy) (key : Str) (value : Option Str) :
    Prop where
  found : lookup l (parseKeyValue (some (editConf file policy key value (policy.mode = .dropin)))) key = value ∧
    take l (some (editConf file policy key value (policy.mode = .dropin))) key = value
  others : ∀ other, l.lower other ≠ l.lower key →
    lookup l (parseKeyValue (some (editConf file policy key value (policy.mode = .dropin)))) other =
        lookup l (parseKeyValue file) other ∧
      take l (some (editConf file policy key value (policy.mode = .dropin))) other = take l file other
  placed : policy.mode = .dropin → ∀ name ∈ policy.section,
    ∀ e ∈ sectioned none (linesOf (some (editConf file policy key value (policy.mode = .dropin)))),
      l.lower e.2.1 = l.lower key → e.1 = some (sectionLine name)
  again :
    editConf (some (editConf file policy key value (policy.mode = .dropin))) policy key value (policy.mode = .dropin) =
      editConf file policy key value (policy.mode = .dropin)

/-- The header before the line that is replaced is the one of the section. Where no line is replaced, the last
header is, if the file has the one of the section at all. -/
def UnderSection (file : Option Str) (policy : ConfPolicy) (key : Str) : Prop :=
  policy.mode = .dropin → ∀ name ∈ policy.section,
    if (linesOf file).any (setsKey key) then
      lastHeader ((linesOf file).rdropWhile fun line => !setsKey key line).dropLast = some (sectionLine name)
    else
      (linesOf file).any (fun line => trim line == sectionLine name) = true →
        lastHeader (linesOf file) = some (sectionLine name)

/-! ## Agreement -/

theorem confEntries_editConf (hpolicy : IsPolicy policy) (hkey : IsConfKey key) (hvalue : ∀ v ∈ value, IsConfWritten v)
    (isDropin : Bool) (file : Option Str) : confEntries (some (editConf file policy key value isDropin)) =
      (editedLines policy key value isDropin (linesOf file)).filterMap confEntry := by
  rw [confEntries, editConf_eq file policy hkey isDropin hvalue]
  exact filterMap_endOnce rfl (editedLines_clean hpolicy hkey hvalue isDropin fun _ => newline_notMem_of_mem_lines)

theorem probed_editConf (hl : LowersAscii l) (hpolicy : IsPolicy policy) (hkey : IsConfKey key)
    (hvalue : ∀ v ∈ value, IsConfWritten v) (isDropin : Bool) (file : Option Str) :
    probed l (some (editConf file policy key value isDropin)) key = value.toList.map (fun v => (key, v)) ∧
      ∀ other, l.lower other ≠ l.lower key →
        probed l (some (editConf file policy key value isDropin)) other = probed l file other := by
  obtain ⟨hours, hothers⟩ := entries_edited hl hpolicy hkey hvalue isDropin (linesOf file)
  rw [← confEntries_editConf hpolicy hkey hvalue isDropin file] at hours hothers
  constructor
  · rw [probed, hours]
    cases value <;> rfl
  · intro other hother
    have hfilter (es : List (Str × Str)) : es.filter (isKey l other) =
        (es.filter fun e => !isKey l key e).filter (isKey l other) := by
      rw [List.filter_filter]
      refine filter_congr fun e _ => ?_
      by_cases he : l.lower e.1 = l.lower other <;> simp [isKey, he, hother]
    rw [probed, probed, hfilter, hothers, ← confEntries, ← hfilter]

theorem editConf_again (hpolicy : IsPolicy policy) (hkey : IsConfKey key) (hvalue : ∀ v ∈ value, IsConfWritten v)
    (isDropin : Bool) (file : Option Str) :
    editConf (some (editConf file policy key value isDropin)) policy key value isDropin =
      editConf file policy key value isDropin := by
  have hself : editedLines policy key value isDropin (linesOf (some (editConf file policy key value isDropin))) =
      linesOf (some (editConf file policy key value isDropin)) := by
    cases value with
    | none =>
      refine filter_eq_self.mpr fun line hline => ?_
      have hclean := editedLines_clean hpolicy hkey hvalue isDropin
        fun _ (hline : _ ∈ linesOf file) => newline_notMem_of_mem_lines hline
      rw [editConf_eq file policy hkey isDropin hvalue, linesOf, getD_some, lines_endOnce hclean] at hline
      have hcases : line = [] ∨ line ∈ (linesOf file).filter fun line => !setsKey key line := by
        rcases mem_append.mp hline with hline | hline
        · split at hline
          · exact .inl (mem_singleton.mp hline)
          · exact .inr (Ends.mem_of_mem_rdropWhile hline)
        · exact .inl (mem_singleton.mp hline)
      rcases hcases with rfl | hline
      · simp [setsKey_nil hkey]
      · exact (mem_filter.mp hline).2
    | some v =>
      obtain ⟨before, after, hplaced, -⟩ := exists_placed hpolicy hkey (hvalue v rfl) isDropin file
      have hsets := setsKey_written hkey (hvalue v rfl) policy.style
      rw [hplaced.eq, editedLines]
      rw [if_pos (any_eq_true.mpr ⟨_, by simp, hsets⟩)]
      exact supersede_self hsets hplaced.before hplaced.after
  have hjoin : joinLines (linesOf (some (editConf file policy key value isDropin))) =
      editConf file policy key value isDropin := intercalate_splitOn newline
  rw [editConf_eq (some _) policy hkey isDropin hvalue, hself, hjoin, editConf_eq file policy hkey isDropin hvalue,
    endOnce_endOnce]

theorem lastHeader_dropBlankEnd (ls : List Str) : lastHeader (dropBlankEnd ls) = lastHeader ls := by
  rw [show dropBlankEnd ls = ls.rdropWhile isBlank from rfl]
  induction ls using reverseRecOn with
  | nil => rfl
  | append_singleton ls line ih =>
    rw [rdropWhile_concat]
    split
    · have hnone : lastHeader [line] = none := by simp [lastHeader, (confEntry_blank ‹_›).1]
      rw [ih, lastHeader_append, hnone, none_or]
    · rfl

theorem any_dropBlankEnd {p : Str → Bool} (hp : ∀ line, isBlank line → p line = false) (ls : List Str) :
    (dropBlankEnd ls).any p = ls.any p := by
  rw [show dropBlankEnd ls = ls.rdropWhile isBlank from rfl]
  induction ls using reverseRecOn with
  | nil => rfl
  | append_singleton ls line ih =>
    rw [rdropWhile_concat]
    split
    · simp [ih, hp line ‹_›]
    · rfl

/-- The header that a new or a replaced line comes under is the one of the section. -/
theorem lastHeader_linesBefore_iff (hpolicy : IsPolicy policy) {name : Str} (hname : policy.section = some name) :
    lastHeader (linesBefore policy key true ls) = some (sectionLine name) ↔ if ls.any (setsKey key) then
        lastHeader (ls.rdropWhile fun line => !setsKey key line).dropLast = some (sectionLine name)
      else ls.any (fun line => trim line == sectionLine name) → lastHeader ls = some (sectionLine name) := by
  rw [linesBefore]
  split
  · rfl
  · have hblank : ∀ line, isBlank line → (trim line == sectionLine name) = false := by
      intro line hline
      have hhead := head?_sectionLine name
      rw [isEmpty_iff.mp hline]
      cases hsection : sectionLine name with
      | nil => simp [hsection] at hhead
      | cons u s => rfl
    rw [lastHeader_append, lastHeader_dropBlankEnd, headerLines, hname]
    dsimp only
    rw [any_dropBlankEnd hblank]
    cases hany : ls.any fun line => trim line == sectionLine name with
    | true => simp [lastHeader]
    | false =>
      have hlast : lastHeader ((if (dropBlankEnd ls).isEmpty then [confHeader] else []) ++ [sectionLine name]) =
          some (sectionLine name) := by
        simp [lastHeader, (hpolicy.header name hname).1, head?_sectionLine]
      rw [Bool.not_false, Bool.and_self, if_pos rfl, hlast]
      simp

/-- The editor and the probe agree on the value always, and on the section of a new or a replaced line exactly if the
header before its place is the one of the section. -/
theorem confAgrees_iff (hl : LowersAscii l) (file : Option Str) (hpolicy : IsPolicy policy) (hkey : IsConfKey key)
    (hvalue : ∀ v ∈ value, IsConfWritten v) :
    ConfAgrees l file policy key value ↔ (value.isSome → UnderSection file policy key) := by
  obtain ⟨hours, hothers⟩ := probed_editConf hl hpolicy hkey hvalue (policy.mode = .dropin) file
  have hfound : lookup l (parseKeyValue (some (editConf file policy key value (policy.mode = .dropin)))) key = value ∧
      take l (some (editConf file policy key value (policy.mode = .dropin))) key = value := by
    rw [lookup_eq, take_eq, hours]
    cases value <;> exact ⟨rfl, rfl⟩
  have hrest := fun other hother => by
    have hsame := hothers other hother
    exact (⟨by rw [lookup_eq, lookup_eq, hsame], by rw [take_eq, take_eq, hsame]⟩ :
      lookup l (parseKeyValue (some (editConf file policy key value (policy.mode = .dropin)))) other =
          lookup l (parseKeyValue file) other ∧
        take l (some (editConf file policy key value (policy.mode = .dropin))) other = take l file other)
  have hagain := editConf_again hpolicy hkey hvalue (policy.mode = .dropin) file
  have hplaced : (policy.mode = .dropin → ∀ name ∈ policy.section,
      ∀ e ∈ sectioned none (linesOf (some (editConf file policy key value (policy.mode = .dropin)))),
        l.lower e.2.1 = l.lower key → e.1 = some (sectionLine name)) ↔
      (value.isSome → UnderSection file policy key) := by
    cases value with
    | none =>
      refine iff_of_true (fun _ name _ e he hlower => ?_) nofun
      obtain ⟨line, hline, hread⟩ := mem_sectioned he
      obtain ⟨hnone, -⟩ := entries_edited hl hpolicy hkey hvalue (policy.mode = .dropin) (linesOf file)
      rw [← confEntries_editConf hpolicy hkey hvalue _ file] at hnone
      have hmem : e.2 ∈
          (confEntries (some (editConf file policy key none (policy.mode = .dropin)))).filter (isKey l key) :=
        mem_filter.mpr ⟨mem_filterMap.mpr ⟨line, hline, hread⟩, by simp [isKey, hlower]⟩
      rw [hnone] at hmem
      cases hmem
    | some v =>
      rw [isSome_some, UnderSection]
      simp only [true_implies]
      refine forall_congr' fun hmode => forall₂_congr fun name hname => ?_
      obtain ⟨before, after, hplaced, hlast⟩ := exists_placed hpolicy hkey (hvalue v rfl) (policy.mode = .dropin) file
      rw [hplaced.sectioned_iff hl hkey (hvalue v rfl), hlast, decide_eq_true hmode,
        lastHeader_linesBefore_iff hpolicy hname]
  exact ⟨fun h => hplaced.mp h.placed, fun h => ⟨hfound, hrest, hplaced.mpr h, hagain⟩⟩

end Edits

end Hardening
