-- SUMMARY: When the file jail, asked again with the real path that it allowed, allows the same path.
import Tracenium.Rcp.Accounting
import Mathlib.Data.List.DropRight

open Utf16 Segments List Bool Option

namespace Rcp

open FileTree Name

variable {platform : Platform}

/-! ## The text of a path -/

section Text

/-- The text of a device and of what is below it. -/
def renderBelow (d : Device platform) (tail : Str) : Str :=
  spell platform.sep d.segments ++ platform.sep :: tail

theorem render_eq (p : AbsPath platform) :
    render p = renderBelow p.root (spell platform.sep (p.names.map Name.text)) := by
  have hroot : p.root.segments ≠ [] := by
    intro hnil
    have hbare := segments_ne_nil (⟨p.root, []⟩ : AbsPath platform)
    simp [segments, hnil] at hbare
  unfold render renderBelow
  split
  · rename_i hnames
    simp [hnames, spell]
  · rename_i hnames
    rw [segments, spell_append _ hroot (by simpa using hnames)]

theorem takeWhile_clean {p : UInt16 → Bool} {a b : Str} {c : UInt16} (ha : ∀ u ∈ a, p u = false) (hc : p c) :
    (a ++ c :: b).takeWhile (fun u => !p u) = a ∧ (a ++ c :: b).dropWhile (fun u => !p u) = c :: b := by
  have hpos : ∀ u ∈ a, (!p u) := by simpa using ha
  rw [takeWhile_append_of_pos hpos, dropWhile_append_of_pos hpos]
  simp [hc]

theorem dropWhile_label {s b : Str} (hs : isLabel platform s) :
    (s ++ b).dropWhile (isPathSeparator platform) = s ++ b := by
  cases s with
  | nil => simp [isLabel] at hs
  | cons c s =>
    simp only [isLabel, all_cons, and_eq_true, not_eq_true'] at hs
    simp [hs.2.1]

theorem toSteps_sep (c : UInt16) (hc : isPathSeparator platform c) (s : Str) :
    toSteps platform (c :: s) = toSteps platform s := by
  have hnil : toStep platform [] = none := by simp [toStep, isName]
  have hsplit := splitOnP_append_cons [] s hc
  rw [toSteps, toSteps, ← nil_append (c :: s), hsplit]
  simp [hnil]

theorem isPathSeparator_driveLetter {c : UInt16} (hc : isDriveLetter c) :
    isPathSeparator .win32 c = false := by
  have hne : c ≠ slash ∧ c ≠ backslash := by
    constructor <;> rintro rfl <;> exact absurd hc (by decide)
  simp [isPathSeparator, hne]

/-- POSIX has one device. -/
theorem segments_of_posix (hplatform : platform ≠ .win32) (d : Device platform) : d.segments = [[]] := by
  rcases (device_segments d).2 with ⟨-, h⟩ | ⟨hwin, -⟩
  · exact h
  · exact absurd hwin hplatform

theorem resolve_posix (hplatform : platform ≠ .win32) (w : WorkingDir platform) (d : Device platform) {tail : Str}
    (hhead : ∀ c ∈ tail.head?, isPathSeparator platform c = false) :
    resolve w (platform.sep :: tail) = ⟨d, normalize [] (toSteps platform tail)⟩ := by
  have hroot : w.cwd.root = d := by
    rw [Device.mk.injEq, segments_of_posix hplatform, segments_of_posix hplatform]
  have hsplit : splitRoot platform (platform.sep :: tail) = (none, true, tail) := by
    cases tail with
    | nil => simp [splitRoot, isPathSeparator_sep]
    | cons c tail =>
      have hc : isPathSeparator platform c = false := hhead c rfl
      simp [splitRoot, isPathSeparator_sep, hc]
  rw [resolve, hsplit]
  rw [hroot]

theorem splitRoot_drive {letter : UInt16} (h : isDevice .win32 [[letter, colon]]) (tail : Str) :
    splitRoot .win32 (letter :: colon :: backslash :: tail) = (some ⟨[[letter, colon]], h⟩, true, tail) := by
  have hletter : isPathSeparator .win32 letter = false := by
    simp only [isDevice, and_eq_true] at h
    exact isPathSeparator_driveLetter h.1.2
  have hsep : isPathSeparator .win32 backslash := rfl
  simp [splitRoot, hletter, h, hsep]

theorem splitRoot_share {server share : Str} (h : isDevice .win32 [[], [], server, share]) (tail : Str) :
    splitRoot .win32 (backslash :: backslash :: (server ++ backslash :: (share ++ backslash :: tail))) =
      (some ⟨[[], [], server, share], h⟩, true, backslash :: tail) := by
  have hsep : isPathSeparator .win32 backslash := rfl
  simp only [isDevice, and_eq_true] at h
  have hclean : ∀ {s : Str}, isLabel .win32 s → ∀ u ∈ s, isPathSeparator .win32 u = false := by
    intro s hs
    simp only [isLabel, Bool.and_eq_true, List.all_eq_true, Bool.not_eq_true'] at hs
    exact hs.2
  obtain ⟨hserver, hafter⟩ := takeWhile_clean (b := share ++ backslash :: tail) (hclean h.1.2) hsep
  obtain ⟨hshare, htail⟩ := takeWhile_clean (b := tail) (hclean h.2) hsep
  have hskip : (backslash :: (share ++ backslash :: tail)).dropWhile (isPathSeparator .win32) =
      share ++ backslash :: tail := by
    rw [List.dropWhile_cons_of_pos hsep, dropWhile_label h.2]
  have hdevice : isDevice .win32 [[], [], server, share] := by simpa [isDevice] using h
  simp only [splitRoot, hsep, if_true, hserver, hafter, hskip, hshare, htail, hdevice, dif_pos]

/-- The text of a device is read as the device. -/
theorem resolve_renderBelow (w : WorkingDir platform) (d : Device platform) {tail : Str}
    (hhead : ∀ c ∈ tail.head?, isPathSeparator platform c = false) :
    resolve w (renderBelow d tail) = ⟨d, normalize [] (toSteps platform tail)⟩ := by
  by_cases hplatform : platform = .win32
  · subst hplatform
    obtain ⟨segments, hvalid⟩ := d
    have hdevice := hvalid
    unfold isDevice at hdevice
    split at hdevice
    · cases hdevice
    · simp only [and_eq_true, decide_eq_true_eq] at hdevice
      obtain ⟨-, rfl⟩ := hdevice
      have hsplit := splitRoot_drive hvalid tail
      simp [renderBelow, resolve, spell, Platform.sep, hsplit]
    · have hsplit := splitRoot_share hvalid tail
      have hsep : toSteps .win32 (backslash :: tail) = toSteps .win32 tail := toSteps_sep backslash rfl tail
      simp [renderBelow, resolve, spell, Platform.sep, hsplit, hsep]
    · cases hdevice
  · have hresolve := resolve_posix hplatform w d hhead
    simpa [renderBelow, segments_of_posix hplatform, spell] using hresolve

theorem toStep_text (n : Name platform) : toStep platform n.text = some (.name n) := by
  simp [toStep, n.valid]

/-- Names and one more component are read as they are written. -/
theorem toSteps_spell (ns : List (Name platform)) {x : Str} (hx : ∀ c ∈ x, isPathSeparator platform c = false) :
    toSteps platform (spell platform.sep (ns.map Name.text ++ [x])) = ns.map .name ++ (toStep platform x).toList := by
  have hclean : Clean (isPathSeparator platform) (ns.map Name.text ++ [x]) := by
    intro y hy
    rcases mem_append.mp hy with hy | hy
    · obtain ⟨n, -, rfl⟩ := mem_map.mp hy
      exact (name_spec n).2
    · obtain rfl := mem_singleton.mp hy
      exact hx
  have hnames : (ns.map Name.text).filterMap (toStep platform) = ns.map .name := by
    simp [toStep_text]
  rw [toSteps, splitOnP_spell_of_clean (isPathSeparator_sep platform) (by simp) hclean, filterMap_append, hnames]
  cases hstep : toStep platform x <;> simp [hstep]

theorem normalize_names (ns ms : List (Name platform)) (steps : List (Step (Name platform))) :
    normalize ns (ms.map .name ++ steps) = normalize (ns ++ ms) steps := by
  induction ms generalizing ns with
  | nil => simp
  | cons m ms ih => simp [normalize, ih]

theorem head_spell {xs : List Str} (hclean : Clean (isPathSeparator platform) xs) (hhead : ∀ x ∈ xs.dropLast, x ≠ []) :
    ∀ c ∈ (spell platform.sep xs).head?, isPathSeparator platform c = false := by
  intro c hc
  cases xs with
  | nil => cases hc
  | cons x xs =>
    cases x with
    | nil =>
      cases xs with
      | nil => cases hc
      | cons y xs => exact absurd rfl (hhead [] (by simp))
    | cons u x =>
      have hu : u = c := by
        cases xs <;> simpa [spell] using hc
      exact hclean (u :: x) mem_cons_self c (hu ▸ mem_cons_self)

/-- What the names and one more component lead to. -/
theorem resolve_component (w : WorkingDir platform) (d : Device platform) (ns : List (Name platform)) {x : Str}
    (hx : ∀ c ∈ x, isPathSeparator platform c = false) :
    resolve w (renderBelow d (spell platform.sep (ns.map Name.text ++ [x]))) =
      ⟨d, normalize ns (toStep platform x).toList⟩ := by
  have hhead : ∀ c ∈ (spell platform.sep (ns.map Name.text ++ [x])).head?, isPathSeparator platform c = false := by
    apply head_spell
    · intro y hy
      rcases mem_append.mp hy with hy | hy
      · obtain ⟨n, -, rfl⟩ := mem_map.mp hy
        exact (name_spec n).2
      · obtain rfl := mem_singleton.mp hy
        exact hx
    · intro y hy
      rw [dropLast_concat] at hy
      obtain ⟨n, -, rfl⟩ := mem_map.mp hy
      exact (name_spec n).1
  rw [resolve_renderBelow w d hhead, toSteps_spell ns hx, normalize_names, nil_append]

/-- A path is read as it is written. -/
theorem resolve_render (w : WorkingDir platform) (p : AbsPath platform) : resolve w (render p) = p := by
  obtain ⟨d, names⟩ := p
  rw [render_eq]
  rcases eq_nil_or_concat' names with rfl | ⟨ns, n, rfl⟩
  · exact resolve_renderBelow w d nofun
  · have hread := resolve_component w d ns (name_spec n).2
    rw [toStep_text] at hread
    simpa [normalize] using hread

/-! ### Blanks -/

theorem isSpace_sep (platform : Platform) : isSpace platform.sep = false := by
  cases platform <;> rfl

theorem isSpace_driveLetter {c : UInt16} (hc : isDriveLetter c) : isSpace c = false := by
  simp only [isDriveLetter, isSpace, or_eq_true, and_eq_true, decide_eq_true_eq, or_eq_false_iff,
    and_eq_false_iff, decide_eq_false_iff_not, UInt16.le_iff_toNat_le, ← UInt16.toNat_inj] at hc ⊢
  simp at hc ⊢
  omega

/-- No blank is in front of a path. -/
theorem dropWhile_renderBelow (d : Device platform) (tail : Str) :
    (renderBelow d tail).dropWhile isSpace = renderBelow d tail := by
  have hhead : ∃ c rest, renderBelow d tail = c :: rest ∧ isSpace c = false := by
    obtain ⟨segments, hvalid⟩ := d
    unfold isDevice at hvalid
    split at hvalid
    · exact ⟨_, _, rfl, isSpace_sep platform⟩
    · simp only [and_eq_true] at hvalid
      exact ⟨_, _, rfl, isSpace_driveLetter hvalid.1.2⟩
    · exact ⟨_, _, rfl, isSpace_sep platform⟩
    · cases hvalid
  obtain ⟨c, rest, hrender, hc⟩ := hhead
  rw [hrender, dropWhile_cons_of_neg (by simp [hc])]

theorem rdropWhile_append_cons {p : UInt16 → Bool} {c : UInt16} (hc : p c = false) (a x : Str) :
    (a ++ c :: x).rdropWhile p = a ++ c :: x.rdropWhile p := by
  induction x using reverseRecOn with
  | nil => simp [hc]
  | append_singleton x u ih =>
    rw [← cons_append, ← append_assoc, rdropWhile_concat, rdropWhile_concat]
    split
    · exact ih
    · simp

theorem trim_root (d : Device platform) : trim (renderBelow d []) = renderBelow d [] := by
  change ((renderBelow d []).dropWhile isSpace).rdropWhile isSpace = renderBelow d []
  rw [dropWhile_renderBelow]
  exact rdropWhile_append_cons (isSpace_sep platform) _ []

/-- The blanks at the end of a path are those of its last name. -/
theorem trim_component (d : Device platform) (ns : List (Name platform)) (x : Str) :
    trim (renderBelow d (spell platform.sep (ns.map Name.text ++ [x]))) =
      renderBelow d (spell platform.sep (ns.map Name.text ++ [x.rdropWhile isSpace])) := by
  have hend : ∃ a, ∀ y : Str,
      renderBelow d (spell platform.sep (ns.map Name.text ++ [y])) = a ++ platform.sep :: y := by
    by_cases hns : ns.map Name.text = []
    · exact ⟨spell platform.sep d.segments, fun y => by simp [hns, renderBelow, spell]⟩
    · refine ⟨spell platform.sep d.segments ++ platform.sep :: spell platform.sep (ns.map Name.text), fun y => ?_⟩
      rw [renderBelow, spell_append _ hns (cons_ne_nil _ _)]
      simp [spell]
  obtain ⟨a, ha⟩ := hend
  change ((renderBelow d _).dropWhile isSpace).rdropWhile isSpace = _
  rw [dropWhile_renderBelow, ha, ha, rdropWhile_append_cons (isSpace_sep platform)]

/-- Where the path without its blanks leads: to the path itself, or to a path with fewer names or another last name. -/
theorem resolve_trim (w : WorkingDir platform) (p : AbsPath platform) : trim (render p) = render p ∨
      (resolve w (trim (render p))).root = p.root ∧ ∃ ns n, p.names = ns ++ [n] ∧
        ((resolve w (trim (render p))).names <+: ns ∨
          ∃ m, m ≠ n ∧ (resolve w (trim (render p))).names = ns ++ [m]) := by
  obtain ⟨d, names⟩ := p
  rw [render_eq]
  rcases eq_nil_or_concat' names with rfl | ⟨ns, n, rfl⟩
  · exact .inl (trim_root d)
  · have hclean : ∀ c ∈ n.text.rdropWhile isSpace, isPathSeparator platform c = false :=
      fun c hc => (name_spec n).2 c (( rdropWhile_prefix isSpace n.text).subset hc)
    rw [map_append, map_singleton, trim_component, resolve_component w d ns hclean]
    by_cases hsame : n.text.rdropWhile isSpace = n.text
    · exact .inl (by rw [hsame])
    · refine .inr ⟨rfl, ns, n, rfl, ?_⟩
      cases hstep : toStep platform (n.text.rdropWhile isSpace) with
      | none => exact .inl prefix_rfl
      | some step =>
        cases step with
        | up => exact .inl ( dropLast_prefix ns)
        | name m =>
          have hm : m.text = n.text.rdropWhile isSpace := by
            unfold toStep at hstep
            split at hstep
            · cases hstep
              rfl
            · split at hstep <;> cases hstep
          exact .inr ⟨m, fun h => hsame (by rw [← hm, h]), rfl⟩

end Text

/-! ## Real paths -/

section Real

variable (host : Host platform) (fs : FileSystem platform)

/-- What is below a missing path is missing. -/
theorem existsSync_below {p : AbsPath platform} (hp : existsSync host fs p = false) (below : List (Name platform)) :
    existsSync host fs ⟨p.root, p.names ++ below⟩ = false := by
  induction below using reverseRecOn with
  | nil => simpa using hp
  | append_singleton below n ih =>
    have hnone : fs.resolve host.maxLinks ⟨p.root, p.names ++ below⟩ = none := by
      simpa [existsSync] using ih
    have hchild := resolve_child_eq_none (n := n) fun q hq => by cases hnone.symm.trans hq
    simpa [existsSync, Place.child] using hchild

/-- A part of the path that exists, with nothing of the rest below it, is the deepest. -/
theorem deepestExisting_eq (d : Device platform) (ns rest tail : List (Name platform))
    (hexists : existsSync host fs ⟨d, ns⟩)
    (hrest : ∀ n below, rest = n :: below → existsSync host fs ⟨d, ns ++ [n]⟩ = false) :
    deepestExisting host fs d (ns ++ rest).reverse tail = some (⟨d, ns⟩, rest ++ tail) := by
  induction rest using reverseRecOn generalizing tail with
  | nil =>
    rcases eq_nil_or_concat' ns with rfl | ⟨above, n, rfl⟩
    · simp [deepestExisting, hexists]
    · simp [deepestExisting, hexists]
  | append_singleton rest m ih =>
    have hmissing : existsSync host fs ⟨d, ns ++ rest ++ [m]⟩ = false := by
      cases rest with
      | nil => simpa using hrest m [] rfl
      | cons n rest =>
        simpa using existsSync_below host fs (hrest n _ rfl) (rest ++ [m])
    have hlater := ih (m :: tail) fun n below h => hrest n (below ++ [m]) (by rw [h, cons_append])
    have hnames : (ns ++ (rest ++ [m])).reverse = m :: (ns ++ rest).reverse := by simp
    have hprobe : (m :: (ns ++ rest).reverse).reverse = ns ++ rest ++ [m] := by simp
    rw [hnames, deepestExisting, hprobe, hmissing]
    simpa using hlater

theorem deepestExisting_eq_none {d : Device platform} (hroot : existsSync host fs ⟨d, []⟩ = false)
    (names : List (Name platform)) : deepestExisting host fs d names.reverse [] = none := by
  have hspec := deepestExisting_spec host fs d names.reverse []
  cases hdeepest : deepestExisting host fs d names.reverse [] with
  | none => rfl
  | some found =>
    rw [hdeepest] at hspec
    obtain ⟨rfl, hprobe, -, -⟩ := hspec
    have hbelow := existsSync_below host fs hroot found.1.names
    cases hbelow.symm.trans hprobe

/-- The ways in which the jail gets a real path. -/
theorem resolveReal_eq_ok_iff {absolute r : AbsPath platform} : resolveReal host fs absolute = .ok r ↔
      (existsSync host fs ⟨absolute.root, []⟩ = false ∧ r = absolute) ∨
      ∃ ns rest base, absolute.names = ns ++ rest ∧ fs.resolve host.maxLinks ⟨absolute.root, ns⟩ = some base ∧
        (∀ n below, rest = n :: below → existsSync host fs ⟨absolute.root, ns ++ [n]⟩ = false) ∧
        r = ⟨base.root, base.names ++ rest⟩ := by
  have hspec := deepestExisting_spec host fs absolute.root absolute.names.reverse []
  constructor
  · intro h
    unfold resolveReal at h
    cases hdeepest : deepestExisting host fs absolute.root absolute.names.reverse [] with
    | none =>
      rw [hdeepest] at hspec h
      exact .inl ⟨hspec, (Except.ok.inj h).symm⟩
    | some found =>
      obtain ⟨probe, rest⟩ := found
      rw [hdeepest] at hspec h
      obtain ⟨hroot, hprobe, hnames, hfirst⟩ := hspec
      obtain ⟨base, hbase⟩ := isSome_iff_exists.mp hprobe
      rw [← hroot] at *
      refine .inr ⟨probe.names, rest, base, by simpa using hnames.symm, hbase, ?_, ?_⟩
      · rintro n below rfl
        rcases hfirst with hnil | ⟨n', below', hcons, hmissing⟩
        · cases hnil
        · cases hcons
          exact hmissing
      · simp only [realpathSync, hbase] at h
        exact (Except.ok.inj h).symm
  · rintro (⟨hroot, rfl⟩ | ⟨ns, rest, base, hnames, hbase, hrest, rfl⟩)
    · simp [resolveReal, deepestExisting_eq_none host fs hroot]
    · have hdeepest := deepestExisting_eq host fs absolute.root ns rest [] (by simp [existsSync, hbase]) hrest
      rw [append_nil, ← hnames] at hdeepest
      simp [resolveReal, hdeepest, realpathSync, hbase]

theorem existsSync_of_isReal {p : AbsPath platform} (hp : fs.IsReal p) : existsSync host fs p := by
  simp [existsSync, resolve_of_isReal host.maxLinks hp]

theorem resolveReal_eq_of_resolve {absolute r : AbsPath platform} (h : fs.resolve host.maxLinks absolute = some r) :
    resolveReal host fs absolute = .ok r :=
  (resolveReal_eq_ok_iff host fs).mpr (.inr ⟨absolute.names, [], r, by simp, h, nofun, by simp⟩)

theorem firstMissing_eq {absolute base : AbsPath platform} {ns rest : List (Name platform)}
    (hnames : absolute.names = ns ++ rest) (hbase : fs.resolve host.maxLinks ⟨absolute.root, ns⟩ = some base)
    (hrest : ∀ n below, rest = n :: below → existsSync host fs ⟨absolute.root, ns ++ [n]⟩ = false) :
    firstMissing host fs absolute = rest.head?.map base.child := by
  have hdeepest := deepestExisting_eq host fs absolute.root ns rest [] (by simp [existsSync, hbase]) hrest
  rw [append_nil, ← hnames] at hdeepest
  cases rest with
  | nil => simp [firstMissing, hdeepest]
  | cons n below => simp [firstMissing, hdeepest, hbase]

/-- The real path leads to itself unless the name that was taken for missing is a link that leads somewhere. -/
theorem resolveReal_self_iff {absolute r : AbsPath platform} (h : resolveReal host fs absolute = .ok r) :
    resolveReal host fs r = .ok r ↔
      ∀ p, firstMissing host fs absolute = some p → fs.resolve host.maxLinks p = none := by
  rcases (resolveReal_eq_ok_iff host fs).mp h with ⟨hroot, rfl⟩ | ⟨ns, rest, base, hnames, hbase, hrest, rfl⟩
  · refine iff_of_true h fun p hp => ?_
    simp [firstMissing, deepestExisting_eq_none host fs hroot] at hp
  · have hreal := isReal_resolve hbase
    rw [firstMissing_eq host fs hnames hbase hrest]
    cases rest with
    | nil =>
      refine iff_of_true ?_ nofun
      rw [append_nil]
      exact resolveReal_eq_of_resolve host fs (resolve_of_isReal _ hreal)
    | cons n below =>
      -- a file or a directory there would have been found on the way
      have hchild : ¬ fs.IsReal (base.child n) := by
        intro hchild
        have hfound := resolve_child hbase hchild
        have hmissing := hrest n below rfl
        simp [existsSync, ← Place.child.eq_def ⟨absolute.root, ns⟩ n, hfound] at hmissing
      rw [resolveReal_eq_ok_iff]
      constructor
      · rintro (⟨hroot, -⟩ | ⟨ns', rest', base', hnames', hbase', hrest', heq⟩)
        · have hbelow := existsSync_below host fs hroot base.names
          cases hbelow.symm.trans (existsSync_of_isReal host fs hreal)
        · have hreal' := isReal_resolve hbase'
          obtain ⟨root', names'⟩ := base'
          obtain ⟨rfl, hsame⟩ := Place.mk.inj heq
          obtain rfl : names' = ns' := append_cancel_right (hsame.symm.trans hnames')
          rcases append_eq_append_iff.mp hnames' with ⟨more, rfl, hmore⟩ | ⟨more, habove, rfl⟩
          · cases more with
            | nil =>
              have hmissing := hrest' n below (by simpa using hmore.symm)
              simpa [existsSync, Place.child] using hmissing
            | cons m more =>
              obtain ⟨rfl, -⟩ := cons.inj hmore
              rw [← singleton_append, ← append_assoc] at hreal'
              exact absurd (isReal_above hreal') hchild
          · cases more with
            | nil =>
              have hmissing := hrest' n below rfl
              rw [append_nil] at habove
              rw [← habove] at hmissing
              simpa [existsSync, Place.child] using hmissing
            | cons m more =>
              obtain ⟨root, names⟩ := base
              obtain rfl : names = names' ++ m :: more := habove
              have hmissing := hrest' m _ rfl
              rw [← singleton_append, ← append_assoc] at hreal
              have hfound := existsSync_of_isReal host fs (isReal_above hreal)
              cases hmissing.symm.trans hfound
      · intro hnone
        refine .inr ⟨base.names, n :: below, base, rfl, resolve_of_isReal _ hreal, ?_, rfl⟩
        rintro _ _ ⟨⟩
        simpa [existsSync, Place.child] using hnone

/-- A path that is cut or has another last name leads to the real path only over a link. -/
theorem resolveReal_cut_iff {t r : AbsPath platform} (hroot : t.root = r.root) {ns : List (Name platform)}
    {n : Name platform} (hr : r.names = ns ++ [n]) (ht : t.names <+: ns ∨ ∃ m, m ≠ n ∧ t.names = ns ++ [m]) :
    resolveReal host fs t = .ok r ↔ fs.resolve host.maxLinks t = some r := by
  refine ⟨fun h => ?_, resolveReal_eq_of_resolve host fs⟩
  have hlast : ∀ {a b : List (Name platform)} {k : Name platform}, a ++ [k] = b ++ [n] → k = n := by
    intro a b k heq
    exact (append_inj' heq rfl).2 |> singleton_inj.mp
  rcases (resolveReal_eq_ok_iff host fs).mp h with ⟨-, rfl⟩ | ⟨before, rest, base, hnames, hbase, hrest, heq⟩
  · rcases ht with hcut | ⟨m, hne, hm⟩
    · have hlong := hcut.length_le
      rw [hr] at hlong
      simp at hlong
    · exact absurd (hlast (hm.symm.trans hr)) hne
  · obtain rfl | ⟨below, k, rfl⟩ := eq_nil_or_concat' rest
    · rw [append_nil] at hnames
      obtain ⟨root, names⟩ := t
      obtain rfl : names = before := hnames
      simpa [heq] using hbase
    · have hbelow : base.names ++ below ++ [k] = ns ++ [n] := by
        rw [← hr, heq, append_assoc]
      rcases ht with hcut | ⟨m, hne, hm⟩
      · -- the part that exists is the beginning of a real path, and is not its own real path
        have hreal := isReal_resolve hbase
        have hlonger : before.length < base.names.length := by
          have hshort := hcut.length_le
          have hsum := congrArg length hbelow
          rw [hnames] at hshort
          simp at hshort hsum
          omega
        have hprefix : before <+: base.names := by
          have hbefore : before <+: r.names := by
            rw [hr]
            exact (prefix_append before _).trans (hnames ▸ hcut.trans (prefix_append ns _))
          have hwhole : base.names <+: r.names := by
            rw [heq]
            exact prefix_append _ _
          exact prefix_of_prefix_length_le hbefore hwhole (le_of_lt hlonger)
        obtain ⟨more, hmore⟩ := hprefix
        obtain ⟨root, names⟩ := base
        obtain rfl : before ++ more = names := hmore
        have hself := resolve_of_isReal host.maxLinks (isReal_above hreal)
        have hroot' : t.root = root := by rw [hroot, heq]
        rw [hroot', hself] at hbase
        have hshorter := congrArg Place.names (some.inj hbase)
        rw [← hshorter] at hlonger
        exact absurd hlonger (lt_irrefl _)
      · have hk : k = n := hlast hbelow
        have hkm : k = m := by
          rw [hm, ← append_assoc] at hnames
          exact (singleton_inj.mp (append_inj' hnames rfl).2).symm
        exact absurd (hkm.symm.trans hk) hne

end Real

/-! ## The jail -/

section Jail

variable {host : Host platform} {fs : FileSystem platform} {jail : PathJail}

/-- Nothing stands against the real path `r` of the text `s` when the jail is asked again with its text. -/
structure Regates (host : Host platform) (fs : FileSystem platform) (s : Str) (r : AbsPath platform) : Prop where
  clean : 0 ∉ trim (render r)
  short : (trim (render r)).length ≤ JAIL_PATH_MAXLEN
  /-- The name that was taken for missing leads nowhere from the real path either. -/
  missing : trim (render r) = render r → ∀ p, firstMissing host fs (resolve host.workingDir (trim s)) = some p →
    fs.resolve host.maxLinks p = none
  /-- Without the blanks at its end, the path leads there over a link. -/
  linked : trim (render r) ≠ render r → fs.resolve host.maxLinks (resolve host.workingDir (trim (render r))) = some r

theorem eq_of_decide_eq_allowed {real r : AbsPath platform} (h : jail.decide host real = .allowed r) : real = r := by
  unfold PathJail.decide blocked at h
  dsimp only at h
  split at h
  · cases h
  · split at h
    · cases h
    · split at h
      · cases h
      · split at h
        · exact JailDecision.allowed.inj h
        · cases h

theorem trim_render_ne_nil (r : AbsPath platform) : trim (render r) ≠ [] := by
  have hbelow : ∀ (d : Device platform) (tail : Str), renderBelow d tail ≠ [] := by simp [renderBelow]
  obtain ⟨d, names⟩ := r
  rw [render_eq]
  rcases eq_nil_or_concat' names with rfl | ⟨ns, n, rfl⟩
  · exact (trim_root d).symm ▸ hbelow d []
  · rw [map_append, map_singleton, trim_component]
    exact hbelow d _

theorem check_render_iff {s : Str} {r : AbsPath platform} (hallowed : jail.check host fs (.str s) = .allowed r) :
    jail.check host fs (.str (render r)) = .allowed r ↔ Regates host fs s r := by
  obtain ⟨-, real, hreal, hdecide⟩ := (check_eq_allowed_iff host fs).mp hallowed
  obtain rfl := eq_of_decide_eq_allowed hdecide
  have hasked : jail.check host fs (.str (render real)) = .allowed real ↔
      (0 ∉ trim (render real) ∧ (trim (render real)).length ≤ JAIL_PATH_MAXLEN) ∧
        resolveReal host fs (resolve host.workingDir (trim (render real))) = .ok real := by
    rw [check_eq_allowed_iff]
    constructor
    · rintro ⟨⟨-, hclean, hshort⟩, real', hreal', hdecide'⟩
      exact ⟨⟨hclean, hshort⟩, eq_of_decide_eq_allowed hdecide' ▸ hreal'⟩
    · rintro ⟨⟨hclean, hshort⟩, hsame⟩
      exact ⟨⟨trim_render_ne_nil real, hclean, hshort⟩, real, hsame, hdecide⟩
  rw [hasked]
  by_cases htrim : trim (render real) = render real
  · have hself := resolveReal_self_iff host fs hreal
    rw [htrim, resolve_render, hself]
    constructor
    · rintro ⟨⟨hclean, hshort⟩, hmissing⟩
      exact ⟨by rwa [htrim], by rwa [htrim], fun _ => hmissing, fun hne => absurd htrim hne⟩
    · intro h
      exact ⟨⟨htrim ▸ h.clean, htrim ▸ h.short⟩, h.missing htrim⟩
  · rcases resolve_trim host.workingDir real with hsame | ⟨hroot, ns, n, hr, ht⟩
    · exact absurd hsame htrim
    · rw [resolveReal_cut_iff host fs hroot hr ht]
      constructor
      · rintro ⟨⟨hclean, hshort⟩, hlinked⟩
        exact ⟨hclean, hshort, fun hsame => absurd hsame htrim, fun _ => hlinked⟩
      · intro h
        exact ⟨⟨h.clean, h.short⟩, h.linked htrim⟩

end Jail

/-! ## Uploads -/

namespace FileSession

variable {c : Endpoint platform} {s : FileSession platform}

/-- Where an upload that nothing stands against is to be put. -/
theorem finishing_handleUploadDone (hs : Books s) {id : Str} {t : Nat} {upload : UploadState platform}
    {now : Now platform} (hregistered : s.registered id = some (t, upload)) (hlive : upload.hash.digested = false)
    (hcancelled : upload.cancelled = false) (hfailure : failureAtEnd c upload = none) (r : AbsPath platform) :
    ((handleUploadDone c s id now).finishing.get t).map Finishing.realPath = some r ↔
      c.jail.check c.host now.fs (.str (render upload.path)) = .allowed r := by
  obtain ⟨-, hstate⟩ := registered_eq_some.mp hregistered
  have hnone : s.finishing.get t = none := not_isSome_iff_eq_none.mp (hs.not_finishing hstate hlive)
  simp only [handleUploadDone, hregistered, hlive, hfailure, hcancelled]
  cases hcheck : c.jail.check c.host now.fs (.str (render upload.path)) with
  | denied code message =>
    simp [discard, FileSession.setState, FileSession.sendFileTransferAudit, FileSession.send, hnone]
  | allowed realPath => simp [OrderedMap.get_set_self]

/-- What the jail allowed is allowed again with the same path, at the end of an upload too, exactly if nothing stands
against it. -/
theorem regated_iff (c : Endpoint platform) (fs : FileSystem platform) {input : Json} {r : AbsPath platform}
    (hallowed : c.jail.check c.host fs input = .allowed r) : ∃ s, input = .str s ∧
      (c.jail.check c.host fs (.str (render r)) = .allowed r ↔ Regates c.host fs s r) ∧
      ∀ tr id t upload now, ((machine c).run tr).registered id = some (t, upload) → upload.path = r →
        upload.hash.digested = false → upload.cancelled = false → failureAtEnd c upload = none → now.fs = fs →
        (((handleUploadDone c ((machine c).run tr) id now).finishing.get t).map Finishing.realPath = some r ↔
          Regates c.host fs s r) := by
  cases input with
  | str s =>
    refine ⟨s, rfl, check_render_iff hallowed, ?_⟩
    rintro tr id t upload now hregistered rfl hlive hcancelled hfailure rfl
    rw [finishing_handleUploadDone (books_run c tr) hregistered hlive hcancelled hfailure]
    exact check_render_iff hallowed
  | _ => cases hallowed

/-- A path that is asked for again as it is. -/
theorem regated_notes : sampleJail.check sampleHost sampleFiles (.str (render (linuxPath (text "/tmp/notes")))) =
      .allowed (linuxPath (text "/tmp/notes")) := by
  have hallowed : sampleEndpoint.jail.check sampleEndpoint.host sampleFiles (.str (text "/tmp/notes")) =
      .allowed (linuxPath (text "/tmp/notes")) := by
    decide +kernel
  obtain ⟨s, hs, hregates, -⟩ := regated_iff sampleEndpoint sampleFiles hallowed
  cases hs
  have hsame : trim (render (linuxPath (text "/tmp/notes"))) = render (linuxPath (text "/tmp/notes")) := by
    decide +kernel
  have hmissing :
      firstMissing sampleHost sampleFiles (resolve sampleHost.workingDir (trim (text "/tmp/notes"))) = none := by
    decide +kernel
  exact hregates.mpr
    { clean := by decide +kernel
      short := by decide +kernel
      missing := fun _ p hp => by cases hmissing.symm.trans hp
      linked := fun hne => absurd hsame hne }

/-- The dot saves the blank from the first cut. -/
theorem not_regated_blank : ¬ ∀ (jail : PathJail) (fs : FileSystem .linux) (input : Json) (r : AbsPath .linux),
      jail.check sampleHost fs input = .allowed r → jail.check sampleHost fs (.str (render r)) = .allowed r := by
  intro h
  have hallowed : sampleJail.check sampleHost sampleFiles (.str (text "/tmp/a /.")) =
      .allowed (linuxPath (text "/tmp/a /.")) := by
    decide +kernel
  have hagain : sampleJail.check sampleHost sampleFiles (.str (render (linuxPath (text "/tmp/a /.")))) =
      .allowed (linuxPath (text "/tmp/a")) := by
    decide +kernel
  have hsame := hagain.symm.trans (h sampleJail sampleFiles _ _ hallowed)
  exact absurd (JailDecision.allowed.inj hsame) (by decide +kernel)

end FileSession

end Rcp
