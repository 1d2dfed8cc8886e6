-- SUMMARY: The textual comparisons of the file jail, and when the path that it allows is confined to the jail.
import Tracenium.Rcp.PathJail

/-! # Comparisons of paths -/

open Utf16 Segments List

namespace Rcp

/-! ## Segments of a path -/

section Segments

variable {platform : Platform}

/-- The segments of a device, of which the last one is empty on POSIX only. -/
theorem device_segments (d : Device platform) : Clean (isPathSeparator platform) d.segments ∧
      ((platform ≠ .win32 ∧ d.segments = [[]]) ∨
        platform = .win32 ∧ ∃ before last, d.segments = before ++ [last] ∧ last ≠ []) := by
  obtain ⟨segments, valid⟩ := d
  have hlabel : ∀ s, isLabel platform s →
      s ≠ [] ∧ ∀ c ∈ s, isPathSeparator platform c = false := by
    intro s hs
    simpa [isLabel] using hs
  unfold isDevice at valid
  split at valid
  · refine ⟨by simp [Clean], .inl ⟨by simpa using valid, rfl⟩⟩
  · rename_i letter c
    simp only [Bool.and_eq_true, decide_eq_true_eq] at valid
    obtain ⟨⟨rfl, hletter⟩, rfl⟩ := valid
    refine ⟨?_, .inr ⟨rfl, [], _, rfl, cons_ne_nil _ _⟩⟩
    have hne : isPathSeparator .win32 letter = false := by
      cases hsep : isPathSeparator .win32 letter with
      | false => rfl
      | true =>
        simp only [isPathSeparator, Bool.or_eq_true, Bool.and_eq_true, decide_eq_true_eq, true_and] at hsep
        rcases hsep with rfl | rfl <;> exact absurd hletter (by decide)
    intro x hx u hu
    obtain rfl := mem_singleton.mp hx
    rcases mem_cons.mp hu with rfl | hu
    · exact hne
    · obtain rfl := mem_singleton.mp hu
      rfl
  · rename_i server share
    simp only [Bool.and_eq_true, decide_eq_true_eq] at valid
    obtain ⟨⟨rfl, hserver⟩, hshare⟩ := valid
    refine ⟨?_, .inr ⟨rfl, [[], [], server], share, rfl, (hlabel _ hshare).1⟩⟩
    intro x hx
    simp only [mem_cons, not_mem_nil, or_false] at hx
    rcases hx with rfl | rfl | rfl | rfl
    · exact fun c hc => absurd hc not_mem_nil
    · exact fun c hc => absurd hc not_mem_nil
    · exact (hlabel _ hserver).2
    · exact (hlabel _ hshare).2
  · cases valid

theorem name_spec (n : Name platform) : n.text ≠ [] ∧ ∀ c ∈ n.text, isPathSeparator platform c = false := by
  have hvalid := n.valid
  simp only [isName, Bool.and_eq_true, decide_eq_true_eq, all_eq_true, Bool.not_eq_true']
    at hvalid
  exact ⟨hvalid.1.1.1, hvalid.2⟩

theorem clean_segments (p : AbsPath platform) : Clean (isPathSeparator platform) (segments p) := by
  intro x hx
  rcases mem_append.mp hx with hx | hx
  · exact (device_segments p.root).1 x hx
  · obtain ⟨n, -, rfl⟩ := mem_map.mp hx
    exact (name_spec n).2

/-- The root of POSIX. -/
def IsBare (p : AbsPath platform) : Prop := platform ≠ .win32 ∧ p.names = []

theorem segments_of_isBare {p : AbsPath platform} (hp : IsBare p) : segments p = [[]] := by
  unfold segments
  rw [hp.2, map_nil, append_nil]
  rcases (device_segments p.root).2 with ⟨-, h⟩ | ⟨h, -⟩
  · exact h
  · exact absurd h hp.1

theorem segments_of_not_isBare {p : AbsPath platform} (hp : ¬ IsBare p) :
    ∃ before last, segments p = before ++ [last] ∧ last ≠ [] := by
  obtain ⟨root, names⟩ := p
  cases names using reverseRecOn with
  | nil =>
    rcases (device_segments root).2 with ⟨h, -⟩ | ⟨-, before, last, h, hne⟩
    · exact absurd ⟨h, rfl⟩ hp
    · refine ⟨before, last, ?_, hne⟩
      unfold segments
      rw [map_nil, append_nil]
      exact h
  | append_singleton names n =>
    refine ⟨root.segments ++ names.map Name.text, n.text, ?_, (name_spec n).1⟩
    unfold segments
    rw [map_append, append_assoc]
    rfl

theorem segments_ne_nil (p : AbsPath platform) : segments p ≠ [] := by
  by_cases hp : IsBare p
  · rw [segments_of_isBare hp]
    exact cons_ne_nil _ _
  · obtain ⟨before, last, h, -⟩ := segments_of_not_isBare hp
    rw [h]
    exact append_ne_nil_of_right_ne_nil _ (cons_ne_nil _ _)

end Segments

section Compare

variable {platform : Platform} (host : Host platform)

/-- The case that components are compared in. -/
def fold (s : Str) : Str := if platform = .win32 then host.casing.lower s else s

def foldedSegments (p : AbsPath platform) : List Str := (segments p).map (fold host)

/-- `p` is `parent`, or lies under it. -/
def Under (parent p : AbsPath platform) : Prop :=
  foldedSegments host parent <+: foldedSegments host p

theorem fold_ne_nil {s : Str} (hs : s ≠ []) : fold host s ≠ [] := by
  unfold fold
  split
  · exact fun h => hs ((host.casing.lower_nil s).mp h)
  · exact hs

theorem fold_clean {s : Str} (hs : ∀ c ∈ s, isPathSeparator platform c = false) :
    ∀ c ∈ fold host s, isPathSeparator platform c = false := by
  unfold fold
  split
  · rename_i hwin
    intro c hc
    cases hsep : isPathSeparator platform c with
    | false => rfl
    | true =>
      have hsep' := hsep
      rw [isPathSeparator, Bool.or_eq_true, Bool.and_eq_true, decide_eq_true_eq, decide_eq_true_eq,
        decide_eq_true_eq] at hsep'
      have hunit : c = slash ∨ c = backslash := hsep'.imp_right And.right
      refine absurd hc (host.casing.lower_clean s c hunit fun hmem => ?_)
      rw [hs c hmem] at hsep
      cases hsep
  · exact hs

theorem clean_foldedSegments (p : AbsPath platform) : Clean (isPathSeparator platform) (foldedSegments host p) := by
  intro x hx
  obtain ⟨s, hs, rfl⟩ := mem_map.mp hx
  exact fold_clean host (clean_segments p s hs)

theorem fold_spell {xs : List Str} (hxs : xs ≠ []) :
    fold host (spell platform.sep xs) = spell platform.sep (xs.map (fold host)) := by
  by_cases hwin : platform = .win32
  · subst hwin
    have hlower : fold host = host.casing.lower := by
      funext s
      exact if_pos rfl
    exact spell_of_over (fun a b => host.casing.lower_sep a b _ (.inr rfl)) hxs
  · have hid : fold host = id := by
      funext s
      exact if_neg hwin
    rw [hid, map_id]
    rfl

/-- A text that ends in a segment does not end in a separator. -/
theorem getLast?_ne_sep (before : List Str) {last : Str} (hne : last ≠ [])
    (hclean : ∀ c ∈ last, isPathSeparator platform c = false) (sep : UInt16) :
    ∀ c, isPathSeparator platform c → (spell sep (before ++ [last])).getLast? ≠ some c := by
  intro c hc hlast
  rw [getLast?_spell sep hne] at hlast
  rw [hclean c (mem_of_getLast? hlast)] at hc
  cases hc

/-! ## `forCompare` -/

theorem forCompare_of_isBare {p : AbsPath platform} (hp : IsBare p) :
    forCompare host (render p) = spell platform.sep [[], []] := by
  have hsep : platform.sep = slash := by
    cases platform with
    | linux => rfl
    | darwin => rfl
    | win32 => exact absurd rfl hp.1
  have hrender : render p = [slash] := by
    have hsegments : p.root.segments = [[]] := by
      have h := segments_of_isBare hp
      unfold segments at h
      rw [hp.2, map_nil, append_nil] at h
      exact h
    rw [render, if_pos hp.2, hsegments, hsep]
    rfl
  rw [hrender, forCompare, hsep]
  exact if_neg hp.1

theorem forCompare_of_not_isBare {p : AbsPath platform} (hp : ¬ IsBare p) :
    forCompare host (render p) = spell platform.sep (foldedSegments host p) := by
  obtain ⟨before, last, hsegments, hne⟩ := segments_of_not_isBare hp
  have hclean : ∀ c ∈ last, isPathSeparator platform c = false := by
    apply clean_segments p
    rw [hsegments]
    exact mem_append_right _ mem_cons_self
  have hend := getLast?_ne_sep before hne hclean platform.sep
  have htrimmed : (if 1 < (render p).length ∧ ((render p).getLast? = some platform.sep ∨
      (render p).getLast? = some slash) then (render p).dropLast else render p) =
      spell platform.sep (segments p) := by
    by_cases hnames : p.names = []
    · have hroot : p.root.segments = segments p := by
        rw [segments, hnames, map_nil, append_nil]
      rw [render, if_pos hnames, hroot, dropLast_concat]
      refine if_pos ⟨?_, .inl getLast?_concat⟩
      have hnonempty : spell platform.sep (segments p) ≠ [] := by
        intro hnil
        rw [hsegments] at hnil
        have hlast := @getLast?_spell _ before platform.sep _ hne
        rw [hnil, getLast?_nil] at hlast
        exact hne (getLast?_eq_none_iff.mp hlast.symm)
      rw [length_append, length_singleton]
      exact Nat.succ_lt_succ (length_pos_of_ne_nil hnonempty)
    · rw [render, if_neg hnames, hsegments]
      refine if_neg ?_
      rintro ⟨-, h | h⟩
      · exact hend _ (isPathSeparator_sep platform) h
      · exact hend _ (isPathSeparator_slash platform) h
  unfold forCompare
  rw [htrimmed]
  exact fold_spell host (segments_ne_nil p)

/-! ## `isWithin` -/

theorem slashes_spell {xs : List Str} (hxs : Clean (isPathSeparator .win32) xs) :
    (spell Platform.win32.sep xs).map (fun c => if c = backslash then slash else c) = spell slash xs := by
  have hsame : xs.map (map fun c => if c = backslash then slash else c) = xs := by
    refine (map_congr_left fun x hx => ?_).trans (map_id xs)
    refine (map_congr_left fun c hc => if_neg ?_).trans (map_id x)
    rintro rfl
    have hsep := hxs x hx _ hc
    cases hsep
  have hsep : Platform.win32.sep = backslash := rfl
  rw [map_spell, hsame, if_pos hsep]

theorem isWithin_of_not_isBare {parent : AbsPath platform} (hparent : ¬ IsBare parent)
    {child : List Str} (hchild : child ≠ []) (hclean : Clean (isPathSeparator platform) child) :
    isWithin platform (spell platform.sep child) (spell platform.sep (foldedSegments host parent)) ↔
      foldedSegments host parent <+: child := by
  obtain ⟨before, last, hsegments, hne⟩ := segments_of_not_isBare hparent
  have hfolded : foldedSegments host parent = before.map (fold host) ++ [fold host last] := by
    rw [foldedSegments, hsegments, map_append]
    rfl
  have hpne : foldedSegments host parent ≠ [] := by
    rw [hfolded]
    exact append_ne_nil_of_right_ne_nil _ (cons_ne_nil _ _)
  have hpclean := clean_foldedSegments host parent
  have hlast : ∀ c ∈ fold host last, isPathSeparator platform c = false := by
    apply hpclean
    rw [hfolded]
    exact mem_append_right _ mem_cons_self
  have hend (sep : UInt16) : ∀ c, isPathSeparator platform c →
      (spell sep (foldedSegments host parent)).getLast? ≠ some c := by
    rw [hfolded]
    exact getLast?_ne_sep _ (fold_ne_nil host hne) hlast sep
  have hwithin (sep : UInt16) (hsep : isPathSeparator platform sep) :=
    spell_within_iff hsep hpne hchild hpclean hclean
  have hmain := hwithin platform.sep (isPathSeparator_sep platform)
  unfold isWithin
  rw [if_neg (hend _ _ (isPathSeparator_sep platform))]
  dsimp only
  constructor
  · intro h
    split at h
    · exact hmain.mp (.inl ‹_›)
    · split at h
      · exact hmain.mp (.inr ( isPrefixOf_iff_prefix.mp ‹_›))
      · split at h
        · -- the other spelling compares the same components
          rename_i hwin
          subst hwin
          rw [slashes_spell hpclean, slashes_spell hclean, if_neg (hend slash slash rfl),
            Bool.or_eq_true, decide_eq_true_eq, isPrefixOf_iff_prefix] at h
          exact (hwithin slash rfl).mp h
        · cases h
  · intro h
    rcases hmain.mpr h with h | h
    · exact if_pos h
    · split
      · rfl
      · exact if_pos ( isPrefixOf_iff_prefix.mpr h)

/-- What `isWithin` finds is what lies under the parent, component by component. -/
theorem isWithin_iff (parent p : AbsPath platform) :
    isWithin platform (forCompare host (render p)) (forCompare host (render parent)) ↔
      Under host parent p := by
  have hposix {q : AbsPath platform} (hq : IsBare q) : foldedSegments host q = [[]] := by
    rw [foldedSegments, segments_of_isBare hq, map_singleton, fold, if_neg hq.1]
  by_cases hparent : IsBare parent
  · -- everything is under the root of POSIX
    have hsep : platform.sep = slash := by
      cases platform with
      | linux => rfl
      | darwin => rfl
      | win32 => exact absurd rfl hparent.1
    have hbegins : Under host parent p := by
      unfold Under
      rw [hposix hparent]
      rcases (device_segments p.root).2 with ⟨-, h⟩ | ⟨h, -⟩
      · rw [foldedSegments, segments, h, map_append, map_singleton, fold, if_neg hparent.1]
        exact prefix_append _ _
      · exact absurd h hparent.1
    refine iff_of_true ?_ hbegins
    rw [forCompare_of_isBare host hparent, isWithin, hsep]
    split
    · rfl
    · refine if_pos ( isPrefixOf_iff_prefix.mpr ?_)
      by_cases hp : IsBare p
      · rw [forCompare_of_isBare host hp, hsep]
        exact prefix_rfl
      · obtain ⟨rest, hrest⟩ := hbegins
        rw [hposix hparent] at hrest
        rw [forCompare_of_not_isBare host hp, hsep, ← hrest]
        cases rest with
        | nil =>
          obtain ⟨before, last, hsegments, hne⟩ := segments_of_not_isBare hp
          rw [foldedSegments, hsegments, map_append, append_nil] at hrest
          have hlast := congrArg getLast? hrest
          rw [map_singleton, getLast?_concat, getLast?_singleton] at hlast
          exact absurd (Option.some.inj hlast).symm (fold_ne_nil host hne)
        | cons x rest =>
          exact prefix_append [slash] _
  · rw [forCompare_of_not_isBare host hparent]
    by_cases hp : IsBare p
    · rw [forCompare_of_isBare host hp]
      have hclean : Clean (isPathSeparator platform) [[], []] := by
        intro x hx c hc
        simp only [mem_cons, not_mem_nil, or_false, or_self] at hx
        subst hx
        cases hc
      rw [isWithin_of_not_isBare host hparent (cons_ne_nil _ _) hclean, Under, hposix hp]
      obtain ⟨before, last, hsegments, hne⟩ := segments_of_not_isBare hparent
      have hmem : fold host last ∈ foldedSegments host parent := by
        rw [foldedSegments, hsegments]
        exact mem_map_of_mem (mem_append_right _ mem_cons_self)
      have hlast := fold_ne_nil host hne
      constructor
      · intro h
        have := h.subset hmem
        simp only [mem_cons, not_mem_nil, or_false, or_self] at this
        exact absurd this hlast
      · intro h
        have := h.subset hmem
        simp only [mem_cons, not_mem_nil, or_false] at this
        exact absurd this hlast
    · rw [forCompare_of_not_isBare host hp, isWithin_of_not_isBare host hparent ?_
        (clean_foldedSegments host p)]
      · exact Iff.rfl
      · exact fun h => segments_ne_nil p (map_eq_nil_iff.mp h)

end Compare

end Rcp

/-!
# Confinement

A link that leads nowhere does not exist, so it stays in the rest.
-/

namespace Rcp

variable {platform : Platform} (host : Host platform) (fs : FileSystem platform)

/-! ## The real path -/

/-- The deepest path that exists and the rest make up the path, and the first of the rest does not
exist. -/
theorem deepestExisting_spec (device : Device platform) (names tail : List (Name platform)) :
    match deepestExisting host fs device names tail with
    | none => existsSync host fs ⟨device, []⟩ = false
    | some (probe, rest) =>
      probe.root = device ∧ existsSync host fs probe ∧ probe.names ++ rest = names.reverse ++ tail ∧
        (rest = tail ∨ ∃ n below, rest = n :: below ∧ existsSync host fs (probe.child n) = false) := by
  induction names generalizing tail with
  | nil =>
    unfold deepestExisting
    split
    · rename_i h
      split at h
      · cases h
      · exact Bool.eq_false_iff.mpr ‹_›
    · rename_i probe rest h
      split at h
      · cases h
        exact ⟨rfl, ‹_›, rfl, .inl rfl⟩
      · cases h
  | cons n above ih =>
    unfold deepestExisting
    by_cases hexists : existsSync host fs ⟨device, (n :: above).reverse⟩
    · rw [if_pos hexists]
      exact ⟨rfl, hexists, rfl, .inl rfl⟩
    · rw [if_neg hexists]
      have hrest := ih (n :: tail)
      split at hrest
      · exact hrest
      · rename_i probe rest h
        obtain ⟨hroot, hprobe, hnames, hfirst⟩ := hrest
        refine ⟨hroot, hprobe, ?_, .inr ?_⟩
        · rw [hnames, reverse_cons, append_assoc]
          rfl
        · rcases hfirst with rfl | hfirst
          · have habove : probe.names = above.reverse := append_cancel_right hnames
            refine ⟨n, tail, rfl, ?_⟩
            rw [Place.child, hroot, habove, ← reverse_cons]
            exact Bool.eq_false_iff.mpr hexists
          · exact hfirst

/-- The first component that the jail takes for missing, where the link would be if it is one. -/
def firstMissing (absolute : AbsPath platform) : Option (AbsPath platform) :=
  match deepestExisting host fs absolute.root absolute.names.reverse [] with
  | some (probe, n :: _) => (fs.resolve host.maxLinks probe).map fun base => base.child n
  | _ => none

/-- A path of which nothing exists leads over no link. -/
theorem isUnlinked_of_missing_root {p : AbsPath platform}
    (hroot : existsSync host fs ⟨p.root, []⟩ = false) : fs.IsUnlinked p := by
  intro names _ root target hlink
  have hreal : fs.IsReal ⟨p.root, []⟩ := by
    cases names with
    | nil => exact absurd (FileTree.lookup_root hlink) nofun
    | cons n names => exact .inl (FileTree.lookup_above hlink (cons_ne_nil _ _))
  rw [existsSync, FileTree.resolve_of_isReal _ hreal] at hroot
  cases hroot

/-- The real path leads over no link exactly when the first missing component is none. -/
theorem isUnlinked_resolveReal {absolute real : AbsPath platform} (hreal : resolveReal host fs absolute = .ok real) :
    fs.IsUnlinked real ↔ ∀ p, firstMissing host fs absolute = some p →
      ∀ root target, fs.lookup p ≠ some (.link root target) := by
  have hspec := deepestExisting_spec host fs absolute.root absolute.names.reverse []
  unfold resolveReal at hreal
  unfold firstMissing
  cases hdeepest : deepestExisting host fs absolute.root absolute.names.reverse [] with
  | none =>
    rw [hdeepest] at hspec hreal
    obtain rfl := Except.ok.inj hreal
    exact iff_of_true (isUnlinked_of_missing_root host fs hspec) fun p hp => by cases hp
  | some found =>
    obtain ⟨probe, rest⟩ := found
    rw [hdeepest] at hspec hreal
    obtain ⟨-, hprobe, -, hfirst⟩ := hspec
    obtain ⟨base, hbase⟩ := Option.isSome_iff_exists.mp hprobe
    dsimp only at hreal
    rw [realpathSync, hbase] at hreal
    obtain rfl := Except.ok.inj hreal
    have hbasereal := FileTree.isReal_resolve hbase
    rcases hfirst with rfl | ⟨n, below, rfl, hmissing⟩
    · refine iff_of_true ?_ fun p hp => by cases hp
      rw [append_nil]
      exact hbasereal.isUnlinked
    · dsimp only
      rw [hbase]
      constructor
      · intro hunlinked p hp root target hlink
        obtain rfl := Option.some.inj hp
        refine hunlinked (base.names ++ [n]) ⟨below, ?_⟩ root target hlink
        rw [append_assoc]
        rfl
      · intro hlinks
        have hnone : fs.lookup (base.child n) = none := by
          cases hv : fs.lookup (base.child n) with
          | none => rfl
          | some v =>
            have hchild : ¬ fs.IsReal (base.child n) := by
              intro hchild
              rw [existsSync, FileTree.resolve_child hbase hchild] at hmissing
              cases hmissing
            cases v with
            | dir => exact absurd (.inl hv) hchild
            | file => exact absurd (.inr hv) hchild
            | link root target => exact absurd hv (hlinks _ rfl root target)
        exact hbasereal.isUnlinked_of_missing hnone below

/-! ## The decision -/

/-- A component that the segments of the text are checked for. -/
theorem mem_segmentsOf {p : AbsPath platform} {s : Str} (hs : s ∈ segments p) (hne : s ≠ [])
    (hclean : backslash ∉ s) : s ∈ segmentsOf (render p) := by
  have hboth : ∀ c ∈ s, (c = backslash || c = slash : Bool) = false := by
    intro c hc
    have hsep := clean_segments p s hs c hc
    rw [isPathSeparator, Bool.or_eq_false_iff] at hsep
    rw [Bool.or_eq_false_iff]
    exact ⟨decide_eq_false fun h => hclean (h ▸ hc), hsep.1⟩
  have hsep : (platform.sep = backslash || platform.sep = slash : Bool) := by
    cases platform <;> rfl
  have htext : ∃ xs : List Str, xs ≠ [] ∧ s ∈ xs ∧ render p = spell platform.sep xs := by
    by_cases hnames : p.names = []
    · have hroot : p.root.segments = segments p := by
        rw [segments, hnames, map_nil, append_nil]
      refine ⟨segments p ++ [[]], append_ne_nil_of_right_ne_nil _ (cons_ne_nil _ _), mem_append_left _ hs, ?_⟩
      rw [render, if_pos hnames, hroot, spell_append platform.sep (segments_ne_nil p) (cons_ne_nil _ _)]
      rfl
    · exact ⟨segments p, segments_ne_nil p, hs, by rw [render, if_neg hnames]⟩
  obtain ⟨xs, hxs, hmem, htext⟩ := htext
  rw [segmentsOf, htext, splitOnP_spell (p := fun c => c = backslash || c = slash) hsep hxs, mem_filter]
  refine ⟨mem_flatMap.mpr ⟨s, hmem, ?_⟩, decide_eq_true hne⟩
  rw [splitOnP_eq_singleton hboth]
  exact mem_singleton_self s

theorem backslash_not_mem_denied : ∀ s ∈ DENIED_SEGMENTS, backslash ∉ s := by
  have hall : (DENIED_SEGMENTS.all fun s => s.all fun c => c != backslash) := by decide
  intro s hs hmem
  have hne := all_eq_true.mp (all_eq_true.mp hall s hs) _ hmem
  cases hne

/-- What is checked of the segments of the text holds of the components. -/
theorem not_denied_of_segmentsOf {p : AbsPath platform}
    (hp : ∀ segment ∈ segmentsOf (render p), host.casing.lower segment ∉ DENIED_SEGMENTS)
    {s : Str} (hs : s ∈ segments p) (hne : s ≠ []) : host.casing.lower s ∉ DENIED_SEGMENTS := by
  intro hdenied
  by_cases hclean : backslash ∈ s
  · obtain ⟨a, b, rfl⟩ := append_of_mem hclean
    rw [host.casing.lower_sep a b _ (.inr rfl)] at hdenied
    exact backslash_not_mem_denied _ hdenied (mem_append_right _ mem_cons_self)
  · exact hp s (mem_segmentsOf hs hne hclean) hdenied

theorem nil_not_mem_denyExtensions (config : PathJailConfig) : [] ∉ denyExtensions host config := by
  intro hmem
  obtain ⟨e, he, hnil⟩ := mem_map.mp hmem
  obtain ⟨v, -, hv⟩ := mem_filterMap.mp he
  obtain rfl := (host.casing.lower_nil e).mp hnil
  cases v with
  | str s =>
    rw [denyExtension] at hv
    split at hv
    · rename_i hdot
      obtain rfl := Option.some.inj hv
      cases hdot.1
    · cases hv
  | _ => cases hv

/-- A list without repetitions of what is compared has nothing else. -/
theorem mem_foldl_dedup {keys acc : List Str} {k : Str} :
    k ∈ keys.foldl (fun compare key => if compare.contains key then compare else compare ++ [key]) acc ↔
      k ∈ acc ∨ k ∈ keys := by
  induction keys generalizing acc with
  | nil => simp
  | cons key keys ih =>
    rw [foldl_cons, ih]
    split
    · rename_i hcontains
      have hmem := contains_iff_mem.mp hcontains
      rw [mem_cons]
      exact ⟨Or.imp_right .inr, fun h => h.elim .inl fun h => h.elim (fun h => .inl (h ▸ hmem)) .inr⟩
    · rw [mem_append, mem_singleton, mem_cons, or_assoc]

/-- What the lists of the jail hold of the text, the configured paths hold of the components. -/
theorem any_compared_iff {fs₀ : FileSystem platform} {raws : List Str} {r : AbsPath platform} :
    ((raws.map (compared host fs₀)).any fun key => isWithin platform (forCompare host (render r)) key) ↔
      ∃ raw ∈ raws, Under host (tryReal host fs₀ raw) r := by
  rw [any_map, any_eq_true]
  exact exists_congr fun raw => and_congr_right fun _ => isWithin_iff host _ r

/-- Whether a path is blocked is found among the configured paths. -/
theorem blocked_iff {fs₀ : FileSystem platform} {config : PathJailConfig} {r : AbsPath platform} :
    ((newPathJail host fs₀ config).denyPaths.any fun denied =>
      !((newPathJail host fs₀ config).denyExceptions.any fun ex =>
        isWithin platform (forCompare host (render r)) ex) &&
      isWithin platform (forCompare host (render r)) denied) = false ↔
      ((∃ raw ∈ rawDenyPaths host config, Under host (tryReal host fs₀ raw) r) →
        ∃ raw ∈ rawDenyExceptions host config, Under host (tryReal host fs₀ raw) r) := by
  rw [← any_compared_iff host, ← any_compared_iff host]
  cases hrescued : (newPathJail host fs₀ config).denyExceptions.any fun ex =>
      isWithin platform (forCompare host (render r)) ex with
  | true =>
    refine iff_of_true ?_ fun _ => hrescued
    exact any_eq_false.mpr fun key _ => Bool.false_ne_true
  | false =>
    constructor
    · intro hdeny hdenied
      exact absurd (hdeny.symm.trans hdenied) Bool.false_ne_true
    · intro hdeny
      refine Bool.eq_false_iff.mpr fun hdenied => ?_
      exact absurd (hrescued.symm.trans (hdeny hdenied)) Bool.false_ne_true

/-- What the jail asks of a real path. -/
theorem decide_eq_allowed_iff {fs₀ : FileSystem platform} {config : PathJailConfig} {real r : AbsPath platform} :
    (newPathJail host fs₀ config).decide host real = .allowed r ↔ r = real ∧
        ((∃ raw ∈ rawDenyPaths host config, Under host (tryReal host fs₀ raw) real) →
          ∃ raw ∈ rawDenyExceptions host config, Under host (tryReal host fs₀ raw) real) ∧
        (∀ segment ∈ segmentsOf (render real), host.casing.lower segment ∉ DENIED_SEGMENTS) ∧
        host.casing.lower (extname real) ∉ denyExtensions host config ∧
        ∃ raw ∈ rawRoots host config, Under host (tryReal host fs₀ raw) real := by
  have hroots : ((newPathJail host fs₀ config).roots.any fun root =>
      isWithin platform (forCompare host (render real)) root) ↔
      ∃ raw ∈ rawRoots host config, Under host (tryReal host fs₀ raw) real := by
    rw [← any_compared_iff host, any_eq_true, any_eq_true]
    refine exists_congr fun key => and_congr_left fun _ => mem_foldl_dedup.trans ?_
    exact or_iff_right not_mem_nil
  have hsegments : ((segmentsOf (render real)).any fun segment =>
      DENIED_SEGMENTS.contains (host.casing.lower segment)) = false ↔
      ∀ segment ∈ segmentsOf (render real), host.casing.lower segment ∉ DENIED_SEGMENTS := by
    rw [any_eq_false]
    exact forall_congr' fun segment => forall_congr' fun _ => not_congr contains_iff_mem
  have hext : (host.casing.lower (extname real) ≠ [] &&
      (newPathJail host fs₀ config).denyExtensions.contains (host.casing.lower (extname real)) :
        Bool) = false ↔ host.casing.lower (extname real) ∉ denyExtensions host config := by
    rw [Bool.eq_false_iff, Ne, Bool.and_eq_true, decide_eq_true_eq, contains_iff_mem]
    constructor
    · intro hnot hmem
      refine hnot ⟨fun hnil => ?_, hmem⟩
      exact nil_not_mem_denyExtensions host config (hnil ▸ hmem)
    · exact fun hnot h => hnot h.2
  rw [← hroots, ← hsegments, ← hext, ← blocked_iff host]
  unfold PathJail.decide
  dsimp only
  constructor
  · intro h
    split at h
    · cases h
    · rename_i hdeny
      split at h
      · cases h
      · rename_i hdenied
        split at h
        · cases h
        · rename_i hblocked
          split at h
          · rename_i hroot
            cases h
            exact ⟨rfl, Bool.eq_false_iff.mpr hdeny, Bool.eq_false_iff.mpr hdenied,
              Bool.eq_false_iff.mpr hblocked, hroot⟩
          · cases h
  · rintro ⟨rfl, hdeny, hdenied, hblocked, hroot⟩
    rw [if_neg (Bool.eq_false_iff.mp hdeny), if_neg (Bool.eq_false_iff.mp hdenied),
      if_neg (Bool.eq_false_iff.mp hblocked), if_pos hroot]

/-- What the jail asks of a path is asked of its real path. -/
theorem check_eq_allowed_iff {jail : PathJail} {s : Str} {r : AbsPath platform} :
    jail.check host fs (.str s) = .allowed r ↔ (trim s ≠ [] ∧ 0 ∉ trim s ∧ (trim s).length ≤ JAIL_PATH_MAXLEN) ∧
        ∃ real, resolveReal host fs (resolve host.workingDir (trim s)) = .ok real ∧
          jail.decide host real = .allowed r := by
  unfold PathJail.check
  dsimp only
  constructor
  · intro h
    split at h
    · cases h
    · rename_i hnil
      split at h
      · cases h
      · rename_i hnul
        split at h
        · cases h
        · rename_i hlong
          split at h
          · cases h
          · exact ⟨⟨hnil, hnul, Nat.le_of_not_lt hlong⟩, _, ‹_›, h⟩
  · rintro ⟨⟨hnil, hnul, hshort⟩, real, hreal, hdecide⟩
    rw [if_neg hnil, if_neg hnul, if_neg (Nat.not_lt_of_le hshort), hreal]
    exact hdecide

/-! ## Confined paths -/

/-- What a jail that was built on the file system `fs₀` promises of a path on `fs`. -/
structure Confined (fs₀ : FileSystem platform) (config : PathJailConfig) (r : AbsPath platform) :
    Prop where
  unlinked : fs.IsUnlinked r
  reached : ∀ q, fs.resolve host.maxLinks r = some q → q = r
  inRoot : ∃ raw ∈ rawRoots host config, Under host (tryReal host fs₀ raw) r
  notDenied : (∃ raw ∈ rawDenyPaths host config, Under host (tryReal host fs₀ raw) r) →
    ∃ raw ∈ rawDenyExceptions host config, Under host (tryReal host fs₀ raw) r
  components : ∀ s ∈ segments r, s ≠ [] → host.casing.lower s ∉ DENIED_SEGMENTS
  extension : host.casing.lower (extname r) ∉ denyExtensions host config

/-- The first component of the path that is taken for missing is not a link. -/
def MissesNoLink (s : Str) : Prop :=
  ∀ p, firstMissing host fs (resolve host.workingDir (trim s)) = some p →
    ∀ root target, fs.lookup p ≠ some (.link root target)

/-- An allowed path is confined exactly when the component that was taken for missing is no link. -/
theorem confined_iff {fs₀ : FileSystem platform} {config : PathJailConfig} {s : Str} {r : AbsPath platform}
    (hallowed : (newPathJail host fs₀ config).check host fs (.str s) = .allowed r) :
    Confined host fs fs₀ config r ↔ MissesNoLink host fs s := by
  obtain ⟨-, real, hreal, hdecide⟩ := (check_eq_allowed_iff host fs).mp hallowed
  obtain ⟨rfl, hdeny, hsegments, hext, hroot⟩ := (decide_eq_allowed_iff host).mp hdecide
  have hunlinked := isUnlinked_resolveReal host fs hreal
  refine ⟨fun hconfined => hunlinked.mp hconfined.unlinked, fun hmisses => ?_⟩
  have hr := hunlinked.mpr hmisses
  exact
    { unlinked := hr
      reached := fun q hq => hr.eq_of_resolve hq
      inRoot := hroot
      notDenied := hdeny
      components := fun s' hs' hne => not_denied_of_segmentsOf host hsegments hs' hne
      extension := hext }

/-! ## A link that leads nowhere -/

def posixRoot : AbsPath .linux := ⟨⟨[[]], isDevice_linux⟩, []⟩

def sampleHost : Host .linux where
  casing := asciiCasing
  workingDir := ⟨posixRoot, fun _ => []⟩
  env := fun _ => none
  tmpdir := text "/tmp"
  maxLinks := 40

def linuxPath (s : Str) : AbsPath .linux := resolve sampleHost.workingDir s

def linuxKey (s : Str) : Place (List Str) Str :=
  ⟨(linuxPath s).root.segments, (linuxPath s).names.map Name.text⟩

/-- A file, and a link to a place where there is nothing yet. -/
def sampleNodes : OrderedMap (Place (List Str) Str) (FileTree.Node (Device .linux) (Name .linux)) :=
  (((OrderedMap.empty.set (linuxKey (text "/")) .dir).set (linuxKey (text "/tmp")) .dir).set
    (linuxKey (text "/tmp/notes")) .file).set (linuxKey (text "/tmp/evil"))
      (.link (some posixRoot.root) (toSteps .linux (text "etc/cron.d/job")))

def sampleFiles : FileSystem .linux :=
  FileTree.ofNodes Device.segments Name.text sampleNodes (by decide +kernel)

def defaultConfig : PathJailConfig := ⟨none, none, none, none⟩

def sampleJail : PathJail := newPathJail sampleHost sampleFiles defaultConfig

/-- The file is confined. -/
theorem confined_iff_notes :
    Confined sampleHost sampleFiles sampleFiles defaultConfig (linuxPath (text "/tmp/notes")) ↔
      MissesNoLink sampleHost sampleFiles (text "/tmp/notes") :=
  confined_iff sampleHost sampleFiles (by decide +kernel)

/-- A link that leads nowhere is allowed as it is. -/
theorem not_confined_evil : sampleJail.check sampleHost sampleFiles (.str (text "/tmp/evil")) =
        .allowed (linuxPath (text "/tmp/evil")) ∧
      ¬ Confined sampleHost sampleFiles sampleFiles defaultConfig (linuxPath (text "/tmp/evil")) := by
  refine ⟨by decide +kernel, fun hconfined => ?_⟩
  have hlink : sampleFiles.lookup (linuxPath (text "/tmp/evil")) =
      some (.link (some posixRoot.root) (toSteps .linux (text "etc/cron.d/job"))) := by
    decide +kernel
  exact hconfined.unlinked _ prefix_rfl _ _ hlink

end Rcp
