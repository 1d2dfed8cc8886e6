-- SUMMARY: Pending updates of Debian and of RPM hosts, what is printed of them, and that the scan reads it back.
import Tracenium.Hardening.Grammar
import Tracenium.Ipc.Wire
import Tracenium.Lib.OrderedMap
import Tracenium.Lib.Segments

/-!
`parseAptUpgradable` and `scanDnf` of `privsvc/linux/src/patch-management.ts`. The regular expressions
are read word by word, which is how they match: a word ends at the first space.
-/

open Utf16 Json Words UInt16
open Hardening (slash dot dash space isUpper isLower isWord oneOf)
open Ipc (isSpace trim)

namespace LinuxPatch

def lf : UInt16 := 0x0A
def rbracket : UInt16 := 0x5D

inductive Severity
  | critical
  | important
  | moderate
  | low
  | unknown
  deriving DecidableEq

inductive Kind
  | security
  | bugfix
  | enhancement
  | update
  deriving DecidableEq

structure ScanItem where
  hotFixId : Str
  /-- Absent when the id is that of an advisory. -/
  packageName : Option Str
  title : Str
  severity : Severity
  kind : Kind
  rebootRequired : Option Bool
  source : Str
  deriving DecidableEq

def MAX_ITEMS : Nat := 5000

/-- `toLowerCase`, as far as it is compared with constants. -/
def lower (s : Str) : Str := s.map fun u => if isUpper u then u + 0x20 else u

def contains (s part : Str) : Bool := s.tails.any part.isPrefixOf

/-! ## apt -/

/-- The pattern `-security(\b|$)`. -/
def isSecurity (suite : Str) : Bool :=
  suite.tails.any fun t => (text "-security").isPrefixOf t && !(t.drop 9).head?.any isWord

/-- `/^(linux-image-|linux-headers-|linux-modules-|libc6$|systemd$)/`. -/
def aptReboots (pkg : Str) : Bool :=
  [text "linux-image-", text "linux-headers-", text "linux-modules-"].any (·.isPrefixOf pkg) ||
    pkg == text "libc6" || pkg == text "systemd"

/-- `\s*(?:\[upgradable from:\s*(\S+)\])?`: the group goes up to the last bracket of the word. -/
def oldVersion (s : Str) : Option Str :=
  let rest := s.dropWhile isSpace
  if (text "[upgradable from:").isPrefixOf rest then
    let version := ((before isSpace ((rest.drop 17).dropWhile isSpace)).rdropWhile (· ≠ rbracket)).dropLast
    if version = [] then none else some version
  else none

def aptTitle (pkg newVersion : Str) : Option Str → Str
  | some old => pkg ++ text ": " ++ old ++ [space, 0x2192, space] ++ newVersion
  | none => pkg ++ text " " ++ newVersion

def aptItem (pkg suite newVersion : Str) (old : Option Str) : ScanItem where
  hotFixId := pkg ++ dash :: newVersion
  packageName := some pkg
  title := aptTitle pkg newVersion old
  severity := if isSecurity suite then .important else .unknown
  kind := if isSecurity suite then .security else .update
  rebootRequired := some (aptReboots pkg)
  source := text "apt:" ++ suite

/-- `/^([^/]+)\/(\S+)\s+(\S+)\s+\S+\s*…/`. -/
def parseAptLine (line : Str) : Option ScanItem :=
  let pkg := before (· == slash) line
  let rest := (after (· == slash) line).drop 1
  let suite := before isSpace rest
  let rest := (after isSpace rest).dropWhile isSpace
  let newVersion := before isSpace rest
  let rest := (after isSpace rest).dropWhile isSpace
  let arch := before isSpace rest
  if pkg = [] ∨ suite = [] ∨ newVersion = [] ∨ arch = [] then none
  else some (aptItem pkg suite newVersion (oldVersion (after isSpace rest)))

def parseAptUpgradable (stdout : Str) : List ScanItem :=
  let lines := (stdout.splitOnP (· == lf)).filter fun l =>
    !(trim l).isEmpty && !(text "Listing").isPrefixOf l
  (lines.filterMap parseAptLine).take MAX_ITEMS

/-! ## dnf -/

/-- `important/sec.` and the like. -/
def advisorySeverity (tag : Str) : Severity × Kind :=
  let sevPart := before (· == slash) tag
  let typePart := before (· == slash) ((after (· == slash) tag).drop 1)
  if typePart = text "sec." ∨ typePart = text "sec" then
    (if sevPart = text "critical" then .critical
      else if sevPart = text "important" then .important
      else if sevPart = text "moderate" then .moderate
      else if sevPart = text "low" then .low
      else .unknown, .security)
  else if sevPart = text "bugfix" then (.unknown, .bugfix)
  else if sevPart = text "enhancement" then (.unknown, .enhancement)
  else (.unknown, .update)

def advisoryItem (advisoryId tag pkgNvr : Str) : ScanItem where
  hotFixId := advisoryId
  packageName := none
  title := advisoryId ++ text ": " ++ pkgNvr
  severity := (advisorySeverity (lower tag)).1
  kind := (advisorySeverity (lower tag)).2
  rebootRequired := none
  source := text "dnf:advisory"

/-- `advisoryMap`. A later line takes the place of an earlier one with the same id. -/
def readUpdateinfo (stdout : Str) : OrderedMap Str ScanItem :=
  (stdout.splitOnP (· == lf)).foldl (fun advisoryMap line =>
    match words isSpace (trim line) with
    | [advisoryId, tag, pkgNvr] =>
      if lower advisoryId = text "updates" ∨ (text "===").isPrefixOf advisoryId then advisoryMap
      else advisoryMap.set advisoryId (advisoryItem advisoryId tag pkgNvr)
    | _ => advisoryMap) OrderedMap.empty

/-- `/^kernel(-|$)|^glibc(-|$)|^systemd(-|$)/`. -/
def dnfReboots (pkgArch : Str) : Bool :=
  [text "kernel", text "glibc", text "systemd"].any fun p =>
    pkgArch == p || (p ++ [dash]).isPrefixOf pkgArch

def dnfItem (pkgArch version repo : Str) : ScanItem where
  hotFixId := pkgArch ++ dash :: version
  packageName := some pkgArch
  title := pkgArch ++ text ": " ++ version
  severity := .unknown
  kind := .update
  rebootRequired := some (dnfReboots pkgArch)
  source := text "dnf:repo:" ++ repo

def parseCheckUpdateLine (advisories : List ScanItem) (line : Str) : Option ScanItem :=
  if line = [] ∨ line.head? = some space ∨ contains (lower line) (text "obsoleting") then none
  else
    match words isSpace (trim line) with
    | [pkgArch, version, repo] =>
      if advisories.any fun it => contains it.title pkgArch then none
      else some (dnfItem pkgArch version repo)
    | _ => none

/-- The loop stops behind the last item that is kept. -/
def scanDnf (updateinfo checkUpdate : Str) : List ScanItem :=
  let advisories := (readUpdateinfo updateinfo).entries.map Prod.snd
  (advisories ++ (checkUpdate.splitOnP (· == lf)).filterMap (parseCheckUpdateLine advisories)).take MAX_ITEMS

/-! ## Pending updates -/

def isAlnum (u : UInt16) : Bool := isUpper u || isLower u || isDigit u

def isDebianName (s : Str) : Bool :=
  2 ≤ s.length && s.head?.any (fun u => isLower u || isDigit u) &&
    s.all fun u => isLower u || isDigit u || oneOf "+.-" u

def isDebianVersion (s : Str) : Bool := !s.isEmpty && s.all fun u => isAlnum u || oneOf ".+~:-" u

def isRpmName (s : Str) : Bool :=
  s.head?.any (fun u => isAlnum u || oneOf "_" u) && s.all fun u => isAlnum u || oneOf "._+-" u

def isRpmVersion (s : Str) : Bool := !s.isEmpty && s.all fun u => isAlnum u || oneOf "._+~^:-" u

def isArch (s : Str) : Bool := !s.isEmpty && s.all fun u => isAlnum u || oneOf "_" u

def isAdvisoryId (s : Str) : Bool :=
  s.head?.any isAlnum && s.any isDigit && s.all fun u => isAlnum u || oneOf ":_-" u

/-- An update that `apt list --upgradable` has a line for. -/
structure AptUpdate where
  name : Str
  suite : Str
  version : Str
  arch : Str
  installed : Option Str
  name_ok : isDebianName name = true
  suite_ok : IsWord isSpace suite
  version_ok : isDebianVersion version = true
  arch_ok : isArch arch = true
  installed_ok : ∀ v ∈ installed, isDebianVersion v = true

/-- A line of `dnf updateinfo list`: an advisory has one for each of its packages. -/
structure Advisory where
  id : Str
  tag : Str
  nvr : Str
  id_ok : isAdvisoryId id = true
  tag_ok : IsWord isSpace tag
  nvr_ok : IsWord isSpace nvr

/-- A line of `dnf check-update`. -/
structure RpmUpdate where
  name : Str
  arch : Str
  version : Str
  repo : Str
  name_ok : isRpmName name = true
  arch_ok : isArch arch = true
  version_ok : isRpmVersion version = true
  repo_ok : IsWord isSpace repo

def AptUpdate.line (u : AptUpdate) : Str :=
  u.name ++ slash :: (u.suite ++ space :: (u.version ++ space :: (u.arch ++
    match u.installed with
    | some v => space :: (text "[upgradable from: " ++ (v ++ [rbracket]))
    | none => [])))

def AptUpdate.item (u : AptUpdate) : ScanItem := aptItem u.name u.suite u.version u.installed

def aptList (us : List AptUpdate) : Str :=
  Segments.spell lf (text "Listing..." :: us.map AptUpdate.line ++ [[]])

def Advisory.line (a : Advisory) : Str := Segments.spell space [a.id, a.tag, a.nvr]

def Advisory.item (a : Advisory) : ScanItem := advisoryItem a.id a.tag a.nvr

def RpmUpdate.pkgArch (u : RpmUpdate) : Str := u.name ++ dot :: u.arch

def RpmUpdate.line (u : RpmUpdate) : Str := Segments.spell space [u.pkgArch, u.version, u.repo]

def RpmUpdate.item (u : RpmUpdate) : ScanItem := dnfItem u.pkgArch u.version u.repo

def updateinfo (as : List Advisory) : Str := Segments.spell lf (as.map Advisory.line ++ [[]])

def checkUpdate (us : List RpmUpdate) : Str := Segments.spell lf ([] :: us.map RpmUpdate.line ++ [[]])

end LinuxPatch

/-! # Printed updates -/

open Hardening (slash dot dash space isUpper isLower isWord oneOf)
open Ipc (isSpace trim)

namespace LinuxPatch

/-! ## Units -/

theorem isSpace_of_isAlnum {u : UInt16} (h : isAlnum u) : isSpace u = false := by
  simp only [isAlnum, isUpper, isLower, isDigit, Bool.or_eq_true, Bool.and_eq_true, decide_eq_true_eq,
    le_iff_toNat_le] at h
  have hlt : u.toNat < 0x80 ∧ 0x30 ≤ u.toNat := by
    simp only [toNat_ofNat] at h
    omega
  simp only [isSpace, Bool.or_eq_false_iff, Bool.and_eq_false_iff, decide_eq_false_iff_not, beq_eq_false_iff_ne,
    UInt16.le_iff_toNat_le, ne_eq, ← UInt16.toNat_inj, UInt16.toNat_ofNat]
  omega

/-- What holds of letters, digits and some characters holds of their class. -/
theorem of_class {chars : String} {q : UInt16 → Bool} (halnum : ∀ u, isAlnum u → q u)
    (hchars : (text chars).all q) {s : Str}
    (hs : (s.all fun u => isAlnum u || oneOf chars u)) : ∀ u ∈ s, q u := by
  intro u hu
  have hclass := List.all_eq_true.mp hs u hu
  rcases Bool.or_eq_true_iff.mp hclass with h | h
  · exact halnum u h
  · exact List.all_eq_true.mp hchars u (List.contains_iff_mem.mp h)

theorem clean_of_class {chars : String} (hchars : ((text chars).all fun u => !isSpace u)) {s : Str}
    (hs : (s.all fun u => isAlnum u || oneOf chars u)) : ∀ u ∈ s, isSpace u = false := fun u hu => by
  simpa using of_class (fun u h => by simp [isSpace_of_isAlnum h]) hchars hs u hu

/-- A class of letters, digits and some characters is without a unit that is none of them. -/
theorem free_of_class {chars : String} {c : UInt16} (halnum : isAlnum c = false) (hchars : c ∉ text chars)
    {s : Str} (hs : (s.all fun u => isAlnum u || oneOf chars u)) : c ∉ s := by
  intro hc
  have hclass := List.all_eq_true.mp hs c hc
  rw [halnum, Bool.false_or] at hclass
  exact hchars (List.contains_iff_mem.mp hclass)

theorem all_class_of_debianName {s : Str} (h : isDebianName s) :
    (s.all fun u => isAlnum u || oneOf "+.-" u) := by
  simp only [isDebianName, Bool.and_eq_true, List.all_eq_true] at h ⊢
  intro u hu
  have hunit := h.2 u hu
  simp only [isAlnum, Bool.or_eq_true] at hunit ⊢
  tauto

/-! ## apt -/

section Apt

variable (u : AptUpdate)

theorem AptUpdate.name_clean : ∀ v ∈ u.name, isSpace v = false :=
  clean_of_class (by decide) (all_class_of_debianName u.name_ok)

theorem AptUpdate.name_ne_nil : u.name ≠ [] := by
  intro h
  have hname := u.name_ok
  simp [isDebianName, h] at hname

theorem isWord_of_debianVersion {s : Str} (h : isDebianVersion s) : IsWord isSpace s := by
  simp only [isDebianVersion, Bool.and_eq_true] at h
  exact ⟨by simpa using h.1, clean_of_class (by decide) h.2⟩

theorem isWord_of_isArch {s : Str} (h : isArch s) : IsWord isSpace s := by
  simp only [isArch, Bool.and_eq_true] at h
  exact ⟨by simpa using h.1, clean_of_class (by decide) h.2⟩

theorem IsWord.beginsWith {w : Str} (hw : IsWord isSpace w) (s : Str) :
    (space :: (w ++ s)).dropWhile isSpace = w ++ s := by
  rw [List.dropWhile_cons_of_pos (by decide), hw.dropWhile_append]

theorem oldVersion_installed :
    oldVersion (match u.installed with
      | some v => space :: (text "[upgradable from: " ++ (v ++ [rbracket]))
      | none => []) = u.installed := by
  cases hinstalled : u.installed with
  | none => rfl
  | some v =>
    obtain ⟨hne, hclean⟩ := isWord_of_debianVersion (u.installed_ok v hinstalled)
    have htag : text "[upgradable from: " = text "[upgradable from:" ++ [space] := by decide
    have hlength : (text "[upgradable from:").length = 17 := by decide
    have hprefix : (text "[upgradable from:").isPrefixOf
        (text "[upgradable from:" ++ space :: (v ++ [rbracket])) :=
      List.isPrefixOf_iff_prefix.mpr (List.prefix_append _ _)
    have hbracket : ∀ w ∈ v ++ [rbracket], isSpace w = false := by
      simp only [List.mem_append, List.mem_singleton]
      rintro w (hw | rfl)
      · exact hclean w hw
      · decide
    have hdrop : (space :: (text "[upgradable from:" ++ space :: (v ++ [rbracket]))).dropWhile isSpace =
        text "[upgradable from:" ++ space :: (v ++ [rbracket]) := by
      rfl
    have hbegin : (v ++ [rbracket]).dropWhile isSpace = v ++ [rbracket] := IsWord.dropWhile_append ⟨hne, hclean⟩ _
    simp only [oldVersion, htag, List.append_assoc, List.singleton_append, hdrop, hprefix, if_true,
      List.drop_left' hlength, List.dropWhile_cons_of_pos (show isSpace space by decide), hbegin,
      before_of_clean hbracket]
    simp [hne]

theorem parseAptLine_line : parseAptLine u.line = some u.item := by
  have hspace : isSpace space := by decide
  have hslash : ∀ v ∈ u.name, (v == slash) = false := by
    intro v hv
    have hfree : slash ∉ u.name := free_of_class (by decide) (by decide) (all_class_of_debianName u.name_ok)
    simpa using fun h : v = slash => hfree (h ▸ hv)
  have hsep : (slash == slash) := rfl
  have hversion := isWord_of_debianVersion u.version_ok
  have harch := isWord_of_isArch u.arch_ok
  have hold := oldVersion_installed u
  unfold parseAptLine AptUpdate.line
  simp only [before_append hslash hsep, after_append hslash hsep,
    List.drop_succ_cons, List.drop_zero, before_append u.suite_ok.clean hspace,
    after_append u.suite_ok.clean hspace, IsWord.beginsWith hversion, before_append hversion.clean hspace,
    after_append hversion.clean hspace, IsWord.beginsWith harch]
  cases hinstalled : u.installed with
  | none =>
    rw [hinstalled] at hold
    simp [before_of_clean harch.clean, after_of_clean harch.clean, hold, u.name_ne_nil, u.suite_ok.ne_nil,
      hversion.ne_nil, harch.ne_nil, AptUpdate.item, hinstalled]
  | some v =>
    rw [hinstalled] at hold
    simp [before_append harch.clean hspace, after_append harch.clean hspace, hold, u.name_ne_nil,
      u.suite_ok.ne_nil, hversion.ne_nil, harch.ne_nil, AptUpdate.item, hinstalled]

end Apt

/-- What is not all space is not trimmed away. -/
theorem trim_ne_nil {s : Str} {c : UInt16} (hc : c ∈ s) (hspace : isSpace c = false) : trim s ≠ [] := by
  intro h
  have hall := List.rdropWhile_eq_nil_iff.mp h
  rw [← List.takeWhile_append_dropWhile (p := isSpace) (l := s), List.mem_append] at hc
  rcases hc with hc | hc
  · simp [List.mem_takeWhile_imp hc] at hspace
  · simp [hall c hc] at hspace

theorem lf_free {s : Str} (h : ∀ v ∈ s, isSpace v = false) : ∀ v ∈ s, (v == lf) = false := by
  intro v hv
  have hv' := h v hv
  simp only [beq_eq_false_iff_ne]
  rintro rfl
  exact absurd hv' (by decide)

theorem AptUpdate.line_free (u : AptUpdate) : ∀ v ∈ u.line, (v == lf) = false := by
  intro v hv
  simp only [AptUpdate.line, List.mem_append, List.mem_cons] at hv
  rcases hv with hv | rfl | hv | rfl | hv | rfl | hv | hv
  · exact lf_free u.name_clean v hv
  · decide
  · exact lf_free u.suite_ok.clean v hv
  · decide
  · exact lf_free (isWord_of_debianVersion u.version_ok).clean v hv
  · decide
  · exact lf_free (isWord_of_isArch u.arch_ok).clean v hv
  · cases hinstalled : u.installed with
    | none => simp [hinstalled] at hv
    | some old =>
      simp only [hinstalled, List.mem_cons, List.mem_append, List.not_mem_nil, or_false] at hv
      rcases hv with rfl | hv | hv | rfl
      · decide
      · exact List.forall_iff_forall_mem.mp
          (by decide : (text "[upgradable from: ").Forall fun v => (v == lf) = false) v hv
      · exact lf_free (isWord_of_debianVersion (u.installed_ok old hinstalled)).clean v hv
      · decide

/-- A line of an update is neither blank nor the heading. -/
theorem AptUpdate.line_kept (u : AptUpdate) :
    (!(trim u.line).isEmpty && !(text "Listing").isPrefixOf u.line) := by
  cases hname : u.name with
  | nil => exact absurd hname u.name_ne_nil
  | cons c rest =>
    have hc : isSpace c = false := u.name_clean c (by simp [hname])
    have hline : ∃ s, u.line = c :: s := ⟨_, by rw [AptUpdate.line, hname, List.cons_append]⟩
    obtain ⟨s, hs⟩ := hline
    have htrim : trim u.line ≠ [] := trim_ne_nil (by simp [hs]) hc
    have hheading : (text "Listing").isPrefixOf u.line = false := by
      rw [hs, show text "Listing" = 0x4C :: text "isting" by decide, List.isPrefixOf_cons_cons]
      have hfirst : (isLower c || isDigit c) := by
        have hok := u.name_ok
        simp only [isDebianName, hname, Bool.and_eq_true] at hok
        simpa using hok.1.2
      have hne : ((0x4C : UInt16) == c) = false := by
        simp only [beq_eq_false_iff_ne]
        rintro rfl
        exact absurd hfirst (by decide)
      simp [hne]
    simp [htrim, hheading]

/-- The scan of what apt prints has the items of the pending updates. -/
theorem parseAptUpgradable_aptList (us : List AptUpdate) :
    parseAptUpgradable (aptList us) = (us.map AptUpdate.item).take MAX_ITEMS := by
  have hclean : Segments.Clean (· == lf) (text "Listing..." :: us.map AptUpdate.line ++ [[]]) := by
    intro l hl
    simp only [List.mem_append, List.mem_cons, List.mem_map, List.not_mem_nil, or_false] at hl
    rcases hl with (rfl | ⟨u, -, rfl⟩) | rfl
    · exact List.forall_iff_forall_mem.mp (by decide)
    · exact u.line_free
    · simp
  have hlines : ((text "Listing..." :: us.map AptUpdate.line ++ [[]]).filter fun l =>
      !(trim l).isEmpty && !(text "Listing").isPrefixOf l) = us.map AptUpdate.line := by
    have hheading : (!(trim (text "Listing...")).isEmpty &&
        !(text "Listing").isPrefixOf (text "Listing...")) = false := by decide
    rw [List.cons_append, List.filter_cons_of_neg (by simp [hheading]), List.filter_append, List.filter_eq_self.mpr]
    · simp [trim]
    · intro l hl
      obtain ⟨u, -, rfl⟩ := List.mem_map.mp hl
      exact u.line_kept
  have hsplit : (aptList us).splitOnP (· == lf) = text "Listing..." :: us.map AptUpdate.line ++ [[]] :=
    Segments.splitOnP_spell_of_clean rfl (by simp) hclean
  unfold parseAptUpgradable
  dsimp only
  rw [hsplit, hlines, List.filterMap_map]
  congr 1
  rw [← List.filterMap_eq_map]
  exact List.filterMap_congr fun u _ => parseAptLine_line u

/-! ## dnf -/

/-- The text begins and ends with a word. -/
theorem trim_words {a c : Str} (ha : IsWord isSpace a) (hc : IsWord isSpace c) (s : Str) :
    trim (a ++ s ++ c) = a ++ s ++ c := by
  have hbegin : (a ++ s ++ c).dropWhile isSpace = a ++ s ++ c := by
    rw [List.append_assoc]
    exact ha.dropWhile_append _
  unfold trim
  rw [hbegin, List.rdropWhile_eq_self_iff]
  intro hne
  rw [List.getLast_append_of_ne_nil _ hc.ne_nil]
  simp [hc.clean _ (List.getLast_mem hc.ne_nil)]

/-- The words of a line with three fields. -/
theorem words_line {a b c : Str} (ha : IsWord isSpace a) (hb : IsWord isSpace b) (hc : IsWord isSpace c) :
    words isSpace (trim (Segments.spell space [a, b, c])) = [a, b, c] := by
  have htrim : trim (Segments.spell space [a, b, c]) = Segments.spell space [a, b, c] := by
    have hspell : Segments.spell space [a, b, c] = a ++ (space :: b ++ [space]) ++ c := by
      simp [Segments.spell]
    rw [hspell]
    exact trim_words ha hc _
  rw [htrim]
  refine words_spell (by decide) (by simp) fun w hw => ?_
  simp only [List.mem_cons, List.not_mem_nil, or_false] at hw
  rcases hw with rfl | rfl | rfl <;> assumption

theorem line_free {a b c : Str} (ha : IsWord isSpace a) (hb : IsWord isSpace b) (hc : IsWord isSpace c) :
    ∀ v ∈ Segments.spell space [a, b, c], (v == lf) = false := by
  intro v hv
  simp only [Segments.spell, List.mem_append, List.mem_cons] at hv
  rcases hv with hv | rfl | hv | rfl | hv
  · exact lf_free ha.clean v hv
  · decide
  · exact lf_free hb.clean v hv
  · decide
  · exact lf_free hc.clean v hv

section Dnf

theorem Advisory.isWord_id (a : Advisory) : IsWord isSpace a.id := by
  have hid := a.id_ok
  simp only [isAdvisoryId, Bool.and_eq_true] at hid
  refine ⟨?_, clean_of_class (by decide) hid.2⟩
  rintro h
  simp [h] at hid

theorem lower_ne_updates {s : Str} (h : s.any isDigit) : lower s ≠ text "updates" := by
  obtain ⟨u, hu, hdigit⟩ := List.any_eq_true.mp h
  intro heq
  -- a digit is no letter, and stays as it is
  have hupper : isUpper u = false := by
    simp only [isDigit, Bool.and_eq_true, decide_eq_true_eq, le_iff_toNat_le] at hdigit
    simp only [isUpper, Bool.and_eq_false_iff, decide_eq_false_iff_not, le_iff_toNat_le]
    simp only [toNat_ofNat] at hdigit ⊢
    omega
  have hmem : u ∈ lower s := List.mem_map.mpr ⟨u, hu, by simp [hupper]⟩
  rw [heq] at hmem
  have hfree : (text "updates").Forall fun v => isDigit v = false := by decide
  exact absurd hdigit (by simpa using List.forall_iff_forall_mem.mp hfree u hmem)

theorem Advisory.not_heading (a : Advisory) :
    ¬ (lower a.id = text "updates" ∨ (text "===").isPrefixOf a.id) := by
  have hid := a.id_ok
  simp only [isAdvisoryId, Bool.and_eq_true] at hid
  rintro (h | h)
  · exact lower_ne_updates hid.1.2 h
  · cases hcons : a.id with
    | nil => simp [hcons] at hid
    | cons c rest =>
      rw [hcons, show text "===" = 0x3D :: text "==" by decide, List.isPrefixOf_cons_cons,
        Bool.and_eq_true, beq_iff_eq] at h
      simp only [hcons, List.head?_cons, ← h.1] at hid
      exact absurd hid.1.1 (by decide)

def advisoryItems (as : List Advisory) : List ScanItem :=
  (as.foldl (fun m a => m.set a.id a.item) (OrderedMap.empty : OrderedMap Str ScanItem)).entries.map Prod.snd

/-- An update that the scan does not leave out. -/
def RpmUpdate.listed (as : List Advisory) (u : RpmUpdate) : Bool :=
  !contains (lower u.line) (text "obsoleting") && !(advisoryItems as).any fun it => contains it.title u.pkgArch

theorem readUpdateinfo_updateinfo (as : List Advisory) :
    (readUpdateinfo (updateinfo as)).entries.map Prod.snd = advisoryItems as := by
  have hclean : Segments.Clean (· == lf) (as.map Advisory.line ++ [[]]) := by
    intro l hl
    simp only [List.mem_append, List.mem_map, List.mem_singleton] at hl
    rcases hl with ⟨a, -, rfl⟩ | rfl
    · exact line_free a.isWord_id a.tag_ok a.nvr_ok
    · simp
  have hsplit : (updateinfo as).splitOnP (· == lf) = as.map Advisory.line ++ [[]] :=
    Segments.splitOnP_spell_of_clean rfl (by simp) hclean
  have hblank : words isSpace (trim []) = [] := by decide
  unfold readUpdateinfo advisoryItems
  rw [hsplit, List.foldl_append, List.foldl_map]
  simp only [List.foldl_cons, List.foldl_nil]
  congr 2
  refine List.foldl_ext _ _ _ fun m a _ => ?_
  simp only [Advisory.line, words_line a.isWord_id a.tag_ok a.nvr_ok, if_neg a.not_heading]
  rfl

theorem RpmUpdate.pkgArch_class (u : RpmUpdate) : ∀ v ∈ u.pkgArch, isSpace v = false := by
  have hname := u.name_ok
  have harch := u.arch_ok
  simp only [isRpmName, Bool.and_eq_true] at hname
  intro v hv
  simp only [RpmUpdate.pkgArch, List.mem_append, List.mem_cons] at hv
  rcases hv with hv | rfl | hv
  · exact clean_of_class (by decide) hname.2 v hv
  · decide
  · exact (isWord_of_isArch harch).clean v hv

theorem RpmUpdate.name_ne_nil (u : RpmUpdate) : u.name ≠ [] := by
  intro h
  have hname := u.name_ok
  simp [isRpmName, h] at hname

theorem RpmUpdate.isWord_pkgArch (u : RpmUpdate) : IsWord isSpace u.pkgArch :=
  ⟨by simp [RpmUpdate.pkgArch], u.pkgArch_class⟩

theorem isWord_of_rpmVersion {s : Str} (h : isRpmVersion s) : IsWord isSpace s := by
  simp only [isRpmVersion, Bool.and_eq_true] at h
  exact ⟨by simpa using h.1, clean_of_class (by decide) h.2⟩

theorem parseCheckUpdateLine_line (as : List Advisory) (u : RpmUpdate) :
    parseCheckUpdateLine (advisoryItems as) u.line = if u.listed as then some u.item else none := by
  have hwords : words isSpace (trim u.line) = [u.pkgArch, u.version, u.repo] :=
    words_line u.isWord_pkgArch (isWord_of_rpmVersion u.version_ok) u.repo_ok
  have hhead : u.line ≠ [] ∧ u.line.head? ≠ some space := by
    cases hname : u.name with
    | nil => exact absurd hname u.name_ne_nil
    | cons c rest =>
      have hc : isSpace c = false := u.pkgArch_class c (by simp [RpmUpdate.pkgArch, hname])
      have hne : c ≠ space := by
        rintro rfl
        exact absurd hc (by decide)
      simp [RpmUpdate.line, RpmUpdate.pkgArch, Segments.spell, hname, hne]
  unfold parseCheckUpdateLine RpmUpdate.listed
  rw [hwords]
  by_cases hobsoleting : contains (lower u.line) (text "obsoleting")
  · simp [hobsoleting]
  · by_cases hcovered : ((advisoryItems as).any fun it => contains it.title u.pkgArch)
    · simp [hcovered]
    · simp [hhead, hobsoleting, hcovered, RpmUpdate.item]

/-- The scan of what dnf prints has an item for each advisory, and for each update that is listed. -/
theorem scanDnf_printed (as : List Advisory) (us : List RpmUpdate) : scanDnf (updateinfo as) (checkUpdate us) =
      (advisoryItems as ++ (us.filter (RpmUpdate.listed as)).map RpmUpdate.item).take MAX_ITEMS := by
  have hclean : Segments.Clean (· == lf) ([] :: us.map RpmUpdate.line ++ [[]]) := by
    intro l hl
    simp only [List.mem_append, List.mem_cons, List.mem_map, List.not_mem_nil, or_false] at hl
    rcases hl with (rfl | ⟨u, -, rfl⟩) | rfl
    · simp
    · exact line_free u.isWord_pkgArch (isWord_of_rpmVersion u.version_ok) u.repo_ok
    · simp
  have hsplit : (checkUpdate us).splitOnP (· == lf) = [] :: us.map RpmUpdate.line ++ [[]] :=
    Segments.splitOnP_spell_of_clean rfl (by simp) hclean
  unfold scanDnf
  dsimp only
  rw [readUpdateinfo_updateinfo, hsplit, List.cons_append, List.filterMap_cons, List.filterMap_append,
    List.filterMap_map]
  have hblank : parseCheckUpdateLine (advisoryItems as) [] = none := rfl
  simp only [hblank, List.filterMap_cons, List.filterMap_nil, List.append_nil]
  congr 2
  rw [← List.filterMap_eq_map, List.filterMap_filter]
  exact List.filterMap_congr fun u _ => parseCheckUpdateLine_line as u

end Dnf

end LinuxPatch
