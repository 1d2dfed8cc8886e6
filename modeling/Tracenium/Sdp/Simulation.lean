-- SUMMARY: The verdict on a simulated uninstall, and when it goes ahead only on what a removal of the target prints.
import Tracenium.LinuxPatch.Scan

/-!
`judgeAptSimulation` and `judgeDnfSimulation` of `privsvc/linux/src/uninstall-simulation.ts`. apt-get prints a line for
every package that it removes. dnf prints a table with sections, up to the summary of the transaction.
-/

open Utf16 Json Words List
open Hardening (space oneOf)
open Ipc (isSpace trim dropCr)
open LinuxPatch (lf lower contains isAlnum)

namespace Sdp

def colon : UInt16 := 0x3A

/-! ## Names -/

def isArchUnit (u : UInt16) : Bool := isAlnum u || oneOf "_-" u

def isNameUnit (u : UInt16) : Bool := isAlnum u || oneOf "+._~-" u

def isBareName (name : Str) : Bool := name.head?.any isAlnum && name.all isNameUnit

/-- `name.replace(/:[A-Za-z0-9_-]+$/, "")`. -/
def bareName (name : Str) : Str :=
  let rest := name.rdropWhile isArchUnit
  if rest.length < name.length && rest.getLast? == some colon then rest.dropLast else name

/-! ## The verdict -/

inductive SimulationVerdict
  | proceed (unusedDependencies : List Str)
  | notInstalled
  | wouldRemoveDependents (dependents : List Str)
  | uninstallSimulationUnreadable (detail : Str)
  deriving DecidableEq

def SimulationVerdict.proceeds : SimulationVerdict → Bool
  | proceed _ => true
  | _ => false

def mentions (output phrase : Str) : Bool := contains (lower output) (lower phrase)

/-! ## apt-get -/

/-- `/^(?:Remv|Purg)\s+(\S+)/` on a trimmed line. -/
def removalWord (line : Str) : Option Str :=
  let t := trim line
  if (text "Remv").isPrefixOf t || (text "Purg").isPrefixOf t then
    let rest := t.drop 4
    if rest.head?.any isSpace then some (before isSpace (rest.dropWhile isSpace)) else none
  else none

def aptRemoved (output : Str) : List Str := ((output.splitOn lf).filterMap removalWord).map bareName

def aptNotInstalled (output : Str) : Bool :=
  mentions output (text "Unable to locate package") || mentions output (text "is not installed, so not removed")

def judgeAptSimulation (target output : Str) (exitCode : Nat) : SimulationVerdict :=
  let want := bareName (trim target)
  if aptNotInstalled output then .notInstalled
  else if exitCode ≠ 0 then .uninstallSimulationUnreadable (text "apt-get -s remove exited " ++ decimal exitCode)
  else
    let removed := (aptRemoved output).eraseDups
    if removed.isEmpty || !removed.contains want then
      .uninstallSimulationUnreadable (text "apt-get simulation did not list " ++ want ++ text " for removal")
    else
      let others := removed.filter (· != want)
      if others.isEmpty then .proceed [] else .wouldRemoveDependents others

/-! ## dnf -/

inductive DnfSection
  | target
  | unused
  | collateral
  deriving DecidableEq

def dnfSectionOf (header : Str) : DnfSection :=
  let h := lower (trim header)
  if h = text "removing:" then .target
  else if h = text "removing unused dependencies:" then .unused
  else .collateral

def outputLines (output : Str) : List Str := (output.splitOn lf).map dropCr

def isSummary (line : Str) : Bool := (text "transaction summary").isPrefixOf (lower (trim line))

/-- Without a space before it, and with a colon at its end. -/
def isHeader (line : Str) : Bool := !line.head?.any isSpace && (trim line).getLast? == some colon

def indent (line : Str) : Nat := (line.takeWhile isSpace).length

/-- The rows of the table, each with its section, and whether there is a section. -/
def readTable : Option DnfSection → List Str → Bool × List (DnfSection × Str)
  | _, [] => (false, [])
  | current, line :: ls =>
    if trim line = [] then readTable current ls
    else if isSummary line then (false, [])
    else if isHeader line then (true, (readTable (some (dnfSectionOf (trim line))) ls).2)
    else
      match current with
      | none => readTable none ls
      | some sec =>
        let later := readTable (some sec) ls
        if indent line = 0 ∨ 2 < indent line then later
        else (later.1, (sec, bareName (before isSpace (trim line))) :: later.2)

def namesIn (sec : DnfSection) (rows : List (DnfSection × Str)) : List Str :=
  (rows.filter fun row => row.1 = sec).map Prod.snd

def dnfNotInstalled (output : Str) : Bool :=
  mentions output (text "No match for argument") || mentions output (text "No packages marked for removal") ||
    mentions output (text "No packages to remove")

def judgeDnfSimulation (target output : Str) : SimulationVerdict :=
  let want := bareName (trim target)
  if dnfNotInstalled output then .notInstalled
  else
    let (sawTable, rows) := readTable none (outputLines output)
    let targets := (namesIn .target rows).eraseDups
    if !sawTable || !targets.contains want then
      .uninstallSimulationUnreadable (text "dnf simulation did not list " ++ want ++ text " for removal")
    else
      let collateral := (targets.filter (· != want) ++ namesIn .collateral rows).eraseDups
      if collateral.isEmpty then .proceed (namesIn .unused rows).eraseDups else .wouldRemoveDependents collateral

/-! ## What is printed -/

structure Package where
  name : Str
  /-- Printed behind the name by apt-get, if it is not the one of the host. -/
  arch : Option Str
  name_ok : isBareName name = true
  arch_ok : ∀ arch' ∈ arch, arch' ≠ [] ∧ arch'.all isArchUnit = true

def Package.spelled (p : Package) : Str :=
  match p.arch with
  | none => p.name
  | some arch => p.name ++ colon :: arch

inductive Role
  | target
  | unused
  | other
  deriving DecidableEq

/-- What a section of dnf stands for. The headers that are not known are of other roles. -/
def DnfSection.role : DnfSection → Role
  | target => .target
  | unused => .unused
  | collateral => .other

/-- A line of `apt-get -s` for a package: what comes after the version is free. -/
def aptLine (purge : Bool) (p : Package) (version tail : Str) : Str :=
  text (if purge then "Purg" else "Remv") ++ space :: (p.spelled ++ text " [" ++ version ++ text "]" ++ tail)

/-- The lines of `apt-get -s` for the packages, with other lines around them. -/
inductive AptLines : List Str → List Package → Prop
  | nil : AptLines [] []
  | removal (purge : Bool) (p : Package) (version tail : Str) {ls : List Str} {packages : List Package}
    (later : AptLines ls packages) : AptLines (aptLine purge p version tail :: ls) (p :: packages)
  | other {line : Str} (hother : removalWord line = none) {ls : List Str} {packages : List Package}
    (later : AptLines ls packages) : AptLines (line :: ls) packages

def AptRenders (output : Str) (packages : List Package) : Prop := AptLines (output.splitOn lf) packages

/-- A line of a table that is neither a row nor a header: blank, unindented, or the deeply indented continuation of a
row. -/
def isFiller (line : Str) : Bool := (trim line).isEmpty || indent line == 0 || 2 < indent line

/-- The lines of a table of dnf from a section on, with what comes before the first section and after the summary. -/
inductive Table : Option DnfSection → List Str → List (Role × Package) → Prop
  | summary {current : Option DnfSection} {line : Str} (hsummary : isSummary line = true) (after : List Str) :
    Table current (line :: after) []
  | header {current : Option DnfSection} {line : Str} (hheader : isHeader line = true)
    (hsummary : isSummary line = false) {ls : List Str} {rows : List (Role × Package)}
    (later : Table (some (dnfSectionOf (trim line))) ls rows) : Table current (line :: ls) rows
  | row {sec : DnfSection} (p : Package) {columns : Str} (hcolumns : ∀ u ∈ columns.head?, isSpace u = true)
    (hsummary : isSummary (space :: (p.name ++ columns)) = false) {ls : List Str} {rows : List (Role × Package)}
    (later : Table (some sec) ls rows) :
    Table (some sec) ((space :: (p.name ++ columns)) :: ls) ((sec.role, p) :: rows)
  | filler {sec : DnfSection} {line : Str} (hfiller : isFiller line = true) (hheader : isHeader line = false)
    (hsummary : isSummary line = false) {ls : List Str} {rows : List (Role × Package)}
    (later : Table (some sec) ls rows) : Table (some sec) (line :: ls) rows
  | before {line : Str} (hheader : isHeader line = false) (hsummary : isSummary line = false) {ls : List Str}
    {rows : List (Role × Package)} (later : Table none ls rows) : Table none (line :: ls) rows

def DnfRenders (output : Str) (rows : List (Role × Package)) : Prop := Table none (outputLines output) rows

/-! ## What a verdict is to be -/

/-- The packages are the target, and there are some. -/
structure RemovesOnly (want : Str) (packages : List Package) : Prop where
  some_package : packages ≠ []
  target : ∀ p ∈ packages, p.name = want

/-- The packages are the target and dependencies that are not used any more. -/
structure RemovesWithUnused (want : Str) (rows : List (Role × Package)) : Prop where
  some_package : ∃ p, (Role.target, p) ∈ rows ∧ p.name = want
  target : ∀ row ∈ rows, row.2.name = want ∨ row.1 = .unused

/-- An uninstall goes ahead only on what apt-get prints for a removal of the target and nothing else. -/
structure AptSafe (target output : Str) (exitCode : Nat) : Prop where
  only : (judgeAptSimulation target output exitCode).proceeds = true → ∀ packages, AptRenders output packages →
    RemovesOnly (bareName (trim target)) packages
  rendered : (judgeAptSimulation target output exitCode).proceeds = true → ∃ packages, AptRenders output packages

structure DnfSafe (target output : Str) : Prop where
  only : (judgeDnfSimulation target output).proceeds = true → ∀ rows, DnfRenders output rows →
    RemovesWithUnused (bareName (trim target)) rows
  rendered : (judgeDnfSimulation target output).proceeds = true → ∃ rows, DnfRenders output rows

end Sdp

/-!
# Going ahead

A table that breaks off before the summary of the transaction is taken for a whole one.
-/

open Hardening (space oneOf)
open Ipc (isSpace trim dropCr)
open LinuxPatch (lf lower contains isAlnum)

namespace Sdp

/-! ## Names -/

section Names

theorem colon_not_isArchUnit : isArchUnit colon = false := by decide

theorem bareName_of_colon_notMem {name : Str} (h : colon ∉ name) : bareName name = name := by
  have hlast : (name.rdropWhile isArchUnit).getLast? ≠ some colon := fun hlast =>
    h (Ends.mem_of_mem_rdropWhile (mem_of_getLast? hlast))
  have hfalse : ((name.rdropWhile isArchUnit).getLast? == some colon) = false := by simpa using hlast
  simp [bareName, hfalse]

theorem bareName_append {name arch : Str} (hne : arch ≠ []) (harch : arch.all isArchUnit) :
    bareName (name ++ colon :: arch) = name := by
  have hrest : (name ++ colon :: arch).rdropWhile isArchUnit = name ++ [colon] := by
    rw [Ends.rdropWhile_append_cons colon_not_isArchUnit]
    have hnil : arch.rdropWhile isArchUnit = [] := rdropWhile_eq_nil_iff.mpr (all_eq_true.mp harch)
    rw [hnil]
  have hlength : (name ++ [colon]).length < (name ++ colon :: arch).length := by
    have hpos := length_pos_iff.mpr hne
    simpa using hpos
  simp only [bareName, hrest, hlength]
  simp

namespace Package

variable (p : Package)

theorem name_units : (p.name.all fun u => isAlnum u || oneOf "+._~-" u) := by
  have hok := p.name_ok
  simp only [isBareName, Bool.and_eq_true] at hok
  exact hok.2

theorem name_ne_nil : p.name ≠ [] := by
  have hok := p.name_ok
  rintro hnil
  simp [isBareName, hnil] at hok

theorem colon_notMem_name : colon ∉ p.name := LinuxPatch.free_of_class (by decide) (by decide) p.name_units

@[simp] theorem bareName_name : bareName p.name = p.name := bareName_of_colon_notMem p.colon_notMem_name

@[simp] theorem bareName_spelled : bareName p.spelled = p.name := by
  unfold spelled
  cases harch : p.arch with
  | none => exact p.bareName_name
  | some arch =>
    obtain ⟨hne, hunits⟩ := p.arch_ok arch (by rw [harch]; rfl)
    exact bareName_append hne hunits

theorem isSpace_name : ∀ u ∈ p.name, isSpace u = false := LinuxPatch.clean_of_class (by decide) p.name_units

theorem isSpace_spelled : ∀ u ∈ p.spelled, isSpace u = false := by
  unfold spelled
  cases harch : p.arch with
  | none => exact p.isSpace_name
  | some arch =>
    obtain ⟨-, hunits⟩ := p.arch_ok arch (by rw [harch]; rfl)
    intro u hu
    rcases mem_append.mp hu with hu | hu
    · exact p.isSpace_name u hu
    · rcases mem_cons.mp hu with rfl | hu
      · decide
      · exact LinuxPatch.clean_of_class (by decide) hunits u hu

theorem spelled_ne_nil : p.spelled ≠ [] := by
  unfold spelled
  cases p.arch with
  | none => exact p.name_ne_nil
  | some arch => simp

end Package

end Names

/-! ## apt-get -/

section Apt

def IsAptLine (line : Str) : Prop := ∃ purge p version tail, line = aptLine purge p version tail

/-- What is trimmed keeps a start without spaces around it. -/
theorem trim_append_cons {s : Str} (hs : ∀ u ∈ s.head?, isSpace u = false) (hne : s ≠ []) {u : UInt16}
    (hu : isSpace u = false) (rest : Str) : trim (s ++ u :: rest) = s ++ u :: rest.rdropWhile isSpace := by
  have hstart : (s ++ u :: rest).dropWhile isSpace = s ++ u :: rest := by
    cases s with
    | nil => exact absurd rfl hne
    | cons v s => rw [cons_append, dropWhile_cons_of_neg (by simp [hs v rfl])]
  rw [trim, hstart, Ends.rdropWhile_append_cons hu]

theorem removalWord_aptLine (purge : Bool) (p : Package) (version tail : Str) :
    removalWord (aptLine purge p version tail) = some p.spelled := by
  have hbracket : isSpace 0x5B = false := by decide
  have hline : aptLine purge p version tail =
      (text (if purge then "Purg" else "Remv") ++ space :: (p.spelled ++ [space])) ++
        0x5B :: (version ++ text "]" ++ tail) := by
    have hopen : text " [" = [space, 0x5B] := by decide
    simp [aptLine, hopen]
  have htrim : trim (aptLine purge p version tail) = text (if purge then "Purg" else "Remv") ++
      space :: (p.spelled ++ space :: 0x5B :: (version ++ text "]" ++ tail).rdropWhile isSpace) := by
    rw [hline, trim_append_cons _ (by simp) hbracket]
    · simp
    · cases purge <;> simp <;> decide
  have hword (s : Str) : before isSpace ((space :: (p.spelled ++ space :: s)).dropWhile isSpace) = p.spelled := by
    have hspace : isSpace space := by decide
    rw [dropWhile_cons_of_pos hspace]
    cases hspelled : p.spelled with
    | nil => exact absurd hspelled p.spelled_ne_nil
    | cons u rest =>
      have hclean := p.isSpace_spelled
      rw [hspelled] at hclean
      rw [cons_append, dropWhile_cons_of_neg (by simp [hclean u mem_cons_self]), ← cons_append]
      exact before_append hclean hspace s
  rw [removalWord, htrim]
  cases purge with
  | true =>
    have hdrop (s : Str) : (text "Purg" ++ s).drop 4 = s := rfl
    have hprefix (s : Str) : (text "Purg").isPrefixOf (text "Purg" ++ s) :=
      isPrefixOf_iff_prefix.mpr (prefix_append _ _)
    have hspace : isSpace space := by decide
    simp only [if_true, hprefix, Bool.or_true, hdrop, head?_cons, Option.any_some, hspace, hword]
  | false =>
    have hdrop (s : Str) : (text "Remv" ++ s).drop 4 = s := rfl
    have hprefix (s : Str) : (text "Remv").isPrefixOf (text "Remv" ++ s) :=
      isPrefixOf_iff_prefix.mpr (prefix_append _ _)
    have hspace : isSpace space := by decide
    simp only [Bool.false_eq_true, if_false, hprefix, Bool.true_or, if_true, hdrop, head?_cons, Option.any_some,
      hspace, hword]

/-- What is read from the lines are the packages. -/
theorem removed_of_aptLines {ls : List Str} {packages : List Package} (h : AptLines ls packages) :
    (ls.filterMap removalWord).map bareName = packages.map Package.name := by
  induction h with
  | nil => rfl
  | removal purge p version tail later ih =>
    rw [filterMap_cons_some (removalWord_aptLine purge p version tail), map_cons, map_cons, ih, p.bareName_spelled]
  | other hother later ih => rw [filterMap_cons_none hother, ih]

/-- Some lines are those of packages exactly if every line that is read as a removal is one. -/
theorem exists_aptLines_iff (ls : List Str) :
    (∃ packages, AptLines ls packages) ↔ ∀ line ∈ ls, removalWord line ≠ none → IsAptLine line := by
  constructor
  · rintro ⟨packages, h⟩
    induction h with
    | nil => simp
    | removal purge p version tail later ih =>
      exact forall_mem_cons.mpr ⟨fun _ => ⟨purge, p, version, tail, rfl⟩, ih⟩
    | other hother later ih => exact forall_mem_cons.mpr ⟨fun h => absurd hother h, ih⟩
  · intro h
    induction ls with
    | nil => exact ⟨[], .nil⟩
    | cons line ls ih =>
      obtain ⟨hline, hls⟩ := forall_mem_cons.mp h
      obtain ⟨packages, hpackages⟩ := ih hls
      cases hword : removalWord line with
      | none => exact ⟨packages, .other hword hpackages⟩
      | some word =>
        obtain ⟨purge, p, version, tail, rfl⟩ := hline (by simp [hword])
        exact ⟨p :: packages, .removal purge p version tail hpackages⟩

/-- The lines that are read as removals name the target, and nothing says that it is not installed. -/
structure AptOnly (target output : Str) (exitCode : Nat) : Prop where
  installed : aptNotInstalled output = false
  exitCode : exitCode = 0
  some_name : aptRemoved output ≠ []
  target : ∀ name ∈ aptRemoved output, name = bareName (trim target)

theorem aptOnly_iff (target output : Str) (exitCode : Nat) :
    (judgeAptSimulation target output exitCode).proceeds ↔ AptOnly target output exitCode := by
  have honly : AptOnly target output exitCode ↔ aptNotInstalled output = false ∧ exitCode = 0 ∧
      aptRemoved output ≠ [] ∧ ∀ name ∈ aptRemoved output, name = bareName (trim target) :=
    ⟨fun h => ⟨h.installed, h.exitCode, h.some_name, h.target⟩, fun h => ⟨h.1, h.2.1, h.2.2.1, h.2.2.2⟩⟩
  rw [honly, judgeAptSimulation]
  dsimp only
  generalize bareName (trim target) = want
  split
  · rename_i hnot
    simp [SimulationVerdict.proceeds, hnot]
  · rename_i hinstalled
    rw [Bool.not_eq_true] at hinstalled
    split
    · rename_i hcode
      simp [SimulationVerdict.proceeds, hcode]
    · rename_i hcode
      rw [not_not] at hcode
      split
      · rename_i hnone
        refine iff_of_false (by simp [SimulationVerdict.proceeds]) fun ⟨_, _, hne, hall⟩ => ?_
        obtain ⟨name, hname⟩ := exists_mem_of_ne_nil _ hne
        obtain rfl := hall name hname
        have hmem : name ∈ (aptRemoved output).eraseDups := mem_eraseDups.mpr hname
        cases hdups : (aptRemoved output).eraseDups with
        | nil => simp [hdups] at hmem
        | cons n ns => simp_all
      · rename_i hsome
        simp only [Bool.or_eq_true, List.isEmpty_iff, Bool.not_eq_true', List.contains_eq_mem, not_or,
          decide_eq_false_iff_not, not_not, mem_eraseDups] at hsome
        have hne : aptRemoved output ≠ [] := ne_nil_of_mem hsome.2
        have hothers : ((aptRemoved output).eraseDups.filter (· != want)).isEmpty ↔
            ∀ name ∈ aptRemoved output, name = want := by
          simp
        split
        · rename_i hempty
          exact iff_of_true rfl ⟨hinstalled, hcode, hne, hothers.mp hempty⟩
        · rename_i hempty
          refine iff_of_false (by simp [SimulationVerdict.proceeds]) fun ⟨_, _, _, hall⟩ => hempty (hothers.mpr hall)

/-- apt-get is read right exactly if every line that is read as a removal is one that it prints for a package. -/
theorem aptSafe_iff (target output : Str) (exitCode : Nat) :
    AptSafe target output exitCode ↔ (AptOnly target output exitCode →
      ∀ line ∈ output.splitOn lf, removalWord line ≠ none → IsAptLine line) := by
  constructor
  · intro hsafe honly
    exact (exists_aptLines_iff _).mp (hsafe.rendered ((aptOnly_iff _ _ _).mpr honly))
  · intro hshaped
    refine ⟨fun hproceeds packages hpackages => ?_, fun hproceeds => ?_⟩
    · have honly := (aptOnly_iff _ _ _).mp hproceeds
      have hnames : aptRemoved output = packages.map Package.name := removed_of_aptLines hpackages
      refine ⟨fun hnil => honly.some_name (by rw [hnames, hnil]; rfl), fun p hp => honly.target _ ?_⟩
      rw [hnames]
      exact mem_map_of_mem hp
    · exact (exists_aptLines_iff _).mpr (hshaped ((aptOnly_iff _ _ _).mp hproceeds))

end Apt

/-! ## dnf -/

section Dnf

/-- A row: one space, the name of a package, and columns. -/
def IsRow (line : Str) : Prop :=
  ∃ (p : Package) (columns : Str), (∀ u ∈ columns.head?, isSpace u = true) ∧ line = space :: (p.name ++ columns)

/-- There is a summary, and every line before it that is read as a row is one. -/
def Shaped : Option DnfSection → List Str → Prop
  | _, [] => False
  | current, line :: ls =>
    if isSummary line then True
    else if isHeader line then Shaped (some (dnfSectionOf (trim line))) ls
    else
      match current with
      | none => Shaped none ls
      | some sec => (isFiller line = false → IsRow line) ∧ Shaped (some sec) ls

theorem not_isHeader_of_space {line : Str} (h : ∃ u ∈ line.head?, isSpace u) : isHeader line = false := by
  obtain ⟨u, hu, hspace⟩ := h
  rw [Option.mem_def] at hu
  simp [isHeader, hu, hspace]

theorem trim_ne_nil_of_isSummary {line : Str} (h : isSummary line) : trim line ≠ [] := by
  intro hnil
  simp [isSummary, hnil] at h
  exact absurd h (by decide)

theorem trim_ne_nil_of_isHeader {line : Str} (h : isHeader line) : trim line ≠ [] := by
  intro hnil
  simp [isHeader, hnil] at h

section Row

variable (p : Package) {columns : Str} (hcolumns : ∀ u ∈ columns.head?, isSpace u = true)

theorem trim_row : trim (space :: (p.name ++ columns)) = p.name ++ columns.rdropWhile isSpace := by
  have hspace : isSpace space := by decide
  have hname : p.name = p.name.dropLast ++ [p.name.getLast p.name_ne_nil] :=
    (dropLast_append_getLast p.name_ne_nil).symm
  have hlast : isSpace (p.name.getLast p.name_ne_nil) = false := p.isSpace_name _ (getLast_mem _)
  have hstart : (space :: (p.name ++ columns)).dropWhile isSpace = p.name ++ columns := by
    rw [dropWhile_cons_of_pos hspace]
    cases hname : p.name with
    | nil => exact absurd hname p.name_ne_nil
    | cons u rest =>
      have hu : isSpace u = false := p.isSpace_name u (by simp [hname])
      rw [cons_append, dropWhile_cons_of_neg (by simp [hu])]
  have hend := Ends.rdropWhile_append_cons hlast p.name.dropLast columns
  rw [trim, hstart]
  rw [← singleton_append, ← append_assoc, ← hname] at hend
  rw [hend, ← singleton_append, ← append_assoc, ← hname]

include hcolumns in
theorem before_trim_row : before isSpace (trim (space :: (p.name ++ columns))) = p.name := by
  rw [trim_row]
  cases hrest : columns.rdropWhile isSpace with
  | nil => rw [append_nil, before_of_clean p.isSpace_name]
  | cons u rest =>
    have hu : isSpace u := by
      obtain ⟨later, hlater⟩ := rdropWhile_prefix isSpace (l := columns)
      refine hcolumns u ?_
      rw [← hlater, hrest]
      rfl
    exact before_append p.isSpace_name hu rest

theorem indent_row : indent (space :: (p.name ++ columns)) = 1 := by
  have hspace : isSpace space := by decide
  rw [indent, takeWhile_cons_of_pos hspace]
  cases hname : p.name with
  | nil => exact absurd hname p.name_ne_nil
  | cons u rest =>
    have hu : isSpace u = false := p.isSpace_name u (by simp [hname])
    rw [cons_append, takeWhile_cons_of_neg (by simp [hu])]
    rfl

end Row

/-- What is read from a table are its rows. -/
theorem readTable_of_table {current : Option DnfSection} {ls : List Str} {rows : List (Role × Package)}
    (h : Table current ls rows) :
    (readTable current ls).2.map (fun row => (row.1.role, row.2)) = rows.map fun row => (row.1, row.2.name) := by
  induction h with
  | @summary current line hsummary after => simp [readTable, trim_ne_nil_of_isSummary hsummary, hsummary]
  | @header current line hheader hsummary ls rows later ih =>
    simpa [readTable, trim_ne_nil_of_isHeader hheader, hsummary, hheader] using ih
  | @row sec p columns hcolumns hsummary ls rows later ih =>
    have hblank : trim (space :: (p.name ++ columns)) ≠ [] := by
      rw [trim_row]
      exact append_ne_nil_of_left_ne_nil p.name_ne_nil _
    have hheader : isHeader (space :: (p.name ++ columns)) = false := not_isHeader_of_space ⟨space, rfl, by decide⟩
    rw [readTable, if_neg hblank, if_neg (by simp [hsummary]), if_neg (by simp [hheader])]
    simp only [indent_row, before_trim_row p hcolumns]
    simpa using ih
  | @filler sec line hfiller hheader hsummary ls rows later ih =>
    rw [readTable]
    split
    · exact ih
    · rename_i hblank
      have hindent : indent line = 0 ∨ 2 < indent line := by simpa [isFiller, hblank] using hfiller
      simpa [hsummary, hheader, hindent] using ih
  | @before line hheader hsummary ls rows later ih =>
    rw [readTable]
    split
    · exact ih
    · simpa [hsummary, hheader] using ih

/-- Some lines are a table exactly if they are shaped so. -/
theorem exists_table_iff (current : Option DnfSection) (ls : List Str) :
    (∃ rows, Table current ls rows) ↔ Shaped current ls := by
  constructor
  · rintro ⟨rows, h⟩
    induction h with
    | summary hsummary after => simp [Shaped, hsummary]
    | header hheader hsummary later ih => simpa [Shaped, hheader, hsummary] using ih
    | @row sec p columns hcolumns hsummary ls rows later ih =>
      have hheader : isHeader (space :: (p.name ++ columns)) = false := not_isHeader_of_space ⟨space, rfl, by decide⟩
      rw [Shaped, if_neg (by simp [hsummary]), if_neg (by simp [hheader])]
      exact ⟨fun _ => ⟨p, _, hcolumns, rfl⟩, ih⟩
    | filler hfiller hheader hsummary later ih => simpa [Shaped, hfiller, hheader, hsummary] using ih
    | before hheader hsummary later ih => simpa [Shaped, hheader, hsummary] using ih
  · intro h
    induction ls generalizing current with
    | nil => simp [Shaped] at h
    | cons line ls ih =>
      unfold Shaped at h
      split at h
      · rename_i hsummary
        exact ⟨[], .summary hsummary ls⟩
      · rename_i hsummary
        rw [Bool.not_eq_true] at hsummary
        split at h
        · rename_i hheader
          obtain ⟨rows, hrows⟩ := ih _ h
          exact ⟨rows, .header hheader hsummary hrows⟩
        · rename_i hheader
          rw [Bool.not_eq_true] at hheader
          cases current with
          | none =>
            obtain ⟨rows, hrows⟩ := ih none h
            exact ⟨rows, .before hheader hsummary hrows⟩
          | some sec =>
            obtain ⟨hline, h⟩ := h
            obtain ⟨rows, hrows⟩ := ih (some sec) h
            cases hfiller : isFiller line with
            | true => exact ⟨rows, .filler hfiller hheader hsummary hrows⟩
            | false =>
              obtain ⟨p, columns, hcolumns, rfl⟩ := hline hfiller
              exact ⟨(sec.role, p) :: rows, .row p hcolumns hsummary hrows⟩

/-- A table does not break off. -/
theorem exists_summary_of_shaped {current : Option DnfSection} {ls : List Str} (h : Shaped current ls) :
    ∃ line ∈ ls, isSummary line := by
  induction ls generalizing current with
  | nil => simp [Shaped] at h
  | cons line ls ih =>
    unfold Shaped at h
    split at h
    · rename_i hsummary
      exact ⟨line, mem_cons_self, hsummary⟩
    · have hlater {current' : Option DnfSection} (h : Shaped current' ls) :
          ∃ line' ∈ line :: ls, isSummary line' := by
        obtain ⟨line', hmem, hsummary⟩ := ih h
        exact ⟨line', mem_cons_of_mem _ hmem, hsummary⟩
      split at h
      · exact hlater h
      · cases current with
        | none => exact hlater h
        | some sec => exact hlater h.2

/-- The rows name the target, as what is to be removed and nothing else, or dependencies that are not used any more. -/
structure DnfOnly (target output : Str) : Prop where
  installed : dnfNotInstalled output = false
  some_name : (.target, bareName (trim target)) ∈ (readTable none (outputLines output)).2
  target : ∀ row ∈ (readTable none (outputLines output)).2,
    (row.1 = .target ∧ row.2 = bareName (trim target)) ∨ row.1 = .unused

/-- A row is read in a section. -/
theorem sawTable_of_mem {ls : List Str} {row : DnfSection × Str} (h : row ∈ (readTable none ls).2) :
    (readTable none ls).1 := by
  induction ls with
  | nil => simp [readTable] at h
  | cons line ls ih =>
    rw [readTable] at h ⊢
    split
    · rename_i hblank
      rw [if_pos hblank] at h
      exact ih h
    · rename_i hblank
      rw [if_neg hblank] at h
      split
      · rename_i hsummary
        rw [if_pos hsummary] at h
        simp at h
      · rename_i hsummary
        rw [if_neg hsummary] at h
        split
        · rfl
        · rename_i hheader
          rw [if_neg hheader] at h
          exact ih h

theorem mem_namesIn {sec : DnfSection} {rows : List (DnfSection × Str)} {name : Str} :
    name ∈ namesIn sec rows ↔ (sec, name) ∈ rows := by
  simp only [namesIn, mem_map, mem_filter, decide_eq_true_eq]
  constructor
  · rintro ⟨row, ⟨hrow, rfl⟩, rfl⟩
    exact hrow
  · exact fun hrow => ⟨_, ⟨hrow, rfl⟩, rfl⟩

theorem dnfOnly_iff (target output : Str) :
    (judgeDnfSimulation target output).proceeds ↔ DnfOnly target output := by
  have honly : DnfOnly target output ↔ dnfNotInstalled output = false ∧
      (.target, bareName (trim target)) ∈ (readTable none (outputLines output)).2 ∧
      ∀ row ∈ (readTable none (outputLines output)).2,
        (row.1 = .target ∧ row.2 = bareName (trim target)) ∨ row.1 = .unused :=
    ⟨fun h => ⟨h.installed, h.some_name, h.target⟩, fun h => ⟨h.1, h.2.1, h.2.2⟩⟩
  rw [honly, judgeDnfSimulation]
  dsimp only
  generalize bareName (trim target) = want
  split
  · rename_i hnot
    simp [SimulationVerdict.proceeds, hnot]
  · rename_i hinstalled
    rw [Bool.not_eq_true] at hinstalled
    have hsaw := @sawTable_of_mem (outputLines output)
    generalize readTable none (outputLines output) = table at hsaw ⊢
    have hcontains : (namesIn .target table.2).eraseDups.contains want ↔ (.target, want) ∈ table.2 := by
      rw [contains_eq_mem, decide_eq_true_eq, mem_eraseDups, mem_namesIn]
    split
    · rename_i hnone
      refine iff_of_false (by simp [SimulationVerdict.proceeds]) fun ⟨_, hmem, _⟩ => ?_
      rw [hsaw hmem, hcontains.mpr hmem] at hnone
      simp at hnone
    · rename_i hsome
      have hmem : (.target, want) ∈ table.2 := by
        rw [← hcontains]
        simp only [Bool.or_eq_true, Bool.not_eq_true', not_or, Bool.not_eq_false] at hsome
        exact hsome.2
      have hcollateral : (((namesIn .target table.2).eraseDups.filter (· != want)) ++
          namesIn .collateral table.2).eraseDups.isEmpty ↔
            ∀ row ∈ table.2, (row.1 = .target ∧ row.2 = want) ∨ row.1 = .unused := by
        have hnil : ∀ l : List Str, l.eraseDups.isEmpty ↔ ∀ name, name ∉ l := fun l => by
          rw [List.isEmpty_iff, List.eq_nil_iff_forall_not_mem]
          simp
        rw [hnil]
        simp only [mem_append, mem_filter, mem_eraseDups, mem_namesIn, bne_iff_ne, not_or, not_and, not_not]
        constructor
        · rintro h ⟨sec, name⟩ hrow
          cases sec with
          | target => exact .inl ⟨rfl, (h name).1 hrow⟩
          | unused => exact .inr rfl
          | collateral => exact absurd hrow (h name).2
        · intro h name
          refine ⟨fun hrow => ?_, fun hrow => ?_⟩
          · simpa using h _ hrow
          · simpa using h _ hrow
      split
      · rename_i hempty
        exact iff_of_true rfl ⟨hinstalled, hmem, hcollateral.mp hempty⟩
      · rename_i hempty
        exact iff_of_false (by simp [SimulationVerdict.proceeds]) fun ⟨_, _, hall⟩ => hempty (hcollateral.mpr hall)

/-- dnf is read right exactly if there is a summary and every line that is read as a row is one. -/
theorem dnfSafe_iff (target output : Str) :
    DnfSafe target output ↔ (DnfOnly target output → Shaped none (outputLines output)) := by
  constructor
  · intro hsafe honly
    exact (exists_table_iff _ _).mp (hsafe.rendered ((dnfOnly_iff _ _).mpr honly))
  · intro hshaped
    refine ⟨fun hproceeds rows hrows => ?_, fun hproceeds => ?_⟩
    · have honly := (dnfOnly_iff _ _).mp hproceeds
      have hread := readTable_of_table hrows
      have hmem {role : Role} {name : Str} : (role, name) ∈ rows.map (fun row => (row.1, row.2.name)) ↔
          ∃ sec, (sec, name) ∈ (readTable none (outputLines output)).2 ∧ sec.role = role := by
        rw [← hread, mem_map]
        constructor
        · rintro ⟨⟨sec, name⟩, hrow, heq⟩
          obtain ⟨rfl, rfl⟩ := Prod.mk.inj heq
          exact ⟨sec, hrow, rfl⟩
        · rintro ⟨sec, hrow, rfl⟩
          exact ⟨_, hrow, rfl⟩
      constructor
      · obtain ⟨⟨role, p⟩, hrow, heq⟩ := mem_map.mp (hmem.mpr ⟨.target, honly.some_name, rfl⟩)
        obtain ⟨hrole, hname⟩ := Prod.mk.inj heq
        obtain rfl : role = .target := hrole
        exact ⟨p, hrow, hname⟩
      · rintro ⟨role, p⟩ hrow
        obtain ⟨sec, hsec, rfl⟩ := hmem.mp (mem_map_of_mem hrow)
        rcases honly.target _ hsec with ⟨-, hname⟩ | hunused
        · exact .inl hname
        · obtain rfl : sec = .unused := hunused
          exact .inr rfl
    · exact (exists_table_iff _ _).mpr (hshaped ((dnfOnly_iff _ _).mp hproceeds))

end Dnf

/-! ## The result -/

/-- An uninstall goes ahead only on what is printed for a removal of the target and nothing else, exactly if the lines
that are read as such are printed so, and a table does not break off. -/
theorem goesAhead_iff (target output : Str) (exitCode : Nat) :
    (AptSafe target output exitCode ↔ (AptOnly target output exitCode →
      ∀ line ∈ output.splitOn lf, removalWord line ≠ none → IsAptLine line)) ∧
    (DnfSafe target output ↔ (DnfOnly target output → Shaped none (outputLines output))) :=
  ⟨aptSafe_iff target output exitCode, dnfSafe_iff target output⟩

/-- The first section of a table, before the one of the dependent packages. -/
def brokenOff : Str := text "Removing:\n python3-libs   x86_64   3.9.18-1.el9   @baseos   32 M\n"

/-- The broken table is taken for a whole one. -/
theorem not_dnfSafe_brokenOff : ¬ DnfSafe (text "python3-libs") brokenOff := by
  intro hsafe
  have hproceeds : (judgeDnfSimulation (text "python3-libs") brokenOff).proceeds := by decide
  obtain ⟨rows, hrows⟩ := hsafe.rendered hproceeds
  obtain ⟨line, hline, hsummary⟩ := exists_summary_of_shaped ((exists_table_iff _ _).mp ⟨rows, hrows⟩)
  have hnone : (outputLines brokenOff).any isSummary = false := by decide
  simp [any_eq_false.mp hnone line hline] at hsummary

end Sdp
