-- SUMMARY: Which pending items a list of requested ids selects, and the commands that an install makes of them.
import Tracenium.LinuxPatch.Scan

/-!
`readPatchSelection` of `privsvc/shared/patch-selection.ts` and `matchRequestedItems` of
`privsvc/linux/src/patch-management.ts`. The items of a scan are objects, and two that look alike are told
apart by their places.
-/

open Utf16 Json Words List
open Hardening (dash space oneOf)
open Ipc (trim)

namespace LinuxPatch

/-! ## Requested ids -/

/-- `PATCH_ID_PATTERN`. The class has the space and the no-break space. -/
def isPatchId : Str → Bool
  | u :: s => isAlnum u && s.length ≤ 199 && s.all fun v => isAlnum v || v == 0xA0 || oneOf " ._:+~(),-" v
  | [] => false

/-- Ids that are accepted. -/
structure Selection where
  ids : List Str
  some_id : ids ≠ []
  well_formed : ∀ id ∈ ids, isPatchId id = true

structure Refusal where
  code : Str
  message : Str

/-- The given values are those of `params.kbArticleIds` as strings, if it is an array. -/
def readPatchSelection (raw : Option (List Str)) : Except Refusal Selection :=
  let ids := ((raw.getD []).map trim).filter fun id => !id.isEmpty
  if hids : ids = [] then
    .error
      { code := text "patch_install_no_selection"
        message := text "patch.install needs an explicit list of updates; an empty list is refused instead of installing everything available." }
  else
    let malformed := ids.filter fun id => !isPatchId id
    if hmalformed : malformed = [] then
      .ok
        { ids := ids
          some_id := hids
          well_formed := fun id hid => by simpa using filter_eq_nil_iff.mp hmalformed id hid }
    else
      .error
        { code := text "patch_install_invalid_id"
          message := text "patch.install refused " ++ decimal malformed.length ++ text " of " ++
            decimal ids.length ++ text " ids that are not package or update names." }

/-! ## Matching -/

structure Placed where
  item : ScanItem
  place : Nat
  deriving DecidableEq

def placed (live : List ScanItem) : List Placed := live.zipIdx.map fun p => ⟨p.1, p.2⟩

/-- What follows the name looks like a version: it begins with a digit. -/
def continues (want name : Str) : Bool :=
  (name ++ [dash]).isPrefixOf want && (want.drop (name.length + 1)).head?.any isDigit

/-- The items that an id which nothing has may stand for. -/
def candidates (live : List ScanItem) (want : Str) : List Placed :=
  (placed live).filter fun it => it.item.packageName.any fun name => !name.isEmpty && continues want name

def nameLength (it : Placed) : Nat := (it.item.packageName.getD []).length

/-- The last item with the id, if there is one. -/
def byId (live : List ScanItem) (id : Str) : Option Placed :=
  (placed live).reverse.find? fun it => !it.item.hotFixId.isEmpty && it.item.hotFixId == id

/-- `hit`: else the longest name wins, and the first item of it. -/
def hit (live : List ScanItem) (want : Str) : Option Placed :=
  byId live want <|> (candidates live want).argmax nameLength

structure Matching where
  selected : List Placed
  requestedFor : List (Placed × Str)
  unmatched : List Str

/-- One turn of the loop of `matchRequestedItems`. -/
def Matching.request (live : List ScanItem) (m : Matching) (want : Str) : Matching :=
  match hit live want with
  | none => { m with unmatched := m.unmatched ++ [want] }
  | some it =>
    if m.requestedFor.any (·.1 = it) then m
    else { m with selected := m.selected ++ [it], requestedFor := m.requestedFor ++ [(it, want)] }

def matchRequestedItems (live : List ScanItem) (requested : List Str) : Matching :=
  requested.foldl (Matching.request live) ⟨[], [], []⟩

/-! ## What is selected -/

section Selected

variable {live : List ScanItem}

theorem mem_placed {it : Placed} : it ∈ placed live ↔ live[it.place]? = some it.item := by
  obtain ⟨item, place⟩ := it
  simp [placed, mem_zipIdx_iff_getElem?]

theorem mem_of_placed {it : Placed} (h : it ∈ placed live) : it.item ∈ live := mem_of_getElem? (mem_placed.mp h)

theorem exists_placed {item : ScanItem} (h : item ∈ live) : ∃ place, ⟨item, place⟩ ∈ placed live := by
  obtain ⟨place, hplace⟩ := mem_iff_getElem?.mp h
  exact ⟨place, mem_placed.mpr hplace⟩

theorem mem_of_byId {id : Str} {it : Placed} (h : byId live id = some it) :
    it.item ∈ live ∧ it.item.hotFixId = id := by
  have hid := find?_some h
  simp only [Bool.and_eq_true, beq_iff_eq] at hid
  exact ⟨mem_of_placed (mem_reverse.mp (mem_of_find?_eq_some h)), hid.2⟩

theorem byId_isSome {item : ScanItem} (hitem : item ∈ live) (hne : item.hotFixId ≠ []) :
    (byId live item.hotFixId).isSome := by
  obtain ⟨place, hplace⟩ := exists_placed hitem
  exact find?_isSome.mpr ⟨_, mem_reverse.mpr hplace, by simpa using hne⟩

theorem mem_of_hit {want : Str} {it : Placed} (h : hit live want = some it) : it.item ∈ live := by
  unfold hit at h
  cases hid : byId live want with
  | some it' =>
    rw [hid] at h
    cases h
    exact (mem_of_byId hid).1
  | none =>
    rw [hid] at h
    exact mem_of_placed (mem_of_mem_filter (argmax_mem h))

/-- What is selected, after any of the requested ids. -/
structure Matching.Sound (live : List ScanItem) (requested : List Str) (m : Matching) : Prop where
  selected : ∀ it, it ∈ m.selected ↔ ∃ want ∈ requested, hit live want = some it
  known : m.requestedFor.map Prod.fst = m.selected

theorem Matching.Sound.request {requested : List Str} {m : Matching} (h : m.Sound live requested)
    (want : Str) : (m.request live want).Sound live (requested ++ [want]) := by
  unfold Matching.request
  cases hhit : hit live want with
  | none =>
    refine ⟨fun it => ?_, h.known⟩
    simp [h.selected it, or_and_right, exists_or, hhit]
  | some it =>
    have hany : m.requestedFor.any (·.1 = it) = true ↔ it ∈ m.selected := by
      simp [← h.known]
    dsimp only
    split
    · rename_i hknown
      refine ⟨fun it' => ?_, h.known⟩
      simp only [h.selected it', mem_append, mem_singleton, or_and_right, exists_or,
        exists_eq_left, hhit, Option.some.injEq]
      constructor
      · exact .inl
      · rintro (hold | rfl)
        · exact hold
        · exact (h.selected it).mp (hany.mp hknown)
    · refine ⟨fun it' => ?_, by simp [h.known]⟩
      simp only [mem_append, mem_singleton, h.selected it', or_and_right, exists_or,
        exists_eq_left, hhit, Option.some.injEq]
      exact or_congr_right eq_comm

theorem sound_matchRequestedItems (live : List ScanItem) (requested : List Str) :
    (matchRequestedItems live requested).Sound live requested := by
  induction requested using reverseRecOn with
  | nil => exact ⟨by simp [matchRequestedItems], rfl⟩
  | append_singleton requested want ih =>
    rw [matchRequestedItems, foldl_append]
    exact ih.request want

/-- An item is selected if and only if it is the hit of a requested id. -/
theorem mem_selected {requested : List Str} {it : Placed} :
    it ∈ (matchRequestedItems live requested).selected ↔ ∃ want ∈ requested, hit live want = some it :=
  (sound_matchRequestedItems live requested).selected it

theorem mem_live_of_selected {requested : List Str} {it : Placed}
    (h : it ∈ (matchRequestedItems live requested).selected) : it.item ∈ live := by
  obtain ⟨want, -, hhit⟩ := mem_selected.mp h
  exact mem_of_hit hhit

end Selected

/-! ## Ids of other versions -/

/-- `published name version`: there is, or was, such a version of the package. -/
def Requests (published : Str → Str → Prop) (want : Str) (it : ScanItem) : Prop :=
  want = it.hotFixId ∨ ∃ name version, it.packageName = some name ∧ want = name ++ dash :: version ∧
    published name version

/-- An id that no pending item has is taken for the item, as that of another version: its package has the
longest name that the id goes on from with a hyphen and a digit, and it is the first one of that name. -/
structure TakenFor (live : List ScanItem) (want : Str) (it : Placed) : Prop where
  unknown : ∀ other ∈ live, other.hotFixId ≠ want
  candidate : it ∈ candidates live want
  longest : ∀ other ∈ candidates live want, nameLength other ≤ nameLength it
  first : ∀ other ∈ candidates live want, nameLength it ≤ nameLength other →
    (candidates live want).idxOf it ≤ (candidates live want).idxOf other

theorem hit_eq_some_iff {live : List ScanItem} {want : Str} (hwant : want ≠ []) {it : Placed} :
    hit live want = some it ↔ byId live want = some it ∨ TakenFor live want it := by
  have hnone : byId live want = none ↔ ∀ other ∈ live, other.hotFixId ≠ want := by
    rw [byId, find?_eq_none]
    constructor
    · intro h other hother heq
      obtain ⟨place, hplace⟩ := exists_placed hother
      have hmiss := h _ (mem_reverse.mpr hplace)
      simp [heq, hwant] at hmiss
    · intro h other hother
      simp [h _ (mem_of_placed (mem_reverse.mp hother))]
  have hargmax : (candidates live want).argmax nameLength = some it ↔
      it ∈ candidates live want ∧ (∀ other ∈ candidates live want, nameLength other ≤ nameLength it) ∧
        ∀ other ∈ candidates live want, nameLength it ≤ nameLength other →
          (candidates live want).idxOf it ≤ (candidates live want).idxOf other := argmax_eq_some_iff
  unfold hit
  cases hid : byId live want with
  | some it' =>
    have htaken : ¬ TakenFor live want it := fun h => by
      simp [hnone.mpr h.unknown] at hid
    simp [htaken]
  | none =>
    have hnew : (none <|> (candidates live want).argmax nameLength) = (candidates live want).argmax nameLength := rfl
    rw [hnew, hargmax]
    simp only [reduceCtorEq, false_or]
    exact ⟨fun ⟨hmem, hlongest, hfirst⟩ => ⟨hnone.mp hid, hmem, hlongest, hfirst⟩,
      fun h => ⟨h.candidate, h.longest, h.first⟩⟩

end LinuxPatch

/-!
# Installing

`installApt`, `classifyDnfHotFixIds` and `installDnf` of `privsvc/linux/src/patch-management.ts`: what is
handed to the package manager. The probe of the lock and the repair of dpkg come before and are not part
of it.
-/

open Hardening (dot dash isUpper)
open Ipc (trim)

namespace LinuxPatch

def comma : UInt16 := 0x2C

inductive Mode
  | install
  | download
  deriving DecidableEq

/-! ## apt-get -/

def aptOptions (mode : Mode) : List Str :=
  [text "--only-upgrade", text "-y", text "--no-install-recommends",
    text "-o", text "Dpkg::Options::=--force-confdef", text "-o", text "Dpkg::Options::=--force-confold",
    text "-o", text "DPkg::Lock::Timeout=120"] ++
    match mode with
    | .download => [text "--download-only"]
    | .install => []

def resolve (fresh : List ScanItem) (want : ScanItem) : Option Str :=
  if want.hotFixId = [] then none
  else
    match (byId fresh want.hotFixId).bind (·.item.packageName) with
    | some name => if trim name = [] then none else some (trim name)
    | none => none

/-- Nothing is run when nothing was resolved. -/
def installApt (fresh : List ScanItem) (mode : Mode) (selectedItems : List ScanItem) : Option (List Str) :=
  let packageNames := (selectedItems.filterMap (resolve fresh)).eraseDups
  if packageNames = [] then none else some (text "install" :: aptOptions mode ++ packageNames)

/-! ## dnf -/

/-- `ADVISORY_ID_RE`: two to eight capitals, a hyphen, four digits, and a hyphen or a colon. -/
def isAdvisoryLike (s : Str) : Bool :=
  let capitals := s.takeWhile isUpper
  2 ≤ capitals.length && capitals.length ≤ 8 &&
    match s.dropWhile isUpper with
    | u :: d₁ :: d₂ :: d₃ :: d₄ :: v :: _ =>
      u == dash && isDigit d₁ && isDigit d₂ && isDigit d₃ && isDigit d₄ && (v == dash || v == 0x3A)
    | _ => false

/-- The advisories and the packages, which end at the first dot. -/
def classifyDnfHotFixIds (items : List ScanItem) : List Str × List Str :=
  let ids := (items.map ScanItem.hotFixId).filter fun id => !id.isEmpty
  ((ids.filter isAdvisoryLike).eraseDups,
    (((ids.filter fun id => !isAdvisoryLike id).map (before (· == dot))).filter fun p => !p.isEmpty).eraseDups)

def dnfOptions : Mode → List Str
  | .download => [text "-y", text "--downloadonly"]
  | .install => [text "-y"]

def installDnf (mode : Mode) (selectedItems : List ScanItem) : Option (List Str) :=
  let (advisories, packages) := classifyDnfHotFixIds selectedItems
  if advisories = [] ∧ packages = [] then none
  else
    some (text "upgrade" :: dnfOptions mode ++
      (if advisories = [] then [] else [text "--advisory=" ++ Segments.spell comma advisories]) ++ packages)

/-! ## Reading a command -/

/-- What a package manager takes an argument list for. -/
structure Reading where
  options : List Str
  advisories : List Str
  packages : List Str
  deriving DecidableEq

/-- The options, each with its value, and the operands. The flag says that a value is due. -/
def readArgs : Bool → List Str → List Str × List Str
  | _, [] => ([], [])
  | true, v :: rest => (v :: (readArgs false rest).1, (readArgs false rest).2)
  | false, a :: rest =>
    if a.head? = some dash then
      (a :: (readArgs (a == text "-o") rest).1, (readArgs (a == text "-o") rest).2)
    else ((readArgs false rest).1, a :: (readArgs false rest).2)

def advisoryOption (option : Str) : Option (List Str) :=
  if (text "--advisory=").isPrefixOf option then some ((option.drop 11).splitOnP (· == comma)) else none

/-- The first operand is the command. -/
def reading (argv : List Str) : Reading where
  options := (readArgs false argv).1.filter fun option => (advisoryOption option).isNone
  advisories := ((readArgs false argv).1.filterMap advisoryOption).flatten
  packages := (readArgs false argv).2.drop 1

theorem readArgs_operands {args : List Str} (h : ∀ a ∈ args, a.head? ≠ some dash) :
    readArgs false args = ([], args) := by
  induction args with
  | nil => rfl
  | cons a args ih =>
    obtain ⟨ha, hrest⟩ := forall_mem_cons.mp h
    simp [readArgs, ha, ih hrest]

/-- The arguments are options, whatever comes behind them. -/
def AreOptions (options : List Str) : Prop :=
  ∀ rest, readArgs false (options ++ rest) = (options ++ (readArgs false rest).1, (readArgs false rest).2)

theorem AreOptions.nil : AreOptions [] := fun _ => rfl

theorem AreOptions.flag {a : Str} (ha : a.head? = some dash) (hvalue : (a == text "-o") = false)
    {options : List Str} (h : AreOptions options) : AreOptions (a :: options) := by
  intro rest
  simp [readArgs, ha, hvalue, h rest]

theorem AreOptions.value (v : Str) {options : List Str} (h : AreOptions options) :
    AreOptions (text "-o" :: v :: options) := by
  intro rest
  have hdash : (text "-o").head? = some dash := by decide
  simp [readArgs, hdash, h rest]

theorem areOptions_apt (mode : Mode) : AreOptions (aptOptions mode) := by
  have hlast : AreOptions (match mode with
      | .download => [text "--download-only"]
      | .install => []) := by
    cases mode with
    | install => exact .nil
    | download => exact .flag (by decide) (by decide) .nil
  exact .flag (by decide) (by decide) <| .flag (by decide) (by decide) <|
    .flag (by decide) (by decide) <| .value _ <| .value _ <| .value _ hlast

/-- A command, its options and its operands. -/
theorem readArgs_command {command : Str} (hcommand : command.head? ≠ some dash) {options names : List Str}
    (hoptions : AreOptions options) (hnames : ∀ a ∈ names, a.head? ≠ some dash) :
    readArgs false (command :: options ++ names) = (options, command :: names) := by
  rw [cons_append, readArgs, if_neg hcommand, hoptions names, readArgs_operands hnames]
  simp

theorem reading_apt (mode : Mode) {names : List Str} (h : ∀ a ∈ names, a.head? ≠ some dash) :
    reading (text "install" :: aptOptions mode ++ names) = ⟨aptOptions mode, [], names⟩ := by
  have hplain : ∀ option ∈ aptOptions mode, advisoryOption option = none := by
    cases mode <;> decide
  have hfilter : (aptOptions mode).filter (fun option => (advisoryOption option).isNone) = aptOptions mode :=
    filter_eq_self.mpr fun option hoption => by simp [hplain option hoption]
  have hmap : (aptOptions mode).filterMap advisoryOption = [] := filterMap_eq_nil_iff.mpr hplain
  rw [reading, readArgs_command (by decide) (areOptions_apt mode) h, hfilter, hmap]
  rfl

/-- Advisory ids without a comma are read one by one. -/
theorem advisoryOption_spell {advisories : List Str} (hne : advisories ≠ [])
    (hfree : ∀ a ∈ advisories, comma ∉ a) :
    advisoryOption (text "--advisory=" ++ Segments.spell comma advisories) = some advisories := by
  have hprefix : (text "--advisory=").isPrefixOf (text "--advisory=" ++ Segments.spell comma advisories) = true :=
    isPrefixOf_iff_prefix.mpr (prefix_append _ _)
  have hlength : (text "--advisory=").length = 11 := by decide
  have hclean : Segments.Clean (· == comma) advisories := fun a ha v hv => by
    simp only [beq_eq_false_iff_ne]
    rintro rfl
    exact hfree a ha hv
  rw [advisoryOption, if_pos hprefix, drop_left' hlength, Segments.splitOnP_spell_of_clean rfl hne hclean]

theorem reading_dnf (mode : Mode) {advisories names : List Str} (hfree : ∀ a ∈ advisories, comma ∉ a)
    (h : ∀ a ∈ names, a.head? ≠ some dash) :
    reading (text "upgrade" :: dnfOptions mode ++
      (if advisories = [] then [] else [text "--advisory=" ++ Segments.spell comma advisories]) ++ names) =
      ⟨dnfOptions mode, advisories, names⟩ := by
  have hplain : ∀ option ∈ dnfOptions mode, advisoryOption option = none := by
    cases mode <;> decide
  have hfilter : (dnfOptions mode).filter (fun option => (advisoryOption option).isNone) = dnfOptions mode :=
    filter_eq_self.mpr fun option hoption => by simp [hplain option hoption]
  have hmap : (dnfOptions mode).filterMap advisoryOption = [] := filterMap_eq_nil_iff.mpr hplain
  have hflags : ∀ {last}, AreOptions last → AreOptions (dnfOptions mode ++ last) := by
    intro last hlast
    cases mode with
    | install => exact .flag (by decide) (by decide) hlast
    | download => exact .flag (by decide) (by decide) (.flag (by decide) (by decide) hlast)
  rw [reading, cons_append, cons_append, append_assoc, ← append_assoc, ← cons_append]
  by_cases hne : advisories = []
  · rw [readArgs_command (by decide) (hflags (by simpa [hne] using AreOptions.nil)) h]
    simp [hne, hfilter, hmap]
  · have hspell := advisoryOption_spell hne hfree
    have hhead : (text "--advisory=" ++ Segments.spell comma advisories).head? = some dash := rfl
    have hvalue : (text "--advisory=" ++ Segments.spell comma advisories == text "-o") = false := rfl
    rw [readArgs_command (by decide) (hflags (by simpa [hne] using AreOptions.nil.flag hhead hvalue)) h]
    simp [hne, hfilter, hmap, hspell]

end LinuxPatch
