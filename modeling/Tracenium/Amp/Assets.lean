-- SUMMARY: Inventories of assets, the delta that is reported of one, and the passes of the printers and browser extensions.
import Tracenium.Ipc.Wire
import Tracenium.Lib.OrderedMap

/-!
What `src/domain/printer-inventory-delta.ts` and `src/domain/browser-extension-inventory-delta.ts`,
their baseline repositories and their pipelines have in common. Rows are told apart by their
`installId`. A baseline is changed in one transaction for the rows that come and one for those that
go, and either may fail.
-/

open Utf16 List

namespace Amp

/-- A kind of rows: what tells them apart, what counts as a change of one, which rows the baseline
takes, and what it stores where it has a row already. -/
structure Asset (α : Type*) where
  installId : α → Str
  isUpdated : α → α → Bool
  isValid : α → Bool
  store : α → α → α

structure Delta (α : Type*) where
  added : List α
  removed : List α
  updated : List α
  unchanged : Nat

def Delta.hasChanges {α : Type*} (d : Delta α) : Bool :=
  !(d.added.isEmpty && d.removed.isEmpty && d.updated.isEmpty)

/-- What a pipeline reports: all rows, or a delta, or neither. -/
structure Inventory (α : Type*) where
  count : Nat
  items : Option (List α)
  delta : Option (Delta α)
  hasChanges : Bool

/-- A row that was put into the baseline, or an id that was deleted from it. -/
inductive Change (α : Type*)
  | upsert (row : α)
  | delete (installId : Str)
  deriving DecidableEq

/-- The table of the baseline. -/
abbrev Baseline (α : Type*) := OrderedMap Str α

structure Locale where
  localeCompare : Str → Str → Bool
  lower : Str → Str

section Asset

variable {α : Type*} (a : Asset α) (l : Locale)

/-- The rows by their ids. Of the rows with one id the last one counts. -/
def keyed (rows : List α) : OrderedMap Str α :=
  rows.foldl (fun m row => if a.installId row = [] then m else m.set (a.installId row) row) .empty

def sortById (rows : List α) : List α :=
  rows.mergeSort fun row row' => l.localeCompare (a.installId row) (a.installId row')

def values (m : OrderedMap Str α) : List α := m.entries.map Prod.snd

def computeDelta (current previous : List α) : Delta α :=
  let prevMap := keyed a previous
  let currMap := keyed a current
  let added := (values currMap).filter fun row => (prevMap.get (a.installId row)).isNone
  let updated := (values currMap).filter fun row =>
    (prevMap.get (a.installId row)).any fun prev => a.isUpdated prev row
  let removed := (values prevMap).filter fun row => (currMap.get (a.installId row)).isNone
  { added := sortById a l added
    removed := sortById a l removed
    updated := sortById a l updated
    unchanged := currMap.size - added.length - updated.length }

def currentCount (current : List α) : Nat := (keyed a current).size

def upserts (d : Delta α) : List α := d.added ++ d.updated

def deletes (d : Delta α) : List Str := (d.removed.map a.installId).filter (· ≠ [])

/-! ## The baseline -/

def loadBaseline (b : Baseline α) : List α := values b

/-- The rows that are not valid are left out. -/
def upsertBaseline (rows : List α) (b : Baseline α) : Baseline α :=
  rows.foldl (fun b row =>
    if a.isValid row then
      b.set (a.installId row)
        (match b.get (a.installId row) with
          | some stored => a.store stored row
          | none => row)
    else b) b

def deleteByIds (ids : List Str) (b : Baseline α) : Baseline α :=
  ids.foldl (fun b id => if id = [] then b else b.delete id) b

structure Faults where
  upsert : Bool
  delete : Bool

/-- What became of a pass: its report, unless it threw, and what it did to the baseline. -/
structure Built (α : Type*) where
  inventory : Option (Inventory α)
  baseline : Baseline α
  applied : List (Change α)

def unmeasured (b : Baseline α) (count : Nat) : Built α :=
  ⟨some ⟨count, none, none, false⟩, b, []⟩

/-- Rows are put in and ids deleted, if there are any, and then the report is made. -/
def commit (faults : Faults) (rows : List α) (ids : List Str) (report : Inventory α)
    (b : Baseline α) : Built α :=
  if rows ≠ [] ∧ faults.upsert then ⟨none, b, []⟩
  else
    let b := upsertBaseline a rows b
    let put := (rows.filter a.isValid).map .upsert
    if ids ≠ [] ∧ faults.delete then ⟨none, b, put⟩
    else ⟨some report, deleteByIds ids b, put ++ (ids.filter (· ≠ [])).map .delete⟩

/-- A pass that saw everything: the whole list if there is no baseline, and the delta if there is
one. -/
def buildComplete (faults : Faults) (current : List α) (b : Baseline α) : Built α :=
  let previous := loadBaseline b
  if previous = [] then
    commit a faults current [] ⟨current.length, some current, none, true⟩ b
  else
    let delta := computeDelta a l current previous
    if delta.hasChanges then
      commit a faults (upserts delta) (deletes a delta)
        ⟨currentCount a current, none, some delta, true⟩ b
    else unmeasured b (currentCount a current)

/-- A pass that saw a part: nothing goes. -/
def buildPartial (faults : Faults) (current : List α) (b : Baseline α) : Built α :=
  let previous := loadBaseline b
  let delta := computeDelta a l current previous
  let count := previous.length + delta.added.length
  if upserts delta = [] then unmeasured b count
  else
    commit a faults (upserts delta) []
      ⟨count, none, some { delta with removed := [], unchanged := count - (upserts delta).length }, true⟩ b

/-! ## What a report tells -/

def Inventory.Tells (i : Inventory α) : Change α → Prop
  | .upsert row =>
    (∃ rows, i.items = some rows ∧ row ∈ rows) ∨ ∃ d, i.delta = some d ∧ (row ∈ d.added ∨ row ∈ d.updated)
  | .delete id =>
    (∃ rows, i.items = some rows ∧ ∀ row ∈ rows, a.installId row ≠ id) ∨
      ∃ d, i.delta = some d ∧ ∃ row ∈ d.removed, a.installId row = id

/-- Whatever the pass did to the baseline is in its report, which says that there are changes. -/
def Built.Reports (r : Built α) : Prop :=
  ∀ i, r.inventory = some i → ∀ change ∈ r.applied, i.hasChanges = true ∧ i.Tells a change

def Built.isTorn (r : Built α) : Bool := r.inventory.isNone && !r.applied.isEmpty

variable {a l}

theorem reports_unmeasured (b : Baseline α) (count : Nat) : (unmeasured b count).Reports a := by
  intro i _ change hchange
  cases hchange

theorem Built.Reports.commit {faults : Faults} {rows : List α} {ids : List Str}
    {report : Inventory α} {b : Baseline α} (hchanges : report.hasChanges = true)
    (hrows : ∀ row ∈ rows, report.Tells a (.upsert row)) (hids : ∀ id ∈ ids, report.Tells a (.delete id)) :
    (commit a faults rows ids report b).Reports a := by
  unfold Amp.commit
  split
  · intro i _ change hchange
    cases hchange
  · dsimp only
    split
    · intro i hi
      cases hi
    · intro i hi change hchange
      obtain rfl := Option.some.inj hi
      refine ⟨hchanges, ?_⟩
      rcases mem_append.mp hchange with hchange | hchange
      · obtain ⟨row, hrow, rfl⟩ := mem_map.mp hchange
        exact hrows row (mem_filter.mp hrow).1
      · obtain ⟨id, hid, rfl⟩ := mem_map.mp hchange
        exact hids id (mem_filter.mp hid).1

theorem tells_upserts {i : Inventory α} {d : Delta α} (hdelta : i.delta = some d) {row : α}
    (hrow : row ∈ d.added ++ d.updated) : i.Tells a (.upsert row) :=
  .inr ⟨d, hdelta, mem_append.mp hrow⟩

theorem reports_buildComplete (faults : Faults) (current : List α) (b : Baseline α) :
    (buildComplete a l faults current b).Reports a := by
  unfold buildComplete
  dsimp only
  split
  · apply Built.Reports.commit
    · rfl
    · exact fun row hrow => .inl ⟨current, rfl, hrow⟩
    · exact fun id hid => absurd hid not_mem_nil
  · split
    · apply Built.Reports.commit
      · rfl
      · exact fun row hrow => tells_upserts rfl hrow
      · intro id hid
        obtain ⟨row, hrow, rfl⟩ := mem_map.mp (mem_filter.mp hid).1
        exact .inr ⟨_, rfl, row, hrow, rfl⟩
    · exact reports_unmeasured _ _

theorem reports_buildPartial (faults : Faults) (current : List α) (b : Baseline α) :
    (buildPartial a l faults current b).Reports a := by
  unfold buildPartial
  dsimp only
  split
  · exact reports_unmeasured _ _
  · apply Built.Reports.commit
    · rfl
    · exact fun row hrow => .inr ⟨_, rfl, mem_append.mp hrow⟩
    · exact fun id hid => absurd hid not_mem_nil

end Asset

end Amp

/-!
# Providers

The two inventories with a baseline, as `src/plugins/amp/providers` collects them for Windows, macOS
and Linux. What software there is plays no part, only how its collection ends.
-/

namespace Amp

/-! ## Printers -/

inductive PrinterStatus
  | online
  | offline
  | error
  | unknown
  deriving DecidableEq

inductive PrinterSource
  | windowsSpooler
  | cups
  deriving DecidableEq

structure Printer where
  installId : Str
  name : Str
  source : PrinterSource
  driver : Option Str
  port : Option Str
  isDefault : Bool
  isNetwork : Bool
  isShared : Bool
  shareName : Option Str
  hostAddress : Option Str
  location : Option Str
  comments : Option Str
  status : Option PrinterStatus
  detectedAtUtc : Str
  deriving DecidableEq

def normalize (l : Locale) : Option Str → Str
  | none => []
  | some value => if value = [] then [] else l.lower (Ipc.trim value)

/-- The status does not count. -/
def isPrinterUpdated (l : Locale) (prev curr : Printer) : Bool :=
  !(normalize l prev.driver == normalize l curr.driver && normalize l prev.port == normalize l curr.port &&
    normalize l prev.location == normalize l curr.location &&
    normalize l prev.comments == normalize l curr.comments &&
    prev.isDefault == curr.isDefault &&
    prev.isShared == curr.isShared &&
    prev.isNetwork == curr.isNetwork &&
    normalize l prev.shareName == normalize l curr.shareName &&
    normalize l prev.hostAddress == normalize l curr.hostAddress)

/-- `computePrinterDelta` and the printer baseline, which keeps when a printer was first seen. -/
def printer (l : Locale) : Asset Printer where
  installId := Printer.installId
  isUpdated := isPrinterUpdated l
  isValid row := row.installId ≠ [] && row.name ≠ []
  store stored row := { row with detectedAtUtc := stored.detectedAtUtc }

structure Scopes where
  machineScope : Str
  userScope : Str

inductive PrinterReading
  | complete
  | incomplete
  | blind

/-- What a reading can be concluded from. Only Windows has scopes. -/
def classifyPrinterRead : Option Scopes → PrinterReading
  | none => .complete
  | some scopes =>
    let machineRead := scopes.machineScope == text "collected"
    let userRead := scopes.userScope == text "collected"
    let userSettled := userRead || scopes.userScope == text "no_user_hive"
    if machineRead && userSettled then .complete
    else if machineRead || userRead then .incomplete
    else .blind

section Pipeline

variable (l : Locale) (printerNoiseKind : Printer → Bool)

def buildPrinterInventoryWithBaseline (faults : Faults) (collected : List Printer)
    (scopes : Option Scopes) (b : Baseline Printer) : Built Printer :=
  let current := collected.filter fun p => !printerNoiseKind p
  match classifyPrinterRead scopes with
  | .blind => unmeasured b (loadBaseline b).length
  | .incomplete => buildPartial (printer l) l faults current b
  | .complete => buildComplete (printer l) l faults current b

theorem reports_buildPrinterInventoryWithBaseline (faults : Faults) (collected : List Printer)
    (scopes : Option Scopes) (b : Baseline Printer) :
    (buildPrinterInventoryWithBaseline l printerNoiseKind faults collected scopes b).Reports (printer l) := by
  unfold buildPrinterInventoryWithBaseline
  split
  · exact reports_unmeasured _ _
  · exact reports_buildPartial _ _ _
  · exact reports_buildComplete _ _ _

end Pipeline

/-! ## Browser extensions -/

inductive BrowserFamily
  | chrome
  | edge
  | firefox
  deriving DecidableEq

inductive ExtensionInstallSource
  | store
  | policy
  | default
  | sideloaded
  | unpacked
  | unknown
  deriving DecidableEq

structure BrowserExtension where
  installId : Str
  browser : BrowserFamily
  extensionId : Str
  name : Str
  version : Option Str
  osUser : Str
  profile : Str
  enabled : Option Bool
  installSource : ExtensionInstallSource
  permissions : List Str
  hostPermissions : List Str
  manifestVersion : Option Int
  updateUrl : Option Str
  installedAtUtc : Option Str
  detectedAtUtc : Str
  deriving DecidableEq

def sameList (xs ys : List Str) : Bool :=
  xs.mergeSort (fun x y => decide (x ≤ y)) == ys.mergeSort fun x y => decide (x ≤ y)

def isExtensionUpdated (prev curr : BrowserExtension) : Bool :=
  !(prev.name == curr.name && prev.version == curr.version && prev.enabled == curr.enabled &&
    prev.installSource == curr.installSource &&
    prev.manifestVersion == curr.manifestVersion &&
    prev.updateUrl == curr.updateUrl &&
    sameList prev.permissions curr.permissions &&
    sameList prev.hostPermissions curr.hostPermissions)

def browserExtension : Asset BrowserExtension where
  installId := BrowserExtension.installId
  isUpdated := isExtensionUpdated
  isValid row := row.installId ≠ [] && row.detectedAtUtc ≠ []
  store stored row := { row with detectedAtUtc := stored.detectedAtUtc }

inductive ExtensionScope
  | collected
  | unsupported
  | unavailable
  deriving DecidableEq

structure ExtensionScanResult where
  extensions : List BrowserExtension
  scope : ExtensionScope
  profiles : Nat
  profileErrors : Nat

def buildBrowserExtensionInventory (l : Locale) (faults : Faults) (scan : ExtensionScanResult)
    (b : Baseline BrowserExtension) : Built BrowserExtension :=
  if scan.scope ≠ .collected then unmeasured b 0
  else buildComplete browserExtension l faults scan.extensions b

theorem reports_buildBrowserExtensionInventory (l : Locale) (faults : Faults)
    (scan : ExtensionScanResult) (b : Baseline BrowserExtension) :
    (buildBrowserExtensionInventory l faults scan b).Reports browserExtension := by
  unfold buildBrowserExtensionInventory
  split
  · exact reports_unmeasured _ _
  · exact reports_buildComplete _ _ _

/-! ## Namespaces -/

structure PrinterInventory where
  inventory : Inventory Printer
  scopes : Option Scopes

def emptyPrinterInventory : PrinterInventory := ⟨⟨0, none, none, false⟩, none⟩

structure BrowserExtensionInventory where
  inventory : Inventory BrowserExtension
  scope : ExtensionScope
  profiles : Nat
  profileErrors : Nat
  /-- The status of each list that the extension policy was enforced on. -/
  policy : List Str

def emptyBrowserExtensionInventory (scope : ExtensionScope) : BrowserExtensionInventory :=
  ⟨⟨0, none, none, false⟩, scope, 0, 0, []⟩

structure SoftwareInventory where
  hasChanges : Bool

structure AmpNamespace where
  software : SoftwareInventory
  printers : Option PrinterInventory
  browserExtensions : Option BrowserExtensionInventory

inductive Platform
  | win32
  | darwin
  | linux
  deriving DecidableEq

/-- How the collection of software ends: with an empty list, or with an inventory. -/
inductive SoftwareRun
  | empty
  | inventory (hasChanges : Bool)

/-- What a provider meets. Readings are `none` where the collector throws. -/
structure Pass where
  platform : Platform
  printers : Option (List Printer × Scopes)
  printerFaults : Faults
  extensionPolicy : List Str
  extensions : Option ExtensionScanResult
  extensionFaults : Faults
  software : SoftwareRun

structure Baselines where
  printers : Baseline Printer
  extensions : Baseline BrowserExtension

section Pass

variable (l : Locale) (printerNoiseKind : Printer → Bool) (p : Pass) (b : Baselines)

def Pass.scopes (scopes : Scopes) : Option Scopes :=
  match p.platform with
  | .win32 => some scopes
  | .darwin | .linux => none

def Pass.builtPrinters : Built Printer :=
  match p.printers with
  | none => ⟨none, b.printers, []⟩
  | some (rows, scopes) =>
    buildPrinterInventoryWithBaseline l printerNoiseKind p.printerFaults rows (p.scopes scopes)
      b.printers

def Pass.builtExtensions : Built BrowserExtension :=
  match p.extensions with
  | none => ⟨none, b.extensions, []⟩
  | some scan => buildBrowserExtensionInventory l p.extensionFaults scan b.extensions

/-- A failure leaves the empty inventory, on Windows with scopes that say so. -/
def Pass.collectPrinters : PrinterInventory :=
  match (p.builtPrinters l printerNoiseKind b).inventory, p.printers with
  | some inventory, some (_, scopes) => ⟨inventory, p.scopes scopes⟩
  | _, _ =>
    { emptyPrinterInventory with scopes := p.scopes ⟨text "unavailable", text "unavailable"⟩ }

def Pass.collectBrowserExtensionInventory : BrowserExtensionInventory :=
  match (p.builtExtensions l b).inventory, p.extensions with
  | some inventory, some scan => ⟨inventory, scan.scope, scan.profiles, scan.profileErrors, []⟩
  | _, _ => emptyBrowserExtensionInventory .unavailable

/-- The provider of the platform. On macOS and Linux an empty list of software returns without the
other inventories. -/
def Pass.collect : AmpNamespace :=
  let printers := p.collectPrinters l printerNoiseKind b
  let browserExtensions := p.collectBrowserExtensionInventory l b
  match p.platform with
  | .win32 =>
    { software :=
        match p.software with
        | .empty => ⟨true⟩
        | .inventory hasChanges => ⟨hasChanges⟩
      printers := some printers
      browserExtensions := some { browserExtensions with policy := p.extensionPolicy } }
  | .darwin | .linux =>
    match p.software with
    | .empty => ⟨⟨true⟩, none, none⟩
    | .inventory hasChanges => ⟨⟨hasChanges⟩, some printers, some browserExtensions⟩

/-- The namespace is returned without the inventories of the pass. -/
def Pass.isDropped : Bool :=
  match p.platform, p.software with
  | .win32, _ => false
  | _, .empty => true
  | _, .inventory _ => false

variable {l printerNoiseKind p b}

theorem Pass.reports_builtPrinters : (p.builtPrinters l printerNoiseKind b).Reports (printer l) := by
  unfold Pass.builtPrinters
  split
  · intro i hi
    cases hi
  · exact reports_buildPrinterInventoryWithBaseline _ _ _ _ _ _

theorem Pass.reports_builtExtensions : (p.builtExtensions l b).Reports browserExtension := by
  unfold Pass.builtExtensions
  split
  · intro i hi
    cases hi
  · exact reports_buildBrowserExtensionInventory _ _ _ _

variable (l printerNoiseKind b) in
/-- Unless the provider drops them, the namespace has both inventories. -/
theorem Pass.collect_of_not_dropped (hdropped : p.isDropped = false) :
    (p.collect l printerNoiseKind b).printers = some (p.collectPrinters l printerNoiseKind b) ∧
      ∃ policy, (p.collect l printerNoiseKind b).browserExtensions =
        some { p.collectBrowserExtensionInventory l b with policy := policy } := by
  unfold Pass.collect
  unfold Pass.isDropped at hdropped
  cases hplatform : p.platform with
  | win32 => exact ⟨rfl, p.extensionPolicy, rfl⟩
  | darwin | linux =>
    rw [hplatform] at hdropped
    cases hsoftware : p.software with
    | empty =>
      rw [hsoftware] at hdropped
      cases hdropped
    | inventory hasChanges => exact ⟨rfl, _, rfl⟩

/-- What the printer pass reports is what is collected. -/
theorem Pass.collectPrinters_of_built {inventory : Inventory Printer}
    (hbuilt : (p.builtPrinters l printerNoiseKind b).inventory = some inventory) :
    (p.collectPrinters l printerNoiseKind b).inventory = inventory := by
  unfold Pass.collectPrinters
  cases hread : p.printers with
  | none =>
    unfold Pass.builtPrinters at hbuilt
    rw [hread] at hbuilt
    cases hbuilt
  | some read => rw [hbuilt]

theorem Pass.collectExtensions_of_built {inventory : Inventory BrowserExtension}
    (hbuilt : (p.builtExtensions l b).inventory = some inventory) :
    (p.collectBrowserExtensionInventory l b).inventory = inventory := by
  unfold Pass.collectBrowserExtensionInventory
  cases hread : p.extensions with
  | none =>
    unfold Pass.builtExtensions at hbuilt
    rw [hread] at hbuilt
    cases hbuilt
  | some scan => rw [hbuilt]

end Pass

end Amp
