-- SUMMARY: The printer baseline in its SQLite columns, and the passes over it that the backend folds.
import Tracenium.Amp.Assets
import Tracenium.Lib.Inventory
import Tracenium.Lib.Machine

/-!
`src/domain/printer-baseline-repo.ts` and `src/plugins/amp/providers/printers-pipeline.ts`, with what the columns make
of a printer: a text is written as UTF-8, a flag as 0 or 1, and what is not there as NULL.
-/

open Utf16 Utf8 OrderedMap Option List
open Inventory (Holding last put last_eq_none_iff mem_of_last isSome_last_iff get_foldl_set put_apply)

namespace Amp.Printers

open Printer

/-! ## Columns -/

def sqlText (s : Str) : Str := decode (encode s)

structure Row where
  installId : Str
  name : Str
  source : PrinterSource
  driver : Option Str
  port : Option Str
  isDefault : Nat
  isNetwork : Nat
  isShared : Nat
  location : Option Str
  comments : Option Str
  shareName : Option Str
  hostAddress : Option Str
  status : Option PrinterStatus
  detectedAtUtc : Str

def rowOf (p : Printer) : Row where
  installId := sqlText p.installId
  name := sqlText p.name
  source := p.source
  driver := p.driver.map sqlText
  port := p.port.map sqlText
  isDefault := if p.isDefault then 1 else 0
  isNetwork := if p.isNetwork then 1 else 0
  isShared := if p.isShared then 1 else 0
  location := p.location.map sqlText
  comments := p.comments.map sqlText
  shareName := p.shareName.map sqlText
  hostAddress := p.hostAddress.map sqlText
  status := p.status
  detectedAtUtc := sqlText p.detectedAtUtc

def Row.printer (r : Row) : Printer where
  installId := r.installId
  name := r.name
  source := r.source
  driver := r.driver
  port := r.port
  isDefault := r.isDefault ≠ 0
  isNetwork := r.isNetwork ≠ 0
  isShared := r.isShared ≠ 0
  shareName := r.shareName
  hostAddress := r.hostAddress
  location := r.location
  comments := r.comments
  status := r.status
  detectedAtUtc := r.detectedAtUtc

def Row.seenAt (r : Row) (detectedAtUtc : Str) : Row := { r with detectedAtUtc := detectedAtUtc }

/-- The rows by their primary key. -/
abbrev Table := OrderedMap Str Row

def loadPrinterBaseline (t : Table) : List Printer :=
  ((values t).mergeSort fun r r' => decide (encode r.installId ≤ encode r'.installId)).map Row.printer

/-- On a conflict the row keeps when the printer was first seen. -/
def upsertPrinter (t : Table) (p : Printer) : Table :=
  if p.installId = [] ∨ p.name = [] then t
  else
    t.set (rowOf p).installId
      (match t.get (rowOf p).installId with
        | some stored => (rowOf p).seenAt stored.detectedAtUtc
        | none => rowOf p)

def upsertPrinterBaseline (printers : List Printer) (t : Table) : Table := printers.foldl upsertPrinter t

def deletePrintersByIds (installIds : List Str) (t : Table) : Table :=
  installIds.foldl (fun t id => if id = [] then t else t.delete (sqlText id)) t

/-! ## Passes -/

structure Read where
  collected : List Printer
  scopes : Option Scopes

section Pipeline

variable (l : Locale) (printerNoiseKind : Printer → Bool)

def Read.current (r : Read) : List Printer := r.collected.filter fun p => !printerNoiseKind p

/-- The payload of a pass, and the baseline after it. -/
def buildPrinterInventoryWithBaseline (r : Read) (t : Table) : Inventory Printer × Table :=
  let current := r.current printerNoiseKind
  let previous := loadPrinterBaseline t
  let delta := computeDelta (printer l) l current previous
  match classifyPrinterRead r.scopes with
  | .blind => (⟨previous.length, none, none, false⟩, t)
  | .incomplete =>
    let count := previous.length + delta.added.length
    if upserts delta = [] then (⟨count, none, none, false⟩, t)
    else
      (⟨count, none, some { delta with removed := [], unchanged := count - (upserts delta).length }, true⟩,
        upsertPrinterBaseline (upserts delta) t)
  | .complete =>
    if previous = [] then (⟨current.length, some current, none, true⟩, upsertPrinterBaseline current t)
    else if delta.hasChanges then
      (⟨currentCount (printer l) current, none, some delta, true⟩,
        deletePrintersByIds (deletes (printer l) delta) (upsertPrinterBaseline (upserts delta) t))
    else (⟨currentCount (printer l) current, none, none, false⟩, t)

end Pipeline

/-! ## The backend -/

/-- Items replace what is held, and a delta is put into it. -/
def receive (i : Inventory Printer) (h : Holding Str Printer) : Holding Str Printer :=
  let h := i.items.elim h fun rows => put installId rows fun _ => none
  i.delta.elim h fun d id =>
    if d.removed.any (·.installId = id) then none else put installId (upserts d) h id

structure Site where
  table : Table
  server : Holding Str Printer

section Run

variable (l : Locale) (printerNoiseKind : Printer → Bool)

def Site.step (s : Site) (r : Read) : Site :=
  let (i, t) := buildPrinterInventoryWithBaseline l printerNoiseKind r s.table
  ⟨t, receive i s.server⟩

def machine : Machine Site Read where
  init := ⟨.empty, fun _ => none⟩
  step := Site.step l printerNoiseKind

def Read.IsComplete (r : Read) : Prop := classifyPrinterRead r.scopes = .complete

/-- What a pass is to leave behind, after the reads before it. -/
structure Converges (before : List Read) (r : Read) : Prop where
  ids : ∀ id, (((machine l printerNoiseKind).run (before ++ [r])).server id).isSome = true ↔
    ∃ p ∈ loadPrinterBaseline ((machine l printerNoiseKind).run (before ++ [r])).table, p.installId = id
  removals : ∀ d ∈ (buildPrinterInventoryWithBaseline l printerNoiseKind r
    ((machine l printerNoiseKind).run before).table).1.delta, d.removed ≠ [] → r.IsComplete
  settled : r.IsComplete → (computeDelta (printer l) l (r.current printerNoiseKind)
    (loadPrinterBaseline ((machine l printerNoiseKind).run (before ++ [r])).table)).hasChanges = false
  quiet : ∀ before' r', before = before' ++ [r'] → r'.IsComplete → r.IsComplete → r'.collected = r.collected →
    (buildPrinterInventoryWithBaseline l printerNoiseKind r
      ((machine l printerNoiseKind).run before).table).1.hasChanges = false

/-- No two complete reads in a row find the same list without a printer to report. -/
def Occupied (rs : List Read) : Prop :=
  ∀ before r' r after, rs = before ++ r' :: r :: after → r'.IsComplete → r.IsComplete →
    r'.collected = r.collected → r.current printerNoiseKind ≠ []

end Run

/-- The texts that are compared have no half of a pair alone. -/
structure IsText (p : Printer) : Prop where
  installId : WellFormed p.installId
  driver : ∀ s ∈ p.driver, WellFormed s
  port : ∀ s ∈ p.port, WellFormed s
  location : ∀ s ∈ p.location, WellFormed s
  comments : ∀ s ∈ p.comments, WellFormed s
  shareName : ∀ s ∈ p.shareName, WellFormed s
  hostAddress : ∀ s ∈ p.hostAddress, WellFormed s

/-! ## Deltas -/

section Delta

variable {α : Type} {a : Asset α} {l : Locale} {rows cur prev : List α}

/-- Where a key comes once, its last item is its item. -/
theorem last_eq_some_iff {key : α → Str} (h : ∀ i ∈ rows, ∀ j ∈ rows, key i = key j → i = j) {id : Str} {row : α} :
    last key rows id = some row ↔ row ∈ rows ∧ key row = id := by
  constructor
  · exact mem_of_last
  · rintro ⟨hrow, rfl⟩
    have hsome : (last key rows (key row)).isSome := isSome_last_iff.mpr ⟨row, hrow, rfl⟩
    obtain ⟨row', hlast⟩ := isSome_iff_exists.mp hsome
    obtain ⟨hrow', hkey⟩ := mem_of_last hlast
    rw [hlast, h row' hrow' row hrow hkey]

theorem get_keyed (h : ∀ row ∈ rows, a.installId row ≠ []) (id : Str) :
    (keyed a rows).get id = last a.installId rows id := by
  have hset : keyed a rows = rows.foldl (fun m row => m.set (a.installId row) row) .empty :=
    foldl_ext _ _ _ fun m row hrow => if_neg (h row hrow)
  simp [hset, get_foldl_set]

theorem mem_values_keyed (h : ∀ row ∈ rows, a.installId row ≠ []) {row : α} :
    row ∈ values (keyed a rows) ↔ last a.installId rows (a.installId row) = some row := by
  rw [values, List.mem_map, ← get_keyed h]
  constructor
  · rintro ⟨⟨id, row'⟩, hmem, rfl⟩
    have hget := get_eq_some_iff.mpr hmem
    obtain ⟨-, rfl⟩ := mem_of_last ((get_keyed h id).symm.trans hget)
    exact hget
  · exact fun hget => ⟨_, get_eq_some_iff.mp hget, rfl⟩

/-- A row is put if it is new or changed. -/
theorem mem_upserts (hcur : ∀ row ∈ cur, a.installId row ≠ []) (hprev : ∀ row ∈ prev, a.installId row ≠ [])
    {row : α} : row ∈ upserts (computeDelta a l cur prev) ↔ last a.installId cur (a.installId row) = some row ∧
        (last a.installId prev (a.installId row)).all (a.isUpdated · row) := by
  simp only [upserts, computeDelta, sortById, mem_append, mem_mergeSort, mem_filter,
    mem_values_keyed hcur, get_keyed hprev, ← and_or_left]
  cases last a.installId prev (a.installId row) <;> simp

theorem mem_removed (hcur : ∀ row ∈ cur, a.installId row ≠ []) (hprev : ∀ row ∈ prev, a.installId row ≠ [])
    {row : α} : row ∈ (computeDelta a l cur prev).removed ↔
      last a.installId prev (a.installId row) = some row ∧ last a.installId cur (a.installId row) = none := by
  simp [computeDelta, sortById, mem_values_keyed hprev, get_keyed hcur]

theorem last_upserts (hcur : ∀ row ∈ cur, a.installId row ≠ []) (hprev : ∀ row ∈ prev, a.installId row ≠ [])
    (id : Str) : last a.installId (upserts (computeDelta a l cur prev)) id =
      (last a.installId cur id).filter fun row => (last a.installId prev id).all (a.isUpdated · row) := by
  have hunique : ∀ i ∈ upserts (computeDelta a l cur prev), ∀ j ∈ upserts (computeDelta a l cur prev),
      a.installId i = a.installId j → i = j := by
    intro i hi j hj hid
    have hlast := ((mem_upserts hcur hprev).mp hi).1
    rw [hid] at hlast
    exact some.inj (hlast.symm.trans ((mem_upserts hcur hprev).mp hj).1)
  ext row
  rw [last_eq_some_iff hunique, mem_upserts hcur hprev, filter_eq_some_iff]
  constructor
  · rintro ⟨hrow, rfl⟩
    exact hrow
  · rintro ⟨hlast, hall⟩
    obtain ⟨-, rfl⟩ := mem_of_last hlast
    exact ⟨⟨hlast, hall⟩, rfl⟩

theorem hasChanges_eq_false_iff {d : Delta α} : d.hasChanges = false ↔ upserts d = [] ∧ d.removed = [] := by
  simp [Delta.hasChanges, upserts, and_right_comm]

/-- Nothing changed: the same ids are there, and no row of them was changed. -/
theorem computeDelta_unchanged_iff (hcur : ∀ row ∈ cur, a.installId row ≠ [])
    (hprev : ∀ row ∈ prev, a.installId row ≠ []) : (computeDelta a l cur prev).hasChanges = false ↔
      (∀ row, ¬(last a.installId cur (a.installId row) = some row ∧
        (last a.installId prev (a.installId row)).all (a.isUpdated · row))) ∧
      ∀ row, ¬(last a.installId prev (a.installId row) = some row ∧
        last a.installId cur (a.installId row) = none) := by
  simp only [hasChanges_eq_false_iff, eq_nil_iff_forall_not_mem, mem_upserts hcur hprev, mem_removed hcur hprev]

end Delta

/-! ## The table -/

/-- Every row is under its id, which is a text. -/
def IsSound (t : Table) : Prop := ∀ e ∈ t.entries, e.2.installId = e.1 ∧ e.1 ≠ [] ∧ WellFormed e.1

section Table

variable {t : Table} {p : Printer} {rows : List Printer} {id : Str}

theorem sqlText_of_wellFormed {s : Str} (h : WellFormed s) : sqlText s = s := decode_encode h

theorem map_sqlText {s : Option Str} (h : ∀ u ∈ s, WellFormed u) : s.map sqlText = s := by
  cases s with
  | none => rfl
  | some u => exact congrArg some (sqlText_of_wellFormed (h u rfl))

@[simp] theorem installId_printer (l : Locale) : (printer l).installId = installId := rfl

/-- What is read back of a printer is not an update of it. -/
theorem isUpdated_stored (l : Locale) (h : IsText p) (detectedAtUtc : Str) :
    (printer l).isUpdated ((rowOf p).seenAt detectedAtUtc).printer p = false := by
  cases hdefault : p.isDefault <;> cases hnetwork : p.isNetwork <;> cases hshared : p.isShared <;>
    simp [printer, isPrinterUpdated, rowOf, Row.seenAt, Row.printer, map_sqlText h.driver, map_sqlText h.port,
      map_sqlText h.location, map_sqlText h.comments, map_sqlText h.shareName, map_sqlText h.hostAddress, hdefault,
      hnetwork, hshared]

theorem mem_load : p ∈ loadPrinterBaseline t ↔ ∃ e ∈ t.entries, e.2.printer = p := by
  simp only [loadPrinterBaseline, values, List.mem_map, List.mem_mergeSort]
  constructor
  · rintro ⟨_, ⟨e, he, rfl⟩, rfl⟩
    exact ⟨e, he, rfl⟩
  · rintro ⟨e, he, rfl⟩
    exact ⟨_, ⟨e, he, rfl⟩, rfl⟩

theorem load_ne_nil (h : IsSound t) : ∀ p ∈ loadPrinterBaseline t, (printer l).installId p ≠ [] := by
  intro p hp
  obtain ⟨e, he, rfl⟩ := mem_load.mp hp
  obtain ⟨hid, hne, -⟩ := h e he
  exact fun hnil => hne (hid.symm.trans hnil)

/-- What is loaded under an id is its row. -/
theorem last_load (h : IsSound t) (id : Str) :
    last installId (loadPrinterBaseline t) id = (t.get id).map Row.printer := by
  have hunique : ∀ i ∈ loadPrinterBaseline t, ∀ j ∈ loadPrinterBaseline t, i.installId = j.installId → i = j := by
    intro i hi j hj hid
    obtain ⟨⟨k, r⟩, he, rfl⟩ := mem_load.mp hi
    obtain ⟨⟨k', r'⟩, he', rfl⟩ := mem_load.mp hj
    have hk : k = k' := (h _ he).1.symm.trans (hid.trans (h _ he').1)
    subst hk
    rw [eq_of_mem he he']
  ext p
  rw [last_eq_some_iff hunique, mem_load, map_eq_some_iff]
  constructor
  · rintro ⟨⟨⟨k, r⟩, he, rfl⟩, rfl⟩
    have hid : r.installId = k := (h _ he).1
    subst hid
    exact ⟨r, get_eq_some_iff.mpr he, rfl⟩
  · rintro ⟨r, hr, rfl⟩
    have he := get_eq_some_iff.mp hr
    exact ⟨⟨_, he, rfl⟩, (h _ he).1⟩

structure IsRow (p : Printer) : Prop where
  installId : p.installId ≠ []
  name : p.name ≠ []
  text : IsText p

theorem IsRow.key (h : IsRow p) : (rowOf p).installId = p.installId := sqlText_of_wellFormed h.text.installId

theorem get_upsertPrinter (h : IsRow p) (id : Str) : (p.installId ≠ id → (upsertPrinter t p).get id = t.get id) ∧
      (p.installId = id → ∃ s, (upsertPrinter t p).get id = some ((rowOf p).seenAt s)) := by
  rw [upsertPrinter, if_neg (by simp [h.installId, h.name]), h.key]
  refine ⟨fun hne => get_set_of_ne hne.symm, ?_⟩
  rintro rfl
  rw [get_set_self]
  cases t.get p.installId with
  | none => exact ⟨_, rfl⟩
  | some stored => exact ⟨_, rfl⟩

/-- A row of the table is the last one that was put under its id. -/
theorem get_upsertPrinterBaseline (h : ∀ p ∈ rows, IsRow p) (id : Str) :
    (last installId rows id = none → (upsertPrinterBaseline rows t).get id = t.get id) ∧
      ∀ p, last installId rows id = some p →
        ∃ s, (upsertPrinterBaseline rows t).get id = some ((rowOf p).seenAt s) := by
  induction rows generalizing t with
  | nil => exact ⟨fun _ => rfl, fun p hp => absurd hp (some_ne_none p).symm⟩
  | cons q rows ih =>
    obtain ⟨hq, hrows⟩ := forall_mem_cons.mp h
    obtain ⟨hkept, hput⟩ := ih (t := upsertPrinter t q) hrows
    obtain ⟨hother, hsame⟩ := get_upsertPrinter (t := t) hq id
    rw [Inventory.last_cons]
    cases hlast : last installId rows id with
    | some p =>
      refine ⟨fun hnone => absurd hnone (some_ne_none p), fun p' hp' => ?_⟩
      obtain rfl := some.inj hp'
      exact hput p hlast
    | none =>
      have hget : (upsertPrinterBaseline (q :: rows) t).get id = (upsertPrinter t q).get id := hkept hlast
      rw [hget, none_or]
      refine ⟨fun hnone => hother fun hid => ?_, fun p hp => ?_⟩
      · rw [if_pos hid.symm] at hnone
        cases hnone
      · obtain ⟨hid, heq⟩ := ite_none_right_eq_some.mp hp
        obtain rfl := some.inj heq
        exact hsame hid.symm

theorem IsSound.upsertPrinter (hsound : IsSound t) (h : IsRow p) : IsSound (upsertPrinter t p) := by
  intro e he
  rw [Printers.upsertPrinter, if_neg (by simp [h.installId, h.name]), OrderedMap.mem_set] at he
  obtain rfl | he := he
  · refine ⟨?_, h.key ▸ h.installId, h.key ▸ h.text.installId⟩
    cases t.get (rowOf p).installId <;> rfl
  · exact hsound e he.1

theorem IsSound.upsertPrinterBaseline (hsound : IsSound t) (h : ∀ p ∈ rows, IsRow p) :
    IsSound (upsertPrinterBaseline rows t) := by
  induction rows generalizing t with
  | nil => exact hsound
  | cons q rows ih =>
    obtain ⟨hq, hrows⟩ := forall_mem_cons.mp h
    exact ih (hsound.upsertPrinter hq) hrows

theorem get_deletePrintersByIds {ids : List Str} (h : ∀ id ∈ ids, id ≠ [] ∧ WellFormed id) (id : Str) :
    (deletePrintersByIds ids t).get id = if id ∈ ids then none else t.get id := by
  induction ids generalizing t with
  | nil => rfl
  | cons i ids ih =>
    obtain ⟨⟨hne, htext⟩, hids⟩ := forall_mem_cons.mp h
    rw [deletePrintersByIds, foldl_cons, if_neg hne, sqlText_of_wellFormed htext]
    have htail := ih (t := t.delete i) hids
    rw [deletePrintersByIds] at htail
    rw [htail]
    by_cases hid : id = i
    · simp [hid, get_delete_self]
    · simp [hid, get_delete_of_ne hid]

theorem IsSound.deletePrintersByIds (hsound : IsSound t) (ids : List Str) : IsSound (deletePrintersByIds ids t) := by
  induction ids generalizing t with
  | nil => exact hsound
  | cons i ids ih =>
    rw [Printers.deletePrintersByIds, foldl_cons]
    refine ih ?_
    split
    · exact hsound
    · exact fun e he => hsound e (mem_delete.mp he).1

end Table

/-! ## One pass -/

section Step

variable {l : Locale} {printerNoiseKind : Printer → Bool} {s : Site} {r : Read} {t : Table} {cur : List Printer}
  {id : Str}

structure Inv (s : Site) : Prop where
  sound : IsSound s.table
  ids : ∀ id, (s.server id).isSome = true ↔ (s.table.get id).isSome = true

theorem isSome_get_upsert {rows : List Printer} (h : ∀ p ∈ rows, IsRow p) (id : Str) :
    ((upsertPrinterBaseline rows t).get id).isSome ↔
      (last installId rows id).isSome ∨ (t.get id).isSome := by
  obtain ⟨hkept, hput⟩ := get_upsertPrinterBaseline (t := t) h id
  cases hlast : last installId rows id with
  | none => simp [hkept hlast]
  | some p =>
    obtain ⟨s, hs⟩ := hput p hlast
    simp [hs]

theorem isSome_put {rows : List Printer} {h : Holding Str Printer} (id : Str) :
    (put installId rows h id).isSome ↔ (last installId rows id).isSome ∨ (h id).isSome := by
  rw [put_apply]
  cases last installId rows id <;> simp

/-- The ids that are deleted are those of the rows that went. -/
theorem mem_deletes {d : Delta Printer} : id ∈ deletes (printer l) d ↔ id ≠ [] ∧ ∃ p ∈ d.removed, p.installId = id := by
  rw [deletes, List.mem_filter, List.mem_map, decide_eq_true_eq, and_comm]
  rfl

theorem mem_current (h : ∀ p ∈ r.collected, IsRow p) : ∀ p ∈ r.current printerNoiseKind, IsRow p :=
  fun p hp => h p (mem_filter.mp hp).1

section Changes

variable (hsound : IsSound t) (hcur : ∀ p ∈ cur, IsRow p)
include hsound hcur

theorem isRow_upserts : ∀ p ∈ upserts (computeDelta (printer l) l cur (loadPrinterBaseline t)), IsRow p := by
  intro p hp
  obtain ⟨hlast, -⟩ := (mem_upserts (fun p hp => (hcur p hp).installId) (load_ne_nil hsound)).mp hp
  exact hcur p (mem_of_last hlast).1

/-- The rows that went are those of the table whose ids are no longer there. -/
theorem mem_deletes_computeDelta : id ∈ deletes (printer l) (computeDelta (printer l) l cur (loadPrinterBaseline t)) ↔
    (t.get id).isSome ∧ last installId cur id = none := by
  have hnil : ∀ p ∈ cur, (printer l).installId p ≠ [] := fun p hp => (hcur p hp).installId
  rw [mem_deletes]
  constructor
  · rintro ⟨-, p, hp, rfl⟩
    obtain ⟨hlast, hnone⟩ := (mem_removed hnil (load_ne_nil hsound)).mp hp
    have hrow := (last_load hsound _).symm.trans hlast
    exact ⟨by simpa using congrArg isSome hrow, hnone⟩
  · rintro ⟨hsome, hnone⟩
    obtain ⟨r, hr⟩ := isSome_iff_exists.mp hsome
    obtain ⟨hid, hne, -⟩ := hsound _ (get_eq_some_iff.mp hr)
    have hprinter : r.printer.installId = id := hid
    refine ⟨hne, r.printer, (mem_removed hnil (load_ne_nil hsound)).mpr ?_, hid⟩
    change last installId _ r.printer.installId = _ ∧ last installId _ r.printer.installId = _
    rw [hprinter, last_load hsound, hr]
    exact ⟨rfl, hnone⟩

theorem any_removed_iff (id : Str) : (computeDelta (printer l) l cur (loadPrinterBaseline t)).removed.any
      (fun p => decide (p.installId = id)) ↔
    id ∈ deletes (printer l) (computeDelta (printer l) l cur (loadPrinterBaseline t)) := by
  have hnil : ∀ p ∈ cur, (printer l).installId p ≠ [] := fun p hp => (hcur p hp).installId
  rw [mem_deletes, List.any_eq_true]
  simp only [decide_eq_true_eq]
  refine ⟨fun ⟨p, hp, hid⟩ => ⟨?_, p, hp, hid⟩, fun h => h.2⟩
  have hload := mem_of_last ((mem_removed hnil (load_ne_nil hsound)).mp hp).1
  rw [← hid]
  exact load_ne_nil (l := l) hsound p hload.1

theorem forall_deletes : ∀ id ∈ deletes (printer l) (computeDelta (printer l) l cur (loadPrinterBaseline t)),
    id ≠ [] ∧ WellFormed id := by
  intro id hid
  obtain ⟨hsome, -⟩ := (mem_deletes_computeDelta hsound hcur).mp hid
  obtain ⟨r, hr⟩ := isSome_iff_exists.mp hsome
  exact (hsound _ (get_eq_some_iff.mp hr)).2

/-- With the changes in it, the table differs in nothing from what is there. -/
theorem unchanged_of_changes : (computeDelta (printer l) l cur (loadPrinterBaseline
    (deletePrintersByIds (deletes (printer l) (computeDelta (printer l) l cur (loadPrinterBaseline t)))
      (upsertPrinterBaseline (upserts (computeDelta (printer l) l cur (loadPrinterBaseline t))) t)))).hasChanges =
    false := by
  have hnil : ∀ p ∈ cur, (printer l).installId p ≠ [] := fun p hp => (hcur p hp).installId
  have hrows := isRow_upserts (l := l) hsound hcur
  have hdeletes := forall_deletes (l := l) hsound hcur
  have hsound' := (hsound.upsertPrinterBaseline hrows).deletePrintersByIds
    (deletes (printer l) (computeDelta (printer l) l cur (loadPrinterBaseline t)))
  have hupserts := last_upserts (l := l) hnil (load_ne_nil hsound)
  rw [computeDelta_unchanged_iff hnil (load_ne_nil hsound')]
  simp only [installId_printer, last_load hsound', get_deletePrintersByIds hdeletes,
    mem_deletes_computeDelta hsound hcur] at hupserts ⊢
  constructor
  · rintro p ⟨hlast, hall⟩
    have hupsert := hupserts p.installId
    obtain ⟨hkept, hput⟩ := get_upsertPrinterBaseline (t := t) hrows p.installId
    rw [hlast, last_load hsound] at hupsert
    rw [if_neg (by simp [hlast])] at hall
    cases hupdated : ((t.get p.installId).map Row.printer).all ((printer l).isUpdated · p) with
    | true =>
      rw [filter_some, if_pos hupdated] at hupsert
      obtain ⟨s, hs⟩ := hput p hupsert
      simp [hs, isUpdated_stored l (hcur p (mem_of_last hlast).1).text s] at hall
    | false =>
      rw [filter_some, hupdated] at hupsert
      rw [hkept hupsert, hupdated] at hall
      cases hall
  · rintro p ⟨hlast, hnone⟩
    have hupsert := hupserts p.installId
    rw [hnone, filter_none] at hupsert
    obtain ⟨hkept, -⟩ := get_upsertPrinterBaseline (t := t) hrows p.installId
    rw [hkept hupsert] at hlast
    cases hget : t.get p.installId <;> simp [hget, hnone] at hlast

omit hcur in
theorem get_eq_none_of_load (hempty : loadPrinterBaseline t = []) (id : Str) : t.get id = none := by
  have hlast := last_load hsound id
  rw [hempty] at hlast
  exact map_eq_none_iff.mp hlast.symm

/-- After the first run the table differs in nothing from what is there. -/
theorem unchanged_of_first (hempty : loadPrinterBaseline t = []) :
    (computeDelta (printer l) l cur (loadPrinterBaseline (upsertPrinterBaseline cur t))).hasChanges = false := by
  have hnil : ∀ p ∈ cur, (printer l).installId p ≠ [] := fun p hp => (hcur p hp).installId
  have hsound' := hsound.upsertPrinterBaseline hcur
  have hget := get_eq_none_of_load hsound hempty
  rw [computeDelta_unchanged_iff hnil (load_ne_nil hsound')]
  simp only [installId_printer, last_load hsound']
  constructor
  · rintro p ⟨hlast, hall⟩
    obtain ⟨s, hs⟩ := (get_upsertPrinterBaseline (t := t) hcur p.installId).2 p hlast
    simp [hs, isUpdated_stored l (hcur p (mem_of_last hlast).1).text s] at hall
  · rintro p ⟨hlast, hnone⟩
    simp [(get_upsertPrinterBaseline (t := t) hcur p.installId).1 hnone, hget] at hlast

/-- Where nothing changed, there is a baseline exactly if there is a printer. -/
theorem load_eq_nil_iff (hunchanged : (computeDelta (printer l) l cur (loadPrinterBaseline t)).hasChanges = false) :
    loadPrinterBaseline t = [] ↔ cur = [] := by
  have hnil : ∀ p ∈ cur, (printer l).installId p ≠ [] := fun p hp => (hcur p hp).installId
  obtain ⟨hkept, hgone⟩ := (computeDelta_unchanged_iff hnil (load_ne_nil hsound)).mp hunchanged
  have hexists {rows : List Printer} (hne : rows ≠ []) : ∃ p, last installId rows p.installId = some p := by
    obtain ⟨q, hq⟩ := exists_mem_of_ne_nil rows hne
    have hsome : (last installId rows q.installId).isSome := isSome_last_iff.mpr ⟨q, hq, rfl⟩
    obtain ⟨p, hp⟩ := isSome_iff_exists.mp hsome
    exact ⟨p, (mem_of_last hp).2 ▸ hp⟩
  constructor
  · intro hempty
    by_contra hne
    obtain ⟨p, hp⟩ := hexists hne
    refine hkept p ⟨hp, ?_⟩
    rw [hempty]
    rfl
  · rintro rfl
    by_contra hne
    obtain ⟨p, hp⟩ := hexists hne
    exact hgone p ⟨hp, rfl⟩

end Changes

variable (hinv : Inv s) (hr : ∀ p ∈ r.collected, IsRow p)
include hinv hr

/-- A complete read leaves nothing to change. -/
theorem settled (hcomplete : r.IsComplete) : (computeDelta (printer l) l (r.current printerNoiseKind)
    (loadPrinterBaseline (s.step l printerNoiseKind r).table)).hasChanges = false := by
  have hcur : ∀ p ∈ r.current printerNoiseKind, IsRow p := mem_current hr
  have hscopes : classifyPrinterRead r.scopes = .complete := hcomplete
  simp only [Site.step, buildPrinterInventoryWithBaseline, hscopes]
  split
  · rename_i hempty
    exact unchanged_of_first hinv.sound hcur hempty
  · split
    · exact unchanged_of_changes hinv.sound hcur
    · rename_i hunchanged
      exact Bool.eq_false_iff.mpr hunchanged

/-- After a pass the backend holds the ids of the table. -/
theorem inv_step : Inv (s.step l printerNoiseKind r) := by
  have hcur : ∀ p ∈ r.current printerNoiseKind, IsRow p := mem_current hr
  have hrows := isRow_upserts (l := l) hinv.sound hcur
  have hdeletes := forall_deletes (l := l) hinv.sound hcur
  simp only [Site.step, buildPrinterInventoryWithBaseline]
  split
  · exact ⟨hinv.sound, hinv.ids⟩
  · split
    · exact ⟨hinv.sound, hinv.ids⟩
    · refine ⟨hinv.sound.upsertPrinterBaseline hrows, fun id => ?_⟩
      rw [isSome_get_upsert hrows, ← hinv.ids]
      exact isSome_put id
  · split
    · rename_i hempty
      refine ⟨hinv.sound.upsertPrinterBaseline hcur, fun id => ?_⟩
      rw [isSome_get_upsert hcur, get_eq_none_of_load hinv.sound hempty]
      exact isSome_put id
    · split
      · refine ⟨(hinv.sound.upsertPrinterBaseline hrows).deletePrintersByIds _, fun id => ?_⟩
        rw [get_deletePrintersByIds hdeletes]
        have hremoved := any_removed_iff (l := l) hinv.sound hcur id
        simp only [receive, Option.elim]
        by_cases hid : id ∈ deletes (printer l) (computeDelta (printer l) l (r.current printerNoiseKind)
            (loadPrinterBaseline s.table))
        · rw [if_pos hid, if_pos (hremoved.mpr hid)]
          simp
        · rw [if_neg hid, if_neg fun h => hid (hremoved.mp h), isSome_get_upsert hrows, ← hinv.ids]
          exact isSome_put id
      · exact ⟨hinv.sound, hinv.ids⟩

end Step

/-! ## Every run -/

section Every

variable {l : Locale} {printerNoiseKind : Printer → Bool}

theorem inv_run {rs : List Read} (h : ∀ r ∈ rs, ∀ p ∈ r.collected, IsRow p) :
    Inv ((machine l printerNoiseKind).run rs) := by
  have hinit : Inv (machine l printerNoiseKind).init := ⟨fun e he => absurd he not_mem_nil, fun id => Iff.rfl⟩
  have hguarded : (machine l printerNoiseKind).Guarded (fun _ r => ∀ p ∈ r.collected, IsRow p) rs :=
    Machine.guarded_of_forall fun r hr _ => h r hr
  exact (hguarded.always hinit fun s r hs hr => inv_step hs hr).last

theorem run_snoc (before : List Read) (r : Read) : (machine l printerNoiseKind).run (before ++ [r]) =
    ((machine l printerNoiseKind).run before).step l printerNoiseKind r := by
  rw [Machine.run_append]
  rfl

theorem local_ids {s : Site} (h : Inv s) (id : Str) :
    (s.server id).isSome ↔ ∃ p ∈ loadPrinterBaseline s.table, p.installId = id := by
  rw [h.ids, ← isSome_last_iff, last_load h.sound]
  cases s.table.get id <;> rfl

/-- Only complete reads tell of printers that went. -/
theorem removals (r : Read) (t : Table) : ∀ d ∈ (buildPrinterInventoryWithBaseline l printerNoiseKind r t).1.delta,
    d.removed ≠ [] → r.IsComplete := by
  intro d hd hremoved
  simp only [buildPrinterInventoryWithBaseline] at hd
  split at hd
  · cases hd
  · split at hd
    · cases hd
    · obtain rfl := some.inj hd
      exact absurd rfl hremoved
  · assumption

/-- A complete read of what is there already is quiet exactly if there is a printer. -/
theorem quiet_iff {r : Read} {t : Table} (hsound : IsSound t) (hr : ∀ p ∈ r.collected, IsRow p)
    (hcomplete : r.IsComplete) (hunchanged : (computeDelta (printer l) l (r.current printerNoiseKind)
      (loadPrinterBaseline t)).hasChanges = false) :
    (buildPrinterInventoryWithBaseline l printerNoiseKind r t).1.hasChanges = false ↔
      r.current printerNoiseKind ≠ [] := by
  have hscopes : classifyPrinterRead r.scopes = .complete := hcomplete
  have hempty := load_eq_nil_iff hsound (mem_current hr) hunchanged
  simp only [buildPrinterInventoryWithBaseline, hscopes, hunchanged, ← hempty.not]
  split
  · rename_i hnil
    simp [hnil]
  · rename_i hne
    simp [hne]

/-- The passes over texts converge exactly if no two complete reads in a row find the same list without a printer. -/
theorem converges_iff (l : Locale) (printerNoiseKind : Printer → Bool) (rs : List Read)
    (hrows : ∀ r ∈ rs, ∀ p ∈ r.collected, IsRow p) :
    (∀ before r after, rs = before ++ r :: after → Converges l printerNoiseKind before r) ↔
      Occupied printerNoiseKind rs := by
  have hinv (before after : List Read) (h : rs = before ++ after) : Inv ((machine l printerNoiseKind).run before) :=
    inv_run fun q hq => hrows q (h ▸ mem_append_left _ hq)
  -- what the second of two equal complete reads is made against
  have hsecond {before after : List Read} {r' r : Read} (h : rs = before ++ r' :: r :: after)
      (hcomplete' : r'.IsComplete) (hcomplete : r.IsComplete) (hsame : r'.collected = r.collected) :
      (buildPrinterInventoryWithBaseline l printerNoiseKind r
        ((machine l printerNoiseKind).run (before ++ [r'])).table).1.hasChanges = false ↔
        r.current printerNoiseKind ≠ [] := by
    have hr' : ∀ p ∈ r'.collected, IsRow p := hrows r' (by simp [h])
    have hcurrent : r'.current printerNoiseKind = r.current printerNoiseKind := by
      rw [Read.current, hsame, Read.current]
    have hsettled : (computeDelta (printer l) l (r'.current printerNoiseKind) (loadPrinterBaseline
        (((machine l printerNoiseKind).run before).step l printerNoiseKind r').table)).hasChanges = false :=
      settled (hinv before _ h) hr' hcomplete'
    rw [hcurrent, ← run_snoc] at hsettled
    have hinv' : Inv ((machine l printerNoiseKind).run (before ++ [r'])) := hinv _ (r :: after) (by simp [h])
    exact quiet_iff hinv'.sound (hsame ▸ hr') hcomplete hsettled
  constructor
  · intro h before r' r after hsplit hcomplete' hcomplete hsame
    have hconverges := h (before ++ [r']) r after (by simp [hsplit])
    exact (hsecond hsplit hcomplete' hcomplete hsame).mp
      (hconverges.quiet before r' rfl hcomplete' hcomplete hsame)
  · intro h before r after hsplit
    have hr : ∀ p ∈ r.collected, IsRow p := hrows r (by simp [hsplit])
    refine ⟨local_ids (hinv _ after (by simp [hsplit])), removals r _, fun hcomplete => ?_, ?_⟩
    · rw [run_snoc]
      exact settled (hinv before _ hsplit) hr hcomplete
    · rintro before' r' rfl hcomplete' hcomplete hsame
      have hsplit' : rs = before' ++ r' :: r :: after := by simp [hsplit]
      exact (hsecond hsplit' hcomplete' hcomplete hsame).mpr (h before' r' r after hsplit' hcomplete' hcomplete hsame)

end Every

/-! ## A device without printers -/

/-- Texts are compared unit by unit. -/
def sampleLocale : Locale := ⟨fun s s' => decide (s ≤ s'), id⟩

def sampleRead : Read where
  collected := [{
    installId := text "cups:a"
    name := text "a"
    source := .cups
    driver := none
    port := none
    isDefault := true
    isNetwork := false
    isShared := false
    shareName := none
    hostAddress := none
    location := none
    comments := none
    status := none
    detectedAtUtc := text "2026-01-01T00:00:00.000Z" }]
  scopes := none

theorem isRow_sample : ∀ r ∈ [sampleRead, sampleRead], ∀ p ∈ r.collected, IsRow p := by
  have hwell : WellFormed (text "cups:a") := (decode_encode_iff _).mp (by decide)
  intro r hr p hp
  obtain rfl : r = sampleRead := by simpa using hr
  obtain rfl := mem_singleton.mp hp
  exact ⟨by decide, by decide, hwell, by simp, by simp, by simp, by simp, by simp, by simp⟩

theorem converges_sample : (∀ before r after, [sampleRead, sampleRead] = before ++ r :: after →
      Converges sampleLocale (fun _ => false) before r) ↔ Occupied (fun _ => false) [sampleRead, sampleRead] :=
  converges_iff sampleLocale (fun _ => false) [sampleRead, sampleRead] isRow_sample

def emptyRead : Read := ⟨[], none⟩

/-- Every complete read of a device without printers is a first run. -/
theorem not_converges_empty : ¬Converges sampleLocale (fun _ => false) [emptyRead] emptyRead := by
  intro h
  have hnoisy : (buildPrinterInventoryWithBaseline sampleLocale (fun _ => false) emptyRead
      ((machine sampleLocale fun _ => false).run [emptyRead]).table).1.hasChanges := by
    decide +kernel
  rw [h.quiet [] emptyRead rfl rfl rfl rfl] at hnoisy
  cases hnoisy

end Amp.Printers
