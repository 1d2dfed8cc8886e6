-- SUMMARY: Inventory ticks, from the collection to the outbox, and when every change of a baseline is sent.
import Tracenium.Amp.Assets
import Tracenium.Lib.Machine

/-!
`runInventory` of `src/core/scheduler.ts` with the gate of `src/core/inventory-send-gate.ts`. The
baselines change while the provider collects, and the snapshot is enqueued at the end of the tick.
-/

open Utf16 List Bool

namespace Amp

/-! ## The gate -/

def MAX_INVENTORY_SILENCE_MS : Int := 24 * 60 * 60 * 1000

/-- `decideFactsSend`. A stamp that is not a number is `none`. -/
def decideFactsSend (hasAnyChanges forceInitialSnapshot versionChanged : Bool)
    (lastSentAtMs : Option Int) (nowMs : Int) : Bool :=
  hasAnyChanges || forceInitialSnapshot || versionChanged ||
    match lastSentAtMs with
    | none => true
    | some last => last ≤ 0 || nowMs < last || MAX_INVENTORY_SILENCE_MS < nowMs - last

def namespacesHaveChanges (amp : AmpNamespace) : Bool :=
  amp.software.hasChanges || (amp.printers.any fun printers => printers.inventory.hasChanges) ||
    (amp.browserExtensions.any fun extensions => extensions.inventory.hasChanges) ||
    amp.browserExtensions.any fun extensions => extensions.policy.any (· ≠ text "unchanged")

/-- A list that is not there is filled from the baseline, unless that is empty. -/
def rehydrate {α : Type*} (b : Baseline α) (i : Inventory α) : Inventory α :=
  let baseline := loadBaseline b
  if i.items.isNone && !baseline.isEmpty then
    { i with items := some baseline, count := baseline.length }
  else i

def rehydratePrinters (b : Baseline Printer) (amp : AmpNamespace) : AmpNamespace :=
  { amp with
    printers := amp.printers.map fun printers =>
      { printers with inventory := rehydrate b printers.inventory } }

/-! ## Ticks -/

/-- What a tick meets after the policy let it start. -/
structure Tick where
  pass : Pass
  now : Int
  /-- The hardware cannot be read, so the provider throws before it collects anything. -/
  providerThrows : Bool
  /-- `plugins.run` rejects after the provider is through. -/
  runRejects : Bool
  stateUnreadable : Bool
  baselineUnreadable : Bool
  factsReject : Bool
  enqueueThrows : Bool
  /-- Which of the two stamps are stored after the enqueue. -/
  storesVersion : Bool
  storesTime : Bool

structure Agent where
  agentVersion : Str
  baselines : Baselines
  initialInventorySent : Bool
  lastSentAgentVersion : Option Str
  lastSentFactsAt : Option Int
  /-- How many ticks there were. -/
  ticks : Nat
  /-- What the ticks did to the baselines. -/
  printerChanges : List (Nat × Change Printer)
  extensionChanges : List (Nat × Change BrowserExtension)
  /-- What was enqueued, with the tick that did it. -/
  snapshots : List (Nat × AmpNamespace)

section Tick

variable (l : Locale) (printerNoiseKind : Printer → Bool) (s : Agent) (t : Tick)

abbrev Tick.printers : Built Printer := t.pass.builtPrinters l printerNoiseKind s.baselines

abbrev Tick.extensions : Built BrowserExtension := t.pass.builtExtensions l s.baselines

def collected : Agent :=
  let printers := t.printers l printerNoiseKind s
  let extensions := t.extensions l s
  { s with
    baselines := ⟨printers.baseline, extensions.baseline⟩
    printerChanges := s.printerChanges ++ printers.applied.map (s.ticks, ·)
    extensionChanges := s.extensionChanges ++ extensions.applied.map (s.ticks, ·) }

def versionChanged : Bool := s.lastSentAgentVersion ≠ some s.agentVersion

def send (amp : AmpNamespace) : Agent :=
  let forceInitialSnapshot := !s.initialInventorySent
  if t.stateUnreadable then s
  else if !decideFactsSend (namespacesHaveChanges amp) forceInitialSnapshot (versionChanged s)
      s.lastSentFactsAt t.now then s
  else
    let needsRehydrate := forceInitialSnapshot || versionChanged s
    let amp :=
      if needsRehydrate && !t.baselineUnreadable then rehydratePrinters s.baselines.printers amp
      else amp
    if t.factsReject || t.enqueueThrows then s
    else
      { s with
        snapshots := s.snapshots ++ [(s.ticks, amp)]
        lastSentAgentVersion :=
          if t.storesVersion then some s.agentVersion else s.lastSentAgentVersion
        lastSentFactsAt := if t.storesTime then some t.now else s.lastSentFactsAt
        initialInventorySent := true }

def runInventory : Agent :=
  if t.providerThrows then s
  else
    let amp := t.pass.collect l printerNoiseKind s.baselines
    let s := collected l printerNoiseKind s t
    if t.runRejects then s else send s t amp

/-- Ticks, restarts, perhaps with another version, and the control plane's resets of a baseline. -/
inductive Event
  | tick (t : Tick)
  | restart (agentVersion : Str)
  | clearPrinterBaseline
  | clearBrowserExtensionBaseline

def step : Event → Agent
  | .tick t => { runInventory l printerNoiseKind s t with ticks := s.ticks + 1 }
  | .restart agentVersion => { s with agentVersion := agentVersion, initialInventorySent := false }
  | .clearPrinterBaseline => { s with baselines := { s.baselines with printers := .empty } }
  | .clearBrowserExtensionBaseline => { s with baselines := { s.baselines with extensions := .empty } }

end Tick

def machine (l : Locale) (printerNoiseKind : Printer → Bool) (agentVersion : Str) :
    Machine Agent Event where
  init := ⟨agentVersion, ⟨.empty, .empty⟩, false, none, none, 0, [], [], []⟩
  step := step l printerNoiseKind

/-! ## What is sent -/

def AmpNamespace.TellsPrinter (l : Locale) (amp : AmpNamespace) (change : Change Printer) : Prop :=
  ∃ printers, amp.printers = some printers ∧ printers.inventory.Tells (printer l) change

def AmpNamespace.TellsExtension (amp : AmpNamespace) (change : Change BrowserExtension) : Prop :=
  ∃ extensions, amp.browserExtensions = some extensions ∧ extensions.inventory.Tells browserExtension change

/-- Every change of a baseline is in a snapshot of its tick or of a later one. -/
structure Agent.Sent (l : Locale) (s : Agent) : Prop where
  printers : ∀ n change, (n, change) ∈ s.printerChanges →
    ∃ m amp, n ≤ m ∧ (m, amp) ∈ s.snapshots ∧ amp.TellsPrinter l change
  extensions : ∀ n change, (n, change) ∈ s.extensionChanges →
    ∃ m amp, n ≤ m ∧ (m, amp) ∈ s.snapshots ∧ amp.TellsExtension change

/-- Nothing fails between the end of the provider and the end of the enqueue. -/
def Tick.getsThrough (t : Tick) : Bool :=
  !(t.runRejects || t.stateUnreadable || t.factsReject || t.enqueueThrows)

/-- A tick that changes a baseline gets through with its inventories. -/
def HandsOver (l : Locale) (printerNoiseKind : Printer → Bool) (s : Agent) : Event → Prop
  | .tick t =>
    t.providerThrows = true ∨ ((t.printers l printerNoiseKind s).applied = [] ∧ (t.extensions l s).applied = []) ∨
      (t.getsThrough = true ∧ t.pass.isDropped = false ∧
        (t.printers l printerNoiseKind s).isTorn = false ∧ (t.extensions l s).isTorn = false)
  | _ => True

section Lemmas

variable {α : Type*} {a : Asset α} {l : Locale} {printerNoiseKind : Printer → Bool} {s : Agent}
  {t : Tick}

/-- A list that was filled tells what the inventory told. -/
theorem Inventory.Tells.rehydrate {i : Inventory α} {change : Change α} (h : i.Tells a change)
    (b : Baseline α) : (Amp.rehydrate b i).Tells a change := by
  unfold Amp.rehydrate
  dsimp only
  split
  next hempty =>
    have hitems : i.items = none := by
      simp only [and_eq_true, Option.isNone_iff_eq_none] at hempty
      exact hempty.1
    cases change with
    | upsert row =>
      rcases h with ⟨rows, hrows, _⟩ | hdelta
      · rw [hitems] at hrows
        cases hrows
      · exact .inr hdelta
    | delete id =>
      rcases h with ⟨rows, hrows, _⟩ | hdelta
      · rw [hitems] at hrows
        cases hrows
      · exact .inr hdelta
  · exact h

/-- A pass that is not torn and did something has a report, which tells it. -/
theorem Built.Reports.exists_inventory {r : Built α} (h : r.Reports a) (htorn : r.isTorn = false)
    {change : Change α} (hchange : change ∈ r.applied) :
    ∃ i, r.inventory = some i ∧ i.hasChanges ∧ i.Tells a change := by
  unfold Built.isTorn at htorn
  cases hinventory : r.inventory with
  | none =>
    rw [hinventory] at htorn
    have hnone : r.applied = [] := by simpa using htorn
    rw [hnone] at hchange
    cases hchange
  | some i => exact ⟨i, rfl, h i hinventory change hchange⟩

theorem AmpNamespace.TellsPrinter.rehydrate {amp : AmpNamespace} {change : Change Printer}
    (h : amp.TellsPrinter l change) (b : Baseline Printer) : (rehydratePrinters b amp).TellsPrinter l change := by
  obtain ⟨printers, hprinters, htells⟩ := h
  refine ⟨{ printers with inventory := Amp.rehydrate b printers.inventory }, ?_, htells.rehydrate b⟩
  unfold rehydratePrinters
  rw [hprinters]
  rfl

/-- What is sent when there are changes and nothing fails. -/
theorem send_of_changes {amp : AmpNamespace} (hthrough : t.getsThrough)
    (hchanges : namespacesHaveChanges amp) :
    ∃ sent, (send s t amp).snapshots = s.snapshots ++ [(s.ticks, sent)] ∧
      (∀ change, amp.TellsPrinter l change → sent.TellsPrinter l change) ∧
      ∀ change, amp.TellsExtension change → sent.TellsExtension change := by
  unfold Tick.getsThrough at hthrough
  simp only [not_eq_true', or_eq_false_iff] at hthrough
  obtain ⟨⟨⟨_, hstate⟩, hfacts⟩, henqueue⟩ := hthrough
  unfold send decideFactsSend
  rw [hstate, hfacts, henqueue, hchanges]
  refine ⟨_, rfl, ?_, ?_⟩
  · intro change htells
    split
    · exact htells.rehydrate _
    · exact htells
  · intro change htells
    split
    · exact htells
    · exact htells

/-- If a tick does nothing to the baselines, neither changes nor snapshots are taken back. -/
theorem Agent.Sent.mono {s' : Agent} (hs : s.Sent l) (hprinters : s'.printerChanges = s.printerChanges)
    (hextensions : s'.extensionChanges = s.extensionChanges)
    (hsnapshots : s.snapshots ⊆ s'.snapshots) : s'.Sent l := by
  constructor
  · intro n change hchange
    rw [hprinters] at hchange
    obtain ⟨m, amp, hm, hamp, htells⟩ := hs.printers n change hchange
    exact ⟨m, amp, hm, hsnapshots hamp, htells⟩
  · intro n change hchange
    rw [hextensions] at hchange
    obtain ⟨m, amp, hm, hamp, htells⟩ := hs.extensions n change hchange
    exact ⟨m, amp, hm, hsnapshots hamp, htells⟩

theorem send_changes (amp : AmpNamespace) : (send s t amp).printerChanges = s.printerChanges ∧
      (send s t amp).extensionChanges = s.extensionChanges ∧ s.snapshots ⊆ (send s t amp).snapshots := by
  unfold send
  dsimp only
  split
  · exact ⟨rfl, rfl, Subset.refl _⟩
  · split
    · exact ⟨rfl, rfl, Subset.refl _⟩
    · split
      · exact ⟨rfl, rfl, Subset.refl _⟩
      · exact ⟨rfl, rfl, subset_append_left _ _⟩

/-- What a tick collected is in what it collects for the server, as changes. -/
theorem collect_tells (hdropped : t.pass.isDropped = false)
    (hprinters : (t.printers l printerNoiseKind s).isTorn = false) (hextensions : (t.extensions l s).isTorn = false) :
    (∀ change ∈ (t.printers l printerNoiseKind s).applied,
      namespacesHaveChanges (t.pass.collect l printerNoiseKind s.baselines) ∧
        (t.pass.collect l printerNoiseKind s.baselines).TellsPrinter l change) ∧
      ∀ change ∈ (t.extensions l s).applied,
        namespacesHaveChanges (t.pass.collect l printerNoiseKind s.baselines) ∧
          (t.pass.collect l printerNoiseKind s.baselines).TellsExtension change := by
  obtain ⟨hp, policy, he⟩ := Pass.collect_of_not_dropped l printerNoiseKind s.baselines hdropped
  constructor
  · intro change hchange
    obtain ⟨i, hi, hchanges, htells⟩ := Pass.reports_builtPrinters.exists_inventory hprinters hchange
    have hinventory := Pass.collectPrinters_of_built hi
    refine ⟨?_, _, hp, hinventory ▸ htells⟩
    unfold namespacesHaveChanges
    rw [hp, Option.any_some, hinventory, hchanges]
    simp only [Bool.or_true, Bool.true_or]
  · intro change hchange
    obtain ⟨i, hi, hchanges, htells⟩ := Pass.reports_builtExtensions.exists_inventory hextensions hchange
    have hinventory := Pass.collectExtensions_of_built hi
    refine ⟨?_, _, he, hinventory ▸ htells⟩
    unfold namespacesHaveChanges
    rw [he, Option.any_some, hinventory, hchanges]
    simp only [Bool.or_true, Bool.true_or]

/-- A snapshot that tells what the tick did to the baselines settles all of it. -/
theorem Agent.Sent.collected {amp : AmpNamespace} {s' : Agent} (hs : s.Sent l)
    (hprinters : s'.printerChanges = (collected l printerNoiseKind s t).printerChanges)
    (hextensions : s'.extensionChanges = (collected l printerNoiseKind s t).extensionChanges)
    (hsnapshots : s'.snapshots = s.snapshots ++ [(s.ticks, amp)])
    (htellsPrinters : ∀ change ∈ (t.printers l printerNoiseKind s).applied, amp.TellsPrinter l change)
    (htellsExtensions : ∀ change ∈ (t.extensions l s).applied, amp.TellsExtension change) : s'.Sent l := by
  have hsub : s.snapshots ⊆ s'.snapshots := by
    rw [hsnapshots]
    exact subset_append_left _ _
  have hmem : (s.ticks, amp) ∈ s'.snapshots := by
    rw [hsnapshots]
    exact mem_append_right _ mem_cons_self
  constructor
  · intro n change hchange
    rw [hprinters] at hchange
    rcases mem_append.mp hchange with hold | hnew
    · obtain ⟨m, amp, hm, hamp, htells⟩ := hs.printers n change hold
      exact ⟨m, amp, hm, hsub hamp, htells⟩
    · obtain ⟨_, happlied, rfl, rfl⟩ := mem_map.mp hnew
      exact ⟨s.ticks, amp, le_refl _, hmem, htellsPrinters _ happlied⟩
  · intro n change hchange
    rw [hextensions] at hchange
    rcases mem_append.mp hchange with hold | hnew
    · obtain ⟨m, amp, hm, hamp, htells⟩ := hs.extensions n change hold
      exact ⟨m, amp, hm, hsub hamp, htells⟩
    · obtain ⟨_, happlied, rfl, rfl⟩ := mem_map.mp hnew
      exact ⟨s.ticks, amp, le_refl _, hmem, htellsExtensions _ happlied⟩

theorem Agent.Sent.runInventory (hs : s.Sent l) (hguard : HandsOver l printerNoiseKind s (.tick t)) :
    (runInventory l printerNoiseKind s t).Sent l := by
  unfold Amp.runInventory
  split
  · exact hs
  next hruns =>
    rcases hguard with hthrows | ⟨hprinters, hextensions⟩ | ⟨hthrough, hdropped, hprinters, hextensions⟩
    · exact absurd hthrows hruns
    · -- nothing was done to the baselines, so it does not matter where the tick ends
      have hcollected : (Amp.collected l printerNoiseKind s t).Sent l := by
        apply hs.mono
        · unfold Amp.collected
          dsimp only
          rw [hprinters, map_nil, append_nil]
        · unfold Amp.collected
          dsimp only
          rw [hextensions, map_nil, append_nil]
        · exact Subset.refl _
      split
      · exact hcollected
      · obtain ⟨hp, he, hsnapshots⟩ := send_changes (s := Amp.collected l printerNoiseKind s t)
          (t := t) (t.pass.collect l printerNoiseKind s.baselines)
        exact hcollected.mono hp he hsnapshots
    · have hrun : t.runRejects = false := by
        simp only [Tick.getsThrough, not_eq_true', or_eq_false_iff] at hthrough
        exact hthrough.1.1.1
      rw [hrun, if_neg Bool.false_ne_true]
      obtain ⟨htp, hte⟩ := collect_tells hdropped hprinters hextensions
      obtain ⟨hp, he, hsnapshots⟩ := send_changes (s := Amp.collected l printerNoiseKind s t)
        (t := t) (t.pass.collect l printerNoiseKind s.baselines)
      by_cases hchanges : namespacesHaveChanges (t.pass.collect l printerNoiseKind s.baselines)
      · obtain ⟨sent, hsent, hsentPrinters, hsentExtensions⟩ :=
          send_of_changes (s := Amp.collected l printerNoiseKind s t) hthrough hchanges
        apply hs.collected hp he hsent
        · exact fun change hchange => hsentPrinters change (htp change hchange).2
        · exact fun change hchange => hsentExtensions change (hte change hchange).2
      · -- no changes are reported, so none were made
        apply Agent.Sent.mono (s := s) hs
        · rw [hp]
          unfold Amp.collected
          dsimp only
          rw [eq_nil_iff_forall_not_mem.mpr fun change hchange =>
            hchanges (htp change hchange).1, map_nil, append_nil]
        · rw [he]
          unfold Amp.collected
          dsimp only
          rw [eq_nil_iff_forall_not_mem.mpr fun change hchange =>
            hchanges (hte change hchange).1, map_nil, append_nil]
        · exact hsnapshots

theorem Agent.Sent.step {e : Event} (hs : s.Sent l) (hguard : HandsOver l printerNoiseKind s e) :
    (step l printerNoiseKind s e).Sent l := by
  cases e with
  | tick t => exact (hs.runInventory hguard).mono rfl rfl (Subset.refl _)
  | restart agentVersion => exact hs.mono rfl rfl (Subset.refl _)
  | clearPrinterBaseline => exact hs.mono rfl rfl (Subset.refl _)
  | clearBrowserExtensionBaseline => exact hs.mono rfl rfl (Subset.refl _)

end Lemmas

/-! ## Runs -/

/-- If every tick that changes a baseline hands over what it did, nothing is lost. -/
theorem guarded_sent (l : Locale) (printerNoiseKind : Printer → Bool) (agentVersion : Str) {tr : List Event}
    (hguard : (machine l printerNoiseKind agentVersion).Guarded (HandsOver l printerNoiseKind) tr) :
    (machine l printerNoiseKind agentVersion).Always (Agent.Sent l) tr := by
  refine Machine.Guarded.always ?_ ?_ hguard
  · constructor
    · intro n change hchange
      cases hchange
    · intro n change hchange
      cases hchange
  · exact fun s e hs he => hs.step he

section Samples

def sampleLocale : Locale := ⟨fun x y => decide (x ≤ y), id⟩

def samplePrinter (queue : Str) : Printer :=
  { installId := text "cups:" ++ queue
    name := queue
    source := .cups
    driver := none
    port := some (text "socket://10.0.0.5")
    isDefault := false
    isNetwork := true
    isShared := false
    shareName := none
    hostAddress := some (text "10.0.0.5")
    location := none
    comments := none
    status := some .online
    detectedAtUtc := text "2026-10-01T00:00:00.000Z" }

/-- A tick on a Mac that finds these printers. Its snapshot may fail. -/
def sampleTick (printers : List Printer) (now : Int) (factsReject : Bool) : Tick :=
  { pass :=
      { platform := .darwin
        printers := some (printers, ⟨[], []⟩)
        printerFaults := ⟨false, false⟩
        extensionPolicy := []
        extensions := some ⟨[], .unavailable, 0, 0⟩
        extensionFaults := ⟨false, false⟩
        software := .inventory false }
    now := now
    providerThrows := false
    runRejects := false
    stateUnreadable := false
    baselineUnreadable := false
    factsReject := factsReject
    enqueueThrows := false
    storesVersion := true
    storesTime := true }

/-- A printer is added while the agent runs, and then nothing changes. -/
def sampleRun (factsReject : Bool) : List Event :=
  [.tick (sampleTick [samplePrinter (text "hall")] 1000 false),
    .tick (sampleTick [samplePrinter (text "hall"), samplePrinter (text "desk")] 2000 factsReject),
    .tick (sampleTick [samplePrinter (text "hall"), samplePrinter (text "desk")] 3000 false)]

def sampleMachine : Machine Agent Event :=
  machine sampleLocale (fun _ => false) (text "1.2.0")

end Samples

/-- The second snapshot has the printer that was added. -/
theorem guarded_sent_added : sampleMachine.Always (Agent.Sent sampleLocale) (sampleRun false) ∧
      (sampleMachine.run (sampleRun false)).snapshots.map Prod.fst = [0, 1] := by
  constructor
  · apply guarded_sent
    refine Machine.guarded_iff_guardedFrom.mpr ⟨?_, ?_, ?_, trivial⟩
    · exact .inr (.inr (by decide))
    · exact .inr (.inr (by decide +kernel))
    · exact .inr (.inr (by decide +kernel))
  · decide +kernel

/-- The facts of the second tick cannot be built, and the third one sees no change. -/
theorem not_guarded_sent_rejected :
    ¬ ∀ (l : Locale) (printerNoiseKind : Printer → Bool) (agentVersion : Str) (tr : List Event),
      (machine l printerNoiseKind agentVersion).Always (Agent.Sent l) tr := by
  intro hall
  have hsent := (hall sampleLocale (fun _ => false) (text "1.2.0") (sampleRun true)).last
  have hchange : (1, Change.upsert (samplePrinter (text "desk"))) ∈
      (sampleMachine.run (sampleRun true)).printerChanges := by decide +kernel
  have hold : (sampleMachine.run (sampleRun true)).snapshots.all (fun e => e.1 = 0) := by
    decide +kernel
  obtain ⟨m, amp, hm, hamp, _⟩ := hsent.printers _ _ hchange
  have hzero := of_decide_eq_true (all_eq_true.mp hold _ hamp)
  omega

end Amp
