-- SUMMARY: The two locks of the operations on patches: no two privileged calls that change the device at a time, and when a flag is left up.
import Tracenium.Lib.Locks
import Tracenium.Pmp.Jobs

/-!
`_patchInstallInProgress` and `remediateInFlight` are the flags of two locks, of which an operation holds
one at most. The start of a patch install raises its flag before the `try` that takes it down.
-/

open Utf16 Function

namespace Pmp

open State Phase

/-- A call that changes the device: `patch.install`, or `pmp.remediate` and `pmp.revert`. -/
inductive Call
  | patchInstall
  | remediation
  deriving DecidableEq

def Phase.call : Phase → Option Call
  | .installing _ => some .patchInstall
  | .remediating _ => some .remediation
  | .reverting _ => some .remediation
  | .passRemediating _ => some .remediation
  | _ => none

def Phase.executing : Phase → Bool
  | .absent => false
  | .over => false
  | _ => true

/-- Of the operations, one waits for a call that changes the device, at most. -/
def Excludes (s : State) : Prop :=
  ∀ i j, (s.phases i).call ≠ none → (s.phases j).call ≠ none → i = j

/-- Without an operation no flag is up. -/
def Releases (s : State) : Prop :=
  (∀ n, (s.phases n).executing = false) → s.installing = false ∧ s.remediating = false

/-! ## The locks -/

def Phase.lock : Phase → Option Lock
  | .baseline _ => some .install
  | .installing _ => some .install
  | .facts _ _ => some .install
  | .unblocking _ _ => some .install
  | .rebooting _ _ _ => some .install
  | .batch _ => some .remediate
  | .reading _ _ => some .remediate
  | .remediating _ => some .remediate
  | .reverting _ => some .remediate
  | .rereading _ => some .remediate
  | .passRemediating _ => some .remediate
  | _ => none

theorem Phase.exists_lock_of_call {p : Phase} (h : p.call ≠ none) : ∃ l, p.lock = some l := by
  cases p <;> simp_all [call, lock]

theorem Phase.executing_of_lock {p : Phase} {l : Lock} (h : p.lock = some l) : p.executing := by
  cases p <;> simp_all [executing, lock]

theorem Phase.lock_gone (p : Phase) : p.gone.lock = none := by
  cases p <;> rfl

def State.up (s : State) : Lock → Bool
  | .install => s.installing
  | .remediate => s.remediating

def State.holds (s : State) (n : Nat) : Option Lock := (s.phases n).lock

/-- What a step does to the locks. -/
def Moves (Leaks : Prop) (s s' : State) : Prop :=
  Locks.Step Leaks s.up s.holds s'.up s'.holds

theorem holds_of_phases {s s' : State} {n : Nat} {p : Phase} (hphases : s'.phases = update s.phases n p) :
    s'.holds = update s.holds n p.lock := by
  funext m
  by_cases hm : m = n
  · simp [holds, hphases, hm]
  · simp [holds, hphases, hm]

theorem free_of_locked {s : State} (h : s.locked = false) (l : Lock) : s.up l = false := by
  cases l <;> simp_all [locked, up]

section Moves

variable {Leaks : Prop} {s s' : State} {n : Nat} {p : Phase}

theorem Moves.refl (s : State) : Moves Leaks s s := .keep

/-- The operation goes on with the lock it has. -/
theorem Moves.keep {l : Option Lock} (hheld : (s.phases n).lock = l)
    (hphases : s'.phases = update s.phases n p) (hlock : p.lock = l) (hinstalling : s'.installing = s.installing)
    (hremediating : s'.remediating = s.remediating) : Moves Leaks s s' := by
  have hholds : s'.holds = s.holds := by
    rw [holds_of_phases hphases, hlock, ← hheld]
    exact update_eq_self n s.holds
  have hup : s'.up = s.up := by
    funext l
    cases l <;> simp [up, hinstalling, hremediating]
  unfold Moves
  rw [hholds, hup]
  exact .keep

theorem Moves.take {l : Lock} (hfree : s.locked = false) (hlock : p.lock = some l) (hup : s'.up = update s.up l true)
    (hphases : s'.phases = update s.phases n p) : Moves Leaks s s' := by
  unfold Moves
  rw [holds_of_phases hphases, hlock, hup]
  exact .take n l (free_of_locked hfree)

theorem Moves.release {l : Lock} (hheld : (s.phases n).lock = some l) (hlock : p.lock = none)
    (hup : s'.up = update s.up l false) (hphases : s'.phases = update s.phases n p) : Moves Leaks s s' := by
  unfold Moves
  rw [holds_of_phases hphases, hlock, hup]
  exact .release n l hheld

theorem up_installing (s : State) (up : Bool) (record : PmpRemediationState)
    (phases : Nat → Phase) (history : List Entry) :
    State.up ⟨record, up, s.remediating, phases, history⟩ = update s.up .install up := by
  funext l
  cases l <;> simp [State.up]

theorem up_remediating (s : State) (up : Bool) (record : PmpRemediationState)
    (phases : Nat → Phase) (history : List Entry) :
    State.up ⟨record, s.installing, up, phases, history⟩ = update s.up .remediate up := by
  funext l
  cases l <;> simp [State.up]

/-! ## Patch installs -/

variable {job : PatchInstall}

theorem Moves.conclude {ack : Jobs.Ack} {t : State}
    (hheld : (s.phases n).lock = some .install) (hphases : t.phases = s.phases)
    (hremediating : t.remediating = s.remediating) : Moves Leaks s (t.conclude n job ack).state := by
  refine .release (p := .over) hheld rfl ?_ ?_
  · rw [← up_installing s false t.record _ t.history, ← hremediating]
    rfl
  · rw [← hphases]
    rfl

theorem moves_caught {e : Thrown} {w : Write} {t : State}
    (hheld : (s.phases n).lock = some .install) (hphases : t.phases = s.phases)
    (hremediating : t.remediating = s.remediating) : Moves Leaks s (caught t n job e w).state := by
  unfold caught
  split
  · exact .conclude hheld hphases hremediating
  · exact .conclude hheld hphases hremediating

variable {w last : Write}

/-- The run goes on after its write, or ends. -/
theorem moves_settle {patch : Patch} {next : State → Segment} (hheld : (s.phases n).lock = some .install)
    (hnext : ∀ t : State, t.phases = s.phases → t.remediating = s.remediating →
      t.installing = s.installing → Moves Leaks s (next t).state) :
    Moves Leaks s (settle s n job patch w last next).state := by
  unfold settle
  split
  · exact hnext _ rfl rfl rfl
  · exact moves_caught hheld rfl rfl

theorem moves_onReply {reply : InstallReply}
    (hheld : (s.phases n).lock = some .install) : Moves Leaks s (onReply s n job reply w last).state := by
  unfold onReply
  split
  · exact moves_caught hheld rfl rfl
  · exact moves_settle hheld fun t hphases hremediating _ => .conclude hheld hphases hremediating
  · split
    · exact moves_settle hheld fun t hphases hremediating _ => .conclude hheld hphases hremediating
    · refine moves_settle hheld fun t hphases hremediating hinstalling => ?_
      exact .keep hheld (by rw [← hphases]; rfl) rfl hinstalling hremediating

variable {h : Host} {r : InstallResult}

theorem moves_acknowledge {suffix : Str} {refused : Bool} (hheld : (s.phases n).lock = some .install) :
    Moves Leaks s (acknowledge h s n job r suffix refused w last).state := by
  unfold acknowledge
  split
  · dsimp only
    split
    · exact .conclude hheld rfl rfl
    · exact moves_caught hheld rfl rfl
  · exact .conclude hheld rfl rfl

theorem moves_onPlan {refused : Bool} (hheld : (s.phases n).lock = some .install) :
    Moves Leaks s (onPlan h s n job r refused w last).state := by
  unfold onPlan
  dsimp only
  split
  · exact .keep hheld rfl rfl rfl rfl
  · exact moves_acknowledge hheld

theorem moves_onFacts
    (hheld : (s.phases n).lock = some .install) : Moves Leaks s (onFacts h s n job r w last).state := by
  unfold onFacts
  split
  · exact .keep hheld rfl rfl rfl rfl
  · exact moves_onPlan hheld

theorem moves_onUnblocked {armed : Except Thrown Bool} (hheld : (s.phases n).lock = some .install) :
    Moves Leaks s (onUnblocked h s n job r armed w last).state := by
  unfold onUnblocked
  split
  · exact moves_caught hheld rfl rfl
  · exact moves_settle hheld fun t hphases hremediating _ => .conclude hheld hphases hremediating
  · exact moves_onPlan hheld

theorem moves_onRebooted {refused : Bool} {armed : Except Thrown Bool} (hheld : (s.phases n).lock = some .install) :
    Moves Leaks s (onRebooted h s n job r refused armed w last).state := by
  unfold onRebooted
  split
  · exact moves_caught hheld rfl rfl
  · exact moves_acknowledge hheld

/-- A job that does not start holds nothing. -/
theorem moves_refuse {jobId : Str} {ack : Jobs.Ack} {t : State} (hheld : (s.phases n).lock = none)
    (hphases : t.phases = s.phases) (hinstalling : t.installing = s.installing)
    (hremediating : t.remediating = s.remediating) : Moves Leaks s (t.refuse n jobId ack).state :=
  .keep hheld (by rw [← hphases]; rfl) rfl hinstalling hremediating

end Moves

/-- A job that gets past its guards, its record and its checks writes that it starts. -/
def StartWorks (h : Host) (s : State) : Event → Prop
  | .task (.install n o g w) =>
    s.phases n = .absent → refusal s o g = none → replayForRedispatch w s.record o.jobId = .none →
      (∃ job, validate h o = .ok job) → w = .works
  | _ => True

section Tasks

variable {Leaks : Prop} {h : Host} {s : State} {n : Nat}

theorem locked_of_refusal {o : Order} {g : Guards} (h : refusal s o g = none) : s.locked = false := by
  unfold refusal at h
  split_ifs at h
  simp_all [locked]

theorem moves_start {t : State} {job : PatchInstall} {w : Write} (hfree : s.locked = false)
    (hphases : t.phases = s.phases) (hremediating : t.remediating = s.remediating)
    (hleaks : w = .works ∨ Leaks) (habsent : s.phases n = .absent) : Moves Leaks s (start t n job w).state := by
  have hholds : (s.phases n).lock = none := by simp [habsent, Phase.lock]
  have hup : ∀ (record : PmpRemediationState) (phases : Nat → Phase) (history : List Entry),
      up ⟨record, true, t.remediating, phases, history⟩ = update s.up .install true := by
    intro record phases history
    rw [hremediating]
    exact up_installing s true record phases history
  unfold start
  dsimp only
  split
  · -- the write throws: the job is over, and nothing takes the flag down
    rename_i e hwrite
    have hthrows : Leaks := by
      refine hleaks.resolve_left fun hworks => ?_
      subst hworks
      simp [updatePmpState, savePmpState] at hwrite
    have hkept : ∀ record history, holds ⟨record, true, t.remediating,
        update t.phases n .over, history⟩ = s.holds := by
      intro record history
      rw [holds_of_phases (s := s) (n := n) (p := .over) (by rw [← hphases])]
      rw [show lock .over = s.holds n from hholds.symm]
      exact update_eq_self n s.holds
    unfold Moves
    simp only [refuse, goto]
    rw [hup, hkept]
    exact .leak Lock.install (free_of_locked hfree) hthrows
  · split
    · exact .take hfree rfl (hup _ _ _) (by rw [← hphases]; rfl)
    · exact .take hfree rfl (hup _ _ _) (by rw [← hphases]; rfl)

theorem moves_onInstall {o : Order} {g : Guards} {w : Write} (habsent : s.phases n = .absent)
    (hleaks : StartWorks h s (.task (.install n o g w)) ∨ Leaks) : Moves Leaks s (onInstall h s n o g w).state := by
  have hheld : (s.phases n).lock = none := by simp [habsent, Phase.lock]
  unfold onInstall
  split
  · exact moves_refuse hheld rfl rfl rfl
  · rename_i hrefusal
    split
    · exact moves_refuse hheld rfl rfl rfl
    · exact moves_refuse hheld rfl rfl rfl
    · exact moves_refuse hheld rfl rfl rfl
    · rename_i hreplay
      split
      · exact moves_refuse hheld rfl rfl rfl
      · rename_i job hjob
        refine moves_start (locked_of_refusal hrefusal) rfl rfl ?_ habsent
        rcases hleaks with hworks | hleaks
        · exact .inl (hworks habsent hrefusal hreplay ⟨job, hjob⟩)
        · exact .inr hleaks

/-! ## Remediations -/

theorem moves_lock {p : Phase} (hfree : s.locked = false) (hlock : p.lock = some .remediate) :
    Moves Leaks s (s.lock n p) :=
  .take hfree hlock (up_remediating s true _ _ _) rfl

theorem moves_unlock {p : Phase} (hheld : (s.phases n).lock = some .remediate) (hlock : p.lock = none) :
    Moves Leaks s (s.unlock n p) :=
  .release hheld hlock (up_remediating s false _ _ _) rfl

theorem moves_runOne {f : Fix} {pluginEnabled : Bool} (hheld : (s.phases n).lock = none) :
    Moves Leaks s (runOne h s n f pluginEnabled) := by
  unfold runOne
  split
  · exact .keep hheld rfl rfl rfl rfl
  · split
    · exact .keep hheld rfl rfl rfl rfl
    · rename_i hfree
      exact moves_lock (by simpa using hfree) rfl

theorem moves_runRemediationBatch {items : List Fix} (hheld : (s.phases n).lock = none) :
    Moves Leaks s (runRemediationBatch s n items) := by
  unfold runRemediationBatch
  split
  · exact .keep hheld rfl rfl rfl rfl
  · split
    · exact .keep hheld rfl rfl rfl rfl
    · rename_i hfree
      exact moves_lock (by simpa using hfree) rfl

theorem moves_nextItem {items : List Fix} {pluginEnabled : Bool} (hheld : (s.phases n).lock = some .remediate) :
    Moves Leaks s (nextItem h s n items pluginEnabled) := by
  unfold nextItem
  split
  · exact moves_unlock hheld rfl
  · split
    · exact .keep hheld rfl rfl rfl rfl
    · exact .keep hheld rfl rfl rfl rfl

theorem moves_endFix {rest : Option (List Fix)} (hheld : (s.phases n).lock = some .remediate) :
    Moves Leaks s (endFix s n rest) := by
  unfold endFix
  split
  · exact moves_unlock hheld rfl
  · exact .keep hheld rfl rfl rfl rfl

theorem moves_onRead {f : Fix} {rest : Option (List Fix)} {reply : ReadReply}
    (hheld : (s.phases n).lock = some .remediate) : Moves Leaks s (onRead s n f rest reply) := by
  unfold onRead
  split
  · exact .keep hheld rfl rfl rfl rfl
  · exact .keep hheld rfl rfl rfl rfl
  · exact moves_endFix hheld

theorem moves_onApplied {rest : Option (List Fix)} {reply : ApplyReply}
    (hheld : (s.phases n).lock = some .remediate) : Moves Leaks s (onApplied s n rest reply) := by
  unfold onApplied
  split
  · exact .keep hheld rfl rfl rfl rfl
  · exact moves_endFix hheld

theorem moves_nextEntry {entries : Nat} {resolved : Resolved} (hheld : (s.phases n).lock = none) :
    Moves Leaks s (nextEntry s n entries resolved) := by
  unfold nextEntry
  split <;> exact .keep hheld rfl rfl rfl rfl

theorem moves_onPassRead {mode : Resolved} {entries : Nat} {reply : ReadReply}
    (hheld : (s.phases n).lock = none) : Moves Leaks s (onPassRead s n mode entries reply) := by
  unfold onPassRead
  split
  · exact .keep hheld rfl rfl rfl rfl
  · exact .keep hheld rfl rfl rfl rfl
  · split
    · exact .keep hheld rfl rfl rfl rfl
    · rename_i hfree
      refine moves_lock ?_ rfl
      simp_all

theorem moves_onPassApplied {entries : Nat} {reply : ApplyReply}
    (hheld : (s.phases n).lock = some .remediate) : Moves Leaks s (onPassApplied s n entries reply) := by
  unfold onPassApplied
  split
  · exact moves_unlock hheld rfl
  · exact moves_unlock hheld rfl

/-! ## Steps -/

theorem moves_segment {t : Task} (hleaks : StartWorks h s (.task t) ∨ Leaks) :
    Moves Leaks s (segment h s t).state := by
  have hlock : ∀ {p : Phase} {l : Option Lock}, s.phases t.id = p → p.lock = l →
      (s.phases t.id).lock = l := by
    intro p l hp hl
    rw [hp, hl]
  unfold segment onPhase
  split <;> rename_i hphase
  · exact moves_onInstall hphase hleaks
  · split
    · exact .keep (hlock hphase rfl) rfl rfl rfl rfl
    · exact moves_runOne (hlock hphase rfl)
  · split
    · exact .keep (hlock hphase rfl) rfl rfl rfl rfl
    · exact moves_runRemediationBatch (hlock hphase rfl)
  · exact .keep (hlock hphase rfl) rfl rfl rfl rfl
  · exact .keep (hlock hphase rfl) rfl rfl rfl rfl
  · exact moves_runOne (hlock hphase rfl)
  · exact moves_runRemediationBatch (hlock hphase rfl)
  · exact moves_onReply (hlock hphase rfl)
  · exact moves_onFacts (hlock hphase rfl)
  · exact moves_onUnblocked (hlock hphase rfl)
  · exact moves_onRebooted (hlock hphase rfl)
  · exact moves_nextItem (hlock hphase rfl)
  · exact moves_onRead (hlock hphase rfl)
  · exact moves_onApplied (hlock hphase rfl)
  · exact moves_onApplied (hlock hphase rfl)
  · exact moves_endFix (hlock hphase rfl)
  · exact moves_nextEntry (hlock hphase rfl)
  · exact moves_onPassRead (hlock hphase rfl)
  · exact moves_onPassApplied (hlock hphase rfl)
  · exact .refl s

theorem moves_boot {left : State} {w : Write} : Moves Leaks s (boot left w) := by
  have hup : (boot left w).up = fun _ => false := by
    funext l
    cases l <;> rfl
  have hholds : (boot left w).holds = fun _ => none := by
    funext n
    exact (left.phases n).lock_gone
  unfold Moves
  rw [hup, hholds]
  exact .reset

theorem moves_send {o : Segment} (hmoves : Moves Leaks s o.state) : Moves Leaks s (send o) := by
  unfold send
  split <;> exact hmoves

/-- What an event does to the locks; only a start that is not written leaves a flag behind. -/
theorem moves_step (h : Host) (s : State) (e : Event) : Moves (¬ StartWorks h s e) s (step h s e) := by
  cases e with
  | task t => exact moves_send (moves_segment (Classical.em _))
  | crash during w => cases during <;> exact moves_boot

end Tasks

/-! ## Runs -/

def Sound (s : State) : Prop := Locks.Sound s.up s.holds

theorem Sound.excludes {s : State} (hs : Sound s) : Excludes s := by
  intro i j hi hj
  obtain ⟨k, hk⟩ := exists_lock_of_call hi
  obtain ⟨l, hl⟩ := exists_lock_of_call hj
  exact hs.alone hk hl

theorem releases_of_exact {s : State} (hs : Locks.Exact s.up s.holds) : Releases s := by
  intro hidle
  have hdown : ∀ l, s.up l = false := by
    intro l
    by_contra hup
    obtain ⟨n, hn⟩ := hs.owned (by simpa using hup)
    simpa [hidle n] using executing_of_lock hn
  exact ⟨hdown .install, hdown .remediate⟩

theorem exact_init (h : Host) : Locks.Exact (machine h).init.up (machine h).init.holds := by
  have hup : (machine h).init.up = fun _ => false := by
    funext l
    cases l <;> rfl
  rw [hup]
  exact Locks.Exact.idle

theorem Sound.step {h : Host} {s : State} (hs : Sound s) (e : Event) : Sound (step h s e) :=
  Locks.Sound.step hs (moves_step h s e)

/-- No two calls that change the device, whatever fails. -/
theorem always_excludes (h : Host) (tr : List Event) : (machine h).Always Excludes tr := by
  have hguard : (machine h).Guarded (fun _ _ => True) tr := fun _ _ _ => trivial
  exact (hguard.always (exact_init h).toSound fun s e hs _ => Sound.step hs e).mono fun s hs => hs.excludes

/-- The operations exclude each other in every run, and in every run whose installs write that they
start no flag is left up. -/
theorem always_excludes_releases (h : Host) (tr : List Event) (hstart : (machine h).Guarded (StartWorks h) tr) :
    (machine h).Always Excludes tr ∧ (machine h).Always Releases tr := by
  refine ⟨always_excludes h tr, ?_⟩
  have hexact : (machine h).Always (fun s => Locks.Exact s.up s.holds) tr :=
    hstart.always (exact_init h) fun s e hs hworks =>
      Locks.Exact.step hs (moves_step h s e) (not_not_intro hworks)
  exact hexact.mono fun s hs => releases_of_exact hs

/-! ## Sample runs -/

def windowsHost : Host where
  lower := List.map fun u => if 0x41 ≤ u && u ≤ 0x5A then u + 0x20 else u
  safePatchId id := id.take 2 = text "KB" && (id.drop 2).all Json.isDigit
  notRemediable checkId :=
    if checkId = text "windows.smb.v1_disabled" then none else some (text "unknown_check_id")
  isLocal p := p = text "windows"

def allowed : Guards := ⟨true, true, false⟩

def orderOf (jobId : Str) : Order := ⟨jobId, text "install", false, [text "KB5031356"]⟩

def sampleFix : Fix := ⟨some 7, text "windows.smb.v1_disabled", some .apply, false, some (text "windows")⟩

def installedOne : InstallResult :=
  ⟨text "success", 1, 0, false, [⟨none, some (text "KB5031356"), none⟩], none⟩

def alternatingRun : List Event :=
  [.task (.install 0 (orderOf (text "j1")) allowed .works), .task (.remediate 1 sampleFix false true),
    .task (.baseline 0 true), .task (.reply 0 (.done installedOne) .works .works),
    .task (.facts 0 .works .works), .task (.remediate 2 sampleFix false true),
    .task (.read 2 (.read false false)), .task (.applied 2 .applied), .task (.reread 2)]

theorem always_excludes_releases_alternatingRun : (machine windowsHost).Always Excludes alternatingRun ∧
      (machine windowsHost).Always Releases alternatingRun := by
  refine always_excludes_releases windowsHost alternatingRun (Machine.guarded_iff_guardedFrom.mpr ?_)
  exact ⟨fun _ _ _ _ => rfl, trivial, trivial, trivial, trivial, trivial, trivial, trivial, trivial, trivial⟩

def unwrittenRun : List Event :=
  [.task (.install 0 (orderOf (text "j1")) allowed (.throws ⟨text "ENOSPC: no space left on device", []⟩))]

/-- The install is over, and its flag is still up. -/
theorem not_always_releases_unwrittenRun : ¬ ((machine windowsHost).Always Excludes unwrittenRun ∧
      (machine windowsHost).Always Releases unwrittenRun) := by
  rintro ⟨-, h⟩
  have hidle : ∀ n, (((machine windowsHost).run unwrittenRun).phases n).executing = false := by
    intro n
    cases n <;> rfl
  have hup : ((machine windowsHost).run unwrittenRun).installing := by decide
  have hdown := (h.last hidle).1
  cases hdown

end Pmp
