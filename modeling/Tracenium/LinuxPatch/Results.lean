-- SUMMARY: What a Linux patch install reports of every selected item, under which requested id, and what the agent adds.
import Tracenium.LinuxPatch.Install

/-!
`installApt`, `installDnf` and `handlePatchInstall` of `privsvc/linux/src/patch-management.ts`, from the exit code and
the output of the package manager to the entries of the answer, and `unmatchedRequested` of
`src/plugins/pmp/patch-selection.ts`. The counts of the answer are not part of it.
-/

open Utf16 Json Words
open Hardening (space)

namespace LinuxPatch.Account

/-! ## The answer -/

inductive ItemResult
  | installed
  | downloaded
  | failed
  deriving DecidableEq

structure Entry where
  /-- The item that the entry is made from. It is not sent. -/
  item : Placed
  updateId : Str
  title : Str
  result : ItemResult
  message : Option Str
  kb : Option Str
  deriving DecidableEq

inductive Status
  | success
  | partly
  | failed
  | noUpdates
  | busy
  deriving DecidableEq

structure InstallResult where
  status : Status
  results : List Entry
  deriving DecidableEq

/-- `eachAs`. An empty message is left out. -/
def eachAs (items : List Placed) (result : ItemResult) (message : Str) : List Entry :=
  items.map fun it => ⟨it, it.item.hotFixId, it.item.title, result, if message = [] then none else some message, none⟩

def UNRESOLVED_REASON : Str :=
  text "not present in the live upgradable list — it may already be installed, or the " ++
    text "scan behind this list is stale; re-scan the device and check again"

/-! ## The package manager -/

structure Outcome where
  /-- `none` if it was killed. -/
  code : Option Nat
  stdout : Str
  stderr : Str
  /-- The packages that it configured, dependencies among them. -/
  configured : List Str

def isLineEnd (u : UInt16) : Bool := u == lf || u == 0x0D || u == 0x2028 || u == 0x2029

/-- `/^Setting up /gm`. -/
def setUpLines (stdout : Str) : List Str :=
  (stdout.splitOnP isLineEnd).filter fun line => (text "Setting up ").isPrefixOf line

def settingUp (line : Str) : Str := before (· == space) (line.drop 11)

def lastLines (n : Nat) (s : Str) : Str :=
  let ls := s.splitOn lf
  ((ls.drop (ls.length - n)).intersperse (text " | ")).flatten

def exited (bin : Str) (code : Option Nat) : Str :=
  bin ++ text " exited " ++ (code.map decimal).getD (text "null")

def successResult : Mode → ItemResult
  | .install => .installed
  | .download => .downloaded

/-! ## apt-get -/

structure AptHost where
  /-- Who holds the lock. -/
  holder : Option Str
  /-- dpkg was interrupted, and the repair failed. -/
  repairFailure : Option Str
  fresh : List ScanItem
  outcome : Outcome
  /-- Every package that is configured is printed. -/
  printed : ((setUpLines outcome.stdout).map settingUp).Perm outcome.configured

namespace AptHost

variable (w : AptHost) (mode : Mode) (selectedItems : List Placed)

def packageNames : List Str := (selectedItems.filterMap fun it => resolve w.fresh it.item).eraseDups

def unresolved : List Placed := selectedItems.filter fun it => (resolve w.fresh it.item).isNone

def sent : List Placed := selectedItems.filter fun it => (resolve w.fresh it.item).isSome

/-- Some of the packages are set up, and not as many as there are names. -/
def someSetUp : Bool :=
  0 < (setUpLines w.outcome.stdout).length &&
    (setUpLines w.outcome.stdout).length < (w.packageNames selectedItems).length

def results : InstallResult :=
  match w.holder with
  | some holder => ⟨.busy, eachAs selectedItems .failed (text "lock_busy:" ++ holder)⟩
  | none =>
    match if mode = .install then w.repairFailure else none with
    | some tail =>
      ⟨.failed, eachAs selectedItems .failed ((text "dpkg_interrupted_repair_failed: " ++ tail).take 300)⟩
    | none =>
      if w.packageNames selectedItems = [] then ⟨.failed, eachAs selectedItems .failed UNRESOLVED_REASON⟩
      else if w.outcome.code = some 0 then
        if w.unresolved selectedItems = [] then ⟨.success, eachAs selectedItems (successResult mode) []⟩
        else
          ⟨.partly, eachAs (w.sent selectedItems) (successResult mode) [] ++
            eachAs (w.unresolved selectedItems) .failed UNRESOLVED_REASON⟩
      else
        let failedTail := lastLines 5 w.outcome.stderr
        if w.someSetUp selectedItems then
          let setUpCount := (setUpLines w.outcome.stdout).length
          ⟨.partly, (selectedItems.take setUpCount).map
              (fun it => ⟨it, it.item.hotFixId, it.item.title, successResult mode, none, none⟩) ++
            (selectedItems.drop setUpCount).map
              fun it => ⟨it, it.item.hotFixId, it.item.title, .failed, some failedTail, none⟩⟩
        else
          ⟨.failed, eachAs selectedItems .failed
            (if failedTail = [] then exited (text "apt-get") w.outcome.code else failedTail)⟩

def runs : Bool :=
  w.holder.isNone && (mode == .download || w.repairFailure.isNone) && !(w.packageNames selectedItems).isEmpty

end AptHost

/-! ## dnf -/

structure DnfHost where
  /-- There is a dnf or a yum. -/
  binary : Bool
  outcome : Outcome

namespace DnfHost

variable (w : DnfHost) (mode : Mode) (selectedItems : List Placed)

def hasArguments : Bool := (installDnf mode (selectedItems.map Placed.item)).isSome

def results : InstallResult :=
  if !w.binary then ⟨.failed, eachAs selectedItems .failed (text "no dnf or yum binary found")⟩
  else if !hasArguments mode selectedItems then ⟨.noUpdates, []⟩
  else if w.outcome.code = some 0 then ⟨.success, eachAs selectedItems (successResult mode) []⟩
  else
    let failedTail := lastLines 10 (if w.outcome.stderr = [] then w.outcome.stdout else w.outcome.stderr)
    ⟨.failed, eachAs selectedItems .failed (if failedTail = [] then exited (text "dnf") w.outcome.code else failedTail)⟩

def runs : Bool := w.binary && hasArguments mode selectedItems

end DnfHost

/-! ## The dispatcher -/

inductive World
  | debian (w : AptHost)
  | rhel (w : DnfHost)
  | suse
  | unsupported (family id : Str)

namespace World

/-- `runInstall_`. -/
def results (mode : Mode) (selectedItems : List Placed) : World → InstallResult
  | debian w => w.results mode selectedItems
  | rhel w => w.results mode selectedItems
  | suse => ⟨.failed, eachAs selectedItems .failed (text "SUSE / openSUSE patch install deferred to Phase 10")⟩
  | unsupported family id =>
    ⟨.failed, eachAs selectedItems .failed
      (text "unsupported family: " ++ family ++ text " (id=" ++ id ++ text ")")⟩

def ran (mode : Mode) (selectedItems : List Placed) : World → Option Outcome
  | debian w => if w.runs mode selectedItems then some w.outcome else none
  | rhel w => if w.runs mode selectedItems then some w.outcome else none
  | suse => none
  | unsupported _ _ => none

end World

/-- `wantedByLiveId.get(updateId)`, where the last item with an id wins. -/
def wantedFor (requestedFor : List (Placed × Str)) (updateId : Str) : Option Str :=
  if updateId = [] then none
  else (requestedFor.reverse.find? fun p => p.1.item.hotFixId == updateId).map Prod.snd

def rekey (requestedFor : List (Placed × Str)) (r : Entry) : Entry :=
  match wantedFor requestedFor r.updateId with
  | none => r
  | some want =>
    if want = [] then r
    else
      { r with
        kb := some want
        message :=
          if want = r.updateId then r.message
          else
            let note := text "requested " ++ want ++ text "; a newer version was pending: " ++ r.updateId
            some (if (r.message.getD []).isEmpty then note else r.message.getD [] ++ text "; " ++ note) }

def handlePatchInstall (w : World) (mode : Mode) (live : List ScanItem) (kbArticleIds : List Str) : InstallResult :=
  let m := matchRequestedItems live kbArticleIds
  if m.selected = [] then ⟨.noUpdates, []⟩
  else
    let result := w.results mode m.selected
    { result with results := result.results.map (rekey m.requestedFor) }

/-! ## The agent -/

def covered (lower : Str → Str) (r : Entry) : List Str :=
  (match r.kb with
    | some kb => if kb = [] then [] else [lower kb]
    | none => []) ++
    if r.updateId = [] then [] else [lower r.updateId, text "uid:" ++ lower r.updateId]

def unmatchedRequested (lower : Str → Str) (requested : List Str) (results : List Entry) : List Str :=
  requested.filter fun id => !(results.flatMap (covered lower)).contains (lower id)

/-! ## What an answer is to be -/

section Answer

variable (w : World) (mode : Mode) (live : List ScanItem) (ids : List Str)

/-- Every requested id is that of one entry, or named by the agent. -/
def Accounted (lower : Str → Str) : Prop :=
  ∀ id ∈ ids, ((handlePatchInstall w mode live ids).results.countP fun r => r.kb == some id) = 1 ∨
    id ∈ unmatchedRequested lower ids (handlePatchInstall w mode live ids).results

/-- The packages of an item. `advisoryPackages` says which ones an advisory has. -/
def packagesOf (advisoryPackages : Str → List Str) (it : ScanItem) : List Str :=
  match it.packageName with
  | some name => [name]
  | none => advisoryPackages it.hotFixId

def ConfiguredBy (advisoryPackages : Str → List Str) (o : Outcome) (it : Placed) : Prop :=
  packagesOf advisoryPackages it.item ≠ [] ∧ ∀ p ∈ packagesOf advisoryPackages it.item, p ∈ o.configured

def Configured (advisoryPackages : Str → List Str) (it : Placed) : Prop :=
  ∃ o ∈ w.ran mode (matchRequestedItems live ids).selected, ConfiguredBy advisoryPackages o it

/-- An entry says installed only if the packages of its item are configured. -/
def Honest (advisoryPackages : Str → List Str) : Prop :=
  ∀ r ∈ (handlePatchInstall w mode live ids).results, r.result = .installed →
    Configured w mode live ids advisoryPackages r.item

/-- A success configures every selected item, and a failure none. -/
structure Settled (advisoryPackages : Str → List Str) : Prop where
  success : (handlePatchInstall w mode live ids).status = .success →
    ∀ it ∈ (matchRequestedItems live ids).selected, Configured w mode live ids advisoryPackages it
  failed : (handlePatchInstall w mode live ids).status = .failed →
    ∀ it ∈ (matchRequestedItems live ids).selected, ¬ Configured w mode live ids advisoryPackages it

end Answer

end LinuxPatch.Account
