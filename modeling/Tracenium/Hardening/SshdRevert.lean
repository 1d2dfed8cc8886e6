-- SUMMARY: The fix and the revert of a directive of sshd, and what their commit leaves on the disk.
import Tracenium.Hardening.SshdBlame

/-!
`remediateSshDirective` and `revertSshDropinDirective` of `src/privsvc/linux/src/pmp-remediation.ts`. A fix puts our
line into the drop-in, a revert takes the lines of the directive out of both drop-ins. What is known of the tools of
the host is how they answer.
-/

open Utf16 Json List

namespace Hardening.Undo

/-! ## The two drop-ins -/

inductive File
  | primary
  | legacy
  deriving DecidableEq

def File.name : File → Str
  | primary => Blame.SSHD_DROPIN_NAME
  | legacy => text "99-tracenium-hardening.conf"

def read (files : Dropins) : File → Option Str
  | .primary => files.primary
  | .legacy => files.legacy

def write (files : Dropins) (file : File) (content : Option Str) : Dropins :=
  match file with
  | .primary => { files with primary := content }
  | .legacy => { files with legacy := content }

structure DropinChange where
  file : File
  oldContent : Str
  newContent : Option Str
  deriving DecidableEq

section Plan

variable (l : Library)

/-- `fromRevertPlan`. -/
def fromRevertPlan (directive : Str) (file : File) (oldContent : Str) : List DropinChange :=
  match planSshRevert l oldContent directive with
  | .noop => []
  | .write content => [⟨file, oldContent, some content⟩]
  | .remove => [⟨file, oldContent, none⟩]

/-- The changes of `planSshDropinChanges`. -/
def dropinChanges (primary legacy directive : Str) (value : Option Str) : List DropinChange :=
  (match value with
    | none => fromRevertPlan l directive .primary primary
    | some value =>
      let next := setDirective l primary directive value
      if next = primary then [] else [⟨.primary, primary, some next⟩]) ++
    fromRevertPlan l directive .legacy legacy

/-- The changes of what is on the disk. A file that is not there is read as an empty one. -/
def changesOf (files : Dropins) (directive : Str) (value : Option Str) : List DropinChange :=
  dropinChanges l (files.primary.getD []) (files.legacy.getD []) directive value

end Plan

/-! ## The commit -/

structure Tools where
  /-- Our drop-ins can be read. -/
  reads : Bool
  backsUp : File → Bool
  /-- The new content is put in place, or the file is removed. -/
  writes : File → Bool
  /-- The backup is put back, or the file is removed. -/
  restores : File → Bool
  /-- `sshd -t` takes the configuration. -/
  accepts : Bool
  reloads : Bool
  /-- `sshd -T` answers before a revert changes anything. -/
  answersBefore : Bool
  answersAfter : Bool

def hasBackup (files : Dropins) (c : DropinChange) : Bool := !c.oldContent.isEmpty && (read files c.file).isSome

/-- `rollback`. `files` is what was there before, and what the backups hold. -/
def rollback (t : Tools) (files : Dropins) : List DropinChange → Dropins → Dropins
  | [], now => now
  | c :: changes, now =>
    rollback t files changes <|
      if t.restores c.file then write now c.file (if hasBackup files c then read files c.file else none) else now

/-- The changes up to the first one that fails, and whether there is none that does. -/
def writeChanges (t : Tools) : List DropinChange → Dropins → Dropins × Bool
  | [], now => (now, true)
  | c :: changes, now =>
    if t.writes c.file then writeChanges t changes (write now c.file c.newContent) else (now, false)

/-- `commitSshdDropins`, and whether it throws nothing. -/
def commitSshdDropins (t : Tools) (changes : List DropinChange) (files : Dropins) : Dropins × Bool :=
  if changes.any fun c => hasBackup files c && !t.backsUp c.file then (files, false)
  else
    match writeChanges t changes files with
    | (now, false) => (rollback t files changes now, false)
    | (now, true) => if t.accepts then (now, true) else (rollback t files changes now, false)

/-! ## The directives -/

def SAFE_SSH_KEX_ALGORITHMS : Str :=
  (([text "sntrup761x25519-sha512@openssh.com", text "curve25519-sha256", text "curve25519-sha256@libssh.org",
    text "ecdh-sha2-nistp256", text "ecdh-sha2-nistp384", text "ecdh-sha2-nistp521",
    text "diffie-hellman-group16-sha512", text "diffie-hellman-group14-sha256"] : List Str).intersperse [comma]).flatten

inductive Supported
  | permitRootLogin
  | passwordAuthentication
  | kexAlgorithms
  deriving DecidableEq

namespace Supported

def all : List Supported := [permitRootLogin, passwordAuthentication, kexAlgorithms]

def directive : Supported → Str
  | permitRootLogin => text "PermitRootLogin"
  | passwordAuthentication => text "PasswordAuthentication"
  | kexAlgorithms => text "KexAlgorithms"

def value : Supported → Str
  | permitRootLogin => text "no"
  | passwordAuthentication => text "no"
  | kexAlgorithms => SAFE_SSH_KEX_ALGORITHMS

end Supported

/-! ## What sshd says -/

/-- The lower case of the texts of the source, and of no other sign an equals sign. -/
structure Lowers (l : Library) : Prop where
  ascii : ∀ s, (∀ u ∈ s, u < 0x80) → l.lower s = asciiLibrary.lower s
  equals : ∀ s, equals ∈ l.lower s ↔ equals ∈ s

structure Host where
  library : Library
  lowers : Lowers library
  glob : Str → Str → Bool
  /-- What a directive is that is not set. -/
  default : Str → Str
  mainConfig : Str
  others : List Blame.Dropin
  nodup : ([File.primary.name, File.legacy.name] ++ others.map Blame.Dropin.name).Nodup

inductive Slot
  | other (d : Blame.Dropin)
  | ours (file : File)

namespace Slot

def name : Slot → Str
  | other d => d.name
  | ours file => file.name

def content (files : Dropins) : Slot → Option Str
  | other d => some d.content
  | ours file => read files file

end Slot

namespace Host

variable (h : Host)

def slots : List Slot := h.others.map .other ++ [.ours .primary, .ours .legacy]

def dropins (files : Dropins) : List Blame.Dropin :=
  h.slots.filterMap fun slot => (slot.content files).map (Blame.Dropin.mk slot.name)

def valueOf (files : Dropins) (directive : Str) : Str :=
  (Blame.effective (h.library.lower directive)
    (Blame.sshdReads h.library h.glob h.mainConfig (h.dropins files))).getD (h.default (h.library.lower directive))

/-- The lines of `sshd -T` for our directives. -/
def sshdT (files : Dropins) : List (Str × Str) :=
  Supported.all.map fun d => (h.library.lower d.directive, h.valueOf files d.directive)

end Host

section Checks

variable (l : Library)

def readEffectiveSshd (directive : Str) (rendered : List (Str × Str)) : Option Str :=
  (rendered.find? fun line => l.lower line.1 == l.lower directive).map Prod.snd

def algorithms (current : Str) : List Str :=
  ((current.splitOn comma).map Ipc.trim).filter fun s => !s.isEmpty

def kexListFromSshdT (rendered : List (Str × Str)) : List Str :=
  algorithms ((readEffectiveSshd l (text "kexalgorithms") rendered).getD [])

def isLineEnd (u : UInt16) : Bool := u == newline || u == 0x0D || u == 0x2028 || u == 0x2029

/-- `WEAK_KEX_RE.test(a)`. -/
def isWeakKex (a : Str) : Bool :=
  let a := asciiLibrary.lower a
  ([text "group1-sha1", text "group14-sha1", text "group-exchange-sha1"].any fun weak =>
      a.tails.any fun s => weak.isPrefixOf s) ||
    ((text "-sha1").isSuffixOf a && (a.reverse.drop 5).head?.any fun u => !isLineEnd u)

def fixed (d : Supported) (rendered : List (Str × Str)) : Bool :=
  match d with
  | .kexAlgorithms =>
    let list := kexListFromSshdT l rendered
    !list.isEmpty && !list.any isWeakKex
  | d => l.lower ((readEffectiveSshd l d.directive rendered).getD []) == l.lower d.value

/-- The same names, as often and in any order. -/
def sameList (a b : List Str) : Bool := decide (a.Perm b)

/-- The check of a revert to the value `current`. -/
def matchesBefore (d : Supported) (current : Str) (rendered : List (Str × Str)) : Bool :=
  match d with
  | .kexAlgorithms => sameList (kexListFromSshdT l rendered) (algorithms current)
  | d => readEffectiveSshd l d.directive rendered == some current

/-- What `validateSshDirectiveBefore` and `validateSshKexBefore` take as the value to go back to. -/
def validBefore (d : Supported) (current : Str) : Bool :=
  match d with
  | .kexAlgorithms => !(algorithms current).isEmpty
  | _ => !isBlank current && !current.any fun u => u == newline || u == 0x0D

end Checks

/-! ## The fix and the revert -/

inductive Failure
  | badRequest
  | revertFailed
  | unreadable
  | notSet
  | rejected
  | notReloaded
  | notVerified
  | overridden
  | baseChanged
  deriving DecidableEq

structure Result where
  files : Dropins
  failure : Option Failure
  changesApplied : List Str

/-- A request that is refused or throws has no exit code. -/
def Result.exitCode (r : Result) : Option Nat :=
  match r.failure with
  | none => some 0
  | some .badRequest => none
  | some .revertFailed => none
  | some _ => some 1

section Runs

variable (h : Host) (t : Tools) (d : Supported)

def remediateSshDirective (files : Dropins) : Result :=
  let verify := fun (files : Dropins) (changes : List Str) =>
    if !t.answersAfter then ⟨files, some .notVerified, changes⟩
    else if fixed h.library d (h.sshdT files) then ⟨files, none, changes⟩
    else ⟨files, some .overridden, changes ++ [text "effective-value-overridden"]⟩
  let changes := changesOf h.library files d.directive (some d.value)
  if !t.reads then ⟨files, some .unreadable, []⟩
  else if changes.isEmpty then verify files []
  else
    let applied := (d.directive ++ equals :: d.value) ::
      (if changes.any fun c => c.file = .legacy then [text "moved-from-99-dropin"] else [])
    match commitSshdDropins t changes files with
    | (files, false) => ⟨files, some .rejected, []⟩
    | (files, true) =>
      if !t.reloads then ⟨files, some .notReloaded, applied ++ [text "config-staged-not-reloaded"]⟩
      else verify files (applied ++ [text "sshd-reloaded"])

def revertSshDropinDirective (current : Str) (files : Dropins) : Result :=
  let plan := changesOf h.library files d.directive none
  let removed := fun file => plan.any fun c => c.file = file && c.newContent.isNone
  if t.answersBefore && matchesBefore h.library d current (h.sshdT files) then ⟨files, none, []⟩
  else if !t.reads then ⟨files, some .revertFailed, []⟩
  else if plan.isEmpty then ⟨files, some .notSet, []⟩
  else
    let applied := (d.directive ++ text "-unset") ::
      ((if removed .primary then [text "dropin-removed"] else []) ++
        if removed .legacy then [text "legacy-99-dropin-removed"] else [])
    match commitSshdDropins t plan files with
    | (files, false) => ⟨files, some .rejected, []⟩
    | (files, true) =>
      if !t.reloads then ⟨files, some .notReloaded, applied ++ [text "config-staged-not-reloaded"]⟩
      else
        let applied := applied ++ [text "sshd-reloaded"]
        if !t.answersAfter then ⟨files, some .notVerified, applied⟩
        else if matchesBefore h.library d current (h.sshdT files) then ⟨files, none, applied⟩
        else ⟨files, some .baseChanged, applied⟩

/-- `handlePmpRevert` for one of our directives. -/
def revert (current : Str) (files : Dropins) : Result :=
  if validBefore d current then revertSshDropinDirective h t d current files else ⟨files, some .badRequest, []⟩

end Runs

end Hardening.Undo

/-!
# The commit of the drop-ins

The changes of a plan are the differences to what is on the disk. A commit that throws gives back the files with
content; a file that was there and empty has no backup, and is removed.
-/

namespace Hardening.Undo

/-! ## The two files -/

section Files

variable {files now : Dropins} {file file' : File} {content : Option Str}

@[simp] theorem read_write_self : read (write files file content) file = content := by
  cases file <;> rfl

@[simp] theorem read_write_of_ne (h : file' ≠ file) : read (write files file content) file' = read files file' := by
  cases file <;> cases file' <;> first | rfl | exact absurd rfl h

theorem files_ext (h : ∀ file, read files file = read now file) : files = now := by
  obtain ⟨primary, legacy⟩ := files
  obtain ⟨primary', legacy'⟩ := now
  have hprimary : primary = primary' := h .primary
  have hlegacy : legacy = legacy' := h .legacy
  rw [hprimary, hlegacy]

end Files

/-! ## The changes -/

structure Leads (files after : Dropins) (changes : List DropinChange) : Prop where
  nodup : (changes.map DropinChange.file).Nodup
  old : ∀ c ∈ changes, c.oldContent = (read files c.file).getD []
  new : ∀ c ∈ changes, c.newContent = read after c.file ∧ c.newContent ≠ read files c.file
  all : ∀ file, read after file ≠ read files file → ∃ c ∈ changes, c.file = file

section Changes

variable {l : Library} {directive : Str}

theorem planSshRevert_noop_iff (content : Str) :
    planSshRevert l content directive = .noop ↔ ∀ line ∈ lines content, isLineOf l directive line = false := by
  have hany : (lines content).any (directiveKey l · == some (l.lower directive)) ↔
      ¬ ∀ line ∈ lines content, isLineOf l directive line = false := by
    simp [isLineOf]
  rw [planSshRevert]
  split
  · rename_i hnone
    rw [Bool.not_eq_true', ← Bool.not_eq_true, hany, not_not] at hnone
    simpa using hnone
  · rename_i hsome
    rw [Bool.not_eq_true', Bool.not_eq_false, hany] at hsome
    refine iff_of_false ?_ hsome
    dsimp only
    split <;> simp

/-- The plan of a revert is empty, or changes the file. -/
theorem fromRevertPlan_eq (content : Option Str) (file : File) :
    (fromRevertPlan l directive file (content.getD []) = [] ∧ revertDropin l content directive = content) ∨
      (fromRevertPlan l directive file (content.getD []) =
          [⟨file, content.getD [], revertDropin l content directive⟩] ∧
        revertDropin l content directive ≠ content) := by
  have hnoop : revertDropin l content directive = content → planSshRevert l (content.getD []) directive = .noop := by
    intro hsame
    have hcleared := isLineOf_revertDropin l directive content
    rw [hsame] at hcleared
    exact (planSshRevert_noop_iff _).mpr hcleared
  rw [fromRevertPlan]
  cases hplan : planSshRevert l (content.getD []) directive with
  | noop =>
    left
    exact ⟨rfl, by simp [revertDropin, hplan]⟩
  | write new =>
    right
    have hnew : revertDropin l content directive = some new := by simp [revertDropin, hplan]
    exact ⟨by rw [hnew], fun hsame => by simpa [hplan] using hnoop hsame⟩
  | remove =>
    right
    have hnew : revertDropin l content directive = none := by simp [revertDropin, hplan]
    exact ⟨by rw [hnew], fun hsame => by simpa [hplan] using hnoop hsame⟩

/-- The plan of a fix is empty for the drop-in, or changes it. -/
theorem setDropin_eq (content : Option Str) (value : Str) :
    (setDirective l (content.getD []) directive value = content.getD [] ∧
        setDropin l content directive value = content) ∨
      (setDirective l (content.getD []) directive value ≠ content.getD [] ∧
        setDropin l content directive value = some (setDirective l (content.getD []) directive value) ∧
        setDropin l content directive value ≠ content) := by
  by_cases hsame : setDirective l (content.getD []) directive value = content.getD []
  · left
    exact ⟨hsame, by simp [setDropin, hsame]⟩
  · right
    have hnew : setDropin l content directive value = some (setDirective l (content.getD []) directive value) := by
      simp [setDropin, hsame]
    refine ⟨hsame, hnew, fun hcontent => hsame ?_⟩
    rw [hnew] at hcontent
    exact congrArg (Option.getD · []) hcontent

def changeOf (files after : Dropins) (file : File) : List DropinChange :=
  if read after file = read files file then [] else [⟨file, (read files file).getD [], read after file⟩]

theorem changesOf_eq (files : Dropins) (directive : Str) (value : Option Str) : changesOf l files directive value =
      changeOf files (planSshDropinChanges l files directive value) .primary ++
        changeOf files (planSshDropinChanges l files directive value) .legacy := by
  have hrevert (content : Option Str) (file : File) : fromRevertPlan l directive file (content.getD []) =
      if revertDropin l content directive = content then []
      else [⟨file, content.getD [], revertDropin l content directive⟩] := by
    rcases fromRevertPlan_eq content file with ⟨hplan, hsame⟩ | ⟨hplan, hsame⟩
    · rw [hplan, if_pos hsame]
    · rw [hplan, if_neg hsame]
  refine congrArg₂ (· ++ ·) ?_ (hrevert files.legacy .legacy)
  cases value with
  | none => exact hrevert files.primary .primary
  | some value =>
    have hplan : read (planSshDropinChanges l files directive (some value)) .primary =
      setDropin l files.primary directive value := rfl
    have hold : read files .primary = files.primary := rfl
    rw [changeOf, hplan, hold]
    rcases @setDropin_eq l directive files.primary value with ⟨hset, hsame⟩ | ⟨hset, hnew, hsame⟩
    · simp [hset, hsame]
    · rw [if_neg hsame, hnew]
      simp [hset]

theorem leads_changesOf (files : Dropins) (directive : Str) (value : Option Str) :
    Leads files (planSshDropinChanges l files directive value) (changesOf l files directive value) := by
  rw [changesOf_eq]
  generalize planSshDropinChanges l files directive value = after
  have hmem (c : DropinChange) (file : File) : c ∈ changeOf files after file ↔
      read after file ≠ read files file ∧ c = ⟨file, (read files file).getD [], read after file⟩ := by
    unfold changeOf
    split <;> simp_all
  refine ⟨?_, ?_, ?_, ?_⟩
  · unfold changeOf
    split <;> split <;> simp
  · intro c hc
    rcases mem_append.mp hc with hc | hc
    · rw [((hmem _ _).mp hc).2]
    · rw [((hmem _ _).mp hc).2]
  · intro c hc
    rcases mem_append.mp hc with hc | hc
    · obtain ⟨hne, rfl⟩ := (hmem _ _).mp hc
      exact ⟨rfl, hne⟩
    · obtain ⟨hne, rfl⟩ := (hmem _ _).mp hc
      exact ⟨rfl, hne⟩
  · intro file hne
    refine ⟨⟨file, (read files file).getD [], read after file⟩, mem_append.mpr ?_, rfl⟩
    cases file with
    | primary => exact .inl ((hmem _ _).mpr ⟨hne, rfl⟩)
    | legacy => exact .inr ((hmem _ _).mpr ⟨hne, rfl⟩)

end Changes

/-! ## Writing, and putting back -/

def written (t : Tools) (changes : List DropinChange) : List DropinChange := changes.takeWhile fun c => t.writes c.file

def BacksUp (t : Tools) (files : Dropins) (changes : List DropinChange) : Prop :=
  ∀ c ∈ changes, hasBackup files c = true → t.backsUp c.file = true

def Accepted (t : Tools) (changes : List DropinChange) : Prop :=
  (∀ c ∈ changes, t.writes c.file = true) ∧ t.accepts = true

/-- A file that is put back was not there empty, and one that is not put back has not been changed yet. -/
def Recoverable (t : Tools) (files : Dropins) (changes : List DropinChange) : Prop :=
  ∀ c ∈ changes, if t.restores c.file then read files c.file ≠ some [] else c ∉ written t changes

section Commit

variable {t : Tools} {files after now : Dropins} {changes : List DropinChange} {c : DropinChange} {file : File}

theorem written_cons_of_pos (h : t.writes c.file) : written t (c :: changes) = c :: written t changes :=
  takeWhile_cons_of_pos h

theorem written_cons_of_neg (h : ¬ t.writes c.file) : written t (c :: changes) = [] := takeWhile_cons_of_neg h

theorem subset_written {c : DropinChange} (h : c ∈ written t changes) : c ∈ changes := ( takeWhile_prefix _).subset h

theorem writeChanges_snd (t : Tools) (changes : List DropinChange) (now : Dropins) :
    (writeChanges t changes now).2 ↔ ∀ c ∈ changes, t.writes c.file := by
  induction changes generalizing now with
  | nil => simp [writeChanges]
  | cons c changes ih =>
    rw [writeChanges]
    split
    · rename_i hwrites
      simpa [hwrites] using ih _
    · rename_i hwrites
      simp [hwrites]

theorem read_writeChanges_of_forall_ne (h : ∀ c ∈ written t changes, c.file ≠ file) :
    read (writeChanges t changes now).1 file = read now file := by
  induction changes generalizing now with
  | nil => rfl
  | cons c changes ih =>
    rw [writeChanges]
    split
    · rename_i hwrites
      rw [written_cons_of_pos hwrites] at h
      obtain ⟨hfile, h⟩ := forall_mem_cons.mp h
      rw [ih h, read_write_of_ne (Ne.symm hfile)]
    · rfl

theorem read_writeChanges_of_mem (hnodup : (changes.map DropinChange.file).Nodup) (hc : c ∈ written t changes) :
    read (writeChanges t changes now).1 c.file = c.newContent := by
  induction changes generalizing now with
  | nil => simp [written] at hc
  | cons c' changes ih =>
    obtain ⟨hother, hnodup⟩ := nodup_cons.mp hnodup
    rw [writeChanges]
    split
    · rename_i hwrites
      rw [written_cons_of_pos hwrites] at hc
      rcases mem_cons.mp hc with rfl | hc
      · have hlater : ∀ c' ∈ written t changes, c'.file ≠ c.file := fun c' hc' hfile =>
          hother (mem_map.mpr ⟨c', subset_written hc', hfile⟩)
        rw [read_writeChanges_of_forall_ne hlater, read_write_self]
      · exact ih hnodup hc
    · rename_i hwrites
      rw [written_cons_of_neg hwrites] at hc
      simp at hc

theorem read_rollback_of_forall_ne (h : ∀ c ∈ changes, c.file ≠ file) :
    read (rollback t files changes now) file = read now file := by
  induction changes generalizing now with
  | nil => rfl
  | cons c changes ih =>
    obtain ⟨hfile, h⟩ := forall_mem_cons.mp h
    rw [rollback, ih h]
    split
    · exact read_write_of_ne (Ne.symm hfile)
    · rfl

theorem read_rollback_of_mem (hnodup : (changes.map DropinChange.file).Nodup) (hc : c ∈ changes) :
    read (rollback t files changes now) c.file =
      if t.restores c.file then (if hasBackup files c then read files c.file else none) else read now c.file := by
  induction changes generalizing now with
  | nil => simp at hc
  | cons c' changes ih =>
    obtain ⟨hother, hnodup⟩ := nodup_cons.mp hnodup
    rw [rollback]
    rcases mem_cons.mp hc with rfl | hc
    · have hlater : ∀ c' ∈ changes, c'.file ≠ c.file := fun c' hc' hfile =>
        hother (mem_map.mpr ⟨c', hc', hfile⟩)
      rw [read_rollback_of_forall_ne hlater]
      split <;> simp
    · have hfile : c.file ≠ c'.file := fun hfile => hother (mem_map.mpr ⟨c, hc, hfile⟩)
      rw [ih hnodup hc]
      split
      · rfl
      · split <;> simp [hfile]

/-- What a backup gives back is what was there, unless that was an empty file. -/
theorem backup_eq_iff (hold : c.oldContent = (read files c.file).getD []) :
    (if hasBackup files c then read files c.file else none) = read files c.file ↔ read files c.file ≠ some [] := by
  rw [hasBackup, hold]
  cases read files c.file with
  | none => simp
  | some content => cases content <;> simp

theorem files_writeChanges (hleads : Leads files after changes) (h : ∀ c ∈ changes, t.writes c.file) :
    (writeChanges t changes files).1 = after := by
  have hall : written t changes = changes := takeWhile_eq_self_iff.mpr h
  refine files_ext fun file => ?_
  by_cases hfile : ∃ c ∈ changes, c.file = file
  · obtain ⟨c, hc, rfl⟩ := hfile
    rw [read_writeChanges_of_mem hleads.nodup (hall.symm ▸ hc), (hleads.new c hc).1]
  · have hsame : read after file = read files file := not_not.mp fun hne => hfile (hleads.all file hne)
    rw [read_writeChanges_of_forall_ne fun c hc hcfile => hfile ⟨c, hall ▸ hc, hcfile⟩, hsame]

/-- The rollback gives everything back exactly if it can. -/
theorem rollback_eq_iff (hleads : Leads files after changes) :
    rollback t files changes (writeChanges t changes files).1 = files ↔ Recoverable t files changes := by
  have hfile : ∀ c ∈ changes,
      (read (rollback t files changes (writeChanges t changes files).1) c.file = read files c.file ↔
        if t.restores c.file then read files c.file ≠ some [] else c ∉ written t changes) := by
    intro c hc
    rw [read_rollback_of_mem hleads.nodup hc]
    split
    · exact backup_eq_iff (hleads.old c hc)
    · by_cases hwritten : c ∈ written t changes
      · rw [read_writeChanges_of_mem hleads.nodup hwritten]
        exact iff_of_false (hleads.new c hc).2 (by simpa using hwritten)
      · refine iff_of_true (read_writeChanges_of_forall_ne fun c' hc' hsame => hwritten ?_) hwritten
        have heq : c' = c := inj_on_of_nodup_map hleads.nodup (subset_written hc') hc hsame
        exact heq ▸ hc'
  constructor
  · intro hback c hc
    exact (hfile c hc).mp (by rw [hback])
  · intro hrecoverable
    refine files_ext fun file => ?_
    by_cases hmem : ∃ c ∈ changes, c.file = file
    · obtain ⟨c, hc, rfl⟩ := hmem
      exact (hfile c hc).mpr (hrecoverable c hc)
    · have hne : ∀ c ∈ changes, c.file ≠ file := fun c hc hcfile => hmem ⟨c, hc, hcfile⟩
      rw [read_rollback_of_forall_ne hne, read_writeChanges_of_forall_ne fun c hc => hne c (subset_written hc)]

theorem not_backsUp_iff : (changes.any fun c => hasBackup files c && !t.backsUp c.file) ↔
    ¬ BacksUp t files changes := by
  simp [BacksUp]

theorem commitSshdDropins_snd :
    (commitSshdDropins t changes files).2 ↔ BacksUp t files changes ∧ Accepted t changes := by
  have hwrites := writeChanges_snd t changes files
  rw [commitSshdDropins]
  split
  · rename_i hany
    simp [not_backsUp_iff.mp hany]
  · rename_i hany
    rw [not_backsUp_iff, not_not] at hany
    rcases hwritten : writeChanges t changes files with ⟨now, ok⟩
    rw [hwritten] at hwrites
    cases ok with
    | false => simpa [hany, Accepted] using fun h => absurd (hwrites.mpr h) (by simp)
    | true =>
      have hall : ∀ c ∈ changes, t.writes c.file := hwrites.mp rfl
      cases haccepts : t.accepts with
      | false => simp [Accepted, haccepts]
      | true => simpa [hany, Accepted, haccepts] using hall

theorem commitSshdDropins_of_accepted (hleads : Leads files after changes)
    (h : (commitSshdDropins t changes files).2) : (commitSshdDropins t changes files).1 = after := by
  obtain ⟨hbacksUp, hwrites, haccepts⟩ := commitSshdDropins_snd.mp h
  have hany : ¬ (changes.any fun c => hasBackup files c && !t.backsUp c.file) := by
    rw [not_backsUp_iff, not_not]
    exact hbacksUp
  have hsnd := (writeChanges_snd t changes files).mpr hwrites
  have hfst := files_writeChanges hleads hwrites
  rcases hwritten : writeChanges t changes files with ⟨now, ok⟩
  rw [hwritten] at hsnd hfst
  rw [commitSshdDropins, if_neg hany, hwritten]
  obtain rfl : ok := hsnd
  simpa [haccepts] using hfst

/-- A commit that throws leaves what was there exactly if there was no backup to make it fail later, or the rollback
gives everything back. -/
theorem commitSshdDropins_of_rejected (hleads : Leads files after changes)
    (h : (commitSshdDropins t changes files).2 = false) :
    (commitSshdDropins t changes files).1 = files ↔ (BacksUp t files changes → Recoverable t files changes) := by
  have hback := @rollback_eq_iff t files after changes hleads
  rw [commitSshdDropins] at h ⊢
  split
  · rename_i hany
    simp [not_backsUp_iff.mp hany]
  · rename_i hany
    rw [if_neg hany] at h
    rw [not_backsUp_iff, not_not] at hany
    rcases hwritten : writeChanges t changes files with ⟨now, ok⟩
    rw [hwritten] at h hback
    cases ok with
    | false => simpa [hany] using hback
    | true =>
      have haccepts : t.accepts = false := by
        cases haccepts : t.accepts with
        | false => rfl
        | true => simp [haccepts] at h
      simpa [hany, haccepts] using hback

end Commit

end Hardening.Undo
