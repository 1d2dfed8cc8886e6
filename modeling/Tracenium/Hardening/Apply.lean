-- SUMMARY: The editors of our files, and the parts of a hardening call that change audit rules and drop-ins.
import Tracenium.Hardening.Writes
import Tracenium.Lib.Transactions

/-!
Each editor takes the text of a file, `none` where there is no file. Taking the last directive out of a drop-in of
sshd removes the file.
-/

open Utf16 Json

namespace Hardening

def newline : UInt16 := 0x0A
def hash : UInt16 := 0x23
def semicolon : UInt16 := 0x3B
def equals : UInt16 := 0x3D

/-! ## Lines -/

/-- `text.split("\n")`. -/
def lines (s : Str) : List Str := s.splitOn newline

/-- `lines.join("\n")`. -/
def joinLines (ls : List Str) : Str := (ls.intersperse [newline]).flatten

def isBlank (s : Str) : Bool := (Ipc.trim s).isEmpty

/-- Pops blank lines off the end. -/
def dropBlankEnd (ls : List Str) : List Str := (ls.reverse.dropWhile isBlank).reverse

def activeLines (file : Option Str) : List Str :=
  ((lines (file.getD [])).map Ipc.trim).filter fun l =>
    !l.isEmpty && l.head? != some hash && l.head? != some semicolon

/-- The other lines, a header if there are none, and the line that is put in. -/
def settleLines (header : Option Str) (kept : List Str) (line : Option Str) : Str :=
  let kept := dropBlankEnd kept
  let kept := if kept.isEmpty then header.toList else kept
  joinLines (kept ++ line.toList) ++ [newline]

/-! ## Audit rules -/

def AUDIT_RULES_FILE : Str := text "/etc/audit/rules.d/60-tracenium.rules"

/-- The path, the permissions and the key of a watch rule. -/
def watchParts (rule : Str) : Option (Str × Str × Str) :=
  match rule.splitOn space with
  | [_, path, _, perms, _, key] => if isWatchRule rule then some (path, perms, key) else none
  | _ => none

/-- A path without slashes at its end, but for the root. -/
def normWatch (path : Str) : Str :=
  if path.length > 1 then (path.reverse.dropWhile (· == slash)).reverse else path

def sameAuditRule (a b : Str) : Bool :=
  a == b || match watchParts a, watchParts b with
    | some (path, perms, key), some (path', perms', key') =>
      normWatch path == normWatch path' && perms == perms' && key == key'
    | _, _ => false

def editAuditRules (file : Option Str) (line : Str) (present : Bool) : Str :=
  if present && file.isSome && (activeLines file).any (sameAuditRule · line) then file.getD []
  else
    settleLines (some (text "## Managed by Tracenium — audit rules added by compliance fixes."))
      ((lines (file.getD [])).filter fun l => !sameAuditRule (Ipc.trim l) line)
      (if present then some line else none)

/-! ## Literal lines -/

/-- The body of the loop over the writes of one file. -/
def editLine (mode : LineMode) (file : Str) (line : Str) (present : Bool) : Str :=
  settleLines
    (match mode with
      | .ours => some (text "# Managed by Tracenium — compliance fixes. Remove a line to hand it back.")
      | .append => none)
    ((lines file).filter fun l => Ipc.trim l != line) (if present then some line else none)

/-! ## Directives of sshd -/

def SSHD_DROPIN_DIR : Str := text "/etc/ssh/sshd_config.d"
def SSHD_DROPIN_FILE : Str := text "/etc/ssh/sshd_config.d/00-tracenium-hardening.conf"
def LEGACY_SSHD_DROPIN_FILE : Str := text "/etc/ssh/sshd_config.d/99-tracenium-hardening.conf"

section Sshd

variable (l : Library)

def directiveKey (line : Str) : Option Str :=
  let t := Ipc.trim line
  if t.isEmpty || t.head? == some hash then none
  else
    let key := t.takeWhile fun u => !Ipc.isSpace u && u != equals
    if key.isEmpty then none else some (l.lower key)

/-- The word that a line starts with, if a space comes after it. -/
def leadingWord (trimmed : Str) : Option Str :=
  let word := trimmed.takeWhile fun u => !Ipc.isSpace u
  if word.isEmpty || word.length == trimmed.length then none else some word

/-- A line of `setDirective` that sets the directive. -/
def setsDirective (directive line : Str) : Bool :=
  let trimmed := Ipc.trim line
  trimmed.head? != some hash && (leadingWord trimmed).map l.lower == some (l.lower directive)

/-- The first line that sets the directive is replaced, the other ones are dropped. -/
def replaceDirective (directive entry : Str) : List Str → List Str
  | [] => []
  | line :: ls =>
    if setsDirective l directive line then entry :: ls.filter fun line => !setsDirective l directive line
    else line :: replaceDirective directive entry ls

/-- Pops empty lines off the end, up to the first line. -/
def dropEmptyEnd (ls : List Str) : List Str :=
  let kept := (ls.reverse.dropWhile List.isEmpty).reverse
  if kept.isEmpty then ls.take 1 else kept

def setDirective (content directive value : Str) : Str :=
  let ls := if content.isEmpty then [] else lines content
  let entry := directive ++ space :: value
  let out :=
    if ls.any (setsDirective l directive) then replaceDirective l directive entry ls
    else (if (ls.getLast?.map isBlank).getD true then ls else ls ++ [[]]) ++ [entry]
  joinLines (dropEmptyEnd out ++ [[]])

inductive SshdRevertPlan
  | noop
  | write (content : Str)
  | remove

def planSshRevert (content directive : Str) : SshdRevertPlan :=
  let ls := lines content
  let lower := l.lower directive
  if !ls.any (directiveKey l · == some lower) then .noop
  else
    let kept := ls.filter (directiveKey l · != some lower)
    if !kept.any fun line => (directiveKey l line).isSome then .remove
    else .write (joinLines (dropBlankEnd (kept.dropWhile isBlank)) ++ [newline])

structure Dropins where
  primary : Option Str
  legacy : Option Str

/-- The change of a file by the plan of a revert, if there is one. -/
def revertDropin (file : Option Str) (directive : Str) : Option Str :=
  match planSshRevert l (file.getD []) directive with
  | .noop => file
  | .write content => some content
  | .remove => none

/-- The drop-ins after the changes of `planSshDropinChanges`. -/
def planSshDropinChanges (current : Dropins) (directive : Str) (value : Option Str) : Dropins where
  primary :=
    match value with
    | none => revertDropin l current.primary directive
    | some value =>
      let next := setDirective l (current.primary.getD []) directive value
      if next = current.primary.getD [] then current.primary else some next
  legacy := revertDropin l current.legacy directive

end Sshd

/-! ## GRUB -/

def GRUB_AUDIT_DROPIN : Str := text "/etc/default/grub.d/99-tracenium-audit.cfg"

def GRUB_AUDIT_LINE : Str :=
  text "GRUB_CMDLINE_LINUX=\"$GRUB_CMDLINE_LINUX audit=1 audit_backlog_limit=8192\""

end Hardening

/-!
# Applying writes

Four parts of `applyGeneric` hand files to a program that may refuse them. Every file operation and every command has
an outcome of its own, which the host decides. The parts that change nothing of this may end the call between them.
-/

open Transactions

namespace Hardening

abbrev Bytes := List UInt8

/-- Files by path. -/
abbrev Files := Store Str Bytes

inductive Group
  | audit
  | lines
  | sshd
  | grub
  deriving DecidableEq

/-- How everything that a call asks of its host turns out. A command refuses with any code but zero,
and throws if it cannot be started at all. -/
structure Host where
  readable : Str → Bool
  /-- `copyFile`. -/
  copies : Str → Bool
  /-- `mkdirp`. -/
  makes : Str → Bool
  /-- The first `writeFile` or `unlink` of a path. -/
  changes : Str → Bool
  /-- The one that puts the old content back. -/
  restores : Str → Bool
  /-- `auditctl -s`, if it is installed: do its rules say that they are immutable? -/
  auditctl : Option (Option Bool)
  augenrules : Bool
  auditLoad : Answer
  auditReload : Answer
  lineLoad : Str → Answer
  /-- `sshd -t -o key=item`. -/
  supports : Str → Str → Bool
  sshdTest : Answer
  updateGrub : Answer
  /-- Nothing before this group ends the call, other groups aside. -/
  reaches : Group → Bool

variable (l : Library) (host : Host)

/-- A file that cannot be read counts as none. Bytes that are no UTF-8 are replaced. -/
def readFile (s : Files) (path : Str) : Option Str :=
  if host.readable path then (s path).map Utf8.decode else none

/-- What `writeFile` writes and `unlink` leaves. -/
def bytes (content : Option Str) : Option Bytes := content.map Utf8.encode

/-- The plan for one file, if its content is to be another one. -/
def planFile (path : Str) (before next : Option Str) (blocked : Bool) (answer : Answer)
    (reportFails : Bool) : Plan Str Bytes where
  changes := if next = before then [] else [⟨path, bytes before, bytes next⟩]
  nodup := by
    split
    · exact List.nodup_nil
    · exact List.nodup_singleton _
  blocked := blocked && next != before
  changeFails p := !host.changes p
  restoreFails p := !host.restores p
  answer := answer
  reportFails := reportFails

/-! ## Audit rules -/

def auditWrites (ws : List LinuxWrite) : List (Str × Bool) :=
  ws.filterMap fun w =>
    match w with
    | .auditRule line present => some (line, present)
    | _ => none

/-- Immutable rules and rules that nothing loads stay as written. -/
def auditAnswer : Answer :=
  match host.auditctl with
  | some none => .throws
  | some (some true) => .accepts
  | _ => if host.augenrules then host.auditLoad else .accepts

def auditPlan (ws : List LinuxWrite) (s : Files) : Plan Str Bytes :=
  let before := readFile host s AUDIT_RULES_FILE
  let next := (auditWrites ws).foldl (fun file w => some (editAuditRules file w.1 w.2)) before
  planFile host AUDIT_RULES_FILE before next false (auditAnswer host)
    (host.auditReload = .throws)

/-! ## Literal lines -/

def lineWrites (ws : List LinuxWrite) : List (Str × Str × Bool) :=
  ws.filterMap fun w =>
    match w with
    | .line file line present => some (file, line, present)
    | _ => none

/-- The files of the writes, each once. -/
def lineFiles (ws : List LinuxWrite) : List Str := ((lineWrites ws).map Prod.fst).eraseDups

/-- A file of ours with no line but the header is removed. -/
def editLines (policy : LinePolicy) (before : Option Str) (ws : List (Str × Bool)) : Option Str :=
  let edited := ws.foldl (fun file w => editLine policy.mode file w.1 w.2) (before.getD [])
  if policy.mode = .ours && (activeLines (some edited)).isEmpty then none else some edited

/-- The content that a file is to get, if it is to be changed. -/
def lineChange (ws : List LinuxWrite) (policy : LinePolicy) (file : Str) (s : Files) :
    Option (Option Str) :=
  let before := readFile host s file
  if policy.mode = .append && before.isNone then none
  else
    let next := editLines policy before
      (((lineWrites ws).filter fun w => w.1 = file).map Prod.snd)
    if next = before then none else some next

/-- The backup of a file of the system, and the change. -/
def lineFails (policy : LinePolicy) (file : Str) : Bool :=
  (policy.mode = .append && !host.copies file) || !host.changes file

/-- The rules are loaded, and what fails is only reported. -/
def lineAnswer (policy : LinePolicy) (file : Str) : Answer :=
  if policy.augenrules && host.augenrules then host.lineLoad file else .accepts

/-- The body of the loop over the files. -/
def applyLine (ws : List LinuxWrite) (file : Str) (s : Files) : Files × Ending :=
  match LINE_FILES.own file with
  | none => (s, .threw)
  | some policy =>
    match lineChange host ws policy file s with
    | none => (s, .settled)
    | some next =>
      if lineFails host policy file then (s, .threw)
      else
        (Function.update s file (bytes next),
          match lineAnswer host policy file with
          | .accepts => .settled
          | .refuses => .reported
          | .throws => .threw)

def applyLines (ws : List LinuxWrite) : List Str → Files → Files × Ending
  | [], s => (s, .settled)
  | file :: files, s =>
    match applyLine host ws file s with
    | (s, .threw) => (s, .threw)
    | (s, ending) =>
      match applyLines ws files s with
      | (s, .settled) => (s, ending)
      | (s, ending) => (s, ending)

/-! ## sshd -/

def sshdWrites (ws : List LinuxWrite) : List (Option Str × Option Str) :=
  ws.filterMap fun w =>
    match w with
    | .sshd key value _ => some (key, value)
    | _ => none

/-- Of a list of algorithms those stay that this sshd knows. -/
def sshdValue (key value : Str) : Str :=
  if (SSHD_DIRECTIVES.own (l.lower key)).any SshdPolicy.list then
    (((value.splitOn comma).filter (host.supports key)).intersperse [comma]).flatten
  else value

/-- The contents after all writes. A directive without a name throws. -/
def sshdNext (ws : List (Option Str × Option Str)) (current : Dropins) : Option Dropins :=
  ws.foldlM (fun current w => w.1.map fun key =>
    planSshDropinChanges l current key (w.2.map (sshdValue l host key))) current

/-- The drop-in is written or removed. -/
def isTouched (before next : Option Str) : Bool :=
  next != before && !(next == some [] && before == none)

/-- The drop-ins with what is read and what is to be written. -/
def sshdTouched (before next : Dropins) : List (Str × Option Str × Option Str) :=
  [(SSHD_DROPIN_FILE, before.primary, next.primary),
    (LEGACY_SSHD_DROPIN_FILE, before.legacy, next.legacy)].filter fun e => isTouched e.2.1 e.2.2

/-- The plan for the drop-ins, from what is read. -/
def sshdChanges (ws : List LinuxWrite) (before : Dropins) : Plan Str Bytes :=
  let next := sshdNext l host (sshdWrites ws) before
  let touched := sshdTouched before (next.getD before)
  { changes := touched.map fun e => ⟨e.1, bytes e.2.1, bytes e.2.2⟩
    nodup := by
      rw [List.map_map]
      have hsublist : (touched.map Prod.fst).Sublist [SSHD_DROPIN_FILE, LEGACY_SSHD_DROPIN_FILE] :=
        List.filter_sublist.map Prod.fst
      exact hsublist.nodup (by decide)
    blocked := next.isNone || !touched.isEmpty &&
      (touched.any (fun e => e.2.1.isSome && !host.copies e.1) || !host.makes SSHD_DROPIN_DIR)
    changeFails := fun p => !host.changes p
    restoreFails := fun p => !host.restores p
    answer := host.sshdTest
    reportFails := false }

def sshdPlan (ws : List LinuxWrite) (s : Files) : Plan Str Bytes :=
  sshdChanges l host ws
    ⟨readFile host s SSHD_DROPIN_FILE, readFile host s LEGACY_SSHD_DROPIN_FILE⟩

/-! ## GRUB -/

def grubWrite (ws : List LinuxWrite) : Option Bool :=
  ws.findSome? fun w =>
    match w with
    | .grubAudit present => some present
    | _ => none

def grubPlan (ws : List LinuxWrite) (s : Files) : Plan Str Bytes :=
  let before := readFile host s GRUB_AUDIT_DROPIN
  let next := match grubWrite ws with
    | none => before
    | some present => if present then some (GRUB_AUDIT_LINE ++ [newline]) else none
  planFile host GRUB_AUDIT_DROPIN before next
    (next.isSome && !host.makes (dirname GRUB_AUDIT_DROPIN)) host.updateGrub false

end Hardening
