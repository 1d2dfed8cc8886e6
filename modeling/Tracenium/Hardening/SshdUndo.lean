-- SUMMARY: The values that sshd takes over all drop-ins, and when a fix of a directive can be undone.
import Tracenium.Hardening.SshdRevert
import Mathlib.Data.List.Lex

/-! # The values of sshd -/

open Utf16 Json List

namespace Hardening.Undo

open Blame Result

/-! ## The order of the names -/

section Order

theorem pointsLess_iff (a b : List Nat) : pointsLess a b ↔ a < b := by
  induction a generalizing b with
  | nil => cases b <;> simp [pointsLess]
  | cons u a ih =>
    cases b with
    | nil => simp [pointsLess]
    | cons v b => simp [pointsLess, ih, cons_lt_cons_iff]

theorem bytesLess_eq_false_iff (a b : Str) : bytesLess a b = false ↔ codePoints b ≤ codePoints a := by
  rw [bytesLess, ← Bool.not_eq_true, pointsLess_iff, not_lt]

/-- The files in the order of their names. -/
def Before (slot slot' : Slot) : Prop := bytesLess slot'.name slot.name = false

instance : DecidableRel Before := fun slot slot' =>
  inferInstanceAs (Decidable (bytesLess slot'.name slot.name = false))

instance : IsTrans Slot Before where
  trans a b c hab hbc := by
    rw [Before, bytesLess_eq_false_iff] at *
    exact hab.trans hbc

instance : Std.Total Before where
  total a b := by
    rw [Before, Before, bytesLess_eq_false_iff, bytesLess_eq_false_iff]
    exact le_total _ _

end Order

/-! ## The values of a directive -/

namespace Host

variable (h : Host)

/-- The files that an Include names, whether they are there or not, in order. -/
def named (patterns : List Str) : List Slot :=
  (h.slots.filter fun slot => patterns.any fun pattern => h.glob pattern slot.name).insertionSort Before

/-- The values of a directive, in the order in which sshd reads them. -/
def values (files : Dropins) (directive : Str) : List Str :=
  (fileLines h.library SSHD_MAIN_CONFIG h.mainConfig).flatMap fun line =>
    (if line.key = h.library.lower directive then [line.value] else []) ++
      if line.key = text "include" then
        (h.named (patternsOf line.value)).flatMap fun slot =>
          definitions h.library (slot.content files) directive
      else []

variable {h} {files files' : Dropins} {directive : Str}

theorem included_dropins (files : Dropins) (patterns : List Str) : included h.glob (h.dropins files) patterns =
      (h.named patterns).filterMap fun slot => (slot.content files).map (Dropin.mk slot.name) := by
  have hfilter : (h.dropins files).filter (fun d => patterns.any fun pattern => h.glob pattern d.name) =
      (h.slots.filter fun slot => patterns.any fun pattern => h.glob pattern slot.name).filterMap
        fun slot => (slot.content files).map (Dropin.mk slot.name) := by
    rw [dropins, filter_filterMap, filterMap_filter]
    refine congrArg (filterMap · h.slots) (funext fun slot => ?_)
    cases slot.content files with
    | none => simp
    | some content => simp [Option.filter]
  rw [included, hfilter]
  refine Sorting.insertionSort_filterMap (fun a a' b b' hb hb' => ?_) _
  obtain ⟨content, -, rfl⟩ := Option.map_eq_some_iff.mp hb
  obtain ⟨content', -, rfl⟩ := Option.map_eq_some_iff.mp hb'
  rfl

theorem definitions_none (l : Library) (directive : Str) : definitions l none directive = [] := by
  simp [definitions, linesOf, lines, scan]

theorem values_readDropin (l : Library) (d : Dropin) (directive : Str) :
    (definitionsIn (l.lower directive) (readDropin l d)).map SshdDefinition.value =
      definitions l (some d.content) directive := by
  rw [readDropin, definitionsIn_file, definitions_eq l (dropinPath d.name)]

theorem values_included (files : Dropins) (slots : List Slot) (directive : Str) :
    (definitionsIn (h.library.lower directive)
      ((slots.filterMap fun slot => (slot.content files).map (Dropin.mk slot.name)).flatMap
        (readDropin h.library))).map SshdDefinition.value =
      slots.flatMap fun slot => definitions h.library (slot.content files) directive := by
  induction slots with
  | nil => rfl
  | cons slot slots ih =>
    rw [flatMap_cons, ← ih]
    cases hcontent : slot.content files with
    | none => simp [hcontent, definitions_none]
    | some content => simp [hcontent, ← values_readDropin h.library ⟨slot.name, content⟩]

theorem values_eq (files : Dropins) (directive : Str) : (definitionsIn (h.library.lower directive)
      (sshdReads h.library h.glob h.mainConfig (h.dropins files))).map SshdDefinition.value =
      h.values files directive := by
  rw [sshdReads, values]
  generalize fileLines h.library SSHD_MAIN_CONFIG h.mainConfig = ls
  induction ls with
  | nil => rfl
  | cons line ls ih =>
    have hrest := ih
    rw [readLines] at hrest ⊢
    rw [flatMap_cons, flatMap_cons, cons_append, definitionsIn_line, definitionsIn_append,
      map_append, map_append, hrest, expanded, append_assoc]
    refine congrArg₂ (· ++ ·) (by split <;> rfl) (congrArg (· ++ _) ?_)
    split
    · rw [included_dropins, values_included]
    · rfl

/-- sshd takes the first value. -/
theorem valueOf_eq (files : Dropins) (directive : Str) :
    h.valueOf files directive = (h.values files directive).head?.getD (h.default (h.library.lower directive)) := by
  rw [valueOf, effective, ← values_eq, head?_map]

/-- The value of a directive depends on our drop-ins through their definitions of it only. -/
theorem valueOf_congr (hsame : ∀ file, definitions h.library (read files file) directive =
      definitions h.library (read files' file) directive) :
    h.valueOf files directive = h.valueOf files' directive := by
  have hslot (slot : Slot) : definitions h.library (slot.content files) directive =
      definitions h.library (slot.content files') directive := by
    cases slot with
    | other d => rfl
    | ours file => exact hsame file
  simp only [valueOf_eq, values, hslot]

end Host

/-! ## What sshd -T says -/

section Supported

variable {l : Library}

theorem Lowers.lower_eq (hlowers : Lowers l) {s : Str} (h : s.all (fun u => decide (u < 0x80))) :
    l.lower s = asciiLibrary.lower s :=
  hlowers.ascii s fun u hu => by simpa using all_eq_true.mp h u hu

theorem lower_directive (hlowers : Lowers l) (d : Supported) : l.lower d.directive = asciiLibrary.lower d.directive :=
  hlowers.lower_eq (by cases d <;> decide)

theorem lower_lower_directive (hlowers : Lowers l) (d : Supported) :
    l.lower (l.lower d.directive) = l.lower d.directive := by
  rw [lower_directive hlowers, hlowers.lower_eq (by cases d <;> decide)]
  cases d <;> decide

theorem lower_directive_ne (hlowers : Lowers l) {d d' : Supported} (h : d' ≠ d) :
    l.lower d'.directive ≠ l.lower d.directive := by
  rw [lower_directive hlowers, lower_directive hlowers]
  cases d <;> cases d' <;> first | exact absurd rfl h | decide

theorem isDirective (hlowers : Lowers l) (d : Supported) : IsDirective l d.directive where
  ne_nil := by cases d <;> decide
  unit u hu := by
    have hall : d.directive.all (fun u => !Ipc.isSpace u && u != equals && u != hash) := by
      cases d <;> decide
    simpa [and_assoc] using all_eq_true.mp hall u hu
  ne_match := by
    rw [lower_directive hlowers]
    cases d <;> decide

theorem isWritten (d : Supported) : IsWritten d.value where
  ne_nil := by cases d <;> decide +kernel
  unit u hu := by
    have hall : d.value.all (fun u => !Ipc.isSpace u && u != equals && u != hash && u != quote) := by
      cases d <;> decide +kernel
    simpa [and_assoc] using all_eq_true.mp hall u hu

end Supported

/-- sshd says what it takes. -/
theorem readEffectiveSshd_sshdT (h : Host) (files : Dropins) (d : Supported) :
    readEffectiveSshd h.library d.directive (h.sshdT files) = some (h.valueOf files d.directive) := by
  have hne (d' : Supported) (hd : d' ≠ d) :
      (h.library.lower (h.library.lower d'.directive) == h.library.lower d.directive) = false := by
    rw [lower_lower_directive h.lowers, beq_eq_false_iff_ne]
    exact lower_directive_ne h.lowers hd
  have hself : (h.library.lower (h.library.lower d.directive) == h.library.lower d.directive) := by
    rw [lower_lower_directive h.lowers, beq_self_eq_true]
  simp only [readEffectiveSshd, Host.sshdT, Supported.all]
  cases d with
  | permitRootLogin => simp [hself]
  | passwordAuthentication => simp [hne .permitRootLogin (by decide), hself]
  | kexAlgorithms => simp [hne .permitRootLogin (by decide), hne .passwordAuthentication (by decide), hself]

/-- The value agrees with the one to go back to. The order of a list of algorithms does not matter. -/
def agrees (d : Supported) (current actual : Str) : Bool :=
  match d with
  | .kexAlgorithms => sameList (algorithms actual) (algorithms current)
  | _ => actual == current

theorem agrees_self (d : Supported) (current : Str) : agrees d current current := by
  cases d <;> simp [agrees, sameList]

theorem matchesBefore_sshdT (h : Host) (files : Dropins) (d : Supported) (current : Str) :
    matchesBefore h.library d current (h.sshdT files) = agrees d current (h.valueOf files d.directive) := by
  have hread := readEffectiveSshd_sshdT h files
  cases d with
  | permitRootLogin => simp [matchesBefore, agrees, hread .permitRootLogin]
  | passwordAuthentication => simp [matchesBefore, agrees, hread .passwordAuthentication]
  | kexAlgorithms =>
    have hlower : h.library.lower (text "kexalgorithms") = h.library.lower Supported.kexAlgorithms.directive := by
      rw [h.lowers.lower_eq (by decide), lower_directive h.lowers]
      decide
    have hname : readEffectiveSshd h.library (text "kexalgorithms") (h.sshdT files) =
        readEffectiveSshd h.library Supported.kexAlgorithms.directive (h.sshdT files) := by
      simp only [readEffectiveSshd, hlower]
    simp [matchesBefore, agrees, kexListFromSshdT, hname, hread .kexAlgorithms]

/-! ## What a change keeps -/

section Changes

variable {l : Library} {directive directive' : Str} {files : Dropins}

/-- The definitions of a directive are in the lines that are not of another one. -/
theorem scan_otherLines (hmatch : l.lower directive ≠ text "match") {lower : Str}
    (hne : lower ≠ l.lower directive) (ls : List Str) : scan l lower (otherLines l directive ls) = scan l lower ls := by
  induction ls with
  | nil => rfl
  | cons line ls ih =>
    have hrest : scan l lower ((ls.filter fun line => (directiveKey l line).isSome).filter
        fun line => !isLineOf l directive line) = scan l lower ls := ih
    rw [otherLines, directiveLines, scan]
    cases hkey : directiveKey l line with
    | none =>
      rw [filter_cons_of_neg (by simp [hkey])]
      exact hrest
    | some key =>
      rw [filter_cons_of_pos (by simp [hkey])]
      by_cases hown : key = l.lower directive
      · -- the line is left out, and is neither a `Match` nor of the other directive
        have hother : ¬ key = lower := fun h => hne (h.symm.trans hown)
        have hnot : ¬ key = text "match" := fun h => hmatch (hown.symm.trans h)
        rw [filter_cons_of_neg (by simp [isLineOf, hkey, hown])]
        simpa only [hnot, hother, if_false] using hrest
      · rw [filter_cons_of_pos (by simp [isLineOf, hkey, hown]), scan, hkey]
        simp only [hrest]

theorem definitions_of_otherLines (hmatch : l.lower directive ≠ text "match")
    (hne : l.lower directive' ≠ l.lower directive) {file file' : Option Str}
    (h : otherLines l directive (linesOf file) = otherLines l directive (linesOf file')) :
    definitions l file directive' = definitions l file' directive' := by
  rw [definitions, definitions, ← scan_otherLines hmatch hne (linesOf file), h, scan_otherLines hmatch hne]

theorem definitions_of_notLine {file : Option Str} (h : ∀ line ∈ linesOf file, isLineOf l directive line = false) :
    definitions l file directive = [] := by
  rw [definitions]
  generalize linesOf file = ls at h
  induction ls with
  | nil => rfl
  | cons line ls ih =>
    obtain ⟨hline, h⟩ := forall_mem_cons.mp h
    rw [scan]
    cases hkey : directiveKey l line with
    | none => exact ih h
    | some key =>
      have hne : ¬ key = l.lower directive := by simpa [isLineOf, hkey] using hline
      simp only [hne, if_false, ih h, ite_self]

theorem definitions_planSshDropinChanges (hlowers : Lowers l) (d : Supported) {value : Option Str}
    (hvalue : value = none ∨ value = some d.value) (hne : l.lower directive' ≠ l.lower d.directive) (file : File) :
    definitions l (read (planSshDropinChanges l files d.directive value) file) directive' =
      definitions l (read files file) directive' := by
  refine definitions_of_otherLines (isDirective hlowers d).ne_match hne ?_
  cases file with
  | legacy => exact otherLines_revertDropin l d.directive files.legacy
  | primary =>
    rcases hvalue with rfl | rfl
    · exact otherLines_revertDropin l d.directive files.primary
    · exact otherLines_setDropin hlowers.equals (isDirective hlowers d) (isWritten d) files.primary

end Changes

section Values

variable {h : Host} {d : Supported} {files : Dropins} {directive : Str}

/-- A change of a directive keeps the values of the other ones. -/
theorem valueOf_planned {value : Option Str} (hvalue : value = none ∨ value = some d.value)
    (hne : h.library.lower directive ≠ h.library.lower d.directive) :
    h.valueOf (planSshDropinChanges h.library files d.directive value) directive = h.valueOf files directive :=
  Host.valueOf_congr fun file => definitions_planSshDropinChanges h.lowers d hvalue hne file

/-- The value that the rest of the configuration gives. -/
def Host.base (h : Host) (directive : Str) : Str := h.valueOf ⟨none, none⟩ directive

theorem valueOf_reverted (h : Host) (d : Supported) (files : Dropins) :
    h.valueOf (planSshDropinChanges h.library files d.directive none) d.directive = h.base d.directive := by
  refine Host.valueOf_congr fun file => ?_
  have hnone : read ⟨none, none⟩ file = none := by cases file <;> rfl
  cases file with
  | primary => exact definitions_of_notLine (isLineOf_revertDropin h.library d.directive files.primary)
  | legacy => exact definitions_of_notLine (isLineOf_revertDropin h.library d.directive files.legacy)

end Values

end Hardening.Undo

/-! # Undoing a fix of sshd -/

namespace Hardening.Undo

/-! ## Fixes and reverts -/

inductive Attempt
  | fix (d : Supported)
  | revert (d : Supported) (current : Str)

namespace Attempt

def directive : Attempt → Supported
  | fix d => d
  | revert d _ => d

def value : Attempt → Option Str
  | fix d => some d.value
  | revert _ _ => none

def run (h : Host) (t : Tools) (files : Dropins) : Attempt → Result
  | fix d => remediateSshDirective h t d files
  | revert d current => Undo.revert h t d current files

def changes (h : Host) (files : Dropins) (a : Attempt) : List DropinChange :=
  changesOf h.library files a.directive.directive a.value

/-- The changes are committed, if there are any. -/
def commits (h : Host) (t : Tools) (files : Dropins) : Attempt → Bool
  | fix _ => t.reads
  | revert d current =>
    validBefore d current && !(t.answersBefore && agrees d current (h.valueOf files d.directive)) && t.reads

end Attempt

def Result.reachesReload (r : Result) : Bool :=
  r.changesApplied.any fun s => s == text "sshd-reloaded" || s == text "config-staged-not-reloaded"

section Runs

variable {h : Host} {t : Tools} {d : Supported} {current : Str} {files : Dropins}

/-- What an attempt does to the drop-ins: nothing, or a commit of its changes. After a commit that throws nothing it
goes on to the reload. -/
theorem run_cases (h : Host) (t : Tools) (files : Dropins) (a : Attempt) :
    ((a.commits h t files = false ∨ a.changes h files = []) ∧ (a.run h t files).files = files) ∨
    (a.commits h t files ∧ (a.run h t files).files = (commitSshdDropins t (a.changes h files) files).1 ∧
      (((commitSshdDropins t (a.changes h files) files).2 = false ∧ (a.run h t files).exitCode = some 1 ∧
          (a.run h t files).reachesReload = false) ∨
        ((commitSshdDropins t (a.changes h files) files).2 ∧ (a.run h t files).reachesReload))) := by
  cases a with
  | fix d =>
    simp only [Attempt.commits, Attempt.changes, Attempt.run, Attempt.directive, Attempt.value, remediateSshDirective]
    generalize changesOf h.library files d.directive (some d.value) = changes
    cases t.reads with
    | false => simp
    | true =>
      cases changes with
      | nil =>
        left
        simp only [isEmpty_nil, if_true, Bool.not_true, Bool.false_eq_true, if_false, or_true, true_and]
        split
        · rfl
        · split <;> rfl
      | cons c changes =>
        right
        rcases commitSshdDropins t (c :: changes) files with ⟨now, ok⟩
        cases ok with
        | false => simp [Result.exitCode, Result.reachesReload]
        | true =>
          simp only [isEmpty_cons, Bool.not_true, Bool.false_eq_true, if_false, true_and, false_and, false_or,
            Bool.true_eq_false]
          split
          · simp [Result.reachesReload]
          · split
            · simp [Result.reachesReload]
            · split <;> simp [Result.reachesReload]
  | revert d current =>
    simp only [Attempt.commits, Attempt.changes, Attempt.run, Attempt.directive, Attempt.value, revert,
      revertSshDropinDirective, matchesBefore_sshdT]
    generalize changesOf h.library files d.directive none = changes
    cases validBefore d current with
    | false => simp
    | true =>
      cases t.answersBefore && agrees d current (h.valueOf files d.directive) with
      | true => simp
      | false =>
        cases t.reads with
        | false => simp
        | true =>
          cases changes with
          | nil => simp
          | cons c changes =>
            right
            rcases commitSshdDropins t (c :: changes) files with ⟨now, ok⟩
            cases ok with
            | false => simp [Result.exitCode, Result.reachesReload]
            | true =>
              simp only [isEmpty_cons, Bool.not_true, Bool.not_false, Bool.false_eq_true, if_false, if_true,
                true_and, false_and, false_or, Bool.true_eq_false, Bool.and_self]
              split
              · simp [Result.reachesReload]
              · split
                · simp [Result.reachesReload]
                · split <;> simp [Result.reachesReload]

/-- A fix or a revert with exit code 0 has done nothing, or all that it planned. -/
theorem files_of_exitCode {a : Attempt} (hok : (a.run h t files).exitCode = some 0) :
    (a.run h t files).files = files ∨
      (a.run h t files).files = planSshDropinChanges h.library files a.directive.directive a.value := by
  rcases run_cases h t files a with ⟨-, hsame⟩ | ⟨-, hfiles, ⟨-, hcode, -⟩ | ⟨haccepted, -⟩⟩
  · exact .inl hsame
  · simp [hcode] at hok
  · exact .inr (hfiles.trans (commitSshdDropins_of_accepted (leads_changesOf _ _ _) haccepted))

theorem Attempt.value_eq (a : Attempt) : a.value = none ∨ a.value = some a.directive.value := by
  cases a with
  | fix d => exact .inr rfl
  | revert d current => exact .inl rfl

/-- It keeps the values of the other directives. -/
theorem valueOf_run {a : Attempt} (hok : (a.run h t files).exitCode = some 0) {directive : Str}
    (hne : h.library.lower directive ≠ h.library.lower a.directive.directive) :
    h.valueOf (a.run h t files).files directive = h.valueOf files directive := by
  rcases files_of_exitCode hok with hfiles | hfiles
  · rw [hfiles]
  · rw [hfiles, valueOf_planned a.value_eq hne]

end Runs

/-! ## Later attempts -/

/-- Successful fixes and reverts of the other directives. -/
inductive Later (h : Host) (d : Supported) : Dropins → Dropins → Prop
  | refl (files : Dropins) : Later h d files files
  | step {files files' : Dropins} (later : Later h d files files') (t : Tools) (a : Attempt) (hne : a.directive ≠ d)
    (hok : (a.run h t files').exitCode = some 0) : Later h d files (a.run h t files').files

/-! ## The revert -/

/-- A fix, and later the revert to the value before it. -/
structure Undoing (h : Host) where
  d : Supported
  initial : Dropins
  fixTools : Tools
  fixed : (remediateSshDirective h fixTools d initial).exitCode = some 0
  files : Dropins
  later : Later h d (remediateSshDirective h fixTools d initial).files files
  tools : Tools

namespace Undoing

variable {h : Host}

def current (u : Undoing h) : Str := h.valueOf u.initial u.d.directive

def result (u : Undoing h) : Result := revert h u.tools u.d u.current u.files

end Undoing

structure Undone {h : Host} (u : Undoing h) : Prop where
  exitCode : u.result.exitCode = some 0
  value : h.valueOf u.result.files u.d.directive = u.current
  others : ∀ directive, h.library.lower directive ≠ h.library.lower u.d.directive →
    h.valueOf u.result.files directive = h.valueOf u.files directive

structure Works (t : Tools) (files : Dropins) (changes : List DropinChange) : Prop where
  reads : t.reads = true
  ne_nil : changes ≠ []
  backsUp : BacksUp t files changes
  accepted : Accepted t changes
  reloads : t.reloads = true
  answersAfter : t.answersAfter = true

/-- The value can be gone back to: a value that agrees with it already is the same one, and otherwise our lines can be
taken out and the rest of the configuration gives the value. -/
structure Restorable {h : Host} (u : Undoing h) : Prop where
  valid : validBefore u.d u.current = true
  agrees : u.tools.answersBefore = true → agrees u.d u.current (h.valueOf u.files u.d.directive) = true →
    h.valueOf u.files u.d.directive = u.current
  base : ¬ (u.tools.answersBefore = true ∧ Undo.agrees u.d u.current (h.valueOf u.files u.d.directive) = true) →
    Works u.tools u.files (changesOf h.library u.files u.d.directive none) ∧ h.base u.d.directive = u.current

section Revert

variable {h : Host} {t : Tools} {d : Supported} {current : Str} {files : Dropins}

theorem revert_of_agrees (hvalid : validBefore d current) (hanswers : t.answersBefore)
    (hagrees : agrees d current (h.valueOf files d.directive)) :
    revert h t d current files = ⟨files, none, []⟩ := by
  simp only [revert, revertSshDropinDirective, hvalid, hanswers, matchesBefore_sshdT, hagrees, Bool.and_self, if_true]

/-- A revert that changes something ends well exactly if all goes well and the rest of the configuration gives a value
that agrees. -/
theorem revert_of_not_agrees (hvalid : validBefore d current)
    (hnot : ¬ (t.answersBefore ∧ agrees d current (h.valueOf files d.directive))) :
    ((revert h t d current files).exitCode = some 0 ↔
      Works t files (changesOf h.library files d.directive none) ∧ agrees d current (h.base d.directive)) ∧
    ((revert h t d current files).exitCode = some 0 →
      (revert h t d current files).files = planSshDropinChanges h.library files d.directive none) := by
  have hleads := leads_changesOf (l := h.library) files d.directive none
  have hbase := valueOf_reverted h d files
  have hnot : (t.answersBefore && agrees d current (h.valueOf files d.directive)) = false := by
    rw [← Bool.not_eq_true, Bool.and_eq_true]
    exact hnot
  simp only [revert, revertSshDropinDirective, hvalid, matchesBefore_sshdT, hnot]
  generalize changesOf h.library files d.directive none = changes at hleads
  have hsnd := @commitSshdDropins_snd t files changes
  have hfst := @commitSshdDropins_of_accepted t files _ changes hleads
  cases hreads : t.reads with
  | false => simpa [Result.exitCode] using fun hworks : Works t files changes => by simp [hworks.reads] at hreads
  | true =>
    cases changes with
    | nil => simpa [Result.exitCode] using fun hworks : Works t files [] => absurd rfl hworks.ne_nil
    | cons c changes =>
      rcases hcommit : commitSshdDropins t (c :: changes) files with ⟨now, ok⟩
      rw [hcommit] at hsnd hfst
      cases ok with
      | false =>
        simpa [Result.exitCode] using fun hworks : Works t files (c :: changes) =>
          absurd (hsnd.mpr ⟨hworks.backsUp, hworks.accepted⟩) (by simp)
      | true =>
        obtain ⟨hbacksUp, haccepted⟩ := hsnd.mp rfl
        have hnow : now = planSshDropinChanges h.library files d.directive none := hfst rfl
        subst hnow
        cases hreloads : t.reloads with
        | false =>
          simpa [Result.exitCode] using fun hworks : Works t files (c :: changes) => by
            simp [hworks.reloads] at hreloads
        | true =>
          cases hanswers : t.answersAfter with
          | false =>
            simpa [Result.exitCode] using fun hworks : Works t files (c :: changes) => by
              simp [hworks.answersAfter] at hanswers
          | true =>
            have hworks : Works t files (c :: changes) := ⟨hreads, by simp, hbacksUp, haccepted, hreloads, hanswers⟩
            cases hagrees : agrees d current (h.base d.directive) <;> simp [Result.exitCode, hbase, hagrees, hworks]

/-- A revert keeps the values of the other directives. -/
theorem valueOf_revert {directive : Str} (hok : (revert h t d current files).exitCode = some 0)
    (hne : h.library.lower directive ≠ h.library.lower d.directive) :
    h.valueOf (revert h t d current files).files directive = h.valueOf files directive :=
  @valueOf_run h t files (.revert d current) hok directive hne

end Revert

/-- A fix can be undone exactly if the value before it can be gone back to. -/
theorem undone_iff {h : Host} (u : Undoing h) : Undone u ↔ Restorable u := by
  by_cases hvalid : validBefore u.d u.current
  swap
  · have hrefused : u.result.exitCode = none := by simp [Undoing.result, revert, hvalid, Result.exitCode]
    exact iff_of_false (fun hundone => by simpa [hrefused] using hundone.exitCode)
      fun hrestorable => hvalid hrestorable.valid
  by_cases hagrees : u.tools.answersBefore ∧ agrees u.d u.current (h.valueOf u.files u.d.directive)
  · have hresult : u.result = ⟨u.files, none, []⟩ := revert_of_agrees hvalid hagrees.1 hagrees.2
    constructor
    · intro hundone
      have hvalue := hundone.value
      rw [hresult] at hvalue
      exact ⟨hvalid, fun _ _ => hvalue, fun hnot => absurd hagrees hnot⟩
    · intro hrestorable
      refine ⟨?_, ?_, fun directive _ => ?_⟩
      · rw [hresult, Result.exitCode]
      · rw [hresult]
        exact hrestorable.agrees hagrees.1 hagrees.2
      · rw [hresult]
  · obtain ⟨hcode, hfiles⟩ := revert_of_not_agrees hvalid hagrees
    have hvalue (hok : u.result.exitCode = some 0) : h.valueOf u.result.files u.d.directive = h.base u.d.directive := by
      rw [Undoing.result, hfiles hok, valueOf_reverted]
    constructor
    · intro hundone
      obtain ⟨hworks, -⟩ := hcode.mp hundone.exitCode
      refine ⟨hvalid, fun hanswers hagree => absurd ⟨hanswers, hagree⟩ hagrees, fun _ => ⟨hworks, ?_⟩⟩
      rw [← hvalue hundone.exitCode, hundone.value]
    · intro hrestorable
      obtain ⟨hworks, hbase⟩ := hrestorable.base hagrees
      have hok : u.result.exitCode = some 0 := hcode.mpr ⟨hworks, by rw [hbase, agrees_self]⟩
      exact ⟨hok, (hvalue hok).trans hbase, fun directive hne => valueOf_revert hok hne⟩

/-! ## Failing before the reload -/

section Intact

variable (h : Host) (t : Tools) (files : Dropins) (a : Attempt)

/-- An attempt that fails before the reload leaves both drop-ins as they were. -/
def Intact : Prop :=
  (a.run h t files).exitCode ≠ some 0 → (a.run h t files).reachesReload = false → (a.run h t files).files = files

/-- A commit that has its backups and is not accepted can be rolled back. -/
def RollsBack : Prop :=
  a.commits h t files = true → BacksUp t files (a.changes h files) → ¬ Accepted t (a.changes h files) →
    Recoverable t files (a.changes h files)

variable {h t files a}

theorem intact_iff : Intact h t files a ↔ RollsBack h t files a := by
  have hleads : Leads files _ (a.changes h files) := leads_changesOf files a.directive.directive a.value
  rcases run_cases h t files a with
    ⟨hnone, hsame⟩ | ⟨hcommits, hfiles, ⟨hthrown, hcode, hreload⟩ | ⟨haccepted, hreload⟩⟩
  · refine iff_of_true (fun _ _ => hsame) fun hcommits _ _ => ?_
    rcases hnone with hnone | hnone
    · simp [hnone] at hcommits
    · simp [Recoverable, hnone]
  · have hback := commitSshdDropins_of_rejected hleads hthrown
    have hnot : BacksUp t files (a.changes h files) → ¬ Accepted t (a.changes h files) := fun hbacksUp haccepted => by
      simp [commitSshdDropins_snd.mpr ⟨hbacksUp, haccepted⟩] at hthrown
    simp only [Intact, RollsBack, hcode, hreload, hfiles, hback, hcommits, forall_const]
    constructor
    · exact fun hrecoverable hbacksUp _ => hrecoverable (by simp) hbacksUp
    · exact fun hrecoverable _ hbacksUp => hrecoverable hbacksUp (hnot hbacksUp)
  · refine iff_of_true (fun _ hbefore => by simp [hreload] at hbefore) fun _ _ hnot => ?_
    exact absurd (commitSshdDropins_snd.mp haccepted).2 hnot

end Intact

/-! ## The result -/

/-- A fix is undone by the revert exactly if the value before it can be gone back to, and an attempt that fails before
the reload changes nothing exactly if its commit can be rolled back. -/
theorem undo_iff {h : Host} (u : Undoing h) (t : Tools) (files : Dropins) (a : Attempt) :
    (Undone u ↔ Restorable u) ∧ (Intact h t files a ↔ RollsBack h t files a) :=
  ⟨undone_iff u, intact_iff⟩

def sound : Tools where
  reads := true
  backsUp _ := true
  writes _ := true
  restores _ := true
  accepts := true
  reloads := true
  answersBefore := true
  answersAfter := true

/-- Where none of our lines set the directive before the fix, the rest of the configuration gave the value, and the
revert gives it back. -/
theorem undone_of_unset {h : Host} (u : Undoing h) (hvalid : validBefore u.d u.current)
    (hd : u.d ≠ .kexAlgorithms) (hsound : u.tools = sound)
    (hunset : ∀ file, ∀ line ∈ linesOf (read u.initial file), isLineOf h.library u.d.directive line = false) :
    Undone u := by
  have hbase : h.base u.d.directive = u.current := by
    refine Host.valueOf_congr fun file => ?_
    have hnone : read ⟨none, none⟩ file = none := by cases file <;> rfl
    rw [hnone, Host.definitions_none, definitions_of_notLine (hunset file)]
  have hagrees (actual : Str) : agrees u.d u.current actual → actual = u.current := by
    cases hcase : u.d with
    | kexAlgorithms => exact absurd hcase hd
    | permitRootLogin => simp [agrees]
    | passwordAuthentication => simp [agrees]
  refine (undone_iff u).mpr ⟨hvalid, fun _ hagree => hagrees _ hagree, fun hnot => ⟨?_, hbase⟩⟩
  have hreads : u.tools.reads ∧ u.tools.reloads ∧ u.tools.answersBefore ∧
      u.tools.answersAfter := by simp [hsound, sound]
  refine ⟨hreads.1, fun hnil => hnot ⟨hreads.2.2.1, ?_⟩, ?_, ?_, hreads.2.1, hreads.2.2.2⟩
  · -- without a line to take out the value is that of the rest of the configuration
    have hsame : planSshDropinChanges h.library u.files u.d.directive none = u.files := by
      have hleads := leads_changesOf (l := h.library) u.files u.d.directive none
      rw [hnil] at hleads
      refine files_ext fun file => not_not.mp fun hne => ?_
      simpa using hleads.all file hne
    have hvalue := valueOf_reverted h u.d u.files
    rw [hsame, hbase] at hvalue
    rw [hvalue, agrees_self]
  · intro c _ _
    rw [hsound]
    rfl
  · rw [hsound]
    exact ⟨fun _ _ => rfl, rfl⟩

/-! ## A value that our drop-in gave -/

def plainHost : Host where
  library := asciiLibrary
  lowers := ⟨fun _ _ => rfl, equals_mem_asciiLower⟩
  glob := Blame.shellGlob
  default _ := []
  mainConfig := text "Include /etc/ssh/sshd_config.d/*.conf\nPermitRootLogin yes\n"
  others := []
  nodup := by decide

/-- Our drop-in has a value already, and the revert follows the fix. -/
def plainUndoing : Undoing plainHost where
  d := .permitRootLogin
  initial := ⟨some (text "PermitRootLogin prohibit-password\n"), none⟩
  fixTools := sound
  fixed := by decide
  files := (remediateSshDirective plainHost sound .permitRootLogin
    ⟨some (text "PermitRootLogin prohibit-password\n"), none⟩).files
  later := .refl _
  tools := sound

def rejecting : Tools := { sound with accepts := false }

/-- The revert fails, with the value of the main file in effect. A rollback removes a drop-in that was empty. -/
theorem not_undone_plainUndoing :
    ¬ Undone plainUndoing ∧ ¬ Intact plainHost rejecting ⟨some [], none⟩ (.fix .permitRootLogin) := by
  constructor
  · intro hundone
    have hcode : plainUndoing.result.exitCode = some 1 := by decide
    simpa [hcode] using hundone.exitCode
  · intro hintact
    have hfiles := hintact (by decide) (by decide)
    have hremoved : ((Attempt.fix .permitRootLogin).run plainHost rejecting ⟨some [], none⟩).files.primary = none := by
      decide
    simp [hfiles] at hremoved

end Hardening.Undo
