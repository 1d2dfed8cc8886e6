-- SUMMARY: For the writes of an accepted request, when the editors of our files and what is read from the files agree.
import Tracenium.Hardening.ConfEdits
import Tracenium.Hardening.Whitelist

open Utf16 List Option

namespace Hardening

variable {l : Library} {file : Option Str}

/-- What is read from the file after a write is what was written, the rest of the file reads as before, and the write
changes nothing when it is applied again. -/
def Agrees (l : Library) (file : Option Str) : LinuxWrite → Prop
  | .sysctl key value persist => SysctlAgrees file key (if persist then some value else none)
  | .kmod mod disable => ModprobeAgrees file mod disable
  | .auditRule line present => AuditAgrees file line present
  | .conf f key value => ConfAgrees l file (confPolicy f) key value
  | _ => True

/-- A value of sysctl has no spaces around it, and a key is put under the header of its section. -/
def Readable (file : Option Str) : LinuxWrite → Prop
  | .sysctl _ value persist => persist = true → Ipc.trim value = value
  | .conf f key value => value.isSome = true → UnderSection file (confPolicy f) key
  | _ => True

/-! ## Accepted writes -/

theorem plain_of_isSafeValue {v : Str} (h : isSafeValue v) : ∀ u ∈ v, isPlainUnit u ∨ u = space := by
  simp only [isSafeValue, isRun, Bool.and_eq_true, List.all_eq_true] at h
  intro u hu
  rcases Bool.or_eq_true_iff.mp (h.2 u hu) with hword | hother
  · exact .inl (by simp [isPlainUnit, isNameUnit, hword])
  · have hall : (text ".:/ -").all (fun u => isPlainUnit u || u == space) := by decide
    simpa using List.all_eq_true.mp hall u (List.contains_iff_mem.mp hother)

theorem isConfWritten_of_isConfValue {v : Str} (h : isConfValue v) : IsConfWritten v := by
  simp only [isConfValue, isRun, Bool.and_eq_true, Bool.not_eq_true', List.isEmpty_eq_false_iff, List.all_eq_true] at h
  refine ⟨h.1.1, fun u hu => ?_⟩
  rcases Bool.or_eq_true_iff.mp (h.2 u hu) with hword | hother
  · simp [isPlainUnit, isNameUnit, hword]
  · have hall : (text ".:/-").all isPlainUnit = true := by decide
    exact List.all_eq_true.mp hall u (List.contains_iff_mem.mp hother)

def isConfKeyText (key : Str) : Bool := key.head?.any isConfStart && key.all isNameUnit

theorem isConfKey_of_text {key : Str} (h : isConfKeyText key = true) : IsConfKey key := by
  simp only [isConfKeyText, Bool.and_eq_true, List.all_eq_true] at h
  exact ⟨h.1, h.2⟩

/-- The keys of the closed list, and the headers of its sections. -/
theorem isPolicy_of_own {f key : Str} {policy : ConfPolicy} {entry : Guarded} (hown : CONF_FILES.own f = some policy)
    (hentry : policy.keys.own key = some entry) : IsPolicy policy ∧ IsConfKey key := by
  have hkeys : CONF_FILES.entries.all (fun e => e.2.keys.entries.all fun k => isConfKeyText k.1) := by
    decide
  have hsections : CONF_FILES.entries.all (fun e => e.2.section.all fun name =>
      confLine (sectionLine name) == sectionLine name && Ipc.trim (sectionLine name) == sectionLine name &&
        !(sectionLine name).contains newline) := by
    decide
  have hmem := Literal.mem_of_own hown
  refine ⟨⟨fun name hname => ?_⟩, isConfKey_of_text ?_⟩
  · have h := all_eq_true.mp hsections _ hmem
    rw [mem_def.mp hname] at h
    simpa [and_assoc] using h
  · exact all_eq_true.mp (all_eq_true.mp hkeys _ hmem) _ (Literal.mem_of_own hentry)

theorem isPolicy_objectPolicy : IsPolicy objectPolicy := ⟨fun _ hname => by cases hname⟩

theorem confPolicy_constructor : confPolicy (text "constructor") = objectPolicy := by
  have hown : CONF_FILES.own (text "constructor") = none := by
    have hinherits : CONF_FILES.Inherits (text "constructor") := by decide
    exact hinherits.1
  rfl

theorem agrees_of_permits (hl : LowersAscii l) {w : Json} {out : LinuxWrite} (h : Permits l w out) (file : Option Str) :
    Agrees l file out ↔ Readable file out := by
  cases h with
  | sysctl hkind hkey hgrammar hvalue hsafe hpersist hguard =>
    rename_i key value persist
    have hplain : ∀ v ∈ (if persist then some value else none), ∀ u ∈ v, isPlainUnit u ∨ u = space := by
      intro v hv
      cases persist with
      | true => exact some.inj hv ▸ plain_of_isSafeValue hsafe
      | false => cases hv
    rw [Agrees, sysctlAgrees_iff file (isParameter_of_isSysctlKey hgrammar) hplain, Readable]
    cases persist <;> simp
  | kmod hkind hmodule hown hdisable hguard => exact iff_of_true (modprobeAgrees file hown _) trivial
  | auditRule hkind hline hgrammar hpresent =>
    exact iff_of_true (auditAgrees file (isRule_of_isAuditRule hgrammar) _) trivial
  | conf hkind hfile hown hkey hentry hvalue hgrammar hguard =>
    rename_i f key policy entry value
    obtain ⟨hpolicy, hconf⟩ := isPolicy_of_own hown hentry
    have heq : confPolicy f = policy := by rw [confPolicy, hown, getD_some]
    have hwritten : ∀ v ∈ value, IsConfWritten v := fun v hv => by
      rw [mem_def.mp hv] at hgrammar
      exact isConfWritten_of_isConfValue hgrammar
    rw [Agrees, Readable, heq]
    exact confAgrees_iff hl file hpolicy hconf hwritten
  | _ => exact Iff.rfl

theorem agrees_of_leaks (hl : LowersAscii l) {w : Json} {out : LinuxWrite} (h : Leaks l w out) (file : Option Str) :
    Agrees l file out ↔ Readable file out := by
  cases h with
  | conf hkind hfile hkey hmember hvalue hgrammar =>
    rename_i key value
    have hconf : IsConfKey key := by
      rcases hmember with rfl | rfl <;> exact isConfKey_of_text (by decide)
    have hwritten : ∀ v ∈ value, IsConfWritten v := fun v hv => by
      rw [mem_def.mp hv] at hgrammar
      exact isConfWritten_of_isConfValue hgrammar
    exact confAgrees_iff hl file isPolicy_objectPolicy hconf hwritten
  | sshd => exact Iff.rfl

/-- For every write of an accepted request and every text of its file, the editor and the reader agree exactly if the
value of sysctl has no spaces around it and the key comes under the header of its section. -/
theorem agrees_iff_readable (hl : LowersAscii l) {params : Json} {writes : List LinuxWrite}
    (h : parseWrites l params = .ok writes) {w : LinuxWrite} (hw : w ∈ writes) (file : Option Str) :
    Agrees l file w ↔ Readable file w := by
  obtain ⟨raw, -, -, -, htakes⟩ := parseWrites_ok_iff.mp h
  obtain ⟨v, -, hv⟩ := htakes.flip.exists_of_mem_left hw
  rcases hv with hpermits | hleaks
  · exact agrees_of_permits hl hpermits file
  · exact agrees_of_leaks hl hleaks file

/-! ## A drop-in of journald -/

def storageWrite : LinuxWrite :=
  .conf (text "/etc/systemd/journald.conf") (text "Storage") (some (text "persistent"))

def storageRequest : Json :=
  .obj [(text "writes", .arr [.obj [(text "kind", .str (text "conf")),
    (text "file", .str (text "/etc/systemd/journald.conf")), (text "key", .str (text "Storage")),
    (text "value", .str (text "persistent"))]])]

/-- Where there is no drop-in yet, the key is put under the header of its section. -/
theorem agrees_storage_absent : Agrees asciiLibrary none storageWrite := by
  have hrequest : parseWrites asciiLibrary storageRequest = .ok [storageWrite] := by decide
  refine (agrees_iff_readable (fun _ _ => rfl) hrequest mem_cons_self none).mpr fun _ _ name _ => ?_
  have hsets : (linesOf none).any (setsKey (text "Storage")) = false := by decide
  intro hany
  obtain ⟨line, hline, heq⟩ := any_eq_true.mp hany
  have hlines : linesOf none = [[]] := rfl
  have hhead := head?_sectionLine name
  rw [hlines, mem_singleton] at hline
  rw [← eq_of_beq heq, hline] at hhead
  cases hhead

/-- The section of journald comes first, and another one after it. -/
def handEdited : Str := text "[Journal]\nCompress=yes\n\n[Upload]\nURL=x\n"

/-- The new key is put at the end of the file, under the header of the other section. -/
theorem not_agrees_storage : parseWrites asciiLibrary storageRequest = .ok [storageWrite] ∧
      ¬ Agrees asciiLibrary (some handEdited) storageWrite := by
  refine ⟨by decide, fun h => ?_⟩
  have hplaced := h.placed (by decide) (text "Journal") (by decide)
    (some (text "[Upload]"), text "Storage", text "persistent") (by decide) rfl
  exact absurd hplaced (by decide)

end Hardening
