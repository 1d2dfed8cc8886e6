-- SUMMARY: The writes of a hardening request, and the check of the whole request before anything is written.
import Tracenium.Hardening.Grammar
import Tracenium.Hardening.Policy
import Tracenium.Ipc.Wire
import Tracenium.Lib.Checks
import Tracenium.Lib.JsonObject

/-!
`parseWrites`. A lookup in a closed list that is not asked for own entries may find a member of `Object.prototype`, and
reading on from there may throw.
-/

open Utf16 Json

namespace Hardening

structure Library where
  /-- `toLowerCase`. -/
  lower : Str → Str
  /-- `Number.isInteger(n) && n >= 0`. -/
  isNatural : Numeral → Bool

/-- Texts in ASCII, and numbers that are written with digits only. -/
def asciiLibrary : Library where
  lower s := s.map fun u => if isUpper u then u + 0x20 else u
  isNatural n := n.text.all isDigit

structure PermRestore where
  file : Str
  mode : Str
  uid : Numeral
  gid : Numeral
  deriving DecidableEq

/-- `null` in a value is `none`. The name of an sshd directive is undefined if the entry has none. -/
inductive LinuxWrite
  | sysctl (key value : Str) (persist : Bool)
  | kmod (module : Str) (disable : Bool)
  | auditRule (line : Str) (present : Bool)
  | conf (file key : Str) (value : Option Str)
  | sshd (key : Option Str) (value : Option Str) (required : Option (List Str))
  | line (file line : Str) (present : Bool)
  | pkg (name : Str) (installed : Bool)
  | unit (unit : Str) (enabled : Bool)
  | perm (path maxMode : Str) (restore : Option (List PermRestore))
  | banner (file text : Str) (restore : Option (Option Str))
  | grubAudit (present : Bool)
  deriving DecidableEq

/-- `Check`, for code that may throw as well. -/
abbrev Check (α : Type) := Verdict Str α

/-! ## Members -/

/-- `typeof w[k] === "string"`. -/
def strField (w : Json) (k : String) : Option Str :=
  match w.field (text k) with
  | some (.str s) => some s
  | _ => none

/-- `typeof w[k] === "boolean"`. -/
def boolField (w : Json) (k : String) : Option Bool :=
  match w.field (text k) with
  | some (.bool b) => some b
  | _ => none

/-- A string or `null`. -/
def nullableField (w : Json) (k : String) : Option (Option Str) :=
  match w.field (text k) with
  | some .null => some none
  | some (.str s) => some (some s)
  | _ => none

def naturalField (l : Library) (w : Json) (k : String) : Option Numeral :=
  match w.field (text k) with
  | some (.num n) => if l.isNatural n then some n else none
  | _ => none

def strings : Json → Option (List Str)
  | .arr xs => xs.mapM fun x =>
    match x with
    | .str s => some s
    | _ => none
  | _ => none

def refusal (i : Nat) (message : Str) : Str :=
  text "writes[" ++ decimal i ++ text "]" ++ message

def guardText (guard : Str) : Str := text ": guarded (" ++ guard ++ text ")"

def unlessGuarded (guard : Option Str) (w : LinuxWrite) : Check LinuxWrite :=
  match guard with
  | some guard => .refused (guardText guard)
  | none => .ok w

/-! ## The kinds of writes -/

section Kinds

variable (l : Library)

def sysctlGuard (key value : Str) : Option Str :=
  if isForwarding (l.lower key) && Ipc.trim value == text "0" then some IP_FORWARD_GUARD else none

def parseSysctl (w : Json) : Check LinuxWrite :=
  match (strField w "key").filter isSysctlKey with
  | none => .refused (text ": invalid sysctl key")
  | some key =>
    match (strField w "value").filter isSafeValue with
    | none => .refused (text ": invalid sysctl value")
    | some value =>
      match boolField w "persist" with
      | none => .refused (text ": persist must be boolean")
      | some persist => unlessGuarded (sysctlGuard l key value) (.sysctl key value persist)

def parseKmod (w : Json) : Check LinuxWrite :=
  match strField w "module" with
  | none => .refused (text ": module not on the list Tracenium may block")
  | some module =>
    match KMOD_POLICY.own module with
    | none => .refused (text ": module not on the list Tracenium may block")
    | some policy =>
      match boolField w "disable" with
      | none => .refused (text ": disable must be boolean")
      | some disable =>
        unlessGuarded (if disable then policy.guard else none) (.kmod module disable)

def parseAuditRule (w : Json) : Check LinuxWrite :=
  match (strField w "line").filter isAuditRule with
  | none => .refused (text ": audit rule is not one of the two shapes Tracenium writes")
  | some line =>
    match boolField w "present" with
    | none => .refused (text ": present must be boolean")
    | some present => .ok (.auditRule line present)

/-- The own members of the function `Object.keys`, which have no guard. -/
def objectKeys : Literal Guarded := ⟨[(text "length", free), (text "name", free)]⟩

/-- `CONF_FILES[file]?.keys`, where the lookup finds something. Of what is inherited only the function
`Object` has keys. -/
def confKeys (file : Str) : Option (Option (Literal Guarded)) :=
  match CONF_FILES.member file with
  | .own policy => some (some policy.keys)
  | .inherited name => some (if name = text "constructor" then some objectKeys else none)
  | .absent => none

def parseConf (w : Json) : Check LinuxWrite :=
  match strField w "file" with
  | none => .refused (text ": file not on the list Tracenium may edit")
  | some file =>
    match confKeys file with
    | none => .refused (text ": file not on the list Tracenium may edit")
    | some keys =>
      match strField w "key" with
      | none => .refused (text ": key not on the list for " ++ file)
      | some key =>
        match keys with
        -- `hasOwnProperty.call(undefined, key)`
        | none => .threw
        | some keys =>
          match keys.own key with
          | none => .refused (text ": key not on the list for " ++ file)
          | some entry =>
            match (nullableField w "value").filter fun v => v.all isConfValue with
            | none => .refused (text ": invalid value")
            | some value =>
              unlessGuarded (if value.isSome then entry.guard else none) (.conf file key value)

/-- The check of a value by the grammar of its directive, and the algorithms that are required. -/
def parseSshdValue (policy : SshdPolicy) (value : Str) (w : Json) : Check (Option (List Str)) :=
  if policy.list then
    let items := value.splitOn comma
    if items.length > 32 || !items.all isSshdAlgorithm then
      .refused (text ": invalid algorithm list")
    else
      match w.field (text "required") with
      | none => .ok none
      | some required =>
        match (strings required).filter fun rs => rs.all items.contains with
        | none => .refused (text ": required algorithms must come from the list")
        | some rs => .ok (if rs.isEmpty then none else some rs)
  else if isSshdValue value then .ok none
  else .refused (text ": invalid value")

def parseSshdOwn (policy : SshdPolicy) (w : Json) : Check LinuxWrite :=
  match nullableField w "value" with
  | none => .refused (text ": invalid value")
  | some none => .ok (.sshd (some policy.name) none none)
  | some (some value) =>
    match parseSshdValue policy value w with
    | .ok required =>
      if policy.values.any fun values => !values.contains value then
        .refused (text ": " ++ policy.name ++ text " " ++ value ++
          text " is not a value Tracenium sets")
      else
        unlessGuarded (if some (l.lower value) = policy.guardValue then policy.guard else none)
          (.sshd (some policy.name) (some value) required)
    | .refused message => .refused message
    | .threw => .threw

/-- The member `name` of what is inherited under a key: `Object` and the methods have one, the
prototype itself has none. -/
def inheritedName (key : Str) : Option Str :=
  if key = text "constructor" then some (text "Object")
  else if key = text "__proto__" then none
  else some key

def parseSshdInherited (key : Str) (w : Json) : Check LinuxWrite :=
  match (nullableField w "value").filter fun v => v.all isSshdValue with
  | none => .refused (text ": invalid value")
  | some value =>
    -- `Object.values` is a function, which has no `includes`
    if key = text "constructor" ∧ value ≠ none then .threw
    else .ok (.sshd (inheritedName key) value none)

def parseSshd (w : Json) : Check LinuxWrite :=
  match strField w "key" with
  | none => .refused (text ": sshd directive not on the list Tracenium may set")
  | some key =>
    match SSHD_DIRECTIVES.member (l.lower key) with
    | .own policy => parseSshdOwn l policy w
    | .inherited name => parseSshdInherited name w
    | .absent => .refused (text ": sshd directive not on the list Tracenium may set")

def parseLine (w : Json) : Check LinuxWrite :=
  match strField w "file" with
  | none => .refused (text ": file not on the list Tracenium may edit")
  | some file =>
    match LINE_FILES.member file with
    | .absent => .refused (text ": file not on the list Tracenium may edit")
    | .inherited _ =>
      match strField w "line" with
      | none => .refused (text ": line not on the list for " ++ file)
      -- nothing that is inherited has lines: `hasOwnProperty.call(undefined, line)`
      | some _ => .threw
    | .own policy =>
      match strField w "line" with
      | none => .refused (text ": line not on the list for " ++ file)
      | some line =>
        match policy.lines.own line with
        | none => .refused (text ": line not on the list for " ++ file)
        | some entry =>
          match boolField w "present" with
          | none => .refused (text ": present must be boolean")
          | some present =>
            unlessGuarded (if present then entry.guard else none) (.line file line present)

/-- The guard of one direction, unless the write carries its override. -/
def PkgRule.guard (rule : PkgRule) (installed accepted : Bool) : Option Str :=
  if installed then
    rule.install.bind fun install => if install.acceptable && accepted then none else install.guard
  else rule.remove.bind Guarded.guard

def parsePkg (w : Json) : Check LinuxWrite :=
  match strField w "name" with
  | none => .refused (text ": package not on the list Tracenium may install or remove")
  | some name =>
    match PKG_POLICY.own name with
    | none => .refused (text ": package not on the list Tracenium may install or remove")
    | some policy =>
      match boolField w "installed" with
      | none => .refused (text ": installed must be boolean")
      | some installed =>
        unlessGuarded (policy.guard installed (boolField w "accepted" = some true))
          (.pkg name installed)

def UnitRule.guard (rule : UnitRule) (enabled : Bool) : Option Str :=
  (if enabled then rule.enable else rule.disable).bind Guarded.guard

def parseUnit (w : Json) : Check LinuxWrite :=
  match strField w "unit" with
  | none => .refused (text ": unit not on the list Tracenium may enable or disable")
  | some unit =>
    match UNIT_POLICY.own unit with
    | none => .refused (text ": unit not on the list Tracenium may enable or disable")
    | some policy =>
      match boolField w "enabled" with
      | none => .refused (text ": enabled must be boolean")
      | some enabled => unlessGuarded (policy.guard enabled) (.unit unit enabled)

/-- The text that a banner had before, if it is given: `null` if there was no file. -/
def bannerRestore (w : Json) : Option (Option (Option Str)) :=
  match w.field (text "restore") with
  | none => some none
  | some .null => some (some none)
  | some (.str s) => if s.length > 8192 || s.contains 0 then none else some (some (some s))
  | some _ => none

def parseBanner (w : Json) : Check LinuxWrite :=
  match (strField w "file").filter BANNER_FILES.contains with
  | none => .refused (text ": banner file not on the list")
  | some file =>
    if strField w "text" ≠ some BANNER_TEXT then
      .refused (text ": only the standard banner text is written")
    else
      match bannerRestore w with
      | none => .refused (text ": invalid restore text")
      | some restore => .ok (.banner file BANNER_TEXT restore)

def parseGrubAudit (w : Json) : Check LinuxWrite :=
  match boolField w "present" with
  | none => .refused (text ": present must be boolean")
  | some present => .ok (.grubAudit present)

def PermScope.admits (scope : PermScope) (path file : Str) : Bool :=
  !hasDotDot file && match scope with
    | .path => file == path
    | .files => dirname file == path

def parseRestoreEntry (scope : PermScope) (path : Str) (r : Json) : Check PermRestore :=
  match (strField r "file").filter (scope.admits path) with
  | none => .refused (text ": restore entry outside " ++ path)
  | some file =>
    match (strField r "mode").filter isMode with
    | none => .refused (text ": restore mode must be three octal digits")
    | some mode =>
      match naturalField l r "uid", naturalField l r "gid" with
      | some uid, some gid => .ok ⟨file, mode, uid, gid⟩
      | _, _ => .refused (text ": restore uid/gid must be numbers")

def parseRestore (scope : PermScope) (path : Str) : Option Json → Check (Option (List PermRestore))
  | none => .ok none
  | some (.arr rs) =>
    if rs.isEmpty || rs.length > 256 then
      .refused (text ": restore must be a list of 1–256 entries")
    else
      match Verdict.collect (fun _ r => parseRestoreEntry l scope path r) 0 rs with
      | .ok entries => .ok (some entries)
      | .refused message => .refused message
      | .threw => .threw
  | some _ => .refused (text ": restore must be a list of 1–256 entries")

def parsePerm (w : Json) : Check LinuxWrite :=
  match strField w "path" with
  | none => .refused (text ": path not on the list Tracenium may change permissions of")
  | some path =>
    match PERM_POLICY.own path with
    | none => .refused (text ": path not on the list Tracenium may change permissions of")
    | some policy =>
      if strField w "maxMode" ≠ some policy.maxMode then
        .refused (text ": maxMode for " ++ path ++ text " is " ++ policy.maxMode)
      else
        match parseRestore l policy.scope path (w.field (text "restore")) with
        | .ok restore => .ok (.perm path policy.maxMode restore)
        | .refused message => .refused message
        | .threw => .threw

/-! ## The request -/

inductive Kind
  | sysctl
  | kmod
  | auditRule
  | conf
  | sshd
  | line
  | pkg
  | unit
  | banner
  | grubAudit
  | perm
  deriving DecidableEq

def kinds : Literal Kind where
  entries := [(text "sysctl", .sysctl), (text "kmod", .kmod), (text "audit_rule", .auditRule),
    (text "conf", .conf), (text "sshd", .sshd), (text "line", .line), (text "pkg", .pkg),
    (text "unit", .unit), (text "banner", .banner), (text "grub_audit", .grubAudit),
    (text "perm", .perm)]

def kindOf (w : Json) : Option Kind := (strField w "kind").bind kinds.own

def parseKind (w : Json) : Kind → Check LinuxWrite
  | .sysctl => parseSysctl l w
  | .kmod => parseKmod w
  | .auditRule => parseAuditRule w
  | .conf => parseConf w
  | .sshd => parseSshd l w
  | .line => parseLine w
  | .pkg => parsePkg w
  | .unit => parseUnit w
  | .banner => parseBanner w
  | .grubAudit => parseGrubAudit w
  | .perm => parsePerm l w

def parseWrite (i : Nat) (w : Json) : Check LinuxWrite :=
  match w with
  | .obj _ =>
    match kindOf w with
    | none => .refused (refusal i (text ": unknown kind"))
    | some kind =>
      match parseKind l w kind with
      | .ok write => .ok write
      | .refused message => .refused (refusal i message)
      | .threw => .threw
  | _ => .refused (refusal i (text " is not an object"))

def parseWrites (params : Json) : Check (List LinuxWrite) :=
  match params.field (text "writes") with
  | some (.arr raw) =>
    if raw.isEmpty || raw.length > 64 then
      .refused (text "params.writes must be a list of 1–64 writes")
    else Verdict.collect (parseWrite l) 0 raw
  | _ => .refused (text "params.writes must be a list of 1–64 writes")

end Kinds

end Hardening
