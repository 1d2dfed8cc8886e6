-- SUMMARY: What is read from our files of sysctl, of kernel modules and of keys with values, and the editors of these files.
import Tracenium.Hardening.SshdDropin
import Tracenium.Lib.LineEdits

/-! The readers and the editors each have their own regular expressions. -/

open Utf16

namespace Hardening

open Ipc

/-- What `.` does not match. -/
def isLineEnd (u : UInt16) : Bool := u == newline || u == 0x0D || u == 0x2028 || u == 0x2029

/-! ## sysctl -/

/-- `([class]+)\s*=`, from the start: the name and what comes after it. -/
def assigned (unit : UInt16 → Bool) (s : Str) : Option (Str × Str) :=
  if (s.takeWhile unit).isEmpty then none
  else
    match (s.dropWhile unit).dropWhile isSpace with
    | u :: rest => if u = equals then some (s.takeWhile unit, rest) else none
    | [] => none

/-- `-?([class]+)\s*=`. Where nothing is found after the dash, it is a part of the name. -/
def dashAssigned (unit : UInt16 → Bool) (s : Str) : Option (Str × Str) :=
  match s with
  | u :: rest => if u = dash then (assigned unit rest).or (assigned unit s) else assigned unit s
  | [] => none

/-- `replace(/\//g, ".")`. -/
def dotted (name : Str) : Str := name.map fun u => if u = slash then dot else u

/-- `[^=\s]`. -/
def isReadUnit (u : UInt16) : Bool := u != equals && !Ipc.isSpace u

/-- `[^=#\s]`. -/
def isEditedUnit (u : UInt16) : Bool := isReadUnit u && u != hash

/-- `/^-?([^=\s]+)\s*=\s*(.*)$/` on an active line. -/
def sysctlEntry (line : Str) : Option (Str × Str) :=
  (dashAssigned isReadUnit line).bind fun (name, rest) =>
    let value := rest.dropWhile isSpace
    if value.any isLineEnd then none else some (dotted name, trim value)

def sysctlEntries (file : Option Str) : List (Str × Str) := (activeLines file).filterMap sysctlEntry

/-- `/^\s*-?([^=#\s]+)\s*=/`: the key of a line, as the editor sees it. -/
def sysctlLineKey (line : Str) : Option Str :=
  (dashAssigned isEditedUnit (line.dropWhile isSpace)).map fun (name, _) => dotted name

def sysctlHeader : Str := text "# Managed by Tracenium — compliance fixes. Remove a line to hand it back."

def editSysctlDropin (file : Option Str) (key : Str) (value : Option Str) : Str :=
  settleLines (some sysctlHeader) ((lines (file.getD [])).filter fun l => !(sysctlLineKey l == some key))
    (value.map fun v => key ++ text " = " ++ v)

/-! ## Kernel modules -/

def installLine (mod : Str) : Str := text "install " ++ mod ++ text " /bin/false"

def blacklistLine (mod : Str) : Str := text "blacklist " ++ mod

def isBlocked (dropin : Option Str) (mod : Str) : Bool :=
  (activeLines dropin).contains (installLine mod) && (activeLines dropin).contains (blacklistLine mod)

def modprobeHeader : Str := text "# Managed by Tracenium — kernel modules blocked by compliance fixes."

def editModprobeDropin (file : Option Str) (mod : Str) (block : Bool) : Str :=
  let drop := [installLine mod, blacklistLine mod]
  let kept := dropBlankEnd ((lines (file.getD [])).filter fun l => !drop.contains (trim l))
  let kept := if kept.isEmpty then [modprobeHeader] else kept
  joinLines (kept ++ if block then drop else []) ++ [newline]

/-! ## Keys and values -/

def bracket : UInt16 := 0x5B

/-- `replace(/#.*$/, "")`: the first hash after which no line ends. -/
def stripComment : Str → Str
  | [] => []
  | u :: s => if u = hash && !s.any isLineEnd then [] else u :: stripComment s

def isQuote (u : UInt16) : Bool := u == quote || u == 0x27

/-- `replace(/^["']|["']$/g, "")`. -/
def unquoteEnds (v : Str) : Str :=
  let v := if v.head?.any isQuote then v.tail else v
  if v.getLast?.any isQuote then v.dropLast else v

/-- `[A-Za-z_]`. -/
def isConfStart (u : UInt16) : Bool := isUpper u || isLower u || u == underscore

/-- `[A-Za-z0-9_.\-]`. -/
def isConfUnit (u : UInt16) : Bool := isNameUnit u || u == dot

/-- A line as `parseKeyValue` looks at it. -/
def confLine (raw : Str) : Str := trim (stripComment raw)

/-- `/^([A-Za-z_][A-Za-z0-9_.\-]*)\s*(?:=\s*|\s+)(.*)$/` on a line without its comment. -/
def confEntry (raw : Str) : Option (Str × Str) :=
  let line := confLine raw
  if line.isEmpty || line.head? = some bracket || !line.head?.any isConfStart then none
  else
    let rest := line.dropWhile isConfUnit
    let value :=
      match rest.dropWhile isSpace with
      | u :: rest' =>
        if u = equals then some (rest'.dropWhile isSpace)
        else if rest.head?.any isSpace then some (u :: rest') else none
      | [] => if rest.isEmpty then none else some []
    value.bind fun v => if v.any isLineEnd then none else some (line.takeWhile isConfUnit, unquoteEnds (trim v))

def confEntries (file : Option Str) : List (Str × Str) := (linesOf file).filterMap confEntry

/-- `parseKeyValue`: the last value of a key counts, the map keeps the keys in the order in which they come first. -/
def parseKeyValue (file : Option Str) : OrderedMap Str Str :=
  (confEntries file).foldl (fun m e => m.set e.1 e.2) .empty

section Probe

variable (l : Library)

/-- `lookup`. -/
def lookup (m : OrderedMap Str Str) (key : Str) : Option Str :=
  (m.entries.find? fun e => l.lower e.1 = l.lower key).map Prod.snd

/-- The value that `effectiveConf` takes from one file. -/
def take (file : Option Str) (key : Str) : Option Str :=
  ((parseKeyValue file).entries.filter fun e => l.lower e.1 = l.lower key).getLast?.map Prod.snd

end Probe

def formatConf (style : ConfStyle) (key value : Str) : Str :=
  match style with
  | .bare => key ++ text "\t" ++ value
  | .shell => key ++ text "=" ++ value
  | .systemd => key ++ text "=" ++ value
  | .eq => key ++ text " = " ++ value

/-- Without the case of letters from A to Z, as a regular expression with the flag `i` compares a key. -/
def fold (s : Str) : Str := s.map fun u => if isUpper u then u + 0x20 else u

/-- `^\s*key\s*(=|\s)`, without the case, and not `^\s*#`. -/
def setsKey (key line : Str) : Bool :=
  let s := line.dropWhile isSpace
  fold (s.take key.length) == fold key &&
    (s.drop key.length).head?.any (fun u => u == equals || isSpace u) && s.head? != some hash

/-- `replace(/\n*$/, "\n")`. -/
def endOnce (s : Str) : Str := s.rdropWhile (· == newline) ++ [newline]

def superseded (line : Str) : Str := text "# " ++ trim line ++ text "  # superseded by Tracenium"

def confHeader : Str := text "# Managed by Tracenium — compliance fixes."

def sectionLine (name : Str) : Str := text "[" ++ name ++ text "]"

def editConf (file : Option Str) (policy : ConfPolicy) (key : Str) (value : Option Str) (isDropin : Bool) : Str :=
  let ls := lines (file.getD [])
  match value with
  | none => endOnce (joinLines (ls.filter fun l => !setsKey key l))
  | some value =>
    let newLine := formatConf policy.style key value
    if ls.any (setsKey key) then endOnce (joinLines (LineEdits.supersede (setsKey key) superseded newLine ls))
    else
      let out := dropBlankEnd ls
      let header :=
        match policy.section with
        | some name =>
          if isDropin && !out.any (fun l => trim l == sectionLine name) then
            (if out.isEmpty then [confHeader] else []) ++ [sectionLine name]
          else []
        | none => []
      joinLines (out ++ header ++ [newLine]) ++ [newline]

/-- What `CONF_FILES[file]` gives where it finds the function `Object`: none of the fields of a policy. -/
def objectPolicy : ConfPolicy where
  mode := .inplace
  style := .eq
  effect := .immediate
  keys := objectKeys

/-- `CONF_FILES[file]`, for a file that the validator lets through. -/
def confPolicy (file : Str) : ConfPolicy := (CONF_FILES.own file).getD objectPolicy

/-! ## Sections -/

/-- The entries of the lines, each with the header that it comes under. -/
def sectioned : Option Str → List Str → List (Option Str × Str × Str)
  | _, [] => []
  | current, raw :: ls =>
    if (confLine raw).head? = some bracket then sectioned (some (confLine raw)) ls
    else
      match confEntry raw with
      | some e => (current, e) :: sectioned current ls
      | none => sectioned current ls

/-- The header that holds after some lines. -/
def lastHeader (ls : List Str) : Option Str :=
  ((ls.map confLine).filter fun line => line.head? = some bracket).getLast?

end Hardening
