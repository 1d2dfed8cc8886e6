-- SUMMARY: Absolute paths of POSIX and Windows, and the file jail: which of them a remote file session may reach.
import Tracenium.Lib.FileTree
import Tracenium.Lib.Segments
import Tracenium.Lib.JsonObject

/-!
What `path.posix` and `path.win32` do, as far as the jail calls them. An absolute path that `resolve`
returns is kept as its device and its names; its text has a separator between any two of them.
-/

open Utf16 Segments

namespace Rcp

/-- `NodeJS.Platform`; every other platform is handled like Linux. -/
inductive Platform
  | linux
  | darwin
  | win32
  deriving DecidableEq

def slash : UInt16 := 0x2F
def backslash : UInt16 := 0x5C
def dot : UInt16 := 0x2E
def colon : UInt16 := 0x3A

def Platform.sep : Platform → UInt16
  | .win32 => backslash
  | _ => slash

/-- Windows takes both separators. -/
def isPathSeparator (platform : Platform) (c : UInt16) : Bool :=
  c = slash || (platform = .win32 && c = backslash)

theorem isPathSeparator_sep (platform : Platform) : isPathSeparator platform platform.sep := by
  cases platform <;> rfl

theorem isPathSeparator_slash (platform : Platform) : isPathSeparator platform slash := by
  cases platform <;> rfl

/-! ## Strings -/

/-- `WhiteSpace` and `LineTerminator`. -/
def isSpace (c : UInt16) : Bool :=
  (0x09 ≤ c && c ≤ 0x0D) || c = 0x20 || c = 0xA0 || c = 0x1680 || (0x2000 ≤ c && c ≤ 0x200A) ||
    c = 0x2028 || c = 0x2029 || c = 0x202F || c = 0x205F || c = 0x3000 || c = 0xFEFF

def trim (s : Str) : Str := ((s.dropWhile isSpace).reverse.dropWhile isSpace).reverse

/-- `toLowerCase`. It goes over the separators, makes none and drops nothing. -/
structure Casing where
  lower : Str → Str
  lower_sep : ∀ a b c, c = slash ∨ c = backslash → lower (a ++ c :: b) = lower a ++ c :: lower b
  lower_clean : ∀ a c, c = slash ∨ c = backslash → c ∉ a → c ∉ lower a
  lower_nil : ∀ a, lower a = [] ↔ a = []

def lowerUnit (c : UInt16) : UInt16 := if 0x41 ≤ c && c ≤ 0x5A then c + 0x20 else c

theorem lowerUnit_eq_iff {c d : UInt16} (hd : d = slash ∨ d = backslash) : lowerUnit c = d ↔ c = d := by
  unfold lowerUnit
  split
  · rename_i hupper
    rw [Bool.and_eq_true, decide_eq_true_eq, decide_eq_true_eq, UInt16.le_iff_toNat_le,
      UInt16.le_iff_toNat_le] at hupper
    have hsum : (c + 0x20).toNat = c.toNat + 32 := by
      exact Nat.mod_eq_of_lt (Nat.lt_of_le_of_lt (Nat.add_le_add_right hupper.2 32) (by decide))
    have hlow : (65 : Nat) ≤ c.toNat := hupper.1
    have hhigh : c.toNat ≤ 90 := hupper.2
    constructor
    · intro heq
      have hnat := congrArg UInt16.toNat heq
      rcases hd with rfl | rfl
      · have hslash : slash.toNat = 47 := rfl
        omega
      · have hbackslash : backslash.toNat = 92 := rfl
        omega
    · intro heq
      have hnat := congrArg UInt16.toNat heq
      rcases hd with rfl | rfl
      · have hslash : slash.toNat = 47 := rfl
        omega
      · have hbackslash : backslash.toNat = 92 := rfl
        omega
  · exact Iff.rfl

def asciiCasing : Casing where
  lower := List.map lowerUnit
  lower_sep := by
    intro a b c hc
    rw [List.map_append, List.map_cons, (lowerUnit_eq_iff hc).mpr rfl]
  lower_clean := by
    intro a c hc hmem hlower
    obtain ⟨d, hd, heq⟩ := List.mem_map.mp hlower
    exact hmem ((lowerUnit_eq_iff hc).mp heq ▸ hd)
  lower_nil := fun _ => List.map_eq_nil_iff

/-! ## Names and devices -/

def isName (platform : Platform) (s : Str) : Bool :=
  s ≠ [] && s ≠ [dot] && s ≠ [dot, dot] && s.all fun c => !isPathSeparator platform c

structure Name (platform : Platform) where
  text : Str
  valid : isName platform text = true
  deriving DecidableEq

def isDriveLetter (c : UInt16) : Bool := (0x41 ≤ c && c ≤ 0x5A) || (0x61 ≤ c && c ≤ 0x7A)

def isLabel (platform : Platform) (s : Str) : Bool :=
  s ≠ [] && s.all fun c => !isPathSeparator platform c

/-- The segments of a device: a drive, or a server and a share; POSIX has one without a name. -/
def isDevice (platform : Platform) : List Str → Bool
  | [[]] => platform ≠ .win32
  | [[letter, c]] => platform = .win32 && isDriveLetter letter && c = colon
  | [[], [], server, share] => platform = .win32 && isLabel platform server && isLabel platform share
  | _ => false

structure Device (platform : Platform) where
  segments : List Str
  valid : isDevice platform segments = true
  deriving DecidableEq

theorem isDevice_linux : isDevice .linux [[]] := rfl

abbrev AbsPath (platform : Platform) := Place (Device platform) (Name platform)

def segments {platform : Platform} (p : AbsPath platform) : List Str :=
  p.root.segments ++ p.names.map Name.text

/-- The text of a path. The root of a device ends with a separator. -/
def render {platform : Platform} (p : AbsPath platform) : Str :=
  if p.names = [] then spell platform.sep p.root.segments ++ [platform.sep]
  else spell platform.sep (segments p)

/-! ## Path functions -/

/-- The step for a component. Empty ones and `.` are skipped. -/
def toStep (platform : Platform) (s : Str) : Option (FileTree.Step (Name platform)) :=
  if h : isName platform s = true then some (.name ⟨s, h⟩)
  else if s = [dot, dot] then some .up
  else none

def toSteps (platform : Platform) (s : Str) : List (FileTree.Step (Name platform)) :=
  (s.splitOnP (isPathSeparator platform)).filterMap (toStep platform)

/-- `..` takes the last name away. -/
def normalize {platform : Platform} (names : List (Name platform)) :
    List (FileTree.Step (Name platform)) → List (Name platform)
  | [] => names
  | .up :: steps => normalize names.dropLast steps
  | .name n :: steps => normalize (names ++ [n]) steps

/-- The working directory of the process, and those of the drives. -/
structure WorkingDir (platform : Platform) where
  cwd : AbsPath platform
  driveCwd : Device platform → List (Name platform)

/-- The device that a path of Windows begins with, whether the path is absolute, and the rest. -/
def splitRoot (platform : Platform) (s : Str) : Option (Device platform) × Bool × Str :=
  match s with
  | [] => (none, false, [])
  | [c] => if isPathSeparator platform c then (none, true, []) else (none, false, [c])
  | c :: d :: rest =>
    if isPathSeparator platform c then
      if isPathSeparator platform d then
        let server := rest.takeWhile fun u => !isPathSeparator platform u
        let afterServer := (rest.dropWhile fun u => !isPathSeparator platform u).dropWhile
          (isPathSeparator platform)
        let share := afterServer.takeWhile fun u => !isPathSeparator platform u
        if h : isDevice platform [[], [], server, share] = true then
          (some ⟨[[], [], server, share], h⟩, true, afterServer.dropWhile fun u => !isPathSeparator platform u)
        else (none, true, s)
      else (none, true, d :: rest)
    else if h : isDevice platform [[c, d]] = true then
      match rest with
      | [] => (some ⟨[[c, d]], h⟩, false, [])
      | u :: tail =>
        if isPathSeparator platform u then (some ⟨[[c, d]], h⟩, true, tail)
        else (some ⟨[[c, d]], h⟩, false, rest)
    else (none, false, s)

/-- `path.resolve` with one argument. -/
def resolve {platform : Platform} (w : WorkingDir platform) (s : Str) : AbsPath platform :=
  match splitRoot platform s with
  | (some device, true, tail) => ⟨device, normalize [] (toSteps platform tail)⟩
  | (some device, false, tail) =>
    ⟨device, normalize (w.driveCwd device) (toSteps platform tail)⟩
  | (none, true, tail) => ⟨w.cwd.root, normalize [] (toSteps platform tail)⟩
  | (none, false, tail) => ⟨w.cwd.root, normalize w.cwd.names (toSteps platform tail)⟩

/-- `path.win32.join`, up to the normalization that `resolve` does. -/
def win32Join (parts : List Str) : Str :=
  let isSep := isPathSeparator .win32
  let parts := parts.filter (· ≠ [])
  let joined := spell backslash parts
  let begins : Nat := (joined.takeWhile isSep).length
  let isUnc := match parts.head? with
    | some (a :: b :: c :: _) => isSep a && isSep b && !isSep c
    | _ => false
  if !isUnc && 2 ≤ begins then backslash :: joined.drop begins else joined

/-- The part of a name from its last dot, which the name must not begin with. -/
def extOf (s : Str) : Str :=
  let after := s.reverse.takeWhile (· ≠ dot)
  if after.length + 1 < s.length ∧ s ≠ [dot, dot] then dot :: after.reverse else []

/-- `path.extname`. -/
def extname {platform : Platform} (p : AbsPath platform) : Str :=
  match (segments p).getLast? with
  | some s => extOf s
  | none => []

end Rcp

/-!
# The path jail

`src/plugins/rcp/path-jail.ts` on a file system. `existsSync` is whether a path leads somewhere, and
`realpathSync` is where it leads.
-/

namespace Rcp

def JAIL_PATHS_MAX : Nat := 32
def JAIL_PATH_MAXLEN : Nat := 512

abbrev FileSystem (platform : Platform) :=
  FileTree (Device platform) (Name platform) (List Str) Str

/-- What the jail gets from its process, and how many links the system follows. -/
structure Host (platform : Platform) where
  casing : Casing
  workingDir : WorkingDir platform
  env : Str → Option Str
  tmpdir : Str
  maxLinks : Nat

/-- `env.X || fallback`. -/
def Host.envOr {platform : Platform} (host : Host platform) (name fallback : Str) : Str :=
  match host.env name with
  | some v => if v = [] then fallback else v
  | none => fallback

/-- The spelling that the file system goes by: that of Linux tells cases apart. -/
def caseKey {platform : Platform} (host : Host platform) (s : Str) : Str :=
  if platform = .linux then s else host.casing.lower s

structure PathJailConfig where
  roots : Option Json
  denyPaths : Option Json
  denyExtensions : Option Json
  denyExceptions : Option Json

inductive JailDenyCode
  | pathInvalid
  | pathOutsideRoots
  | pathDenied
  | pathUnresolvable
  deriving DecidableEq

inductive JailDecision (platform : Platform)
  | allowed (realPath : AbsPath platform)
  | denied (code : JailDenyCode) (message : Str)
  deriving DecidableEq

/-! ## Built-in policy -/

section Defaults

variable {platform : Platform} (host : Host platform)

def programData : Str := host.envOr (text "ProgramData") (text "C:\\ProgramData")

def agentDataDirs : List Str :=
  match platform with
  | .win32 => [win32Join [programData host, text "Tracenium"]]
  | .darwin => [text "/Library/Application Support/Tracenium", text "/etc/tracenium"]
  | .linux => [text "/var/lib/tracenium", text "/etc/tracenium"]

def defaultRoots : List Str :=
  match platform with
  | .win32 =>
    let systemDrive := host.envOr (text "SystemDrive") (text "C:")
    let temp := host.envOr (text "TEMP")
      (host.envOr (text "TMP") (win32Join [systemDrive, text "\\Windows\\Temp"]))
    let programFiles := host.envOr (text "ProgramFiles")
      (win32Join [systemDrive, text "\\Program Files"])
    let programFilesX86 := host.envOr (text "ProgramFiles(x86)")
      (win32Join [systemDrive, text "\\Program Files (x86)"])
    let traceniumData := win32Join [programData host, text "Tracenium"]
    [win32Join [systemDrive, text "\\Users"], programData host, programFiles, programFilesX86, temp,
      win32Join [traceniumData, text "PrivSvc", text "logs"], host.tmpdir]
  | .darwin =>
    [text "/Users", text "/tmp", text "/private/tmp", text "/var/tmp", text "/opt", text "/srv",
      text "/Library/Logs/Tracenium", host.tmpdir]
  | .linux =>
    [text "/home", text "/tmp", text "/var/tmp", text "/opt", text "/srv",
      text "/var/log/tracenium", host.tmpdir]

def defaultDenyExceptions : List Str :=
  match platform with
  | .win32 => [win32Join [programData host, text "Tracenium", text "PrivSvc", text "logs"]]
  | .darwin => [text "/Library/Application Support/Tracenium/Logs", text "/Library/Logs/Tracenium"]
  | .linux => [text "/var/log/tracenium"]

def defaultDenyPaths : List Str :=
  agentDataDirs host ++
    match platform with
    | .win32 =>
      let systemRoot := host.envOr (text "SystemRoot") (text "C:\\Windows")
      [win32Join [systemRoot, text "System32", text "config"],
        win32Join [systemRoot, text "System32", text "GroupPolicy"]]
    | _ =>
      [text "/etc/shadow", text "/etc/gshadow", text "/etc/sudoers", text "/etc/sudoers.d",
        text "/etc/ssh", text "/root"]

end Defaults

def DENIED_SEGMENTS : List Str :=
  [text ".ssh", text ".gnupg", text ".aws", text ".kube", text ".docker", text "id_rsa",
    text "id_dsa", text "id_ecdsa", text "id_ed25519"]

def DEFAULT_DENY_EXTENSIONS : List Str :=
  [text ".key", text ".pem", text ".pfx", text ".p12", text ".jks", text ".keystore", text ".ppk"]

/-- A path that begins at a root, or at a drive. -/
def looksAbsolute : Str → Bool
  | c :: rest =>
    c = slash ||
      match rest with
      | d :: u :: _ => isDriveLetter c && d = colon && (u = slash || u = backslash)
      | _ => false
  | [] => false

/-- The loop of `sanitizeAbsolutePaths`, with what was put out and what was seen. -/
def sanitizeLoop (platform : Platform) (casing : Casing) :
    List Json → List Str → List Str → List Str
  | [], out, _ => out
  | raw :: input, out, seen =>
    if JAIL_PATHS_MAX ≤ out.length then out
    else
      match raw with
      | .str s =>
        let trimmed := trim s
        if trimmed = [] ∨ JAIL_PATH_MAXLEN < trimmed.length ∨ 0 ∈ trimmed then
          sanitizeLoop platform casing input out seen
        else if !looksAbsolute trimmed then sanitizeLoop platform casing input out seen
        else
          let key := if platform = .win32 then casing.lower trimmed else trimmed
          if key ∈ seen then sanitizeLoop platform casing input out seen
          else sanitizeLoop platform casing input (out ++ [trimmed]) (seen ++ [key])
      | _ => sanitizeLoop platform casing input out seen

def sanitizeAbsolutePaths (platform : Platform) (casing : Casing) (input : Option Json) : List Str :=
  match input with
  | some (.arr xs) => sanitizeLoop platform casing xs [] []
  | _ => []

/-! ## Real paths -/

section Jail

variable {platform : Platform} (host : Host platform) (fs : FileSystem platform)

def existsSync (p : AbsPath platform) : Bool := (fs.resolve host.maxLinks p).isSome

def realpathSync (p : AbsPath platform) : Except Str (AbsPath platform) :=
  match fs.resolve host.maxLinks p with
  | some r => .ok r
  | none => .error (text "ENOENT: no such file or directory")

/-- The deepest path that exists, and the rest of the names. The names are taken from the end. -/
def deepestExisting (device : Device platform) :
    List (Name platform) → List (Name platform) → Option (AbsPath platform × List (Name platform))
  | [], tail => if existsSync host fs ⟨device, []⟩ then some (⟨device, []⟩, tail) else none
  | n :: above, tail =>
    let probe : AbsPath platform := ⟨device, (n :: above).reverse⟩
    if existsSync host fs probe then some (probe, tail) else deepestExisting device above (n :: tail)

def resolveReal (absolute : AbsPath platform) : Except Str (AbsPath platform) :=
  match deepestExisting host fs absolute.root absolute.names.reverse [] with
  | none => .ok absolute
  | some (probe, tail) =>
    match realpathSync host fs probe with
    | .error e => .error e
    | .ok realBase => .ok ⟨realBase.root, realBase.names ++ tail⟩

def tryReal (raw : Str) : AbsPath platform :=
  match resolveReal host fs (resolve host.workingDir raw) with
  | .ok p => p
  | .error _ => resolve host.workingDir raw

/-! ## Comparisons -/

def forCompare (p : Str) : Str :=
  let trimmed :=
    if 1 < p.length ∧ (p.getLast? = some platform.sep ∨ p.getLast? = some slash) then p.dropLast
    else p
  if platform = .win32 then host.casing.lower trimmed else trimmed

def isWithin (platform : Platform) (child parent : Str) : Bool :=
  let withSep := if parent.getLast? = some platform.sep then parent else parent ++ [platform.sep]
  if child = parent then true
  else if withSep.isPrefixOf child then true
  else if platform = .win32 then
    let alt := parent.map fun c => if c = backslash then slash else c
    let childAlt := child.map fun c => if c = backslash then slash else c
    childAlt = alt || (if alt.getLast? = some slash then alt else alt ++ [slash]).isPrefixOf childAlt
  else false

def segmentsOf (p : Str) : List Str :=
  (p.splitOnP fun c => c = backslash || c = slash).filter (· ≠ [])

/-! ## The jail -/

structure PathJail where
  roots : List Str
  denyPaths : List Str
  denyExceptions : List Str
  denyExtensions : List Str

/-- The roots that a configuration asks for, or else those of the platform. -/
def rawRoots (config : PathJailConfig) : List Str :=
  let configuredRoots := sanitizeAbsolutePaths platform host.casing config.roots
  if configuredRoots ≠ [] then configuredRoots else defaultRoots host

def rawDenyPaths (config : PathJailConfig) : List Str :=
  defaultDenyPaths host ++ sanitizeAbsolutePaths platform host.casing config.denyPaths

def rawDenyExceptions (config : PathJailConfig) : List Str :=
  defaultDenyExceptions host ++ sanitizeAbsolutePaths platform host.casing config.denyExceptions

/-- A configured extension, if it has a dot in front and is not too long. -/
def denyExtension : Json → Option Str
  | .str e => if e.head? = some dot ∧ e.length ≤ 16 then some e else none
  | _ => none

def denyExtensions (config : PathJailConfig) : List Str :=
  let configured := match config.denyExtensions with
    | some (.arr xs) => xs
    | _ => []
  ((DEFAULT_DENY_EXTENSIONS.map .str ++ configured).filterMap denyExtension).map host.casing.lower

/-- The text that a configured path is compared by. -/
def compared (raw : Str) : Str := forCompare host (render (tryReal host fs raw))

/-- The constructor, on the file system as it is then. -/
def newPathJail (config : PathJailConfig) : PathJail where
  roots := ((rawRoots host config).map (compared host fs)).foldl
    (fun compare key => if compare.contains key then compare else compare ++ [key]) []
  denyPaths := (rawDenyPaths host config).map (compared host fs)
  denyExceptions := (rawDenyExceptions host config).map (compared host fs)
  denyExtensions := denyExtensions host config

def blocked : JailDecision platform :=
  .denied .pathDenied (text "This location is blocked by the remote access policy")

/-- What `check` decides on the real path. -/
def PathJail.decide (jail : PathJail) (real : AbsPath platform) : JailDecision platform :=
  let cmp := forCompare host (render real)
  let rescued := jail.denyExceptions.any fun ex => isWithin platform cmp ex
  let ext := host.casing.lower (extname real)
  if jail.denyPaths.any fun denied => !rescued && isWithin platform cmp denied then blocked
  else if (segmentsOf (render real)).any fun segment =>
      DENIED_SEGMENTS.contains (host.casing.lower segment) then blocked
  else if ext ≠ [] && jail.denyExtensions.contains ext then
    .denied .pathDenied
      (text "Files of type " ++ ext ++ text " are blocked by the remote access policy")
  else if jail.roots.any fun root => isWithin platform cmp root then .allowed real
  else
    .denied .pathOutsideRoots
      (text "This path is outside the locations remote file access is allowed to reach")

def PathJail.check (jail : PathJail) (input : Json) : JailDecision platform :=
  match input with
  | .str s =>
    let raw := trim s
    if raw = [] then .denied .pathInvalid (text "Path is empty")
    else if 0 ∈ raw then .denied .pathInvalid (text "Path contains a NUL byte")
    else if JAIL_PATH_MAXLEN < raw.length then .denied .pathInvalid (text "Path is too long")
    else
      match resolveReal host fs (resolve host.workingDir raw) with
      | .error e =>
        .denied .pathUnresolvable (text "Path could not be resolved on the device: " ++ e)
      | .ok real => jail.decide host real
  | _ => .denied .pathInvalid (text "Path must be a string")

end Jail

end Rcp
