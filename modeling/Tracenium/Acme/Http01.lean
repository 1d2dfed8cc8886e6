-- SUMMARY: The HTTP-01 primitive that publishes and removes an ACME challenge under the webroot of a web server.
import Tracenium.Lib.Utf8
import Tracenium.Rcp.PathJail

/-!
`src/privsvc/shared/acme-http01.ts` on a disk. macOS and Linux spell paths alike, and tell names apart by the
keys of the tree. A path that leads nowhere is `ENOENT`; whatever else a system answers is a fault.
-/

open Utf16 Rcp

namespace Acme

/-! ## Requests -/

def isTokenUnit (c : UInt16) : Bool :=
  (0x41 ≤ c && c ≤ 0x5A) || (0x61 ≤ c && c ≤ 0x7A) || (0x30 ≤ c && c ≤ 0x39) || c = 0x5F || c = 0x2D

/-- `TOKEN_RE`. -/
def isValidToken (token : Str) : Bool :=
  16 ≤ token.length && token.length ≤ 256 && token.all isTokenUnit

/-- `THUMB_RE`. -/
def isThumbprint (s : Str) : Bool := s.length = 43 && s.all isTokenUnit

/-- The token of the key authorization is the one that names the file. -/
def isValidKeyAuthorization (token keyAuthorization : Str) : Bool :=
  let start := token ++ [dot]
  isValidToken token && start.isPrefixOf keyAuthorization && isThumbprint (keyAuthorization.drop start.length)

theorem isName_of_isValidToken {token : Str} (h : isValidToken token) : isName .linux token := by
  have hclean : ∀ c, isTokenUnit c → isPathSeparator .linux c = false := by
    intro c hc
    by_contra hsep
    have hslash : c = slash := by simpa [isPathSeparator] using hsep
    subst hslash
    exact absurd hc (by decide)
  simp only [isValidToken, Bool.and_eq_true, decide_eq_true_eq, List.all_eq_true] at h
  obtain ⟨⟨hlong, -⟩, hunits⟩ := h
  have hne : ∀ s : Str, s.length < 16 → token ≠ s := by
    rintro s hshort rfl
    omega
  simp only [isName, Bool.and_eq_true, decide_eq_true_eq, List.all_eq_true, Bool.not_eq_true']
  exact ⟨⟨⟨hne [] (by decide), hne [dot] (by decide)⟩, hne [dot, dot] (by decide)⟩,
    fun c hc => hclean c (hunits c hc)⟩

structure Token where
  text : Str
  valid : isValidToken text = true
  deriving DecidableEq

def Token.name (token : Token) : Name .linux := ⟨token.text, isName_of_isValidToken token.valid⟩

/-- `typeof v === "string"`. -/
def stringOf : Option Json → Option Str
  | some (.str s) => some s
  | _ => none

/-- `path.isAbsolute`. -/
def isAbsolute (s : Str) : Bool := s.head? = some slash

section Roots

variable (w : WorkingDir .linux)

/-- One absolute path on a line; `#` begins a comment. -/
def parseExtraRoots (content : Option Str) : List Str :=
  match content with
  | none => []
  | some content =>
    (((content.splitOn 0x0A).map trim).filter fun l => l ≠ [] && l.head? ≠ some 0x23 && isAbsolute l).map fun l =>
      render (resolve w l)

/-- Without a look at the disk. -/
def normalizeWebroot (webroot : Option Json) : Option (AbsPath .linux) :=
  match stringOf webroot with
  | none => none
  | some s =>
    if trim s = [] || s.contains 0 then none
    else if isAbsolute (trim s) then some (resolve w (trim s))
    else none

/-- Under a root, up to a separator. -/
def isUnderAllowedRoot (normalized : AbsPath .linux) (roots : List Str) : Bool :=
  roots.any fun r =>
    let root := render (resolve w r)
    render normalized = root || (root ++ [slash]).isPrefixOf (render normalized)

end Roots

inductive Action
  | publish (keyAuthorization : Str)
  | remove
  deriving DecidableEq

structure Request where
  action : Action
  token : Token
  webroot : AbsPath .linux
  deriving DecidableEq

/-! ## Answers -/

inductive Http01Outcome
  | published (path : Str)
  | removed (path : Str)
  | failed (code message : Str)
  deriving DecidableEq

def Http01Outcome.ok : Http01Outcome → Bool
  | .failed .. => false
  | _ => true

inductive Call
  | lstatSync
  | realpathSync
  | statSync
  | mkdirSync
  | openSync
  | writeSync
  | closeSync
  | readFileSync
  | unlinkSync
  deriving DecidableEq

/-- The process and its system: which calls fail for reasons of their own, and how much of a text is written. -/
structure System where
  workingDir : WorkingDir .linux
  maxLinks : Nat
  fault : Call → AbsPath .linux → Option Disk.Errno
  written : Nat
  describe : Disk.Errno → Str

/-- `extraRoots` is what the file of the administrator holds, if it can be read. -/
structure Http01Deps where
  roots : List Str
  extraRootsFile : Str
  extraRoots : Option Str

inductive Failure
  | answer (code message : Str)
  | thrown (e : Disk.Errno)
  deriving DecidableEq

abbrev Volume := Disk (Device .linux) (Name .linux) (List Str) Str

/-- `opened` says that the file of the challenge has been opened. -/
structure Reply where
  outcome : Http01Outcome
  disk : Volume
  opened : Bool

section Handle

variable (sys : System)

/-- A call, unless it fails for a reason of its own. -/
def System.call {α : Type} (call : Call) (p : AbsPath .linux) (result : Except Disk.Errno α) : Except Disk.Errno α :=
  match sys.fault call p with
  | some e => .error e
  | none => result

def Failure.outcome : Failure → Http01Outcome
  | .answer code message => .failed code message
  | .thrown .ELOOP => .failed (text "path_is_link") (text "refusing to follow a symlink")
  | .thrown e => .failed (text "io_error") (sys.describe e)

def badRequest (message : Str) : Failure := .answer (text "bad_request") message

def parseAction (params : Json) (token : Token) (publish : Bool) : Except Failure Action :=
  if publish then
    match stringOf (params.field (text "keyAuthorization")) with
    | some k =>
      if isValidKeyAuthorization token.text k then .ok (.publish k)
      else .error (badRequest (text "invalid keyAuthorization (expected token.thumbprint)"))
    | none => .error (badRequest (text "invalid keyAuthorization (expected token.thumbprint)"))
  else .ok .remove

def parseToken (params : Json) : Except Failure Token :=
  match stringOf (params.field (text "token")) with
  | some token =>
    if h : isValidToken token = true then .ok ⟨token, h⟩ else .error (badRequest (text "invalid token"))
  | none => .error (badRequest (text "invalid token"))

def parseRequest (params : Json) : Except Failure Request := do
  let action := stringOf (params.field (text "action"))
  if action ≠ some (text "publish") ∧ action ≠ some (text "remove") then
    throw (badRequest (text "action must be publish or remove"))
  let token ← parseToken params
  let action ← parseAction params token (action = some (text "publish"))
  match normalizeWebroot sys.workingDir (params.field (text "webroot")) with
  | some webroot => return ⟨action, token, webroot⟩
  | none => throw (badRequest (text "webroot must be an absolute path"))

def allowedRoots (deps : Http01Deps) : List Str := deps.roots ++ parseExtraRoots sys.workingDir deps.extraRoots

/-- The real path of a webroot, which must be under a root too. -/
def locateWebroot (deps : Http01Deps) (disk : Volume) (webroot : AbsPath .linux) : Except Failure (AbsPath .linux) :=
  if !isUnderAllowedRoot sys.workingDir webroot (allowedRoots sys deps) then
    .error (.answer (text "webroot_not_allowed") (render webroot ++
      text " is not under an allowed root; the device administrator can add it to " ++ deps.extraRootsFile))
  else
    match sys.call .lstatSync webroot (.ok (disk.lstat sys.maxLinks webroot)) with
    | .error e => .error (.thrown e)
    | .ok none => .error (.answer (text "webroot_missing") (render webroot ++ text " does not exist"))
    | .ok (some _) =>
      match sys.call .realpathSync webroot (disk.realpath sys.maxLinks webroot) with
      | .error e => .error (.thrown e)
      | .ok real =>
        if !isUnderAllowedRoot sys.workingDir real (allowedRoots sys deps) then
          .error (.answer (text "path_is_link") (render webroot ++ text " resolves to " ++ render real ++
            text ", outside the allowed roots"))
        else
          match sys.call .statSync real (disk.stat sys.maxLinks real) with
          | .error e => .error (.thrown e)
          | .ok .dir => .ok real
          | .ok _ => .error (.answer (text "webroot_missing") (render webroot ++ text " is not a directory"))

def wellKnown (real : AbsPath .linux) : AbsPath .linux := real.child ⟨text ".well-known", by decide⟩

def challengeDir (real : AbsPath .linux) : AbsPath .linux := (wellKnown real).child ⟨text "acme-challenge", by decide⟩

def challengeFile (real : AbsPath .linux) (token : Token) : AbsPath .linux := (challengeDir real).child token.name

def remove (disk : Volume) (file : AbsPath .linux) : Reply :=
  match sys.call .lstatSync file (.ok (disk.lstat sys.maxLinks file)) with
  | .error e => ⟨(Failure.thrown e).outcome sys, disk, false⟩
  | .ok (some .file) =>
    match sys.call .unlinkSync file (disk.unlink sys.maxLinks file) with
    | .error e => ⟨(Failure.thrown e).outcome sys, disk, false⟩
    | .ok disk => ⟨.removed (render file), disk, false⟩
  | .ok _ => ⟨.removed (render file), disk, false⟩

/-- Each directory is made, or is a plain one. -/
def ensureDirs (disk : Volume) : List (AbsPath .linux) → Option Failure × Volume
  | [] => (none, disk)
  | d :: ds =>
    match sys.call .lstatSync d (.ok (disk.lstat sys.maxLinks d)) with
    | .error e => (some (.thrown e), disk)
    | .ok none =>
      match sys.call .mkdirSync d (disk.mkdir sys.maxLinks d) with
      | .error e => (some (.thrown e), disk)
      | .ok disk => ensureDirs disk ds
    | .ok (some .dir) => ensureDirs disk ds
    | .ok (some _) => (some (.answer (text "path_is_link") (render d ++ text " is not a plain directory")), disk)

/-- The text is written, and read again. -/
def writeChallenge (disk : Volume) (file : AbsPath .linux) (keyAuthorization : Str) : Reply :=
  match sys.call .openSync file (disk.openTruncated sys.maxLinks file) with
  | .error e => ⟨(Failure.thrown e).outcome sys, disk, false⟩
  | .ok (disk, k) =>
    match sys.call .writeSync file (.ok (disk.write k ((Utf8.encode keyAuthorization).take sys.written))) with
    | .error e => ⟨(Failure.thrown ((sys.fault .closeSync file).getD e)).outcome sys, disk, true⟩
    | .ok disk =>
      match sys.fault .closeSync file with
      | some e => ⟨(Failure.thrown e).outcome sys, disk, true⟩
      | none =>
        match sys.call .readFileSync file (disk.readFile sys.maxLinks file) with
        | .error e => ⟨(Failure.thrown e).outcome sys, disk, true⟩
        | .ok content =>
          if Utf8.decode content = keyAuthorization then ⟨.published (render file), disk, true⟩
          else
            ⟨.failed (text "write_mismatch") (text "the published file does not hold the expected content"), disk, true⟩

def publish (disk : Volume) (real : AbsPath .linux) (token : Token) (keyAuthorization : Str) : Reply :=
  match ensureDirs sys disk [wellKnown real, challengeDir real] with
  | (some failure, disk) => ⟨failure.outcome sys, disk, false⟩
  | (none, disk) => writeChallenge sys disk (challengeFile real token) keyAuthorization

def handleHttp01 (deps : Http01Deps) (disk : Volume) (params : Json) : Reply :=
  match parseRequest sys params with
  | .error failure => ⟨failure.outcome sys, disk, false⟩
  | .ok request =>
    match locateWebroot sys deps disk request.webroot with
    | .error failure => ⟨failure.outcome sys, disk, false⟩
    | .ok real =>
      match request.action with
      | .remove => remove sys disk (challengeFile real request.token)
      | .publish keyAuthorization => publish sys disk real request.token keyAuthorization

end Handle

end Acme
