-- SUMMARY: A Linux trust store, and the call that takes trust away from one of its anchors.
import Tracenium.Ipc.Wire
import Tracenium.Lib.OrderedMap

/-!
Certificates come from files that may hold several of them and may be unreadable. The rebuild
extracts bundles and hash directories from the sources: with p11-kit the anchors that are not on the
blocklist, on Debian the selected lines of `ca-certificates.conf` and the local `*.crt` files.
-/

open Utf16

namespace Anchors

/-! ## Certificates -/

inductive Algo
  | sha1
  | sha256
  deriving DecidableEq

/-- The fingerprints of certificates, as upper-case hexadecimal text. -/
structure Digests (Cert : Type) where
  fingerprint : Algo → Cert → Str

/-- The certificates in the PEM text of a file. Reading it may throw. -/
structure CertFile (Cert : Type) where
  readable : Bool
  certs : List Cert

def algoOf (fp : Str) : Algo := if fp.length = 64 then .sha256 else .sha1

section Search

variable {Cert : Type} (d : Digests Cert) (fp : Str)

def matchesPrint (c : Cert) : Bool := d.fingerprint (algoOf fp) c = fp

/-- A file that cannot be read holds nothing. -/
def pemInFile (file : CertFile Cert) : Option Cert :=
  if file.readable then file.certs.find? (matchesPrint d fp) else none

def isIn (file : CertFile Cert) : Bool := (pemInFile d fp file).isSome

theorem matches_of_pemInFile {file : CertFile Cert} {c : Cert} (h : pemInFile d fp file = some c) :
    file.readable ∧ c ∈ file.certs ∧ matchesPrint d fp c := by
  unfold pemInFile at h
  split at h
  · rename_i hreadable
    exact ⟨hreadable, List.mem_of_find?_eq_some h, List.find?_some h⟩
  · cases h

theorem isIn_iff {file : CertFile Cert} : isIn d fp file ↔
      file.readable ∧ ∃ c ∈ file.certs, matchesPrint d fp c := by
  unfold isIn pemInFile
  split
  · rename_i hreadable
    rw [List.find?_isSome, hreadable, eq_self, true_and]
  · rename_i hreadable
    exact iff_of_false Bool.noConfusion fun h => hreadable h.1

end Search

/-! ## What is extracted -/

structure HashDir (Cert : Type) where
  listable : Bool
  files : List (CertFile Cert)

structure Extracted (Cert : Type) where
  bundles : List (CertFile Cert)
  hashDirs : List (HashDir Cert)

namespace Extracted

variable {Cert : Type}

def files (e : Extracted Cert) : List (CertFile Cert) :=
  e.bundles ++ e.hashDirs.flatMap fun dir => if dir.listable then dir.files else []

def Shows (e : Extracted Cert) (c : Cert) : Prop :=
  ∃ file ∈ e.files, file.readable = true ∧ c ∈ file.certs

end Extracted

section

variable {Cert : Type} (d : Digests Cert)

def findTrusted (e : Extracted Cert) (fp : Str) : Option Cert := e.files.findSome? (pemInFile d fp)

theorem findTrusted_some {e : Extracted Cert} {fp : Str} {c : Cert} (h : findTrusted d e fp = some c) :
    e.Shows c ∧ matchesPrint d fp c := by
  obtain ⟨file, hfile, hpem⟩ := List.exists_of_findSome?_eq_some h
  obtain ⟨hreadable, hc, hmatches⟩ := matches_of_pemInFile d fp hpem
  exact ⟨⟨file, hfile, hreadable, hc⟩, hmatches⟩

theorem findTrusted_eq_none_iff {e : Extracted Cert} {fp : Str} :
    findTrusted d e fp = none ↔ ∀ c, e.Shows c → matchesPrint d fp c = false := by
  rw [findTrusted, List.findSome?_eq_none_iff]
  constructor
  · rintro h c ⟨file, hfile, hreadable, hc⟩
    by_contra hmatches
    rw [Bool.not_eq_false] at hmatches
    have hin := (isIn_iff d fp).mpr ⟨hreadable, c, hc, hmatches⟩
    rw [isIn, h file hfile] at hin
    cases hin
  · intro h file hfile
    by_contra hne
    obtain ⟨c, hpem⟩ := Option.ne_none_iff_exists'.mp hne
    obtain ⟨hreadable, hc, hmatches⟩ := matches_of_pemInFile d fp hpem
    rw [h c ⟨file, hfile, hreadable, hc⟩] at hmatches
    cases hmatches

end

/-! ## Sources -/

inductive ConfLine
  | other
  | selected (name : Str)
  | deselected (name : Str)

def hash : UInt16 := 0x23
def bang : UInt16 := 0x21

def confLine (raw : Str) : ConfLine :=
  let line := Ipc.trim raw
  match line with
  | [] => .other
  | u :: rest =>
    if u = hash then .other
    else if u = bang then .deselected (Ipc.trim rest)
    else .selected line

def MAX_LOCAL_DEPTH : Nat := 3
def CRT : Str := text ".crt"
def DISTRUSTED_SUFFIX : Str := text ".tracenium-distrusted"

/-- A file below the local directory: the directories on the way, each with whether it can be listed,
and its name. -/
structure LocalPath where
  dirs : List (Str × Bool)
  name : Str
  deriving DecidableEq

def LocalPath.isCrt (p : LocalPath) : Bool := CRT.isSuffixOf p.name

def LocalPath.isDistrusted (p : LocalPath) : Bool := (CRT ++ DISTRUSTED_SUFFIX).isSuffixOf p.name

def LocalPath.distrusted (p : LocalPath) : LocalPath := { p with name := p.name ++ DISTRUSTED_SUFFIX }

/-- The sources on Debian. `share` is the file that a line names; one that is not below the shared
directory counts as unreadable. -/
structure Debian (Cert : Type) where
  confReadable : Bool
  lines : List Str
  share : Str → Option (CertFile Cert)
  /-- The local directory is there and can be listed. -/
  localListable : Bool
  locals : OrderedMap LocalPath (CertFile Cert)

structure P11kit (Cert : Type) where
  anchors : List Cert
  /-- The directory of the blocklist can be listed. -/
  listable : Bool
  blocklist : OrderedMap Str (CertFile Cert)

inductive Mechanism (Cert : Type)
  | p11kit (sources : P11kit Cert)
  | debian (sources : Debian Cert)
  | unsupported

def Mechanism.isUnsupported {Cert : Type} : Mechanism Cert → Bool
  | .unsupported => true
  | _ => false

/-- What the rebuild extracts from the sources; it reads files that the agent may not. -/
def Mechanism.Extracts {Cert : Type} (m : Mechanism Cert) (c : Cert) : Prop :=
  match m with
  | .p11kit s => c ∈ s.anchors ∧ ∀ e ∈ s.blocklist.entries, c ∉ e.2.certs
  | .debian s =>
    (∃ raw ∈ s.lines, ∃ name file, confLine raw = .selected name ∧ s.share name = some file ∧ c ∈ file.certs) ∨
    ∃ e ∈ s.locals.entries, e.1.isCrt = true ∧ c ∈ e.2.certs
  | .unsupported => False

/-- The store, and the files of the agent's own anchors that exist. -/
structure TrustStore (Cert : Type) where
  own : List (CertFile Cert)
  mechanism : Mechanism Cert
  extracted : Extracted Cert

end Anchors

/-!
# Distrusting an anchor

The call finds the anchor in what the system uses, edits the sources that hold it, has the bundles
rebuilt and looks again. Writes, renames and the rebuild may fail; a rebuild that fails leaves the
extracted files in any state.
-/

namespace Anchors

inductive Code
  | invalidParams
  | trustStoreUnsupported
  | anchorIsOwnChain
  | anchorNotPresent
  | anchorSourceUnknown
  | distrustFailed
  | distrustNotEffective
  deriving DecidableEq

inductive Changed
  | blocklist (name : Str)
  | conf
  | local (path : LocalPath)
  deriving DecidableEq

inductive DistrustOutcome
  | ok (alreadyDistrusted : Bool) (changed : List Changed)
  | failed (code : Code)
  deriving DecidableEq

def DistrustOutcome.isOk : DistrustOutcome → Bool
  | .ok _ _ => true
  | .failed _ => false

/-- How the operations of one call turn out. A rebuild that fails leaves these files. -/
structure Attempt (Cert : Type) where
  writes : Bool
  renames : LocalPath → Bool
  rebuild : Option (Extracted Cert)

def isHex (u : UInt16) : Bool :=
  (0x30 ≤ u && u ≤ 0x39) || (0x41 ≤ u && u ≤ 0x46) || (0x61 ≤ u && u ≤ 0x66)

def upperUnit (u : UInt16) : UInt16 := if 0x61 ≤ u && u ≤ 0x7A then u - 0x20 else u

def normalizeFingerprint (value : Str) : Str := (value.filter isHex).map upperUnit

section Sources

variable {Cert : Type} (d : Digests Cert) (fp : Str)

/-! ## Debian -/

def nameHolds (s : Debian Cert) (name : Str) : Bool := (s.share name).any (isIn d fp)

def isConfLine (s : Debian Cert) (raw : Str) : Bool :=
  match confLine raw with
  | .selected name => nameHolds d fp s name
  | _ => false

def isDeselected (s : Debian Cert) (raw : Str) : Bool :=
  match confLine raw with
  | .deselected name => nameHolds d fp s name
  | _ => false

def isWalked (s : Debian Cert) (p : LocalPath) : Bool :=
  s.localListable && p.dirs.length ≤ MAX_LOCAL_DEPTH && p.dirs.all Prod.snd

def walkLocal (s : Debian Cert) : List (LocalPath × CertFile Cert) :=
  s.locals.entries.filter fun e => isWalked s e.1

def localFiles (s : Debian Cert) : List LocalPath :=
  ((walkLocal s).filter fun e => e.1.isCrt && isIn d fp e.2).map Prod.fst

def localDistrusted (s : Debian Cert) : Bool :=
  (walkLocal s).any fun e => e.1.isDistrusted && !e.1.isCrt && isIn d fp e.2

/-- Puts a `!` in front of a line. -/
def deselect (raw : Str) : Str := bang :: Ipc.trim raw

def deselectLines (s : Debian Cert) : List Str :=
  s.lines.map fun raw => if isConfLine d fp s raw then deselect raw else raw

/-- The file under the new name, in the place of one that is there. -/
def renameLocal (locals : OrderedMap LocalPath (CertFile Cert)) (p : LocalPath) :
    OrderedMap LocalPath (CertFile Cert) :=
  match locals.get p with
  | none => locals
  | some file => (locals.delete p).set p.distrusted file

/-- The files are renamed one after the other, up to the first that fails. -/
def renameAll (renames : LocalPath → Bool) :
    List LocalPath → OrderedMap LocalPath (CertFile Cert) → OrderedMap LocalPath (CertFile Cert) × Bool
  | [], locals => (locals, true)
  | p :: ps, locals =>
    if renames p then renameAll renames ps (renameLocal locals p) else (locals, false)

def editDebian (a : Attempt Cert) (s : Debian Cert) :
    Debian Cert × Except Code (List Changed) :=
  if !s.confReadable then (s, .error .distrustFailed)
  else
    let hits := s.lines.any (isConfLine d fp s)
    let files := localFiles d fp s
    if !hits && files.isEmpty then (s, .error .anchorSourceUnknown)
    else if hits && !a.writes then (s, .error .distrustFailed)
    else
      let (locals, renamed) := renameAll a.renames files s.locals
      ({ s with lines := deselectLines d fp s, locals := locals },
        if renamed then .ok ((if hits then [.conf] else []) ++ files.map .local)
        else .error .distrustFailed)

/-! ## p11-kit -/

def inBlocklist (s : P11kit Cert) : Bool :=
  s.listable && s.blocklist.entries.any fun e => isIn d fp e.2

def blocklistFile (pem : Cert) : Str :=
  text "tracenium-distrust-" ++ (d.fingerprint .sha256 pem).map (fun u =>
    if 0x41 ≤ u && u ≤ 0x5A then u + 0x20 else u) ++ text ".pem"

def editP11kit (a : Attempt Cert) (s : P11kit Cert) (pem : Cert) :
    P11kit Cert × Except Code (List Changed) :=
  if inBlocklist d fp s then (s, .ok [])
  else if !a.writes then (s, .error .distrustFailed)
  else
    ({ s with blocklist := s.blocklist.set (blocklistFile d pem) ⟨true, [pem]⟩ },
      .ok [.blocklist (blocklistFile d pem)])

/-! ## Both -/

def alreadyDistrusted (m : Mechanism Cert) : Bool :=
  match m with
  | .p11kit s => inBlocklist d fp s
  | .debian s => s.confReadable && (s.lines.any (isDeselected d fp s) || localDistrusted d fp s)
  | .unsupported => false

def editSources (a : Attempt Cert) (m : Mechanism Cert) (pem : Cert) :
    Mechanism Cert × Except Code (List Changed) :=
  match m with
  | .p11kit s =>
    let (s, result) := editP11kit d fp a s pem
    (.p11kit s, result)
  | .debian s =>
    let (s, result) := editDebian d fp a s
    (.debian s, result)
  | .unsupported => (m, .error .trustStoreUnsupported)

end Sources

/-! ## The call -/

section Call

variable {Cert : Type} (d : Digests Cert) (regenerate : Mechanism Cert → Extracted Cert)

def rebuild (fp : Str) (a : Attempt Cert) (t : TrustStore Cert) (changed : List Changed) :
    TrustStore Cert × DistrustOutcome :=
  match a.rebuild with
  | some left => ({ t with extracted := left }, .failed .distrustFailed)
  | none =>
    let made := regenerate t.mechanism
    ({ t with extracted := made },
      if (findTrusted d made fp).isSome then .failed .distrustNotEffective
      else .ok changed.isEmpty changed)

def distrustAnchor (rawFingerprint : Str) (a : Attempt Cert) (t : TrustStore Cert) :
    TrustStore Cert × DistrustOutcome :=
  let fp := normalizeFingerprint rawFingerprint
  if fp.length ≠ 40 ∧ fp.length ≠ 64 then (t, .failed .invalidParams)
  else if t.mechanism.isUnsupported then (t, .failed .trustStoreUnsupported)
  else if t.own.any (isIn d fp) then (t, .failed .anchorIsOwnChain)
  else
    match findTrusted d t.extracted fp with
    | none =>
      (t, if alreadyDistrusted d fp t.mechanism then .ok true [] else .failed .anchorNotPresent)
    | some pem =>
      match editSources d fp a t.mechanism pem with
      | (m, .error code) => ({ t with mechanism := m }, .failed code)
      | (m, .ok changed) => rebuild d regenerate fp a { t with mechanism := m } changed

end Call

end Anchors
