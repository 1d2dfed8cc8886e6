-- SUMMARY: The hybrid certificate request: what the alternative key signs, and what is read back of the options.
import Tracenium.Der.Words
import Tracenium.Lib.Utf8

/-!
`privsvc/shared/pkcs10.ts`. The information is encoded twice, without the alternative signature for the alternative
key and with it for the classic one. Names are written with the lower byte of each unit.
-/

open Utf16 Utf8 Der List Option UInt16

namespace Pkcs10

def OID_EXTENSION_REQUEST : List UInt8 := [0x2A, 0x86, 0x48, 0x86, 0xF7, 0x0D, 0x01, 0x09, 0x0E]
def OID_KEY_USAGE : List UInt8 := [0x55, 0x1D, 0x0F]
def OID_EKU : List UInt8 := [0x55, 0x1D, 0x25]
def OID_SAN : List UInt8 := [0x55, 0x1D, 0x11]
def OID_ALT_SPKI : List UInt8 := [0x55, 0x1D, 0x48]
def OID_ALT_SIG_ALG : List UInt8 := [0x55, 0x1D, 0x49]
def OID_ALT_SIG_VALUE : List UInt8 := [0x55, 0x1D, 0x4A]
def OID_CLIENT_AUTH : List UInt8 := [0x2B, 0x06, 0x01, 0x05, 0x05, 0x07, 0x03, 0x02]
def OID_COMMON_NAME : List UInt8 := [0x55, 0x04, 0x03]
def OID_SHA256_RSA : List UInt8 := [0x2A, 0x86, 0x48, 0x86, 0xF7, 0x0D, 0x01, 0x01, 0x0B]
def OID_ECDSA_SHA384 : List UInt8 := [0x2A, 0x86, 0x48, 0xCE, 0x3D, 0x04, 0x03, 0x03]
def ML_DSA_65_OID : List UInt8 := [0x60, 0x86, 0x48, 0x01, 0x65, 0x03, 0x04, 0x03, 0x12]
def DER_NULL : List UInt8 := [0x05, 0x00]

/-! ## The writer -/

def sequence (parts : List (List UInt8)) : List UInt8 := written 0x30 parts.flatten
def set (parts : List (List UInt8)) : List UInt8 := written 0x31 parts.flatten
def oid (bytes : List UInt8) : List UInt8 := written 0x06 bytes
def bitString (content : List UInt8) : List UInt8 := written 0x03 (0x00 :: content)
def octetString (content : List UInt8) : List UInt8 := written 0x04 content
def contextConstructed (n : UInt8) (content : List UInt8) : List UInt8 := written (0xA0 ||| n) content
def contextPrimitive (n : UInt8) (content : List UInt8) : List UInt8 := written (0x80 ||| n) content

def mlDsaAlgorithmIdentifier : List UInt8 := sequence [oid ML_DSA_65_OID]

/-- `Buffer.from(s, "ascii")`. -/
def ascii (s : Str) : List UInt8 := s.map toUInt8

inductive ClassicAlgorithm
  | RSA_2048
  | EC_P384

structure BuildCsrOptions where
  classicAlgorithm : ClassicAlgorithm
  commonName : Str
  tenantId : Str
  deviceId : Str
  dnsName : Option Str
  altPrivateKeyPkcs8 : Option (List UInt8)
  altPublicKeySpki : Option (List UInt8)

/-- The classic key, as the public half that is exported and as its signatures, and the provider of the other ones. A
signature that cannot be made throws. -/
structure Signers where
  spki : List UInt8
  sign : ClassicAlgorithm → List UInt8 → Option (List UInt8)
  signAlt : List UInt8 → List UInt8 → Option (List UInt8)

def nameWithCommonName (cn : Str) : List UInt8 :=
  sequence [set [sequence [oid OID_COMMON_NAME, written 0x0C (encode cn)]]]

def extension (id : List UInt8) (critical : Bool) (value : List UInt8) : List UInt8 :=
  sequence ([oid id] ++ (if critical then [written 0x01 [0xFF]] else []) ++ [octetString value])

def classicSignatureAlgorithm : ClassicAlgorithm → List UInt8
  | .RSA_2048 => sequence [oid OID_SHA256_RSA, DER_NULL]
  | .EC_P384 => sequence [oid OID_ECDSA_SHA384]

def identity (opts : BuildCsrOptions) : Str :=
  text "tracenium://tenant/" ++ opts.tenantId ++ text "/device/" ++ opts.deviceId

/-- The names of the device with their tags; an empty DNS name is none. -/
def names (opts : BuildCsrOptions) : List (UInt8 × Str) :=
  ((opts.dnsName.filter (· ≠ [])).toList.map fun name => (2, name)) ++ [(6, identity opts)]

def sanValue (opts : BuildCsrOptions) : List UInt8 :=
  sequence ((names opts).map fun name => contextPrimitive name.1 (ascii name.2))

/-- The extensions that are asked for, in the order in which they are written. -/
def requested (opts : BuildCsrOptions) (altSpki alt74 : Option (List UInt8)) :
    List (List UInt8 × Bool × List UInt8) :=
  [(OID_KEY_USAGE, true, written 0x03 [0x07, 0x80]), (OID_EKU, false, sequence [oid OID_CLIENT_AUTH]),
    (OID_SAN, false, sanValue opts)] ++
  (altSpki.toList.flatMap fun spki =>
    [(OID_ALT_SPKI, false, spki), (OID_ALT_SIG_ALG, false, mlDsaAlgorithmIdentifier)]) ++
  alt74.toList.map fun alt74 => (OID_ALT_SIG_VALUE, false, alt74)

def requestedExtensions (opts : BuildCsrOptions) (altSpki alt74 : Option (List UInt8)) : List (List UInt8) :=
  (requested opts altSpki alt74).map fun e => extension e.1 e.2.1 e.2.2

def certificationRequestInfo (opts : BuildCsrOptions) (spki : List UInt8) (exts : List (List UInt8)) : List UInt8 :=
  sequence [written 0x02 [0x00], nameWithCommonName opts.commonName, spki,
    contextConstructed 0 (sequence [oid OID_EXTENSION_REQUEST, set [sequence exts]])]

structure BuiltCsr where
  der : List UInt8
  hybrid : Bool

section Build

variable (s : Signers) (opts : BuildCsrOptions)

def firstInfo : List UInt8 :=
  certificationRequestInfo opts s.spki (requestedExtensions opts opts.altPublicKeySpki none)

/-- The information with the alternative signature, if there is an alternative key. -/
def finalInfo : Option (List UInt8) :=
  match opts.altPrivateKeyPkcs8, opts.altPublicKeySpki with
  | some altPriv, some altSpki =>
    (s.signAlt (firstInfo s opts) altPriv).map fun altSig =>
      certificationRequestInfo opts s.spki (requestedExtensions opts (some altSpki) (some (bitString altSig)))
  | _, _ => some (firstInfo s opts)

/-- `none` where it throws. -/
def buildCsr : Option BuiltCsr :=
  if opts.altPrivateKeyPkcs8.isSome ≠ opts.altPublicKeySpki.isSome then none
  else
    (finalInfo s opts).bind fun info =>
      (s.sign opts.classicAlgorithm info).map fun classicSig =>
        { der := sequence [info, classicSignatureAlgorithm opts.classicAlgorithm, bitString classicSig]
          hybrid := opts.altPrivateKeyPkcs8.isSome && opts.altPublicKeySpki.isSome }

end Build

/-! ## Reading back -/

section Read

/-- More rounds than any value of a request has children. -/
def ROUNDS : Nat := 8

variable (csrDer : List UInt8)

def child (t : Tlv) (i : Nat) : Option Tlv := (children ROUNDS csrDer t).bind (·[i]?)

def idOf (t : Tlv) : Option (List UInt8) := (child csrDer t 0).map (contentOf csrDer)

/-- The information without the alternative signature, as a verifier makes it; `none` where there is no such signature
or the request is not read. -/
def infoSinAlt74 : Option (List UInt8) := do
  let raiz ← readTlv csrDer 0
  let info ← child csrDer raiz 0
  let partes ← children ROUNDS csrDer info
  let attrs ← partes.find? (·.tag = 0xA0)
  let extReq ← (← children ROUNDS csrDer attrs).find? (idOf csrDer · = some OID_EXTENSION_REQUEST)
  let valores ← child csrDer extReq 1
  let extSeq ← child csrDer valores 0
  let exts ← children ROUNDS csrDer extSeq
  let conservadas := exts.filter (idOf csrDer · ≠ some OID_ALT_SIG_VALUE)
  if conservadas.length = exts.length then none
  else
    let id ← child csrDer extReq 0
    let version ← partes[0]?
    let subject ← partes[1]?
    let spki ← partes[2]?
    some (sequence [rawOf csrDer version, rawOf csrDer subject, rawOf csrDer spki,
      written 0xA0 (sequence [rawOf csrDer id, set [sequence (conservadas.map (rawOf csrDer))]])])

def extensionsOf : Option (List Tlv) := do
  let root ← readTlv csrDer 0
  let info ← child csrDer root 0
  let attrs ← child csrDer info 3
  let request ← child csrDer attrs 0
  let values ← child csrDer request 1
  let exts ← child csrDer values 0
  children ROUNDS csrDer exts

def entryOf (ext : Tlv) : Option (List UInt8 × List UInt8) := do
  let cs ← children ROUNDS csrDer ext
  let id ← cs.head?
  let value ← cs.getLast?
  some (contentOf csrDer id, contentOf csrDer value)

def subjectOf : Option (List UInt8) := do
  let root ← readTlv csrDer 0
  let info ← child csrDer root 0
  let name ← child csrDer info 1
  let rdn ← child csrDer name 0
  let typeAndValue ← child csrDer rdn 0
  let value ← child csrDer typeAndValue 1
  some (contentOf csrDer value)

def spkiOf : Option (List UInt8) := do
  let root ← readTlv csrDer 0
  let info ← child csrDer root 0
  let spki ← child csrDer info 2
  some (rawOf csrDer spki)

def ia5 (bytes : List UInt8) : Option Str :=
  if bytes.all (· < 0x80) then some (bytes.map UInt8.toUInt16) else none

def namesOf (san : List UInt8) : Option (List (UInt8 × Str)) := do
  let root ← readTlv san 0
  let cs ← children ROUNDS san root
  cs.mapM fun c => (ia5 (contentOf san c)).map fun name => (c.tag &&& 0x1F, name)

end Read

/-! ## What a request is to say -/

/-- Without its one alternative signature, the information is what the alternative key signed. -/
def Proves (s : Signers) (opts : BuildCsrOptions) (built : BuiltCsr) : Prop :=
  opts.altPrivateKeyPkcs8.isSome = true → infoSinAlt74 built.der = some (firstInfo s opts) ∧
      ∃ exts ∈ extensionsOf built.der, (exts.filter (idOf built.der · = some OID_ALT_SIG_VALUE)).length = 1

/-- The subject, the key and the values of the extensions are those supplied. -/
structure ReadsBack (s : Signers) (opts : BuildCsrOptions) (built : BuiltCsr) : Prop where
  subject : ∃ bytes ∈ subjectOf built.der, decode bytes = opts.commonName
  spki : spkiOf built.der = some s.spki
  extensions : ∃ (san : List UInt8) (alt74 : Option (List UInt8)), namesOf san = some (names opts) ∧
    (alt74.isSome = true ↔ built.hybrid = true) ∧
    (extensionsOf built.der).bind (·.mapM (entryOf built.der)) =
      some ([(OID_KEY_USAGE, written 0x03 [0x07, 0x80]), (OID_EKU, sequence [oid OID_CLIENT_AUTH]), (OID_SAN, san)] ++
        (opts.altPublicKeySpki.toList.flatMap fun spki =>
          [(OID_ALT_SPKI, spki), (OID_ALT_SIG_ALG, mlDsaAlgorithmIdentifier)]) ++
        alt74.toList.map fun alt74 => (OID_ALT_SIG_VALUE, alt74))

def IsAscii (s : Str) : Prop := ∀ u ∈ s, u < 0x80

/-- The subject is well formed, and the names are ASCII. -/
structure IsPlain (opts : BuildCsrOptions) : Prop where
  subject : WellFormed opts.commonName
  dnsName : ∀ name ∈ opts.dnsName, IsAscii name
  tenantId : IsAscii opts.tenantId
  deviceId : IsAscii opts.deviceId

/-! ## Words of a request -/

section Words

variable {parts : List (List UInt8)} {e buf : List UInt8} {t : Tlv}

theorem child_of_children {cs : List Tlv} (h : children ROUNDS buf t = some cs) (i : Nat) : child buf t i = cs[i]? := by
  rw [child, h, bind_some]

theorem spelled_sequence (h : Fits parts.flatten) : Spelled (sequence parts) parts.flatten :=
  spelled_written (by decide) h

theorem isWord_sequence (h : Fits (sequence parts)) : IsWord (sequence parts) := h.isWord (by decide)

theorem children_sequence (h : Finds buf t (sequence parts)) (hfits : Fits parts.flatten)
    (hparts : ∀ e ∈ parts, IsWord e) (hfew : parts.length < ROUNDS) :
    ∃ cs, children ROUNDS buf t = some cs ∧ Forall₂ (Finds buf) cs parts :=
  h.children (spelled_sequence hfits) hparts hfew

theorem children_single {tag : UInt8} (h : Finds buf t (written tag e)) (hfits : Fits (written tag e))
    (hsingle : isMultiByte tag = false) (he : IsWord e) : ∃ c, children ROUNDS buf t = some [c] ∧ Finds buf c e := by
  have hspelled : Spelled (written tag e) [e].flatten := by simpa using hfits.spelled hsingle
  obtain ⟨_, hcs, _ | ⟨hc, _ | _⟩⟩ := h.children hspelled (by simpa using he) (by simp [ROUNDS] : [e].length < ROUNDS)
  exact ⟨_, hcs, hc⟩

end Words

/-- Where the reader finds the parts of a request. -/
structure Located (der spki : List UInt8) (cn : Str) (exts : List (List UInt8)) where
  root : Tlv
  info : Tlv
  version : Tlv
  subject : Tlv
  key : Tlv
  attrs : Tlv
  request : Tlv
  id : Tlv
  values : Tlv
  extSeq : Tlv
  found : List Tlv
  readRoot : readTlv der 0 = some root
  infoAt : child der root 0 = some info
  partes : children ROUNDS der info = some [version, subject, key, attrs]
  versionAt : Finds der version (written 0x02 [0x00])
  subjectAt : Finds der subject (nameWithCommonName cn)
  keyAt : Finds der key spki
  attrsAt : attrs.tag = 0xA0
  requestAt : children ROUNDS der attrs = some [request]
  idAt : Finds der id (oid OID_EXTENSION_REQUEST)
  pair : children ROUNDS der request = some [id, values]
  extSeqAt : child der values 0 = some extSeq
  foundAt : children ROUNDS der extSeq = some found
  finds : Forall₂ (Finds der) found exts

theorem exists_located {opts : BuildCsrOptions} {spki alg sig : List UInt8} {exts : List (List UInt8)}
    (hspki : IsWord spki) (halg : IsWord alg) (hsig : IsWord sig) (hexts : ∀ e ∈ exts, IsWord e)
    (hfew : exts.length < ROUNDS) (hfits : Fits [certificationRequestInfo opts spki exts, alg, sig].flatten) :
    Nonempty (Located (sequence [certificationRequestInfo opts spki exts, alg, sig]) spki opts.commonName exts) := by
  have hinfo : Fits (certificationRequestInfo opts spki exts) := hfits.part (by simp)
  have hname : Fits (nameWithCommonName opts.commonName) := hinfo.content.part (by simp)
  have hattrs : Fits (contextConstructed 0 (sequence [oid OID_EXTENSION_REQUEST, set [sequence exts]])) :=
    hinfo.content.part (by simp)
  have hattribute : Fits (sequence [oid OID_EXTENSION_REQUEST, set [sequence exts]]) := hattrs.content
  have hset : Fits (set [sequence exts]) := hattribute.content.part (by simp)
  have hseq : Fits (sequence exts) := hset.content.part (by simp)
  have hversion : IsWord (written 0x02 [0x00]) := ⟨_, spelled_written (by decide) (by decide)⟩
  have hid : IsWord (oid OID_EXTENSION_REQUEST) := ⟨_, spelled_written (by decide) (by decide)⟩
  obtain ⟨root, hroot, hrootAt⟩ := finds_self (spelled_sequence hfits)
  have hinfoWord : IsWord (certificationRequestInfo opts spki exts) := isWord_sequence hinfo
  have hnameWord : IsWord (nameWithCommonName opts.commonName) := isWord_sequence hname
  have hattrsWord : IsWord (contextConstructed 0 (sequence [oid OID_EXTENSION_REQUEST, set [sequence exts]])) :=
    hattrs.isWord (by decide)
  have hattributeWord := isWord_sequence hattribute
  have hsetWord : IsWord (set [sequence exts]) := hset.isWord (by decide)
  obtain ⟨_, hchildren, _ | ⟨hinfoAt, _ | ⟨-, _ | ⟨-, _ | _⟩⟩⟩⟩ :=
    children_sequence hrootAt hfits (by simp [hinfoWord, halg, hsig]) (by simp [ROUNDS])
  obtain ⟨_, hpartes, _ | ⟨hversionAt, _ | ⟨hsubjectAt, _ | ⟨hkeyAt, _ | ⟨hattrsAt, _ | _⟩⟩⟩⟩⟩ :=
    children_sequence hinfoAt hinfo.content (by simp [hversion, hnameWord, hspki, hattrsWord]) (by simp [ROUNDS])
  obtain ⟨request, hrequest, hrequestAt⟩ := children_single hattrsAt hattrs (by decide) hattributeWord
  obtain ⟨_, hpair, _ | ⟨hidAt, _ | ⟨hvaluesAt, _ | _⟩⟩⟩ :=
    children_sequence hrequestAt hattribute.content (by simp [hid, hsetWord]) (by simp [ROUNDS])
  have hsetEq : set [sequence exts] = written 0x31 (sequence exts) := by simp [set]
  rw [hsetEq] at hset hvaluesAt
  obtain ⟨extSeq, hvalues, hextSeqAt⟩ := children_single hvaluesAt hset (by decide) (isWord_sequence hseq)
  obtain ⟨found, hfound, hfinds⟩ := children_sequence hextSeqAt hseq.content hexts hfew
  have htag := hattrsAt.tag
  rw [contextConstructed, head?_written] at htag
  exact ⟨{
    root := root
    info := _
    version := _
    subject := _
    key := _
    attrs := _
    request := request
    id := _
    values := _
    extSeq := extSeq
    found := found
    readRoot := hroot
    infoAt := child_of_children hchildren 0
    partes := hpartes
    versionAt := hversionAt
    subjectAt := hsubjectAt
    keyAt := hkeyAt
    attrsAt := (some.inj htag).symm
    requestAt := hrequest
    idAt := hidAt
    pair := hpair
    extSeqAt := child_of_children hvalues 0
    foundAt := hfound
    finds := hfinds }⟩

/-! ## Extensions -/

section Extensions

variable {buf : List UInt8} {t : Tlv}

/-- The identifier and the value of an extension are read where it stands. -/
theorem entry_of_finds {id value : List UInt8} {critical : Bool} (h : Finds buf t (extension id critical value))
    (hfits : Fits (extension id critical value)) : idOf buf t = some id ∧ entryOf buf t = some (id, value) := by
  have hid : Fits (oid id) := hfits.content.part (by simp)
  have hvalue : Fits (octetString value) := hfits.content.part (by simp)
  have hflag : IsWord (written 0x01 [0xFF]) := ⟨_, spelled_written (by decide) (by decide)⟩
  have hidSpelled : Spelled (oid id) id := hid.spelled (by decide)
  have hvalueSpelled : Spelled (octetString value) value := hvalue.spelled (by decide)
  have hidWord : IsWord (oid id) := ⟨id, hidSpelled⟩
  have hvalueWord : IsWord (octetString value) := ⟨value, hvalueSpelled⟩
  cases critical with
  | false =>
    obtain ⟨_, hcs, _ | ⟨hidAt, _ | ⟨hvalueAt, _ | _⟩⟩⟩ := children_sequence h hfits.content
      (by simp [hidWord, hvalueWord])
      (by simp [ROUNDS])
    simp [idOf, entryOf, child_of_children hcs, hcs, hidAt.content hidSpelled, hvalueAt.content hvalueSpelled]
  | true =>
    obtain ⟨_, hcs, _ | ⟨hidAt, _ | ⟨-, _ | ⟨hvalueAt, _ | _⟩⟩⟩⟩ := children_sequence h hfits.content
      (by simp [hidWord, hvalueWord, hflag])
      (by simp [ROUNDS])
    simp [idOf, entryOf, child_of_children hcs, hcs, hidAt.content hidSpelled, hvalueAt.content hvalueSpelled]

/-- What is read of the extensions that were asked for. -/
theorem entries_of_finds {found : List Tlv} {specs : List (List UInt8 × Bool × List UInt8)}
    (h : Forall₂ (Finds buf) found (specs.map fun e => extension e.1 e.2.1 e.2.2))
    (hfits : ∀ e ∈ specs, Fits (extension e.1 e.2.1 e.2.2)) :
    found.mapM (entryOf buf) = some (specs.map fun e => (e.1, e.2.2)) ∧
      (∀ p : Option (List UInt8) → Bool, (found.filter fun t => p (idOf buf t)).map (rawOf buf) =
        (specs.filter fun e => p (some e.1)).map fun e => extension e.1 e.2.1 e.2.2) := by
  induction specs generalizing found with
  | nil =>
    cases h
    simp
  | cons e specs ih =>
    rw [map_cons] at h
    cases h with
    | cons hat hrest =>
      obtain ⟨hfit, hfits⟩ := forall_mem_cons.mp hfits
      obtain ⟨hid, hentry⟩ := entry_of_finds hat hfit
      obtain ⟨hentries, hfilter⟩ := ih hrest hfits
      refine ⟨by simp [hentry, hentries], fun p => ?_⟩
      cases hp : p (some e.1) <;> simp [hid, hp, hfilter, hat.raw]

end Extensions

/-! ## Names -/

theorem ia5_ascii_iff (s : Str) : ia5 (ascii s) = some s ↔ IsAscii s := by
  have hunit (u : UInt16) (hu : u < 0x80) : u.toUInt8 < 0x80 ∧ u.toUInt8.toUInt16 = u := by
    rw [lt_iff_toNat_lt] at hu
    have hsmall : u.toNat < 128 := hu
    refine ⟨?_, UInt16.toNat_inj.mp ?_⟩
    · rw [UInt8.lt_iff_toNat_lt, toNat_toUInt8, Nat.mod_eq_of_lt (by omega)]
      exact hsmall
    · rw [UInt8.toNat_toUInt16, UInt16.toNat_toUInt8, Nat.mod_eq_of_lt (by omega)]
  constructor
  · intro h u hu
    rw [ia5] at h
    split at h
    · rename_i hall
      rw [← some.inj h] at hu
      obtain ⟨b, hb, rfl⟩ := mem_map.mp hu
      have hlt := all_eq_true.mp hall b hb
      simpa [lt_iff_toNat_lt, UInt8.lt_iff_toNat_lt] using hlt
    · cases h
  · intro h
    have hall : (ascii s).all (· < 0x80) := by
      simpa [ascii] using fun u hu => (hunit u (h u hu)).1
    rw [ia5, if_pos hall, ascii, List.map_map]
    exact congrArg some ((map_congr_left fun u hu => (hunit u (h u hu)).2).trans (map_id s))

theorem mapM_names_iff {buf : List UInt8} {cs : List Tlv} {ns : List (UInt8 × Str)}
    (h : Forall₂ (Finds buf) cs (ns.map fun name => contextPrimitive name.1 (ascii name.2)))
    (hns : ∀ name ∈ ns, (isMultiByte (0x80 ||| name.1) = false ∧ (0x80 ||| name.1) &&& 0x1F = name.1) ∧
      Fits (contextPrimitive name.1 (ascii name.2))) :
    cs.mapM (fun c => (ia5 (contentOf buf c)).map fun name => (c.tag &&& 0x1F, name)) = some ns ↔
      ∀ name ∈ ns, IsAscii name.2 := by
  induction ns generalizing cs with
  | nil =>
    cases h
    simp
  | cons name ns ih =>
    rw [map_cons] at h
    cases h with
    | cons hat hrest =>
      obtain ⟨⟨⟨hsingle, hmask⟩, hfit⟩, hns⟩ := forall_mem_cons.mp hns
      have hcontent := hat.content (hfit.spelled hsingle)
      have htag := hat.tag
      rw [contextPrimitive, head?_written] at htag
      rw [forall_mem_cons, ← ih hrest hns, ← ia5_ascii_iff, mapM_cons, hcontent, ← some.inj htag, hmask]
      cases ia5 (ascii name.2) with
      | none => simp
      | some s =>
        rename_i cs
        cases cs.mapM fun c => (ia5 (contentOf buf c)).map fun name => (c.tag &&& 0x1F, name) with
        | none => simp
        | some rest => simp [Prod.ext_iff]

theorem namesOf_sanValue_iff {opts : BuildCsrOptions} (hfits : Fits (sanValue opts)) :
    namesOf (sanValue opts) = some (names opts) ↔ ∀ name ∈ names opts, IsAscii name.2 := by
  obtain ⟨root, hroot, hrootAt⟩ := finds_self (hfits.spelled (by decide))
  have htags : ∀ name ∈ names opts, name.1 = 2 ∨ name.1 = 6 := by
    simp only [names, List.mem_append, List.mem_map, List.mem_singleton]
    rintro name (⟨dns, -, rfl⟩ | rfl)
    · exact .inl rfl
    · exact .inr rfl
  have hsingle (n : UInt8) (hn : n = 2 ∨ n = 6) : isMultiByte (0x80 ||| n) = false ∧ (0x80 ||| n) &&& 0x1F = n := by
    rcases hn with rfl | rfl <;> decide
  have hparts : ∀ e ∈ (names opts).map fun name => contextPrimitive name.1 (ascii name.2), IsWord e := by
    intro e he
    have hfit := hfits.content.part he
    obtain ⟨name, hname, rfl⟩ := List.mem_map.mp he
    exact hfit.isWord (hsingle name.1 (htags name hname)).1
  have hfew : ((names opts).map fun name => contextPrimitive name.1 (ascii name.2)).length < ROUNDS := by
    rw [length_map, names]
    cases opts.dnsName.filter (· ≠ []) <;> simp [ROUNDS]
  obtain ⟨cs, hcs, hfinds⟩ := children_sequence hrootAt hfits.content hparts hfew
  have hread : readTlv (sanValue opts) 0 = some root := hroot
  rw [namesOf, hread]
  change (children ROUNDS (sanValue opts) root).bind _ = _ ↔ _
  have hchildren : children ROUNDS (sanValue opts) root = some cs := hcs
  rw [hchildren, bind_some]
  exact mapM_names_iff hfinds fun name hname =>
    ⟨hsingle name.1 (htags name hname), hfits.content.part (mem_map_of_mem hname)⟩

theorem isAscii_names_iff (opts : BuildCsrOptions) : (∀ name ∈ names opts, IsAscii name.2) ↔
    (∀ name ∈ opts.dnsName, IsAscii name) ∧ IsAscii opts.tenantId ∧ IsAscii opts.deviceId := by
  have happend (s t : Str) : IsAscii (s ++ t) ↔ IsAscii s ∧ IsAscii t := List.forall_mem_append
  have hliteral : IsAscii (text "tracenium://tenant/") ∧ IsAscii (text "/device/") := by
    have hall : (text "tracenium://tenant/" ++ text "/device/").all (· < 0x80) := by decide
    exact (happend _ _).mp fun u hu => by simpa using all_eq_true.mp hall u hu
  have hidentity : IsAscii (identity opts) ↔ IsAscii opts.tenantId ∧ IsAscii opts.deviceId := by
    simp [identity, happend, hliteral]
  have hdns : (∀ name ∈ opts.dnsName.filter (· ≠ []), IsAscii name) ↔ ∀ name ∈ opts.dnsName, IsAscii name := by
    cases opts.dnsName with
    | none => simp
    | some dns => cases dns <;> simp [IsAscii]
  rw [← hidentity, ← hdns, names]
  simp only [List.forall_mem_append, List.forall_mem_map, Option.mem_toList, List.forall_mem_singleton, Option.mem_def]

/-! ## A request that was built -/

section Built

variable {s : Signers} {opts : BuildCsrOptions} {built : BuiltCsr}

def signedInfo (s : Signers) (opts : BuildCsrOptions) (alt74 : Option (List UInt8)) : List UInt8 :=
  certificationRequestInfo opts s.spki (requestedExtensions opts opts.altPublicKeySpki alt74)

/-- What is signed, and with what it is put together. -/
theorem exists_parts (hbuilt : buildCsr s opts = some built) : ∃ (alt74 : Option (List UInt8)) (sig : List UInt8),
    (alt74.isSome ↔ built.hybrid) ∧ opts.altPrivateKeyPkcs8.isSome = alt74.isSome ∧
      s.sign opts.classicAlgorithm (signedInfo s opts alt74) = some sig ∧ built.der = sequence
        [signedInfo s opts alt74, classicSignatureAlgorithm opts.classicAlgorithm, bitString sig] := by
  rw [buildCsr] at hbuilt
  split at hbuilt
  · cases hbuilt
  · rename_i hpair
    obtain ⟨info, hinfo, hsigned⟩ := bind_eq_some_iff.mp hbuilt
    obtain ⟨sig, hsig, rfl⟩ := map_eq_some_iff.mp hsigned
    cases hpriv : opts.altPrivateKeyPkcs8 with
    | none =>
      cases hspki : opts.altPublicKeySpki with
      | none =>
        rw [finalInfo, hpriv] at hinfo
        cases hinfo
        exact ⟨none, sig, by simp, by simp, by simpa [firstInfo, signedInfo, hspki] using hsig,
          by simp [firstInfo, signedInfo, hspki]⟩
      | some altSpki => simp [hpriv, hspki] at hpair
    | some altPriv =>
      cases hspki : opts.altPublicKeySpki with
      | none => simp [hpriv, hspki] at hpair
      | some altSpki =>
        rw [finalInfo, hpriv, hspki] at hinfo
        obtain ⟨altSig, -, rfl⟩ := map_eq_some_iff.mp hinfo
        refine ⟨some (bitString altSig), sig, by simp, by simp, ?_, ?_⟩
        · rw [signedInfo, hspki]
          exact hsig
        · rw [signedInfo, hspki]

theorem length_classicSignatureAlgorithm_le (alg : ClassicAlgorithm) :
    (classicSignatureAlgorithm alg).length ≤ 32 := by
  cases alg <;> decide

theorem isWord_classicSignatureAlgorithm (alg : ClassicAlgorithm) : IsWord (classicSignatureAlgorithm alg) := by
  have hfits : Fits (classicSignatureAlgorithm alg) := (length_classicSignatureAlgorithm_le alg).trans_lt (by decide)
  cases alg <;> exact isWord_sequence hfits

/-- The extensions without the alternative signature. -/
theorem filter_requested (opts : BuildCsrOptions) (altSpki alt74 : Option (List UInt8)) :
    ((requested opts altSpki alt74).filter fun e => decide (some e.1 ≠ some OID_ALT_SIG_VALUE)) =
      requested opts altSpki none := by
  cases altSpki <;> cases alt74 <;>
    simp [requested, OID_KEY_USAGE, OID_EKU, OID_SAN, OID_ALT_SPKI, OID_ALT_SIG_ALG, OID_ALT_SIG_VALUE]

/-- The alternative signatures. -/
theorem length_filter_requested (opts : BuildCsrOptions) (altSpki alt74 : Option (List UInt8)) :
    ((requested opts altSpki alt74).filter fun e => decide (some e.1 = some OID_ALT_SIG_VALUE)).length =
      alt74.toList.length := by
  cases altSpki <;> cases alt74 <;>
    simp [requested, OID_KEY_USAGE, OID_EKU, OID_SAN, OID_ALT_SPKI, OID_ALT_SIG_ALG, OID_ALT_SIG_VALUE]

theorem length_requested_lt (opts : BuildCsrOptions) (altSpki alt74 : Option (List UInt8)) :
    (requested opts altSpki alt74).length < ROUNDS := by
  cases altSpki <;> cases alt74 <;> simp [requested, ROUNDS]

variable {der spki : List UInt8} {cn : Str} {altSpki alt74 : Option (List UInt8)}

theorem Located.extensionsOf_eq {exts : List (List UInt8)} (h : Located der spki cn exts) :
    extensionsOf der = some h.found := by
  simp [extensionsOf, h.readRoot, h.infoAt, child_of_children h.partes, child_of_children h.requestAt,
    child_of_children h.pair, h.extSeqAt, h.foundAt]

theorem Located.spkiOf_eq {exts : List (List UInt8)} (h : Located der spki cn exts) : spkiOf der = some spki := by
  simp [spkiOf, h.readRoot, h.infoAt, child_of_children h.partes, h.keyAt.raw]

/-- The subject is read as it was written. -/
theorem Located.subjectOf_eq {exts : List (List UInt8)} (h : Located der spki cn exts)
    (hfits : Fits (nameWithCommonName cn)) : subjectOf der = some (encode cn) := by
  have hset : Fits (set [sequence [oid OID_COMMON_NAME, written 0x0C (encode cn)]]) := hfits.content.part (by simp)
  have hpair : Fits (sequence [oid OID_COMMON_NAME, written 0x0C (encode cn)]) := hset.content.part (by simp)
  have hvalue : Fits (written 0x0C (encode cn)) := hpair.content.part (by simp)
  have hid : IsWord (oid OID_COMMON_NAME) := ⟨_, spelled_written (by decide) (by decide)⟩
  have hvalueWord : IsWord (written 0x0C (encode cn)) := hvalue.isWord (by decide)
  have hname : nameWithCommonName cn =
      written 0x30 (set [sequence [oid OID_COMMON_NAME, written 0x0C (encode cn)]]) := by
    simp [nameWithCommonName, sequence]
  have hrdn : set [sequence [oid OID_COMMON_NAME, written 0x0C (encode cn)]] =
      written 0x31 (sequence [oid OID_COMMON_NAME, written 0x0C (encode cn)]) := by
    simp [set]
  have hat := h.subjectAt
  rw [hname] at hat hfits
  obtain ⟨rdn, hrdnAt, hrdnFinds⟩ := children_single hat hfits (by decide) (hset.isWord (by decide))
  rw [hrdn] at hrdnFinds hset
  obtain ⟨pair, hpairAt, hpairFinds⟩ := children_single hrdnFinds hset (by decide) (isWord_sequence hpair)
  obtain ⟨_, hcs, _ | ⟨-, _ | ⟨hvalueAt, _ | _⟩⟩⟩ := children_sequence hpairFinds hpair.content
    (by simp [hid, hvalueWord]) (by simp [ROUNDS])
  simp [subjectOf, h.readRoot, h.infoAt, child_of_children h.partes, child_of_children hrdnAt,
    child_of_children hpairAt, child_of_children hcs, hvalueAt.content (hvalue.spelled (by decide))]

/-- Where the extensions that were asked for are found. -/
abbrev Asked (der spki : List UInt8) (opts : BuildCsrOptions) (altSpki alt74 : Option (List UInt8)) :=
  Located der spki opts.commonName (requestedExtensions opts altSpki alt74)

theorem Asked.entries (h : Asked der spki opts altSpki alt74)
    (hfits : ∀ e ∈ requestedExtensions opts altSpki alt74, Fits e) :
    h.found.mapM (entryOf der) = some ((requested opts altSpki alt74).map fun e => (e.1, e.2.2)) :=
  (entries_of_finds h.finds fun _ he => hfits _ (mem_map_of_mem he)).1

/-- Without the alternative signature, the request is the one before it was made. -/
theorem Asked.infoSinAlt74_eq (h : Asked der spki opts altSpki alt74)
    (hfits : ∀ e ∈ requestedExtensions opts altSpki alt74, Fits e) (hspki : spki.head? = some 0x30)
    (hsome : alt74.isSome) :
    infoSinAlt74 der = some (certificationRequestInfo opts spki (requestedExtensions opts altSpki none)) ∧
      (h.found.filter fun t => decide (idOf der t = some OID_ALT_SIG_VALUE)).length = 1 := by
  obtain ⟨alt, rfl⟩ := isSome_iff_exists.mp hsome
  obtain ⟨-, hfilter⟩ := entries_of_finds h.finds fun _ he => hfits _ (mem_map_of_mem he)
  have hkept := hfilter fun id => decide (id ≠ some OID_ALT_SIG_VALUE)
  have hdropped := congrArg length (hfilter fun id => decide (id = some OID_ALT_SIG_VALUE))
  rw [filter_requested] at hkept
  simp only [length_map] at hdropped
  rw [length_filter_requested, toList_some, length_singleton] at hdropped
  refine ⟨?_, hdropped⟩
  have hversion : h.version.tag = 0x02 := by simpa [head?_written] using h.versionAt.tag.symm
  have hsubject : h.subject.tag = 0x30 := by
    simpa [nameWithCommonName, sequence, head?_written] using h.subjectAt.tag.symm
  have hkey : h.key.tag = 0x30 := by simpa [hspki] using h.keyAt.tag.symm
  have hid : contentOf der h.id = OID_EXTENSION_REQUEST := h.idAt.content (spelled_written (by decide) (by decide))
  have hless : (h.found.filter fun t => decide (idOf der t ≠ some OID_ALT_SIG_VALUE)).length ≠ h.found.length := by
    have hsum := length_eq_length_filter_add (l := h.found) fun t => decide (idOf der t = some OID_ALT_SIG_VALUE)
    simp only [decide_not] at hsum ⊢
    omega
  have hfind : [h.request].find? (fun t => decide (idOf der t = some OID_EXTENSION_REQUEST)) = some h.request := by
    simp [idOf, child_of_children h.pair, hid]
  have hattrs : [h.version, h.subject, h.key, h.attrs].find? (·.tag = 0xA0) = some h.attrs := by
    simp [hversion, hsubject, hkey, h.attrsAt]
  simp only [infoSinAlt74, h.readRoot, h.infoAt, h.partes, hattrs, h.requestAt, hfind, child_of_children h.pair,
    getElem?_cons_zero, getElem?_cons_succ, h.extSeqAt, h.foundAt, if_neg hless, h.versionAt.raw,
    h.subjectAt.raw, h.keyAt.raw, h.idAt.raw, hkept, bind_eq_bind, bind_some]
  rfl

theorem fits_sanValue (hfits : ∀ e ∈ requestedExtensions opts altSpki alt74, Fits e) : Fits (sanValue opts) := by
  have hsan : Fits (extension OID_SAN false (sanValue opts)) := hfits _ (by simp [requestedExtensions, requested])
  have hvalue : Fits (octetString (sanValue opts)) := hsan.content.part (by simp)
  exact hvalue.content

/-- What is supplied is read back exactly where the subject is well formed and the names are ASCII. -/
theorem readsBack_iff (h : Asked built.der s.spki opts opts.altPublicKeySpki alt74)
    (hfits : ∀ e ∈ requestedExtensions opts opts.altPublicKeySpki alt74, Fits e)
    (hname : Fits (nameWithCommonName opts.commonName)) (hhybrid : alt74.isSome ↔ built.hybrid) :
    ReadsBack s opts built ↔ IsPlain opts := by
  have hentries : (extensionsOf built.der).bind (·.mapM (entryOf built.der)) =
      some ((requested opts opts.altPublicKeySpki alt74).map fun e => (e.1, e.2.2)) := by
    rw [h.extensionsOf_eq]
    exact h.entries hfits
  have hnames := (namesOf_sanValue_iff (fits_sanValue hfits)).trans (isAscii_names_iff opts)
  constructor
  · intro hreads
    obtain ⟨bytes, hbytes, hdecode⟩ := hreads.subject
    rw [h.subjectOf_eq hname] at hbytes
    cases hbytes
    obtain ⟨san, alt74', hsan, -, hread⟩ := hreads.extensions
    have hsame : sanValue opts = san := by
      have heq := some.inj (hentries.symm.trans hread)
      simp only [requested, map_append, map_cons, map_nil, cons_append, cons.injEq, Prod.mk.injEq] at heq
      exact heq.2.2.1.2
    rw [← hsame, hnames] at hsan
    exact ⟨(decode_encode_iff _).mp hdecode, hsan.1, hsan.2.1, hsan.2.2⟩
  · intro hplain
    have hsan := hnames.mpr ⟨hplain.dnsName, hplain.tenantId, hplain.deviceId⟩
    have hsubject := h.subjectOf_eq hname
    refine ⟨⟨_, hsubject, decode_encode hplain.subject⟩, h.spkiOf_eq, sanValue opts, alt74, hsan, hhybrid, ?_⟩
    rw [hentries]
    simp [requested, map_flatMap, Function.comp_def]

/-! ## Sizes of a request -/

section Sizes

variable {tag : UInt8} {content : List UInt8}

theorem length_written_le (tag : UInt8) (content : List UInt8) :
    (written tag content).length ≤ content.length + 6 := by
  obtain ⟨first, bytes, htlv, ⟨-, rfl, -⟩ | ⟨-, -, -, hfour, -⟩⟩ := exists_tlv tag content <;>
    simp only [written, htlv, getD_some, length_cons, length_append, length_nil] <;>
    omega

/-- From `2 ^ 31` bytes on, four bytes spell the length. -/
theorem length_written_lt_iff (hcontent : content.length < 2 ^ 32) :
    (written tag content).length < 2 ^ 31 + 6 ↔ Fits content := by
  refine ⟨fun h => ?_, fun h => (length_written_le tag content).trans_lt (Nat.add_lt_add_right h 6)⟩
  obtain ⟨first, bytes, htlv, hspells⟩ := exists_tlv tag content
  rw [Nat.mod_eq_of_lt hcontent] at hspells
  simp only [written, htlv, getD_some, length_cons, length_append] at h
  obtain ⟨hshort, -, hlength⟩ | ⟨-, -, -, hfour, hvalue⟩ := hspells
  · have hbyte := first.toNat_lt
    unfold Fits
    omega
  · have hlt := BigEndian.value_lt bytes
    by_contra hlarge
    have hthree : 256 ^ bytes.length ≤ 256 ^ 3 := Nat.pow_le_pow_right (by decide) (by unfold Fits at hlarge; omega)
    unfold Fits at hlarge
    omega

/-- Of a value that is too large, no child is read. -/
theorem fits_of_subjectOf (hcontent : content.length < 2 ^ 32) {bytes : List UInt8}
    (hsubject : subjectOf (written 0x30 content) = some bytes) : Fits content := by
  by_contra hlarge
  have hdrop : (written 0x30 content).drop 0 = written 0x30 content ++ [] := by simp
  have hannounced := readTlv_of_tlv (tlv_eq_written 0x30 content) (by decide) hdrop
  rw [Nat.mod_eq_of_lt hcontent] at hannounced
  obtain ⟨root, hroot, hstop⟩ := exists_readTlv_of_le hannounced (Nat.not_lt.mp hlarge)
  have hnone : children ROUNDS (written 0x30 content) root = some [] := by
    rw [children, ROUNDS, childrenFrom, if_neg (by omega)]
  have hread : readTlv (written 0x30 content) 0 = some root := hroot
  simp [subjectOf, hread, child_of_children hnone] at hsubject

end Sizes

/-- Below `2 ^ 31` bytes all parts are found. -/
theorem exact_of_fits {sig : List UInt8} (hspki : IsWord s.spki) (htag : s.spki.head? = some 0x30)
    (hsig : IsWord (bitString sig)) (hhybrid : alt74.isSome ↔ built.hybrid)
    (hpriv : opts.altPrivateKeyPkcs8.isSome = alt74.isSome) (hder : built.der = sequence
      [signedInfo s opts alt74, classicSignatureAlgorithm opts.classicAlgorithm, bitString sig]) (hfits : Fits
      [signedInfo s opts alt74, classicSignatureAlgorithm opts.classicAlgorithm, bitString sig].flatten) :
    Proves s opts built ∧ ReadsBack s opts built ↔ IsPlain opts := by
  have hinfo : Fits (signedInfo s opts alt74) := hfits.part (by simp)
  have hname : Fits (nameWithCommonName opts.commonName) := hinfo.content.part (by simp)
  have hattrs : Fits (contextConstructed 0 (sequence [oid OID_EXTENSION_REQUEST,
      set [sequence (requestedExtensions opts opts.altPublicKeySpki alt74)]])) := hinfo.content.part (by simp)
  have hset : Fits (set [sequence (requestedExtensions opts opts.altPublicKeySpki alt74)]) :=
    hattrs.content.content.part (by simp)
  have hseq : Fits (sequence (requestedExtensions opts opts.altPublicKeySpki alt74)) := hset.content.part (by simp)
  have hexts : ∀ e ∈ requestedExtensions opts opts.altPublicKeySpki alt74, Fits e := fun e he => hseq.content.part he
  have hwords : ∀ e ∈ requestedExtensions opts opts.altPublicKeySpki alt74, IsWord e := by
    intro e he
    have hfit := hexts e he
    obtain ⟨spec, -, rfl⟩ := mem_map.mp he
    exact isWord_sequence hfit
  have hfew : (requestedExtensions opts opts.altPublicKeySpki alt74).length < ROUNDS := by
    rw [requestedExtensions, length_map]
    exact length_requested_lt opts _ alt74
  obtain ⟨hlocated⟩ := exists_located hspki (isWord_classicSignatureAlgorithm _) hsig hwords hfew hfits
  have hasked : Asked built.der s.spki opts opts.altPublicKeySpki alt74 := by
    rw [hder]
    exact hlocated
  rw [readsBack_iff hasked hexts hname hhybrid, and_iff_right_iff_imp]
  intro _ hsome
  rw [hpriv] at hsome
  obtain ⟨hproof, hone⟩ := hasked.infoSinAlt74_eq hexts htag hsome
  exact ⟨hproof, hasked.found, hasked.extensionsOf_eq, hone⟩

/-- A request says what it was built from, and proves the possession of the alternative key, exactly where its subject
is well formed, its names are ASCII and it is not too large. -/
theorem buildCsr_exact (s : Signers) (opts : BuildCsrOptions) (built : BuiltCsr) (hspki : IsWord s.spki)
    (htag : s.spki.head? = some 0x30)
    (hsign : ∀ alg info sig, s.sign alg info = some sig → info.length < 2 ^ 31 ∧ sig.length < 2 ^ 16)
    (hbuilt : buildCsr s opts = some built) :
    Proves s opts built ∧ ReadsBack s opts built ↔ IsPlain opts ∧ built.der.length < 2 ^ 31 + 6 := by
  obtain ⟨alt74, sig, hhybrid, hpriv, hsigned, hder⟩ := exists_parts hbuilt
  obtain ⟨hinfo, hsig⟩ := hsign _ _ _ hsigned
  have halg := length_classicSignatureAlgorithm_le opts.classicAlgorithm
  have hbits : (bitString sig).length ≤ sig.length + 7 := length_written_le 0x03 (0x00 :: sig)
  have hcontent : [signedInfo s opts alt74, classicSignatureAlgorithm opts.classicAlgorithm,
      bitString sig].flatten.length < 2 ^ 32 := by
    simp only [flatten_cons, flatten_nil, length_append, length_nil]
    omega
  have hsigWord : IsWord (bitString sig) := by
    refine ⟨_, spelled_written (by decide) ?_⟩
    rw [length_cons]
    omega
  have hexact := exact_of_fits hspki htag hsigWord hhybrid hpriv hder
  have hsize : built.der.length < 2 ^ 31 + 6 ↔ Fits [signedInfo s opts alt74,
      classicSignatureAlgorithm opts.classicAlgorithm, bitString sig].flatten := by
    rw [hder]
    exact length_written_lt_iff hcontent
  rw [hsize]
  constructor
  · intro h
    obtain ⟨bytes, hbytes, -⟩ := h.2.subject
    rw [hder] at hbytes
    have hfits := fits_of_subjectOf hcontent hbytes
    exact ⟨(hexact hfits).mp h, hfits⟩
  · exact fun h => (hexact h.2).mpr h.1

end Built

/-! ## A request for one device -/

def sampleSigners : Signers where
  spki := [0x30, 0x00]
  sign _ info := if info.length < 2 ^ 31 then some [0x01] else none
  signAlt _ _ := some [0x02]

def sampleOptions (deviceId : Str) : BuildCsrOptions where
  classicAlgorithm := .EC_P384
  commonName := text "pc"
  tenantId := text "t"
  deviceId := deviceId
  dnsName := some (text "pc.lan")
  altPrivateKeyPkcs8 := some [0x30, 0x00]
  altPublicKeySpki := some [0x30, 0x01, 0x05]

theorem isWord_sample : IsWord sampleSigners.spki :=
  ⟨[], 0x30, 0x00, [], rfl, by decide, .inl ⟨by decide, rfl, rfl⟩, by decide⟩

theorem sampleSigners_limit (alg : ClassicAlgorithm) (info sig : List UInt8)
    (h : sampleSigners.sign alg info = some sig) : info.length < 2 ^ 31 ∧ sig.length < 2 ^ 16 := by
  obtain ⟨hlength, hsig⟩ := ite_none_right_eq_some.mp h
  cases hsig
  exact ⟨hlength, by decide⟩

theorem buildCsr_sample : ∃ built, buildCsr sampleSigners (sampleOptions (text "d")) = some built ∧
    (Proves sampleSigners (sampleOptions (text "d")) built ∧ ReadsBack sampleSigners (sampleOptions (text "d")) built ↔
      IsPlain (sampleOptions (text "d")) ∧ built.der.length < 2 ^ 31 + 6) := by
  have hsome : (buildCsr sampleSigners (sampleOptions (text "d"))).isSome := by decide +kernel
  obtain ⟨built, hbuilt⟩ := isSome_iff_exists.mp hsome
  exact ⟨built, hbuilt, buildCsr_exact _ _ built isWord_sample rfl sampleSigners_limit hbuilt⟩

def readNames (csrDer : List UInt8) : Option (List (UInt8 × Str)) := do
  let entries ← (← extensionsOf csrDer).mapM (entryOf csrDer)
  namesOf (← entries[2]?).2

theorem ReadsBack.readNames_eq {s : Signers} {opts : BuildCsrOptions} {built : BuiltCsr}
    (h : ReadsBack s opts built) : readNames built.der = some (names opts) := by
  obtain ⟨san, alt74, hsan, -, hread⟩ := h.extensions
  obtain ⟨exts, hexts, hentries⟩ := bind_eq_some_iff.mp hread
  simp [readNames, hexts, hentries, hsan]

/-- A dotless i in the device is read back as the digit one. -/
theorem not_readsBack_dotless : ∃ built, buildCsr sampleSigners (sampleOptions [0x0131]) = some built ∧
    ¬ReadsBack sampleSigners (sampleOptions [0x0131]) built := by
  have hread : (buildCsr sampleSigners (sampleOptions [0x0131])).map (fun built => readNames built.der) =
      some (some (names (sampleOptions (text "1")))) := by
    decide +kernel
  obtain ⟨built, hbuilt, hnames⟩ := map_eq_some_iff.mp hread
  have hdifferent : names (sampleOptions (text "1")) ≠ names (sampleOptions [0x0131]) := by decide
  exact ⟨built, hbuilt, fun h => hdifferent (some.inj (hnames.symm.trans h.readNames_eq))⟩

end Pkcs10
