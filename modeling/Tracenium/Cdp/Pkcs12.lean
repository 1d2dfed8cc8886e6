-- SUMMARY: The PKCS#12 reader, with the values that it lists and the derivations that it asks for.
import Tracenium.Cdp.Oids
import Tracenium.Cdp.Pkcs12Kdf
import Tracenium.Lib.Logged

/-!
`src/plugins/cdp/pkcs12.ts`. The functions of OpenSSL are those of a `Crypto`. A reading logs each value of the content
whose children it lists, each key bag with an identifier, and each derivation, also where it fails in the end.
-/

open Utf16 Json Logged

namespace Cdp.Pkcs12

def TAG_SEQUENCE : UInt8 := 0x30
def TAG_SET : UInt8 := 0x31
def TAG_INTEGER : UInt8 := 0x02
def TAG_OCTET_STRING : UInt8 := 0x04
def TAG_CONTEXT_0_EXPLICIT : UInt8 := 0xA0
def TAG_CONTEXT_0_PRIMITIVE : UInt8 := 0x80

def OID_DATA : Str := text "1.2.840.113549.1.7.1"
def OID_SIGNED_DATA : Str := text "1.2.840.113549.1.7.2"
def OID_ENVELOPED_DATA : Str := text "1.2.840.113549.1.7.3"
def OID_ENCRYPTED_DATA : Str := text "1.2.840.113549.1.7.6"

def BAG_KEY : Str := text "1.2.840.113549.1.12.10.1.1"
def BAG_SHROUDED_KEY : Str := text "1.2.840.113549.1.12.10.1.2"
def BAG_CERT : Str := text "1.2.840.113549.1.12.10.1.3"
def BAG_SAFE_CONTENTS : Str := text "1.2.840.113549.1.12.10.1.6"
def CERT_TYPE_X509 : Str := text "1.2.840.113549.1.9.22.1"
def ATTR_LOCAL_KEY_ID : Str := text "1.2.840.113549.1.9.21"

def OID_PBES2 : Str := text "1.2.840.113549.1.5.13"
def OID_PBKDF2 : Str := text "1.2.840.113549.1.5.12"

inductive HashName
  | sha1 | sha224 | sha256 | sha384 | sha512
  deriving DecidableEq

inductive CipherName
  | aes128Cbc | aes192Cbc | aes256Cbc | desEde3Cbc | desEdeCbc | rc2
  deriving DecidableEq

/-- The length of a digest, and that of a block: the size `v` of the source. -/
def HashName.digestLength : HashName → Nat
  | sha1 => 20
  | sha224 => 28
  | sha256 => 32
  | sha384 => 48
  | sha512 => 64

def HashName.v : HashName → Nat
  | sha1 | sha224 | sha256 => 64
  | sha384 | sha512 => 128

def DIGESTS : List (Str × HashName) :=
  [(text "1.3.14.3.2.26", .sha1), (text "2.16.840.1.101.3.4.2.4", .sha224), (text "2.16.840.1.101.3.4.2.1", .sha256),
    (text "2.16.840.1.101.3.4.2.2", .sha384), (text "2.16.840.1.101.3.4.2.3", .sha512)]

def HMAC_PRFS : List (Str × HashName) :=
  [(text "1.2.840.113549.2.7", .sha1), (text "1.2.840.113549.2.8", .sha224), (text "1.2.840.113549.2.9", .sha256),
    (text "1.2.840.113549.2.10", .sha384), (text "1.2.840.113549.2.11", .sha512)]

/-- The cipher, and the length of its key. -/
def PBES2_CIPHERS : List (Str × CipherName × Nat) :=
  [(text "2.16.840.1.101.3.4.1.2", .aes128Cbc, 16), (text "2.16.840.1.101.3.4.1.22", .aes192Cbc, 24),
    (text "2.16.840.1.101.3.4.1.42", .aes256Cbc, 32), (text "1.2.840.113549.3.7", .desEde3Cbc, 24)]

/-- The cipher, the length of its key, and the effective bits of RC2. -/
def PKCS12_PBE : List (Str × CipherName × Nat × Nat) :=
  [(text "1.2.840.113549.1.12.1.3", .desEde3Cbc, 24, 0), (text "1.2.840.113549.1.12.1.4", .desEdeCbc, 16, 0),
    (text "1.2.840.113549.1.12.1.5", .rc2, 16, 128), (text "1.2.840.113549.1.12.1.6", .rc2, 5, 40)]

def MAX_ITERATIONS : Nat := 1000000
def MAX_DEPTH : Nat := 4
def MAX_CERTS : Nat := 64
def MAX_SIBLINGS : Nat := 64

/-- The functions of OpenSSL. A cipher gives nothing where it throws. -/
structure Crypto where
  digest : HashName → List UInt8 → List UInt8
  hmac : HashName → List UInt8 → List UInt8 → List UInt8
  pbkdf2 : HashName → List UInt8 → List UInt8 → Nat → Nat → List UInt8
  decipher : CipherName → List UInt8 → List UInt8 → List UInt8 → Option (List UInt8)
  length_digest : ∀ h bytes, (digest h bytes).length = h.digestLength

def Crypto.hash (c : Crypto) (h : HashName) : Hash where
  digest := c.digest h
  u := h.digestLength
  v := h.v
  u_pos := by cases h <;> decide
  v_pos := by cases h <;> decide
  length_digest := c.length_digest h

/-- What a reading logs: a value whose children it lists, a key bag with an identifier, and calls of the KDFs. -/
inductive Event
  | listed (buf : List UInt8) (parent : Tlv)
  | keyBag (id : List UInt8)
  | kdf (hash : HashName) (iter size : Nat)
  | pbkdf2 (prf : HashName) (iter keyLen : Nat)
  | hmac (hash : HashName) (keyLen : Nat)
  deriving DecidableEq

abbrev Reading := Logged Event Str

/-! ## DER -/

/-- The loop of `children` with so many siblings to go. -/
def childrenFrom (buf : List UInt8) (stop : Nat) : Nat → Nat → List Tlv
  | 0, _ => []
  | left + 1, offset =>
    if offset < stop then
      match readTlv buf offset with
      | none => []
      | some tlv => if stop < tlv.next ∨ tlv.next ≤ offset then [] else tlv :: childrenFrom buf stop left tlv.next
    else []

def children (buf : List UInt8) (parent : Tlv) : List Tlv := childrenFrom buf parent.end' MAX_SIBLINGS parent.start

/-- `children`, on a value of the content. -/
def listed (buf : List UInt8) (parent : Tlv) : Reading (List Tlv) := do
  emit (.listed buf parent)
  return children buf parent

def tlvAt (buf : List UInt8) (offset : Nat) (what : String) : Except Str Tlv :=
  match readTlv buf offset with
  | none => .error (text "malformed or BER-encoded " ++ text what)
  | some t => .ok t

def expectTag (t : Option Tlv) (tag : UInt8) (what : String) : Except Str Tlv :=
  match t with
  | none => .error (text "unexpected structure at " ++ text what)
  | some t => if t.tag ≠ tag then .error (text "unexpected structure at " ++ text what) else .ok t

def content (buf : List UInt8) (t : Tlv) : List UInt8 := slice buf t.start t.end'

def smallInt (buf : List UInt8) (t : Option Tlv) (what : String) : Except Str Nat := do
  let t ← expectTag t TAG_INTEGER what
  let len := t.end' - t.start
  if len = 0 ∨ 6 < len ∨ buf.getD t.start 0 &&& 0x80 ≠ 0 then
    .error (text what ++ text ": integer out of range")
  else .ok (BigEndian.value (content buf t))

def iterations (buf : List UInt8) (t : Option Tlv) (what : String) : Except Str Nat := do
  let n ← smallInt buf t what
  if n < 1 ∨ MAX_ITERATIONS < n then
    .error (text what ++ text ": iteration count " ++ decimal n ++ text " out of range")
  else .ok n

def chunk (buf : List UInt8) (what : String) (t : Tlv) : Except Str (List UInt8) :=
  if t.tag ≠ TAG_OCTET_STRING then .error (text what ++ text ": bad constructed octet string")
  else .ok (content buf t)

def octets (buf : List UInt8) (t : Tlv) (what : String) (primitiveTag : UInt8) : Reading (List UInt8) :=
  if t.tag = primitiveTag then return content buf t
  else if t.tag = primitiveTag ||| 0x20 then do
    let parts ← listed buf t
    let chunks ← ofExcept (parts.mapM (chunk buf what))
    return chunks.flatten
  else fail (text "unexpected structure at " ++ text what)

/-! ## Decryption -/

/-- `writeUInt16BE` of each unit, and two zeros; nothing for no password. -/
def bmpPassword : Option Str → List UInt8
  | none => []
  | some password => password.flatMap (fun (u : UInt16) => [(u >>> 8).toUInt8, u.toUInt8]) ++ [0, 0]

def decipher (c : Crypto) (cipher : CipherName) (key iv data : List UInt8) : Except Str (List UInt8) :=
  match c.decipher cipher key iv data with
  | none => .error (text "decryption failed")
  | some plain => .ok plain

/-- The branch of `decrypt` for the schemes of PKCS#12. -/
def decryptPbe (c : Crypto) (buf : List UInt8) (params : Option Tlv) (scheme : CipherName × Nat × Nat)
    (data : List UInt8) (password : Option Str) : Reading (List UInt8) := do
  let params := children buf (← ofExcept (expectTag params TAG_SEQUENCE "PBE params"))
  let salt := content buf (← ofExcept (expectTag params[0]? TAG_OCTET_STRING "PBE salt"))
  let iter ← ofExcept (iterations buf params[1]? "PBE")
  let pw := bmpPassword password
  emit (.kdf .sha1 iter scheme.2.1)
  let key := pkcs12Kdf (c.hash .sha1) pw salt 1 iter scheme.2.1
  emit (.kdf .sha1 iter 8)
  let iv := pkcs12Kdf (c.hash .sha1) pw salt 2 iter 8
  if scheme.1 = .rc2 then ofExcept (Rc2.rc2CbcDecrypt key scheme.2.2 iv data)
  else ofExcept (decipher c scheme.1 key iv data)

/-- `prf`, after the optional parameters. -/
def prfAfter (buf : List UInt8) (prf : HashName) (extra : Tlv) : Except Str HashName :=
  if extra.tag = TAG_SEQUENCE then
    match (decodeOid buf (children buf extra)[0]?).bind (HMAC_PRFS.lookup ·) with
    | none => .error (text "unsupported PBKDF2 PRF")
    | some prf => .ok prf
  else .ok prf

/-- The branch of `decrypt` for PBES2. -/
def decryptPbes2 (c : Crypto) (buf : List UInt8) (params : Option Tlv) (data : List UInt8) (password : Option Str) :
    Reading (List UInt8) := do
  let params := children buf (← ofExcept (expectTag params TAG_SEQUENCE "PBES2 params"))
  let kdf := children buf (← ofExcept (expectTag params[0]? TAG_SEQUENCE "PBES2 kdf"))
  if decodeOid buf kdf[0]? ≠ some OID_PBKDF2 then fail (text "unsupported PBES2 key derivation")
  else do
    let kp := children buf (← ofExcept (expectTag kdf[1]? TAG_SEQUENCE "PBKDF2 params"))
    let salt := content buf (← ofExcept (expectTag kp[0]? TAG_OCTET_STRING "PBKDF2 salt"))
    let iter ← ofExcept (iterations buf kp[1]? "PBKDF2")
    let prf ← ofExcept ((kp.drop 2).foldlM (prfAfter buf) .sha1)
    let enc := children buf (← ofExcept (expectTag params[1]? TAG_SEQUENCE "PBES2 cipher"))
    let encOid := decodeOid buf enc[0]?
    match encOid.bind (PBES2_CIPHERS.lookup ·) with
    | none => fail (text "unsupported PBES2 cipher " ++ encOid.getD (text "?"))
    | some (cipher, keyLen) => do
      let iv := content buf (← ofExcept (expectTag enc[1]? TAG_OCTET_STRING "PBES2 IV"))
      emit (.pbkdf2 prf iter keyLen)
      let key := c.pbkdf2 prf (Utf8.encode (password.getD [])) salt iter keyLen
      ofExcept (decipher c cipher key iv data)

def decrypt (c : Crypto) (buf : List UInt8) (algId : Option Tlv) (data : List UInt8) (password : Option Str) :
    Reading (List UInt8) := do
  let parts := children buf (← ofExcept (expectTag algId TAG_SEQUENCE "encryption algorithm"))
  let oid := decodeOid buf parts[0]?
  match oid.bind (PKCS12_PBE.lookup ·) with
  | some scheme => decryptPbe c buf parts[1]? scheme data password
  | none =>
    if oid = some OID_PBES2 then decryptPbes2 c buf parts[1]? data password
    else fail (text "unsupported encryption " ++ oid.getD (text "?"))

/-! ## The MAC -/

structure MacRequest where
  hash : HashName
  (expected salt : List UInt8)
  iter : Nat
  deriving DecidableEq

/-- The count is optional. -/
def macIterations (buf : List UInt8) (t : Option Tlv) : Except Str Nat :=
  if t.isSome then iterations buf t "MAC" else .ok 1

/-- What `macMatches` reads, nothing for an algorithm that it does not know. -/
def macRequest (buf : List UInt8) (macData : Tlv) : Except Str (Option MacRequest) := do
  let parts := children buf (← expectTag (some macData) TAG_SEQUENCE "MacData")
  let digestInfo := children buf (← expectTag parts[0]? TAG_SEQUENCE "MAC DigestInfo")
  let alg := children buf (← expectTag digestInfo[0]? TAG_SEQUENCE "MAC algorithm")
  match (decodeOid buf alg[0]?).bind (DIGESTS.lookup ·) with
  | none => return none
  | some hash => do
    let expected := content buf (← expectTag digestInfo[1]? TAG_OCTET_STRING "MAC digest")
    let salt := content buf (← expectTag parts[1]? TAG_OCTET_STRING "MAC salt")
    let iter ← macIterations buf parts[2]?
    return some ⟨hash, expected, salt, iter⟩

def macMatches (c : Crypto) (buf : List UInt8) (macData : Tlv) (authSafe : List UInt8) (password : Option Str) :
    Reading (Option Bool) := do
  match ← ofExcept (macRequest buf macData) with
  | none => return none
  | some r => do
    emit (.kdf r.hash r.iter r.expected.length)
    let key := pkcs12Kdf (c.hash r.hash) (bmpPassword password) r.salt 3 r.iter r.expected.length
    emit (.hmac r.hash r.expected.length)
    let actual := c.hmac r.hash key authSafe
    return some (decide (actual.length = r.expected.length ∧ actual = r.expected))

/-! ## Bags -/

/-- The certificates with their key identifiers, and the identifiers of the keys. -/
structure Collected where
  certs : List (List UInt8 × Option (List UInt8))
  keyIds : List (List UInt8)

/-- The loop of `localKeyId` over the attributes. -/
def keyIdAmong (buf : List UInt8) : List Tlv → Reading (Option (List UInt8))
  | [] => return none
  | attr :: attrs =>
    if attr.tag ≠ TAG_SEQUENCE then keyIdAmong buf attrs
    else do
      let parts ← listed buf attr
      match decide (decodeOid buf parts[0]? = some ATTR_LOCAL_KEY_ID), parts[1]? with
      | true, some values =>
        if values.tag ≠ TAG_SET then keyIdAmong buf attrs
        else do
          match (← listed buf values)[0]? with
          | some v => if v.tag = TAG_OCTET_STRING then return some (content buf v) else keyIdAmong buf attrs
          | none => keyIdAmong buf attrs
      | _, _ => keyIdAmong buf attrs

def localKeyId (buf : List UInt8) (attrs : Option Tlv) : Reading (Option (List UInt8)) :=
  match attrs with
  | none => return none
  | some attrs => if attrs.tag ≠ TAG_SET then return none else do keyIdAmong buf (← listed buf attrs)

/-- `if (id) out.keyIds.add(id)`: the empty string is no identifier. -/
def Collected.addKey (out : Collected) : Option (List UInt8) → Reading Collected
  | none => return out
  | some id => do
    emit (.keyBag id)
    return if id = [] then out else { out with keyIds := id :: out.keyIds }

def Collected.addCert (out : Collected) (der : List UInt8) (keyId : Option (List UInt8)) : Collected :=
  { out with certs := out.certs ++ [(der, keyId)] }

def readCertBag (buf : List UInt8) (out : Collected) (valueWrap attrs : Option Tlv) : Reading Collected := do
  let certBag := (← listed buf (← ofExcept (expectTag valueWrap TAG_CONTEXT_0_EXPLICIT "CertBag")))[0]?
  let parts ← listed buf (← ofExcept (expectTag certBag TAG_SEQUENCE "CertBag"))
  if decodeOid buf parts[0]? ≠ some CERT_TYPE_X509 then return out
  else do
    match (← listed buf (← ofExcept (expectTag parts[1]? TAG_CONTEXT_0_EXPLICIT "certValue")))[0]? with
    | none => fail (text "empty certValue")
    | some inner =>
      if MAX_CERTS ≤ out.certs.length then fail (text "too many certificates")
      else do
        let der ← octets buf inner "certValue" TAG_OCTET_STRING
        return out.addCert der (← localKeyId buf attrs)

def readBag (nested : List UInt8 → Collected → Reading Collected) (buf : List UInt8) (out : Collected) (bag : Tlv) :
    Reading Collected :=
  if bag.tag ≠ TAG_SEQUENCE then return out
  else do
    let parts ← listed buf bag
    let bagId := decodeOid buf parts[0]?
    if bagId = some BAG_KEY ∨ bagId = some BAG_SHROUDED_KEY then do
      out.addKey (← localKeyId buf parts[2]?)
    else if bagId = some BAG_CERT then readCertBag buf out parts[1]? parts[2]?
    else if bagId = some BAG_SAFE_CONTENTS then do
      match (← listed buf (← ofExcept (expectTag parts[1]? TAG_CONTEXT_0_EXPLICIT "safeContentsBag")))[0]? with
      | none => return out
      | some inner => nested (slice buf inner.headerStart inner.end') out
    else return out

/-- So many levels may still be nested. -/
def readSafeContents : Nat → List UInt8 → Collected → Reading Collected
  | 0, _, _ => fail (text "SafeContents nested too deep")
  | levels + 1, buf, out => do
    let seq ← ofExcept (tlvAt buf 0 "SafeContents")
    let seq ← ofExcept (expectTag (some seq) TAG_SEQUENCE "SafeContents")
    (← listed buf seq).foldlM (readBag (readSafeContents levels) buf) out

/-! ## Files -/

def readContentInfo (c : Crypto) (authSafe : List UInt8) (password : Option Str) (out : Collected) (ci : Tlv) :
    Reading Collected := do
  let parts ← listed authSafe (← ofExcept (expectTag (some ci) TAG_SEQUENCE "ContentInfo"))
  let type := decodeOid authSafe parts[0]?
  match (← listed authSafe (← ofExcept (expectTag parts[1]? TAG_CONTEXT_0_EXPLICIT "ContentInfo content")))[0]? with
  | none => return out
  | some inner =>
    if type = some OID_DATA then do
      readSafeContents (MAX_DEPTH + 1) (← octets authSafe inner "SafeContents" TAG_OCTET_STRING) out
    else if type = some OID_ENCRYPTED_DATA then do
      let ed ← listed authSafe (← ofExcept (expectTag (some inner) TAG_SEQUENCE "EncryptedData"))
      let eci ← listed authSafe (← ofExcept (expectTag ed[1]? TAG_SEQUENCE "EncryptedContentInfo"))
      match eci[2]? with
      | none => return out
      | some encrypted => do
        let ciphertext ← octets authSafe encrypted "encryptedContent" TAG_CONTEXT_0_PRIMITIVE
        readSafeContents (MAX_DEPTH + 1) (← decrypt c authSafe eci[1]? ciphertext password) out
    else if type = some OID_ENVELOPED_DATA then
      fail (text "public-key privacy mode (envelopedData) not supported")
    else fail (text "unsupported content type " ++ type.getD (text "?"))

def readAuthSafe (c : Crypto) (authSafe : List UInt8) (password : Option Str) : Reading Collected := do
  let seq ← ofExcept (tlvAt authSafe 0 "AuthenticatedSafe")
  let seq ← ofExcept (expectTag (some seq) TAG_SEQUENCE "AuthenticatedSafe")
  (← listed authSafe seq).foldlM (readContentInfo c authSafe password) ⟨[], []⟩

structure Pkcs12Cert where
  der : List UInt8
  hasPrivateKey : Bool
  deriving DecidableEq

def Collected.certificates (out : Collected) : List Pkcs12Cert :=
  out.certs.map fun cert => ⟨cert.1, cert.2.any (· ∈ out.keyIds)⟩

def candidates : List (Option Str) := [some [], none]

/-- `candidates.filter`. -/
def matching (c : Crypto) (buf : List UInt8) (macData : Tlv) (authSafe : List UInt8) :
    List (Option Str) → Reading (List (Option Str))
  | [] => return []
  | password :: passwords => do
    let m ← macMatches c buf macData authSafe password
    let rest ← matching c buf macData authSafe passwords
    return if m = some false then rest else password :: rest

def readWith (c : Crypto) (authSafe : List UInt8) (hasMac : Bool) :
    Option Str → List (Option Str) → Reading (List Pkcs12Cert)
  | lastError, [] =>
    if lastError = some (text "decryption failed") ∧ ¬ hasMac then
      fail (text "password required (empty password rejected)")
    else fail (lastError.getD (text "malformed PKCS#12"))
  | _, password :: passwords =>
    orElse (do return (← readAuthSafe c authSafe password).certificates) fun e =>
      readWith c authSafe hasMac (some e) passwords

/-- The authenticated safe of a file, and the value of its MAC if it has one. -/
def openPfx (buf : List UInt8) : Reading (List UInt8 × Option Tlv) := do
  let pfx ← ofExcept (tlvAt buf 0 "PFX")
  let parts ← listed buf (← ofExcept (expectTag (some pfx) TAG_SEQUENCE "PFX"))
  let version ← ofExcept (smallInt buf parts[0]? "PFX version")
  if version ≠ 3 then fail (text "not a PKCS#12 v3 file")
  else do
    let ci ← listed buf (← ofExcept (expectTag parts[1]? TAG_SEQUENCE "authSafe"))
    let type := decodeOid buf ci[0]?
    if type = some OID_SIGNED_DATA then fail (text "public-key integrity mode (signedData) not supported")
    else if type ≠ some OID_DATA then fail (text "unsupported authSafe type " ++ type.getD (text "?"))
    else do
      match (← listed buf (← ofExcept (expectTag ci[1]? TAG_CONTEXT_0_EXPLICIT "authSafe content")))[0]? with
      | none => fail (text "empty authSafe")
      | some inner => do
        let authSafe ← octets buf inner "authSafe" TAG_OCTET_STRING
        return (authSafe, parts[2]?)

def readPkcs12Certificates (c : Crypto) (buf : List UInt8) : Reading (List Pkcs12Cert) := do
  let (authSafe, macData) ← openPfx buf
  match macData with
  | none => readWith c authSafe false none candidates
  | some mac => do
    let passwords ← matching c buf mac authSafe candidates
    if passwords = [] then fail (text "password required (empty password rejected)")
    else readWith c authSafe true none passwords

/-! ## Written values -/

/-- A value, with a length of one or of three bytes. -/
def written (tag : UInt8) (bytes : List UInt8) : List UInt8 :=
  let length := if bytes.length < 0x80 then [UInt8.ofNat bytes.length] else 0x82 :: BigEndian.bytesOf 2 bytes.length
  tag :: length ++ bytes

def writtenData (bytes : List UInt8) : List UInt8 :=
  written 0x30 (written 0x06 [0x2A, 0x86, 0x48, 0x86, 0xF7, 0x0D, 0x01, 0x07, 0x01] ++
    written 0xA0 (written 0x04 (written 0x30 bytes)))

def writtenPfx (infos mac : List UInt8) : List UInt8 := written 0x30 (written 0x02 [3] ++ writtenData infos ++ mac)

/-- Functions of the right lengths, for files that are read without them. -/
def Crypto.blank : Crypto where
  digest h _ := List.replicate h.digestLength 0
  hmac h _ _ := List.replicate h.digestLength 0
  pbkdf2 _ _ _ _ keyLen := List.replicate keyLen 0
  decipher _ _ _ _ := none
  length_digest _ _ := List.length_replicate

end Cdp.Pkcs12
