-- SUMMARY: What a PKCS#12 file declares, and that it is what the reader returns where no listing is cut.
import Tracenium.Cdp.Pkcs12

/-! `declared` reads a file without a limit on siblings, first to the entries of its bags and then to certificates. -/

open Utf16 Logged Option List

namespace Cdp.Pkcs12

open Refines Collected Event

/-! ## What is declared -/

/-- The values of a content, one after another to its end. -/
def listFrom (buf : List UInt8) (stop : Nat) : Nat → Nat → Option (List Tlv)
  | 0, offset => if offset = stop then some [] else none
  | fuel + 1, offset =>
    if offset = stop then some []
    else
      match readTlv buf offset with
      | none => none
      | some tlv => if stop < tlv.next then none else (listFrom buf stop fuel tlv.next).map (tlv :: ·)

def listing (buf : List UInt8) (parent : Tlv) : Option (List Tlv) :=
  listFrom buf parent.end' (parent.end' - parent.start) parent.start

inductive Entry
  | cert (der : List UInt8) (keyId : Option (List UInt8))
  | key (keyId : List UInt8)
  deriving DecidableEq

def octetString (buf : List UInt8) (t : Tlv) (what : String) (primitiveTag : UInt8) : Option (List UInt8) :=
  if t.tag = primitiveTag then some (content buf t)
  else if t.tag = primitiveTag ||| 0x20 then
    (listing buf t).bind fun parts => ((parts.mapM (chunk buf what)).toOption).map flatten
  else none

def idAmong (buf : List UInt8) : List Tlv → Option (Option (List UInt8))
  | [] => some none
  | attr :: attrs =>
    if attr.tag ≠ TAG_SEQUENCE then idAmong buf attrs
    else
      (listing buf attr).bind fun parts =>
        match decide (decodeOid buf parts[0]? = some ATTR_LOCAL_KEY_ID), parts[1]? with
        | true, some values =>
          if values.tag ≠ TAG_SET then idAmong buf attrs
          else
            (listing buf values).bind fun vs =>
              match vs[0]? with
              | some v => if v.tag = TAG_OCTET_STRING then some (some (content buf v)) else idAmong buf attrs
              | none => idAmong buf attrs
        | _, _ => idAmong buf attrs

def keyIdOf (buf : List UInt8) (attrs : Option Tlv) : Option (Option (List UInt8)) :=
  match attrs with
  | none => some none
  | some attrs => if attrs.tag ≠ TAG_SET then some none else (listing buf attrs).bind (idAmong buf)

def certEntries (buf : List UInt8) (valueWrap attrs : Option Tlv) : Option (List Entry) := do
  let certBag := (← listing buf (← (expectTag valueWrap TAG_CONTEXT_0_EXPLICIT "CertBag").toOption))[0]?
  let parts ← listing buf (← (expectTag certBag TAG_SEQUENCE "CertBag").toOption)
  if decodeOid buf parts[0]? ≠ some CERT_TYPE_X509 then return []
  else do
    let inner ← (← listing buf (← (expectTag parts[1]? TAG_CONTEXT_0_EXPLICIT "certValue").toOption))[0]?
    let der ← octetString buf inner "certValue" TAG_OCTET_STRING
    return [.cert der (← keyIdOf buf attrs)]

def bagEntries (nested : List UInt8 → Option (List Entry)) (buf : List UInt8) (bag : Tlv) : Option (List Entry) :=
  if bag.tag ≠ TAG_SEQUENCE then return []
  else do
    let parts ← listing buf bag
    let bagId := decodeOid buf parts[0]?
    if bagId = some BAG_KEY ∨ bagId = some BAG_SHROUDED_KEY then do
      return ((← keyIdOf buf parts[2]?).map .key).toList
    else if bagId = some BAG_CERT then certEntries buf parts[1]? parts[2]?
    else if bagId = some BAG_SAFE_CONTENTS then do
      match (← listing buf (← (expectTag parts[1]? TAG_CONTEXT_0_EXPLICIT "safeContentsBag").toOption))[0]? with
      | none => return []
      | some inner => nested (slice buf inner.headerStart inner.end')
    else return []

/-- The entries of the bags, those of nested contents in their place. -/
def contentsEntries : Nat → List UInt8 → Option (List Entry)
  | 0, _ => none
  | levels + 1, buf => do
    let seq ← (tlvAt buf 0 "SafeContents").toOption
    let seq ← (expectTag (some seq) TAG_SEQUENCE "SafeContents").toOption
    return (← (← listing buf seq).mapM (bagEntries (contentsEntries levels) buf)).flatten

def infoEntries (c : Crypto) (authSafe : List UInt8) (password : Option Str) (ci : Tlv) : Option (List Entry) := do
  let parts ← listing authSafe (← (expectTag (some ci) TAG_SEQUENCE "ContentInfo").toOption)
  let type := decodeOid authSafe parts[0]?
  match (← listing authSafe (← (expectTag parts[1]? TAG_CONTEXT_0_EXPLICIT "ContentInfo content").toOption))[0]? with
  | none => return []
  | some inner =>
    if type = some OID_DATA then do
      contentsEntries (MAX_DEPTH + 1) (← octetString authSafe inner "SafeContents" TAG_OCTET_STRING)
    else if type = some OID_ENCRYPTED_DATA then do
      let ed ← listing authSafe (← (expectTag (some inner) TAG_SEQUENCE "EncryptedData").toOption)
      let eci ← listing authSafe (← (expectTag ed[1]? TAG_SEQUENCE "EncryptedContentInfo").toOption)
      match eci[2]? with
      | none => return []
      | some encrypted => do
        let ciphertext ← octetString authSafe encrypted "encryptedContent" TAG_CONTEXT_0_PRIMITIVE
        contentsEntries (MAX_DEPTH + 1) (← (decrypt c authSafe eci[1]? ciphertext password).result.toOption)
    else none

def safeEntries (c : Crypto) (authSafe : List UInt8) (password : Option Str) : Option (List Entry) := do
  let seq ← (tlvAt authSafe 0 "AuthenticatedSafe").toOption
  let seq ← (expectTag (some seq) TAG_SEQUENCE "AuthenticatedSafe").toOption
  return (← (← listing authSafe seq).mapM (infoEntries c authSafe password)).flatten

/-- The certificates in order; the key of one is there if a key bag has its identifier. -/
def certificatesOf (entries : List Entry) : List Pkcs12Cert :=
  entries.filterMap fun entry =>
    match entry with
    | .cert der keyId => some ⟨der, keyId.any fun id => .key id ∈ entries⟩
    | .key _ => none

/-- Files of more than `MAX_CERTS` are refused. -/
def withinLimit (certs : List Pkcs12Cert) : Option (List Pkcs12Cert) :=
  if certs.length ≤ MAX_CERTS then some certs else none

def openedPfx (buf : List UInt8) : Option (List UInt8 × Option Tlv) := do
  let pfx ← (tlvAt buf 0 "PFX").toOption
  let parts ← listing buf (← (expectTag (some pfx) TAG_SEQUENCE "PFX").toOption)
  let version ← (smallInt buf parts[0]? "PFX version").toOption
  if version ≠ 3 then none
  else do
    let ci ← listing buf (← (expectTag parts[1]? TAG_SEQUENCE "authSafe").toOption)
    if decodeOid buf ci[0]? ≠ some OID_DATA then none
    else do
      let inner ← (← listing buf (← (expectTag ci[1]? TAG_CONTEXT_0_EXPLICIT "authSafe content").toOption))[0]?
      return (← octetString buf inner "authSafe" TAG_OCTET_STRING, parts[2]?)

/-- The certificates under the first of the passwords that opens the file. -/
def declaredWith (c : Crypto) (authSafe : List UInt8) : List (Option Str) → Option (List Pkcs12Cert)
  | [] => none
  | password :: passwords =>
    ((safeEntries c authSafe password).bind fun entries => withinLimit (certificatesOf entries)).or
      (declaredWith c authSafe passwords)

/-- The certificates that a file declares, if it opens with one of the two empty passwords. -/
def declared (c : Crypto) (buf : List UInt8) : Option (List Pkcs12Cert) := do
  let (authSafe, macData) ← openedPfx buf
  match macData with
  | none => declaredWith c authSafe candidates
  | some mac => declaredWith c authSafe (← (matching c buf mac authSafe candidates).result.toOption)

/-! ## Listings -/

/-- The children that are listed end where their parent ends. -/
def Filled (buf : List UInt8) (parent : Tlv) : Prop :=
  ((children buf parent).getLast?.map Tlv.next).getD parent.start = parent.end'

theorem next_readTlv {buf : List UInt8} {offset : Nat} {tlv : Tlv} (h : readTlv buf offset = some tlv) :
    offset < tlv.next := by
  unfold readTlv at h
  split_ifs at h with hshort
  split at h
  · cases h
  · rename_i length headerLen hlength
    simp only at h
    split_ifs at h with hlong
    have hheader : 2 ≤ headerLen := by
      unfold readLength at hlength
      split_ifs at hlength
      · simp only [some.injEq, Prod.mk.injEq] at hlength
        omega
      · simp only at hlength
        split_ifs at hlength
        simp only [some.injEq, Prod.mk.injEq] at hlength
        omega
    obtain rfl := some.inj h
    simp only
    omega

theorem listFrom_of_filled (buf : List UInt8) (stop left : Nat) {offset fuel : Nat} (hfuel : stop - offset ≤ fuel)
    (h : ((childrenFrom buf stop left offset).getLast?.map Tlv.next).getD offset = stop) :
    listFrom buf stop fuel offset = some (childrenFrom buf stop left offset) := by
  have hstop (fuel : Nat) : listFrom buf stop fuel stop = some [] := by cases fuel <;> simp [listFrom]
  induction left generalizing offset fuel with
  | zero =>
    obtain rfl : offset = stop := by simpa [childrenFrom] using h
    exact hstop fuel
  | succ left ih =>
    rw [childrenFrom] at h ⊢
    split_ifs at h ⊢ with hlt
    · obtain ⟨fuel, rfl⟩ : ∃ n, fuel = n + 1 := ⟨fuel - 1, by omega⟩
      rw [listFrom, if_neg (by omega)]
      cases htlv : readTlv buf offset with
      | none =>
        rw [htlv] at h
        simp only [getLast?_nil, map_none, getD_none] at h
        omega
      | some tlv =>
        rw [htlv] at h
        simp only at h ⊢
        by_cases hbad : stop < tlv.next ∨ tlv.next ≤ offset
        · rw [if_pos hbad] at h
          simp only [getLast?_nil, map_none, getD_none] at h
          omega
        · rw [if_neg hbad] at h ⊢
          rw [if_neg (by omega), ih (by omega) (by simpa [getLast?_cons] using h)]
          rfl
    · obtain rfl : offset = stop := by simpa using h
      exact hstop fuel

theorem listing_of_filled {buf : List UInt8} {parent : Tlv} (h : Filled buf parent) :
    listing buf parent = some (children buf parent) :=
  listFrom_of_filled buf parent.end' MAX_SIBLINGS (Nat.le_refl _) h

/-! ## The reading -/

def Event.Whole : Event → Prop
  | .listed buf parent => Filled buf parent
  | .keyBag id => id ≠ []
  | _ => True

instance : DecidablePred Whole
  | .listed _ _ => inferInstanceAs (Decidable (_ = _))
  | .keyBag _ => inferInstanceAs (Decidable (_ ≠ _))
  | .kdf _ _ _ | .pbkdf2 _ _ _ | .hmac _ _ => inferInstanceAs (Decidable True)

theorem refines_listed (buf : List UInt8) (parent : Tlv) :
    Refines Whole (listed buf parent) (listing buf parent) := by
  refine emit fun hfilled => ?_
  rw [listing_of_filled hfilled]
  exact pure _

theorem refines_octets (buf : List UInt8) (t : Tlv) (what : String) (primitiveTag : UInt8) :
    Refines Whole (octets buf t what primitiveTag) (octetString buf t what primitiveTag) := by
  unfold octets octetString
  split_ifs with hprimitive hconstructed
  · exact pure _
  · refine (refines_listed buf t).bind fun parts _ => ?_
    rw [map_eq_bind]
    exact (Refines.ofExcept _).bind fun chunks _ => Refines.pure _
  · exact fail _

theorem refines_keyIdAmong (buf : List UInt8) (attrs : List Tlv) :
    Refines Whole (keyIdAmong buf attrs) (idAmong buf attrs) := by
  induction attrs with
  | nil => exact pure _
  | cons attr attrs ih =>
    unfold keyIdAmong idAmong
    split_ifs with htag
    · exact ih
    · refine (refines_listed buf attr).bind fun parts _ => ?_
      generalize decide (decodeOid buf parts[0]? = some ATTR_LOCAL_KEY_ID) = isKeyId
      generalize parts[1]? = values
      match isKeyId, values with
      | true, some values =>
        simp only
        split_ifs with hset
        · exact ih
        · refine (refines_listed buf values).bind fun vs _ => ?_
          cases vs[0]? with
          | none => exact ih
          | some v =>
            simp only
            split_ifs
            · exact pure _
            · exact ih
      | true, none => exact ih
      | false, _ => exact ih

theorem refines_localKeyId (buf : List UInt8) (attrs : Option Tlv) :
    Refines Whole (localKeyId buf attrs) (keyIdOf buf attrs) := by
  unfold localKeyId keyIdOf
  cases attrs with
  | none => exact pure _
  | some attrs =>
    simp only
    split_ifs with hset
    · exact pure _
    · exact (refines_listed buf attrs).bind fun parts _ => refines_keyIdAmong buf parts

/-- What an entry adds to what is collected, nothing where there are too many certificates. -/
def Collected.addEntry (out : Collected) : Entry → Option Collected
  | .cert der keyId => if MAX_CERTS ≤ out.certs.length then none else some (out.addCert der keyId)
  | .key id => some { out with keyIds := id :: out.keyIds }

def Collected.add (out : Collected) (entries : List Entry) : Option Collected := entries.foldlM addEntry out

theorem add_append (out : Collected) (a b : List Entry) : out.add (a ++ b) = (out.add a).bind fun out => out.add b := by
  simp only [add, foldlM_append]
  rfl

/-- To add the entries of each bag as it is read is to add all of them in the end. -/
theorem foldlM_add {β : Type} (f : β → Option (List Entry)) (bags : List β) (out : Collected) :
    bags.foldlM (fun out bag => (f bag).bind out.add) out = ((bags.mapM f).map flatten).bind out.add := by
  induction bags generalizing out with
  | nil => rfl
  | cons bag bags ih =>
    rw [foldlM_cons, mapM_cons]
    cases hbag : f bag with
    | none => rfl
    | some entries =>
      simp only [ih]
      cases hbags : bags.mapM f with
      | none => simp
      | some rest => simp [add_append]

theorem refines_addKey (out : Collected) (id : Option (List UInt8)) :
    Refines Whole (out.addKey id) (out.add (id.map Entry.key).toList) := by
  cases id with
  | none => exact pure _
  | some id =>
    refine emit fun hne => ?_
    rw [if_neg hne]
    exact pure _

theorem refines_readCertBag (buf : List UInt8) (out : Collected) (valueWrap attrs : Option Tlv) :
    Refines Whole (readCertBag buf out valueWrap attrs) ((certEntries buf valueWrap attrs).bind out.add) := by
  unfold readCertBag certEntries
  simp only [bind_eq_bind, bind_assoc]
  refine (Refines.ofExcept _).bind fun wrap _ => ?_
  refine (refines_listed buf wrap).bind fun bags _ => ?_
  refine (Refines.ofExcept _).bind fun certBag _ => ?_
  refine (refines_listed buf certBag).bind fun parts _ => ?_
  by_cases htype : decodeOid buf parts[0]? ≠ some CERT_TYPE_X509
  · rw [if_pos htype, if_pos htype]
    exact pure _
  · rw [if_neg htype, if_neg htype]
    simp only [bind_assoc]
    refine (Refines.ofExcept _).bind fun value _ => ?_
    refine (refines_listed buf value).bind fun inner _ => ?_
    cases inner[0]? with
    | none => exact Refines.fail _
    | some inner =>
      simp only
      -- the reader looks at the number before it reads the certificate
      by_cases hmany : MAX_CERTS ≤ out.certs.length
      · have hnone (der : List UInt8) (keyId : Option (List UInt8)) : out.add [Entry.cert der keyId] = none := by
          simp [add, addEntry, hmany]
        rw [if_pos hmany]
        simp only [Option.pure_def, Option.bind_some, hnone, Option.bind_fun_none]
        exact fail _
      · have hadd (der : List UInt8) (keyId : Option (List UInt8)) :
            out.add [Entry.cert der keyId] = some (out.addCert der keyId) := by
          simp [add, addEntry, hmany]
        rw [if_neg hmany]
        refine (refines_octets buf inner _ _).bind fun der _ => ?_
        refine (refines_localKeyId buf attrs).bind fun keyId _ => ?_
        simp only [Option.pure_def, Option.bind_some, hadd]
        exact pure _

theorem refines_readBag {nested : List UInt8 → Collected → Reading Collected}
    {entries : List UInt8 → Option (List Entry)}
    (h : ∀ buf out, Refines Whole (nested buf out) ((entries buf).bind out.add)) (buf : List UInt8)
    (out : Collected) (bag : Tlv) :
    Refines Whole (readBag nested buf out bag) ((bagEntries entries buf bag).bind out.add) := by
  have hempty : Refines Whole (pure out : Reading Collected) (out.add []) := pure out
  unfold readBag bagEntries
  by_cases htag : bag.tag ≠ TAG_SEQUENCE
  · rw [if_pos htag, if_pos htag]
    exact hempty
  · rw [if_neg htag, if_neg htag]
    simp only [bind_eq_bind, bind_assoc]
    refine (refines_listed buf bag).bind fun parts _ => ?_
    by_cases hkey : decodeOid buf parts[0]? = some BAG_KEY ∨ decodeOid buf parts[0]? = some BAG_SHROUDED_KEY
    · rw [if_pos hkey, if_pos hkey]
      simp only [bind_assoc]
      exact (refines_localKeyId buf _).bind fun id _ => refines_addKey out id
    · rw [if_neg hkey, if_neg hkey]
      by_cases hcert : decodeOid buf parts[0]? = some BAG_CERT
      · rw [if_pos hcert, if_pos hcert]
        exact refines_readCertBag buf out _ _
      · rw [if_neg hcert, if_neg hcert]
        by_cases hcontents : decodeOid buf parts[0]? = some BAG_SAFE_CONTENTS
        · rw [if_pos hcontents, if_pos hcontents]
          simp only [bind_assoc]
          refine (Refines.ofExcept _).bind fun wrap _ => ?_
          refine (refines_listed buf wrap).bind fun inner _ => ?_
          cases inner[0]? with
          | none => exact hempty
          | some inner => exact h _ out
        · rw [if_neg hcontents, if_neg hcontents]
          exact hempty

theorem refines_readSafeContents (levels : Nat) (buf : List UInt8) (out : Collected) :
    Refines Whole (readSafeContents levels buf out) ((contentsEntries levels buf).bind out.add) := by
  induction levels generalizing buf out with
  | zero => exact fail _
  | succ levels ih =>
    unfold readSafeContents contentsEntries
    simp only [bind_eq_bind, bind_assoc]
    refine (Refines.ofExcept _).bind fun seq _ => ?_
    refine (Refines.ofExcept _).bind fun seq _ => ?_
    refine (refines_listed buf seq).bind fun bags _ => ?_
    have hbags := foldlM_add (bagEntries (contentsEntries levels) buf) bags out
    rw [map_eq_bind, bind_assoc] at hbags
    refine Eq.subst hbags ?_
    exact foldlM (fun out bag _ => refines_readBag ih buf out bag) out

theorem refines_readContentInfo (c : Crypto) (authSafe : List UInt8) (password : Option Str) (out : Collected)
    (ci : Tlv) : Refines Whole (readContentInfo c authSafe password out ci)
      ((infoEntries c authSafe password ci).bind out.add) := by
  have hempty : Refines Whole (pure out : Reading Collected) (out.add []) := pure out
  unfold readContentInfo infoEntries
  simp only [bind_eq_bind, bind_assoc]
  refine (Refines.ofExcept _).bind fun seq _ => ?_
  refine (refines_listed authSafe seq).bind fun parts _ => ?_
  refine (Refines.ofExcept _).bind fun wrap _ => ?_
  refine (refines_listed authSafe wrap).bind fun inner _ => ?_
  cases inner[0]? with
  | none => exact hempty
  | some inner =>
    simp only
    by_cases hdata : decodeOid authSafe parts[0]? = some OID_DATA
    · rw [if_pos hdata, if_pos hdata]
      simp only [bind_assoc]
      exact (refines_octets authSafe inner _ _).bind fun buf _ => refines_readSafeContents _ buf out
    · rw [if_neg hdata, if_neg hdata]
      by_cases hencrypted : decodeOid authSafe parts[0]? = some OID_ENCRYPTED_DATA
      · rw [if_pos hencrypted, if_pos hencrypted]
        simp only [bind_assoc]
        refine (Refines.ofExcept _).bind fun data _ => ?_
        refine (refines_listed authSafe data).bind fun ed _ => ?_
        refine (Refines.ofExcept _).bind fun info _ => ?_
        refine (refines_listed authSafe info).bind fun eci _ => ?_
        cases eci[2]? with
        | none => exact hempty
        | some encrypted =>
          simp only [bind_assoc]
          refine (refines_octets authSafe encrypted _ _).bind fun ciphertext _ => ?_
          have hdecrypt : Refines Whole (decrypt c authSafe eci[1]? ciphertext password)
              (decrypt c authSafe eci[1]? ciphertext password).result.toOption := fun _ => rfl
          exact hdecrypt.bind fun buf _ => refines_readSafeContents _ buf out
      · rw [if_neg hencrypted, if_neg hencrypted]
        split_ifs
        · exact fail _
        · exact fail _

theorem refines_readAuthSafe (c : Crypto) (authSafe : List UInt8) (password : Option Str) :
    Refines Whole (readAuthSafe c authSafe password) ((safeEntries c authSafe password).bind (add ⟨[], []⟩)) := by
  unfold readAuthSafe safeEntries
  simp only [bind_eq_bind, bind_assoc]
  refine (Refines.ofExcept _).bind fun seq _ => ?_
  refine (Refines.ofExcept _).bind fun seq _ => ?_
  refine (refines_listed authSafe seq).bind fun infos _ => ?_
  have hinfos := foldlM_add (infoEntries c authSafe password) infos ⟨[], []⟩
  rw [map_eq_bind, bind_assoc] at hinfos
  refine Eq.subst hinfos ?_
  exact foldlM (fun out ci _ => refines_readContentInfo c authSafe password out ci) _

/-! ## Certificates -/

def certsIn (entries : List Entry) : List (List UInt8 × Option (List UInt8)) :=
  entries.filterMap fun entry =>
    match entry with
    | .cert der keyId => some (der, keyId)
    | .key _ => none

def keysIn (entries : List Entry) : List (List UInt8) :=
  entries.filterMap fun entry =>
    match entry with
    | .cert _ _ => none
    | .key id => some id

theorem mem_keysIn {entries : List Entry} {id : List UInt8} : id ∈ keysIn entries ↔ Entry.key id ∈ entries := by
  rw [keysIn, mem_filterMap]
  constructor
  · rintro ⟨entry, hmem, hkey⟩
    cases entry with
    | cert der keyId => simp at hkey
    | key id' =>
      obtain rfl : id' = id := by simpa using hkey
      exact hmem
  · intro hmem
    exact ⟨.key id, hmem, rfl⟩

theorem add_eq {out : Collected} (h : out.certs.length ≤ MAX_CERTS) (entries : List Entry) : out.add entries =
      if out.certs.length + (certsIn entries).length ≤ MAX_CERTS then
        some ⟨out.certs ++ certsIn entries, (keysIn entries).reverse ++ out.keyIds⟩ else none := by
  induction entries generalizing out with
  | nil => simp [add, certsIn, keysIn, h]
  | cons entry entries ih =>
    have hcons : out.add (entry :: entries) = (out.addEntry entry).bind fun out => out.add entries := rfl
    rw [hcons]
    cases entry with
    | cert der keyId =>
      have hcerts : certsIn (.cert der keyId :: entries) = (der, keyId) :: certsIn entries := rfl
      have hkeys : keysIn (.cert der keyId :: entries) = keysIn entries := rfl
      rw [hcerts, hkeys, addEntry]
      by_cases hmany : MAX_CERTS ≤ out.certs.length
      · have hover : ¬ out.certs.length + ((der, keyId) :: certsIn entries).length ≤ MAX_CERTS := by
          rw [length_cons]
          omega
        rw [if_pos hmany, if_neg hover]
        rfl
      · have hsucc : (out.addCert der keyId).certs.length = out.certs.length + 1 := by simp [addCert]
        have hsum : out.certs.length + 1 + (certsIn entries).length =
            out.certs.length + ((der, keyId) :: certsIn entries).length := by
          rw [length_cons]
          omega
        rw [if_neg hmany, bind_some, ih (by omega), hsucc, hsum]
        simp [addCert]
    | key id =>
      have hcerts : certsIn (.key id :: entries) = certsIn entries := rfl
      have hkeys : keysIn (.key id :: entries) = id :: keysIn entries := rfl
      have hrest := @ih { out with keyIds := id :: out.keyIds } h
      rw [hcerts, hkeys, addEntry, bind_some, hrest]
      simp

theorem certificatesOf_eq (entries : List Entry) :
    certificatesOf entries = (certsIn entries).map fun cert => ⟨cert.1, cert.2.any fun id => id ∈ keysIn entries⟩ := by
  rw [certificatesOf, certsIn, map_filterMap]
  congr 1
  funext entry
  cases entry with
  | cert der keyId => simp only [mem_keysIn, map_some]
  | key id => rfl

/-- What is collected from entries has their certificates. -/
theorem certificates_add (entries : List Entry) :
    ((add ⟨[], []⟩ entries).map certificates) = withinLimit (certificatesOf entries) := by
  have hlength : (certificatesOf entries).length = (certsIn entries).length := by simp [certificatesOf_eq]
  rw [add_eq (Nat.zero_le _), withinLimit, hlength, length_nil, Nat.zero_add]
  split_ifs
  · simp [certificates, certificatesOf_eq]
  · rfl

/-! ## Files -/

theorem refines_readWith (c : Crypto) (authSafe : List UInt8) (hasMac : Bool) (lastError : Option Str)
    (passwords : List (Option Str)) :
    Refines Whole (readWith c authSafe hasMac lastError passwords) (declaredWith c authSafe passwords) := by
  induction passwords generalizing lastError with
  | nil =>
    unfold readWith declaredWith
    split_ifs
    · exact fail _
    · exact fail _
  | cons password passwords ih =>
    unfold readWith declaredWith
    refine orElse ?_ fun e _ => ih (some e)
    have hcertificates : ((safeEntries c authSafe password).bind fun entries => withinLimit (certificatesOf entries)) =
        ((safeEntries c authSafe password).bind (add ⟨[], []⟩)).bind fun out => some out.certificates := by
      rw [bind_assoc]
      congr 1
      funext entries
      rw [← certificates_add, map_eq_bind]
      rfl
    rw [hcertificates]
    exact (refines_readAuthSafe c authSafe password).bind fun out _ => pure _

theorem refines_openPfx (buf : List UInt8) : Refines Whole (openPfx buf) (openedPfx buf) := by
  unfold openPfx openedPfx
  simp only
  refine (Refines.ofExcept _).bind fun pfx _ => ?_
  refine (Refines.ofExcept _).bind fun seq _ => ?_
  refine (refines_listed buf seq).bind fun parts _ => ?_
  refine (Refines.ofExcept _).bind fun version _ => ?_
  by_cases hversion : version ≠ 3
  · rw [if_pos hversion, if_pos hversion]
    exact Refines.fail _
  · rw [if_neg hversion, if_neg hversion]
    refine (Refines.ofExcept _).bind fun info _ => ?_
    refine (refines_listed buf info).bind fun ci _ => ?_
    by_cases htype : decodeOid buf ci[0]? ≠ some OID_DATA
    · rw [if_pos htype, if_pos htype]
      split_ifs
      · exact Refines.fail _
      · exact fail _
    · have hsigned : decodeOid buf ci[0]? ≠ some OID_SIGNED_DATA := by
        rw [not_not.mp htype]
        decide
      rw [if_neg hsigned, if_neg htype, if_neg htype]
      refine (Refines.ofExcept _).bind fun wrap _ => ?_
      refine (refines_listed buf wrap).bind fun inner _ => ?_
      cases inner[0]? with
      | none => exact Refines.fail _
      | some inner => exact (refines_octets buf inner _ _).bind fun authSafe _ => pure _

/-- A file is read completely, or refused, where its listings are whole. -/
theorem refines_readPkcs12Certificates (c : Crypto) (buf : List UInt8) :
    Refines Whole (readPkcs12Certificates c buf) (declared c buf) := by
  refine (refines_openPfx buf).bind fun opened _ => ?_
  obtain ⟨authSafe, macData⟩ := opened
  cases macData with
  | none => exact refines_readWith c authSafe false none candidates
  | some mac =>
    have hmatching : Refines Whole (matching c buf mac authSafe candidates)
        (matching c buf mac authSafe candidates).result.toOption := fun _ => rfl
    refine hmatching.bind fun passwords _ => ?_
    by_cases hnone : passwords = []
    · rw [if_pos hnone, hnone]
      exact fail _
    · rw [if_neg hnone]
      exact refines_readWith c authSafe true none passwords

/-- The reader returns the certificates that a file declares, and refuses a file that declares none. -/
def ReadsWhole (c : Crypto) (buf : List UInt8) : Prop :=
  ∀ certs, (readPkcs12Certificates c buf).result = .ok certs ↔ declared c buf = some certs

/-- A file is read completely, or refused, if its listings are whole and its key identifiers are not empty. -/
theorem readsWhole_of_whole {c : Crypto} {buf : List UInt8} (h : All Whole (readPkcs12Certificates c buf)) :
    ReadsWhole c buf := by
  intro certs
  rw [← refines_readPkcs12Certificates c buf h]
  cases (readPkcs12Certificates c buf).result <;> simp [Except.toOption]

/-! ## Files -/

def writtenAttrs (id : List UInt8) : List UInt8 :=
  written 0x31 (written 0x30 (written 0x06 [0x2A, 0x86, 0x48, 0x86, 0xF7, 0x0D, 0x01, 0x09, 0x15] ++
    written 0x31 (written 0x04 id)))

/-- A bag of the `n`-th kind. -/
def writtenBag (n : UInt8) (value attrs : List UInt8) : List UInt8 :=
  written 0x30 (written 0x06 [0x2A, 0x86, 0x48, 0x86, 0xF7, 0x0D, 0x01, 0x0C, 0x0A, 0x01, n] ++
    written 0xA0 value ++ attrs)

def writtenCert (der attrs : List UInt8) : List UInt8 :=
  let x509 := written 0x06 [0x2A, 0x86, 0x48, 0x86, 0xF7, 0x0D, 0x01, 0x09, 0x16, 0x01]
  writtenBag 3 (written 0x30 (x509 ++ written 0xA0 (written 0x04 der))) attrs

def keyedFile : List UInt8 :=
  let bags := writtenBag 2 (written 0x30 []) (writtenAttrs [7]) ++ writtenCert [1, 2, 3] (writtenAttrs [7])
  writtenPfx (writtenData bags) []

theorem readsWhole_of_whole_keyedFile :
    (readPkcs12Certificates Crypto.blank keyedFile).result = .ok [⟨[1, 2, 3], true⟩] := by
  have hwhole : ∀ e ∈ (readPkcs12Certificates Crypto.blank keyedFile).log, e.Whole := by decide +kernel
  have hdeclared : declared Crypto.blank keyedFile = some [⟨[1, 2, 3], true⟩] := by decide +kernel
  exact (readsWhole_of_whole hwhole _).mpr hdeclared

def cutFile : List UInt8 :=
  let others := replicate 64 (written 0x30 (written 0x06 [0x2A, 0x03] ++ written 0xA0 (written 0x05 [])))
  writtenPfx (writtenData (others.flatten ++ writtenCert [1, 2, 3] [])) []

/-- The certificate is not read, and nobody is told. -/
theorem not_readsWhole_cutFile : ¬ ∀ c buf, ReadsWhole c buf := by
  intro h
  have hdeclared : declared Crypto.blank cutFile = some [⟨[1, 2, 3], false⟩] := by decide +kernel
  have hread : (readPkcs12Certificates Crypto.blank cutFile).result.toOption = some [] := by decide +kernel
  rw [(h Crypto.blank cutFile _).mpr hdeclared] at hread
  simp [Except.toOption] at hread

end Cdp.Pkcs12
