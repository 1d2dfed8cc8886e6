-- SUMMARY: The reader of Java keystores, and what it accepts: the bytes of keystores, whose certificates are apart from the keys.
import Tracenium.Lib.Cursor
import Tracenium.Lib.Numerals

open Utf16 Json Cursor List Nat

namespace Cdp.Jks

open Reader BigEndian

def JKS_MAGIC : Nat := 0xFEEDFEED
def JCEKS_MAGIC : Nat := 0xCECECECE
def MAX_ENTRIES : Nat := 10000
def MAX_CHAIN : Nat := 32

inductive JksEntryType
  | trusted
  | key
  deriving DecidableEq

/-- `subarray` gives a part of the buffer. -/
structure JksEntry where
  aliasName : Str
  timestampMs : Nat
  type : JksEntryType
  certsDer : List View
  deriving DecidableEq

/-- The message of a `JksParseError`. -/
def truncated (bytes offset left : Nat) : Str :=
  text "truncated JKS: need " ++ decimal bytes ++ text " bytes at offset " ++ decimal offset ++ text ", have " ++
    decimal left

def u2 : Reader Str Nat := uint truncated 2
def u4 : Reader Str Nat := uint truncated 4

@[irreducible] def asNumber (n : Nat) : Nat := (Doubles.round n).getD n

def u8ms : Reader Str Nat := do
  let v ← uint truncated 8
  pure (asNumber v)

def bytes (len : Nat) : Reader Str View := take truncated len

/-- `bytes(len).toString("utf8")`. -/
def utf : Reader Str Str := do
  let len ← u2
  let b ← block truncated len
  pure (Utf8.decode b)

/-- `bytes(u4())`. -/
def sized : Reader Str View := do
  let len ← u4
  bytes len

/-- `if (version === 2) utf()`. -/
def skipType (version : Nat) : Reader Str Unit :=
  if version = 2 then do
    let _ ← utf
    pure ()
  else pure ()

def cert (version : Nat) : Reader Str View := do
  skipType version
  sized

def chain (version chainLen : Nat) : Reader Str (List View) := times (fun _ => cert version) 0 chainLen

def keyEntry (version : Nat) (aliasName : Str) (timestampMs : Nat) : Reader Str JksEntry := do
  let _ ← sized
  let chainLen ← u4
  if MAX_CHAIN < chainLen then fail (text "chain length " ++ decimal chainLen ++ text " exceeds sanity cap")
  else
    let certsDer ← chain version chainLen
    pure ⟨aliasName, timestampMs, .key, certsDer⟩

def trustedEntry (version : Nat) (aliasName : Str) (timestampMs : Nat) : Reader Str JksEntry := do
  let der ← cert version
  pure ⟨aliasName, timestampMs, .trusted, [der]⟩

def entry (magic version i : Nat) : Reader Str JksEntry := do
  let tag ← u4
  let aliasName ← utf
  let timestampMs ← u8ms
  if tag = 1 then keyEntry version aliasName timestampMs
  else if tag = 2 then trustedEntry version aliasName timestampMs
  else if tag = 3 ∧ magic = JCEKS_MAGIC then fail (text "JCEKS secret-key entry not supported")
  else fail (text "unknown entry tag " ++ decimal tag ++ text " at entry " ++ decimal i)

def entries (magic version : Nat) : Reader Str (List JksEntry) := do
  let count ← u4
  if MAX_ENTRIES < count then fail (text "entry count " ++ decimal count ++ text " exceeds sanity cap")
  else times (entry magic version) 0 count

def store : Reader Str (List JksEntry) := do
  let magic ← u4
  if magic ≠ JKS_MAGIC ∧ magic ≠ JCEKS_MAGIC then fail (text "not a JKS file (bad magic)")
  else
    let version ← u4
    if version ≠ 1 ∧ version ≠ 2 then fail (text "unsupported JKS version " ++ decimal version)
    else entries magic version

/-- The error is the message of the `JksParseError` that is thrown. -/
def parseJks (buf : List UInt8) : Except Str (List JksEntry) :=
  match store buf 0 with
  | .error e => .error e
  | .ok (es, _) => .ok es

/-! ## The format -/

/-- A text with its length before it. -/
def utfBytes (b : List UInt8) : List UInt8 := bytesOf 2 b.length ++ b

/-- Bytes with their length before them. -/
def blobBytes (b : List UInt8) : List UInt8 := bytesOf 4 b.length ++ b

structure Certificate where
  certType : List UInt8
  der : List UInt8
  deriving DecidableEq

/-- Version 1 has no types of certificates. -/
def Certificate.bytes (version : Nat) (c : Certificate) : List UInt8 :=
  (if version = 2 then utfBytes c.certType else []) ++ blobBytes c.der

inductive Content
  | key (blob : List UInt8) (chain : List Certificate)
  | trusted (cert : Certificate)
  deriving DecidableEq

structure Entry where
  aliasName : List UInt8
  timestamp : Nat
  content : Content
  deriving DecidableEq

def Content.tag : Content → Nat
  | .key _ _ => 1
  | .trusted _ => 2

def Content.bytes (version : Nat) : Content → List UInt8
  | .key blob chain =>
    blobBytes blob ++ bytesOf 4 chain.length ++ chain.flatMap (Certificate.bytes version)
  | .trusted c => c.bytes version

def Entry.bytes (version : Nat) (e : Entry) : List UInt8 :=
  bytesOf 4 e.content.tag ++ utfBytes e.aliasName ++ bytesOf 8 e.timestamp ++ e.content.bytes version

/-- A keystore without the digest that follows the entries. -/
def storeBytes (magic version : Nat) (es : List Entry) : List UInt8 :=
  bytesOf 4 magic ++ bytesOf 4 version ++ bytesOf 4 es.length ++ es.flatMap (Entry.bytes version)

/-! ## What the format has room for -/

structure Certificate.Fits (c : Certificate) : Prop where
  certType : c.certType.length < 2 ^ 16
  der : c.der.length < 2 ^ 32

def Content.Fits : Content → Prop
  | .key blob chain => blob.length < 2 ^ 32 ∧ chain.length ≤ MAX_CHAIN ∧ ∀ c ∈ chain, c.Fits
  | .trusted c => c.Fits

structure Entry.Fits (e : Entry) : Prop where
  aliasName : e.aliasName.length < 2 ^ 16
  timestamp : e.timestamp < 2 ^ 64
  content : e.content.Fits

/-! ## Where the parts are -/

def Certificate.view (version o : Nat) (c : Certificate) : View :=
  ⟨o + (if version = 2 then 2 + c.certType.length else 0) + 4, c.der.length⟩

def Content.type : Content → JksEntryType
  | .key _ _ => .key
  | .trusted _ => .trusted

def Content.certs (version o : Nat) : Content → List View
  | .key blob chain => placed (Certificate.bytes version) (Certificate.view version) (o + 4 + blob.length + 4) chain
  | .trusted c => [c.view version o]

def Content.keys (o : Nat) : Content → List View
  | .key blob _ => [⟨o + 4, blob.length⟩]
  | .trusted _ => []

def Entry.contentAt (o : Nat) (e : Entry) : Nat := o + 4 + (2 + e.aliasName.length) + 8

def Entry.parsed (version o : Nat) (e : Entry) : JksEntry :=
  ⟨Utf8.decode e.aliasName, asNumber e.timestamp, e.content.type, e.content.certs version (e.contentAt o)⟩

def keyBlobs (version : Nat) (es : List Entry) : List View :=
  (placed (Entry.bytes version) (fun o e => e.content.keys (e.contentAt o)) 12 es).flatten

end Cdp.Jks

/-! # What the reader of keystores accepts -/

open BigEndian

namespace Cdp.Jks

/-! ## Readers -/

section Readers

theorem reads_u2 : Reads u2 fun _ bytes v => v < 2 ^ 16 ∧ bytes = bytesOf 2 v := Reads.uint truncated 2

theorem reads_u4 : Reads u4 fun _ bytes v => v < 2 ^ 32 ∧ bytes = bytesOf 4 v := Reads.uint truncated 4

theorem reads_u8ms : Reads u8ms fun _ bytes v => ∃ n < 2 ^ 64, bytes = bytesOf 8 n ∧ v = asNumber n := by
  have hreads := (Reads.uint truncated 8).bind fun v => Reads.pure (ε := Str) (asNumber v)
  refine hreads.congr fun o bytes v => ⟨?_, ?_⟩
  · rintro ⟨n, _, _, rfl, ⟨hn, rfl⟩, rfl, rfl⟩
    exact ⟨n, hn, by simp, rfl⟩
  · rintro ⟨n, hn, rfl, rfl⟩
    exact ⟨n, bytesOf 8 n, [], by simp, ⟨hn, rfl⟩, rfl, rfl⟩

theorem reads_utf : Reads utf fun _ bytes s =>
    ∃ body, body.length < 2 ^ 16 ∧ bytes = utfBytes body ∧ s = Utf8.decode body := by
  have hreads := reads_u2.bind fun len => (Reads.block truncated len).bind fun b =>
    Reads.pure (ε := Str) (Utf8.decode b)
  refine hreads.congr fun o bytes s => ⟨?_, ?_⟩
  · rintro ⟨len, _, _, rfl, ⟨hlen, rfl⟩, _, body, _, rfl, ⟨rfl, rfl⟩, rfl, rfl⟩
    exact ⟨_, hlen, by simp [utfBytes], rfl⟩
  · rintro ⟨body, hlen, rfl, rfl⟩
    exact ⟨body.length, _, body, rfl, ⟨hlen, rfl⟩, body, body, [], by simp, ⟨rfl, rfl⟩, rfl, rfl⟩

/-- Bytes with their length before them, as a part of the buffer. -/
theorem reads_sized : Reads sized fun o bytes v =>
    ∃ b, b.length < 2 ^ 32 ∧ bytes = blobBytes b ∧ v = ⟨o + 4, b.length⟩ := by
  have hreads := reads_u4.bind fun len => Reads.take truncated len
  refine hreads.congr fun o bytes v => ⟨?_, ?_⟩
  · rintro ⟨len, _, b, rfl, ⟨hlen, rfl⟩, rfl, rfl⟩
    exact ⟨b, hlen, rfl, by simp⟩
  · rintro ⟨b, hlen, rfl, rfl⟩
    exact ⟨b.length, _, b, rfl, ⟨hlen, rfl⟩, rfl, by simp⟩

theorem reads_skipType (version : Nat) : Reads (skipType version) fun _ bytes _ =>
    ∃ t, t.length < 2 ^ 16 ∧ bytes = if version = 2 then utfBytes t else [] := by
  have hreads := (reads_utf.bind fun _ => Reads.pure (ε := Str) ()).ite (c := version = 2) (Reads.pure ())
  refine hreads.congr fun o bytes u => ?_
  by_cases hversion : version = 2
  · simp only [if_pos hversion]
    constructor
    · rintro ⟨_, _, _, rfl, ⟨t, ht, rfl, _⟩, rfl, _⟩
      exact ⟨t, ht, by simp⟩
    · rintro ⟨t, ht, rfl⟩
      exact ⟨_, utfBytes t, [], by simp, ⟨t, ht, rfl, rfl⟩, rfl, trivial⟩
  · simp only [if_neg hversion]
    exact ⟨fun h => ⟨[], by simp, h.1⟩, fun ⟨_, _, h⟩ => ⟨h, trivial⟩⟩

theorem reads_cert (version : Nat) : Reads (cert version) fun o bytes v =>
    ∃ c : Certificate, c.Fits ∧ bytes = c.bytes version ∧ v = c.view version o := by
  have hlength (t : List UInt8) : (if version = 2 then utfBytes t else []).length =
      if version = 2 then 2 + t.length else 0 := by
    split <;> simp [utfBytes]
  have hreads := (reads_skipType version).bind fun _ => reads_sized
  refine hreads.congr fun o bytes v => ⟨?_, ?_⟩
  · rintro ⟨_, _, _, rfl, ⟨t, ht, rfl⟩, der, hder, rfl, rfl⟩
    exact ⟨⟨t, der⟩, ⟨ht, hder⟩, rfl, by rw [hlength, Certificate.view]⟩
  · rintro ⟨⟨t, der⟩, ⟨ht, hder⟩, rfl, rfl⟩
    exact ⟨(), _, blobBytes der, rfl, ⟨t, ht, rfl⟩, der, hder, rfl, by rw [hlength, Certificate.view]⟩

theorem reads_chain (version chainLen : Nat) : Reads (chain version chainLen) fun o bytes vs =>
    ∃ cs : List Certificate, cs.length = chainLen ∧ (∀ c ∈ cs, c.Fits) ∧
      bytes = cs.flatMap (Certificate.bytes version) ∧
        vs = placed (Certificate.bytes version) (Certificate.view version) o cs :=
  Reads.times (fun _ => reads_cert version) 0 chainLen

theorem reads_keyEntry (version : Nat) (aliasName : Str) (timestampMs : Nat) :
    Reads (keyEntry version aliasName timestampMs) fun o bytes e => ∃ blob cs, (Content.key blob cs).Fits ∧
      bytes = (Content.key blob cs).bytes version ∧
        e = ⟨aliasName, timestampMs, .key, (Content.key blob cs).certs version o⟩ := by
  have hreads := reads_sized.bind fun _ => reads_u4.bind fun chainLen =>
    (Reads.fail (text "chain length " ++ Json.decimal chainLen ++ text " exceeds sanity cap")).ite
      (c := MAX_CHAIN < chainLen) ((reads_chain version chainLen).bind fun certsDer =>
        Reads.pure (ε := Str) (⟨aliasName, timestampMs, .key, certsDer⟩ : JksEntry))
  refine hreads.congr fun o bytes e => ⟨?_, ?_⟩
  · rintro ⟨_, _, _, rfl, ⟨blob, hblob, rfl, _⟩, chainLen, _, _, rfl, ⟨hchain, rfl⟩, h⟩
    split at h
    · cases h
    · obtain ⟨-, -, -, rfl, ⟨cs, rfl, hcs, rfl, rfl⟩, rfl, rfl⟩ := h
      refine ⟨blob, cs, ⟨hblob, Nat.le_of_not_lt ‹_›, hcs⟩, by simp [Content.bytes], ?_⟩
      simp [Content.certs, blobBytes, add_assoc]
  · rintro ⟨blob, cs, ⟨hblob, hchain, hcs⟩, rfl, rfl⟩
    refine ⟨_, blobBytes blob, bytesOf 4 cs.length ++ cs.flatMap (Certificate.bytes version), by simp [Content.bytes],
      ⟨blob, hblob, rfl, rfl⟩, cs.length, bytesOf 4 cs.length, _, rfl, ⟨?_, rfl⟩, ?_⟩
    · exact lt_of_le_of_lt hchain (by decide)
    · rw [if_neg (not_lt.mpr hchain)]
      refine ⟨_, cs.flatMap (Certificate.bytes version), [], by simp, ⟨cs, rfl, hcs, rfl, rfl⟩, rfl, ?_⟩
      simp [Content.certs, blobBytes, add_assoc]

theorem reads_trustedEntry (version : Nat) (aliasName : Str) (timestampMs : Nat) :
    Reads (trustedEntry version aliasName timestampMs) fun o bytes e => ∃ c, (Content.trusted c).Fits ∧
      bytes = (Content.trusted c).bytes version ∧
        e = ⟨aliasName, timestampMs, .trusted, (Content.trusted c).certs version o⟩ := by
  have hreads := (reads_cert version).bind fun der =>
    Reads.pure (ε := Str) (⟨aliasName, timestampMs, .trusted, [der]⟩ : JksEntry)
  refine hreads.congr fun o bytes e => ⟨?_, ?_⟩
  · rintro ⟨_, _, _, rfl, ⟨c, hc, rfl, rfl⟩, rfl, rfl⟩
    exact ⟨c, hc, by simp [Content.bytes], rfl⟩
  · rintro ⟨c, hc, rfl, rfl⟩
    exact ⟨_, c.bytes version, [], by simp [Content.bytes], ⟨c, hc, rfl, rfl⟩, rfl, rfl⟩

theorem reads_entry (magic version i : Nat) : Reads (entry magic version i) fun o bytes e =>
    ∃ x : Entry, x.Fits ∧ bytes = x.bytes version ∧ e = x.parsed version o := by
  have hreads := reads_u4.bind fun tag => reads_utf.bind fun aliasName => reads_u8ms.bind fun timestampMs =>
    (reads_keyEntry version aliasName timestampMs).ite (c := tag = 1)
      ((reads_trustedEntry version aliasName timestampMs).ite (c := tag = 2)
        ((Reads.fail (text "JCEKS secret-key entry not supported")).ite (c := tag = 3 ∧ magic = JCEKS_MAGIC)
          (Reads.fail (text "unknown entry tag " ++ Json.decimal tag ++ text " at entry " ++ Json.decimal i))))
  refine hreads.congr fun o bytes e => ⟨?_, ?_⟩
  · rintro ⟨tag, _, _, rfl, ⟨_, rfl⟩, _, _, _, rfl, ⟨a, ha, rfl, rfl⟩, _, _, _, rfl, ⟨n, hn, rfl, rfl⟩, h⟩
    split at h
    · rename_i htag
      obtain ⟨blob, cs, hfits, rfl, rfl⟩ := h
      refine ⟨⟨a, n, .key blob cs⟩, ⟨ha, hn, hfits⟩, by simp [Entry.bytes, Content.tag, htag], ?_⟩
      simp [Entry.parsed, Content.type, Entry.contentAt, utfBytes]
    · split at h
      · rename_i htag
        obtain ⟨c, hfits, rfl, rfl⟩ := h
        refine ⟨⟨a, n, .trusted c⟩, ⟨ha, hn, hfits⟩, by simp [Entry.bytes, Content.tag, htag], ?_⟩
        simp [Entry.parsed, Content.type, Entry.contentAt, utfBytes]
      · split at h <;> cases h
  · rintro ⟨⟨a, n, content⟩, ⟨ha, hn, hfits⟩, rfl, rfl⟩
    refine ⟨content.tag, bytesOf 4 content.tag, utfBytes a ++ (bytesOf 8 n ++ content.bytes version),
      by simp [Entry.bytes], ⟨?_, rfl⟩, Utf8.decode a, utfBytes a, bytesOf 8 n ++ content.bytes version, rfl,
      ⟨a, ha, rfl, rfl⟩, asNumber n, bytesOf 8 n, content.bytes version, rfl, ⟨n, hn, rfl, rfl⟩, ?_⟩
    · cases content <;> simp [Content.tag]
    · cases content with
      | key blob cs =>
        refine ⟨blob, cs, hfits, rfl, ?_⟩
        simp [Entry.parsed, Content.type, Entry.contentAt, utfBytes, add_assoc]
      | trusted c =>
        refine ⟨c, hfits, rfl, ?_⟩
        simp [Entry.parsed, Content.type, Entry.contentAt, utfBytes, add_assoc]

theorem reads_entries (magic version : Nat) : Reads (entries magic version) fun o bytes es =>
    ∃ xs : List Entry, xs.length ≤ MAX_ENTRIES ∧ (∀ x ∈ xs, x.Fits) ∧
      bytes = bytesOf 4 xs.length ++ xs.flatMap (Entry.bytes version) ∧
        es = placed (Entry.bytes version) (Entry.parsed version) (o + 4) xs := by
  have hreads := reads_u4.bind fun count =>
    (Reads.fail (text "entry count " ++ Json.decimal count ++ text " exceeds sanity cap")).ite
      (c := MAX_ENTRIES < count) (Reads.times (reads_entry magic version) 0 count)
  refine hreads.congr fun o bytes es => ⟨?_, ?_⟩
  · rintro ⟨count, _, _, rfl, ⟨_, rfl⟩, h⟩
    split at h
    · cases h
    · obtain ⟨xs, rfl, hxs, rfl, rfl⟩ := h
      exact ⟨xs, Nat.le_of_not_lt ‹_›, hxs, rfl, by simp⟩
  · rintro ⟨xs, hcount, hxs, rfl, rfl⟩
    refine ⟨xs.length, _, xs.flatMap (Entry.bytes version), rfl, ⟨?_, rfl⟩, ?_⟩
    · exact lt_of_le_of_lt hcount (by decide)
    · rw [if_neg (not_lt.mpr hcount)]
      exact ⟨xs, rfl, hxs, rfl, by simp⟩

/-- A keystore is one of the two kinds, in one of the two versions. -/
def IsKind (magic version : Nat) : Prop := (magic = JKS_MAGIC ∨ magic = JCEKS_MAGIC) ∧ (version = 1 ∨ version = 2)

theorem reads_store : Reads store fun o bytes es => ∃ magic version, ∃ xs : List Entry, IsKind magic version ∧
    xs.length ≤ MAX_ENTRIES ∧ (∀ x ∈ xs, x.Fits) ∧ bytes = storeBytes magic version xs ∧
      es = placed (Entry.bytes version) (Entry.parsed version) (o + 12) xs := by
  have hreads := reads_u4.bind fun magic =>
    (Reads.fail (text "not a JKS file (bad magic)")).ite (c := magic ≠ JKS_MAGIC ∧ magic ≠ JCEKS_MAGIC)
      (reads_u4.bind fun version =>
        (Reads.fail (text "unsupported JKS version " ++ Json.decimal version)).ite (c := version ≠ 1 ∧ version ≠ 2)
          (reads_entries magic version))
  refine hreads.congr fun o bytes es => ⟨?_, ?_⟩
  · rintro ⟨magic, _, _, rfl, ⟨_, rfl⟩, h⟩
    split at h
    · cases h
    · obtain ⟨version, _, _, rfl, ⟨_, rfl⟩, h⟩ := h
      split at h
      · cases h
      · obtain ⟨xs, hcount, hxs, rfl, rfl⟩ := h
        exact ⟨magic, version, xs, ⟨by tauto, by tauto⟩, hcount, hxs, by simp [storeBytes], by simp⟩
  · rintro ⟨magic, version, xs, ⟨hmagic, hversion⟩, hcount, hxs, rfl, rfl⟩
    refine ⟨magic, bytesOf 4 magic, bytesOf 4 version ++ (bytesOf 4 xs.length ++ xs.flatMap (Entry.bytes version)),
      by simp [storeBytes], ⟨?_, rfl⟩, ?_⟩
    · rcases hmagic with rfl | rfl <;> decide
    · rw [if_neg (by tauto)]
      refine ⟨version, bytesOf 4 version, _, rfl, ⟨?_, rfl⟩, ?_⟩
      · rcases hversion with rfl | rfl <;> decide
      · rw [if_neg (by tauto)]
        exact ⟨xs, hcount, hxs, rfl, by simp⟩

/-- What is read is a keystore, with anything after it, and any keystore is read. -/
theorem parseJks_eq_ok_iff {buf : List UInt8} {parsed : List JksEntry} : parseJks buf = .ok parsed ↔
    ∃ magic version xs rest, IsKind magic version ∧ xs.length ≤ MAX_ENTRIES ∧ (∀ x ∈ xs, x.Fits) ∧
      buf = storeBytes magic version xs ++ rest ∧
        parsed = placed (Entry.bytes version) (Entry.parsed version) 12 xs := by
  have hrun : parseJks buf = .ok parsed ↔ ∃ o, store buf 0 = .ok (parsed, o) := by
    rw [parseJks]
    cases store buf 0 with
    | error e => simp
    | ok x =>
      obtain ⟨es, o⟩ := x
      simp
  rw [hrun]
  constructor
  · rintro ⟨o, h⟩
    obtain ⟨pre, _, rest, rfl, hpre, rfl, magic, version, xs, hkind, hcount, hxs, rfl, rfl⟩ :=
      (reads_store buf 0 parsed o (zero_le _)).mp h
    obtain rfl := length_eq_zero_iff.mp hpre
    exact ⟨magic, version, xs, rest, hkind, hcount, hxs, by simp, by simp⟩
  · rintro ⟨magic, version, xs, rest, hkind, hcount, hxs, rfl, rfl⟩
    exact ⟨_, (reads_store _ 0 _ _ (zero_le _)).mpr
      ⟨[], _, rest, by simp, rfl, rfl, magic, version, xs, hkind, hcount, hxs, rfl, by simp⟩⟩

end Readers

/-! ## Certificates and keys -/

section Parts

variable {version : Nat}

theorem length_utfBytes (b : List UInt8) : (utfBytes b).length = 2 + b.length := by simp [utfBytes]

theorem length_blobBytes (b : List UInt8) : (blobBytes b).length = 4 + b.length := by simp [blobBytes]

theorem length_certificate (version : Nat) (c : Certificate) : (c.bytes version).length =
    (if version = 2 then 2 + c.certType.length else 0) + (4 + c.der.length) := by
  rw [Certificate.bytes, length_append, length_blobBytes]
  split <;> simp [length_utfBytes]

theorem within_certificate (version o : Nat) (c : Certificate) :
    Within o (o + (c.bytes version).length) [c.view version o] := by
  refine .singleton ?_ ?_ <;> simp only [View.stop, Certificate.view, length_certificate] <;> omega

theorem placed_view (version o : Nat) (cs : List Certificate) :
    placed (Certificate.bytes version) (Certificate.view version) o cs =
      (placed (Certificate.bytes version) (fun o c => [c.view version o]) o cs).flatten := by
  induction cs generalizing o with
  | nil => rfl
  | cons c cs ih => simp [placed, ih]

/-- The parts of an entry are in the order key, chain. -/
theorem within_content (version o : Nat) (c : Content) :
    Within o (o + (c.bytes version).length) (c.keys o ++ c.certs version o) := by
  cases c with
  | trusted c => exact within_certificate version o c
  | key blob chain =>
    have hchain := Within.placed (within_certificate version) (o + 4 + blob.length + 4) chain
    rw [← placed_view] at hchain
    have hkey : Within o (o + 4 + blob.length) [⟨o + 4, blob.length⟩] := .singleton (le_add_right o 4) (le_refl _)
    have hlength : o + ((Content.key blob chain).bytes version).length =
        o + 4 + blob.length + 4 + (chain.flatMap (Certificate.bytes version)).length := by
      simp only [Content.bytes, length_append, length_blobBytes, length_bytesOf]
      omega
    rw [hlength]
    exact hkey.append hchain (by omega) (by omega) (by omega)

theorem within_entry (version o : Nat) (x : Entry) : Within o (o + (x.bytes version).length)
    (x.content.keys (x.contentAt o) ++ x.content.certs version (x.contentAt o)) := by
  have hcontent := within_content version (x.contentAt o) x.content
  have hstop : x.contentAt o + (x.content.bytes version).length = o + (x.bytes version).length := by
    simp only [Entry.contentAt, Entry.bytes, length_append, length_bytesOf, length_utfBytes]
    omega
  rw [hstop] at hcontent
  refine ⟨hcontent.ascending, fun v hv => ⟨le_trans ?_ (hcontent.bounds v hv).1, (hcontent.bounds v hv).2⟩⟩
  rw [Entry.contentAt]
  omega

theorem flatMap_parsed (version o : Nat) (xs : List Entry) :
    (placed (Entry.bytes version) (Entry.parsed version) o xs).flatMap JksEntry.certsDer =
      (placed (Entry.bytes version) (fun o x => x.content.certs version (x.contentAt o)) o xs).flatten := by
  induction xs generalizing o with
  | nil => rfl
  | cons x xs ih => simp [placed, ih, Entry.parsed]

/-- The certificates of a keystore and its private keys have no byte in common, and are inside of it. -/
theorem disjoint_parts (version : Nat) (xs : List Entry) :
    ((placed (Entry.bytes version) (Entry.parsed version) 12 xs).flatMap JksEntry.certsDer ++
        keyBlobs version xs).Pairwise View.Disjoint ∧
      ∀ v ∈ (placed (Entry.bytes version) (Entry.parsed version) 12 xs).flatMap JksEntry.certsDer ++
        keyBlobs version xs, v.stop ≤ 12 + (xs.flatMap (Entry.bytes version)).length := by
  have hwithin := Within.placed (within_entry version) 12 xs
  have hperm := perm_placed (Entry.bytes version) (fun o x => x.content.keys (x.contentAt o))
    (fun o x => x.content.certs version (x.contentAt o)) 12 xs
  rw [flatMap_parsed, keyBlobs]
  exact ⟨hperm.pairwise hwithin.disjoint fun h => h.symm,
    fun v hv => (hwithin.bounds v (hperm.mem_iff.mpr hv)).2⟩

end Parts

/-! ## Keystores as Java writes them -/

/-- A character as `writeUTF` writes it: a half of a surrogate pair like any other unit, and zero on two bytes. -/
def modifiedUnit (u : UInt16) : List UInt8 := if u = 0 then [0xC0, 0x80] else Utf8.encodeScalar u.toNat

def modifiedUtf8 (s : Str) : List UInt8 := s.flatMap modifiedUnit

structure Stored where
  aliasName : Str
  timestampMs : Nat
  content : Content
  deriving DecidableEq

def Stored.written (e : Stored) : Entry := ⟨modifiedUtf8 e.aliasName, e.timestampMs, e.content⟩

/-- The alias is the same in the two kinds of UTF-8, the time is exact as a double, and the lengths fit. -/
structure Stored.Storable (e : Stored) : Prop where
  aliasName : modifiedUtf8 e.aliasName = Utf8.encode e.aliasName
  room : (modifiedUtf8 e.aliasName).length < 2 ^ 16
  timestampMs : e.timestampMs < 2 ^ 53
  content : e.content.Fits

def Content.ders : Content → List (List UInt8)
  | .key _ chain => chain.map Certificate.der
  | .trusted c => [c.der]

/-- What there is to read in an entry. -/
structure Read where
  aliasName : Str
  timestampMs : Nat
  type : JksEntryType
  certsDer : List (List UInt8)
  deriving DecidableEq

def Stored.read (e : Stored) : Read := ⟨e.aliasName, e.timestampMs, e.content.type, e.content.ders⟩

/-- An entry that was parsed, with the bytes of the parts that it has of the buffer. -/
def JksEntry.read (e : JksEntry) (buf : List UInt8) : Read :=
  ⟨e.aliasName, e.timestampMs, e.type, e.certsDer.map (·.bytes buf)⟩

section Inverse

theorem head_encodeScalar {c : Nat} (h : 0x800 ≤ c) (hc : c < 0x10000) :
    (Utf8.encodeScalar c).head? = some (UInt8.ofNat (0xE0 + c / 0x1000)) := by
  rw [Utf8.encodeScalar, if_neg (by omega), if_neg (by omega), if_pos hc]
  rfl

theorem pairScalar_range {h l : UInt16} (hhigh : 0xD800 ≤ h.toNat ∧ h.toNat ≤ 0xDBFF)
    (hlow : 0xDC00 ≤ l.toNat ∧ l.toNat ≤ 0xDFFF) :
    0x10000 ≤ Utf8.pairScalar h l ∧ Utf8.pairScalar h l < 0x110000 := by
  unfold Utf8.pairScalar
  constructor <;> omega

/-- Half of a pair is not written as UTF-8 writes it, in a pair or alone. -/
theorem modifiedUtf8_ne_of_surrogate {u : UInt16} (hu : (isHigh u || isLow u) = true) (s : Str) :
    modifiedUtf8 (u :: s) ≠ Utf8.encode (u :: s) := by
  have hrange : 0xD800 ≤ u.toNat ∧ u.toNat ≤ 0xDFFF := by
    rw [Bool.or_eq_true, Utf8.isHigh_iff, Utf8.isLow_iff] at hu
    omega
  have hne : u ≠ 0 := by
    rintro rfl
    exact absurd hrange.1 (by decide)
  have hmodified : (modifiedUtf8 (u :: s)).head? = some 0xED := by
    have hhead := head_encodeScalar (c := u.toNat) (by omega) (by omega)
    rw [show u.toNat / 0x1000 = 0xD by omega] at hhead
    rw [modifiedUtf8, flatMap_cons, modifiedUnit, if_neg hne, head?_append, hhead]
    rfl
  have hlone : (Utf8.encodeScalar (Utf8.unitScalar u)).head? = some 0xEF := by
    rw [Utf8.unitScalar, if_pos hu]
    rfl
  have hencode : (Utf8.encode (u :: s)).head? ≠ some 0xED := by
    cases s with
    | nil =>
      rw [Utf8.encode, hlone]
      decide
    | cons v s =>
      rw [Utf8.encode]
      split
      · -- a pair has a first byte from F0 on
        rename_i hpair
        have hpair := Bool.and_eq_true _ _ ▸ hpair
        have hhigh := Utf8.isHigh_iff.mp hpair.1
        have hlow := Utf8.isLow_iff.mp hpair.2
        have hscalar := pairScalar_range hhigh hlow
        rw [Utf8.encodeScalar, if_neg (by omega), if_neg (by omega), if_neg (by omega)]
        intro heq
        have hbyte : (UInt8.ofNat (0xF0 + Utf8.pairScalar u v / 0x40000)).toNat = 0xED :=
          congrArg UInt8.toNat (Option.some.inj heq)
        rw [UInt8.toNat_ofNat'] at hbyte
        omega
      · rw [head?_append, hlone]
        exact fun heq => absurd (Option.some.inj heq) (by decide)
  exact fun heq => hencode (heq ▸ hmodified)

/-- A text that both kinds of UTF-8 write the same is read back. -/
theorem decode_modifiedUtf8 {s : Str} (h : modifiedUtf8 s = Utf8.encode s) : Utf8.decode (modifiedUtf8 s) = s := by
  have hwellFormed : WellFormed s := by
    induction s with
    | nil => exact .nil
    | cons u s ih =>
      cases hsur : isHigh u || isLow u with
      | true => exact absurd h (modifiedUtf8_ne_of_surrogate hsur s)
      | false =>
        obtain ⟨hhigh, hlow⟩ := Bool.or_eq_false_iff.mp hsur
        rw [modifiedUtf8, flatMap_cons, Utf8.encode_cons hhigh, Utf8.unitScalar_of_not_surrogate hhigh hlow,
          modifiedUnit] at h
        split at h
        · rename_i hzero
          rw [hzero] at h
          cases head_eq_of_cons_eq h
        · exact .unit hhigh hlow (ih (append_cancel_left h))
  rw [h, Utf8.decode_encode hwellFormed]

/-- The part that a certificate is has the bytes of the certificate. -/
theorem bytes_view (version : Nat) (c : Certificate) (pre post : List UInt8) :
    (c.view version pre.length).bytes (pre ++ c.bytes version ++ post) = c.der := by
  have hlength (t : List UInt8) : (if version = 2 then utfBytes t else []).length =
      if version = 2 then 2 + t.length else 0 := by
    split <;> simp [utfBytes]
  have hstart : pre ++ c.bytes version ++ post =
      (pre ++ (if version = 2 then utfBytes c.certType else []) ++ bytesOf 4 c.der.length) ++ (c.der ++ post) := by
    simp [Certificate.bytes, blobBytes]
  rw [View.bytes, hstart, Certificate.view, drop_left' (by simp [hlength, add_assoc]), take_left]

theorem bytes_certs (version : Nat) (c : Content) (pre post : List UInt8) :
    (c.certs version pre.length).map (·.bytes (pre ++ c.bytes version ++ post)) = c.ders := by
  cases c with
  | trusted c => simpa [Content.certs, Content.bytes, Content.ders] using bytes_view version c pre post
  | key blob chain =>
    have hview : ∀ c ∈ chain, ∀ pre post, (c.view version pre.length).bytes (pre ++ c.bytes version ++ post) = c.der :=
      fun c _ => bytes_view version c
    have hchain := map_placed (Certificate.bytes version) (Certificate.view version) View.bytes Certificate.der hview
      (pre ++ blobBytes blob ++ bytesOf 4 chain.length) post
    have hlength : (pre ++ blobBytes blob ++ bytesOf 4 chain.length).length = pre.length + 4 + blob.length + 4 := by
      simp only [length_append, length_blobBytes, length_bytesOf]
      omega
    rw [hlength] at hchain
    simpa [Content.certs, Content.bytes, Content.ders] using hchain

theorem asNumber_of_lt {n : Nat} (h : n < 2 ^ 53) : asNumber n = n := by
  have hround := Doubles.round_of_lt h
  unfold asNumber
  exact (congrArg (Option.getD · n) hround).trans rfl

theorem read_parsed (version : Nat) {e : Stored} (he : e.Storable) (pre post : List UInt8) :
    (e.written.parsed version pre.length).read (pre ++ e.written.bytes version ++ post) = e.read := by
  have halias : Utf8.decode e.written.aliasName = e.aliasName := decode_modifiedUtf8 he.aliasName
  have htime := asNumber_of_lt he.timestampMs
  have hcontent : e.written.bytes version = (bytesOf 4 e.content.tag ++ utfBytes e.written.aliasName ++
      bytesOf 8 e.timestampMs) ++ e.content.bytes version := rfl
  have hcerts := bytes_certs version e.content (pre ++ (bytesOf 4 e.content.tag ++ utfBytes e.written.aliasName ++
    bytesOf 8 e.timestampMs)) post
  have hat : (pre ++ (bytesOf 4 e.content.tag ++ utfBytes e.written.aliasName ++ bytesOf 8 e.timestampMs)).length =
      e.written.contentAt pre.length := by
    simp only [length_append, length_bytesOf, length_utfBytes, Entry.contentAt]
    omega
  rw [hat, append_assoc pre, ← hcontent] at hcerts
  rw [JksEntry.read, Entry.parsed, Stored.read, halias]
  exact congr (congr (congr rfl htime) rfl) hcerts

theorem Stored.Storable.fits {e : Stored} (he : e.Storable) : e.written.Fits :=
  ⟨he.room, he.timestampMs.trans (by decide), he.content⟩

end Inverse

/-- A keystore is read as it was written, whatever comes after its entries; and what is read from any buffer is a
keystore, whose certificates are parts of the buffer that have no byte in common with each other or with a private
key. -/
theorem parseJks_inverts {magic version : Nat} (hkind : IsKind magic version) {es : List Stored}
    (hcount : es.length ≤ MAX_ENTRIES) (hes : ∀ e ∈ es, e.Storable) (rest : List UInt8) :
    (∃ parsed, parseJks (storeBytes magic version (es.map Stored.written) ++ rest) = .ok parsed ∧
        parsed.map (·.read (storeBytes magic version (es.map Stored.written) ++ rest)) = es.map Stored.read) ∧
      ∀ buf parsed, parseJks buf = .ok parsed → ∃ magic version xs rest, IsKind magic version ∧
        buf = storeBytes magic version xs ++ rest ∧
          parsed = placed (Entry.bytes version) (Entry.parsed version) 12 xs ∧
            (parsed.flatMap JksEntry.certsDer ++ keyBlobs version xs).Pairwise View.Disjoint ∧
              ∀ v ∈ parsed.flatMap JksEntry.certsDer ++ keyBlobs version xs, v.stop ≤ buf.length := by
  constructor
  · refine ⟨_, parseJks_eq_ok_iff.mpr ⟨magic, version, es.map Stored.written, rest, hkind, ?_, ?_, rfl, rfl⟩, ?_⟩
    · rwa [length_map]
    · intro x hx
      obtain ⟨e, he, rfl⟩ := mem_map.mp hx
      exact (hes e he).fits
    · have hread : ∀ e ∈ es, ∀ pre post,
          (e.written.parsed version pre.length).read (pre ++ e.written.bytes version ++ post) = e.read :=
        fun e he => read_parsed version (hes e he)
      have hmap := map_placed (fun e : Stored => e.written.bytes version)
        (fun o (e : Stored) => e.written.parsed version o) JksEntry.read Stored.read hread
        (bytesOf 4 magic ++ bytesOf 4 version ++ bytesOf 4 (es.map Stored.written).length) rest
      have hbytes : es.flatMap (fun e : Stored => e.written.bytes version) =
          (es.map Stored.written).flatMap (Entry.bytes version) := (flatMap_map ..).symm
      rw [hbytes] at hmap
      rw [placed_map]
      exact hmap
  · intro buf parsed h
    obtain ⟨magic, version, xs, rest, hkind, -, -, rfl, rfl⟩ := parseJks_eq_ok_iff.mp h
    obtain ⟨hdisjoint, hinside⟩ := disjoint_parts version xs
    refine ⟨magic, version, xs, rest, hkind, rfl, rfl, hdisjoint, fun v hv => (hinside v hv).trans ?_⟩
    simp only [storeBytes, length_append, length_bytesOf]
    omega

/-- A key with a chain of two certificates, and a trusted certificate. -/
def sampleStored : List Stored :=
  [⟨[0x63, 0x6C, 0xE9], 1700000000000, .key [1, 2, 3] [⟨[0x58], [0x30, 0]⟩, ⟨[], []⟩]⟩,
    ⟨text "root", 5, .trusted ⟨[0x58], [0x30, 1, 0]⟩⟩]

theorem parseJks_inverts_sample :
    ∃ parsed, parseJks (storeBytes JCEKS_MAGIC 2 (sampleStored.map Stored.written) ++ [0xAA]) = .ok parsed ∧
      parsed.map (·.read (storeBytes JCEKS_MAGIC 2 (sampleStored.map Stored.written) ++ [0xAA])) =
        sampleStored.map Stored.read := by
  have hstorable : ∀ e ∈ sampleStored, e.Storable := by
    intro e he
    rcases mem_cons.mp he with rfl | he
    · exact ⟨by decide, by decide, by decide, by decide, by decide,
        by simpa using ⟨⟨by decide, by decide⟩, ⟨by decide, by decide⟩⟩⟩
    · rw [mem_singleton.mp he]
      exact ⟨by decide, by decide, by decide, ⟨by decide, by decide⟩⟩
  exact (parseJks_inverts ⟨.inr rfl, .inr rfl⟩ (by decide) hstorable [0xAA]).1

end Cdp.Jks
