-- SUMMARY: How much a PKCS#12 file makes the reader hash, and the files for which that is bounded.
import Tracenium.Cdp.Pkcs12

/-!
The sizes of keys and initialization vectors are fixed, but the MAC key is as long as the digest that the file gives.
-/

open Utf16 Logged Nat Except List

namespace Cdp.Pkcs12

open Within Event

/-! ## Digests -/

/-- The digests that the loop of `pkcs12Kdf` takes from `written` on. -/
def digestsFrom (h : HashName) (iter size written : Nat) : Nat :=
  if written < size then
    have _pos : 0 < h.digestLength := by cases h <;> decide
    if size ≤ written + h.digestLength then iter - 1 + 1
    else iter - 1 + 1 + digestsFrom h iter size (written + h.digestLength)
  else 0
termination_by size - written

theorem digestsFrom_eq {h : HashName} {iter : Nat} (hiter : 1 ≤ iter) (size written : Nat) :
    digestsFrom h iter size written = iter * ceilDiv (size - written) h.digestLength := by
  have hpos : 0 < h.digestLength := by cases h <;> decide
  fun_induction digestsFrom h iter size written with
  | case1 written hlt _ hlast =>
    have hone : ceilDiv (size - written) h.digestLength = 1 := by
      exact Nat.div_eq_of_lt_le (by omega) (by omega)
    rw [hone]
    omega
  | case2 written hlt _ hmore ih =>
    have hsucc : ceilDiv (size - written) h.digestLength =
        ceilDiv (size - (written + h.digestLength)) h.digestLength + 1 := by
      rw [ceilDiv, ceilDiv, ← add_div_right _ hpos]
      congr 1
      omega
    rw [ih, hsucc, mul_succ]
    omega
  | case3 written hle =>
    have hzero : ceilDiv (size - written) h.digestLength = 0 := by
      rw [ceilDiv]
      exact div_eq_of_lt (by omega)
    rw [hzero, mul_zero]

/-- The digests of an event: one for `u` and those of the loop, and two for an HMAC with a key of at most a block. -/
def Event.digests : Event → Nat
  | .kdf hash iter size => 1 + digestsFrom hash iter size 0
  | .pbkdf2 prf iter keyLen => 2 * (iter * ceilDiv keyLen prf.digestLength)
  | .hmac hash keyLen => if hash.v < keyLen then 3 else 2
  | _ => 0

def Event.derivations : Event → Nat
  | .kdf _ _ _ | .pbkdf2 _ _ _ => 1
  | _ => 0

/-! ## Bounds -/

def MAX_KEY : Nat := 24

/-- A derivation of at most a digest, or of a key or an initialization vector. -/
def Event.Fits : Event → Prop
  | .kdf hash iter size =>
    (1 ≤ iter ∧ iter ≤ MAX_ITERATIONS) ∧ (size ≤ hash.digestLength ∨ size ≤ MAX_KEY)
  | _ => True

/-- The contents that `readAuthSafe` lists. -/
def infosIn (authSafe : List UInt8) : Nat :=
  match tlvAt authSafe 0 "AuthenticatedSafe" with
  | .error _ => 0
  | .ok seq => (children authSafe seq).length

def contentInfos (buf : List UInt8) : Nat :=
  match (openPfx buf).result with
  | .error _ => 0
  | .ok (authSafe, _) => infosIn authSafe + 1

/-- Each derivation is small, and there are few of them. -/
structure BoundedWork (c : Crypto) (buf : List UInt8) : Prop where
  fits : All Fits (readPkcs12Certificates c buf)
  derivations : cost derivations (readPkcs12Certificates c buf) ≤ 4 * contentInfos buf
  digests : cost digests (readPkcs12Certificates c buf) ≤ 12 * MAX_ITERATIONS * contentInfos buf

/-- The digest of the MAC is not longer than one of its algorithm, or than a key. -/
def MacFits (buf : List UInt8) : Prop :=
  ∀ authSafe mac r, (openPfx buf).result = .ok (authSafe, some mac) → macRequest buf mac = .ok (some r) →
    r.expected.length ≤ r.hash.digestLength ∨ r.expected.length ≤ MAX_KEY

/-! ## Content -/

/-- A listing or a key bag. -/
def Event.Quiet : Event → Prop
  | .listed _ _ | .keyBag _ => True
  | _ => False

theorem Event.Quiet.fits {e : Event} (h : e.Quiet) : e.Fits := by
  cases e <;> trivial

theorem Event.Quiet.derivations_eq {e : Event} (h : e.Quiet) : e.derivations = 0 := by
  cases e <;> first | rfl | exact h.elim

theorem Event.Quiet.digests_eq {e : Event} (h : e.Quiet) : e.digests = 0 := by
  cases e <;> first | rfl | exact h.elim

theorem quiet_listed (buf : List UInt8) (parent : Tlv) : All Quiet (listed buf parent) :=
  (all_emit.mpr trivial).bind fun _ _ => all_pure _

theorem quiet_octets (buf : List UInt8) (t : Tlv) (what : String) (primitiveTag : UInt8) :
    All Quiet (octets buf t what primitiveTag) := by
  unfold octets
  split_ifs
  · simp
  · exact (quiet_listed buf t).bind fun parts _ => (all_ofExcept _).bind fun _ _ => all_pure _
  · simp

theorem quiet_keyIdAmong (buf : List UInt8) (attrs : List Tlv) : All Quiet (keyIdAmong buf attrs) := by
  induction attrs with
  | nil => exact all_pure _
  | cons attr attrs ih =>
    unfold keyIdAmong
    split_ifs
    · exact ih
    · refine (quiet_listed buf attr).bind fun parts _ => ?_
      split
      · split_ifs
        · exact ih
        · refine (quiet_listed buf _).bind fun vs _ => ?_
          split
          · split_ifs
            · exact all_pure _
            · exact ih
          · exact ih
      · exact ih

theorem quiet_localKeyId (buf : List UInt8) (attrs : Option Tlv) : All Quiet (localKeyId buf attrs) := by
  unfold localKeyId
  split
  · exact all_pure _
  · split_ifs
    · exact all_pure _
    · exact (quiet_listed buf _).bind fun parts _ => quiet_keyIdAmong buf parts

theorem quiet_addKey (out : Collected) (id : Option (List UInt8)) : All Quiet (out.addKey id) := by
  cases id with
  | none => exact all_pure _
  | some id => exact (all_emit.mpr trivial).bind fun _ _ => all_pure _

theorem quiet_readCertBag (buf : List UInt8) (out : Collected) (valueWrap attrs : Option Tlv) :
    All Quiet (readCertBag buf out valueWrap attrs) := by
  refine (all_ofExcept _).bind fun wrap _ => (quiet_listed buf wrap).bind fun bags _ => ?_
  refine (all_ofExcept _).bind fun certBag _ => (quiet_listed buf certBag).bind fun parts _ => ?_
  split
  · exact all_pure _
  · refine (all_ofExcept _).bind fun value _ => (quiet_listed buf value).bind fun inner _ => ?_
    split
    · exact all_fail _
    · split
      · exact all_fail _
      · refine (quiet_octets buf _ _ _).bind fun der _ => ?_
        exact (quiet_localKeyId buf attrs).bind fun _ _ => all_pure _

theorem quiet_readBag {nested : List UInt8 → Collected → Reading Collected}
    (h : ∀ buf out, All Quiet (nested buf out)) (buf : List UInt8) (out : Collected) (bag : Tlv) :
    All Quiet (readBag nested buf out bag) := by
  unfold readBag
  split
  · exact all_pure _
  · refine (quiet_listed buf bag).bind fun parts _ => ?_
    simp only
    split_ifs
    · exact (quiet_localKeyId buf _).bind fun id _ => quiet_addKey out id
    · exact quiet_readCertBag buf out _ _
    · refine (all_ofExcept _).bind fun wrap _ => (quiet_listed buf wrap).bind fun inner _ => ?_
      split
      · exact all_pure _
      · exact h _ out
    · exact all_pure _

theorem quiet_readSafeContents (levels : Nat) (buf : List UInt8) (out : Collected) :
    All Quiet (readSafeContents levels buf out) := by
  induction levels generalizing buf out with
  | zero => exact all_fail _
  | succ levels ih =>
    refine (all_ofExcept _).bind fun seq _ => (all_ofExcept _).bind fun seq _ => ?_
    refine (quiet_listed buf seq).bind fun bags _ => ?_
    exact All.foldlM (fun out bag _ => quiet_readBag ih buf out bag) out

theorem quiet_openPfx (buf : List UInt8) : All Quiet (openPfx buf) := by
  refine (all_ofExcept _).bind fun pfx _ => (all_ofExcept _).bind fun seq _ => ?_
  refine (quiet_listed buf seq).bind fun parts _ => (all_ofExcept _).bind fun version _ => ?_
  split
  · exact all_fail _
  · refine (all_ofExcept _).bind fun info _ => (quiet_listed buf info).bind fun ci _ => ?_
    simp only
    split_ifs
    · exact all_fail _
    · exact all_fail _
    · refine (all_ofExcept _).bind fun wrap _ => (quiet_listed buf wrap).bind fun inner _ => ?_
      split
      · exact all_fail _
      · exact (quiet_octets buf _ _ _).bind fun _ _ => all_pure _

/-! ## Derivations -/

theorem ceilDiv_le_two {n : Nat} {h : HashName} (hn : n ≤ 2 * h.digestLength) : ceilDiv n h.digestLength ≤ 2 := by
  have hpos : 0 < h.digestLength := by cases h <;> decide
  exact Nat.le_of_lt_succ (Nat.div_lt_of_lt_mul (by omega))

theorem ok_bind {α β : Type} {x : Except Str α} {f : α → Except Str β} {b : β} (h : x >>= f = .ok b) :
    ∃ a, x = .ok a ∧ f a = .ok b := by
  cases x with
  | error e => cases h
  | ok a => exact ⟨a, rfl, h⟩

theorem iterations_le {buf : List UInt8} {t : Option Tlv} {what : String} {n : Nat}
    (h : iterations buf t what = .ok n) : 1 ≤ n ∧ n ≤ MAX_ITERATIONS := by
  obtain ⟨m, _, h⟩ := ok_bind h
  split_ifs at h with hrange
  obtain rfl := ok.inj h
  omega

theorem iter_macRequest {buf : List UInt8} {mac : Tlv} {r : MacRequest} (h : macRequest buf mac = .ok (some r)) :
    1 ≤ r.iter ∧ r.iter ≤ MAX_ITERATIONS := by
  obtain ⟨_, _, h⟩ := ok_bind h
  obtain ⟨_, _, h⟩ := ok_bind h
  obtain ⟨alg, _, h⟩ := ok_bind h
  simp only at h
  split at h
  · cases ok.inj h
  · obtain ⟨_, _, h⟩ := ok_bind h
    obtain ⟨_, _, h⟩ := ok_bind h
    obtain ⟨iter, hiter, h⟩ := ok_bind h
    obtain rfl := Option.some.inj (ok.inj h)
    unfold macIterations at hiter
    split_ifs at hiter
    · exact iterations_le hiter
    · obtain rfl := ok.inj hiter
      exact ⟨le_refl 1, (by decide : 1 ≤ MAX_ITERATIONS)⟩

/-- What the events of a reading cost: `b` for a derivation that fits, and `d` for an HMAC. -/
structure Weighs (w : Event → Nat) (b d : Nat) : Prop where
  quiet : ∀ e, e.Quiet → w e = 0
  kdf : ∀ h iter size, (kdf h iter size).Fits → w (.kdf h iter size) ≤ b
  pbkdf2 : ∀ h iter keyLen, iter ≤ MAX_ITERATIONS → keyLen ≤ 32 → w (.pbkdf2 h iter keyLen) ≤ 2 * b
  hmac : ∀ h keyLen, w (.hmac h keyLen) ≤ d

theorem weighs_derivations : Weighs derivations 1 0 where
  quiet _ h := h.derivations_eq
  kdf _ _ _ _ := le_refl 1
  pbkdf2 _ _ _ _ _ := by
    rw [derivations]
    omega
  hmac _ _ := le_refl 0

theorem weighs_digests : Weighs digests (2 * MAX_ITERATIONS + 1) 3 where
  quiet _ h := h.digests_eq
  kdf h iter size hfits := by
    have hlength : 20 ≤ h.digestLength := by cases h <;> decide
    have hblocks : ceilDiv (size - 0) h.digestLength ≤ 2 := by
      have hsize := hfits.2
      rw [MAX_KEY] at hsize
      exact ceilDiv_le_two (by omega)
    have hmul := mul_le_mul hfits.1.2 hblocks
    rw [digests, digestsFrom_eq hfits.1.1]
    omega
  pbkdf2 h iter keyLen hiter hkey := by
    have hlength : 20 ≤ h.digestLength := by cases h <;> decide
    have hmul := mul_le_mul hiter (ceilDiv_le_two (n := keyLen) (h := h) (by omega))
    rw [digests]
    omega
  hmac h keyLen := by
    rw [digests]
    split <;> omega

/-! ## Readings -/

section Readings

variable {w : Event → Nat} {b d : Nat}

/-- The events of a reading fit, and cost at most so much. -/
abbrev Work {α : Type} (w : Event → Nat) (n : Nat) (m : Reading α) : Prop := Within Fits w n m

theorem Weighs.work (hw : Weighs w b d) {α : Type} {m : Reading α} (h : All Quiet m) : Work w 0 m :=
  ⟨h.mono fun _ he => he.fits, le_of_eq (cost_eq_zero (h.mono hw.quiet))⟩

theorem work_decryptPbe (hw : Weighs w b d) (c : Crypto) (buf : List UInt8) (params : Option Tlv)
    {scheme : CipherName × Nat × Nat} (hscheme : scheme.2.1 ≤ MAX_KEY) (data : List UInt8) (password : Option Str) :
    Work w (2 * b) (decryptPbe c buf params scheme data password) := by
  refine free (ofExcept _) fun _ _ => free (ofExcept _) fun _ _ => ?_
  refine free (ofExcept _) fun iter hiter => ?_
  have hrange : 1 ≤ iter ∧ iter ≤ MAX_ITERATIONS := iterations_le hiter
  have hkey : (kdf .sha1 iter scheme.2.1).Fits := ⟨hrange, .inr hscheme⟩
  have hiv : (kdf .sha1 iter 8).Fits := ⟨hrange, .inr (by decide)⟩
  have hsum : 2 * b = b + (b + 0) := by omega
  rw [hsum]
  refine emit hkey (hw.kdf _ _ _ hkey) (emit hiv (hw.kdf _ _ _ hiv) ?_)
  split_ifs
  · exact ofExcept _
  · exact ofExcept _

theorem work_decryptPbes2 (hw : Weighs w b d) (c : Crypto) (buf : List UInt8) (params : Option Tlv)
    (data : List UInt8) (password : Option Str) : Work w (2 * b) (decryptPbes2 c buf params data password) := by
  refine free (ofExcept _) fun _ _ => free (ofExcept _) fun _ _ => ?_
  simp only
  split
  · exact fail _
  · refine free (ofExcept _) fun _ _ => free (ofExcept _) fun _ _ => ?_
    refine free (ofExcept _) fun iter hiter => free (ofExcept _) fun prf _ => ?_
    have hrange : 1 ≤ iter ∧ iter ≤ MAX_ITERATIONS := iterations_le hiter
    refine free (ofExcept _) fun _ _ => ?_
    split
    · exact fail _
    · rename_i cipher keyLen hlookup
      have hkey : keyLen ≤ 32 := by
        obtain ⟨oid, _, hcipher⟩ := Option.bind_eq_some_iff.mp hlookup
        obtain ⟨l, l', hsplit, _⟩ := lookup_eq_some_iff.mp hcipher
        have hall : ∀ p ∈ PBES2_CIPHERS, p.2.2 ≤ 32 := by decide
        exact hall (oid, cipher, keyLen) (by simp [hsplit])
      refine free (ofExcept _) fun _ _ => ?_
      exact emit (k := 0) trivial (hw.pbkdf2 prf iter keyLen hrange.2 hkey) (ofExcept _)

theorem work_decrypt (hw : Weighs w b d) (c : Crypto) (buf : List UInt8) (algId : Option Tlv) (data : List UInt8)
    (password : Option Str) : Work w (2 * b) (decrypt c buf algId data password) := by
  refine free (ofExcept _) fun _ _ => ?_
  simp only
  split
  · rename_i scheme hlookup
    have hkey : scheme.2.1 ≤ MAX_KEY := by
      obtain ⟨oid, _, hscheme⟩ := Option.bind_eq_some_iff.mp hlookup
      obtain ⟨l, l', hsplit, _⟩ := lookup_eq_some_iff.mp hscheme
      have hall : ∀ p ∈ PKCS12_PBE, p.2.2.1 ≤ MAX_KEY := by decide
      exact hall (oid, scheme) (by simp [hsplit])
    exact work_decryptPbe hw c buf _ hkey data password
  · split
    · exact work_decryptPbes2 hw c buf _ data password
    · exact fail _

theorem work_readContentInfo (hw : Weighs w b d) (c : Crypto) (authSafe : List UInt8) (password : Option Str)
    (out : Collected) (ci : Tlv) : Work w (2 * b) (readContentInfo c authSafe password out ci) := by
  have hlisted (t : Tlv) := hw.work (quiet_listed authSafe t)
  have hcontents (buf : List UInt8) : Work w (2 * b) (readSafeContents (MAX_DEPTH + 1) buf out) :=
    (hw.work (quiet_readSafeContents _ buf out)).mono (zero_le _)
  refine free (ofExcept _) fun seq _ => free (hlisted seq) fun parts _ => ?_
  refine free (ofExcept _) fun wrap _ => free (hlisted wrap) fun inner _ => ?_
  cases inner[0]? with
  | none => exact pure out
  | some inner =>
    split_ifs
    · exact free (hw.work (quiet_octets authSafe inner _ _)) fun buf _ => hcontents buf
    · refine free (ofExcept _) fun data _ => free (hlisted data) fun ed _ => ?_
      refine free (ofExcept _) fun info _ => free (hlisted info) fun eci _ => ?_
      cases eci[2]? with
      | none => exact pure out
      | some encrypted =>
        refine free (hw.work (quiet_octets authSafe encrypted _ _)) fun ciphertext _ => ?_
        have hdecrypt := work_decrypt hw c authSafe eci[1]? ciphertext password
        exact hdecrypt.bind (k := 0) fun buf _ => hw.work (quiet_readSafeContents _ buf out)
    · exact fail _
    · exact fail _

theorem work_readAuthSafe (hw : Weighs w b d) (c : Crypto) (authSafe : List UInt8) (password : Option Str) :
    Work w (infosIn authSafe * (2 * b)) (readAuthSafe c authSafe password) := by
  refine free (ofExcept _) fun top htop => ?_
  refine free (ofExcept _) fun seq hseq => ?_
  refine free (hw.work (quiet_listed authSafe seq)) fun infos hinfos => ?_
  have hlength : infosIn authSafe = infos.length := by
    have htop' : tlvAt authSafe 0 "AuthenticatedSafe" = .ok top := htop
    have hseq' : top = seq := by
      have hexpect : expectTag (some top) TAG_SEQUENCE "AuthenticatedSafe" = .ok seq := hseq
      unfold expectTag at hexpect
      simp only at hexpect
      split_ifs at hexpect
      exact ok.inj hexpect
    have hinfos' : children authSafe seq = infos := ok.inj hinfos
    rw [infosIn, htop', hseq', ← hinfos']
  rw [hlength]
  exact foldlM (fun out ci _ => work_readContentInfo hw c authSafe password out ci) _

theorem work_readWith (hw : Weighs w b d) (c : Crypto) (authSafe : List UInt8) (hasMac : Bool)
    (lastError : Option Str) (passwords : List (Option Str)) :
    Work w (passwords.length * (infosIn authSafe * (2 * b))) (readWith c authSafe hasMac lastError passwords) := by
  induction passwords generalizing lastError with
  | nil =>
    unfold readWith
    split_ifs
    · exact fail _
    · exact fail _
  | cons password passwords ih =>
    rw [length_cons, succ_mul, add_comm]
    refine orElse ?_ fun e _ => ih (some e)
    exact (work_readAuthSafe hw c authSafe password).bind (k := 0) fun out _ => pure _

theorem work_macMatches (hw : Weighs w b d) (c : Crypto) {buf : List UInt8} {mac : Tlv}
    (hfits : ∀ r, macRequest buf mac = .ok (some r) →
      r.expected.length ≤ r.hash.digestLength ∨ r.expected.length ≤ MAX_KEY)
    (authSafe : List UInt8) (password : Option Str) : Work w (b + d) (macMatches c buf mac authSafe password) := by
  refine free (ofExcept _) fun request hrequest => ?_
  cases request with
  | none => exact pure none
  | some r =>
    have hkdf : (kdf r.hash r.iter r.expected.length).Fits := ⟨iter_macRequest hrequest, hfits r hrequest⟩
    exact emit hkdf (hw.kdf _ _ _ hkdf) (emit (k := 0) trivial (hw.hmac _ _) (pure _))

theorem length_matching (c : Crypto) (buf : List UInt8) (mac : Tlv) (authSafe : List UInt8)
    {passwords rest : List (Option Str)} (h : (matching c buf mac authSafe passwords).result = .ok rest) :
    rest.length ≤ passwords.length := by
  induction passwords generalizing rest with
  | nil =>
    obtain rfl := ok.inj h
    exact le_refl 0
  | cons password passwords ih =>
    obtain ⟨m, _, h⟩ := ok_of_bind h
    obtain ⟨rest', hrest, h⟩ := ok_of_bind h
    have hle := ih hrest
    obtain rfl := ok.inj h
    split_ifs
    · exact le_succ_of_le hle
    · exact succ_le_succ hle

theorem work_matching (hw : Weighs w b d) (c : Crypto) {buf : List UInt8} {mac : Tlv}
    (hfits : ∀ r, macRequest buf mac = .ok (some r) →
      r.expected.length ≤ r.hash.digestLength ∨ r.expected.length ≤ MAX_KEY)
    (authSafe : List UInt8) (passwords : List (Option Str)) :
    Work w (passwords.length * (b + d)) (matching c buf mac authSafe passwords) := by
  induction passwords with
  | nil => exact pure []
  | cons password passwords ih =>
    rw [length_cons, succ_mul, add_comm]
    refine (work_macMatches hw c hfits authSafe password).bind fun m _ => ?_
    exact ih.bind (k := 0) fun rest _ => pure _

/-- All of it, for a file whose MAC fits. -/
theorem work_readPkcs12Certificates (hw : Weighs w b d) (c : Crypto) {buf : List UInt8} (hfits : MacFits buf) :
    Work w ((4 * b + 2 * d) * contentInfos buf) (readPkcs12Certificates c buf) := by
  refine free (hw.work (quiet_openPfx buf)) fun opened hopened => ?_
  obtain ⟨authSafe, macData⟩ := opened
  have hinfos : contentInfos buf = infosIn authSafe + 1 := by rw [contentInfos, hopened]
  have hsum : 2 * (b + d) + 2 * (infosIn authSafe * (2 * b)) ≤ (4 * b + 2 * d) * (infosIn authSafe + 1) := by
    have hmul := zero_le (2 * d * infosIn authSafe)
    linarith
  rw [hinfos]
  cases macData with
  | none =>
    have hlength : candidates.length = 2 := rfl
    refine (work_readWith hw c authSafe false none candidates).mono ?_
    rw [hlength]
    linarith
  | some mac =>
    have hmac := fun r => hfits authSafe mac r hopened
    refine mono ?_ hsum
    refine (work_matching hw c hmac authSafe candidates).bind fun passwords hpasswords => ?_
    split_ifs
    · exact fail _
    · have hlength : passwords.length ≤ 2 := length_matching c buf mac authSafe hpasswords
      exact (work_readWith hw c authSafe true none passwords).mono (mul_le_mul_right _ hlength)

end Readings

/-! ## Files -/

theorem boundedWork_of_macFits (c : Crypto) {buf : List UInt8} (h : MacFits buf) : BoundedWork c buf where
  fits := (work_readPkcs12Certificates weighs_derivations c h).all
  derivations := by simpa using (work_readPkcs12Certificates weighs_derivations c h).cost_le
  digests := by
    have hcost := (work_readPkcs12Certificates weighs_digests c h).cost_le
    have hfactor : 4 * (2 * MAX_ITERATIONS + 1) + 2 * 3 ≤ 12 * MAX_ITERATIONS := by decide
    exact le_trans hcost (mul_le_mul_right _ hfactor)

/-- The derivation of the MAC key is logged as the file has it. -/
theorem kdf_mem_log (c : Crypto) {buf authSafe : List UInt8} {mac : Tlv} {r : MacRequest}
    (hopened : (openPfx buf).result = .ok (authSafe, some mac)) (hrequest : macRequest buf mac = .ok (some r)) :
    .kdf r.hash r.iter r.expected.length ∈ (readPkcs12Certificates c buf).log := by
  refine mem_log_bind.mpr (.inr ⟨(authSafe, some mac), hopened, mem_log_bind.mpr (.inl ?_)⟩)
  refine mem_log_bind.mpr (.inl (mem_log_bind.mpr (.inr ⟨some r, hrequest, mem_log_bind.mpr (.inl ?_)⟩)))
  exact mem_singleton_self _

/-- The work of a reading is bounded exactly if the digest of the MAC fits. -/
theorem boundedWork_iff (c : Crypto) (buf : List UInt8) : BoundedWork c buf ↔ MacFits buf := by
  constructor
  · intro h authSafe mac r hopened hrequest
    exact (h.fits _ (kdf_mem_log c hopened hrequest)).2
  · exact boundedWork_of_macFits c

def longDigest : List UInt8 :=
  let algorithm := written 0x30 (written 0x06 [0x2B, 0x0E, 0x03, 0x02, 0x1A])
  let digestInfo := written 0x30 (algorithm ++ written 0x04 (replicate 40 0))
  writtenPfx [] (written 0x30 (digestInfo ++ written 0x04 [1, 2, 3, 4, 5, 6, 7, 8]))

/-- The MAC key is derived to the 40 bytes of the file. -/
theorem not_boundedWork_longDigest : ¬ ∀ c buf, BoundedWork c buf := by
  intro h
  have hmem : kdf .sha1 1 40 ∈ (readPkcs12Certificates Crypto.blank longDigest).log := by decide +kernel
  have hsize : 40 ≤ HashName.sha1.digestLength ∨ 40 ≤ MAX_KEY := ((h Crypto.blank longDigest).fits _ hmem).2
  revert hsize
  decide

end Cdp.Pkcs12
