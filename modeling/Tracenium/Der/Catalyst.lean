-- SUMMARY: The body that the alternative signature of a certificate covers, and what two certificates of one body agree in.
import Tracenium.Der.Words
import Mathlib.Data.List.TakeWhile

/-!
`privsvc/shared/catalyst.ts`. The body is built from the bytes before the extensions and from the extensions that are
kept; what comes after them is not looked at. Results are `none` where a loop over children does not end.
-/

open Der PrefixCodes List Option

namespace Catalyst

def OID_ALT_SPKI : List UInt8 := [0x55, 0x1D, 0x48]
def OID_ALT_SIG_VALUE : List UInt8 := [0x55, 0x1D, 0x4A]

def EXTENSIONS : UInt8 := 0xA3

section Source

variable (fuel : Nat) (certDer : List UInt8)

def extensionsOf : Option (Option (List Tlv)) :=
  match readTlv certDer 0 with
  | none => some none
  | some root =>
    if root.tag ≠ DER_SEQUENCE then some none
    else
      (children fuel certDer root).bind fun cs =>
        match cs.head? with
        | none => some none
        | some tbs =>
          (children fuel certDer tbs).bind fun cs =>
            match cs.find? (·.tag = EXTENSIONS) with
            | none => some none
            | some wrapper =>
              match readTlv certDer wrapper.start with
              | none => some none
              | some extsSeq =>
                if extsSeq.tag ≠ DER_SEQUENCE then some none
                else (children fuel certDer extsSeq).map some

/-- The loop of `extensionValue`. -/
def valueIn (oid : List UInt8) : List Tlv → Option (Option (List UInt8))
  | [] => some none
  | ext :: exts =>
    (children fuel certDer ext).bind fun cs =>
      if cs.head?.map (contentOf certDer) = some oid then some (cs.getLast?.map (contentOf certDer))
      else valueIn oid exts

def extensionValue (oid : List UInt8) : Option (Option (List UInt8)) :=
  (extensionsOf fuel certDer).bind fun exts =>
    match exts with
    | none => some none
    | some exts => valueIn fuel certDer oid exts

def subjectAltSpkiOf : Option (Option (List UInt8)) := extensionValue fuel certDer OID_ALT_SPKI

/-- The loop of `tbsWithoutAltSignatureValue`: is there a signature value, and the other extensions as they are. -/
def keepOthers : List Tlv → Option (Bool × List (List UInt8))
  | [] => some (false, [])
  | ext :: exts =>
    (children fuel certDer ext).bind fun cs =>
      (keepOthers exts).map fun kept =>
        if cs.head?.map (contentOf certDer) = some OID_ALT_SIG_VALUE then (true, kept.2)
        else (kept.1, rawOf certDer ext :: kept.2)

def tbsWithoutAltSignatureValue : Option (Option (List UInt8)) :=
  match readTlv certDer 0 with
  | none => some none
  | some root =>
    (children fuel certDer root).bind fun cs =>
      match cs.head? with
      | none => some none
      | some tbs =>
        (children fuel certDer tbs).bind fun cs =>
          match cs.find? (·.tag = EXTENSIONS) with
          | none => some none
          | some wrapper =>
            match readTlv certDer wrapper.start with
            | none => some none
            | some extsSeq =>
              if extsSeq.tag ≠ DER_SEQUENCE then some none
              else
                (children fuel certDer extsSeq).bind fun exts =>
                  (keepOthers fuel certDer exts).bind fun kept =>
                    if kept.1 then
                      ((seq kept.2).bind (tlv EXTENSIONS)).bind fun rebuilt =>
                        (seq [subarray certDer tbs.start wrapper.offset, rebuilt]).map some
                    else some none

end Source

/-! ## What a verifier reads -/

/-- The values of a certificate: the fields before the extensions, and the extensions. -/
structure Parts where
  tbs : Tlv
  fields : List Tlv
  wrapper : Tlv
  extsSeq : Tlv
  exts : List Tlv
  deriving DecidableEq

section Reading

variable (fuel : Nat) (certDer : List UInt8)

def partsOf : Option Parts :=
  (readTlv certDer 0).bind fun root =>
    (children fuel certDer root).bind fun cs =>
      cs.head?.bind fun tbs =>
        (children fuel certDer tbs).bind fun cs =>
          (cs.find? (·.tag = EXTENSIONS)).bind fun wrapper =>
            (readTlv certDer wrapper.start).bind fun extsSeq =>
              (children fuel certDer extsSeq).map fun exts =>
                ⟨tbs, cs.takeWhile (·.tag ≠ EXTENSIONS), wrapper, extsSeq, exts⟩

def idOf (ext : Tlv) : Option (List UInt8) :=
  (children fuel certDer ext).bind fun cs => cs.head?.map (contentOf certDer)

def others (p : Parts) : List Tlv := p.exts.filter fun ext => idOf fuel certDer ext ≠ some OID_ALT_SIG_VALUE

def headerOf (t : Tlv) : List UInt8 := subarray certDer t.offset t.start

def words (ts : List Tlv) : List (List UInt8) := ts.map (rawOf certDer)

def IsSequence : Prop := ∃ root ∈ readTlv certDer 0, root.tag = DER_SEQUENCE

/-- The body has all of the fields and the other extensions, and with the headers and all extensions they are all of
what is signed. -/
structure Covered (p : Parts) (body : List UInt8) : Prop where
  body : ((seq (words certDer (others fuel certDer p))).bind (tlv EXTENSIONS)).bind
    (fun rebuilt => seq [(words certDer p.fields).flatten, rebuilt]) = some body
  content : contentOf certDer p.tbs = (words certDer p.fields).flatten ++ headerOf certDer p.wrapper ++
    headerOf certDer p.extsSeq ++ (words certDer p.exts).flatten

/-- No value that is read ends before its content, and what is read in an extension ends in it. -/
structure Nested (p : Parts) : Prop where
  fields : ∀ t ∈ p.fields, t.IsForward
  exts : ∀ t ∈ p.exts, t.IsForward
  inner : ∀ t ∈ others fuel certDer p, ∀ cs, children fuel certDer t = some cs →
    ∀ u ∈ cs, u.IsForward ∧ u.end' ≤ t.end'

end Reading

/-- The extensions end where the signed part ends. -/
def Parts.EndsWithExtensions (p : Parts) : Prop := ∀ t ∈ p.exts.getLast?, t.end' = p.tbs.end'

/-- Two certificates of one body agree in all that a verifier reads but the signature value, and nothing else is left
out of the body. -/
structure Bound (fuel fuel' : Nat) (c c' : List UInt8) (p p' : Parts) (body : List UInt8) : Prop where
  fields : words c p.fields = words c' p'.fields
  others : words c (others fuel c p) = words c' (others fuel' c' p')
  altSpki : subjectAltSpkiOf fuel c = subjectAltSpkiOf fuel' c'
  covered : Covered fuel c p body ∧ Covered fuel' c' p' body

/-! ## What is accepted -/

section Accepted

variable {fuel : Nat} {c body : List UInt8} {p : Parts}

/-- How the parts of a certificate are found. -/
structure IsParts (fuel : Nat) (c : List UInt8) (r : Tlv) (p : Parts) : Prop where
  root : readTlv c 0 = some r
  tbs : ∃ later, children fuel c r = some (p.tbs :: later)
  fields : ∃ later, children fuel c p.tbs = some (p.fields ++ p.wrapper :: later)
  unmarked : ∀ t ∈ p.fields, t.tag ≠ EXTENSIONS
  marked : p.wrapper.tag = EXTENSIONS
  extsSeq : readTlv c p.wrapper.start = some p.extsSeq
  exts : children fuel c p.extsSeq = some p.exts

/-- The first marked value of a list. -/
theorem exists_cut_of_find? {cs : List Tlv} {t : Tlv} (h : cs.find? (·.tag = EXTENSIONS) = some t) :
    t.tag = EXTENSIONS ∧ ∃ later, cs = cs.takeWhile (·.tag ≠ EXTENSIONS) ++ t :: later := by
  induction cs with
  | nil => cases h
  | cons u cs ih =>
    by_cases hu : u.tag = EXTENSIONS
    · rw [find?_cons_of_pos (by simpa using hu)] at h
      cases h
      exact ⟨hu, cs, by simp [hu]⟩
    · rw [find?_cons_of_neg (by simpa using hu)] at h
      obtain ⟨ht, later, hcut⟩ := ih h
      refine ⟨ht, later, ?_⟩
      rw [takeWhile_cons_of_pos (by simpa using hu), cons_append, ← hcut]

theorem isParts_of_partsOf (h : partsOf fuel c = some p) : ∃ root, IsParts fuel c root p := by
  simp only [partsOf, bind_eq_some_iff, map_eq_some_iff] at h
  obtain ⟨root, hroot, cs, hcs, tbs, htbs, fs, hfs, wrapper, hwrapper, extsSeq, hseq, exts, hexts, rfl⟩ := h
  obtain ⟨later, rfl⟩ := head?_eq_some_iff.mp htbs
  obtain ⟨hmarked, later', hcut⟩ := exists_cut_of_find? hwrapper
  exact ⟨root, hroot, ⟨later, hcs⟩, ⟨later', hfs.trans (congrArg some hcut)⟩,
    fun t ht => by simpa using mem_takeWhile_imp ht, hmarked, hseq, hexts⟩

/-- What the function makes of a certificate that it accepts. -/
theorem exists_partsOf (h : tbsWithoutAltSignatureValue fuel c = some (some body)) :
    ∃ p ∈ partsOf fuel c, p.extsSeq.tag = DER_SEQUENCE ∧ ∃ kept, keepOthers fuel c p.exts = some kept ∧
      kept.1 ∧ ((seq kept.2).bind (tlv EXTENSIONS)).bind
        (fun rebuilt => seq [subarray c p.tbs.start p.wrapper.offset, rebuilt]) = some body := by
  unfold tbsWithoutAltSignatureValue at h
  split at h
  · cases h
  · rename_i root hroot
    obtain ⟨cs, hcs, h⟩ := bind_eq_some_iff.mp h
    split at h
    · cases h
    · rename_i tbs htbs
      obtain ⟨fs, hfs, h⟩ := bind_eq_some_iff.mp h
      split at h
      · cases h
      · rename_i wrapper hwrapper
        split at h
        · cases h
        · rename_i extsSeq hseq
          split at h
          · cases h
          · rename_i htag
            obtain ⟨exts, hexts, h⟩ := bind_eq_some_iff.mp h
            obtain ⟨kept, hkept, h⟩ := bind_eq_some_iff.mp h
            split at h
            · rename_i hfound
              refine ⟨⟨tbs, fs.takeWhile (·.tag ≠ EXTENSIONS), wrapper, extsSeq, exts⟩, ?_, by simpa using htag, kept,
                hkept, hfound, ?_⟩
              · simp [partsOf, hroot, hcs, htbs, hfs, hwrapper, hseq, hexts]
              · obtain ⟨rebuilt, hrebuilt, h⟩ := bind_eq_some_iff.mp h
                obtain ⟨body', hbody, heq⟩ := map_eq_some_iff.mp h
                cases heq
                exact bind_eq_some_iff.mpr ⟨rebuilt, hrebuilt, hbody⟩
            · cases h

/-- The extensions that are kept, once the loop over the children of each ends. -/
theorem keepOthers_eq {exts : List Tlv} {kept : Bool × List (List UInt8)} (h : keepOthers fuel c exts = some kept) :
    kept.2 = words c (exts.filter fun ext => idOf fuel c ext ≠ some OID_ALT_SIG_VALUE) ∧
      ∀ ext ∈ exts, ∃ cs, children fuel c ext = some cs := by
  induction exts generalizing kept with
  | nil =>
    cases h
    exact ⟨rfl, by simp⟩
  | cons ext exts ih =>
    obtain ⟨cs, hcs, h⟩ := bind_eq_some_iff.mp h
    obtain ⟨kept', hkept', rfl⟩ := map_eq_some_iff.mp h
    obtain ⟨hwords, hends⟩ := ih hkept'
    have hid : idOf fuel c ext = cs.head?.map (contentOf c) := by simp [idOf, hcs]
    refine ⟨?_, forall_mem_cons.mpr ⟨⟨cs, hcs⟩, hends⟩⟩
    split
    · rename_i halt
      rw [filter_cons_of_neg (by simp [hid, halt]), hwords]
    · rename_i halt
      rw [filter_cons_of_pos (by simpa [hid] using halt), hwords]
      rfl

/-- The alternative key, of the extensions that the function reads. -/
theorem subjectAltSpkiOf_eq (hp : partsOf fuel c = some p) (htag : p.extsSeq.tag = DER_SEQUENCE) :
    subjectAltSpkiOf fuel c =
      if (readTlv c 0).any (·.tag = DER_SEQUENCE) then valueIn fuel c OID_ALT_SPKI p.exts else some none := by
  simp only [partsOf, bind_eq_some_iff, map_eq_some_iff] at hp
  obtain ⟨root, hroot, cs, hcs, tbs, htbs, fs, hfs, wrapper, hwrapper, extsSeq, hseq, exts, hexts, rfl⟩ := hp
  by_cases hsequence : root.tag = DER_SEQUENCE
  · dsimp only at htag ⊢
    simp [subjectAltSpkiOf, extensionValue, extensionsOf, hroot, hsequence, hcs, htbs, hfs, hwrapper, hseq, hexts, htag]
  · simp [subjectAltSpkiOf, extensionValue, extensionsOf, hroot, hsequence]

/-- The fields, the two headers and the extensions lie one after the other from the content of the signed part on. -/
structure Tiled (c : List UInt8) (p : Parts) (a b : Nat) : Prop where
  start : p.tbs.start = a
  bytes : c.drop a = (words c p.fields).flatten ++ headerOf c p.wrapper ++ headerOf c p.extsSeq ++
    (words c p.exts).flatten ++ c.drop b
  stop : b = a + ((words c p.fields).flatten ++ headerOf c p.wrapper ++ headerOf c p.extsSeq ++
    (words c p.exts).flatten).length
  before : subarray c p.tbs.start p.wrapper.offset = (words c p.fields).flatten
  last : ∀ t ∈ p.exts.getLast?, t.end' = b
  fields : ∀ t ∈ p.fields, ∃ q e content, ReadAt c q t e content
  exts : ∀ t ∈ p.exts, ∃ q e content, ReadAt c q t e content

theorem exists_tiled {r : Tlv} (h : IsParts fuel c r p) (hfields : ∀ t ∈ p.fields, t.IsForward)
    (hexts : ∀ t ∈ p.exts, t.IsForward) : ∃ a b, Tiled c p a b := by
  obtain ⟨later, htbs⟩ := h.tbs
  obtain ⟨later', hrow⟩ := h.fields
  -- the signed part is read at the content of the certificate, and the extensions at the content of the wrapper
  obtain ⟨s, -, hs, -⟩ := exists_start_of_readTlv h.root
  rw [children, hs] at htbs
  obtain ⟨a, -, ha, -, hale, -⟩ := exists_start_of_readTlv (readTlv_of_childrenFrom htbs).1
  rw [children, ha] at hrow
  obtain ⟨hread, hdrop, fuel', hwrapper⟩ := childrenFrom_append hrow hfields
  obtain ⟨w, hoffset, hw, hpast, hwle, hheader, hwlen⟩ := exists_start_of_readTlv (readTlv_of_childrenFrom hwrapper).1
  have hseq := h.extsSeq
  rw [hw] at hseq
  obtain ⟨x, -, hx, -, -, hheader', hxlen⟩ := exists_start_of_readTlv hseq
  have hexts' := h.exts
  rw [children, hx] at hexts'
  rw [← append_nil p.exts] at hexts'
  obtain ⟨hread', hdrop', -⟩ := childrenFrom_append hexts' hexts
  have hlast := end_of_childrenFrom hexts' hexts
  refine ⟨a, x + (words c p.exts).flatten.length, ha, ?_, ?_, ?_, hlast, hread, hread'⟩
  · rw [hdrop, hheader, hheader', hdrop']
    simp only [words, headerOf, append_assoc]
  · simp only [length_append, headerOf, words]
    omega
  · rw [ha, hoffset, subarray_natCast hale (hpast.trans hwle), hdrop]
    simp [words]

/-- The signed part is all of this exactly if it ends with the extensions. -/
theorem Tiled.content_iff {r : Tlv} {a b : Nat} (h : Tiled c p a b) (hp : IsParts fuel c r p) (hne : p.exts ≠ []) :
    contentOf c p.tbs = (words c p.fields).flatten ++ headerOf c p.wrapper ++ headerOf c p.extsSeq ++
      (words c p.exts).flatten ↔ p.EndsWithExtensions := by
  have hends : p.EndsWithExtensions ↔ (b : Int) = p.tbs.end' := by
    have hlast := getLast?_eq_some_getLast hne
    rw [Parts.EndsWithExtensions, hlast, ← h.last _ hlast]
    simp
  obtain ⟨later, htbs⟩ := hp.tbs
  obtain ⟨later', hrow⟩ := hp.fields
  obtain ⟨s, -, hs, -⟩ := exists_start_of_readTlv hp.root
  rw [children, hs] at htbs
  have hle := end_le_of_readTlv (readTlv_of_childrenFrom htbs).1
  have hlt : p.tbs.start < p.tbs.end' := by
    cases hfields : p.fields with
    | nil => exact (readTlv_of_childrenFrom (by rwa [hfields] at hrow)).2
    | cons t ts => exact (readTlv_of_childrenFrom (by rwa [hfields] at hrow)).2
  rw [h.start] at hlt
  obtain ⟨e, he⟩ : ∃ e : Nat, p.tbs.end' = e := ⟨p.tbs.end'.toNat, by omega⟩
  have hcontent : contentOf c p.tbs = (c.drop a).take (e - a) := by
    rw [contentOf, h.start, he]
    exact subarray_natCast (by omega) (by omega)
  have hbytes := h.bytes
  have hstop := h.stop
  rw [hends, hcontent]
  constructor
  · intro heq
    have hlength := congrArg length heq
    rw [length_take, length_drop] at hlength
    omega
  · intro heq
    rw [hbytes, take_left' (by omega)]

end Accepted

/-! ## Two certificates of one body -/

section Two

variable {fuel fuel' : Nat} {c c' body : List UInt8} {p p' : Parts}

/-- What is put together to one body is the same. -/
theorem eq_of_body {F F' : List UInt8} {K K' : List (List UInt8)}
    (h : ((seq K).bind (tlv EXTENSIONS)).bind (fun rebuilt => seq [F, rebuilt]) = some body)
    (h' : ((seq K').bind (tlv EXTENSIONS)).bind (fun rebuilt => seq [F', rebuilt]) = some body) :
    ∃ w w', w.head? = some EXTENSIONS ∧ w'.head? = some EXTENSIONS ∧ F ++ w = F' ++ w' ∧
      (w = w' → K.flatten = K'.flatten) := by
  obtain ⟨w, hw, hbody⟩ := bind_eq_some_iff.mp h
  obtain ⟨inner, hinner, hw⟩ := bind_eq_some_iff.mp hw
  obtain ⟨w', hw', hbody'⟩ := bind_eq_some_iff.mp h'
  obtain ⟨inner', hinner', hw'⟩ := bind_eq_some_iff.mp hw'
  have hhead {inner w : List UInt8} (hw : tlv EXTENSIONS inner = some w) : w.head? = some EXTENSIONS := by
    obtain ⟨first, bytes, he, -⟩ := exists_tlv EXTENSIONS inner
    rw [he] at hw
    cases hw
    rfl
  refine ⟨w, w', hhead hw, hhead hw', by simpa using tlv_injective hbody hbody', ?_⟩
  rintro rfl
  have hsame := tlv_injective hw hw'
  subst hsame
  exact tlv_injective hinner hinner'

/-- Values with the same bytes have the same value for an identifier, if what is read in them stays in them. -/
theorem valueIn_congr (oid : List UInt8) {ts ts' : List Tlv} (hwords : words c ts = words c' ts')
    (hread : ∀ t ∈ ts, ∃ q e content, ReadAt c q t e content)
    (hread' : ∀ t ∈ ts', ∃ q e content, ReadAt c' q t e content)
    (hends : ∀ t ∈ ts, ∃ cs, children fuel c t = some cs ∧ ∀ u ∈ cs, u.IsForward ∧ u.end' ≤ t.end')
    (hends' : ∀ t ∈ ts', ∃ cs, children fuel' c' t = some cs ∧ ∀ u ∈ cs, u.IsForward ∧ u.end' ≤ t.end') :
    valueIn fuel c oid ts = valueIn fuel' c' oid ts' := by
  induction ts generalizing ts' with
  | nil =>
    cases ts' with
    | nil => rfl
    | cons t' ts' => cases hwords
  | cons t ts ih =>
    cases ts' with
    | nil => cases hwords
    | cons t' ts' =>
      obtain ⟨hraw, hwords⟩ := cons.inj hwords
      obtain ⟨⟨q, e, content, hat⟩, hread⟩ := forall_mem_cons.mp hread
      obtain ⟨⟨q', e', content', hat'⟩, hread'⟩ := forall_mem_cons.mp hread'
      obtain ⟨⟨cs, hcs, hinner⟩, hends⟩ := forall_mem_cons.mp hends
      obtain ⟨⟨cs', hcs', hinner'⟩, hends'⟩ := forall_mem_cons.mp hends'
      have heq : e = e' := hat.raw.symm.trans (hraw.trans hat'.raw)
      subst heq
      obtain ⟨-, hcontent⟩ := hat.spelled.eq_of_append hat'.spelled (congrArg (· ++ []) rfl)
      subst hcontent
      -- the children are read of the same content in both
      obtain ⟨hend, hloop⟩ := hat.loop_eq fuel
      obtain ⟨hend', hloop'⟩ := hat'.loop_eq fuel'
      have hvalues : cs.map (contentOf c) = cs'.map (contentOf c') :=
        childrenFrom_congr hat.drop_start hat'.drop_start (hloop.symm.trans hcs) (hloop'.symm.trans hcs')
          (hend ▸ hinner) (hend' ▸ hinner')
      have hrest := ih hwords hread hread' hends hends'
      rw [valueIn, valueIn, hcs, hcs', bind_some, bind_some, ← head?_map, ← head?_map,
        ← getLast?_map, ← getLast?_map, hvalues, hrest]

/-- The signature value is not looked at for another identifier. -/
theorem valueIn_filter {oid : List UInt8} (hoid : oid ≠ OID_ALT_SIG_VALUE) {ts : List Tlv}
    (hends : ∀ t ∈ ts, ∃ cs, children fuel c t = some cs) :
    valueIn fuel c oid (ts.filter fun t => idOf fuel c t ≠ some OID_ALT_SIG_VALUE) = valueIn fuel c oid ts := by
  induction ts with
  | nil => rfl
  | cons t ts ih =>
    obtain ⟨⟨cs, hcs⟩, hends⟩ := forall_mem_cons.mp hends
    have hid : idOf fuel c t = cs.head?.map (contentOf c) := by simp [idOf, hcs]
    by_cases halt : cs.head?.map (contentOf c) = some OID_ALT_SIG_VALUE
    · rw [filter_cons_of_neg (by simp [hid, halt]), ih hends, valueIn, hcs, bind_some, halt,
        if_neg (by simpa using hoid.symm)]
    · rw [filter_cons_of_pos (by simpa [hid] using halt), valueIn, valueIn, ih hends]

theorem valueIn_eq_none_iff {oid : List UInt8} {ts : List Tlv} (hends : ∀ t ∈ ts, ∃ cs, children fuel c t = some cs) :
    valueIn fuel c oid ts = some none ↔ ∀ t ∈ ts, idOf fuel c t ≠ some oid := by
  induction ts with
  | nil => simp [valueIn]
  | cons t ts ih =>
    obtain ⟨⟨cs, hcs⟩, hends⟩ := forall_mem_cons.mp hends
    have hid : idOf fuel c t = cs.head?.map (contentOf c) := by simp [idOf, hcs]
    rw [forall_mem_cons, hid, valueIn, hcs, bind_some]
    split
    · rename_i hfound
      cases cs with
      | nil => cases hfound
      | cons u cs =>
        have hid : contentOf c u = oid := by simpa using hfound
        simp [hid]
    · rename_i hother
      simp [hother, ih hends]

theorem isWord_of_mem_words {ts : List Tlv} (hread : ∀ t ∈ ts, ∃ q e content, ReadAt c q t e content) {e : List UInt8}
    (he : e ∈ words c ts) : IsWord e := by
  obtain ⟨t, ht, rfl⟩ := mem_map.mp he
  obtain ⟨q, e, content, hat⟩ := hread t ht
  rw [hat.raw]
  exact ⟨content, hat.spelled⟩

theorem mem_words {ts : List Tlv} (hread : ∀ t ∈ ts, ∃ q e content, ReadAt c q t e content)
    (hunmarked : ∀ t ∈ ts, t.tag ≠ EXTENSIONS) :
    ∀ e ∈ words c ts, e ∈ {e | IsWord e} ∧ ∃ d ∈ e.head?, ¬ d = EXTENSIONS := by
  intro e he
  refine ⟨isWord_of_mem_words hread he, ?_⟩
  obtain ⟨t, ht, rfl⟩ := mem_map.mp he
  obtain ⟨q, e, content, hat⟩ := hread t ht
  exact ⟨t.tag, hat.raw ▸ hat.tag, hunmarked t ht⟩

/-- Two certificates that are accepted with one body, and whose values do not end before their contents, agree in all
else, exactly if their signed parts end with the extensions and none of them alone is a sequence with a key. -/
theorem bound_iff (haccepted : tbsWithoutAltSignatureValue fuel c = some (some body))
    (haccepted' : tbsWithoutAltSignatureValue fuel' c' = some (some body)) (hp : partsOf fuel c = some p)
    (hp' : partsOf fuel' c' = some p') (hnested : Nested fuel c p) (hnested' : Nested fuel' c' p') :
    Bound fuel fuel' c c' p p' body ↔ p.EndsWithExtensions ∧ p'.EndsWithExtensions ∧
      ((IsSequence c ↔ IsSequence c') ∨ ∀ ext ∈ p.exts, idOf fuel c ext ≠ some OID_ALT_SPKI) := by
  obtain ⟨q, hq, htag, kept, hkept, hfound, hbody⟩ := exists_partsOf haccepted
  obtain ⟨q', hq', htag', kept', hkept', hfound', hbody'⟩ := exists_partsOf haccepted'
  cases some.inj (hp.symm.trans hq)
  cases some.inj (hp'.symm.trans hq')
  obtain ⟨r, hparts⟩ := isParts_of_partsOf hp
  obtain ⟨r', hparts'⟩ := isParts_of_partsOf hp'
  obtain ⟨a, b, htiled⟩ := exists_tiled hparts hnested.fields hnested.exts
  obtain ⟨a', b', htiled'⟩ := exists_tiled hparts' hnested'.fields hnested'.exts
  obtain ⟨hkeeps, hends⟩ := keepOthers_eq hkept
  obtain ⟨hkeeps', hends'⟩ := keepOthers_eq hkept'
  rw [hkeeps, htiled.before] at hbody
  rw [hkeeps', htiled'.before] at hbody'
  -- the body is cut into the fields and the other extensions in one way
  obtain ⟨w, w', hw, hw', hjoined, hflat⟩ := eq_of_body hbody hbody'
  have hread : ∀ t ∈ others fuel c p, ∃ q e content, ReadAt c q t e content :=
    fun t ht => htiled.exts t (mem_of_mem_filter ht)
  have hread' : ∀ t ∈ others fuel' c' p', ∃ q e content, ReadAt c' q t e content :=
    fun t ht => htiled'.exts t (mem_of_mem_filter ht)
  obtain ⟨hfields, hrebuilt⟩ := isPrefixCode_isWord.flatten_append_inj
    (mem_words htiled.fields hparts.unmarked) (mem_words htiled'.fields hparts'.unmarked)
    (by simp [hw]) (by simp [hw']) hjoined
  have hothers : words c (others fuel c p) = words c' (others fuel' c' p') :=
    isPrefixCode_isWord.flatten_inj nil_not_isWord (fun e he => isWord_of_mem_words hread he)
      (fun e he => isWord_of_mem_words hread' he) (hflat hrebuilt)
  have hvalue : valueIn fuel c OID_ALT_SPKI p.exts = valueIn fuel' c' OID_ALT_SPKI p'.exts := by
    rw [← valueIn_filter (by decide) hends, ← valueIn_filter (by decide) hends']
    refine valueIn_congr OID_ALT_SPKI hothers hread hread' (fun t ht => ?_) fun t ht => ?_
    · obtain ⟨cs, hcs⟩ := hends t (mem_of_mem_filter ht)
      exact ⟨cs, hcs, hnested.inner t ht cs hcs⟩
    · obtain ⟨cs, hcs⟩ := hends' t (mem_of_mem_filter ht)
      exact ⟨cs, hcs, hnested'.inner t ht cs hcs⟩
  have hne : p.exts ≠ [] := by
    intro hnil
    rw [hnil] at hkept
    cases hkept
    cases hfound
  have hne' : p'.exts ≠ [] := by
    intro hnil
    rw [hnil] at hkept'
    cases hkept'
    cases hfound'
  have hcontent := htiled.content_iff hparts hne
  have hcontent' := htiled'.content_iff hparts' hne'
  have hspki : subjectAltSpkiOf fuel c = subjectAltSpkiOf fuel' c' ↔
      ((IsSequence c ↔ IsSequence c') ∨ ∀ ext ∈ p.exts, idOf fuel c ext ≠ some OID_ALT_SPKI) := by
    have hsequence (c : List UInt8) : (readTlv c 0).any (·.tag = DER_SEQUENCE) ↔ IsSequence c := by
      simp [IsSequence, Option.any_eq_true]
    rw [subjectAltSpkiOf_eq hp htag, subjectAltSpkiOf_eq hp' htag', ← valueIn_eq_none_iff hends, ← hvalue,
      ← hsequence c, ← hsequence c']
    cases (readTlv c 0).any (·.tag = DER_SEQUENCE) <;> cases (readTlv c' 0).any (·.tag = DER_SEQUENCE) <;>
      simp [eq_comm]
  constructor
  · intro h
    exact ⟨hcontent.mp h.covered.1.content, hcontent'.mp h.covered.2.content, hspki.mp h.altSpki⟩
  · rintro ⟨hlast, hlast', hkey⟩
    exact ⟨hfields, hothers, hspki.mpr hkey, ⟨hbody, hcontent.mpr hlast⟩, hbody', hcontent'.mpr hlast'⟩

end Two

/-! ## Certificates of one body -/

section Samples

/-- A certificate with a version, these extensions and, behind them, these bytes. Its parts are short. -/
def certificate (exts rest : List UInt8) : List UInt8 :=
  let extsSeq := DER_SEQUENCE :: UInt8.ofNat exts.length :: exts
  let wrapper := EXTENSIONS :: UInt8.ofNat extsSeq.length :: extsSeq
  let tbs := [0x02, 0x01, 0x05] ++ wrapper ++ rest
  DER_SEQUENCE :: UInt8.ofNat (tbs.length + 2) :: DER_SEQUENCE :: UInt8.ofNat tbs.length :: tbs

def emptySignature : List UInt8 := [0x30, 0x07, 0x06, 0x03, 0x55, 0x1D, 0x4A, 0x04, 0x00]
def shortSignature : List UInt8 := [0x30, 0x08, 0x06, 0x03, 0x55, 0x1D, 0x4A, 0x04, 0x01, 0xFF]

/-- A key of two bytes, and one whose two bytes lie behind the extension. -/
def wholeKey : List UInt8 := [0x30, 0x09, 0x06, 0x03, 0x55, 0x1D, 0x48, 0x04, 0x02, 0xAA, 0xBB]
def brokenKey : List UInt8 := [0x30, 0x07, 0x06, 0x03, 0x55, 0x1D, 0x48, 0x04, 0x02]

/-- The parts of the certificate with the whole key and the signature value up to there. -/
def sampleParts (stop : Int) : Parts where
  tbs := ⟨0x30, 2, 4, stop - 4, stop⟩
  fields := [⟨0x02, 4, 6, 1, 7⟩]
  wrapper := ⟨0xA3, 7, 9, stop - 9, stop⟩
  extsSeq := ⟨0x30, 9, 11, stop - 11, stop⟩
  exts := [⟨0x30, 11, 13, 9, 22⟩, ⟨0x30, 22, 24, stop - 24, stop⟩]

theorem nested_sample (c : List UInt8) (stop : Int) (hstop : 24 ≤ stop)
    (hothers : others 8 c (sampleParts stop) = [⟨0x30, 11, 13, 9, 22⟩])
    (hkey : children 8 c ⟨0x30, 11, 13, 9, 22⟩ = some [⟨0x06, 13, 15, 3, 18⟩, ⟨0x04, 18, 20, 2, 22⟩]) :
    Nested 8 c (sampleParts stop) where
  fields := by simp [sampleParts, Tlv.IsForward]
  exts := by simp [sampleParts, Tlv.IsForward, hstop]
  inner := by
    rw [hothers]
    simp [hkey, Tlv.IsForward]

def sampleBody : List UInt8 :=
  [0x30, 0x12, 0x02, 0x01, 0x05, 0xA3, 0x0D, 0x30, 0x0B, 0x30, 0x09, 0x06, 0x03, 0x55, 0x1D, 0x48, 0x04, 0x02,
    0xAA, 0xBB]

/-- Two certificates that differ in the signature value only. -/
theorem bound_sample :
    Bound 8 8 (certificate (wholeKey ++ emptySignature) []) (certificate (wholeKey ++ shortSignature) [])
      (sampleParts 31) (sampleParts 32) sampleBody :=
  (bound_iff (by decide) (by decide) (by decide) (by decide) (nested_sample _ 31 (by decide) (by decide) (by decide))
    (nested_sample _ 32 (by decide) (by decide) (by decide))).mpr ⟨by simp [Parts.EndsWithExtensions, sampleParts],
      by simp [Parts.EndsWithExtensions, sampleParts], .inl (iff_of_true ⟨_, rfl, rfl⟩ ⟨_, rfl, rfl⟩)⟩

/-- The key that lies behind its extension is another one with another signature value, and what comes after the
extensions is in no body. -/
theorem not_bound :
    (∃ body, tbsWithoutAltSignatureValue 8 (certificate (brokenKey ++ emptySignature) []) = some (some body) ∧
      tbsWithoutAltSignatureValue 8 (certificate (brokenKey ++ shortSignature) []) = some (some body)) ∧
    subjectAltSpkiOf 8 (certificate (brokenKey ++ emptySignature) []) = some (some [0x30, 0x07]) ∧
    subjectAltSpkiOf 8 (certificate (brokenKey ++ shortSignature) []) = some (some [0x30, 0x08]) ∧
    ∃ body, tbsWithoutAltSignatureValue 8 (certificate (wholeKey ++ emptySignature) []) = some (some body) ∧
      tbsWithoutAltSignatureValue 8 (certificate (wholeKey ++ emptySignature) [0x05, 0x00]) = some (some body) :=
  ⟨⟨[0x30, 0x10, 0x02, 0x01, 0x05, 0xA3, 0x0B, 0x30, 0x09, 0x30, 0x07, 0x06, 0x03, 0x55, 0x1D, 0x48, 0x04, 0x02],
      by decide⟩, by decide, by decide, sampleBody, by decide⟩

end Samples

end Catalyst
