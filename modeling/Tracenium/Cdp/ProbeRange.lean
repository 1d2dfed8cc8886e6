-- SUMMARY: IPv4 addresses as text and as numbers, the ranges that a probe sweeps, and that what is stored is accepted again.
import Tracenium.Ipc.Wire
import Tracenium.Lib.Numerals
import Tracenium.Lib.JsonObject
import Tracenium.Lib.LineEdits
import Mathlib.Data.Set.Defs
import Mathlib.Data.List.Pairwise

/-!
`intToIpv4` writes the four octets of a number, and `ipv4ToInt` reads a dotted text, with spaces around it and zeros at
the start of an octet allowed.
-/

open Utf16 Json Numerals List Nat Except Option

namespace Cdp

open UInt32 Ipc

def point : UInt16 := 0x2E

/-- `\d{1,3}`. -/
def isOctetText (s : Str) : Bool := 1 ≤ s.length && s.length ≤ 3 && s.all isDigit

def ipv4ToInt (s : Str) : Option UInt32 :=
  match (trim s).splitOn point with
  | [a, b, c, d] =>
    if [a, b, c, d].all isOctetText then
      if [a, b, c, d].all fun o => worth o ≤ 255 then
        some (ofNat ([a, b, c, d].foldl (fun out o => out * 256 + worth o) 0))
      else none
    else none
  | _ => none

/-- The octet of a number above its lowest bits, as it is written. -/
def octet (v bits : UInt32) : Str := decimal ((v >>> bits) &&& 255).toNat

def intToIpv4 (n : Nat) : Str :=
  let v := ofNat n
  [point].intercalate [octet v 24, octet v 16, octet v 8, decimal (v &&& 255).toNat]

def isSkippableAddress (n : Nat) : Bool :=
  let a := ((ofNat n >>> 24) &&& 255).toNat
  let b := ((ofNat n >>> 16) &&& 255).toNat
  if a = 0 || a = 127 then true
  else if a = 169 && b = 254 then true
  else if 224 ≤ a then true
  else false

/-! ## What the texts stand for -/

def dotted (n : Nat) : Str :=
  decimal (n / 2 ^ 24) ++ point :: decimal (n / 2 ^ 16 % 256) ++ point :: decimal (n / 2 ^ 8 % 256) ++
    point :: decimal (n % 256)

/-- A written octet: one to three digits. -/
structure Octet (s : Str) (o : Nat) : Prop where
  length : 1 ≤ s.length ∧ s.length ≤ 3
  digits : ∀ u ∈ s, isDigit u = true
  worth : worth s = o
  bound : o ≤ 255

/-- A text is four octets with points between them, with spaces around it. -/
def Spells (s : Str) (n : Nat) : Prop :=
  ∃ a b c d w x y z, Octet a w ∧ Octet b x ∧ Octet c y ∧ Octet d z ∧
    trim s = a ++ point :: b ++ point :: c ++ point :: d ∧ n = ((w * 256 + x) * 256 + y) * 256 + z

/-- The blocks 0/8, 127/8, 169.254/16 and 224/3. -/
def Reserved (n : Nat) : Prop :=
  n / 2 ^ 24 = 0 ∨ n / 2 ^ 24 = 127 ∨ n / 2 ^ 16 = 169 * 256 + 254 ∨ n / 2 ^ 29 = 7

/-! ## Reading -/

theorem octet_of_isOctetText {s : Str} (htext : isOctetText s) (hbound : worth s ≤ 255) :
    Octet s (worth s) := by
  simp only [isOctetText, Bool.and_eq_true, decide_eq_true_eq, List.all_eq_true] at htext
  exact ⟨htext.1, htext.2, rfl, hbound⟩

theorem Octet.isOctetText {s : Str} {o : Nat} (h : Octet s o) : isOctetText s := by
  simpa [Cdp.isOctetText] using ⟨h.length, h.digits⟩

theorem Octet.point_notMem {s : Str} {o : Nat} (h : Octet s o) : point ∉ s := fun hmem =>
  absurd (h.digits point hmem) (by decide)

theorem splitOn_quad {a b c d : Str} (ha : point ∉ a) (hb : point ∉ b) (hc : point ∉ c) (hd : point ∉ d) :
    (a ++ point :: b ++ point :: c ++ point :: d).splitOn point = [a, b, c, d] := by
  have hjoin : a ++ point :: b ++ point :: c ++ point :: d = [point].intercalate [a, b, c, d] := by
    simp
  rw [hjoin]
  exact splitOn_intercalate _ (by simp [ha, hb, hc, hd]) (cons_ne_nil _ _)

theorem ipv4ToInt_eq_some_iff {s : Str} {n : UInt32} : ipv4ToInt s = some n ↔ Spells s n.toNat := by
  constructor
  · intro h
    rw [ipv4ToInt] at h
    split at h
    · rename_i a b c d hsplit
      split at h
      · rename_i htexts
        split at h
        · rename_i hbounds
          have hjoin : [point].intercalate ((trim s).splitOn point) = trim s := intercalate_splitOn point
          simp only [all_cons, all_nil, Bool.and_true, Bool.and_eq_true, decide_eq_true_eq] at htexts hbounds
          refine ⟨a, b, c, d, _, _, _, _, octet_of_isOctetText htexts.1 hbounds.1,
            octet_of_isOctetText htexts.2.1 hbounds.2.1, octet_of_isOctetText htexts.2.2.1 hbounds.2.2.1,
            octet_of_isOctetText htexts.2.2.2 hbounds.2.2.2, ?_, ?_⟩
          · rw [← hjoin, hsplit]
            simp
          · rw [← some.inj h, toNat_ofNat']
            simp only [foldl_cons, foldl_nil]
            omega
        · cases h
      · cases h
    · cases h
  · rintro ⟨a, b, c, d, w, x, y, z, ha, hb, hc, hd, htrim, hn⟩
    have hsplit : (trim s).splitOn point = [a, b, c, d] := by
      rw [htrim]
      exact splitOn_quad ha.point_notMem hb.point_notMem hc.point_notMem hd.point_notMem
    simp [ipv4ToInt, hsplit, ha.isOctetText, hb.isOctetText, hc.isOctetText, hd.isOctetText, ha.worth, hb.worth,
      hc.worth, hd.worth, ha.bound, hb.bound, hc.bound, hd.bound, ← hn]

/-! ## Writing -/

theorem toNat_octet (n : Nat) (bits : UInt32) (hbits : bits.toNat < 32) :
    ((UInt32.ofNat n >>> bits) &&& 255).toNat = n % 2 ^ 32 / 2 ^ bits.toNat % 256 := by
  rw [UInt32.toNat_and, UInt32.toNat_shiftRight, UInt32.toNat_ofNat', mod_eq_of_lt hbits, shiftRight_eq_div_pow]
  exact and_two_pow_sub_one_eq_mod _ 8

theorem intToIpv4_eq {n : Nat} (h : n < 2 ^ 32) : intToIpv4 n = dotted n := by
  have hlow : (ofNat n &&& 255).toNat = n % 256 := by
    rw [UInt32.toNat_and, UInt32.toNat_ofNat', mod_eq_of_lt h]
    exact and_two_pow_sub_one_eq_mod _ 8
  have hhigh : n / 2 ^ 24 % 256 = n / 2 ^ 24 := mod_eq_of_lt (by omega)
  simp only [intToIpv4, octet, toNat_octet n 24 (by decide), toNat_octet n 16 (by decide), toNat_octet n 8 (by decide),
    hlow, mod_eq_of_lt h, reduceToNat, hhigh]
  simp [dotted]

theorem isSkippableAddress_iff {n : Nat} (h : n < 2 ^ 32) : isSkippableAddress n ↔ Reserved n := by
  have hhigh : n / 2 ^ 24 % 256 = n / 2 ^ 24 := mod_eq_of_lt (by omega)
  simp only [isSkippableAddress, toNat_octet n 24 (by decide), toNat_octet n 16 (by decide), mod_eq_of_lt h]
  simp only [Reserved]
  grind

theorem octet_decimal {n : Nat} (h : n ≤ 255) : Octet (decimal n) n where
  length := by
    have hlength : ∀ n ≤ 255, 1 ≤ (decimal n).length ∧ (decimal n).length ≤ 3 := by decide +kernel
    exact hlength n h
  digits := isDigit_decimal n
  worth := worth_decimal n
  bound := h

theorem trim_dotted (n : Nat) : trim (dotted n) = dotted n := by
  refine trim_of_forall fun u hu => ?_
  have hunit : isDigit u ∨ u = point := by
    simp only [dotted, mem_append, mem_cons] at hu
    have hdigit := fun m => isDigit_decimal m u
    tauto
  rcases hunit with hdigit | rfl
  · simp only [isDigit, Bool.and_eq_true, decide_eq_true_eq] at hdigit
    exact isSpace_of_range (UInt16.le_trans (by decide) hdigit.1) (UInt16.le_trans hdigit.2 (by decide))
  · decide

theorem spells_dotted {n : Nat} (h : n < 2 ^ 32) : Spells (dotted n) n :=
  ⟨_, _, _, _, _, _, _, _, octet_decimal (by omega), octet_decimal (by omega), octet_decimal (by omega),
    octet_decimal (by omega), trim_dotted n, by omega⟩

/-- Reading inverts writing on all addresses. -/
theorem ipv4ToInt_intToIpv4 (n : UInt32) : ipv4ToInt (intToIpv4 n.toNat) = some n := by
  rw [intToIpv4_eq n.toNat_lt]
  exact ipv4ToInt_eq_some_iff.mpr (spells_dotted n.toNat_lt)

end Cdp

/-! # Ranges of a sweep -/

namespace Cdp

structure Conversions where
  /-- `Number(x)`, if it is an integer. -/
  number : Json → Except Unit (Option Int)
  /-- `String(x)`. -/
  text : Json → Except Unit Str
  /-- `toLowerCase`. -/
  lower : Str → Str
  number_nat : ∀ n < 2 ^ 53, number (nat n) = .ok (some n)
  text_str : ∀ s, text (.str s) = .ok s
  lower_capital : ∀ s, ∀ u ∈ lower s, ¬ (0x41 ≤ u ∧ u ≤ 0x5A)
  lower_small : ∀ s, (∀ u ∈ s, u < 0x80 ∧ ¬ (0x41 ≤ u ∧ u ≤ 0x5A)) → lower s = s

def PROBE_RANGE_MAX_PREFIX : Nat := 22
def PROBE_RANGE_MAX_ADDRESSES : Nat := 1024
def PROBE_RANGE_MAX_PORTS : Nat := 8
def PROBE_RANGES_MAX : Nat := 16

def slash : UInt16 := 0x2F
def dash : UInt16 := 0x2D

structure ProbeRange where
  raw : Str
  start : UInt32
  stop : UInt32
  ports : List Nat
  sni : Option Str
  deriving DecidableEq

/-! ## Parsing -/

/-- What is before and after the first `c`, if `s.indexOf(c) > 0`. -/
def sliceAt (c : UInt16) (s : Str) : Option (Str × Str) :=
  let i := s.idxOf c
  if 0 < i && i < s.length then some (s.take i, s.drop (i + 1)) else none

def parseRangeBounds (raw : Str) : Option (UInt32 × UInt32) :=
  let s := Ipc.trim raw
  if s.isEmpty || 64 < s.length then none
  else match sliceAt slash s with
  | some (before, prefixStr) =>
    match ipv4ToInt before with
    | none => none
    | some base =>
      if 1 ≤ prefixStr.length && prefixStr.length ≤ 2 && prefixStr.all isDigit then
        let bits := worth prefixStr
        if bits < PROBE_RANGE_MAX_PREFIX || 32 < bits then none
        else
          let size := if bits = 32 then 1 else 2 ^ (32 - bits)
          let mask : UInt32 := if bits = 0 then 0 else 0xFFFFFFFF <<< UInt32.ofNat (32 - bits)
          let start := base &&& mask
          some (start, UInt32.ofNat (start.toNat + size - 1))
      else none
  | none =>
    match sliceAt dash s with
    | some (before, after) =>
      match ipv4ToInt before, ipv4ToInt after with
      | some start, some stop =>
        if stop < start then none
        else if PROBE_RANGE_MAX_ADDRESSES < stop.toNat - start.toNat + 1 then none
        else some (start, stop)
      | _, _ => none
    | none => none

section Entries

variable (c : Conversions)

/-- The loop of `parsePorts`. -/
def collectPorts : List Json → List Nat → Except Unit (Option (List Nat))
  | [], out => .ok (if 0 < out.length then some out else none)
  | p :: ps, out =>
    match c.number p with
    | .error e => .error e
    | .ok none => .ok none
    | .ok (some port) =>
      if port < 1 || 65535 < port then .ok none
      else if out.contains port.toNat then collectPorts ps out
      else if PROBE_RANGE_MAX_PORTS ≤ out.length then .ok none
      else collectPorts ps (out ++ [port.toNat])

def parsePorts (raw : Option Json) : Except Unit (Option (List Nat)) :=
  match raw with
  | some (.arr ps) => if ps.isEmpty then .ok none else collectPorts c ps []
  | _ => .ok none

/-- Letters, digits. -/
def isAlnum (u : UInt16) : Bool :=
  isDigit u || (0x61 ≤ u && u ≤ 0x7A) || (0x41 ≤ u && u ≤ 0x5A)

/-- `[a-z0-9]([a-z0-9-]{0,62}[a-z0-9])?`. -/
def isLabel (s : Str) : Bool :=
  s.head?.any isAlnum && s.getLast?.any isAlnum && s.all (fun u => isAlnum u || u = dash) && s.length ≤ 64

/-- `SNI_RE`: two labels or more, with points between them. -/
def isSni (s : Str) : Bool := 2 ≤ (s.splitOn point).length && (s.splitOn point).all isLabel

def parseSni (raw : Option Json) : Except Unit (Option Str) :=
  match raw with
  | none | some .null | some (.str []) => .ok none
  | some v =>
    match c.text v with
    | .error e => .error e
    | .ok txt =>
      let s := c.lower (Ipc.trim txt)
      .ok (if 253 < s.length || !isSni s then none else some s)

/-- `typeof e.range === "string" ? e.range.trim() : ""`. -/
def rangeText (e : Json) : Str :=
  match e.field (text "range") with
  | some (.str s) => Ipc.trim s
  | _ => []

def parseProbeRange (raw : Json) : Except Unit (Option ProbeRange) :=
  match raw with
  | .obj _ =>
    match parseRangeBounds (rangeText raw) with
    | none => .ok none
    | some (start, stop) =>
      if PROBE_RANGE_MAX_ADDRESSES < stop.toNat - start.toNat + 1 then .ok none
      else match parsePorts c (raw.field (text "ports")) with
      | .error e => .error e
      | .ok none => .ok none
      | .ok (some ports) =>
        match parseSni c (raw.field (text "sni")) with
        | .error e => .error e
        | .ok sni => .ok (some ⟨rangeText raw, start, stop, ports, sni⟩)
  | _ => .ok none

def probeRangeEntry (r : ProbeRange) : Json :=
  ofFields [(text "range", some (.str r.raw)), (text "ports", some (.arr (r.ports.map nat))),
    (text "sni", r.sni.map .str)]

def probeRangeKey (r : ProbeRange) : Str :=
  decimal r.start.toNat ++ dash :: decimal r.stop.toNat ++ text "|" ++ [comma].intercalate (r.ports.map decimal) ++
    text "|" ++ r.sni.getD []

/-- The loop of `rangeAddresses`. -/
def addressesFrom (n stop : Nat) : List Str :=
  if n ≤ stop then
    if isSkippableAddress n then addressesFrom (n + 1) stop
    else intToIpv4 n :: addressesFrom (n + 1) stop
  else []
termination_by stop + 1 - n

def rangeAddresses (r : ProbeRange) : List Str := addressesFrom r.start.toNat r.stop.toNat

/-- The loop of `sanitizeProbeRanges`. -/
def storeRanges : List Json → List Json → List Str → Except Unit (List Json)
  | [], out, _ => .ok out
  | raw :: rest, out, seen =>
    if PROBE_RANGES_MAX ≤ out.length then .ok out
    else match parseProbeRange c raw with
    | .error e => .error e
    | .ok none => storeRanges rest out seen
    | .ok (some r) =>
      if seen.contains (probeRangeKey r) then storeRanges rest out seen
      else storeRanges rest (out ++ [probeRangeEntry r]) (probeRangeKey r :: seen)

def sanitizeProbeRanges (input : Json) : Except Unit (List Json) :=
  match input with
  | .arr raws => storeRanges c raws [] []
  | _ => .ok []

/-- What the collector reads from the stored entries. -/
def getCdpProbeRanges (probeRanges : List Json) : Except Unit (List ProbeRange) :=
  (probeRanges.mapM (parseProbeRange c)).map fun rs => rs.filterMap id

end Entries

/-! ## What an entry stands for -/

/-- The addresses a text is written for: a CIDR block, or the addresses from one to another. -/
inductive Denotes (s : Str) : Set Nat → Prop
  | block {a p : Str} {base : Nat} (hs : s = a ++ slash :: p) (ha : Spells a base) (hp : ∀ u ∈ p, isDigit u = true)
      (hlow : PROBE_RANGE_MAX_PREFIX ≤ worth p) (hhigh : worth p ≤ 32) :
      Denotes s {n | n / 2 ^ (32 - worth p) = base / 2 ^ (32 - worth p)}
  | interval {a b : Str} {x y : Nat} (hs : s = a ++ dash :: b) (ha : Spells a x) (hb : Spells b y) (hle : x ≤ y) :
      Denotes s {n | x ≤ n ∧ n ≤ y}

theorem eq_of_sliceAt {c : UInt16} {s a b : Str} (h : sliceAt c s = some (a, b)) : s = a ++ c :: b := by
  simp only [sliceAt, ite_none_right_eq_some, Bool.and_eq_true, decide_eq_true_eq, some.injEq, Prod.mk.injEq] at h
  obtain ⟨⟨-, hlt⟩, rfl, rfl⟩ := h
  calc s = s.take (s.idxOf c) ++ s.drop (s.idxOf c) := (take_append_drop _ s).symm
    _ = _ := by rw [drop_eq_getElem_cons hlt, getElem_idxOf hlt]

/-- The first address of a block is its base with the bits after the network set to zero. -/
theorem toNat_and_mask (base : UInt32) {k : Nat} (hk : k ≤ 10) :
    (base &&& 0xFFFFFFFF <<< UInt32.ofNat k).toNat = base.toNat / 2 ^ k * 2 ^ k := by
  have hmask : ∀ k ≤ 10, ((0xFFFFFFFF : UInt32) <<< UInt32.ofNat k).toNat = (2 ^ (32 - k) - 1) <<< k := by
    decide
  rw [UInt32.toNat_and, hmask k hk]
  refine eq_of_testBit_eq fun i => ?_
  simp only [testBit_and, testBit_shiftLeft, testBit_two_pow_sub_one, testBit_mul_two_pow, testBit_div_two_pow]
  by_cases hi : k ≤ i
  · have hlow : i - k < 32 - k ↔ i < 32 := by omega
    have hbit : base.toNat.testBit i → i < 32 := fun hbit =>
      Nat.lt_of_not_le fun hle => Bool.noConfusion (hbit.symm.trans
        (Nat.testBit_lt_two_pow (base.toNat_lt.trans_le (Nat.pow_le_pow_right (by decide) hle))))
    cases hb : base.toNat.testBit i <;> simp_all
  · simp [hi]

/-- A block goes from its first address to the one with all bits after the network set. -/
theorem mem_block_iff {base k n : Nat} (start : Nat) (hstart : start = base / 2 ^ k * 2 ^ k) :
    n / 2 ^ k = base / 2 ^ k ↔ start ≤ n ∧ n ≤ start + 2 ^ k - 1 := by
  have hpos : 0 < 2 ^ k := Nat.two_pow_pos k
  rw [Nat.div_eq_iff hpos, hstart]

/-- A block ends below `2 ^ 32`, which is a multiple of its size. -/
theorem block_le (base : UInt32) {k : Nat} (hk : k ≤ 32) : base.toNat / 2 ^ k * 2 ^ k + 2 ^ k ≤ 2 ^ 32 := by
  have hpow : 2 ^ 32 = 2 ^ (32 - k) * 2 ^ k := by rw [← Nat.pow_add, Nat.sub_add_cancel hk]
  have hlt : base.toNat / 2 ^ k < 2 ^ (32 - k) := Nat.div_lt_of_lt_mul (Nat.mul_comm .. ▸ hpow ▸ base.toNat_lt)
  calc base.toNat / 2 ^ k * 2 ^ k + 2 ^ k = (base.toNat / 2 ^ k + 1) * 2 ^ k := (succ_mul _ _).symm
    _ ≤ 2 ^ (32 - k) * 2 ^ k := mul_le_mul_right _ hlt
    _ = 2 ^ 32 := hpow.symm

theorem denotes_of_parseRangeBounds {raw : Str} {start stop : UInt32}
    (h : parseRangeBounds raw = some (start, stop)) : stop.toNat - start.toNat + 1 ≤ PROBE_RANGE_MAX_ADDRESSES ∧
      Denotes (Ipc.trim raw) {n | start.toNat ≤ n ∧ n ≤ stop.toNat} := by
  rw [parseRangeBounds] at h
  dsimp only at h
  split at h
  · cases h
  split at h
  · rename_i before prefixStr hslice
    split at h
    · cases h
    rename_i base hbase
    split at h
    · rename_i htext
      split at h
      · cases h
      rename_i hbits
      have hbits : PROBE_RANGE_MAX_PREFIX ≤ worth prefixStr ∧ worth prefixStr ≤ 32 := by simpa using hbits
      have hlow : 22 ≤ worth prefixStr := hbits.1
      simp only [Bool.and_eq_true, List.all_eq_true] at htext
      obtain ⟨k, hk⟩ : ∃ k, k = 32 - worth prefixStr := ⟨_, rfl⟩
      have hsize : (if worth prefixStr = 32 then 1 else 2 ^ (32 - worth prefixStr)) = 2 ^ k := by
        rw [← hk]
        split
        · rw [show k = 0 by omega, pow_zero]
        · rfl
      rw [hsize, if_neg (by omega), ← hk, some.injEq, Prod.mk.injEq] at h
      obtain ⟨rfl, rfl⟩ := h
      have hstart := toNat_and_mask base (k := k) (by omega)
      generalize base &&& 0xFFFFFFFF <<< UInt32.ofNat k = start at hstart ⊢
      have hpow : 2 ^ k ≤ 1024 := Nat.pow_le_pow_right (by decide) (show k ≤ 10 by omega)
      -- the block ends below 2^32, since 2^32 is a multiple of its size
      have hstop : (UInt32.ofNat (start.toNat + 2 ^ k - 1)).toNat = start.toNat + 2 ^ k - 1 := by
        have hlast := block_le base (k := k) (by omega)
        rw [UInt32.toNat_ofNat', mod_eq_of_lt (by omega)]
      rw [hstop]
      refine ⟨?_, ?_⟩
      · rw [PROBE_RANGE_MAX_ADDRESSES]
        omega
      · have hset : {n | start.toNat ≤ n ∧ n ≤ start.toNat + 2 ^ k - 1} =
            {n | n / 2 ^ (32 - worth prefixStr) = base.toNat / 2 ^ (32 - worth prefixStr)} :=
          Set.ext fun n => hk ▸ (mem_block_iff start.toNat hstart).symm
        rw [hset]
        exact .block (eq_of_sliceAt hslice) (ipv4ToInt_eq_some_iff.mp hbase) htext.2 hbits.1 hbits.2
    · cases h
  · split at h
    · rename_i before after hslice
      split at h
      · rename_i x y hx hy
        split at h
        · cases h
        split at h
        · cases h
        rename_i hle hcount
        obtain ⟨rfl, rfl⟩ := Prod.mk.inj (Option.some.inj h)
        exact ⟨Nat.le_of_not_lt hcount, .interval (eq_of_sliceAt hslice) (ipv4ToInt_eq_some_iff.mp hx)
          (ipv4ToInt_eq_some_iff.mp hy) (UInt32.le_iff_toNat_le.mp (UInt32.not_lt.mp hle))⟩
      · cases h
    · cases h

/-! ## Addresses -/

theorem addressesFrom_eq (n stop : Nat) : addressesFrom n stop =
      ((range' n (stop + 1 - n)).filter fun n => !isSkippableAddress n).map intToIpv4 := by
  fun_induction addressesFrom n stop with
  | case1 n hle hskip ih =>
    rw [ih, show stop + 1 - n = stop + 1 - (n + 1) + 1 by omega, range'_succ]
    simp [hskip]
  | case2 n hle hskip ih =>
    rw [ih, show stop + 1 - n = stop + 1 - (n + 1) + 1 by omega, range'_succ]
    simp [hskip]
  | case3 n hlt =>
    rw [show stop + 1 - n = 0 by omega]
    rfl

theorem dotted_inj {m n : Nat} (hm : m < 2 ^ 32) (hn : n < 2 ^ 32) (h : dotted m = dotted n) : m = n := by
  have hread := ipv4ToInt_intToIpv4 (UInt32.ofNat m)
  have hread' := ipv4ToInt_intToIpv4 (UInt32.ofNat n)
  rw [UInt32.toNat_ofNat', mod_eq_of_lt hm, intToIpv4_eq hm] at hread
  rw [UInt32.toNat_ofNat', mod_eq_of_lt hn, intToIpv4_eq hn, ← h, hread, some.injEq] at hread'
  have hsame := congrArg UInt32.toNat hread'
  rwa [UInt32.toNat_ofNat', UInt32.toNat_ofNat', mod_eq_of_lt hm, mod_eq_of_lt hn] at hsame

/-- A sweep goes through the addresses between two bounds in order, without the reserved ones. -/
theorem rangeAddresses_eq (r : ProbeRange) : ∃ ns : List Nat, rangeAddresses r = ns.map dotted ∧ ns.Pairwise (· < ·) ∧
      (∀ n, n ∈ ns ↔ (r.start.toNat ≤ n ∧ n ≤ r.stop.toNat) ∧ ¬ Reserved n) ∧
        ns.length ≤ r.stop.toNat - r.start.toNat + 1 := by
  have hlt {n : Nat} (h : n ≤ r.stop.toNat) : n < 2 ^ 32 := lt_of_le_of_lt h r.stop.toNat_lt
  have hbound {n : Nat} (h : n ∈ range' r.start.toNat (r.stop.toNat + 1 - r.start.toNat)) :
      n ≤ r.stop.toNat := by
    have := mem_range'_1.mp h
    omega
  refine ⟨(range' r.start.toNat (r.stop.toNat + 1 - r.start.toNat)).filter fun n => !isSkippableAddress n,
    ?_, ?_, fun n => ?_, ?_⟩
  · rw [rangeAddresses, addressesFrom_eq]
    exact map_congr_left fun n hn => intToIpv4_eq (hlt (hbound (mem_of_mem_filter hn)))
  · have hsorted : (range' r.start.toNat (r.stop.toNat + 1 - r.start.toNat)).Pairwise (· < ·) := pairwise_lt_range'
    exact hsorted.filter _
  · rw [mem_filter, mem_range'_1]
    constructor
    · rintro ⟨hn, hskip⟩
      have hle : n ≤ r.stop.toNat := by omega
      rw [Bool.not_eq_true', ← Bool.not_eq_true, isSkippableAddress_iff (hlt hle)] at hskip
      exact ⟨⟨hn.1, hle⟩, hskip⟩
    · rintro ⟨⟨hge, hle⟩, hreserved⟩
      rw [Bool.not_eq_true', ← Bool.not_eq_true, isSkippableAddress_iff (hlt hle)]
      exact ⟨⟨hge, by omega⟩, hreserved⟩
  · have hle := length_filter_le (fun n => !isSkippableAddress n)
      (range' r.start.toNat (r.stop.toNat + 1 - r.start.toNat))
    rw [length_range'] at hle
    omega

/-! ## Reading a stored entry again -/

section Again

variable {c : Conversions}

structure IsPorts (ports : List Nat) : Prop where
  ne_nil : ports ≠ []
  nodup : ports.Nodup
  length : ports.length ≤ PROBE_RANGE_MAX_PORTS
  range : ∀ p ∈ ports, 1 ≤ p ∧ p ≤ 65535

theorem isPorts_of_collectPorts {ps : List Json} {out ports : List Nat} (hnodup : out.Nodup)
    (hlength : out.length ≤ PROBE_RANGE_MAX_PORTS) (hrange : ∀ p ∈ out, 1 ≤ p ∧ p ≤ 65535)
    (h : collectPorts c ps out = .ok (some ports)) : IsPorts ports := by
  induction ps generalizing out with
  | nil =>
    rw [collectPorts] at h
    split at h
    · rename_i hpos
      obtain rfl := some.inj (ok.inj h)
      exact ⟨ne_nil_of_length_pos hpos, hnodup, hlength, hrange⟩
    · cases ok.inj h
  | cons p ps ih =>
    rw [collectPorts] at h
    split at h
    · cases h
    · cases ok.inj h
    rename_i port hport
    split at h
    · cases ok.inj h
    rename_i hbounds
    split at h
    · exact ih hnodup hlength hrange h
    rename_i hnew
    split at h
    · cases ok.inj h
    rename_i hroom
    simp only [Bool.or_eq_true, decide_eq_true_eq] at hbounds
    have hnodup' : (out ++ [port.toNat]).Nodup := by
      simpa using hnodup.concat (a := port.toNat) (by simpa using hnew)
    refine ih hnodup' ?_ ?_ h
    · rw [length_append, length_singleton]
      omega
    · intro q hq
      rcases mem_append.mp hq with hq | hq
      · exact hrange q hq
      · obtain rfl := mem_singleton.mp hq
        omega

/-- Ports that are numbers already are kept as they are. -/
theorem collectPorts_nat {ports : List Nat} (out : List Nat) (h : IsPorts (out ++ ports)) :
    collectPorts c (ports.map nat) out = .ok (some (out ++ ports)) := by
  induction ports generalizing out with
  | nil =>
    have hpos : 0 < out.length := length_pos_iff.mpr (by simpa using h.ne_nil)
    simp [collectPorts, hpos]
  | cons p ps ih =>
    have hp := h.range p (by simp)
    have hlength := h.length
    have hnew : p ∉ out := fun hmem => (nodup_append.mp h.nodup).2.2 p hmem p mem_cons_self rfl
    have hnum : c.number (nat p) = .ok (some p) := c.number_nat p (by omega)
    have hroom : ¬ PROBE_RANGE_MAX_PORTS ≤ out.length := by
      rw [length_append, length_cons] at hlength
      omega
    have hassoc : out ++ p :: ps = out ++ [p] ++ ps := by simp
    rw [map_cons, collectPorts, hnum, hassoc]
    simp only
    rw [if_neg (by simp; omega), if_neg (by simpa using hnew), if_neg hroom]
    exact ih _ (hassoc ▸ h)

structure IsName (s : Str) : Prop where
  sni : isSni s = true
  length : s.length ≤ 253
  small : ∀ u ∈ s, ¬ (0x41 ≤ u ∧ u ≤ 0x5A)

theorem isName_of_parseSni {raw : Option Json} {s : Str} (h : parseSni c raw = .ok (some s)) : IsName s := by
  unfold parseSni at h
  split at h
  · cases ok.inj h
  · cases ok.inj h
  · cases ok.inj h
  · split at h
    · cases h
    dsimp only at h
    split at h
    · cases ok.inj h
    rename_i hsni
    obtain rfl := some.inj (ok.inj h)
    simp only [Bool.or_eq_true, decide_eq_true_eq, not_or, not_lt, Bool.not_eq_true', Bool.not_eq_false] at hsni
    exact ⟨hsni.2, hsni.1, c.lower_capital _⟩

theorem IsName.unit {s : Str} (h : IsName s) {u : UInt16} (hu : u ∈ s) : isAlnum u ∨ u = dash ∨ u = point := by
  have hsni := h.sni
  have hjoin : [point].intercalate (s.splitOn point) = s := intercalate_splitOn point
  simp only [isSni, Bool.and_eq_true, List.all_eq_true] at hsni
  rw [← hjoin] at hu
  rcases LineEdits.mem_intercalate hu with heq | ⟨label, hlabel, hu⟩
  · exact .inr (.inr heq)
  · have hall := hsni.2 label hlabel
    simp only [isLabel, Bool.and_eq_true, List.all_eq_true, Bool.or_eq_true, decide_eq_true_eq] at hall
    exact (hall.1.2 u hu).imp_right .inl

theorem parseSni_name {s : Str} (h : IsName s) : parseSni c (some (.str s)) = .ok (some s) := by
  have hne : s ≠ [] := by
    rintro rfl
    exact absurd h.sni (by decide)
  have hunit {u : UInt16} (hu : u ∈ s) : u < 0x80 ∧ Ipc.isSpace u = false := by
    have hrange : 0x2D ≤ u ∧ u ≤ 0x7A := by
      have := h.unit hu
      simp only [isAlnum, isDigit, dash, point] at this
      grind
    exact ⟨UInt16.lt_of_le_of_lt hrange.2 (by decide), Ipc.isSpace_of_range hrange.1 hrange.2⟩
  have hlower : c.lower (Ipc.trim s) = s := by
    rw [Ipc.trim_of_forall fun u hu => (hunit hu).2]
    exact c.lower_small s fun u hu => ⟨(hunit hu).1, h.small u hu⟩
  obtain ⟨u, rest, rfl⟩ := exists_cons_of_ne_nil hne
  simp only [parseSni, c.text_str, hlower]
  rw [if_neg]
  simp only [h.sni, not_lt.mpr h.length, decide_false, Bool.not_true, Bool.or_false, Bool.false_eq_true,
    not_false_eq_true]

@[simp] theorem field_range (r : ProbeRange) : (probeRangeEntry r).field (Utf16.text "range") = some (.str r.raw) := by
  cases hsni : r.sni <;> simp only [probeRangeEntry, hsni] <;> rfl

@[simp] theorem field_ports (r : ProbeRange) :
    (probeRangeEntry r).field (Utf16.text "ports") = some (.arr (r.ports.map nat)) := by
  cases hsni : r.sni <;> simp only [probeRangeEntry, hsni] <;> rfl

@[simp] theorem field_sni (r : ProbeRange) : (probeRangeEntry r).field (Utf16.text "sni") = r.sni.map .str := by
  cases hsni : r.sni <;> simp only [probeRangeEntry, hsni] <;> rfl

structure Accepted (raw : Json) (r : ProbeRange) : Prop where
  raw_eq : r.raw = rangeText raw
  trim_raw : Ipc.trim r.raw = r.raw
  bounds : parseRangeBounds r.raw = some (r.start, r.stop)
  ports : IsPorts r.ports
  sni : ∀ s ∈ r.sni, IsName s

theorem accepted_of_parseProbeRange {raw : Json} {r : ProbeRange} (h : parseProbeRange c raw = .ok (some r)) :
    Accepted raw r := by
  unfold parseProbeRange at h
  split at h
  · rename_i ms
    split at h
    · cases ok.inj h
    rename_i start stop hbounds
    split at h
    · cases ok.inj h
    split at h
    · cases h
    · cases ok.inj h
    rename_i ports hports
    split at h
    · cases h
    rename_i sni hsni
    obtain rfl := some.inj (ok.inj h)
    have htrim : Ipc.trim (rangeText (.obj ms)) = rangeText (.obj ms) := by
      rw [rangeText]
      split
      · exact Ipc.trim_trim _
      · rfl
    refine ⟨rfl, htrim, hbounds, ?_, fun s hs => ?_⟩
    · simp only [parsePorts] at hports
      split at hports
      · split at hports
        · cases ok.inj hports
        · exact isPorts_of_collectPorts nodup_nil (zero_le _) (by simp) hports
      · cases ok.inj hports
    · exact isName_of_parseSni (hsni.trans (congrArg _ hs))
  · cases ok.inj h

theorem Accepted.parse_entry {raw : Json} {r : ProbeRange} (h : Accepted raw r) :
    parseProbeRange c (probeRangeEntry r) = .ok (some r) := by
  have hobj : ∃ ms, probeRangeEntry r = .obj ms := ⟨_, rfl⟩
  obtain ⟨ms, hms⟩ := hobj
  have hrange : rangeText (probeRangeEntry r) = r.raw := by
    rw [rangeText, field_range]
    exact h.trim_raw
  have hports : parsePorts c ((probeRangeEntry r).field (Utf16.text "ports")) = .ok (some r.ports) := by
    have hne : (r.ports.map nat).isEmpty = false := by simpa using h.ports.ne_nil
    rw [field_ports, parsePorts, hne]
    exact collectPorts_nat [] h.ports
  have hsni : parseSni c ((probeRangeEntry r).field (Utf16.text "sni")) = .ok r.sni := by
    rw [field_sni]
    cases hs : r.sni with
    | none => rfl
    | some s => exact parseSni_name (h.sni s hs)
  have hcount := (denotes_of_parseRangeBounds h.bounds).1
  rw [hms] at hrange hports hsni ⊢
  rw [parseProbeRange, hrange, h.bounds]
  simp only [hports, hsni]
  rw [if_neg (not_lt.mpr hcount)]

/-- An accepted entry sweeps the addresses it is written for, but for the reserved ones, each once and in order, and
the entry that is stored for it is accepted with the same result. -/
theorem sweep_exact {raw : Json} {r : ProbeRange} (h : parseProbeRange c raw = .ok (some r)) :
    (∃ addresses, Denotes (rangeText raw) addresses ∧ ∃ ns : List Nat, rangeAddresses r = ns.map dotted ∧
        ns.Pairwise (· < ·) ∧ (∀ n, n ∈ ns ↔ n ∈ addresses ∧ ¬ Reserved n) ∧ ns.length ≤ PROBE_RANGE_MAX_ADDRESSES) ∧
      (rangeAddresses r).Nodup ∧ (∀ n : UInt32, ipv4ToInt (intToIpv4 n.toNat) = some n) ∧
        parseProbeRange c (probeRangeEntry r) = .ok (some r) := by
  have haccepted := accepted_of_parseProbeRange h
  obtain ⟨hcount, hdenotes⟩ := denotes_of_parseRangeBounds haccepted.bounds
  obtain ⟨ns, hns, hsorted, hmem, hlength⟩ := rangeAddresses_eq r
  rw [haccepted.trim_raw, haccepted.raw_eq] at hdenotes
  refine ⟨⟨_, hdenotes, ns, hns, hsorted, hmem, hlength.trans hcount⟩, ?_, ipv4ToInt_intToIpv4, haccepted.parse_entry⟩
  have hlt {n : Nat} (hn : n ∈ ns) : n < 2 ^ 32 := lt_of_le_of_lt ((hmem n).mp hn).1.2 r.stop.toNat_lt
  rw [hns]
  exact Nodup.map_on (fun m hm n hn => dotted_inj (hlt hm) (hlt hn)) (hsorted.imp ne_of_lt)

/-- Each stored entry is that of an accepted range. -/
theorem storeRanges_eq {raws out stored : List Json} {seen : List Str} {rs : List ProbeRange}
    (hrs : ∀ r ∈ rs, ∃ raw, Accepted raw r) (hout : out = rs.map probeRangeEntry)
    (hseen : ∀ r ∈ rs, probeRangeKey r ∈ seen) (hnodup : (rs.map probeRangeKey).Nodup)
    (hlength : rs.length ≤ PROBE_RANGES_MAX) (h : storeRanges c raws out seen = .ok stored) :
    ∃ rs : List ProbeRange, stored = rs.map probeRangeEntry ∧ (∀ r ∈ rs, ∃ raw, Accepted raw r) ∧
      (rs.map probeRangeKey).Nodup ∧ rs.length ≤ PROBE_RANGES_MAX := by
  induction raws generalizing out seen rs with
  | nil => exact ⟨rs, (ok.inj h).symm.trans hout, hrs, hnodup, hlength⟩
  | cons raw raws ih =>
    rw [storeRanges] at h
    split at h
    · exact ⟨rs, (ok.inj h).symm.trans hout, hrs, hnodup, hlength⟩
    rename_i hroom
    split at h
    · cases h
    · exact ih hrs hout hseen hnodup hlength h
    rename_i r hr
    split at h
    · exact ih hrs hout hseen hnodup hlength h
    rename_i hnew
    have hfresh : probeRangeKey r ∉ rs.map probeRangeKey := fun hmem => by
      obtain ⟨r', hr', heq⟩ := mem_map.mp hmem
      exact hnew (contains_iff_mem.mpr (heq ▸ hseen r' hr'))
    have hout' : out ++ [probeRangeEntry r] = (rs ++ [r]).map probeRangeEntry := by simp [hout]
    refine ih (fun r' hr' => ?_) hout' (fun r' hr' => ?_) ?_ ?_ h
    · rcases mem_append.mp hr' with hr' | hr'
      · exact hrs r' hr'
      · exact ⟨raw, mem_singleton.mp hr' ▸ accepted_of_parseProbeRange hr⟩
    · rcases mem_append.mp hr' with hr' | hr'
      · exact mem_cons_of_mem _ (hseen r' hr')
      · exact mem_singleton.mp hr' ▸ mem_cons_self
    · simpa using hnodup.concat hfresh
    · rw [hout, length_map] at hroom
      rw [length_append, length_singleton]
      omega

/-- The collector accepts every entry that the policy stores, and reads from it what the policy read. -/
theorem getCdpProbeRanges_sanitize {input : Json} {stored : List Json}
    (h : sanitizeProbeRanges c input = .ok stored) :
    ∃ rs : List ProbeRange, stored = rs.map probeRangeEntry ∧ getCdpProbeRanges c stored = .ok rs ∧
      (rs.map probeRangeKey).Nodup ∧ rs.length ≤ PROBE_RANGES_MAX := by
  obtain ⟨rs, rfl, hrs, hnodup, hlength⟩ : ∃ rs : List ProbeRange, stored = rs.map probeRangeEntry ∧
      (∀ r ∈ rs, ∃ raw, Accepted raw r) ∧ (rs.map probeRangeKey).Nodup ∧ rs.length ≤ PROBE_RANGES_MAX := by
    unfold sanitizeProbeRanges at h
    split at h
    · have hnone : ∀ r ∈ ([] : List ProbeRange), ∃ raw, Accepted raw r := by simp
      exact storeRanges_eq hnone rfl (by simp) List.nodup_nil (Nat.zero_le _) h
    · exact ⟨[], (ok.inj h).symm, by simp, nodup_nil, zero_le _⟩
  refine ⟨rs, rfl, ?_, hnodup, hlength⟩
  have hread : (rs.map probeRangeEntry).mapM (parseProbeRange c) = .ok (rs.map some) := by
    clear hnodup hlength h
    induction rs with
    | nil => rfl
    | cons r rs ih =>
      obtain ⟨raw, hr⟩ := hrs r mem_cons_self
      rw [map_cons, mapM_cons, hr.parse_entry, ih fun r hr => hrs r (mem_cons_of_mem _ hr)]
      rfl
  rw [getCdpProbeRanges, hread]
  simp [Except.map]

end Again

/-! ## An entry -/

/-- Numbers that are written with digits only, and texts in ASCII. -/
def asciiConversions : Conversions where
  number
    | .num n => .ok (if n.text.all isDigit then some (worth n.text) else none)
    | _ => .ok none
  text
    | .str s => .ok s
    | _ => .error ()
  lower s := s.map fun u => if 0x41 ≤ u ∧ u ≤ 0x5A then u + 0x20 else u
  number_nat n _ := by
    have hdigits : (decimal n).all isDigit = true := all_eq_true.mpr (isDigit_decimal n)
    simp [nat, hdigits]
  text_str _ := rfl
  lower_capital s u hu := by
    obtain ⟨v, -, rfl⟩ := mem_map.mp hu
    split
    · grind
    · assumption
  lower_small s hs := by
    rw [List.map_congr_left (fun u hu => if_neg (hs u hu).2), List.map_id']

/-- The last addresses that are no multicast ones, and those around them. -/
def edgeEntry : Json :=
  .obj [(text "range", .str (text " 223.255.255.254 - 224.0.0.1")), (text "ports", .arr [nat 443, nat 8443, nat 443]),
    (text "sni", .str (text "VIP.example"))]

def edgeRange : ProbeRange :=
  ⟨text "223.255.255.254 - 224.0.0.1", 3758096382, 3758096385, [443, 8443], some (text "vip.example")⟩

theorem sweep_exact_edge :
    (∃ addresses, Denotes (rangeText edgeEntry) addresses ∧ ∃ ns : List Nat, rangeAddresses edgeRange = ns.map dotted ∧
        ns.Pairwise (· < ·) ∧ (∀ n, n ∈ ns ↔ n ∈ addresses ∧ ¬ Reserved n) ∧ ns.length ≤ PROBE_RANGE_MAX_ADDRESSES) ∧
      (rangeAddresses edgeRange).Nodup ∧ (∀ n : UInt32, ipv4ToInt (intToIpv4 n.toNat) = some n) ∧
        parseProbeRange asciiConversions (probeRangeEntry edgeRange) = .ok (some edgeRange) :=
  have hparse : parseProbeRange asciiConversions edgeEntry = .ok (some edgeRange) := by decide +kernel
  sweep_exact hparse

end Cdp
