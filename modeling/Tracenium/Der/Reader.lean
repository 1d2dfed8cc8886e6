-- SUMMARY: The DER writer and reader of the privileged services, and when the children of a value lie in it.
import Tracenium.Lib.ByteNumerals
import Mathlib.Data.List.Chain

/-!
`privsvc/shared/der.ts`. A buffer is its bytes, and an offset is an integer: the reader puts a length together with
shifts of 32 bits and a sign, so that what comes after a value may lie before its content. The writer takes a length
modulo `2 ^ 32`.
-/

open BigEndian List UInt8 Option Nat

namespace Der

def DER_SEQUENCE : UInt8 := 0x30

/-! ## Writing -/

/-- `v >>>= 8` reads `v` as 32 bits. -/
def lengthBytes (v : Nat) : List UInt8 :=
  if v = 0 then [] else lengthBytes (v % 2 ^ 32 / 256) ++ [ofNat v]
termination_by v
decreasing_by omega

/-- `none` where it throws. -/
def encodeLength (n : Nat) : Option (List UInt8) :=
  if n < 0x80 then some [ofNat n]
  else
    let bytes := lengthBytes n
    if 4 < bytes.length then none else some ((0x80 ||| ofNat bytes.length) :: bytes)

def tlv (tag : UInt8) (content : List UInt8) : Option (List UInt8) :=
  (encodeLength content.length).map fun length => tag :: length ++ content

def seq (parts : List (List UInt8)) : Option (List UInt8) := tlv DER_SEQUENCE parts.flatten

/-! ## Reading -/

/-- `offset` is that of the tag, `start` that of the content, and `end'` that of what comes after it. -/
structure Tlv where
  tag : UInt8
  (offset start length end' : Int)
  deriving DecidableEq

/-- Tags of more than one byte are not read. -/
def isMultiByte (tag : UInt8) : Bool := tag &&& 0x1F = 0x1F

/-- `length = (length << 8) | byte`, byte by byte. -/
def shiftLength (bytes : List UInt8) : BitVec 32 :=
  bytes.foldl (fun length b => length <<< 8 ||| b.toBitVec.setWidth 32) 0

/-- The offset of the content, and its length. -/
def readLength (buf : List UInt8) (offset : Nat) (first : UInt8) : Option (Int × Int) :=
  if first < 0x80 then some (offset + 2, first.toNat)
  else
    let n := (first &&& 0x7F).toNat
    if n = 0 ∨ 4 < n then none
    else if buf.length < offset + 2 + n then none
    else some (offset + 2 + n, (shiftLength ((buf.drop (offset + 2)).take n)).toInt)

def readTlv (buf : List UInt8) (offset : Int) : Option Tlv :=
  if offset < 0 ∨ buf.length < offset + 2 then none
  else
    let tag := buf.getD offset.toNat 0
    if isMultiByte tag then none
    else
      match readLength buf offset.toNat (buf.getD (offset.toNat + 1) 0) with
      | none => none
      | some (start, length) =>
        if buf.length < start + length then none else some ⟨tag, offset, start, length, start + length⟩

/-- The loop of `children`, for so many rounds. -/
def childrenFrom (buf : List UInt8) (stop : Int) : Nat → Int → Option (List Tlv)
  | 0, _ => none
  | fuel + 1, p =>
    if p < stop then
      match readTlv buf p with
      | none => some []
      | some t => (childrenFrom buf stop fuel t.end').map (t :: ·)
    else some []

def children (fuel : Nat) (buf : List UInt8) (parent : Tlv) : Option (List Tlv) :=
  childrenFrom buf parent.end' fuel parent.start

/-- An index of `subarray`: from the end where it is negative, and inside the buffer. -/
def clamp (length : Nat) (i : Int) : Nat := (if i < 0 then max 0 (length + i) else min i length).toNat

def subarray (buf : List UInt8) (start stop : Int) : List UInt8 :=
  (buf.drop (clamp buf.length start)).take (clamp buf.length stop - clamp buf.length start)

def contentOf (buf : List UInt8) (t : Tlv) : List UInt8 := subarray buf t.start t.end'

def rawOf (buf : List UInt8) (t : Tlv) : List UInt8 := subarray buf t.offset t.end'

/-! ## Lengths -/

theorem lengthBytes_zero : lengthBytes 0 = [] := by
  unfold lengthBytes
  simp

theorem lengthBytes_of_ne {v : Nat} (h : v ≠ 0) : lengthBytes v = lengthBytes (v % 2 ^ 32 / 256) ++ [ofNat v] := by
  rw [lengthBytes]
  simp [h]

/-- A length of more than 32 bits loses the others. -/
theorem value_lengthBytes (v : Nat) : value (lengthBytes v) = v % 2 ^ 32 := by
  induction v using Nat.strongRecOn with
  | ind v ih =>
    by_cases hv : v = 0
    · simp [hv, lengthBytes_zero]
    · rw [lengthBytes_of_ne hv, value_append_singleton, ih _ (by omega), toNat_ofNat']
      omega

theorem length_lengthBytes_le {v k : Nat} (h : v < 256 ^ k) : (lengthBytes v).length ≤ k := by
  induction k generalizing v with
  | zero => simp [show v = 0 by simpa using h, lengthBytes_zero]
  | succ k ih =>
    by_cases hv : v = 0
    · simp [hv, lengthBytes_zero]
    · have hless : v % 2 ^ 32 / 256 < 256 ^ k := by
        omega
      simpa [lengthBytes_of_ne hv] using ih hless

theorem lengthBytes_ne_nil {v : Nat} (h : v ≠ 0) : lengthBytes v ≠ [] := by
  simp [lengthBytes_of_ne h]

/-- The writer never throws: what it takes the length of has four bytes at most. -/
theorem length_lengthBytes_le_four (v : Nat) : (lengthBytes v).length ≤ 4 := by
  by_cases hv : v = 0
  · simp [hv, lengthBytes_zero]
  · have hless : (lengthBytes (v % 2 ^ 32 / 256)).length ≤ 3 := length_lengthBytes_le (by omega)
    rw [lengthBytes_of_ne hv, length_append, length_singleton]
    omega

theorem encodeLength_of_lt {n : Nat} (h : n < 0x80) : encodeLength n = some [ofNat n] := by
  simp [encodeLength, h]

theorem encodeLength_of_le {n : Nat} (h : 0x80 ≤ n) :
    encodeLength n = some ((0x80 ||| ofNat (lengthBytes n).length) :: lengthBytes n) := by
  simp [encodeLength, not_lt.mpr h, length_lengthBytes_le_four]

/-- Bytes that do not begin with zero are those of their value. -/
theorem lengthBytes_value {bytes : List UInt8} (hmin : IsMinimal bytes) (hlen : bytes.length ≤ 4) :
    lengthBytes (value bytes) = bytes := by
  induction bytes using reverseRecOn with
  | nil => simp [lengthBytes_zero]
  | append_singleton bytes b ih =>
    have hb : b.toNat < 256 := b.toNat_lt
    have hpos : value (bytes ++ [b]) ≠ 0 := pos_iff_ne_zero.mp (hmin.value_pos (by simp))
    have hlt : value (bytes ++ [b]) < 2 ^ 32 :=
      (value_lt _).trans_le (Nat.pow_le_pow_right (by decide) hlen : _ ≤ 256 ^ 4)
    have hrest : value (bytes ++ [b]) % 2 ^ 32 / 256 = value bytes := by
      rw [mod_eq_of_lt hlt, value_append_singleton]
      omega
    have hlast : ofNat (value (bytes ++ [b])) = b := by
      apply UInt8.toNat_inj.mp
      rw [UInt8.toNat_ofNat', value_append_singleton]
      omega
    rw [lengthBytes_of_ne hpos, hrest, hlast, ih hmin.of_append (by simp at hlen; omega)]

theorem shiftLength_eq (bytes : List UInt8) : shiftLength bytes = BitVec.ofNat 32 (value bytes) := by
  induction bytes using reverseRecOn with
  | nil => rfl
  | append_singleton bytes b ih =>
    have hstep : shiftLength (bytes ++ [b]) = shiftLength bytes <<< 8 ||| b.toBitVec.setWidth 32 := by
      simp [shiftLength]
    rw [hstep, ih, shiftLeft_or_ofNat, value_append_singleton]

/-! ## Headers -/

/-- What the header at `p` announces: where the content starts, and its length without a sign. -/
def announced (buf : List UInt8) (p : Nat) : Option (Nat × Nat) :=
  match buf.drop p with
  | tag :: first :: rest =>
    if isMultiByte tag then none
    else if first < 0x80 then some (p + 2, first.toNat)
    else
      let n := (first &&& 0x7F).toNat
      if n = 0 ∨ 4 < n ∨ rest.length < n then none else some (p + 2 + n, value (rest.take n))
  | _ => none

theorem getD_of_drop {buf rest : List UInt8} {p : Nat} {b : UInt8} (h : buf.drop p = b :: rest) : buf.getD p 0 = b := by
  have hget : buf[p]? = (buf.drop p)[0]? := by simp
  simp [hget, h]

theorem length_of_drop {buf tail : List UInt8} {p : Nat} (h : buf.drop p = tail) (hne : tail ≠ []) :
    buf.length = p + tail.length := by
  have hlen := congrArg length h
  have hpos := length_pos_iff.mpr hne
  simp only [length_drop] at hlen
  omega

theorem readLength_eq {buf rest : List UInt8} {p : Nat} {tag first : UInt8} (hdrop : buf.drop p = tag :: first :: rest)
    (htag : isMultiByte tag = false) :
    readLength buf p first = (announced buf p).map fun header => ((header.1 : Int), signed header.2) := by
  have hlen := length_of_drop hdrop (by simp)
  simp only [length_cons] at hlen
  have hrest : buf.drop (p + 2) = rest := by rw [← drop_drop, hdrop]; rfl
  unfold readLength announced
  simp only [hdrop, htag, hrest, shiftLength_eq]
  split
  · have hsmall : signed first.toNat = first.toNat := signed_of_lt (first.toNat_lt.trans (by decide))
    simp [hsmall]
  · have hcut : buf.length < p + 2 + (first &&& 0x7F).toNat ↔ rest.length < (first &&& 0x7F).toNat := by omega
    split_ifs <;> first | rfl | (exfalso; omega)

/-- The reader takes what a header announces, its length as a number with a sign. -/
theorem readTlv_natCast (buf : List UInt8) (p : Nat) : readTlv buf p = (announced buf p).bind fun header =>
      if (buf.length : Int) < header.1 + signed header.2 then none
      else some ⟨buf.getD p 0, p, header.1, signed header.2, header.1 + signed header.2⟩ := by
  unfold readTlv
  match h : buf.drop p with
  | tag :: first :: rest =>
    have hlen := length_of_drop h (by simp)
    simp only [length_cons] at hlen
    have hlong : ¬((p : Int) < 0 ∨ (buf.length : Int) < p + 2) := by omega
    have hfirst : buf.getD (p + 1) 0 = first := getD_of_drop (p := p + 1) (by rw [← drop_drop, h]; rfl)
    rw [if_neg hlong]
    simp only [Int.toNat_natCast, getD_of_drop h, hfirst]
    cases htag : isMultiByte tag with
    | true => simp [announced, h, htag]
    | false =>
      simp only [readLength_eq h htag]
      cases announced buf p <;> rfl
  | [_] | [] =>
    have hshort : (buf.length : Int) < p + 2 := by
      have := congrArg length h
      simp only [length_drop, length_cons, length_nil] at this
      omega
    simp [announced, h, hshort]

/-- What the reader takes was announced. -/
theorem exists_announced {buf : List UInt8} {p : Nat} {t : Tlv} (h : readTlv buf p = some t) :
    ∃ start n, announced buf p = some (start, n) ∧ (start : Int) + signed n ≤ buf.length ∧
      t = ⟨buf.getD p 0, p, start, signed n, start + signed n⟩ := by
  cases hheader : announced buf p with
  | none => simp [readTlv_natCast, hheader] at h
  | some header =>
    simp only [readTlv_natCast, hheader, bind_some, ite_none_left_eq_some, some.injEq, not_lt] at h
    exact ⟨header.1, header.2, rfl, h.1, h.2.symm⟩

theorem readTlv_of_neg {buf : List UInt8} {offset : Int} (h : offset < 0) : readTlv buf offset = none := by
  simp [readTlv, h]

/-- A header lies in the buffer, and its length has 32 bits. -/
theorem announced_bounds {buf : List UInt8} {p start n : Nat} (h : announced buf p = some (start, n)) :
    p + 2 ≤ start ∧ start ≤ p + 6 ∧ start ≤ buf.length ∧ n < 2 ^ 32 := by
  unfold announced at h
  split at h
  · rename_i tag first rest hdrop
    have hlen := length_of_drop hdrop (by simp)
    simp only [length_cons] at hlen
    dsimp only at h
    split_ifs at h with hmulti hshort hwidth
    · cases h
      have := first.toNat_lt
      omega
    · cases h
      have hvalue : value (rest.take (first &&& 0x7F).toNat) < 256 ^ 4 := by
        refine (value_lt _).trans_le (Nat.pow_le_pow_right (by decide) ?_)
        simp only [List.length_take]
        omega
      omega
  · cases h

end Der

/-!
# The children of a value

The loop of `children` goes to the end of each child. A length from `2 ^ 31` on is read as a negative number, so that
a child may end where it begins. The end of the parent is not looked at once a child has begun.
-/

namespace Der

section Spec

variable (buf : List UInt8)

structure Tlv.IsPlaced (t : Tlv) : Prop where
  offset : 0 ≤ t.offset
  header : t.offset < t.start
  content : t.start ≤ t.end'
  buffer : t.end' ≤ buf.length
  length : t.start + t.length = t.end'

/-- Values one after the other between two offsets. -/
structure Row (start stop : Int) (cs : List Tlv) : Prop where
  placed : ∀ c ∈ cs, c.IsPlaced buf
  first : ∀ c ∈ cs.head?, c.offset = start
  consecutive : cs.IsChain fun a b => b.offset = a.end'
  disjoint : cs.Pairwise fun a b => a.end' ≤ b.offset
  inside : ∀ c ∈ cs, start ≤ c.offset ∧ c.end' ≤ stop

/-- What is read at `offset` lies in the buffer, and the loop over its children ends with values that lie in it. -/
def Safe (offset : Int) : Prop :=
  ∀ t, readTlv buf offset = some t → t.offset = offset ∧ t.IsPlaced buf ∧
    ∃ fuel cs, children fuel buf t = some cs ∧ Row buf t.start t.end' cs

/-- From `p` on, each header announces less than `2 ^ 31` bytes, which end before `stop`, or after the buffer. -/
inductive Enclosed (stop : Nat) : Nat → Prop
  | passed {p : Nat} (h : stop ≤ p) : Enclosed stop p
  | unread {p : Nat} (h : ∀ start n, announced buf p = some (start, n) → n < 2 ^ 31 ∧ buf.length < start + n) :
      Enclosed stop p
  | value {p start n : Nat} (h : announced buf p = some (start, n)) (hsize : n < 2 ^ 31) (hstop : start + n ≤ stop)
      (hrest : Enclosed stop (start + n)) : Enclosed stop p

/-- The header at `offset` announces less than `2 ^ 31` bytes, and the values in them are enclosed. -/
def Regular (offset : Int) : Prop :=
  ∀ p start n : Nat, offset = p → announced buf p = some (start, n) →
    n < 2 ^ 31 ∧ (start + n ≤ buf.length → Enclosed buf (start + n) start)

end Spec

variable {buf : List UInt8}

/-! ## One value -/

/-- Below `2 ^ 31` bytes the reader takes what lies in the buffer. -/
theorem readTlv_of_announced {p start n : Nat} (h : announced buf p = some (start, n)) (hsize : n < 2 ^ 31) :
    readTlv buf p = if buf.length < start + n then none else some ⟨buf.getD p 0, p, start, n, start + n⟩ := by
  have hcast : (buf.length : Int) < start + n ↔ buf.length < start + n := by omega
  simp [readTlv_natCast, h, signed_of_lt hsize, hcast]

theorem isPlaced_of_announced {p start n : Nat} {tag : UInt8} (h : announced buf p = some (start, n))
    (hfits : start + n ≤ buf.length) : Tlv.IsPlaced buf ⟨tag, p, start, n, start + n⟩ := by
  obtain ⟨hheader, -⟩ := announced_bounds h
  constructor <;> dsimp only <;> omega

/-- From `2 ^ 31` bytes on, it takes a value that ends before its content. -/
theorem exists_readTlv_of_le {p start n : Nat} (h : announced buf p = some (start, n)) (hsize : 2 ^ 31 ≤ n) :
    ∃ t, readTlv buf p = some t ∧ t.end' < t.start := by
  obtain ⟨-, -, hstart, hn⟩ := announced_bounds h
  have hneg : signed n < 0 := by
    have := signed_nonneg_iff hn
    omega
  have hfits : ¬(buf.length : Int) < start + signed n := by omega
  exact ⟨_, by simp [readTlv_natCast, h, hfits]; rfl, by simpa using hneg⟩

theorem size_of_isPlaced {p start n : Nat} (h : announced buf p = some (start, n))
    (hplaced : ∀ t, readTlv buf p = some t → t.IsPlaced buf) : n < 2 ^ 31 := by
  by_contra hsize
  obtain ⟨t, ht, hend⟩ := exists_readTlv_of_le h (by omega)
  have := (hplaced t ht).content
  omega

/-! ## The loop -/

theorem Row.nil {start stop : Int} : Row buf start stop [] := by
  constructor <;> simp

theorem Row.cons {t : Tlv} {stop : Int} {cs : List Tlv} (hplaced : t.IsPlaced buf) (hstop : t.end' ≤ stop)
    (hrest : Row buf t.end' stop cs) : Row buf t.offset stop (t :: cs) where
  placed := by simpa using ⟨hplaced, hrest.placed⟩
  first := by simp
  consecutive := isChain_cons.mpr ⟨hrest.first, hrest.consecutive⟩
  disjoint := pairwise_cons.mpr ⟨fun c hc => (hrest.inside c hc).1, hrest.disjoint⟩
  inside := by
    have hforward : t.offset ≤ t.end' := hplaced.header.le.trans hplaced.content
    simp only [mem_cons, forall_eq_or_imp]
    exact ⟨⟨le_rfl, hstop⟩, fun c hc => ⟨hforward.trans (hrest.inside c hc).1, (hrest.inside c hc).2⟩⟩

/-- Over enclosed values the loop ends, with one value after the other. -/
theorem exists_childrenFrom {stop p : Nat} (h : Enclosed buf stop p) (hbuf : stop ≤ buf.length) :
    ∃ fuel cs, childrenFrom buf stop fuel p = some cs ∧ Row buf p stop cs := by
  induction h with
  | @passed p hpassed =>
    have hdone : ¬(p : Int) < stop := by omega
    exact ⟨1, [], by simp [childrenFrom, hdone], .nil⟩
  | @unread p hunread =>
    refine ⟨1, [], ?_, .nil⟩
    have hnone : readTlv buf p = none := by
      match hread : announced buf p with
      | none => simp [readTlv_natCast, hread]
      | some (start, n) =>
        obtain ⟨hsize, hbeyond⟩ := hunread start n hread
        simp [readTlv_of_announced hread hsize, hbeyond]
    simp [childrenFrom, hnone]
  | @value p start n hread hsize hstop _ ih =>
    obtain ⟨fuel, cs, hloop, hrow⟩ := ih
    have hfits : start + n ≤ buf.length := hstop.trans hbuf
    have hbegun : (p : Int) < stop := by
      have := (announced_bounds hread).1
      omega
    refine ⟨fuel + 1, ⟨buf.getD p 0, p, start, n, start + n⟩ :: cs, ?_,
      Row.cons (isPlaced_of_announced hread hfits) (by dsimp only; omega) ?_⟩
    · simpa [childrenFrom, hbegun, readTlv_of_announced hread hsize, not_lt.mpr hfits] using hloop
    · simpa using hrow

/-- Where the loop ends with values that lie between the offsets, the values are enclosed. -/
theorem enclosed_of_childrenFrom {fuel stop p : Nat} {cs : List Tlv} (h : childrenFrom buf stop fuel p = some cs)
    (hrow : ∀ c ∈ cs, c.IsPlaced buf ∧ c.end' ≤ stop) : Enclosed buf stop p := by
  induction fuel generalizing p cs with
  | zero => cases h
  | succ fuel ih =>
    by_cases hbegun : (p : Int) < stop
    · match hread : announced buf p with
      | none => exact .unread (by simp [hread])
      | some (start, n) =>
        by_cases hbeyond : n < 2 ^ 31 ∧ buf.length < start + n
        · exact .unread (by simpa [hread] using hbeyond)
        · have hsize : n < 2 ^ 31 := by
            refine size_of_isPlaced hread fun t ht => ?_
            simp only [childrenFrom, hbegun, if_true, ht, map_eq_some_iff] at h
            obtain ⟨rest, -, rfl⟩ := h
            exact (hrow t (by simp)).1
          have hfits : ¬buf.length < start + n := fun hlt => hbeyond ⟨hsize, hlt⟩
          simp only [childrenFrom, hbegun, if_true, readTlv_of_announced hread hsize, hfits, if_false,
            map_eq_some_iff] at h
          obtain ⟨rest, hrest, rfl⟩ := h
          have hstop : ((start : Int) + n) ≤ stop := (hrow _ mem_cons_self).2
          refine .value hread hsize (by omega) (ih (by exact_mod_cast hrest) fun c hc => hrow c (by simp [hc]))
    · exact .passed (by omega)

/-- A child that ends where it begins is read again and again. -/
theorem childrenFrom_of_stuck {t : Tlv} {p stop : Int} (h : readTlv buf p = some t) (hstuck : t.end' = p)
    (hbegun : p < stop) (fuel : Nat) : childrenFrom buf stop fuel p = none := by
  induction fuel with
  | zero => rfl
  | succ fuel ih => simp [childrenFrom, hbegun, h, hstuck, ih]

/-! ## Safety -/

/-- The reader and the loop over the children are safe exactly where headers announce less than `2 ^ 31` bytes and
children end before their parent. -/
theorem safe_iff_regular (buf : List UInt8) (offset : Int) : Safe buf offset ↔ Regular buf offset := by
  constructor
  · rintro hsafe p start n rfl hread
    have hsize : n < 2 ^ 31 := size_of_isPlaced hread fun t ht => (hsafe t ht).2.1
    refine ⟨hsize, fun hfits => ?_⟩
    obtain ⟨-, -, fuel, cs, hloop, hrow⟩ := hsafe _
      (by rw [readTlv_of_announced hread hsize, if_neg (not_lt.mpr hfits)])
    exact enclosed_of_childrenFrom (by exact_mod_cast hloop) fun c hc =>
      ⟨hrow.placed c hc, by exact_mod_cast (hrow.inside c hc).2⟩
  · intro hregular t ht
    match offset with
    | .negSucc k =>
      rw [readTlv_of_neg (Int.negSucc_lt_zero k)] at ht
      cases ht
    | .ofNat p =>
      obtain ⟨start, n, hread, hfits, rfl⟩ := exists_announced ht
      obtain ⟨hsize, henclosed⟩ := hregular p start n rfl hread
      rw [signed_of_lt hsize] at hfits ⊢
      obtain ⟨fuel, cs, hloop, hrow⟩ := exists_childrenFrom (henclosed (by omega)) (by omega)
      exact ⟨rfl, isPlaced_of_announced hread (by omega), fuel, cs, by exact_mod_cast hloop, by exact_mod_cast hrow⟩

def stuckChild : List UInt8 := [0x30, 0x06, 0x04, 0x84, 0xFF, 0xFF, 0xFF, 0xFA]

theorem not_safe_stuckChild : ¬∀ buf offset, Safe buf offset := by
  intro h
  obtain ⟨-, -, fuel, cs, hloop, -⟩ := h stuckChild 0 ⟨0x30, 0, 2, 6, 8⟩ (by decide)
  have hread : readTlv stuckChild 2 = some ⟨0x04, 2, 8, -6, 2⟩ := by decide
  have hnone := childrenFrom_of_stuck hread rfl (by decide : (2 : Int) < 8) fuel
  cases hnone.symm.trans hloop

end Der
