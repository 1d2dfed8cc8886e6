-- SUMMARY: The bytes of a value as a word, rows of values as texts of words, and values as the writer writes them.
import Tracenium.Der.Canonical
import Tracenium.Lib.PrefixCodes

/-! A value that does not end before its content is its bytes, and no such word begins another one. -/

open BigEndian PrefixCodes List Option

namespace Der

/-- The value does not end before its content. -/
def Tlv.IsForward (t : Tlv) : Prop := t.start ≤ t.end'

/-- The bytes of a value with this content. -/
def Spelled (e content : List UInt8) : Prop :=
  ∃ tag first bytes, e = tag :: first :: (bytes ++ content) ∧ isMultiByte tag = false ∧
    Spells first bytes content.length ∧ content.length < 2 ^ 31

def IsWord (e : List UInt8) : Prop := ∃ content, Spelled e content

/-! ## One word -/

section Word

variable {buf e rest : List UInt8} {p : Nat} {t : Tlv}

theorem IsWord.ne_nil (h : IsWord e) : e ≠ [] := by
  obtain ⟨content, tag, first, bytes, rfl, -⟩ := h
  exact cons_ne_nil _ _

/-- The first byte tells how many bytes spell the length. -/
theorem Spells.length_eq {first : UInt8} {bytes bytes' : List UInt8} {n n' : Nat} (h : Spells first bytes n)
    (h' : Spells first bytes' n') : bytes.length = bytes'.length := by
  rcases h with ⟨hshort, rfl, -⟩ | ⟨hlong, hlen, -⟩
  · rcases h' with ⟨-, rfl, -⟩ | ⟨hlong, -⟩
    · rfl
    · exact absurd hshort hlong
  · rcases h' with ⟨hshort, -⟩ | ⟨-, hlen', -⟩
    · exact absurd hshort hlong
    · exact hlen.trans hlen'.symm

/-- The header of a word tells the length of its content. -/
theorem Spelled.eq_of_append {e' content content' r s : List UInt8} (he : Spelled e content) (he' : Spelled e' content')
    (h : e ++ r = e' ++ s) : e = e' ∧ content = content' := by
  obtain ⟨tag, first, bytes, rfl, -, hspells, -⟩ := he
  obtain ⟨tag', first', bytes', rfl, -, hspells', -⟩ := he'
  simp only [cons_append, append_assoc, cons.injEq] at h
  obtain ⟨rfl, rfl, h⟩ := h
  obtain ⟨hbytes, hrest⟩ := append_inj h (hspells.length_eq hspells')
  subst hbytes
  have hsize : content.length = content'.length := by
    rcases hspells with ⟨hshort, -, hn⟩ | ⟨hlong, -, -, -, hn⟩
    · rcases hspells' with ⟨-, -, hn'⟩ | ⟨hlong, -⟩
      · exact hn.trans hn'.symm
      · exact absurd hshort hlong
    · rcases hspells' with ⟨hshort, -⟩ | ⟨-, -, -, -, hn'⟩
      · exact absurd hshort hlong
      · exact hn.trans hn'.symm
  obtain ⟨rfl, -⟩ := append_inj hrest hsize
  exact ⟨rfl, rfl⟩

theorem isPrefixCode_isWord : IsPrefixCode {e | IsWord e} :=
  fun _ ⟨_, he⟩ _ ⟨_, he'⟩ _ _ h => (he.eq_of_append he' h).1

theorem nil_not_isWord : [] ∉ {e | IsWord e} := fun h => h.ne_nil rfl

/-- What the reader takes in one piece from a buffer. -/
structure ReadAt (buf : List UInt8) (p : Nat) (t : Tlv) (e content : List UInt8) : Prop where
  read : readTlv buf p = some t
  spelled : Spelled e content
  forward : t.IsForward
  offset : t.offset = p
  start : t.start = p + (e.length - content.length)
  stop : t.end' = p + e.length
  raw : rawOf buf t = e
  content : contentOf buf t = content
  tag : e.head? = some t.tag

theorem Spelled.length_le {content : List UInt8} (h : Spelled e content) : content.length + 2 ≤ e.length := by
  obtain ⟨tag, first, bytes, rfl, -⟩ := h
  simp only [length_cons, length_append]
  omega

theorem Layout.readAt {tag first : UInt8} {bytes content : List UInt8}
    (h : Layout buf p tag first bytes content rest) :
    ReadAt buf p (valueAt p tag bytes content) (tag :: first :: (bytes ++ content)) content where
  read := h.readTlv
  spelled := ⟨tag, first, bytes, rfl, h.single, h.spells, h.small⟩
  forward := by simp only [Tlv.IsForward, valueAt]; omega
  offset := rfl
  start := by simp only [valueAt, length_cons, length_append]; omega
  stop := by simp only [valueAt, length_cons, length_append]; omega
  raw := h.rawOf
  content := h.contentOf
  tag := rfl

/-- A value that does not end before its content is a word. -/
theorem exists_readAt (h : readTlv buf p = some t) (hforward : t.IsForward) :
    ∃ e content, ReadAt buf p t e content ∧ buf.drop p = e ++ buf.drop (p + e.length) := by
  obtain ⟨first, bytes, content, rest, hlayout, ht⟩ := exists_layout h hforward
  have hread := hlayout.readAt
  rw [← ht] at hread
  refine ⟨_, content, hread, ?_⟩
  rw [← drop_drop, hlayout.drop]
  simp

/-- A word is read wherever it is. -/
theorem exists_readAt_of_spelled {content : List UInt8} (hdrop : buf.drop p = e ++ rest) (he : Spelled e content) :
    ∃ t, ReadAt buf p t e content := by
  obtain ⟨tag, first, bytes, rfl, hsingle, hspells, hsmall⟩ := he
  have hlayout : Layout buf p tag first bytes content rest := ⟨by simp [hdrop], hsingle, hspells, hsmall⟩
  exact ⟨_, hlayout.readAt⟩

end Word

/-- What is written under a tag tells its content. -/
theorem tlv_injective {tag : UInt8} {content content' : List UInt8} (h : tlv tag content = some e)
    (h' : tlv tag content' = some e) : content = content' := by
  obtain ⟨first, bytes, he, hspells⟩ := exists_tlv tag content
  obtain ⟨first', bytes', he', hspells'⟩ := exists_tlv tag content'
  rw [he] at h
  rw [he', ← h] at h'
  simp only [some.injEq, cons.injEq, true_and] at h'
  obtain ⟨rfl, heq⟩ := h'
  exact (append_inj heq (hspells'.length_eq hspells)).2.symm

/-! ## Rows -/

section Rows

variable {buf : List UInt8}

/-- The values that the loop takes one after the other: their words, and where the loop is after them. -/
theorem childrenFrom_append {stop : Int} {fuel p : Nat} {fs cs : List Tlv}
    (h : childrenFrom buf stop fuel p = some (fs ++ cs)) (hforward : ∀ t ∈ fs, t.IsForward) :
    (∀ t ∈ fs, ∃ q e content, ReadAt buf q t e content) ∧
      buf.drop p = (fs.map (rawOf buf)).flatten ++ buf.drop (p + (fs.map (rawOf buf)).flatten.length) ∧
      ∃ fuel', childrenFrom buf stop fuel' (p + (fs.map (rawOf buf)).flatten.length : Nat) = some cs := by
  induction fs generalizing fuel p with
  | nil => exact ⟨by simp, by simp, fuel, by simpa using h⟩
  | cons t fs ih =>
    obtain ⟨ht, hforward⟩ := forall_mem_cons.mp hforward
    cases fuel with
    | zero => cases h
    | succ fuel =>
      rw [childrenFrom] at h
      split at h
      · split at h
        · cases h
        · rename_i t' hread
          obtain ⟨rest, hrest, heq⟩ := map_eq_some_iff.mp h
          cases heq
          obtain ⟨e, content, hat, hdrop⟩ := exists_readAt hread ht
          rw [hat.stop] at hrest
          obtain ⟨hwords, htail, fuel', hlast⟩ := ih (by exact_mod_cast hrest) hforward
          refine ⟨forall_mem_cons.mpr ⟨⟨p, e, content, hat⟩, hwords⟩, ?_, fuel', ?_⟩
          · rw [map_cons, flatten_cons, hat.raw, length_append, append_assoc, ← Nat.add_assoc, ← htail]
            exact hdrop
          · rw [map_cons, flatten_cons, hat.raw, length_append, ← Nat.add_assoc]
            exact hlast
      · cases h

/-- The first value that the loop takes. -/
theorem readTlv_of_childrenFrom {stop p : Int} {fuel : Nat} {t : Tlv} {cs : List Tlv}
    (h : childrenFrom buf stop fuel p = some (t :: cs)) : readTlv buf p = some t ∧ p < stop := by
  cases fuel with
  | zero => cases h
  | succ fuel =>
    rw [childrenFrom] at h
    split at h
    · rename_i hp
      split at h
      · cases h
      · rename_i t' hread
        obtain ⟨rest, -, heq⟩ := map_eq_some_iff.mp h
        cases heq
        exact ⟨hread, hp⟩
    · cases h

/-- The last of the values ends where the loop is after them. -/
theorem end_of_childrenFrom {stop : Int} {fuel p : Nat} {fs cs : List Tlv}
    (h : childrenFrom buf stop fuel p = some (fs ++ cs)) (hforward : ∀ t ∈ fs, t.IsForward) :
    ∀ t ∈ fs.getLast?, t.end' = (p + (fs.map (rawOf buf)).flatten.length : Nat) := by
  intro t ht
  obtain ⟨init, rfl⟩ := getLast?_eq_some_iff.mp ht
  rw [append_assoc] at h
  obtain ⟨-, -, fuel', hrest⟩ := childrenFrom_append h fun u hu => hforward u (mem_append_left _ hu)
  obtain ⟨e, content, hat, -⟩ := exists_readAt (readTlv_of_childrenFrom hrest).1
    (hforward t (mem_append_right _ (mem_singleton_self t)))
  rw [hat.stop, map_append, flatten_append, length_append, ← Nat.add_assoc]
  simp [hat.raw]

theorem end_le_of_readTlv {p : Nat} {t : Tlv} (h : readTlv buf p = some t) : t.end' ≤ buf.length := by
  obtain ⟨start, n, -, hfits, rfl⟩ := exists_announced h
  exact hfits

/-- The content behind the header. -/
theorem ReadAt.drop_start {p : Nat} {t : Tlv} {e content : List UInt8} (h : ReadAt buf p t e content) :
    buf.drop (p + (e.length - content.length)) = content ++ buf.drop (p + e.length) := by
  have hlength := h.spelled.length_le
  have hend := end_le_of_readTlv h.read
  rw [h.stop] at hend
  have hcontent := h.content
  have hstart : ((p : Int) + (e.length - content.length)) = (p + (e.length - content.length) : Nat) := by omega
  have hstop : ((p : Int) + e.length) = (p + e.length : Nat) := by omega
  have hsub : subarray buf (p + (e.length - content.length) : Nat) (p + e.length : Nat) =
      (buf.drop (p + (e.length - content.length))).take (p + e.length - (p + (e.length - content.length))) :=
    subarray_natCast (by omega) (by omega)
  rw [contentOf, h.start, h.stop, hstart, hstop, hsub] at hcontent
  have hdrop : buf.drop (p + e.length) =
      (buf.drop (p + (e.length - content.length))).drop (p + e.length - (p + (e.length - content.length))) := by
    rw [drop_drop]
    congr 1
    omega
  have hcut := take_append_drop (p + e.length - (p + (e.length - content.length)))
    (buf.drop (p + (e.length - content.length)))
  rw [hcontent, ← hdrop] at hcut
  exact hcut.symm

/-- The loop over the children of a value goes over its content. -/
theorem ReadAt.loop_eq {p : Nat} {t : Tlv} {e content : List UInt8} (h : ReadAt buf p t e content) (fuel : Nat) :
    t.end' = (p + (e.length - content.length) + content.length : Nat) ∧
      children fuel buf t = childrenFrom buf (p + (e.length - content.length) + content.length : Nat) fuel
        (p + (e.length - content.length) : Nat) := by
  have hlength := h.spelled.length_le
  have hstart : t.start = (p + (e.length - content.length) : Nat) := by
    rw [h.start]
    omega
  have hend : t.end' = (p + (e.length - content.length) + content.length : Nat) := by
    rw [h.stop]
    omega
  exact ⟨hend, by rw [children, hstart, hend]⟩

/-- The header of a value, and where its content begins. -/
theorem exists_start_of_readTlv {p : Nat} {t : Tlv} (h : readTlv buf p = some t) :
    ∃ start : Nat, t.offset = p ∧ t.start = start ∧ p ≤ start ∧ start ≤ buf.length ∧
      buf.drop p = subarray buf t.offset t.start ++ buf.drop start ∧
      start = p + (subarray buf t.offset t.start).length := by
  obtain ⟨start, n, hread, -, rfl⟩ := exists_announced h
  obtain ⟨hlt, -, hle, -⟩ := announced_bounds hread
  have hsub : subarray buf p start = (buf.drop p).take (start - p) := subarray_natCast (by omega) (by omega)
  refine ⟨start, rfl, rfl, by omega, by omega, ?_, ?_⟩
  · have hdrop : buf.drop start = (buf.drop p).drop (start - p) := by
      rw [drop_drop]
      congr 1
      omega
    rw [hsub, hdrop, take_append_drop]
  · dsimp only
    rw [hsub, length_take, length_drop]
    omega

/-- A value that ends inside some bytes is a word at their beginning. -/
theorem exists_readAt_inside {r s : List UInt8} {p : Nat} {t : Tlv} (hdrop : buf.drop p = r ++ s)
    (hread : readTlv buf p = some t) (hforward : t.IsForward) (hinside : t.end' ≤ (p + r.length : Nat)) :
    ∃ e content r', r = e ++ r' ∧ ReadAt buf p t e content := by
  obtain ⟨e, content, hat, hcut⟩ := exists_readAt hread hforward
  have hlength : e.length ≤ r.length := by
    have hend := hat.stop
    omega
  obtain ⟨r', rfl⟩ : e <+: r := prefix_of_prefix_length_le ⟨_, hcut.symm⟩ ⟨_, hdrop.symm⟩ hlength
  exact ⟨e, content, r', rfl, hat⟩

/-- The same bytes are read alike in two buffers, where no value ends beyond them. -/
theorem childrenFrom_congr {buf' r s s' : List UInt8} {fuel fuel' p p' : Nat} {cs cs' : List Tlv}
    (hdrop : buf.drop p = r ++ s) (hdrop' : buf'.drop p' = r ++ s')
    (h : childrenFrom buf (p + r.length : Nat) fuel p = some cs)
    (h' : childrenFrom buf' (p' + r.length : Nat) fuel' p' = some cs')
    (hcs : ∀ t ∈ cs, t.IsForward ∧ t.end' ≤ (p + r.length : Nat))
    (hcs' : ∀ t ∈ cs', t.IsForward ∧ t.end' ≤ (p' + r.length : Nat)) :
    cs.map (contentOf buf) = cs'.map (contentOf buf') := by
  induction cs generalizing r p p' fuel fuel' cs' with
  | nil =>
    cases cs' with
    | nil => rfl
    | cons t' cs' =>
      -- what the other loop takes would be taken here as well
      obtain ⟨hread', hp'⟩ := readTlv_of_childrenFrom h'
      obtain ⟨hforward, hinside⟩ := hcs' t' mem_cons_self
      obtain ⟨e, content, r', rfl, hat'⟩ := exists_readAt_inside hdrop' hread' hforward hinside
      obtain ⟨t, hat⟩ := exists_readAt_of_spelled (by rw [hdrop, append_assoc]) hat'.spelled
      have hp : (p : Int) < (p + (e ++ r').length : Nat) := by omega
      cases fuel with
      | zero => cases h
      | succ fuel =>
        rw [childrenFrom, if_pos hp, hat.read] at h
        obtain ⟨rest, -, heq⟩ := map_eq_some_iff.mp h
        cases heq
  | cons t cs ih =>
    obtain ⟨hread, hp⟩ := readTlv_of_childrenFrom h
    obtain ⟨hforward, hinside⟩ := hcs t mem_cons_self
    obtain ⟨e, content, r', rfl, hat⟩ := exists_readAt_inside hdrop hread hforward hinside
    obtain ⟨t', hat'⟩ := exists_readAt_of_spelled (by rw [hdrop', append_assoc]) hat.spelled
    have hp' : (p' : Int) < (p' + (e ++ r').length : Nat) := by omega
    cases fuel' with
    | zero => cases h'
    | succ fuel' =>
      rw [childrenFrom, if_pos hp', hat'.read] at h'
      obtain ⟨rest', hrest', heq⟩ := map_eq_some_iff.mp h'
      cases heq
      cases fuel with
      | zero => cases h
      | succ fuel =>
        rw [childrenFrom, if_pos hp, hat.read] at h
        obtain ⟨rest, hrest, heq⟩ := map_eq_some_iff.mp h
        cases heq
        have hnext : (p + e.length) + r'.length = p + (e ++ r').length := by
          rw [length_append, Nat.add_assoc]
        have hnext' : (p' + e.length) + r'.length = p' + (e ++ r').length := by
          rw [length_append, Nat.add_assoc]
        have hcut : buf.drop (p + e.length) = r' ++ s := by
          rw [← drop_drop, hdrop, append_assoc, drop_left]
        have hcut' : buf'.drop (p' + e.length) = r' ++ s' := by
          rw [← drop_drop, hdrop', append_assoc, drop_left]
        rw [hat.stop, ← hnext] at hrest
        rw [hat'.stop, ← hnext'] at hrest'
        rw [← hnext] at hcs
        rw [← hnext'] at hcs'
        rw [map_cons, map_cons, hat.content, hat'.content]
        exact congrArg _ (ih hcut hcut' (by exact_mod_cast hrest) (by exact_mod_cast hrest')
          (fun t ht => hcs t (mem_cons_of_mem _ ht)) fun t ht => hcs' t (mem_cons_of_mem _ ht))

end Rows

end Der

/-! # Written values -/

namespace Der

/-- What the writer writes; it never throws. -/
def written (tag : UInt8) (content : List UInt8) : List UInt8 := (tlv tag content).getD []

section Writing

variable {tag : UInt8} {content : List UInt8}

theorem tlv_eq_written (tag : UInt8) (content : List UInt8) : tlv tag content = some (written tag content) := by
  obtain ⟨first, bytes, htlv, -⟩ := exists_tlv tag content
  simp [written, htlv]

theorem head?_written : (written tag content).head? = some tag := by
  obtain ⟨first, bytes, htlv, -⟩ := exists_tlv tag content
  simp [written, htlv]

theorem length_written (tag : UInt8) (content : List UInt8) : content.length + 2 ≤ (written tag content).length := by
  obtain ⟨first, bytes, htlv, -⟩ := exists_tlv tag content
  simp only [written, htlv, getD_some, length_cons, length_append]
  omega

theorem spelled_written (hsingle : isMultiByte tag = false) (hsmall : content.length < 2 ^ 31) :
    Spelled (written tag content) content := by
  obtain ⟨first, bytes, htlv, hspells⟩ := exists_tlv tag content
  rw [Nat.mod_eq_of_lt (by omega)] at hspells
  exact ⟨tag, first, bytes, by simp [written, htlv], hsingle, hspells, hsmall⟩

end Writing

/-! ## Sizes -/

/-- Short enough for the reader. -/
def Fits (e : List UInt8) : Prop := e.length < 2 ^ 31

section Sizes

variable {tag : UInt8} {e c : List UInt8} {parts : List (List UInt8)}

theorem Fits.content (h : Fits (written tag c)) : Fits c := by
  have hlength := length_written tag c
  unfold Fits at h ⊢
  omega

theorem Fits.part (h : Fits parts.flatten) (he : e ∈ parts) : Fits e := by
  have hlength := (sublist_flatten_of_mem he).length_le
  unfold Fits at h ⊢
  omega

theorem Fits.spelled (h : Fits (written tag c)) (hsingle : isMultiByte tag = false) : Spelled (written tag c) c :=
  spelled_written hsingle h.content

theorem Fits.isWord (h : Fits (written tag c)) (hsingle : isMultiByte tag = false) : IsWord (written tag c) :=
  ⟨c, h.spelled hsingle⟩

end Sizes

/-! ## Inside a buffer -/

def Finds (buf : List UInt8) (t : Tlv) (e : List UInt8) : Prop := ∃ p content, ReadAt buf p t e content

variable {buf e c : List UInt8} {t : Tlv} {fuel : Nat} {ws : List (List UInt8)}

theorem Finds.raw (h : Finds buf t e) : rawOf buf t = e := by
  obtain ⟨p, content, hat⟩ := h
  exact hat.raw

theorem Finds.tag (h : Finds buf t e) : e.head? = some t.tag := by
  obtain ⟨p, content, hat⟩ := h
  exact hat.tag

theorem Finds.content (h : Finds buf t e) (he : Spelled e c) : contentOf buf t = c := by
  obtain ⟨p, content', hat⟩ := h
  rw [hat.content]
  exact (hat.spelled.eq_of_append he (congrArg (· ++ []) rfl)).2

/-- A word that is all of a buffer. -/
theorem finds_self (he : Spelled e c) : ∃ t, readTlv e 0 = some t ∧ Finds e t e := by
  have hdrop : e.drop 0 = e ++ [] := by simp
  obtain ⟨t, hat⟩ := exists_readAt_of_spelled hdrop he
  exact ⟨t, hat.read, 0, c, hat⟩

theorem exists_childrenFrom_words (hws : ∀ w ∈ ws, IsWord w) (hfuel : ws.length < fuel) {p : Nat} {rest : List UInt8}
    (hdrop : buf.drop p = ws.flatten ++ rest) :
    ∃ cs, childrenFrom buf (p + ws.flatten.length : Nat) fuel p = some cs ∧ Forall₂ (Finds buf) cs ws := by
  induction ws generalizing fuel p with
  | nil =>
    cases fuel with
    | zero => cases hfuel
    | succ fuel => exact ⟨[], by simp [childrenFrom], .nil⟩
  | cons w ws ih =>
    obtain ⟨⟨content, hw⟩, hws⟩ := forall_mem_cons.mp hws
    cases fuel with
    | zero => cases hfuel
    | succ fuel =>
      rw [flatten_cons, append_assoc] at hdrop
      obtain ⟨t, hat⟩ := exists_readAt_of_spelled hdrop hw
      have hrest : buf.drop (p + w.length) = ws.flatten ++ rest := by rw [← drop_drop, hdrop, drop_left]
      obtain ⟨cs, hcs, hfinds⟩ := ih hws (by simpa using hfuel) hrest
      have hlength := hw.length_le
      have hp : (p : Int) < (p + (w :: ws).flatten.length : Nat) := by
        rw [flatten_cons, length_append]
        omega
      have hstop : p + (w :: ws).flatten.length = p + w.length + ws.flatten.length := by
        rw [flatten_cons, length_append, Nat.add_assoc]
      refine ⟨t :: cs, ?_, .cons ⟨p, content, hat⟩ hfinds⟩
      rw [childrenFrom, if_pos hp, hat.read]
      dsimp only
      rw [hat.stop, hstop]
      have hcs' : childrenFrom buf (p + w.length + ws.flatten.length : Nat) fuel (p + w.length : Int) = some cs := by
        exact_mod_cast hcs
      rw [hcs', map_some]

/-- The children of a value are the words that its content is put together from. -/
theorem Finds.children (h : Finds buf t e) (he : Spelled e ws.flatten) (hws : ∀ w ∈ ws, IsWord w)
    (hfuel : ws.length < fuel) : ∃ cs, children fuel buf t = some cs ∧ Forall₂ (Finds buf) cs ws := by
  obtain ⟨p, content, hat⟩ := h
  obtain ⟨-, rfl⟩ := hat.spelled.eq_of_append he (congrArg (· ++ []) rfl)
  obtain ⟨-, hloop⟩ := hat.loop_eq fuel
  rw [hloop]
  exact exists_childrenFrom_words hws hfuel hat.drop_start

end Der
