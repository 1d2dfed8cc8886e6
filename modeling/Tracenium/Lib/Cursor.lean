-- SUMMARY: Readers that go through a buffer with an offset, and the rules for what a composite reader reads.
import Tracenium.Lib.ByteNumerals

/-!
`Reads` says exactly which bytes a reader takes and what they stand for: the rules are one for each way to put readers
together.
-/

open BigEndian List Nat

namespace Cursor

structure View where
  start : Nat
  length : Nat
  deriving DecidableEq

def View.stop (v : View) : Nat := v.start + v.length

def View.bytes (v : View) (buf : List UInt8) : List UInt8 := (buf.drop v.start).take v.length

/-- Two parts have no byte in common. -/
def View.Disjoint (v w : View) : Prop := v.stop ≤ w.start ∨ w.stop ≤ v.start

def Reader (ε α : Type) := List UInt8 → Nat → Except ε (α × Nat)

variable {ε α β : Type}

namespace Reader

protected def pure (a : α) : Reader ε α := fun _ o => .ok (a, o)

protected def bind (r : Reader ε α) (f : α → Reader ε β) : Reader ε β := fun buf o =>
  match r buf o with
  | .error e => .error e
  | .ok (a, o') => f a buf o'

instance : Monad (Reader ε) where
  pure := Reader.pure
  bind := Reader.bind

def fail (e : ε) : Reader ε α := fun _ _ => .error e

/-- The next `n` bytes. The error is told how many bytes are needed, where, and how many there are. -/
def take (short : Nat → Nat → Nat → ε) (n : Nat) : Reader ε View := fun buf o =>
  if buf.length < o + n then .error (short n o (buf.length - o)) else .ok (⟨o, n⟩, o + n)

/-- What the next `n` bytes are. -/
def block (short : Nat → Nat → Nat → ε) (n : Nat) : Reader ε (List UInt8) := fun buf o =>
  if buf.length < o + n then .error (short n o (buf.length - o)) else .ok ((buf.drop o).take n, o + n)

/-- The next `n` bytes as a number. -/
def uint (short : Nat → Nat → Nat → ε) (n : Nat) : Reader ε Nat := do
  let bytes ← block short n
  pure (value bytes)

/-- One value after another, so many of them; the reader is told how many it comes after. -/
def times (r : Nat → Reader ε α) (i : Nat) : Nat → Reader ε (List α)
  | 0 => pure []
  | n + 1 => do
    let a ← r i
    let rest ← times r (i + 1) n
    pure (a :: rest)

end Reader

/-- The reader takes bytes that stand for a value where they are, and no others. -/
def Reads (r : Reader ε α) (S : Nat → List UInt8 → α → Prop) : Prop :=
  ∀ buf o a o', o ≤ buf.length → (r buf o = .ok (a, o') ↔
    ∃ pre bytes post, buf = pre ++ bytes ++ post ∧ pre.length = o ∧ o' = o + bytes.length ∧ S o bytes a)

namespace Reads

variable {r : Reader ε α} {f : α → Reader ε β} {S S' : Nat → List UInt8 → α → Prop}
  {T : α → Nat → List UInt8 → β → Prop}

theorem congr (h : Reads r S) (hS : ∀ o bytes a, S o bytes a ↔ S' o bytes a) : Reads r S' := by
  intro buf o a o' ho
  simp only [h buf o a o' ho, hS]

/-- What is left of a buffer at an offset. -/
theorem exists_split {buf : List UInt8} {o : Nat} (ho : o ≤ buf.length) :
    ∃ pre post, buf = pre ++ post ∧ pre.length = o :=
  ⟨buf.take o, buf.drop o, (take_append_drop o buf).symm, by simpa using ho⟩

protected theorem pure (a : α) : Reads (pure a : Reader ε α) fun _ bytes x => bytes = [] ∧ x = a := by
  intro buf o x o' ho
  have hrun : (pure a : Reader ε α) buf o = .ok (a, o) := rfl
  rw [hrun, Except.ok.injEq, Prod.mk.injEq]
  constructor
  · rintro ⟨rfl, rfl⟩
    obtain ⟨pre, post, rfl, hlen⟩ := exists_split ho
    exact ⟨pre, [], post, by simp, hlen, rfl, rfl, rfl⟩
  · rintro ⟨pre, bytes, post, rfl, rfl, rfl, rfl, rfl⟩
    exact ⟨rfl, rfl⟩

protected theorem bind (hr : Reads r S) (hf : ∀ a, Reads (f a) (T a)) :
    Reads (r >>= f) fun o bytes b => ∃ a first rest, bytes = first ++ rest ∧ S o first a ∧
      T a (o + first.length) rest b := by
  intro buf o b o'' ho
  have hrun : (r >>= f) buf o = .ok (b, o'') ↔ ∃ a o', r buf o = .ok (a, o') ∧ f a buf o' = .ok (b, o'') := by
    change Reader.bind r f buf o = _ ↔ _
    rw [Reader.bind]
    cases r buf o with
    | error e => simp
    | ok x =>
      obtain ⟨a, o'⟩ := x
      simp
  rw [hrun]
  constructor
  · rintro ⟨a, o', hfirst, hrest⟩
    obtain ⟨pre, first, post, hbuf, hpre, rfl, hS⟩ := (hr buf o a o' ho).mp hfirst
    have hle : o + first.length ≤ buf.length := by
      simp [hbuf, ← hpre]
    obtain ⟨pre', rest, post', hbuf', hpre', rfl, hT⟩ := (hf a buf _ b o'' hle).mp hrest
    have hsame : pre' = pre ++ first := by
      have hsplit : pre' ++ (rest ++ post') = pre ++ first ++ post := by
        rw [← append_assoc, ← hbuf', hbuf]
      exact (append_inj hsplit (by simp [hpre, hpre'])).1
    refine ⟨pre, first ++ rest, post', ?_, hpre, by simp [add_assoc], a, first, rest, rfl, hS, hT⟩
    rw [hbuf', hsame]
    simp
  · rintro ⟨pre, bytes, post, rfl, rfl, rfl, a, first, rest, rfl, hS, hT⟩
    refine ⟨a, pre.length + first.length, (hr _ _ _ _ (by simp)).mpr ⟨pre, first, rest ++ post, ?_, rfl, rfl, hS⟩, ?_⟩
    · simp
    · refine (hf a _ _ _ _ ?_).mpr ⟨pre ++ first, rest, post, ?_, ?_, ?_, hT⟩
      · simp
      · simp
      · simp
      · simp [add_assoc]

protected theorem fail (e : ε) : Reads (Reader.fail e : Reader ε α) fun _ _ _ => False := by
  intro buf o a o' _
  simp [Reader.fail]

protected theorem ite {c : Prop} [Decidable c] {r' : Reader ε α} (hr : Reads r S) (hr' : Reads r' S') :
    Reads (if c then r else r') fun o bytes a => if c then S o bytes a else S' o bytes a := by
  split
  · exact hr
  · exact hr'

/-- The next bytes of a buffer. -/
theorem exists_next {buf : List UInt8} {o n : Nat} (h : o + n ≤ buf.length) :
    ∃ pre bytes post, buf = pre ++ bytes ++ post ∧ pre.length = o ∧ bytes.length = n ∧
      (buf.drop o).take n = bytes := by
  refine ⟨buf.take o, (buf.drop o).take n, (buf.drop o).drop n, ?_, ?_, ?_, rfl⟩
  · rw [append_assoc, take_append_drop, take_append_drop]
  · rw [length_take]
    omega
  · rw [length_take, length_drop]
    omega

theorem take (short : Nat → Nat → Nat → ε) (n : Nat) :
    Reads (Reader.take short n) fun o bytes v => bytes.length = n ∧ v = ⟨o, n⟩ := by
  intro buf o v o' _
  rw [Reader.take]
  constructor
  · intro h
    split at h
    · cases h
    · obtain ⟨rfl, rfl⟩ := Prod.mk.inj (Except.ok.inj h)
      obtain ⟨pre, bytes, post, hbuf, hpre, hlength, -⟩ := exists_next (Nat.le_of_not_lt ‹_›)
      exact ⟨pre, bytes, post, hbuf, hpre, by rw [hlength], hlength, rfl⟩
  · rintro ⟨pre, bytes, post, rfl, rfl, rfl, rfl, rfl⟩
    rw [if_neg (by simp)]

theorem block (short : Nat → Nat → Nat → ε) (n : Nat) :
    Reads (Reader.block short n) fun _ bytes v => bytes.length = n ∧ v = bytes := by
  intro buf o v o' _
  rw [Reader.block]
  constructor
  · intro h
    split at h
    · cases h
    · obtain ⟨rfl, rfl⟩ := Prod.mk.inj (Except.ok.inj h)
      obtain ⟨pre, bytes, post, hbuf, hpre, hlength, hbytes⟩ := exists_next (Nat.le_of_not_lt ‹_›)
      exact ⟨pre, bytes, post, hbuf, hpre, by rw [hlength], hlength, hbytes⟩
  · rintro ⟨pre, bytes, post, rfl, rfl, rfl, rfl, rfl⟩
    simp

/-- A number is read from its bytes. -/
theorem uint (short : Nat → Nat → Nat → ε) (n : Nat) :
    Reads (Reader.uint short n) fun _ bytes v => v < 256 ^ n ∧ bytes = bytesOf n v := by
  have hreads := (block short n).bind fun bytes => Reads.pure (ε := ε) (value bytes)
  refine hreads.congr fun o bytes v => ⟨?_, ?_⟩
  · rintro ⟨-, bytes, -, rfl, ⟨rfl, rfl⟩, rfl, rfl⟩
    rw [append_nil, bytesOf_value]
    exact ⟨value_lt _, rfl⟩
  · rintro ⟨hlt, rfl⟩
    exact ⟨_, bytesOf n v, [], by simp, ⟨length_bytesOf n v, rfl⟩, rfl, (value_bytesOf hlt).symm⟩

end Reads

/-! ## Sequences -/

section Sequences

variable {ρ : Type} {spell : ρ → List UInt8} {place : Nat → ρ → α} {Valid : ρ → Prop}

/-- What things stand for whose bytes follow each other from an offset on. -/
def placed (spell : ρ → List UInt8) (place : Nat → ρ → α) : Nat → List ρ → List α
  | _, [] => []
  | o, x :: xs => place o x :: placed spell place (o + (spell x).length) xs

theorem Reads.times {r : Nat → Reader ε α}
    (h : ∀ i, Reads (r i) fun o bytes a => ∃ x, Valid x ∧ bytes = spell x ∧ a = place o x) (i n : Nat) :
    Reads (Reader.times r i n) fun o bytes as =>
      ∃ xs, xs.length = n ∧ (∀ x ∈ xs, Valid x) ∧ bytes = xs.flatMap spell ∧ as = placed spell place o xs := by
  induction n generalizing i with
  | zero =>
    refine (Reads.pure []).congr fun o bytes as => ⟨?_, ?_⟩
    · rintro ⟨rfl, rfl⟩
      exact ⟨[], rfl, by simp, rfl, rfl⟩
    · rintro ⟨xs, hlength, -, rfl, rfl⟩
      obtain rfl := length_eq_zero_iff.mp hlength
      exact ⟨rfl, rfl⟩
  | succ n ih =>
    have hreads := (h i).bind fun a => (ih (i + 1)).bind fun rest => Reads.pure (a :: rest)
    refine hreads.congr fun o bytes as => ⟨?_, ?_⟩
    · rintro ⟨-, -, -, rfl, ⟨x, hx, rfl, rfl⟩, -, -, -, rfl, ⟨xs, hlength, hxs, rfl, rfl⟩, rfl, rfl⟩
      exact ⟨x :: xs, by simp [hlength], by simpa using ⟨hx, hxs⟩, by simp, rfl⟩
    · rintro ⟨xs, hlength, hxs, rfl, rfl⟩
      obtain ⟨x, xs, rfl⟩ := exists_cons_of_length_eq_add_one hlength
      have hxs : Valid x ∧ ∀ x ∈ xs, Valid x := by simpa using hxs
      exact ⟨_, spell x, xs.flatMap spell, by simp, ⟨x, hxs.1, rfl, rfl⟩, _, xs.flatMap spell, [], by simp,
        ⟨xs, by simpa using hlength, hxs.2, rfl, rfl⟩, rfl, rfl⟩

theorem placed_map {σ : Type} (f : σ → ρ) (o : Nat) (xs : List σ) :
    placed spell place o (xs.map f) = placed (fun x => spell (f x)) (fun o x => place o (f x)) o xs := by
  induction xs generalizing o with
  | nil => rfl
  | cons x xs ih => rw [map_cons, placed, placed, ih]

/-- What is read at each of the places of a sequence of bytes, wherever the sequence is. -/
theorem map_placed {γ : Type} (spell : ρ → List UInt8) (place : Nat → ρ → α) (read : α → List UInt8 → γ)
    (val : ρ → γ) {xs : List ρ}
    (h : ∀ x ∈ xs, ∀ pre post, read (place pre.length x) (pre ++ spell x ++ post) = val x) (pre post : List UInt8) :
    (placed spell place pre.length xs).map (read · (pre ++ xs.flatMap spell ++ post)) = xs.map val := by
  induction xs generalizing pre with
  | nil => rfl
  | cons x xs ih =>
    have hbuf : pre ++ (x :: xs).flatMap spell ++ post = pre ++ spell x ++ (xs.flatMap spell ++ post) := by simp
    have hrest := ih (fun x' hx' => h x' (mem_cons_of_mem _ hx')) (pre ++ spell x)
    rw [length_append, append_assoc (pre ++ spell x), ← hbuf] at hrest
    rw [placed, map_cons, map_cons, hrest, hbuf, h x mem_cons_self]

end Sequences

/-! ## Parts that follow each other -/

structure Within (low high : Nat) (vs : List View) : Prop where
  ascending : vs.Pairwise fun v w => v.stop ≤ w.start
  bounds : ∀ v ∈ vs, low ≤ v.start ∧ v.stop ≤ high

namespace Within

variable {low middle middle' high : Nat} {vs ws : List View}

theorem nil : Within low high [] := ⟨Pairwise.nil, by simp⟩

theorem singleton {v : View} (hlow : low ≤ v.start) (hhigh : v.stop ≤ high) : Within low high [v] :=
  ⟨pairwise_singleton _ _, by simpa using ⟨hlow, hhigh⟩⟩

theorem append (hv : Within low middle vs) (hw : Within middle' high ws) (hmiddle : middle ≤ middle')
    (hlow : low ≤ middle') (hhigh : middle ≤ high) : Within low high (vs ++ ws) where
  ascending := pairwise_append.mpr ⟨hv.ascending, hw.ascending, fun v hv' w hw' =>
    ((hv.bounds v hv').2.trans hmiddle).trans (hw.bounds w hw').1⟩
  bounds v h := (mem_append.mp h).elim (fun h => ⟨(hv.bounds v h).1, (hv.bounds v h).2.trans hhigh⟩)
    fun h => ⟨hlow.trans (hw.bounds v h).1, (hw.bounds v h).2⟩

theorem disjoint (h : Within low high vs) : vs.Pairwise View.Disjoint := h.ascending.imp .inl

theorem placed {ρ : Type} {spell : ρ → List UInt8} {parts : Nat → ρ → List View}
    (h : ∀ o x, Within o (o + (spell x).length) (parts o x)) (o : Nat) (xs : List ρ) :
    Within o (o + (xs.flatMap spell).length) (placed spell parts o xs).flatten := by
  induction xs generalizing o with
  | nil => exact nil
  | cons x xs ih =>
    rw [Cursor.placed, flatten_cons, flatMap_cons, length_append, ← add_assoc]
    exact (h o x).append (ih _) (le_refl _) (le_add_right _ _) (le_add_right _ _)

end Within

/-- Two kinds of parts of each thing, put together by kind. -/
theorem perm_placed {ρ : Type} (spell : ρ → List UInt8) (f g : Nat → ρ → List α) (o : Nat) (xs : List ρ) :
    (placed spell (fun o x => f o x ++ g o x) o xs).flatten.Perm
      ((placed spell g o xs).flatten ++ (placed spell f o xs).flatten) := by
  induction xs generalizing o with
  | nil => exact .refl _
  | cons x xs ih =>
    have ih := ih (o + (spell x).length)
    simp only [placed, flatten_cons, append_assoc]
    refine ((ih.append_left (g o x)).append_left (f o x)).trans ?_
    rw [← append_assoc (g o x)]
    exact (perm_append_comm_assoc _ _ _).trans (by simp)

end Cursor
