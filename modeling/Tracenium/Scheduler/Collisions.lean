-- SUMMARY: When the text that a namespace is hashed by tells it from every other, and objects that have the text of another.
import Tracenium.Scheduler.Hashing

open Utf16 Utf8 Json List Function Prod

namespace Scheduler

open Value JsonData

/-! ## Keys -/

mutual

/-- The keys of a value, at any depth. -/
def keys : Json → List Str
  | .arr xs => keysElems xs
  | .obj ms => keysMembers ms
  | _ => []

def keysElems : List Json → List Str
  | [] => []
  | x :: xs => keys x ++ keysElems xs

def keysMembers : List (Str × Json) → List Str
  | [] => []
  | (k, v) :: ms => k :: (keys v ++ keysMembers ms)

end

/-- No key begins with the other one, a quotation mark and a colon. -/
def KeysApart (k l : Str) : Prop := ¬ k ++ [quote, colon] <+: l ∧ ¬ l ++ [quote, colon] <+: k

def Apart (ks ls : List Str) : Prop := ∀ k ∈ ks, ∀ l ∈ ls, KeysApart k l

/-- The key ends at the first quotation mark and colon after which it is apart from the other. -/
theorem key_inj {k l r s : Str} (h : KeysApart k l)
    (heq : k ++ quote :: colon :: r = l ++ quote :: colon :: s) : k = l ∧ r = s := by
  have hcolon : colon ≠ quote := by decide
  rcases append_eq_append_iff.mp heq with ⟨c, rfl, hc⟩ | ⟨c, rfl, hc⟩
  · match c, hc with
    | [], hc => simp_all
    | [u], hc => simp [hcolon] at hc
    | u :: v :: c, hc =>
      obtain ⟨rfl, rfl, -⟩ := hc
      exact absurd ⟨c, by simp⟩ h.1
  · match c, hc with
    | [], hc => simp_all
    | [u], hc => simp [hcolon] at hc
    | u :: v :: c, hc =>
      obtain ⟨rfl, rfl, -⟩ := hc
      exact absurd ⟨c, by simp⟩ h.2

/-! ## Texts -/

def isPrimitive : Json → Bool
  | .arr _ => false
  | .obj _ => false
  | _ => true

theorem stableStringify_primitive {v : Json} (h : isPrimitive v) : stableStringify v = v.stringify := by
  cases v <;> simp_all [isPrimitive, stableStringify]

/-- The bracket that the text of a value opens with, if it does. -/
def opener : Json → Option UInt16
  | .arr _ => some lbracket
  | .obj _ => some lbrace
  | _ => none

theorem head_stableStringify (v : Json) : ∃ u s, stableStringify v = u :: s ∧ u ≠ rbracket ∧ u ≠ rbrace ∧
    (if u = lbracket ∨ u = lbrace then some u else none) = opener v := by
  cases v with
  | null => exact ⟨_, _, rfl, by decide, by decide, rfl⟩
  | bool b => cases b <;> exact ⟨_, _, rfl, by decide, by decide, rfl⟩
  | num n =>
    obtain ⟨text, valid⟩ := n
    cases text with
    | nil => exact absurd rfl (ne_nil_of_isNumber valid)
    | cons u s =>
      obtain ⟨-, -, hlbracket, hrbracket, hlbrace, hrbrace, -⟩ :=
        ne_of_isNumberUnit (isNumberUnit_of_isNumber valid u (by simp))
      exact ⟨u, s, rfl, hrbracket, hrbrace, by simp [opener, hlbracket, hlbrace]⟩
  | str s => exact ⟨_, _, rfl, by decide, by decide, rfl⟩
  | arr xs => cases xs <;> exact ⟨_, _, rfl, by decide, by decide, rfl⟩
  | obj ms => cases ms <;> exact ⟨_, _, rfl, by decide, by decide, rfl⟩

theorem opener_eq {v w : Json} {r s : Str} (h : stableStringify v ++ r = stableStringify w ++ s) :
    opener v = opener w := by
  obtain ⟨u, t, hv, -, -, hu⟩ := head_stableStringify v
  obtain ⟨u', t', hw, -, -, hu'⟩ := head_stableStringify w
  rw [hv, hw, cons_append, cons_append, cons.injEq] at h
  rw [← hu, ← hu', h.1]

theorem primitive_inj {v w : Json} {r s : Str} (hv : isPrimitive v) (hw : isPrimitive w)
    (hr : EndsNumber r) (hs : EndsNumber s) (h : stableStringify v ++ r = stableStringify w ++ s) : v = w ∧ r = s := by
  rw [stableStringify_primitive hv, stableStringify_primitive hw] at h
  let n := v.stringify.length + w.stringify.length
  have hparse := parseValue_stringify v (n := n) (r := r) (Nat.le_add_right _ _) hr
  rw [h, parseValue_stringify w (n := n) (Nat.le_add_left _ _) hs, Option.some.injEq, mk.injEq] at hparse
  exact ⟨hparse.1.symm, hparse.2.symm⟩

theorem endsNumber_stableElemsTail (xs : List Json) (r : Str) : EndsNumber (stableElemsTail xs ++ r) := by
  cases xs <;> exact endsNumber_cons (by decide) _

theorem endsNumber_stableMembersTail (ms : List (Str × Json)) (r : Str) : EndsNumber (stableMembersTail ms ++ r) := by
  cases ms <;> exact endsNumber_cons (by decide) _

theorem Apart.left {ks ks' ls : List Str} (h : Apart (ks ++ ks') ls) : Apart ks ls :=
  fun k hk => h k (mem_append_left _ hk)

theorem Apart.right {ks ks' ls : List Str} (h : Apart (ks ++ ks') ls) : Apart ks' ls :=
  fun k hk => h k (mem_append_right _ hk)

theorem Apart.symm {ks ls : List Str} (h : Apart ks ls) : Apart ls ks :=
  fun l hl k hk => ⟨(h k hk l hl).2, (h k hk l hl).1⟩

theorem Apart.parts {ks ks' ls ls' : List Str} (h : Apart (ks ++ ks') (ls ++ ls')) : Apart ks ls ∧ Apart ks' ls' :=
  ⟨h.left.symm.left.symm, h.right.symm.right.symm⟩

mutual

/-- With keys that are apart, the text says where it ends and of which value it is. -/
theorem stableStringify_inj : ∀ (v w : Json) (r s : Str), Apart (keys v) (keys w) → EndsNumber r → EndsNumber s →
    stableStringify v ++ r = stableStringify w ++ s → v = w ∧ r = s
  | .null, w, r, s, _, hr, hs, h | .bool _, w, r, s, _, hr, hs, h | .num _, w, r, s, _, hr, hs, h
  | .str _, w, r, s, _, hr, hs, h => by
    have hopener := opener_eq h
    have hw : isPrimitive w := by cases w <;> simp_all [opener, isPrimitive]
    exact primitive_inj rfl hw hr hs h
  | .arr xs, w, r, s, hapart, hr, hs, h => by
    have hopener := opener_eq h
    cases w with
    | arr ys =>
      match xs, ys, hapart, h with
      | [], [], _, h => simpa [stableStringify] using h
      | [], y :: ys, _, h =>
        obtain ⟨u, t, hy, hu, -, -⟩ := head_stableStringify y
        simp [stableStringify, hy, Ne.symm hu] at h
      | x :: xs, [], _, h =>
        obtain ⟨u, t, hx, hu, -, -⟩ := head_stableStringify x
        simp [stableStringify, hx, hu] at h
      | x :: xs, y :: ys, hapart, h =>
        obtain ⟨hx, hxs⟩ := hapart.parts
        simp only [stableStringify, cons_append, append_assoc, cons.injEq, true_and] at h
        obtain ⟨rfl, htail⟩ := stableStringify_inj x y _ _ hx (endsNumber_stableElemsTail xs r)
          (endsNumber_stableElemsTail ys s) h
        obtain ⟨rfl, hrest⟩ := stableElemsTail_inj xs ys r s hxs htail
        exact ⟨rfl, hrest⟩
    | _ => simp [opener] at hopener <;> exact absurd hopener (by decide)
  | .obj ms, w, r, s, hapart, hr, hs, h => by
    have hopener := opener_eq h
    cases w with
    | obj ns =>
      match ms, ns, hapart, h with
      | [], [], _, h => simpa [stableStringify] using h
      | [], e :: ns, _, h =>
        have hquote : rbrace ≠ quote := by decide
        simp [stableStringify, hquote] at h
      | e :: ms, [], _, h =>
        have hquote : quote ≠ rbrace := by decide
        simp [stableStringify, hquote] at h
      | (k, x) :: ms, (l, y) :: ns, hapart, h =>
        have hsplit : Apart ([k] ++ (keys x ++ keysMembers ms)) ([l] ++ (keys y ++ keysMembers ns)) := hapart
        obtain ⟨hx, hms⟩ := hsplit.parts.2.parts
        simp only [stableStringify, cons_append, append_assoc, cons.injEq, true_and] at h
        obtain ⟨rfl, hvalue⟩ := key_inj (hapart k (by simp [keys, keysMembers]) l (by simp [keys, keysMembers])) h
        obtain ⟨rfl, htail⟩ := stableStringify_inj x y _ _ hx (endsNumber_stableMembersTail ms r)
          (endsNumber_stableMembersTail ns s) hvalue
        obtain ⟨rfl, hrest⟩ := stableMembersTail_inj ms ns r s hms htail
        exact ⟨rfl, hrest⟩
    | _ => simp [opener] at hopener <;> exact absurd hopener (by decide)

theorem stableElemsTail_inj : ∀ (xs ys : List Json) (r s : Str), Apart (keysElems xs) (keysElems ys) →
    stableElemsTail xs ++ r = stableElemsTail ys ++ s → xs = ys ∧ r = s
  | [], [], r, s, _, h => by simpa [stableElemsTail] using h
  | [], y :: ys, r, s, _, h => by
    have hcomma : rbracket ≠ comma := by decide
    simp [stableElemsTail, hcomma] at h
  | x :: xs, [], r, s, _, h => by
    have hcomma : comma ≠ rbracket := by decide
    simp [stableElemsTail, hcomma] at h
  | x :: xs, y :: ys, r, s, hapart, h => by
    obtain ⟨hx, hxs⟩ := hapart.parts
    simp only [stableElemsTail, cons_append, append_assoc, cons.injEq, true_and] at h
    obtain ⟨rfl, htail⟩ := stableStringify_inj x y _ _ hx (endsNumber_stableElemsTail xs r)
      (endsNumber_stableElemsTail ys s) h
    obtain ⟨rfl, hrest⟩ := stableElemsTail_inj xs ys r s hxs htail
    exact ⟨rfl, hrest⟩

theorem stableMembersTail_inj : ∀ (ms ns : List (Str × Json)) (r s : Str), Apart (keysMembers ms) (keysMembers ns) →
    stableMembersTail ms ++ r = stableMembersTail ns ++ s → ms = ns ∧ r = s
  | [], [], r, s, _, h => by simpa [stableMembersTail] using h
  | [], e :: ns, r, s, _, h => by
    have hcomma : rbrace ≠ comma := by decide
    simp [stableMembersTail, hcomma] at h
  | e :: ms, [], r, s, _, h => by
    have hcomma : comma ≠ rbrace := by decide
    simp [stableMembersTail, hcomma] at h
  | (k, x) :: ms, (l, y) :: ns, r, s, hapart, h => by
    have hsplit : Apart ([k] ++ (keys x ++ keysMembers ms)) ([l] ++ (keys y ++ keysMembers ns)) := hapart
    obtain ⟨hx, hms⟩ := hsplit.parts.2.parts
    simp only [stableMembersTail, cons_append, append_assoc, cons.injEq, true_and] at h
    obtain ⟨rfl, hvalue⟩ := key_inj (hapart k (by simp [keysMembers]) l (by simp [keysMembers])) h
    obtain ⟨rfl, htail⟩ := stableStringify_inj x y _ _ hx (endsNumber_stableMembersTail ms r)
      (endsNumber_stableMembersTail ns s) hvalue
    obtain ⟨rfl, hrest⟩ := stableMembersTail_inj ms ns r s hms htail
    exact ⟨rfl, hrest⟩

end

/-! ## Keys of canonical forms -/

theorem mem_keysMembers {ms : List (Str × Json)} {k : Str} :
    k ∈ keysMembers ms ↔ ∃ e ∈ ms, k = e.1 ∨ k ∈ keys e.2 := by
  induction ms with
  | nil => simp [keysMembers]
  | cons e ms ih => simp [keysMembers, ih, or_assoc]

mutual

/-- The canonical form has no other keys. -/
theorem keys_canonical : ∀ v : Json, keys v.canonical ⊆ keys v
  | .null | .bool _ | .num _ | .str _ => by simp [canonical, keys]
  | .arr xs => by simpa [canonical, keys] using keys_canonicalElems xs
  | .obj ms => by simpa [canonical, keys, keysMembers] using keys_canonicalMembers ms []

theorem keys_canonicalElems : ∀ xs : List Json, keysElems (canonicalElems xs) ⊆ keysElems xs
  | [] => by simp [canonicalElems]
  | x :: xs => by
    intro k hk
    rw [canonicalElems, keysElems, mem_append] at hk
    rw [keysElems, mem_append]
    exact hk.imp (fun h => keys_canonical x h) fun h => keys_canonicalElems xs h

theorem keys_canonicalMembers : ∀ ms acc : List (Str × Json),
    keysMembers (canonicalMembers ms acc) ⊆ keysMembers ms ++ keysMembers acc
  | [], acc => by simp [canonicalMembers, keysMembers]
  | (j, v) :: ms, acc => by
    intro k hk
    rw [canonicalMembers] at hk
    rcases mem_append.mp (keys_canonicalMembers ms _ hk) with hk | hk
    · simp [keysMembers, hk]
    · obtain ⟨e, he, hkey⟩ := mem_keysMembers.mp hk
      rcases mem_insertMember he with rfl | he
      · rcases hkey with rfl | hkey
        · simp [keysMembers]
        · simp [keysMembers, keys_canonical v hkey]
      · simp [mem_keysMembers.mpr ⟨e, he, hkey⟩]

end

theorem exists_of_mem_canonicalMembers {ms acc : List (Str × Json)} {e : Str × Json} (h : e ∈ canonicalMembers ms acc) :
    e ∈ acc ∨ ∃ e' ∈ ms, e.2 = e'.2.canonical := by
  induction ms generalizing acc with
  | nil => exact .inl h
  | cons e₀ ms ih =>
    rcases ih h with hacc | ⟨e', he', hvalue⟩
    · rcases mem_insertMember hacc with rfl | hacc
      · exact .inr ⟨e₀, mem_cons_self, rfl⟩
      · exact .inl hacc
    · exact .inr ⟨e', mem_cons_of_mem _ he', hvalue⟩

theorem canonicalMembers_ne_nil {ms acc : List (Str × Json)} (h : ms ≠ [] ∨ acc ≠ []) :
    canonicalMembers ms acc ≠ [] := by
  induction ms generalizing acc with
  | nil => simpa [canonicalMembers] using h
  | cons e ms ih =>
    refine ih (.inr ?_)
    cases acc with
    | nil => simp [insertMember]
    | cons e' acc =>
      rw [insertMember]
      split_ifs <;> simp

/-- Texts of values with keys that are apart are the same exactly if the values say the same. -/
theorem stableText_eq_iff {v w : Json} (h : Apart (keys v) (keys w)) :
    stableText v = stableText w ↔ v.data = w.data := by
  rw [stableText, stableText, ← canonical_eq_iff]
  constructor
  · intro heq
    have hapart : Apart (keys v.canonical) (keys w.canonical) :=
      fun k hk l hl => h k (keys_canonical v hk) l (keys_canonical w hl)
    exact (stableStringify_inj _ _ [] [] hapart endsNumber_nil endsNumber_nil (by simpa using heq)).1
  · exact congrArg stableStringify

/-! ## Texts in bytes -/

theorem wellFormed_key {k s : Str} (hk : WellFormed k) (hs : WellFormed s) :
    WellFormed (quote :: (k ++ quote :: colon :: s)) := by
  have hcolon : WellFormed (quote :: colon :: s) := .unit (by decide) (by decide) (.unit (by decide) (by decide) hs)
  exact .unit (by decide) (by decide) (hk.append hcolon)

mutual

/-- With well-formed keys the text is well formed. -/
theorem wellFormed_stableStringify : ∀ v : Json, (∀ k ∈ keys v, WellFormed k) → WellFormed (stableStringify v)
  | .null, _ | .bool _, _ | .num _, _ | .str _, _ => by
    rw [stableStringify_primitive rfl]
    exact (isLine_stringify _).1
  | .arr [], _ => .unit (by decide) (by decide) (.unit (by decide) (by decide) .nil)
  | .arr (x :: xs), h => by
    rw [stableStringify]
    have hx := wellFormed_stableStringify x fun k hk => h k (by simp [keys, keysElems, hk])
    have hxs := wellFormed_stableElemsTail xs fun k hk => h k (by simp [keys, keysElems, hk])
    exact .unit (by decide) (by decide) (hx.append hxs)
  | .obj [], _ => .unit (by decide) (by decide) (.unit (by decide) (by decide) .nil)
  | .obj ((k, v) :: ms), h => by
    rw [stableStringify]
    have hk := h k (by simp [keys, keysMembers])
    have hv := wellFormed_stableStringify v fun k hk => h k (by simp [keys, keysMembers, hk])
    have hms := wellFormed_stableMembersTail ms fun k hk => h k (by simp [keys, keysMembers, hk])
    exact .unit (by decide) (by decide) (wellFormed_key hk (hv.append hms))

theorem wellFormed_stableElemsTail : ∀ xs : List Json, (∀ k ∈ keysElems xs, WellFormed k) →
    WellFormed (stableElemsTail xs)
  | [], _ => .unit (by decide) (by decide) .nil
  | x :: xs, h => by
    rw [stableElemsTail]
    have hx := wellFormed_stableStringify x fun k hk => h k (by simp [keysElems, hk])
    have hxs := wellFormed_stableElemsTail xs fun k hk => h k (by simp [keysElems, hk])
    exact .unit (by decide) (by decide) (hx.append hxs)

theorem wellFormed_stableMembersTail : ∀ ms : List (Str × Json), (∀ k ∈ keysMembers ms, WellFormed k) →
    WellFormed (stableMembersTail ms)
  | [], _ => .unit (by decide) (by decide) .nil
  | (k, v) :: ms, h => by
    rw [stableMembersTail]
    have hk := h k (by simp [keysMembers])
    have hv := wellFormed_stableStringify v fun k hk => h k (by simp [keysMembers, hk])
    have hms := wellFormed_stableMembersTail ms fun k hk => h k (by simp [keysMembers, hk])
    exact .unit (by decide) (by decide) (wellFormed_key hk (hv.append hms))

end

theorem encode_stableText_eq_iff {v w : Json} (hv : ∀ k ∈ keys v, WellFormed k) (hw : ∀ k ∈ keys w, WellFormed k) :
    encode (stableText v) = encode (stableText w) ↔ stableText v = stableText w := by
  constructor
  · intro h
    have hdecode := congrArg decode h
    rwa [stableText, decode_encode (wellFormed_stableStringify _ fun k hk => hv k (keys_canonical v hk)), stableText,
      decode_encode (wellFormed_stableStringify _ fun k hk => hw k (keys_canonical w hk))] at hdecode
  · exact congrArg encode

/-! ## Companions -/

/-- Members are written as one member is, whose key has all before the last value in it. -/
theorem merge_members (e : Str × Json) (ms : List (Str × Json)) : ∃ k u, u ∈ (e :: ms).map snd ∧
    quote :: (e.1 ++ quote :: colon :: (stableStringify e.2 ++ stableMembersTail ms)) =
      quote :: (k ++ quote :: colon :: (stableStringify u ++ [rbrace])) := by
  induction ms generalizing e with
  | nil => exact ⟨e.1, e.2, by simp, by simp [stableMembersTail]⟩
  | cons e' ms ih =>
    obtain ⟨k, u, hu, htext⟩ := ih e'
    refine ⟨e.1 ++ quote :: colon :: (stableStringify e.2 ++ comma :: quote :: k), u, mem_cons_of_mem _ hu, ?_⟩
    simp [stableMembersTail, htext]

/-- An object with members has the text of an object with one of its values. -/
theorem exists_companion {ms : List (Str × Json)} (h : ms ≠ []) : ∃ k u, u ∈ ms.map snd ∧
    stableStringify (.obj ms) = stableStringify (.obj [(k, u)]) := by
  obtain ⟨e, ms, rfl⟩ := exists_cons_of_ne_nil h
  obtain ⟨k, u, hu, htext⟩ := merge_members e ms
  exact ⟨k, u, hu, by simpa [stableStringify, stableMembersTail] using htext⟩

/-! ## What counts of a namespace -/

/-- An object without the member under a key. -/
def without {ν : Type*} (key : Str) : JsonData ν → JsonData ν
  | .obj members => .obj fun k => if k = key then .absent else members k
  | d => d

/-- All but `hasChanges`, and in compliance facts all but `patches.lastScanUtc`. -/
def counted {ν : Type*} : Gated → JsonData ν → JsonData ν
  | .pmp, d => without (text "hasChanges") d
  | .scp, d =>
    match without (text "hasChanges") d with
    | .obj members => .obj fun k => if k = text "patches" then without (text "lastScanUtc") (members k) else members k
    | d => d

namespace Value

section Counted

variable {key : Str} {v : Value} {ms : List (Str × Value)}

theorem orElse_absent {ν : Type*} (d : JsonData ν) : d.orElse .absent = d := by
  cases d <;> rfl

theorem isDefined_omitKey (key : Str) (v : Value) : (omitKey key v).isDefined = v.isDefined := by
  cases v <;> rfl

theorem membersData_filter (key : Str) (ms : List (Str × Value)) (k : Str) :
    membersData (definedMembers (ms.filter fun e => e.1 ≠ key)) k =
      if k = key then .absent else membersData (definedMembers ms) k := by
  induction ms with
  | nil => simp [definedMembers, membersData]
  | cons e ms ih =>
    obtain ⟨j, v⟩ := e
    by_cases hj : j = key
    · subst hj
      rw [filter_cons_of_neg (by simp), ih, definedMembers]
      split
      · rfl
      · split
        · rename_i hk _
          simp [membersData, Ne.symm hk, orElse_absent]
        · rfl
    · rw [filter_cons_of_pos (by simpa using hj), definedMembers, definedMembers]
      split
      · rw [membersData, membersData, ih]
        by_cases hk : k = key
        · subst hk
          simp [hj, JsonData.orElse]
        · simp [hk]
      · exact ih

theorem data_omitKey (key : Str) (v : Value) : (omitKey key v).defined.data = without key v.defined.data := by
  cases v with
  | obj ms =>
    simp only [omitKey, defined, data, without, JsonData.obj.injEq]
    exact funext (membersData_filter key ms)
  | _ => rfl

theorem without_orElse {ν : Type*} (d e : JsonData ν) :
    without key (d.orElse e) = (without key d).orElse (without key e) := by
  cases d <;> rfl

theorem membersData_map (inner : Str) (ms : List (Str × Value)) (k : Str) :
    membersData (definedMembers (ms.map fun e => if e.1 = key then (e.1, omitKey inner e.2) else e)) k =
      if k = key then without inner (membersData (definedMembers ms) k) else membersData (definedMembers ms) k := by
  induction ms with
  | nil => simp [definedMembers, membersData, without]
  | cons e ms ih =>
    obtain ⟨j, v⟩ := e
    rw [map_cons, definedMembers]
    by_cases hj : j = key
    · subst hj
      rw [if_pos rfl, definedMembers, isDefined_omitKey]
      split
      · rw [membersData, membersData, ih, data_omitKey]
        by_cases hk : k = j
        · subst hk
          simp [without_orElse]
        · simp [hk, Ne.symm hk]
      · exact ih
    · rw [if_neg hj, definedMembers]
      split
      · rw [membersData, membersData, ih]
        by_cases hk : k = key
        · subst hk
          simp [hj, orElse_absent]
        · simp [hk]
      · exact ih

/-- What is hashed says what counts. -/
theorem data_state (g : Gated) (v : Value) : (state g v).defined.data = counted g v.defined.data := by
  cases g with
  | pmp => exact data_omitKey _ v
  | scp =>
    cases v with
    | obj ms =>
      have hstate : state .scp (.obj ms) = .obj ((ms.filter fun e => e.1 ≠ text "hasChanges").map fun e =>
          if e.1 = text "patches" then (e.1, omitKey (text "lastScanUtc") e.2) else e) := rfl
      rw [hstate, defined, data, counted, defined, data, without, JsonData.obj.injEq]
      funext k
      rw [membersData_map, membersData_filter]
    | _ => rfl

theorem distinctMembers_iff (ms : List (Str × Value)) : DistinctMembers ms ↔ ∀ e ∈ ms, e.2.Distinct := by
  induction ms with
  | nil => simp [DistinctMembers]
  | cons e ms ih => simp [DistinctMembers, ih]

theorem Distinct.omitKey (h : v.Distinct) (key : Str) : (omitKey key v).Distinct := by
  cases v with
  | obj ms =>
    rw [omitKey, Distinct, distinctMembers_iff]
    rw [Distinct, distinctMembers_iff] at h
    exact ⟨(filter_sublist.map fst).nodup h.1, fun e he => h.2 e (mem_of_mem_filter he)⟩
  | _ => exact h

theorem Distinct.state (h : v.Distinct) (g : Gated) : (state g v).Distinct := by
  cases g with
  | pmp => exact h.omitKey _
  | scp =>
    have hrest := h.omitKey (text "hasChanges")
    rw [Value.state, buildScpStateForHash]
    split
    · rename_i ms hms
      rw [hms, Distinct, distinctMembers_iff] at hrest
      have hkeys : ((ms.map fun e => if e.1 = text "patches" then (e.1, Value.omitKey (text "lastScanUtc") e.2)
          else e).map fst) = ms.map fst := by
        rw [List.map_map]
        refine map_congr_left fun e _ => ?_
        simp only [comp]
        split <;> rfl
      rw [Distinct, distinctMembers_iff, hkeys]
      refine ⟨hrest.1, fun e he => ?_⟩
      obtain ⟨e', he', rfl⟩ := mem_map.mp he
      split
      · exact (hrest.2 e' he').omitKey _
      · exact hrest.2 e' he'
    · exact hrest

end Counted

/-! ## Hashes -/

/-- A value as the language has it. -/
structure JsonLike where
  value : Value
  distinct : value.Distinct

def JsonLike.meaning (a : JsonLike) : JsonData Numeral := a.value.defined.data

def JsonLike.keys (a : JsonLike) : List Str := Scheduler.keys a.value.defined

def JsonLike.state (g : Gated) (a : JsonLike) : JsonLike := ⟨Value.state g a.value, a.distinct.state g⟩

section Hashes

variable (lc : Str → Str → Ordering)

theorem hashedText_eq_of_meaning {a b : JsonLike} (h : a.meaning = b.meaning) :
    hashedText lc a.value = hashedText lc b.value := by
  rw [hashedText_eq lc a.distinct, hashedText_eq lc b.distinct, stableText, stableText, (canonical_eq_iff _ _).mpr h]

theorem hashedText_eq_iff {a b : JsonLike} (h : Apart a.keys b.keys) :
    hashedText lc a.value = hashedText lc b.value ↔ a.meaning = b.meaning := by
  rw [hashedText_eq lc a.distinct, hashedText_eq lc b.distinct]
  exact stableText_eq_iff h

theorem hashNamespace_eq_iff {sha256 : List UInt8 → Str} (hsha : Injective sha256) {a b : JsonLike}
    (h : Apart a.keys b.keys) (ha : ∀ k ∈ a.keys, WellFormed k) (hb : ∀ k ∈ b.keys, WellFormed k) :
    hashNamespace lc sha256 a.value = hashNamespace lc sha256 b.value ↔ a.meaning = b.meaning := by
  rw [hashNamespace, hashNamespace, hsha.eq_iff, hashedText_eq lc a.distinct, hashedText_eq lc b.distinct,
    encode_stableText_eq_iff ha hb]
  exact stableText_eq_iff h

theorem mem_definedMembers {ms : List (Str × Value)} {k : Str} {v : Value} (h : (k, v) ∈ ms)
    (hv : v.isDefined) : (k, v.defined) ∈ definedMembers ms := by
  rw [definedMembers_eq]
  exact mem_map.mpr ⟨(k, v), mem_filter.mpr ⟨h, hv⟩, rfl⟩

theorem membersData_ne_absent {ms : List (Str × Value)} (hdistinct : (ms.map fst).Nodup) {k : Str} {v : Value}
    (h : (k, v) ∈ ms) (hv : v.isDefined) : membersData (definedMembers ms) k ≠ .absent := by
  have hlast := (last_eq_some_iff (nodup_definedMembers hdistinct)).mpr (mem_definedMembers h hv)
  rw [membersData_eq, hlast]
  exact data_ne_absent _

/-- An object with two members has the text of an object with one, which says something else. -/
theorem exists_collision {ms : List (Str × Value)} (hdistinct : (obj ms).Distinct) {k l : Str} {v w : Value}
    (hk : (k, v) ∈ ms) (hl : (l, w) ∈ ms) (hkl : k ≠ l) (hv : v.isDefined) (hw : w.isDefined) :
    ∃ b : JsonLike, hashedText lc (.obj ms) = hashedText lc b.value ∧ (obj ms).defined.data ≠ b.meaning := by
  have hne : definedMembers ms ≠ [] := ne_nil_of_mem (mem_definedMembers hk hv)
  have hcanonical : canonicalMembers (definedMembers ms) [] ≠ [] := canonicalMembers_ne_nil (.inl hne)
  obtain ⟨key, u, hu, htext⟩ := exists_companion hcanonical
  obtain ⟨e, he, rfl⟩ := mem_map.mp hu
  obtain hnil | ⟨e', he', hvalue⟩ := exists_of_mem_canonicalMembers he
  · simp at hnil
  rw [definedMembers_eq] at he'
  obtain ⟨e₀, he₀, rfl⟩ := mem_map.mp he'
  obtain ⟨hmem, hdefined⟩ := mem_filter.mp he₀
  have hdistinct' := hdistinct
  rw [Distinct, distinctMembers_iff] at hdistinct'
  -- the value of the last member under a key that has all the rest in it
  have hb : (obj [(key, e₀.2)]).Distinct := by
    simp [Distinct, DistinctMembers, hdistinct'.2 e₀ hmem]
  refine ⟨⟨.obj [(key, e₀.2)], hb⟩, ?_, fun hmeaning => hkl ?_⟩
  · rw [hashedText_eq lc hdistinct, hashedText_eq lc hb, stableText, stableText, defined, canonical, htext, hvalue]
    simp [defined, definedMembers, hdefined, canonical, canonicalMembers, insertMember]
  · -- both keys are that one
    have honly {j : Str} (hj : membersData (definedMembers ms) j ≠ .absent) : j = key := by
      by_contra hjk
      simp only [JsonLike.meaning, defined, data, JsonData.obj.injEq, definedMembers, hdefined] at hmeaning
      refine hj ((congrFun hmeaning j).trans ?_)
      simp [membersData, Ne.symm hjk, JsonData.orElse]
    exact (honly (membersData_ne_absent hdistinct'.1 hk hv)).trans
      (honly (membersData_ne_absent hdistinct'.1 hl hw)).symm

end Hashes

/-- Values that say the same have one text. Where no key begins with a key of the other value, a quotation mark and a
colon, values with one text say the same; and so do, in what counts, namespaces with one hash, if their keys are well
formed. Of every object with two members, another value has the text. -/
theorem hashed_apart (localeCompare : Str → Str → Ordering) :
    (∀ a b : JsonLike, a.meaning = b.meaning → hashedText localeCompare a.value = hashedText localeCompare b.value) ∧
    (∀ a b : JsonLike, Apart a.keys b.keys →
      (hashedText localeCompare a.value = hashedText localeCompare b.value ↔ a.meaning = b.meaning)) ∧
    (∀ sha256 : List UInt8 → Str, Injective sha256 → ∀ (g : Gated) (a b : JsonLike),
      Apart (a.state g).keys (b.state g).keys → (∀ k ∈ (a.state g).keys, WellFormed k) →
      (∀ k ∈ (b.state g).keys, WellFormed k) →
      (hashNamespace localeCompare sha256 (state g a.value) = hashNamespace localeCompare sha256 (state g b.value) ↔
        counted g a.meaning = counted g b.meaning)) ∧
    ∀ ms, (obj ms).Distinct → ∀ k v l w, (k, v) ∈ ms → (l, w) ∈ ms → k ≠ l → v.isDefined = true → w.isDefined = true →
      ∃ b : JsonLike, hashedText localeCompare (.obj ms) = hashedText localeCompare b.value ∧
        (obj ms).defined.data ≠ b.meaning := by
  refine ⟨fun a b => hashedText_eq_of_meaning localeCompare, fun a b => hashedText_eq_iff localeCompare, ?_, ?_⟩
  · intro sha256 hsha g a b hapart ha hb
    rw [JsonLike.meaning, JsonLike.meaning, ← data_state, ← data_state]
    exact hashNamespace_eq_iff localeCompare hsha (a := a.state g) (b := b.state g) hapart ha hb
  · intro ms hdistinct k v l w hk hl hkl hv hw
    exact exists_collision localeCompare hdistinct hk hl hkl hv hw

section Samples

def sampleCompare (k l : Str) : Ordering := if k < l then .lt else if k = l then .eq else .gt

def one : Value := .num ⟨text "1", by decide⟩

def sampleTwo : JsonLike where
  value := .obj [(text "a", one), (text "b", .null)]
  distinct := by simp [Distinct, DistinctMembers, one]; decide

/-- The key has a quotation mark and a colon in it. -/
def sampleOne : JsonLike where
  value := .obj [(text "a\":1,\"b", .null)]
  distinct := by simp [Distinct, DistinctMembers]

theorem apart_sampleTwo : Apart sampleTwo.keys sampleTwo.keys := by
  have hkeys : sampleTwo.keys = [text "a", text "b"] := by decide
  rw [hkeys]
  simp only [Apart, KeysApart, forall_mem_cons, not_mem_nil, false_implies, implies_true]
  decide

/-- Two objects that say different things have one text. -/
theorem hashed_collides : hashedText sampleCompare sampleTwo.value = hashedText sampleCompare sampleOne.value ∧
      sampleTwo.meaning ≠ sampleOne.meaning := by
  constructor
  · rw [hashedText_eq _ sampleTwo.distinct, hashedText_eq _ sampleOne.distinct]
    decide
  · intro h
    simp only [JsonLike.meaning, sampleTwo, sampleOne, defined, data, JsonData.obj.injEq] at h
    have hmember := congrFun h (text "a")
    have hother : text "b" ≠ text "a" := by decide
    have hone : text "a\":1,\"b" ≠ text "a" := by decide
    simp [definedMembers, isDefined, membersData, one, defined, data, hother, hone, JsonData.orElse] at hmember

/-- Bytes as units are an injective hash. -/
theorem toUInt16_injective : Function.Injective (List.map UInt8.toUInt16) :=
  map_injective_iff.mpr fun b c h => by
    have hnat := congrArg UInt16.toNat h
    exact UInt8.toNat_inj.mp (by simpa using hnat)

theorem hashed_apart_sample : (hashedText sampleCompare sampleTwo.value = hashedText sampleCompare sampleTwo.value ↔
      sampleTwo.meaning = sampleTwo.meaning) ∧
    (hashNamespace sampleCompare (List.map UInt8.toUInt16) (state .pmp sampleTwo.value) =
        hashNamespace sampleCompare (map UInt8.toUInt16) (state .pmp sampleTwo.value) ↔
      counted .pmp sampleTwo.meaning = counted .pmp sampleTwo.meaning) ∧
    ∃ b : JsonLike, hashedText sampleCompare (.obj [(text "a", one), (text "b", .null)]) =
        hashedText sampleCompare b.value ∧ (obj [(text "a", one), (text "b", .null)]).defined.data ≠ b.meaning := by
  have hkeys : (sampleTwo.state .pmp).keys = sampleTwo.keys := by decide
  have hformed : ∀ k ∈ (sampleTwo.state .pmp).keys, WellFormed k := by
    have hlist : (sampleTwo.state .pmp).keys = [text "a", text "b"] := by decide
    rw [hlist]
    simp only [forall_mem_cons, not_mem_nil, false_implies, implies_true, and_true]
    exact ⟨.unit (by decide) (by decide) .nil, .unit (by decide) (by decide) .nil⟩
  refine ⟨?_, ?_, ?_⟩
  · exact (hashed_apart sampleCompare).2.1 sampleTwo sampleTwo apart_sampleTwo
  · exact (hashed_apart sampleCompare).2.2.1 _ toUInt16_injective .pmp sampleTwo sampleTwo
      (by rw [hkeys]; exact apart_sampleTwo) hformed hformed
  · exact (hashed_apart sampleCompare).2.2.2 _ sampleTwo.distinct (text "a") one (text "b") .null (by simp)
      (by simp) (by decide) rfl rfl

end Samples

end Value

end Scheduler
