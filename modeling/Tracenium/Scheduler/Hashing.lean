-- SUMMARY: The text that a namespace is hashed by, and the keys for which it tells two namespaces apart.
import Tracenium.Lib.Segments
import Tracenium.Scheduler.ChangeGate

/-!
`normalizeForHash`, `stableStringify` and `hashNamespace` of `src/core/namespace-hash.ts` on values with `undefined` in
them. Keys are written as they are, so that a key with a quotation mark and a colon in it may look like the end of
another one.
-/

open Utf16 Utf8 Json List Prod

namespace Scheduler

open Segments

/-- A number is how `JSON.stringify` spells it. -/
inductive Value
  | undefined
  | null
  | bool (b : Bool)
  | num (n : Numeral)
  | str (s : Str)
  | arr (xs : List Value)
  | obj (ms : List (Str × Value))

namespace Value

def isDefined : Value → Bool
  | .undefined => false
  | _ => true

/-! ## The text -/

/-- `entries.sort(([left], [right]) => left.localeCompare(right))`. -/
def sortEntries (localeCompare : Str → Str → Ordering) (ms : List (Str × Value)) : List (Str × Value) :=
  ms.mergeSort fun e e' => localeCompare e.1 e'.1 != .gt

mutual

def normalizeForHash (localeCompare : Str → Str → Ordering) : Value → Value
  | .undefined => .null
  | .arr xs => .arr (normalizeElems localeCompare xs)
  | .obj ms => .obj (sortEntries localeCompare (normalizeEntries localeCompare ms))
  | v => v

def normalizeElems (localeCompare : Str → Str → Ordering) : List Value → List Value
  | [] => []
  | x :: xs => normalizeForHash localeCompare x :: normalizeElems localeCompare xs

/-- The entries that are not `undefined`. Sorting looks at their keys only, so it may come after. -/
def normalizeEntries (localeCompare : Str → Str → Ordering) : List (Str × Value) → List (Str × Value)
  | [] => []
  | (k, v) :: ms =>
    if v.isDefined then (k, normalizeForHash localeCompare v) :: normalizeEntries localeCompare ms
    else normalizeEntries localeCompare ms

end

/-- Put a member at its place in the order of the keys. -/
def insertPart (k part : Str) : List (Str × Str) → List (Str × Str)
  | [] => [(k, part)]
  | e :: es =>
    if e.1 = k then (k, part) :: es
    else if k < e.1 then (k, part) :: e :: es
    else e :: insertPart k part es

mutual

/-- What `JSON.stringify` makes of `undefined` is no text; after `normalizeForHash` there is none. -/
def stableStringify : Value → Str
  | .undefined => []
  | .null => nullText
  | .bool b => if b then trueText else falseText
  | .num n => n.text
  | .str s => quoted s
  | .arr xs => lbracket :: (spell comma (stableElems xs) ++ [rbracket])
  | .obj ms =>
    lbrace :: (spell comma ((stableParts ms []).map fun e => quote :: (e.1 ++ quote :: colon :: e.2)) ++ [rbrace])

def stableElems : List Value → List Str
  | [] => []
  | x :: xs => stableStringify x :: stableElems xs

/-- The texts of the members, sorted by their keys. -/
def stableParts : List (Str × Value) → List (Str × Str) → List (Str × Str)
  | [], parts => parts
  | (k, v) :: ms, parts => stableParts ms (insertPart k (stableStringify v) parts)

end

def hashedText (localeCompare : Str → Str → Ordering) (v : Value) : Str :=
  stableStringify (normalizeForHash localeCompare v)

def hashNamespace (localeCompare : Str → Str → Ordering) (sha256 : List UInt8 → Str) (v : Value) : Str :=
  sha256 (encode (hashedText localeCompare v))

/-! ## What is hashed of a namespace -/

/-- `const { [key]: _, ...rest } = v`, for an object. -/
def omitKey (key : Str) : Value → Value
  | .obj ms => .obj (ms.filter fun e => e.1 ≠ key)
  | v => v

def buildPmpStateForHash (ns : Value) : Value := omitKey (text "hasChanges") ns

def buildScpStateForHash (ns : Value) : Value :=
  match omitKey (text "hasChanges") ns with
  | .obj ms => .obj (ms.map fun e => if e.1 = text "patches" then (e.1, omitKey (text "lastScanUtc") e.2) else e)
  | rest => rest

def state : Gated → Value → Value
  | .scp => buildScpStateForHash
  | .pmp => buildPmpStateForHash

/-! ## What a value says -/

mutual

/-- Members that are `undefined` are not there, and elements that are count as `null`. -/
def defined : Value → Json
  | .undefined => .null
  | .null => .null
  | .bool b => .bool b
  | .num n => .num n
  | .str s => .str s
  | .arr xs => .arr (definedElems xs)
  | .obj ms => .obj (definedMembers ms)

def definedElems : List Value → List Json
  | [] => []
  | x :: xs => x.defined :: definedElems xs

def definedMembers : List (Str × Value) → List (Str × Json)
  | [] => []
  | (k, v) :: ms => if v.isDefined then (k, v.defined) :: definedMembers ms else definedMembers ms

end

mutual

/-- No object has two members with one key. -/
def Distinct : Value → Prop
  | .arr xs => DistinctElems xs
  | .obj ms => (ms.map fst).Nodup ∧ DistinctMembers ms
  | _ => True

def DistinctElems : List Value → Prop
  | [] => True
  | x :: xs => x.Distinct ∧ DistinctElems xs

def DistinctMembers : List (Str × Value) → Prop
  | [] => True
  | (_, v) :: ms => v.Distinct ∧ DistinctMembers ms

end

/-! ## Members by key -/

section Members

variable {ms ns : List (Str × Json)} {k : Str} {v : Json}

/-- Where keys are distinct, the member that counts under a key is the one that is there. -/
theorem last_eq_some_iff (h : (ms.map fst).Nodup) : last k ms = some v ↔ (k, v) ∈ ms := by
  induction ms with
  | nil => simp [last]
  | cons e ms ih =>
    obtain ⟨j, u⟩ := e
    rw [map_cons, nodup_cons] at h
    rw [last, Option.or_eq_some_iff, ih h.2, mem_cons, mk.injEq]
    have hnone (hk : k = j) : last k ms = none := last_eq_none fun e he heq => by
      subst hk
      exact h.1 (mem_map.mpr ⟨e, he, heq⟩)
    constructor
    · rintro (hmem | ⟨-, hhead⟩)
      · exact .inr hmem
      · split at hhead
        · exact .inl ⟨by simp_all, by simp_all⟩
        · cases hhead
    · rintro (⟨rfl, rfl⟩ | hmem)
      · exact .inr ⟨hnone rfl, by simp⟩
      · exact .inl hmem

theorem last_perm (hperm : ms.Perm ns) (h : (ms.map fst).Nodup) : last k ms = last k ns := by
  have h' : (ns.map fst).Nodup := (hperm.map fst).nodup_iff.mp h
  ext v
  rw [last_eq_some_iff h, last_eq_some_iff h', hperm.mem_iff]

end Members

theorem definedMembers_eq (ms : List (Str × Value)) :
    definedMembers ms = (ms.filter fun e => e.2.isDefined).map fun e => (e.1, e.2.defined) := by
  induction ms with
  | nil => rfl
  | cons e ms ih =>
    obtain ⟨k, v⟩ := e
    rw [definedMembers]
    split <;> simp_all

theorem nodup_definedMembers {ms : List (Str × Value)} (h : (ms.map fst).Nodup) :
    ((definedMembers ms).map Prod.fst).Nodup := by
  rw [definedMembers_eq, List.map_map]
  exact (Sublist.map fst filter_sublist).nodup h

/-! ## Normalized values -/

section Normalized

variable (lc : Str → Str → Ordering)

theorem perm_sortEntries (ms : List (Str × Value)) : (sortEntries lc ms).Perm ms := mergeSort_perm ms _

theorem isDefined_normalize (v : Value) : (normalizeForHash lc v).isDefined := by
  cases v <;> simp [normalizeForHash, isDefined]

theorem keys_normalizeEntries (ms : List (Str × Value)) :
    ((normalizeEntries lc ms).map fst).Sublist (ms.map fst) := by
  induction ms with
  | nil => simp [normalizeEntries]
  | cons e ms ih =>
    obtain ⟨k, v⟩ := e
    rw [normalizeEntries]
    split
    · exact ih.cons_cons k
    · exact ih.cons k

mutual

/-- Normalizing changes nothing that a value says. -/
theorem data_normalize : ∀ v : Value, v.Distinct → (normalizeForHash lc v).defined.data = v.defined.data
  | .undefined, _ | .null, _ | .bool _, _ | .num _, _ | .str _, _ => by simp [normalizeForHash, defined]
  | .arr xs, h => by
    obtain ⟨hlength, helems⟩ := data_normalizeElems xs (by simpa [Distinct] using h)
    simp [normalizeForHash, defined, data, hlength, helems]
  | .obj ms, h => by
    rw [Distinct] at h
    have hperm : (definedMembers (sortEntries lc (normalizeEntries lc ms))).Perm
        (definedMembers (normalizeEntries lc ms)) := by
      rw [definedMembers_eq, definedMembers_eq]
      exact ((perm_sortEntries lc _).filter _).map _
    have hnodup : ((definedMembers (normalizeEntries lc ms)).map fst).Nodup :=
      nodup_definedMembers ((keys_normalizeEntries lc ms).nodup h.1)
    have hmembers : membersData (definedMembers (sortEntries lc (normalizeEntries lc ms))) =
        membersData (definedMembers ms) := by
      refine membersData_eq_iff.mpr fun k => ?_
      rw [← last_perm hperm.symm hnodup, data_normalizeEntries ms h.2 k]
    simp [normalizeForHash, defined, data, hmembers]

theorem data_normalizeElems : ∀ xs : List Value, DistinctElems xs →
    (definedElems (normalizeElems lc xs)).length = (definedElems xs).length ∧
      elemsData (definedElems (normalizeElems lc xs)) = elemsData (definedElems xs)
  | [], _ => ⟨rfl, rfl⟩
  | x :: xs, h => by
    rw [DistinctElems] at h
    obtain ⟨hlength, helems⟩ := data_normalizeElems xs h.2
    have hx := data_normalize x h.1
    refine ⟨by simp [normalizeElems, definedElems, hlength], funext fun i => ?_⟩
    cases i with
    | zero => exact hx
    | succ i => exact congrFun helems i

theorem data_normalizeEntries : ∀ ms : List (Str × Value), DistinctMembers ms → ∀ k,
    (last k (definedMembers (normalizeEntries lc ms))).map data = (last k (definedMembers ms)).map data
  | [], _, _ => rfl
  | (j, v) :: ms, h, k => by
    rw [DistinctMembers] at h
    have hv := data_normalize v h.1
    have hms := data_normalizeEntries ms h.2 k
    rw [normalizeEntries, definedMembers]
    split
    · rw [definedMembers, if_pos (isDefined_normalize lc v), last, last, Option.map_or, Option.map_or, hms]
      split <;> simp [hv]
    · exact hms

end

end Normalized

mutual

/-- Nothing in the value is `undefined`. -/
def Normal : Value → Prop
  | .undefined => False
  | .arr xs => NormalElems xs
  | .obj ms => NormalMembers ms
  | _ => True

def NormalElems : List Value → Prop
  | [] => True
  | x :: xs => x.Normal ∧ NormalElems xs

def NormalMembers : List (Str × Value) → Prop
  | [] => True
  | (_, v) :: ms => v.Normal ∧ NormalMembers ms

end

theorem normalMembers_iff (ms : List (Str × Value)) : NormalMembers ms ↔ ∀ e ∈ ms, e.2.Normal := by
  induction ms with
  | nil => simp [NormalMembers]
  | cons e ms ih => simp [NormalMembers, ih]

theorem Normal.isDefined {v : Value} (h : v.Normal) : v.isDefined := by
  cases v <;> first | rfl | exact absurd h (by simp [Normal])

section Normal

variable (lc : Str → Str → Ordering)

mutual

theorem normal_normalize : ∀ v : Value, (normalizeForHash lc v).Normal
  | .undefined | .null | .bool _ | .num _ | .str _ => by simp [normalizeForHash, Normal]
  | .arr xs => by simpa [normalizeForHash, Normal] using normal_normalizeElems xs
  | .obj ms => by
    have hentries := (normalMembers_iff _).mp (normal_normalizeEntries ms)
    rw [normalizeForHash, Normal, normalMembers_iff]
    exact fun e he => hentries e ((perm_sortEntries lc _).mem_iff.mp he)

theorem normal_normalizeElems : ∀ xs : List Value, NormalElems (normalizeElems lc xs)
  | [] => trivial
  | x :: xs => ⟨normal_normalize x, normal_normalizeElems xs⟩

theorem normal_normalizeEntries : ∀ ms : List (Str × Value), NormalMembers (normalizeEntries lc ms)
  | [] => trivial
  | (k, v) :: ms => by
    have hv := normal_normalize v
    have hms := normal_normalizeEntries ms
    rw [normalizeEntries]
    split
    · exact ⟨hv, hms⟩
    · exact hms

end

end Normal

/-! ## The text of a value without `undefined` -/

def part (e : Str × Str) : Str := quote :: (e.1 ++ quote :: colon :: e.2)

def textOf (e : Str × Json) : Str × Str := (e.1, Scheduler.stableStringify e.2)

theorem stableElemsTail_eq (x : Str) (xs : List Json) : x ++ stableElemsTail xs =
    spell comma (x :: xs.map Scheduler.stableStringify) ++ [rbracket] := by
  induction xs generalizing x with
  | nil => rfl
  | cons y xs ih => simp [stableElemsTail, spell, ih]

theorem stableStringify_arr (xs : List Json) : Scheduler.stableStringify (.arr xs) =
    lbracket :: (spell comma (xs.map Scheduler.stableStringify) ++ [rbracket]) := by
  cases xs with
  | nil => rfl
  | cons x xs => rw [Scheduler.stableStringify, stableElemsTail_eq, map_cons]

theorem stableMembersTail_eq (x : Str) (ms : List (Str × Json)) : x ++ stableMembersTail ms =
    spell comma (x :: ms.map fun e => part (textOf e)) ++ [rbrace] := by
  induction ms generalizing x with
  | nil => rfl
  | cons e ms ih =>
    have hrest := ih (part (textOf e))
    simp only [part, textOf, cons_append, append_assoc] at hrest
    simp [stableMembersTail, spell, part, textOf, hrest]

theorem stableStringify_obj (ms : List (Str × Json)) : Scheduler.stableStringify (.obj ms) =
    lbrace :: (spell comma (ms.map fun e => part (textOf e)) ++ [rbrace]) := by
  cases ms with
  | nil => rfl
  | cons e ms =>
    rw [map_cons, ← stableMembersTail_eq]
    simp [Scheduler.stableStringify, part, textOf]

theorem insertPart_map (k : Str) (v : Json) (ms : List (Str × Json)) :
    insertPart k (Scheduler.stableStringify v) (ms.map textOf) = (insertMember k v ms).map textOf := by
  induction ms with
  | nil => rfl
  | cons e ms ih =>
    rw [map_cons, insertPart, insertMember]
    by_cases hsame : e.1 = k
    · simp [textOf, hsame]
    · by_cases hlt : k < e.1
      · simp [textOf, hsame, hlt]
      · rw [if_neg hsame, if_neg hlt, map_cons, ← ih]
        simp [textOf, hsame, hlt]

mutual

/-- The members are written in the order of their keys, as in the canonical form. -/
theorem stableStringify_eq : ∀ v : Value, v.Normal → v.stableStringify = Scheduler.stableStringify v.defined.canonical
  | .undefined, h => absurd h (by simp [Normal])
  | .null, _ | .bool _, _ | .num _, _ | .str _, _ => by
    simp [stableStringify, Scheduler.stableStringify, defined, canonical, stringify]
  | .arr xs, h => by
    rw [stableStringify, defined, canonical, stableStringify_arr, stableElems_eq xs (by simpa [Normal] using h)]
  | .obj ms, h => by
    have hparts := stableParts_eq ms (by simpa [Normal] using h) []
    rw [List.map_nil] at hparts
    rw [stableStringify, defined, canonical, stableStringify_obj, hparts, List.map_map]
    rfl

theorem stableElems_eq : ∀ xs : List Value, NormalElems xs →
    stableElems xs = (canonicalElems (definedElems xs)).map Scheduler.stableStringify
  | [], _ => rfl
  | x :: xs, h => by
    rw [NormalElems] at h
    rw [stableElems, definedElems, canonicalElems, map_cons, stableStringify_eq x h.1, stableElems_eq xs h.2]

theorem stableParts_eq : ∀ ms : List (Str × Value), NormalMembers ms → ∀ acc : List (Str × Json),
    stableParts ms (acc.map textOf) = (canonicalMembers (definedMembers ms) acc).map textOf
  | [], _, _ => rfl
  | (k, v) :: ms, h, acc => by
    rw [NormalMembers] at h
    rw [stableParts, definedMembers, if_pos h.1.isDefined, canonicalMembers, stableStringify_eq v h.1, insertPart_map,
      stableParts_eq ms h.2]

end

/-- The hashed text is that of the canonical form of what the value says. -/
theorem hashedText_eq (lc : Str → Str → Ordering) {v : Value} (h : v.Distinct) :
    hashedText lc v = stableText v.defined := by
  rw [hashedText, stableStringify_eq _ (normal_normalize lc v), stableText,
    (canonical_eq_iff _ _).mpr (data_normalize lc v h)]

end Value

end Scheduler
