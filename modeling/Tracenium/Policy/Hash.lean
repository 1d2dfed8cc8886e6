-- SUMMARY: When the hash of a policy tells it from every policy that says something else.
import Tracenium.Lib.JsonText
import Tracenium.Lib.Segments
import Tracenium.Policy.Store

/-!
`stableStringify` of `src/core/policy-store.ts` on the values that `JSON.parse` gives. A number that is out of the
range of a double is infinite, and `JSON.stringify` writes `null` for it.
-/

open Utf16 Utf8 Segments Json List Function

namespace Policy

open JsonData Segments

/-! ## Values -/

inductive Number (F : Type*)
  | finite (x : F)
  | infinite (negative : Bool)
  deriving DecidableEq

/-- The finite numbers, where `0` and `-0` are one: how `JSON.parse` reads a numeral, and how `JSON.stringify` spells a
number. -/
structure Numbers where
  Finite : Type
  read : Numeral → Number Finite
  spell : Finite → Numeral
  read_spell : ∀ x, read (spell x) = .finite x

inductive Value (F : Type)
  | null
  | bool (b : Bool)
  | num (x : Number F)
  | str (s : Str)
  | arr (xs : List (Value F))
  | obj (ms : List (Str × Value F))

variable (N : Numbers)

namespace Value

mutual

/-- What `JSON.parse` makes of a text. -/
def parsed : Json → Value N.Finite
  | .null => .null
  | .bool b => .bool b
  | .num n => .num (N.read n)
  | .str s => .str s
  | .arr xs => .arr (parsedElems xs)
  | .obj ms => .obj (parsedMembers ms)

def parsedElems : List Json → List (Value N.Finite)
  | [] => []
  | x :: xs => parsed x :: parsedElems xs

def parsedMembers : List (Str × Json) → List (Str × Value N.Finite)
  | [] => []
  | (k, v) :: ms => (k, parsed v) :: parsedMembers ms

end

/-! ## Serialization -/

/-- Put a part at its place in the order of the keys, in the place of the one with its key. -/
def insertPart (k part : Str) : List (Str × Str) → List (Str × Str)
  | [] => [(k, part)]
  | e :: es =>
    if e.1 = k then (k, part) :: es
    else if k < e.1 then (k, part) :: e :: es
    else e :: insertPart k part es

mutual

def stableStringify : Value N.Finite → Str
  | .null => nullText
  | .num (.finite x) => (N.spell x).text
  | .num (.infinite _) => nullText
  | .bool b => if b then trueText else falseText
  | .str s => quoted s
  | .arr xs => lbracket :: (spell comma (stableElems xs) ++ [rbracket])
  | .obj ms =>
    lbrace :: (spell comma ((stableParts ms []).map fun e => quoted e.1 ++ colon :: e.2) ++ [rbrace])

def stableElems : List (Value N.Finite) → List Str
  | [] => []
  | x :: xs => stableStringify x :: stableElems xs

def stableParts : List (Str × Value N.Finite) → List (Str × Str) → List (Str × Str)
  | [], parts => parts
  | (k, v) :: ms, parts => stableParts ms (insertPart k (stableStringify v) parts)

end

def computeHash (sha256 : List UInt8 → Str) (policyJson : Value N.Finite) : Str :=
  sha256 (encode (stableStringify N policyJson))

/-! ## What a value says -/

variable {F : Type}

mutual

def data : Value F → JsonData (Number F)
  | .null => .null
  | .bool b => .bool b
  | .num x => .num x
  | .str s => .str s
  | .arr xs => .arr xs.length (elemsData xs)
  | .obj ms => .obj (membersData ms)

def elemsData : List (Value F) → Nat → JsonData (Number F)
  | [], _ => .absent
  | x :: _, 0 => x.data
  | _ :: xs, i + 1 => elemsData xs i

def membersData : List (Str × Value F) → Str → JsonData (Number F)
  | [], _ => .absent
  | (k, v) :: ms, j => (membersData ms j).orElse (if k = j then v.data else .absent)

end

def inRange : Number F → Option F
  | .finite x => some x
  | .infinite _ => none

/-- The values say something else, but not when numbers out of range are taken for `null`. -/
def DifferOutOfRange (a b : Value F) : Prop :=
  a.data ≠ b.data ∧ a.data.mapNum inRange = b.data.mapNum inRange

/-! ## Spelled values -/

variable {N}

mutual

def spelled : Value N.Finite → Json
  | .null => .null
  | .bool b => .bool b
  | .num (.finite x) => .num (N.spell x)
  | .num (.infinite _) => .null
  | .str s => .str s
  | .arr xs => .arr (spelledElems xs)
  | .obj ms => .obj (spelledMembers ms)

def spelledElems : List (Value N.Finite) → List Json
  | [] => []
  | x :: xs => x.spelled :: spelledElems xs

def spelledMembers : List (Str × Value N.Finite) → List (Str × Json)
  | [] => []
  | (k, v) :: ms => (k, v.spelled) :: spelledMembers ms

end

theorem elemsTail_eq (x : Str) (xs : List Json) :
    x ++ elemsTail xs = spell comma (x :: xs.map stringify) ++ [rbracket] := by
  induction xs generalizing x with
  | nil => rfl
  | cons y xs ih => simp [elemsTail, spell, ih]

theorem stringify_arr (xs : List Json) :
    (Json.arr xs).stringify = lbracket :: (spell comma (xs.map stringify) ++ [rbracket]) := by
  cases xs with
  | nil => rfl
  | cons x xs => rw [stringify, elemsTail_eq, map_cons]

def part (e : Str × Json) : Str := quoted e.1 ++ colon :: e.2.stringify

theorem membersTail_eq (x : Str) (ms : List (Str × Json)) :
    x ++ membersTail ms = spell comma (x :: ms.map part) ++ [rbrace] := by
  induction ms generalizing x with
  | nil => rfl
  | cons e ms ih =>
    have hrest := ih (part e)
    simp only [part, append_assoc, cons_append] at hrest
    simp [membersTail, spell, part, hrest]

theorem stringify_obj (ms : List (Str × Json)) :
    (Json.obj ms).stringify = lbrace :: (spell comma (ms.map part) ++ [rbrace]) := by
  cases ms with
  | nil => rfl
  | cons e ms =>
    rw [map_cons, ← membersTail_eq]
    simp [stringify, part]

theorem insertPart_map (k : Str) (v : Json) (ms : List (Str × Json)) :
    insertPart k v.stringify (ms.map fun e => (e.1, e.2.stringify)) =
      (insertMember k v ms).map fun e => (e.1, e.2.stringify) := by
  induction ms with
  | nil => rfl
  | cons e ms ih =>
    simp only [map_cons, insertPart, insertMember]
    split
    · rfl
    · split
      · rfl
      · simp [ih]

mutual

/-- The text is that of the canonical form. -/
theorem stableStringify_eq : ∀ v : Value N.Finite, v.stableStringify N = Policy.stableStringify v.spelled
  | .null | .num (.finite _) | .num (.infinite _) | .bool _ | .str _ => by
    simp [stableStringify, Policy.stableStringify, spelled, canonical, stringify]
  | .arr xs => by
    rw [stableStringify, Policy.stableStringify, spelled, canonical, stringify_arr, stableElems_eq xs]
  | .obj ms => by
    have hparts := stableParts_eq ms []
    rw [stableStringify, Policy.stableStringify, spelled, canonical, stringify_obj]
    rw [map_nil] at hparts
    rw [hparts, map_map]
    rfl

theorem stableElems_eq : ∀ xs : List (Value N.Finite),
    stableElems N xs = (canonicalElems (spelledElems xs)).map stringify
  | [] => rfl
  | x :: xs => by
    have hx := stableStringify_eq x
    rw [stableElems, spelledElems, canonicalElems, map_cons, hx, stableElems_eq xs]
    rfl

theorem stableParts_eq : ∀ (ms : List (Str × Value N.Finite)) (acc : List (Str × Json)),
    stableParts N ms (acc.map fun e => (e.1, e.2.stringify)) =
      (canonicalMembers (spelledMembers ms) acc).map fun e => (e.1, e.2.stringify)
  | [], _ => rfl
  | (k, v) :: ms, acc => by
    have hv := stableStringify_eq v
    rw [stableParts, spelledMembers, canonicalMembers, hv, Policy.stableStringify, insertPart_map, stableParts_eq ms]

end

def written (N : Numbers) (x : Number N.Finite) : Option Numeral := (inRange x).map N.spell

mutual

theorem data_spelled : ∀ v : Value N.Finite, v.spelled.data = v.data.mapNum (written N)
  | .null | .num (.finite _) | .num (.infinite _) | .bool _ | .str _ => by
    simp [spelled, data, Json.data, mapNum, written, inRange]
  | .arr xs => by
    obtain ⟨hlength, helems⟩ := elemsData_spelled xs
    simp [spelled, data, Json.data, mapNum, hlength, helems]
  | .obj ms => by
    simp [spelled, data, Json.data, mapNum, membersData_spelled ms]

theorem elemsData_spelled : ∀ xs : List (Value N.Finite), (spelledElems xs).length = xs.length ∧
      Json.elemsData (spelledElems xs) = fun i => (elemsData xs i).mapNum (written N)
  | [] => ⟨rfl, rfl⟩
  | x :: xs => by
    obtain ⟨hlength, helems⟩ := elemsData_spelled xs
    refine ⟨by simp [spelledElems, hlength], ?_⟩
    funext i
    cases i with
    | zero => exact data_spelled x
    | succ i => exact congrFun helems i

theorem membersData_spelled : ∀ ms : List (Str × Value N.Finite),
    Json.membersData (spelledMembers ms) = fun k => (membersData ms k).mapNum (written N)
  | [] => rfl
  | (j, v) :: ms => by
    funext k
    rw [spelledMembers, Json.membersData, membersData, membersData_spelled ms, mapNum_orElse]
    split
    · rw [data_spelled v]
    · rfl

end

/-- The texts of two values are the same exactly if they say the same, numbers out of range aside. -/
theorem stableStringify_eq_iff {a b : Value N.Finite} :
    a.stableStringify N = b.stableStringify N ↔ a.data.mapNum inRange = b.data.mapNum inRange := by
  have hspell : Injective N.spell := by
    intro x y h
    have hread := N.read_spell x
    rw [h, N.read_spell] at hread
    exact (Number.finite.inj hread).symm
  have hwritten : ∀ v : Value N.Finite,
      v.data.mapNum (written N) = (v.data.mapNum inRange).mapNum fun x => some (N.spell x) :=
    fun v => (mapNum_mapNum inRange N.spell v.data).symm
  rw [stableStringify_eq, stableStringify_eq, Policy.stableStringify, Policy.stableStringify,
    stringify_injective.eq_iff, canonical_eq_iff, data_spelled, data_spelled, hwritten, hwritten,
    (mapNum_injective hspell).eq_iff]

theorem computeHash_eq_iff {sha256 : List UInt8 → Str} (hsha : Injective sha256) {a b : Value N.Finite} :
    a.computeHash N sha256 = b.computeHash N sha256 ↔ a.stableStringify N = b.stableStringify N := by
  rw [computeHash, computeHash, hsha.eq_iff, stableStringify_eq, stableStringify_eq]
  exact encode_stringify_injective.eq_iff.trans stringify_injective.eq_iff.symm

/-- The text of a policy, and its hash, tell it from another one exactly if the two do not differ in numbers out of
range only. -/
theorem stable_iff_not_differOutOfRange (N : Numbers) (sha256 : List UInt8 → Str)
    (hsha : Injective sha256) (a b : Value N.Finite) :
    ((a.stableStringify N = b.stableStringify N ↔ a.data = b.data) ∧
      (a.computeHash N sha256 = b.computeHash N sha256 ↔ a.data = b.data)) ↔ ¬ DifferOutOfRange a b := by
  rw [computeHash_eq_iff hsha, and_self, stableStringify_eq_iff, DifferOutOfRange]
  constructor
  · rintro h ⟨hdiffer, hsame⟩
    exact hdiffer (h.mp hsame)
  · intro h
    refine ⟨fun hsame => ?_, fun hsame => congrArg _ hsame⟩
    by_contra hdiffer
    exact h ⟨hdiffer, hsame⟩

/-! ## Samples -/

/-- Numerals that are numbers as they are, and one that is out of range. -/
def sampleNumbers : Numbers where
  Finite := { n : Numeral // n.text ≠ text "1e400" }
  read n := if h : n.text ≠ text "1e400" then .finite ⟨n, h⟩ else .infinite false
  spell n := n.val
  read_spell n := dif_pos n.property

theorem toUInt16_injective : Injective (map UInt8.toUInt16) :=
  map_injective_iff.mpr fun b c h => by
    have hnat := congrArg UInt16.toNat h
    exact UInt8.toNat_inj.mp (by simpa using hnat)

/-- The order of the members makes no difference. -/
theorem stable_swapped :
    (parsed sampleNumbers (.obj [(text "a", .null), (text "b", .bool true)])).computeHash sampleNumbers
        (map UInt8.toUInt16) =
      (parsed sampleNumbers (.obj [(text "b", .bool true), (text "a", .null)])).computeHash sampleNumbers
        (map UInt8.toUInt16) := by
  have hsame : (parsed sampleNumbers (.obj [(text "a", .null), (text "b", .bool true)])).data =
      (parsed sampleNumbers (.obj [(text "b", .bool true), (text "a", .null)])).data := by
    have hab : text "a" ≠ text "b" := by decide
    simp only [parsed, parsedMembers, data, membersData, JsonData.obj.injEq]
    funext k
    by_cases hk : text "a" = k
    · subst hk
      simp [hab.symm, JsonData.orElse]
    · by_cases hk' : text "b" = k <;> simp [hk, hk', JsonData.orElse]
  exact ((stable_iff_not_differOutOfRange sampleNumbers _ toUInt16_injective _ _).mpr fun h => h.1 hsame).2.mpr hsame

def huge : Json := .num ⟨text "1e400", by decide⟩

/-- A number that is out of range has the text of `null`. -/
theorem not_stable_huge : ¬ ∀ a b : Json, ((parsed sampleNumbers a).stableStringify sampleNumbers =
        (parsed sampleNumbers b).stableStringify sampleNumbers ↔
      (parsed sampleNumbers a).data = (parsed sampleNumbers b).data) := by
  intro h
  have htext : (parsed sampleNumbers huge).stableStringify sampleNumbers =
      (parsed sampleNumbers .null).stableStringify sampleNumbers := by
    simp [parsed, huge, sampleNumbers, stableStringify]
  have hdata := (h huge .null).mp htext
  simp [parsed, huge, data] at hdata

end Value

end Policy
