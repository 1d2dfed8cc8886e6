-- SUMMARY: JSON values up to the order of members, and that canonical forms tell values apart by what they say.
import Tracenium.Lib.Json

/-! Of the members of an object under one key, the last one counts. -/

open Utf16 List Option

namespace Json

/-- Put a member at its place in the order of the keys, in the place of the one with its key. -/
def insertMember (k : Str) (v : Json) : List (Str × Json) → List (Str × Json)
  | [] => [(k, v)]
  | e :: es =>
    if e.1 = k then (k, v) :: es
    else if k < e.1 then (k, v) :: e :: es
    else e :: insertMember k v es

mutual

/-- The value with the members of its objects in the order of their keys. -/
def canonical : Json → Json
  | .null => .null
  | .bool b => .bool b
  | .num n => .num n
  | .str s => .str s
  | .arr xs => .arr (canonicalElems xs)
  | .obj ms => .obj (canonicalMembers ms [])

def canonicalElems : List Json → List Json
  | [] => []
  | x :: xs => x.canonical :: canonicalElems xs

def canonicalMembers : List (Str × Json) → List (Str × Json) → List (Str × Json)
  | [], acc => acc
  | (k, v) :: ms, acc => canonicalMembers ms (insertMember k v.canonical acc)

end

theorem canonical_eq_null {v : Json} : v.canonical = .null ↔ v = .null := by
  constructor
  · intro h
    cases v with
    | null => rfl
    | bool b => cases h
    | num n => cases h
    | str s => cases h
    | arr xs => cases h
    | obj ms => cases h
  · rintro rfl
    rfl

end Json

/-! # JSON data -/

/-- What a value says, with `absent` for what is not there. -/
inductive JsonData (ν : Type*)
  | absent
  | null
  | bool (b : Bool)
  | num (x : ν)
  | str (s : Str)
  | arr (length : Nat) (elems : Nat → JsonData ν)
  | obj (members : Str → JsonData ν)

namespace JsonData

variable {ν μ : Type*}

/-- The numbers are replaced, and those that have nothing to take their place become `null`. -/
def mapNum (g : ν → Option μ) : JsonData ν → JsonData μ
  | .absent => .absent
  | .null => .null
  | .bool b => .bool b
  | .num x => match g x with
    | some y => .num y
    | none => .null
  | .str s => .str s
  | .arr n elems => .arr n fun i => (elems i).mapNum g
  | .obj members => .obj fun k => (members k).mapNum g

/-- The last one counts. -/
def orElse : JsonData ν → JsonData ν → JsonData ν
  | .absent, d => d
  | d, _ => d

theorem mapNum_orElse (g : ν → Option μ) (d e : JsonData ν) :
    (d.orElse e).mapNum g = (d.mapNum g).orElse (e.mapNum g) := by
  cases d with
  | num x => cases h : g x <;> simp [orElse, mapNum, h]
  | _ => rfl

theorem mapNum_mapNum {ξ : Type*} (g : ν → Option μ) (f : μ → ξ) (d : JsonData ν) :
    (d.mapNum g).mapNum (fun y => some (f y)) = d.mapNum fun x => (g x).map f := by
  induction d with
  | num x => cases h : g x <;> simp [mapNum, h]
  | arr n elems ih => simp [mapNum, ih]
  | obj members ih => simp [mapNum, ih]
  | _ => rfl

theorem mapNum_injective {f : ν → μ} (hf : Function.Injective f) :
    Function.Injective (mapNum fun x => some (f x)) := by
  intro d
  induction d with
  | num x =>
    intro e h
    cases e <;> simp only [mapNum, reduceCtorEq, JsonData.num.injEq] at h ⊢
    exact hf h
  | arr n elems ih =>
    intro e h
    cases e <;> simp only [mapNum, reduceCtorEq, JsonData.arr.injEq] at h ⊢
    exact ⟨h.1, funext fun i => ih i (congrFun h.2 i)⟩
  | obj members ih =>
    intro e h
    cases e <;> simp only [mapNum, reduceCtorEq, JsonData.obj.injEq] at h ⊢
    exact funext fun k => ih k (congrFun h k)
  | _ =>
    intro e h
    cases e <;> simp_all [mapNum]

end JsonData

namespace Json

mutual

def data : Json → JsonData Numeral
  | .null => .null
  | .bool b => .bool b
  | .num n => .num n
  | .str s => .str s
  | .arr xs => .arr xs.length (elemsData xs)
  | .obj ms => .obj (membersData ms)

def elemsData : List Json → Nat → JsonData Numeral
  | [], _ => .absent
  | x :: _, 0 => x.data
  | _ :: xs, i + 1 => elemsData xs i

def membersData : List (Str × Json) → Str → JsonData Numeral
  | [], _ => .absent
  | (k, v) :: ms, j => (membersData ms j).orElse (if k = j then v.data else .absent)

end

/-! ## Members -/

def last (j : Str) : List (Str × Json) → Option Json
  | [] => none
  | (k, v) :: ms => (last j ms).or (if k = j then some v else none)

def SortedKeys (ms : List (Str × Json)) : Prop := (ms.map Prod.fst).Pairwise (· < ·)

theorem str_lt_trans {a b c : Str} (h : a < b) (h' : b < c) : a < c := List.lt_trans h h'

theorem str_lt_irrefl (a : Str) : ¬ a < a := List.lt_irrefl a

theorem str_lt_of_not_lt {a b : Str} (h : ¬ a < b) (hne : a ≠ b) : b < a :=
  Std.lt_of_le_of_ne (List.not_lt.mp h) hne.symm

variable {ms : List (Str × Json)}

theorem last_eq_none {j : Str} (h : ∀ e ∈ ms, e.1 ≠ j) : last j ms = none := by
  induction ms with
  | nil => rfl
  | cons e ms ih =>
    simp only [mem_cons, forall_eq_or_imp] at h
    simp [last, ih h.2, h.1]

theorem SortedKeys.last_tail {e : Str × Json} (h : SortedKeys (e :: ms)) : last e.1 ms = none := by
  refine last_eq_none fun e' he' heq => ?_
  have hlt := rel_of_pairwise_cons h (mem_map_of_mem he')
  exact str_lt_irrefl _ (heq ▸ hlt)

theorem SortedKeys.lt_of_mem {e : Str × Json} (h : SortedKeys (e :: ms)) {e' : Str × Json}
    (he' : e' ∈ ms) : e.1 < e'.1 :=
  rel_of_pairwise_cons h (mem_map_of_mem he')

theorem SortedKeys.last_of_lt {e : Str × Json} (h : SortedKeys (e :: ms)) {k : Str}
    (hk : k < e.1) : last k (e :: ms) = none := by
  refine last_eq_none fun e' he' heq => ?_
  subst heq
  rcases mem_cons.mp he' with rfl | he'
  · exact str_lt_irrefl _ hk
  · exact str_lt_irrefl _ (str_lt_trans hk (h.lt_of_mem he'))

theorem last_insertMember (h : SortedKeys ms) (k j : Str) (v : Json) :
    last j (insertMember k v ms) = if k = j then some v else last j ms := by
  induction ms with
  | nil => simp [insertMember, last]
  | cons e ms ih =>
    rw [insertMember]
    split
    · rename_i hsame
      by_cases hj : k = j
      · subst hj
        simp [last, ← hsame, h.last_tail]
      · simp [last, hj, hsame]
    · split
      · rename_i hlt
        by_cases hj : k = j
        · subst hj
          rw [last, h.last_of_lt hlt]
          simp
        · rw [last]
          simp [hj]
      · have htail := ih (Pairwise.of_cons h)
        by_cases hj : k = j
        · simp only [last, htail, if_pos hj, some_or]
        · simp only [last, htail, if_neg hj]

theorem mem_insertMember {k : Str} {v : Json} {e : Str × Json}
    (he : e ∈ insertMember k v ms) : e = (k, v) ∨ e ∈ ms := by
  induction ms with
  | nil => simpa [insertMember] using he
  | cons e' ms ih =>
    rw [insertMember] at he
    split at he
    · exact (mem_cons.mp he).imp_right (mem_cons_of_mem _)
    · split at he
      · exact mem_cons.mp he
      · rcases mem_cons.mp he with rfl | he
        · exact .inr mem_cons_self
        · exact (ih he).imp_right (mem_cons_of_mem _)

theorem SortedKeys.insertMember (h : SortedKeys ms) (k : Str) (v : Json) : SortedKeys (insertMember k v ms) := by
  induction ms with
  | nil => simp [SortedKeys, Json.insertMember]
  | cons e ms ih =>
    have htail : SortedKeys ms := Pairwise.of_cons h
    rw [Json.insertMember]
    split
    · rename_i hsame
      subst hsame
      exact h
    · rename_i hne
      split
      · rename_i hlt
        refine pairwise_cons.mpr ⟨fun j hj => ?_, h⟩
        rcases mem_cons.mp hj with rfl | hj
        · exact hlt
        · exact str_lt_trans hlt (rel_of_pairwise_cons h hj)
      · rename_i hnlt
        refine pairwise_cons.mpr ⟨fun j hj => ?_, ih htail⟩
        obtain ⟨e', he', rfl⟩ := mem_map.mp hj
        rcases mem_insertMember he' with rfl | he'
        · exact str_lt_of_not_lt hnlt (Ne.symm hne)
        · exact h.lt_of_mem he'

variable {ms ns : List (Str × Json)}

/-- Members in the order of their keys are those that count. -/
theorem SortedKeys.ext (h : SortedKeys ms) (h' : SortedKeys ns) (hlast : ∀ k, last k ms = last k ns) : ms = ns := by
  induction ms generalizing ns with
  | nil =>
    cases ns with
    | nil => rfl
    | cons e ns =>
      have hmember := hlast e.1
      simp [last] at hmember
  | cons e ms ih =>
    cases ns with
    | nil =>
      have hmember := hlast e.1
      simp [last, h.last_tail] at hmember
    | cons e' ns =>
      have hkey : e.1 = e'.1 := by
        by_contra hne
        by_cases hlt : e.1 < e'.1
        · have hmember := hlast e.1
          rw [h'.last_of_lt hlt] at hmember
          simp [last, h.last_tail] at hmember
        · have hmember := hlast e'.1
          rw [h.last_of_lt (str_lt_of_not_lt hlt hne)] at hmember
          simp [last, h'.last_tail] at hmember
      have hvalue : e.2 = e'.2 := by
        have hmember := hlast e.1
        rw [last, h.last_tail, last, hkey, h'.last_tail] at hmember
        simpa using hmember
      have hrest : ms = ns := by
        refine ih (Pairwise.of_cons h) (Pairwise.of_cons h') fun k => ?_
        by_cases hk : e.1 = k
        · rw [← hk, h.last_tail, hkey, h'.last_tail]
        · have hmember := hlast k
          rw [last, last, if_neg hk, if_neg (hkey ▸ hk), or_none, or_none] at hmember
          exact hmember
      rw [hrest, show e = e' from Prod.ext hkey hvalue]

/-! ## Canonical forms -/

theorem sortedKeys_canonicalMembers (ms : List (Str × Json)) {acc : List (Str × Json)} (hacc : SortedKeys acc) :
    SortedKeys (canonicalMembers ms acc) := by
  induction ms generalizing acc with
  | nil => exact hacc
  | cons e ms ih => exact ih (hacc.insertMember e.1 e.2.canonical)

theorem last_canonicalMembers (ms : List (Str × Json)) {acc : List (Str × Json)} (hacc : SortedKeys acc) (k : Str) :
    last k (canonicalMembers ms acc) = ((last k ms).map canonical).or (last k acc) := by
  induction ms generalizing acc with
  | nil => simp [canonicalMembers, last]
  | cons e ms ih =>
    rw [canonicalMembers, ih (hacc.insertMember e.1 e.2.canonical), last_insertMember hacc, last]
    by_cases hk : e.1 = k
    · cases last k ms <;> simp [hk]
    · simp [hk]

theorem canonicalMembers_eq_iff : canonicalMembers ms [] = canonicalMembers ns [] ↔
      ∀ k, (last k ms).map canonical = (last k ns).map canonical := by
  have hnil : SortedKeys [] := .nil
  have hlast : ∀ ms k, last k (canonicalMembers ms []) = (last k ms).map canonical := by
    intro ms k
    rw [last_canonicalMembers ms hnil, last, or_none]
  constructor
  · intro h k
    rw [← hlast, ← hlast, h]
  · intro h
    refine (sortedKeys_canonicalMembers ms hnil).ext (sortedKeys_canonicalMembers ns hnil) fun k => ?_
    rw [hlast, hlast, h k]

theorem data_ne_absent (v : Json) : v.data ≠ .absent := by
  cases v <;> simp [data]

theorem membersData_eq (ms : List (Str × Json)) (k : Str) :
    membersData ms k = ((last k ms).map data).getD .absent := by
  induction ms with
  | nil => rfl
  | cons e ms ih =>
    rw [membersData, last, ih]
    cases hlast : last k ms with
    | none => by_cases hk : e.1 = k <;> simp [hk, JsonData.orElse]
    | some v =>
      have hv := data_ne_absent v
      cases hdata : v.data <;> simp_all [JsonData.orElse]

theorem membersData_eq_iff : membersData ms = membersData ns ↔ ∀ k, (last k ms).map data = (last k ns).map data := by
  constructor
  · intro h k
    have hk := congrFun h k
    rw [membersData_eq, membersData_eq] at hk
    cases hm : last k ms with
    | none =>
      cases hn : last k ns with
      | none => rfl
      | some w => simp [hm, hn, (data_ne_absent w).symm] at hk
    | some v =>
      cases hn : last k ns with
      | none => simp [hm, hn, data_ne_absent v] at hk
      | some w => simpa [hm, hn] using hk
  · intro h
    funext k
    rw [membersData_eq, membersData_eq, h k]

mutual

/-- Canonical forms tell apart what says something else. -/
theorem canonical_eq_iff : ∀ v w : Json, v.canonical = w.canonical ↔ v.data = w.data
  | .null, w => by cases w <;> simp [canonical, data]
  | .bool b, w => by cases w <;> simp [canonical, data]
  | .num n, w => by cases w <;> simp [canonical, data]
  | .str s, w => by cases w <;> simp [canonical, data]
  | .arr xs, w => by
    cases w with
    | arr ys => simpa [canonical, data] using canonicalElems_eq_iff xs ys
    | _ => simp [canonical, data]
  | .obj ms, w => by
    cases w with
    | obj ns =>
      rw [canonical, canonical, data, data, Json.obj.injEq, JsonData.obj.injEq, canonicalMembers_eq_iff,
        membersData_eq_iff]
      refine forall_congr' fun k => ?_
      cases hm : last k ms with
      | none => cases last k ns <;> simp
      | some v =>
        cases last k ns with
        | none => simp
        | some w => simpa using canonical_eq_iff_of_last ms hm w
    | _ => simp [canonical, data]

theorem canonicalElems_eq_iff : ∀ xs ys : List Json,
    canonicalElems xs = canonicalElems ys ↔ xs.length = ys.length ∧ elemsData xs = elemsData ys
  | [], [] => by simp
  | [], y :: ys => by simp [canonicalElems]
  | x :: xs, [] => by simp [canonicalElems]
  | x :: xs, y :: ys => by
    have hsplit : elemsData (x :: xs) = elemsData (y :: ys) ↔ x.data = y.data ∧ elemsData xs = elemsData ys := by
      constructor
      · intro h
        exact ⟨congrFun h 0, funext fun i => congrFun h (i + 1)⟩
      · rintro ⟨h, h'⟩
        funext i
        cases i with
        | zero => exact h
        | succ i => exact congrFun h' i
    rw [canonicalElems, canonicalElems, cons.injEq, canonical_eq_iff x y, canonicalElems_eq_iff xs ys, hsplit]
    simp only [length_cons, Nat.add_right_cancel_iff]
    tauto

theorem canonical_eq_iff_of_last : ∀ (ms : List (Str × Json)) {k : Str} {v : Json}, last k ms = some v →
    ∀ w : Json, v.canonical = w.canonical ↔ v.data = w.data
  | (j, u) :: ms, k, v, h, w => by
    rw [last, or_eq_some_iff] at h
    rcases h with h | ⟨-, h⟩
    · exact canonical_eq_iff_of_last ms h w
    · split at h
      · obtain rfl := some.inj h
        exact canonical_eq_iff u w
      · cases h

end

end Json
