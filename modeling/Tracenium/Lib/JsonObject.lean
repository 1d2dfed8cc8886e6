-- SUMMARY: The members of JSON objects: reading one, and objects built from fields that may be undefined.
import Tracenium.Lib.Json
import Tracenium.Lib.OrderedMap

/-! An object of JavaScript has each key once. Of the members that a text gives under one key the last one counts. -/

open Utf16 List

namespace Json

/-- `v?.k`. A value that is no object has no members. -/
def field (v : Json) (k : Str) : Option Json :=
  match v with
  | .obj ms => (ms.reverse.find? fun e => e.1 = k).map Prod.snd
  | _ => none

def ofMap (m : OrderedMap Str Json) : Json := .obj m.entries

/-- An object literal, whose undefined members `JSON.stringify` leaves out. -/
def ofFields (fields : List (Str × Option Json)) : Json :=
  .obj (fields.filterMap fun f => f.2.map fun v => (f.1, v))

/-- `v == null`, for a value that may be undefined. -/
def isNullish : Option Json → Bool
  | none => true
  | some .null => true
  | some _ => false

/-- `v ?? w`. -/
def orElse (v w : Option Json) : Option Json := if isNullish v then w else v

/-- `!!v`, for a number that is spelled as `JSON.stringify` spells it. -/
def isTruthy : Json → Bool
  | .null => false
  | .bool b => b
  | .num n => n.text ≠ text "0"
  | .str s => s ≠ []
  | .arr _ => true
  | .obj _ => true

/-- A member of an object is its entry in the map. -/
theorem field_ofMap {m : OrderedMap Str Json} {k : Str} {v : Json} :
    (ofMap m).field k = some v ↔ (k, v) ∈ m.entries := by
  rw [ofMap, field, Option.map_eq_some_iff]
  constructor
  · rintro ⟨⟨k', v'⟩, hfind, rfl⟩
    have hkey := find?_some hfind
    rw [decide_eq_true_eq] at hkey
    obtain rfl : k' = k := hkey
    exact mem_reverse.mp (mem_of_find?_eq_some hfind)
  · intro h
    have hsome : (m.entries.reverse.find? fun e => e.1 = k).isSome = true :=
      find?_isSome.mpr ⟨(k, v), mem_reverse.mpr h, decide_eq_true rfl⟩
    obtain ⟨⟨k', v'⟩, hfind⟩ := Option.isSome_iff_exists.mp hsome
    have hkey := find?_some hfind
    rw [decide_eq_true_eq] at hkey
    obtain rfl : k' = k := hkey
    have hmem := mem_reverse.mp (mem_of_find?_eq_some hfind)
    exact ⟨(k', v'), hfind, OrderedMap.eq_of_mem hmem h⟩

/-- The member that was set last. -/
theorem field_set_self (m : OrderedMap Str Json) (k : Str) (v : Json) : (ofMap (m.set k v)).field k = some v :=
  field_ofMap.mpr (OrderedMap.mem_set.mpr (.inl rfl))

/-- Setting a member keeps the others. -/
theorem field_set_of_ne {m : OrderedMap Str Json} {k k' : Str} {v w : Json} (hne : k' ≠ k)
    (h : (ofMap m).field k' = some w) : (ofMap (m.set k v)).field k' = some w :=
  field_ofMap.mpr (OrderedMap.mem_set.mpr (.inr ⟨field_ofMap.mp h, hne⟩))

end Json
