-- SUMMARY: Plain objects of JavaScript as tables: their own entries, and the members that every object inherits.
import Tracenium.Lib.Utf16

/-! `literal[k]` gives the own entry under `k`, else the inherited member of that name. -/

open Utf16 List

structure Literal (α : Type*) where
  entries : List (Str × α)

namespace Literal

/-- The names of the members of `Object.prototype`. -/
def inheritedNames : List Str :=
  [text "constructor", text "__proto__", text "__defineGetter__", text "__defineSetter__",
    text "__lookupGetter__", text "__lookupSetter__", text "hasOwnProperty", text "isPrototypeOf",
    text "propertyIsEnumerable", text "toLocaleString", text "toString", text "valueOf"]

inductive Member (α : Type*)
  | own (value : α)
  | inherited (name : Str)
  | absent

variable {α : Type*}

def own (t : Literal α) (k : Str) : Option α :=
  (t.entries.find? fun e => e.1 = k).map Prod.snd

/-- `literal[k]`. -/
def member (t : Literal α) (k : Str) : Member α :=
  match t.own k with
  | some value => .own value
  | none => if inheritedNames.contains k then .inherited k else .absent

/-- The lookup goes to the prototype. -/
def Inherits (t : Literal α) (k : Str) : Prop := t.own k = none ∧ k ∈ inheritedNames

instance (t : Literal α) (k : Str) : Decidable (t.Inherits k) :=
  decidable_of_iff ((t.own k).isNone ∧ inheritedNames.contains k)
    (and_congr Option.isNone_iff_eq_none contains_iff_mem)

theorem own_nil (k : Str) : (⟨[]⟩ : Literal α).own k = none := rfl

theorem own_cons (e : Str × α) (es : List (Str × α)) (k : Str) :
    (⟨e :: es⟩ : Literal α).own k = if e.1 = k then some e.2 else (⟨es⟩ : Literal α).own k := by
  unfold own
  by_cases h : e.1 = k
  · simp only [find?_cons, h, decide_true, Option.map_some, if_true]
  · simp only [find?_cons, h, decide_false, if_false]

theorem mem_of_own {t : Literal α} {k : Str} {value : α} (h : t.own k = some value) : (k, value) ∈ t.entries := by
  obtain ⟨⟨k', value'⟩, hfind, rfl⟩ := Option.map_eq_some_iff.mp h
  have hkey := find?_some hfind
  rw [decide_eq_true_eq] at hkey
  obtain rfl : k' = k := hkey
  exact mem_of_find?_eq_some hfind

theorem member_own_iff {t : Literal α} {k : Str} {value : α} : t.member k = .own value ↔ t.own k = some value := by
  unfold member
  split
  · rename_i hown
    rw [hown, Member.own.injEq, Option.some.injEq]
  · rename_i hown
    rw [hown]
    constructor
    · intro h
      split at h <;> cases h
    · intro h
      cases h

theorem member_inherited_iff {t : Literal α} {k name : Str} :
    t.member k = .inherited name ↔ t.Inherits k ∧ name = k := by
  unfold member Inherits
  split
  · rename_i hown
    rw [hown]
    constructor
    · intro h
      cases h
    · rintro ⟨⟨h, -⟩, -⟩
      cases h
  · rename_i hown
    split
    · rename_i hmem
      rw [Member.inherited.injEq]
      exact ⟨fun h => ⟨⟨hown, contains_iff_mem.mp hmem⟩, h.symm⟩, fun h => h.2.symm⟩
    · rename_i hmem
      constructor
      · intro h
        cases h
      · rintro ⟨⟨-, h⟩, -⟩
        exact absurd (contains_iff_mem.mpr h) hmem

end Literal
