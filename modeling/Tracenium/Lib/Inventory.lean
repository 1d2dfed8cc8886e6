-- SUMMARY: Inventories that a remote side holds, replaced or changed by a difference, and listings of items with keys.
import Tracenium.Lib.OrderedMap

/-!
The other side is told a whole inventory, or the difference of one to an earlier one. Values count as equal when a
fingerprint of them does.
-/

variable {κ β φ : Type*} [DecidableEq κ]

namespace OrderedMap

theorem get_filter (m : OrderedMap κ β) (p : κ → β → Bool) (k : κ) : (m.filter p).get k = (m.get k).filter (p k) := by
  apply Option.ext
  intro v
  rw [get_filter_eq_some, Option.filter_eq_some_iff]

@[simp] theorem get_empty (k : κ) : (empty : OrderedMap κ β).get k = none := rfl

def keys (m : OrderedMap κ β) : List κ := m.entries.map Prod.fst

theorem mem_keys {m : OrderedMap κ β} {k : κ} : k ∈ m.keys ↔ (m.get k).isSome := by
  rw [keys, List.mem_map, Option.isSome_iff_exists]
  constructor
  · rintro ⟨⟨k', v⟩, hmem, rfl⟩
    exact ⟨v, get_eq_some_iff.mpr hmem⟩
  · rintro ⟨v, hv⟩
    exact ⟨(k, v), get_eq_some_iff.mp hv, rfl⟩

theorem keys_set_of_not_mem {m : OrderedMap κ β} {k : κ} (hk : k ∉ m.keys) (v : β) :
    (m.set k v).keys = m.keys ++ [k] := by
  rw [keys, set, keys_setEntries]
  exact if_neg hk

end OrderedMap

namespace Inventory

open OrderedMap

/-- What the remote side holds. -/
abbrev Holding (κ β : Type*) := κ → Option β

/-- The remote side holds what is in the inventory, up to fingerprints. -/
def Agrees (f : β → φ) (h : Holding κ β) (m : OrderedMap κ β) : Prop :=
  ∀ k, (h k).map f = (m.get k).map f

/-- Two inventories have the same keys, with equal fingerprints. -/
def Same (f : β → φ) (m m' : OrderedMap κ β) : Prop :=
  ∀ k, (m.get k).map f = (m'.get k).map f

theorem agrees_get (f : β → φ) (m : OrderedMap κ β) : Agrees f m.get m := fun _ => rfl

theorem Agrees.trans {f : β → φ} {h : Holding κ β} {m m' : OrderedMap κ β} (hm : Agrees f h m)
    (hsame : Same f m m') : Agrees f h m' :=
  fun k => (hm k).trans (hsame k)

structure Delta (κ β : Type*) where
  added : OrderedMap κ β
  changed : OrderedMap κ β
  removed : OrderedMap κ β

/-- The remote side puts what was added or changed and deletes what was removed. -/
def Delta.apply (d : Delta κ β) (h : Holding κ β) : Holding κ β := fun k =>
  if (d.removed.get k).isSome then none
  else (d.changed.get k).or ((d.added.get k).or (h k))

def Delta.isEmpty (d : Delta κ β) : Bool :=
  d.added.entries.isEmpty && d.changed.entries.isEmpty && d.removed.entries.isEmpty

/-- Told twice in a row, a difference changes nothing more. -/
theorem Delta.apply_apply (d : Delta κ β) (h : Holding κ β) : d.apply (d.apply h) = d.apply h := by
  funext k
  rw [Delta.apply]
  split
  · rename_i hremoved
    rw [Delta.apply, if_pos hremoved]
  · rename_i hremoved
    rw [Delta.apply, if_neg hremoved]
    cases d.changed.get k with
    | some v => rfl
    | none =>
      cases d.added.get k with
      | some v => rfl
      | none => rfl

variable [DecidableEq φ]

/-- The difference of `cur` to `prev`. -/
def diff (f : β → φ) (prev cur : OrderedMap κ β) : Delta κ β where
  added := cur.filter fun k _ => (prev.get k).isNone
  changed := cur.filter fun k v => (prev.get k).any fun w => f w ≠ f v
  removed := prev.filter fun k _ => (cur.get k).isNone

/-- A key after the difference: what the inventory has if the difference tells it, and what was
held before if it does not. -/
theorem apply_diff (f : β → φ) (prev cur : OrderedMap κ β) (h : Holding κ β) (k : κ) : (diff f prev cur).apply h k =
      if (prev.get k).map f = (cur.get k).map f then h k else cur.get k := by
  rw [Delta.apply, diff, get_filter, get_filter, get_filter]
  cases prev.get k with
  | none =>
    cases cur.get k with
    | none => rfl
    | some v => rfl
  | some w =>
    cases cur.get k with
    | none => rfl
    | some v =>
      by_cases hsame : f w = f v
      · simp [Option.filter, hsame]
      · simp [Option.filter, hsame]

/-- A difference leads to the new inventory exactly when the keys that it does not tell are held as
they are in the inventory that it was made against. -/
theorem agrees_apply_diff_iff (f : β → φ) (prev cur : OrderedMap κ β) (h : Holding κ β) :
    Agrees f ((diff f prev cur).apply h) cur ↔
      ∀ k, (prev.get k).map f = (cur.get k).map f → (h k).map f = (prev.get k).map f := by
  refine forall_congr' fun k => ?_
  rw [apply_diff]
  split
  · rename_i hsame
    rw [forall_prop_of_true hsame, hsame]
  · rename_i hdiffers
    exact iff_of_true rfl fun hsame => absurd hsame hdiffers

/-- Told the difference to what it holds, the remote side holds the new inventory. -/
theorem Agrees.apply_diff {f : β → φ} {h : Holding κ β} {prev : OrderedMap κ β}
    (hprev : Agrees f h prev) (cur : OrderedMap κ β) : Agrees f ((diff f prev cur).apply h) cur :=
  (agrees_apply_diff_iff f prev cur h).mpr fun k _ => hprev k

theorem filter_isEmpty {m : OrderedMap κ β} {p : κ → β → Bool} :
    (m.filter p).entries.isEmpty ↔ ∀ k v, m.get k = some v → p k v = false := by
  rw [List.isEmpty_iff, filter, List.filter_eq_nil_iff]
  constructor
  · intro h k v hv
    exact Bool.eq_false_iff.mpr (h (k, v) (get_eq_some_iff.mp hv))
  · rintro h ⟨k, v⟩ hmem
    exact Bool.eq_false_iff.mp (h k v (get_eq_some_iff.mpr hmem))

/-- An empty difference tells nothing new. -/
theorem isEmpty_diff_iff (f : β → φ) (prev cur : OrderedMap κ β) :
    (diff f prev cur).isEmpty ↔ Same f prev cur := by
  rw [Delta.isEmpty, Bool.and_eq_true, Bool.and_eq_true, diff, filter_isEmpty, filter_isEmpty, filter_isEmpty]
  constructor
  · rintro ⟨⟨hadded, hchanged⟩, hremoved⟩ k
    cases hprev : prev.get k with
    | none =>
      cases hcur : cur.get k with
      | none => rfl
      | some v =>
        have hnew := hadded k v hcur
        rw [hprev] at hnew
        cases hnew
    | some w =>
      cases hcur : cur.get k with
      | none =>
        have hgone := hremoved k w hprev
        rw [hcur] at hgone
        cases hgone
      | some v =>
        have hkept := hchanged k v hcur
        rw [hprev, Option.any_some, decide_eq_false_iff_not, not_not] at hkept
        rw [Option.map_some, Option.map_some, hkept]
  · intro hsame
    refine ⟨⟨fun k v hv => ?_, fun k v hv => ?_⟩, fun k w hw => ?_⟩
    · have hk := hsame k
      rw [hv] at hk
      cases hprev : prev.get k with
      | none =>
        rw [hprev] at hk
        cases hk
      | some w => rfl
    · have hk := hsame k
      rw [hv] at hk
      cases hprev : prev.get k with
      | none => rfl
      | some w =>
        rw [hprev] at hk
        rw [Option.any_some, decide_eq_false_iff_not, not_not]
        exact Option.some.inj hk
    · have hk := hsame k
      rw [hw] at hk
      cases hcur : cur.get k with
      | none =>
        rw [hcur] at hk
        cases hk
      | some v => rfl

end Inventory

/-! # Listings -/

namespace Inventory

open OrderedMap

def last (key : β → κ) (items : List β) : Holding κ β := fun k =>
  (items.filter fun i => key i = k).getLast?

def put (key : β → κ) (items : List β) (h : Holding κ β) : Holding κ β :=
  items.foldl (fun h i k => if k = key i then some i else h k) h

theorem last_cons (key : β → κ) (i : β) (items : List β) (k : κ) :
    last key (i :: items) k = (last key items k).or (if k = key i then some i else none) := by
  rw [last, List.filter_cons, last]
  by_cases hk : key i = k
  · rw [if_pos (decide_eq_true hk), if_pos hk.symm, List.getLast?_cons]
    cases (items.filter fun i => key i = k).getLast? with
    | none => rfl
    | some j => rfl
  · rw [if_neg (by simpa using hk), if_neg (Ne.symm hk), Option.or_none]

theorem put_apply (key : β → κ) (items : List β) (h : Holding κ β) (k : κ) :
    put key items h k = (last key items k).or (h k) := by
  induction items generalizing h with
  | nil => rfl
  | cons i items ih =>
    rw [put, List.foldl_cons]
    have htail := ih fun k => if k = key i then some i else h k
    rw [put] at htail
    rw [htail, last_cons, Option.or_assoc]
    split <;> rfl

/-- Putting the items into an ordered map. -/
theorem get_foldl_set (key : β → κ) (items : List β) (m : OrderedMap κ β) (k : κ) :
    (items.foldl (fun m i => m.set (key i) i) m).get k = (last key items k).or (m.get k) := by
  induction items generalizing m with
  | nil => rfl
  | cons i items ih =>
    rw [List.foldl_cons, ih, last_cons, Option.or_assoc]
    by_cases hk : k = key i
    · rw [if_pos hk, hk, get_set_self]
      rfl
    · rw [if_neg hk, get_set_of_ne hk]
      rfl

variable {key : β → κ} {items : List β}

theorem mem_of_last {k : κ} {i : β} (h : last key items k = some i) : i ∈ items ∧ key i = k := by
  have hmem := List.mem_of_getLast? h
  rw [List.mem_filter, decide_eq_true_eq] at hmem
  exact hmem

theorem last_eq_none_iff {k : κ} : last key items k = none ↔ ∀ i ∈ items, key i ≠ k := by
  rw [last, List.getLast?_eq_none_iff, List.filter_eq_nil_iff]
  exact forall₂_congr fun i _ => by rw [decide_eq_true_eq]

theorem isSome_last_iff {k : κ} : (last key items k).isSome ↔ ∃ i ∈ items, key i = k := by
  rw [Option.isSome_iff_ne_none, Ne, last_eq_none_iff]
  simp

/-- A filter that keeps every item under the key. -/
theorem last_filter_of_forall {p : β → Bool} {k : κ}
    (h : ∀ i ∈ items, key i = k → p i) : last key (items.filter p) k = last key items k := by
  rw [last, last, List.filter_filter]
  congr 1
  apply List.filter_congr
  intro i hi
  by_cases hk : key i = k
  · rw [h i hi hk, Bool.and_true]
  · rw [decide_eq_false hk, Bool.false_and]

/-- A filter that keeps the last item under the key. -/
theorem last_filter_of_last {p : β → Bool} {k : κ} {i : β} (hlast : last key items k = some i) (hp : p i) :
    last key (items.filter p) k = some i := by
  rw [last, List.getLast?_eq_some_iff] at hlast
  obtain ⟨before, hbefore⟩ := hlast
  rw [last, List.filter_filter]
  have hswap : (items.filter fun j => decide (key j = k) && p j) =
      (items.filter fun j => key j = k).filter p := by
    rw [List.filter_filter]
    exact List.filter_congr fun j _ => Bool.and_comm _ _
  rw [hswap, hbefore, List.filter_append, List.filter_cons_of_pos hp, List.filter_nil]
  exact List.getLast?_concat

end Inventory
