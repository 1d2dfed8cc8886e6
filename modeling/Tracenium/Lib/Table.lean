-- SUMMARY: Tables of rows under ascending ids, and how the rows of a table evolve.
import Mathlib.Data.List.Nodup

/-!
What statements do to a table is stated row by row: where a row of the new table comes from, and what becomes of a row
of the old one.
-/

open List Prod Nat

variable {α : Type*}

structure Table (α : Type*) where
  rows : List (Nat × α)
  lastId : Nat
  sorted : (rows.map fst).Pairwise (· < ·)
  bounded : ∀ r ∈ rows, r.1 ≤ lastId

namespace Table

theorem sorted_nil : (([] : List (Nat × α)).map fst).Pairwise (· < ·) := .nil

def empty : Table α where
  rows := []
  lastId := 0
  sorted := sorted_nil
  bounded := forall_mem_nil _

/-- `INSERT`, under a new id. -/
def insert (t : Table α) (v : α) : Table α where
  rows := t.rows ++ [(t.lastId + 1, v)]
  lastId := t.lastId + 1
  sorted := by
    rw [map_append]
    refine pairwise_append.mpr ⟨t.sorted, pairwise_singleton _ _, ?_⟩
    intro i hi j hj
    obtain ⟨r, hr, rfl⟩ := mem_map.mp hi
    rw [mem_singleton.mp hj]
    exact lt_succ_of_le (t.bounded r hr)
  bounded := by
    intro r hr
    rcases mem_append.mp hr with hr | hr
    · exact le_succ_of_le (t.bounded r hr)
    · obtain rfl := mem_singleton.mp hr
      exact Nat.le_refl _

/-- `UPDATE` of the rows that meet `p`. -/
def update (t : Table α) (p : Nat × α → Bool) (f : α → α) : Table α where
  rows := t.rows.map fun r => if p r then (r.1, f r.2) else r
  lastId := t.lastId
  sorted := by
    have hids : (t.rows.map fun r => if p r then (r.1, f r.2) else r).map fst =
        t.rows.map fst := by
      rw [List.map_map]
      refine map_congr_left fun r _ => ?_
      rw [Function.comp_apply]
      split <;> rfl
    rw [hids]
    exact t.sorted
  bounded := by
    intro r hr
    obtain ⟨r', hr', rfl⟩ := mem_map.mp hr
    split
    · exact t.bounded r' hr'
    · exact t.bounded r' hr'

/-- `DELETE` of the rows that meet `p`. -/
def delete (t : Table α) (p : Nat × α → Bool) : Table α where
  rows := t.rows.filter fun r => !p r
  lastId := t.lastId
  sorted := t.sorted.sublist (filter_sublist.map fst)
  bounded := fun r hr => t.bounded r (mem_of_mem_filter hr)

variable {t : Table α}

theorem eq_of_mem {i : Nat} {v w : α} (hv : (i, v) ∈ t.rows) (hw : (i, w) ∈ t.rows) : v = w := by
  have hnodup : (t.rows.map fst).Nodup := t.sorted.imp ne_of_lt
  exact congrArg snd (inj_on_of_nodup_map hnodup hv hw rfl)

theorem nodup (t : Table α) : t.rows.Nodup := Nodup.of_map _ (t.sorted.imp ne_of_lt)

variable {r : Nat × α}

/-- Among rows of a table a row is known by its id. -/
theorem mem_of_id {l : List (Nat × α)} (hl : l ⊆ t.rows) (hr : r ∈ t.rows) (hid : r.1 ∈ l.map Prod.fst) : r ∈ l := by
  obtain ⟨r', hr', heq⟩ := mem_map.mp hid
  have hmem : (r.1, r'.2) ∈ t.rows := heq ▸ hl hr'
  have hsnd : r.2 = r'.2 := eq_of_mem hr hmem
  rwa [Prod.ext heq.symm hsnd]

theorem mem_insert {v : α} : r ∈ (t.insert v).rows ↔ r ∈ t.rows ∨ r = (t.lastId + 1, v) := by
  rw [insert, List.mem_append, List.mem_singleton]

variable {p : Nat × α → Bool}

theorem mem_update {f : α → α} : r ∈ (t.update p f).rows ↔
      ∃ r' ∈ t.rows, r = if p r' then (r'.1, f r'.2) else r' := by
  rw [update, List.mem_map]
  exact exists_congr fun r' => and_congr_right fun _ => eq_comm

theorem mem_update_of {f : α → α} {i : Nat} {v : α}
    (h : (i, v) ∈ t.rows) (hp : p (i, v)) : (i, f v) ∈ (t.update p f).rows :=
  mem_update.mpr ⟨(i, v), h, by rw [if_pos hp]⟩

theorem mem_update_of_not {f : α → α} (h : r ∈ t.rows) (hp : p r = false) : r ∈ (t.update p f).rows :=
  mem_update.mpr ⟨r, h, by rw [if_neg (by simp [hp])]⟩

theorem mem_delete : r ∈ (t.delete p).rows ↔ r ∈ t.rows ∧ p r = false := by
  rw [delete, mem_filter, Bool.not_eq_true']

/-! ## Evolution -/

/-- How a table evolves into another: a row stays as it is or is changed by `C`, unless it goes
away by `D`, and the rows that come are new and as `N` says. -/
structure Evolves (C : Nat → α → α → Prop) (N : Nat → α → Prop) (D : Nat → α → Prop)
    (t t' : Table α) : Prop where
  lastId : t.lastId ≤ t'.lastId
  origin : ∀ i v, (i, v) ∈ t'.rows → (∃ u, (i, u) ∈ t.rows ∧ (v = u ∨ C i u v)) ∨ t.lastId < i ∧ N i v
  fate : ∀ i u, (i, u) ∈ t.rows → (∃ v, (i, v) ∈ t'.rows ∧ (v = u ∨ C i u v)) ∨ D i u ∧ ∀ v, (i, v) ∉ t'.rows

section Evolves

variable {C : Nat → α → α → Prop} {N : Nat → α → Prop} {D : Nat → α → Prop} {t t' t'' : Table α}

theorem Evolves.refl (t : Table α) : Evolves C N D t t :=
  ⟨Nat.le_refl _, fun _ v h => .inl ⟨v, h, .inl rfl⟩, fun _ u h => .inl ⟨u, h, .inl rfl⟩⟩

theorem evolves_insert {v : α} (hN : N (t.lastId + 1) v) : Evolves C N D t (t.insert v) := by
  refine ⟨le_succ _, fun i w h => ?_, fun i u h => .inl ⟨u, mem_insert.mpr (.inl h), .inl rfl⟩⟩
  rcases mem_insert.mp h with h | h
  · exact .inl ⟨w, h, .inl rfl⟩
  · obtain ⟨rfl, rfl⟩ := Prod.mk.inj h
    exact .inr ⟨lt_succ_self _, hN⟩

theorem evolves_update {p : Nat × α → Bool} {f : α → α}
    (hC : ∀ i u, (i, u) ∈ t.rows → p (i, u) → C i u (f u)) : Evolves C N D t (t.update p f) := by
  refine ⟨Nat.le_refl _, fun i v h => .inl ?_, fun i u h => .inl ?_⟩
  · obtain ⟨⟨j, u⟩, hu, heq⟩ := mem_update.mp h
    split at heq
    · obtain ⟨rfl, rfl⟩ := Prod.mk.inj heq
      exact ⟨u, hu, .inr (hC _ u hu ‹_›)⟩
    · obtain ⟨rfl, rfl⟩ := Prod.mk.inj heq
      exact ⟨v, hu, .inl rfl⟩
  · cases hp : p (i, u) with
    | true => exact ⟨f u, mem_update_of h hp, .inr (hC i u h hp)⟩
    | false => exact ⟨u, mem_update_of_not h hp, .inl rfl⟩

theorem evolves_delete {p : Nat × α → Bool}
    (hD : ∀ i u, (i, u) ∈ t.rows → p (i, u) → D i u) : Evolves C N D t (t.delete p) := by
  refine ⟨Nat.le_refl _, fun i v h => .inl ⟨v, (mem_delete.mp h).1, .inl rfl⟩, fun i u h => ?_⟩
  cases hp : p (i, u) with
  | true =>
    refine .inr ⟨hD i u h hp, fun v hv => ?_⟩
    obtain ⟨hv, hpv⟩ := mem_delete.mp hv
    rw [eq_of_mem hv h, hp] at hpv
    cases hpv
  | false => exact .inl ⟨u, mem_delete.mpr ⟨h, hp⟩, .inl rfl⟩

/-- Two evolutions in a row, where no row is changed by one after the other and none goes away. -/
theorem Evolves.trans (h : Evolves C N (fun _ _ => False) t t')
    (h' : Evolves C (fun _ _ => False) (fun _ _ => False) t' t'')
    (hC : ∀ i u v w, C i u v → C i v w → C i u w) (hN : ∀ i v w, N i v → C i v w → N i w) :
    Evolves C N (fun _ _ => False) t t'' := by
  have hchain {i : Nat} {u v w : α} (huv : v = u ∨ C i u v) (hvw : w = v ∨ C i v w) :
      w = u ∨ C i u w := by
    rcases huv with rfl | huv
    · exact hvw
    · rcases hvw with rfl | hvw
      · exact .inr huv
      · exact .inr (hC i u v w huv hvw)
  refine ⟨Nat.le_trans h.lastId h'.lastId, fun i w hw => ?_, fun i u hu => .inl ?_⟩
  · rcases h'.origin i w hw with ⟨v, hv, hvw⟩ | ⟨-, hN⟩
    · rcases h.origin i v hv with ⟨u, hu, huv⟩ | ⟨hlt, hv⟩
      · exact .inl ⟨u, hu, hchain huv hvw⟩
      · rcases hvw with rfl | hvw
        · exact .inr ⟨hlt, hv⟩
        · exact .inr ⟨hlt, hN i v w hv hvw⟩
    · exact hN.elim
  · rcases h.fate i u hu with ⟨v, hv, huv⟩ | ⟨hD, -⟩
    · rcases h'.fate i v hv with ⟨w, hw, hvw⟩ | ⟨hD, -⟩
      · exact ⟨w, hw, hchain huv hvw⟩
      · exact hD.elim
    · exact hD.elim

theorem Evolves.mono {C' : Nat → α → α → Prop} {N' D' : Nat → α → Prop} (h : Evolves C N D t t')
    (hC : ∀ i u v, C i u v → C' i u v) (hN : ∀ i v, N i v → N' i v)
    (hD : ∀ i u, D i u → D' i u) : Evolves C' N' D' t t' := by
  refine ⟨h.lastId, fun i v hv => ?_, fun i u hu => ?_⟩
  · exact (h.origin i v hv).imp
      (fun ⟨u, hu, huv⟩ => ⟨u, hu, huv.imp_right (hC i u v)⟩) fun ⟨hlt, hv⟩ => ⟨hlt, hN i v hv⟩
  · exact (h.fate i u hu).imp
      (fun ⟨v, hv, huv⟩ => ⟨v, hv, huv.imp_right (hC i u v)⟩) fun ⟨hu, hgone⟩ => ⟨hD i u hu, hgone⟩

/-- What holds of every row, is kept by every change and holds of what comes, still holds. -/
theorem Evolves.forall {P : Nat → α → Prop} (h : Evolves C N D t t')
    (hC : ∀ i u v, P i u → C i u v → P i v) (hN : ∀ i v, N i v → P i v)
    (hP : ∀ i u, (i, u) ∈ t.rows → P i u) : ∀ i v, (i, v) ∈ t'.rows → P i v := by
  intro i v hv
  rcases h.origin i v hv with ⟨u, hu, rfl | huv⟩ | ⟨-, hnew⟩
  · exact hP i v hu
  · exact hC i u v (hP i u hu) huv
  · exact hN i v hnew

/-- A row that no change is about stays as it is or goes away. -/
theorem Evolves.frozen (h : Evolves C N D t t') {i : Nat} {u : α} (hu : (i, u) ∈ t.rows)
    (hC : ∀ v, ¬ C i u v) : (i, u) ∈ t'.rows ∨ D i u ∧ ∀ v, (i, v) ∉ t'.rows := by
  rcases h.fate i u hu with ⟨v, hv, rfl | huv⟩ | hgone
  · exact .inl hv
  · exact absurd huv (hC v)
  · exact .inr hgone

end Evolves

end Table
