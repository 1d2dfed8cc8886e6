-- SUMMARY: Database schemas, statements that create tables and indexes unless they exist, and scripts of them.
import Mathlib.Data.List.Nodup

/-!
A statement throws where its name is taken by something else, or where an index names a column that its table does not
have; an index of its name is all that `IF NOT EXISTS` asks for.
-/

/-- Tables and indexes under names `ν`, with columns `κ`. -/
structure Schema (ν κ : Type*) where
  tables : List (ν × List κ)
  indexes : List ν

namespace Schema

variable {ν κ : Type*} [DecidableEq ν]

def columns (s : Schema ν κ) (table : ν) : Option (List κ) := s.tables.lookup table

/-- `CREATE … IF NOT EXISTS`. -/
inductive Statement (ν κ : Type*)
  | createTable (name : ν) (columns : List κ)
  | createIndex (name table : ν) (columns : List κ)

def Statement.name : Statement ν κ → ν
  | .createTable name _ => name
  | .createIndex name _ _ => name

def Statement.table? : Statement ν κ → Option ν
  | .createTable _ _ => none
  | .createIndex _ table _ => some table

/-- The statement does not throw. -/
def Goes (s : Schema ν κ) : Statement ν κ → Prop
  | .createTable name _ => (s.columns name).isSome = true ∨ name ∉ s.indexes
  | .createIndex name table columns =>
    s.columns name = none ∧ ∃ present ∈ s.columns table, name ∈ s.indexes ∨ columns ⊆ present

def apply (s : Schema ν κ) : Statement ν κ → Schema ν κ
  | .createTable name columns =>
    if (s.columns name).isSome then s else { s with tables := s.tables ++ [(name, columns)] }
  | .createIndex name _ _ =>
    if name ∈ s.indexes then s else { s with indexes := s.indexes ++ [name] }

/-- `ALTER TABLE … ADD COLUMN`, where the table has no such column. -/
def addColumn (s : Schema ν κ) (table : ν) (column : κ) : Schema ν κ :=
  { s with tables := s.tables.map fun t => if t.1 = table then (t.1, t.2 ++ [column]) else t }

variable {s : Schema ν κ} {st st' : Statement ν κ} {name table : ν}

/-! ## Columns -/

theorem columns_addColumn {columns : List κ} {column : κ} (h : s.columns table = some columns) :
    (s.addColumn table column).columns table = some (columns ++ [column]) := by
  obtain ⟨tables, indexes⟩ := s
  simp only [Schema.columns, addColumn] at h ⊢
  induction tables with
  | nil => simp at h
  | cons t tables ih =>
    obtain ⟨name, present⟩ := t
    rw [List.lookup_cons] at h
    rw [List.map_cons]
    by_cases hname : table = name
    · simp_all
    · have hne : (table == name) = false := by simpa using hname
      rw [hne] at h
      rw [if_neg (Ne.symm hname), List.lookup_cons, hne, ih h]

/-! ## Statements of a script -/

theorem columns_apply (h : (s.columns table).isSome) : (s.apply st).columns table = s.columns table := by
  cases st with
  | createTable name columns =>
    rw [apply]
    split
    · rfl
    · obtain ⟨present, hpresent⟩ := Option.isSome_iff_exists.mp h
      simp only [Schema.columns] at hpresent ⊢
      rw [List.lookup_append, hpresent]
      rfl
  | createIndex name table columns =>
    rw [apply]
    split <;> rfl

theorem columns_apply_of_ne (h : name ≠ st.name) : (s.apply st).columns name = s.columns name := by
  cases st with
  | createTable name' columns =>
    rw [apply]
    split
    · rfl
    · have hne : (name == name') = false := by simpa [Statement.name] using h
      simp [Schema.columns, List.lookup_append, List.lookup_cons, hne]
  | createIndex name' table columns =>
    rw [apply]
    split <;> rfl

theorem mem_indexes_apply (h : name ≠ st.name) : name ∈ (s.apply st).indexes ↔ name ∈ s.indexes := by
  cases st with
  | createTable name' columns =>
    rw [apply]
    split <;> rfl
  | createIndex name' table columns =>
    have hne : name ≠ name' := h
    rw [apply]
    split
    · rfl
    · simp [hne]

/-- A statement of another name changes nothing for an index of a table that is there. -/
theorem goes_apply (hname : st'.name ≠ st.name) (htable : ∀ t ∈ st'.table?, (s.columns t).isSome) :
    (s.apply st).Goes st' ↔ s.Goes st' := by
  cases st' with
  | createTable name columns =>
    have hname : name ≠ st.name := hname
    rw [Goes, Goes, columns_apply_of_ne hname, mem_indexes_apply hname]
  | createIndex name table columns =>
    have hname : name ≠ st.name := hname
    rw [Goes, Goes, columns_apply_of_ne hname, mem_indexes_apply hname, columns_apply (htable table rfl)]

/-! ## Scripts -/

variable [DecidableEq κ]

instance (s : Schema ν κ) (st : Statement ν κ) : Decidable (s.Goes st) :=
  match st with
  | .createTable _ _ => inferInstanceAs (Decidable (_ ∨ _))
  | .createIndex _ _ _ => inferInstanceAs (Decidable (_ ∧ ∃ present ∈ _, _))

/-- `db.exec`: what is left when a statement throws, or when all are through. -/
def exec (s : Schema ν κ) : List (Statement ν κ) → Except (Schema ν κ) (Schema ν κ)
  | [] => .ok s
  | st :: sts => if s.Goes st then (s.apply st).exec sts else .error s

/-- A script with different names, whose indexes are for tables that are there, is through exactly if none of its
statements throws at first. -/
theorem exec_eq_ok_iff {sts : List (Statement ν κ)} (hnames : (sts.map Statement.name).Nodup)
    (htables : ∀ st ∈ sts, ∀ t ∈ st.table?, (s.columns t).isSome) :
    (∃ s', s.exec sts = .ok s') ↔ ∀ st ∈ sts, s.Goes st := by
  induction sts generalizing s with
  | nil => simp [exec]
  | cons st sts ih =>
    obtain ⟨hname, hnames⟩ := List.nodup_cons.mp hnames
    have hne : ∀ st' ∈ sts, st'.name ≠ st.name := fun st' hst' heq =>
      hname (heq ▸ List.mem_map_of_mem hst')
    have hlater : ∀ st' ∈ sts, ∀ t ∈ st'.table?, (s.columns t).isSome :=
      fun st' hst' => htables st' (List.mem_cons_of_mem _ hst')
    rw [exec, List.forall_mem_cons]
    split
    · rename_i hgoes
      rw [ih hnames fun st' hst' t ht => (columns_apply (hlater st' hst' t ht)).symm ▸ hlater st' hst' t ht]
      simp only [hgoes, true_and]
      exact forall₂_congr fun st' hst' => goes_apply (hne st' hst') (hlater st' hst')
    · rename_i hthrows
      simp [hthrows]

theorem columns_exec {sts : List (Statement ν κ)} {s' : Schema ν κ} (h : (s.columns table).isSome)
    (hexec : s.exec sts = .ok s') : s'.columns table = s.columns table := by
  induction sts generalizing s with
  | nil => rw [Except.ok.inj hexec]
  | cons st sts ih =>
    rw [exec] at hexec
    split at hexec
    · rw [ih ((columns_apply h).symm ▸ h) hexec, columns_apply h]
    · cases hexec

end Schema
