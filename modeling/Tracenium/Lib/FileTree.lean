-- SUMMARY: File trees with symbolic links, where a path leads in them, and the system calls on a disk of such files.
import Tracenium.Lib.OrderedMap
import Mathlib.Data.List.Induction
import Mathlib.Logic.Function.Basic

/-!
A place is spelled by a volume and by names, and places whose names have the same keys are the same. Too many links
lead nowhere.
-/

structure Place (ρ ν : Type*) where
  root : ρ
  names : List ν
  deriving DecidableEq

namespace Place

variable {ρ ν : Type*}

def parent (p : Place ρ ν) : Place ρ ν := ⟨p.root, p.names.dropLast⟩

def child (p : Place ρ ν) (n : ν) : Place ρ ν := ⟨p.root, p.names ++ [n]⟩

end Place

namespace FileTree

inductive Step (ν : Type*)
  | up
  | name (n : ν)
  deriving DecidableEq

/-- A link has the volume that its target begins with, if any, and the steps of it. -/
inductive Node (ρ ν : Type*)
  | file
  | dir
  | link (root : Option ρ) (steps : List (Step ν))
  deriving DecidableEq

end FileTree

open FileTree

/-- The nodes of a tree, under the keys of the volumes and names. -/
structure FileTree (ρ ν σ κ : Type*) [DecidableEq σ] [DecidableEq κ] where
  rootKey : ρ → σ
  nameKey : ν → κ
  nodes : OrderedMap (Place σ κ) (Node ρ ν)
  parent : ∀ root names n v, nodes.get ⟨root, names ++ [n]⟩ = some v → nodes.get ⟨root, names⟩ = some .dir
  roots : ∀ root v, nodes.get ⟨root, []⟩ = some v → v = .dir

namespace FileTree

variable {ρ ν σ κ : Type*} [DecidableEq σ] [DecidableEq κ]

def Node.isDir : Node ρ ν → Bool
  | .dir => true
  | _ => false

theorem Node.eq_dir_of_isDir {v : Node ρ ν} (h : v.isDir) : v = .dir := by
  cases v with
  | dir => rfl
  | file => cases h
  | link root steps => cases h

/-- Every node is a root, or in a directory. -/
def isClosed (nodes : OrderedMap (Place σ κ) (Node ρ ν)) : Bool :=
  nodes.entries.all fun e =>
    if e.1.names.isEmpty then e.2.isDir else (nodes.get e.1.parent).any Node.isDir

theorem get_parent_of_isClosed {nodes : OrderedMap (Place σ κ) (Node ρ ν)}
    (hclosed : isClosed nodes) {root : σ} {names : List κ} {n : κ} {v : Node ρ ν}
    (hv : nodes.get ⟨root, names ++ [n]⟩ = some v) : nodes.get ⟨root, names⟩ = some .dir := by
  have h := List.all_eq_true.mp hclosed _ (OrderedMap.get_eq_some_iff.mp hv)
  have hne : (names ++ [n]).isEmpty = false := by simp
  have hparent : Place.parent ⟨root, names ++ [n]⟩ = ⟨root, names⟩ := by
    rw [Place.parent, List.dropLast_concat]
  rw [hne, if_neg Bool.false_ne_true, hparent] at h
  obtain ⟨w, hw, hdir⟩ := (Option.any_eq_true _ _).mp h
  rw [hw, Node.eq_dir_of_isDir hdir]

theorem eq_dir_of_isClosed {nodes : OrderedMap (Place σ κ) (Node ρ ν)}
    (hclosed : isClosed nodes) {root : σ} {v : Node ρ ν} (hv : nodes.get ⟨root, []⟩ = some v) : v = .dir :=
  Node.eq_dir_of_isDir (List.all_eq_true.mp hclosed _ (OrderedMap.get_eq_some_iff.mp hv))

def ofNodes (rootKey : ρ → σ) (nameKey : ν → κ) (nodes : OrderedMap (Place σ κ) (Node ρ ν))
    (hclosed : isClosed nodes = true) : FileTree ρ ν σ κ where
  rootKey := rootKey
  nameKey := nameKey
  nodes := nodes
  parent := fun _ _ _ _ => get_parent_of_isClosed hclosed
  roots := fun _ _ => eq_dir_of_isClosed hclosed

def lookup (t : FileTree ρ ν σ κ) (p : Place ρ ν) : Option (Node ρ ν) :=
  t.nodes.get ⟨t.rootKey p.root, p.names.map t.nameKey⟩

/-- The steps from a directory, where `follow` goes on after a link. -/
def walkWith (t : FileTree ρ ν σ κ) (follow : Place ρ ν → List (Step ν) → Option (Place ρ ν)) :
    Place ρ ν → List (Step ν) → Option (Place ρ ν)
  | p, [] => if (t.lookup p).isSome then some p else none
  | p, .up :: steps => walkWith t follow p.parent steps
  | p, .name n :: steps =>
    match t.lookup (p.child n) with
    | none => none
    | some .dir => walkWith t follow (p.child n) steps
    | some .file => if steps.isEmpty then some (p.child n) else none
    | some (.link root target) => follow (root.elim p fun r => ⟨r, []⟩) (target ++ steps)

/-- The steps from a directory, over at most so many links. -/
def walk (t : FileTree ρ ν σ κ) : Nat → Place ρ ν → List (Step ν) → Option (Place ρ ν)
  | 0 => t.walkWith fun _ _ => none
  | links + 1 => t.walkWith (t.walk links)

/-- Where a place leads, over at most so many links. -/
def resolve (t : FileTree ρ ν σ κ) (links : Nat) (p : Place ρ ν) : Option (Place ρ ν) :=
  t.walk links ⟨p.root, []⟩ (p.names.map .name)

/-! ## Nodes -/

section Nodes

variable {t : FileTree ρ ν σ κ} {p : Place ρ ν} {n : ν}

theorem lookup_parent {v : Node ρ ν} (hv : t.lookup (p.child n) = some v) : t.lookup p = some .dir := by
  unfold lookup at hv ⊢
  rw [Place.child, List.map_append] at hv
  exact t.parent _ _ _ _ hv

/-- What is above a node is a directory. -/
theorem lookup_above {root : ρ} {names rest : List ν} {v : Node ρ ν}
    (hv : t.lookup ⟨root, names ++ rest⟩ = some v) (hrest : rest ≠ []) : t.lookup ⟨root, names⟩ = some .dir := by
  induction rest using List.reverseRecOn generalizing v with
  | nil => exact absurd rfl hrest
  | append_singleton rest n ih =>
    have hparent : t.lookup ⟨root, names ++ rest⟩ = some .dir := by
      apply lookup_parent (n := n) (v := v)
      rw [Place.child, List.append_assoc]
      exact hv
    by_cases hnil : rest = []
    · rw [hnil, List.append_nil] at hparent
      exact hparent
    · exact ih hparent hnil

theorem lookup_root {root : ρ} {v : Node ρ ν} (hv : t.lookup ⟨root, []⟩ = some v) : v = .dir := t.roots _ _ hv

def IsReal (t : FileTree ρ ν σ κ) (p : Place ρ ν) : Prop :=
  t.lookup p = some .dir ∨ t.lookup p = some .file

/-- A directory, or the root of a volume that may be missing. -/
def IsStart (t : FileTree ρ ν σ κ) (p : Place ρ ν) : Prop :=
  t.lookup p = some .dir ∨ p.names = []

theorem IsStart.parent (hp : t.IsStart p) : t.IsStart p.parent := by
  obtain ⟨root, names⟩ := p
  induction names using List.reverseRecOn with
  | nil => exact .inr rfl
  | append_singleton names n _ =>
    rcases hp with hdir | hnil
    · left
      rw [Place.parent, List.dropLast_concat]
      exact lookup_parent (n := n) hdir
    · exact absurd hnil (List.append_ne_nil_of_right_ne_nil _ (List.cons_ne_nil _ _))

theorem IsStart.isReal (hp : t.IsStart p) (hsome : (t.lookup p).isSome) : t.IsReal p := by
  rcases hp with hdir | hnil
  · exact .inl hdir
  · obtain ⟨root, names⟩ := p
    obtain rfl : names = [] := hnil
    obtain ⟨v, hv⟩ := Option.isSome_iff_exists.mp hsome
    left
    rw [hv, lookup_root hv]

/-! ## Walks -/

variable {follow : Place ρ ν → List (Step ν) → Option (Place ρ ν)}

theorem isReal_walkWith (hfollow : ∀ p steps q, t.IsStart p → follow p steps = some q → t.IsReal q)
    (steps : List (Step ν)) {p q : Place ρ ν} (hp : t.IsStart p)
    (hq : t.walkWith follow p steps = some q) : t.IsReal q := by
  induction steps generalizing p with
  | nil =>
    rw [walkWith] at hq
    split at hq
    · rename_i hsome
      obtain rfl := Option.some.inj hq
      exact hp.isReal hsome
    · cases hq
  | cons s steps ih =>
    cases s with
    | up => exact ih hp.parent hq
    | name n =>
      rw [walkWith] at hq
      split at hq
      · cases hq
      · exact ih (.inl ‹_›) hq
      · rename_i hfile
        split at hq
        · obtain rfl := Option.some.inj hq
          exact .inr hfile
        · cases hq
      · rename_i root target _
        cases root with
        | none => exact hfollow _ _ _ hp hq
        | some r => exact hfollow _ _ _ (.inr rfl) hq

variable {steps : List (Step ν)}

/-- A walk leads to a place that is not a link. -/
theorem isReal_walk (links : Nat) {p q : Place ρ ν} (hp : t.IsStart p)
    (hq : t.walk links p steps = some q) : t.IsReal q := by
  induction links generalizing p q steps with
  | zero =>
    exact isReal_walkWith (fun _ _ _ _ h => by cases h) steps hp hq
  | succ links ih =>
    unfold walk at hq
    exact isReal_walkWith (fun _ _ _ hp' hq' => ih hp' hq') steps hp hq

variable {links : Nat}

theorem isReal_resolve {p q : Place ρ ν} (hq : t.resolve links p = some q) : t.IsReal q :=
  isReal_walk links (.inr rfl) hq

/-- A walk goes on to what is in the place that it leads to. -/
theorem walkWith_child {q : Place ρ ν} (hreal : t.IsReal (q.child n)) (hfollow : ∀ p steps, follow p steps = some q →
      follow p (steps ++ [.name n]) = some (q.child n)) (hq : t.walkWith follow p steps = some q) :
    t.walkWith follow p (steps ++ [.name n]) = some (q.child n) := by
  have hdir : t.lookup q = some .dir := by
    rcases hreal with h | h <;> exact lookup_parent h
  induction steps generalizing p with
  | nil =>
    rw [walkWith] at hq
    split at hq
    · obtain rfl := Option.some.inj hq
      rw [List.nil_append, walkWith]
      rcases hreal with h | h
      · simp only [h]
        rw [walkWith, h]
        rfl
      · simp only [h]
        rfl
    · cases hq
  | cons s steps ih =>
    cases s with
    | up => exact ih hq
    | name m =>
      rw [walkWith] at hq
      rw [List.cons_append, walkWith]
      cases hm : t.lookup (p.child m) with
      | none =>
        rw [hm] at hq
        cases hq
      | some v =>
        rw [hm] at hq
        cases v with
        | dir => exact ih hq
        | file =>
          -- what a walk ends at in a file has nothing in it
          dsimp only at hq
          split at hq
          · obtain rfl := Option.some.inj hq
            rw [hm] at hdir
            cases hdir
          · cases hq
        | link root target =>
          dsimp only at hq ⊢
          rw [← List.append_assoc]
          exact hfollow _ _ hq

theorem walk_child (links : Nat) {p q : Place ρ ν}
    (hq : t.walk links p steps = some q) (hreal : t.IsReal (q.child n)) :
    t.walk links p (steps ++ [.name n]) = some (q.child n) := by
  induction links generalizing p steps with
  | zero =>
    exact walkWith_child hreal nofun hq
  | succ links ih =>
    unfold walk at hq ⊢
    exact walkWith_child hreal (fun _ _ h => ih h) hq

theorem resolve_child {p q : Place ρ ν} (hq : t.resolve links p = some q)
    (hreal : t.IsReal (q.child n)) : t.resolve links (p.child n) = some (q.child n) := by
  unfold resolve at hq ⊢
  rw [Place.child, List.map_append]
  exact walk_child links hq hreal

theorem isReal_above {root : ρ} {names rest : List ν} (hreal : t.IsReal ⟨root, names ++ rest⟩) :
    t.IsReal ⟨root, names⟩ := by
  cases rest with
  | nil =>
    rw [List.append_nil] at hreal
    exact hreal
  | cons n rest =>
    left
    rcases hreal with h | h
    · exact lookup_above h (List.cons_ne_nil _ _)
    · exact lookup_above h (List.cons_ne_nil _ _)

/-- A place that is not a link leads to itself. -/
theorem resolve_of_isReal (links : Nat) (hreal : t.IsReal p) : t.resolve links p = some p := by
  obtain ⟨root, names⟩ := p
  induction names using List.reverseRecOn with
  | nil =>
    have hsome : (t.lookup ⟨root, []⟩).isSome := by
      rcases hreal with h | h <;> rw [h] <;> rfl
    cases links with
    | zero =>
      exact if_pos hsome
    | succ links =>
      rw [resolve, walk, List.map_nil, walkWith]
      exact if_pos hsome
  | append_singleton names n ih => exact resolve_child (ih (isReal_above hreal)) hreal

/-- No link is on the way to a place, nor is it one. -/
def IsUnlinked (t : FileTree ρ ν σ κ) (p : Place ρ ν) : Prop :=
  ∀ names, names <+: p.names → ∀ root target, t.lookup ⟨p.root, names⟩ ≠ some (.link root target)

theorem IsReal.isUnlinked (hreal : t.IsReal p) : t.IsUnlinked p := by
  rintro names ⟨rest, hrest⟩ root target hlink
  obtain ⟨r, all⟩ := p
  obtain rfl : names ++ rest = all := hrest
  rcases isReal_above hreal with h | h
  · rw [h] at hlink
    cases hlink
  · rw [h] at hlink
    cases hlink

/-- Below a missing name there are no links. -/
theorem IsReal.isUnlinked_of_missing (hreal : t.IsReal p) (hnone : t.lookup (p.child n) = none) (below : List ν) :
    t.IsUnlinked ⟨p.root, p.names ++ n :: below⟩ := by
  intro names hnames root target hlink
  have hchild : p.names ++ [n] <+: p.names ++ n :: below := ⟨below, by simp⟩
  have hnot : names ≠ p.names ++ [n] := by
    rintro rfl
    rw [show t.lookup ⟨p.root, p.names ++ [n]⟩ = none from hnone] at hlink
    cases hlink
  rcases List.prefix_or_prefix_of_prefix hnames hchild with habove | ⟨more, rfl⟩
  · rcases List.prefix_concat_iff.mp habove with heq | habove
    · exact hnot heq
    · exact hreal.isUnlinked names habove root target hlink
  · have hmore : more ≠ [] := by
      rintro rfl
      exact hnot (List.append_nil _)
    have hdir := lookup_above hlink hmore
    rw [show t.lookup ⟨p.root, p.names ++ [n]⟩ = none from hnone] at hdir
    cases hdir

/-- A place without links on the way leads nowhere else. -/
theorem IsUnlinked.eq_of_resolve {p q : Place ρ ν} (hp : t.IsUnlinked p)
    (hq : t.resolve links p = some q) : q = p := by
  have hwalk : ∀ (follow : Place ρ ν → List (Step ν) → Option (Place ρ ν)) (rest names : List ν),
      p.names = names ++ rest →
      t.walkWith follow ⟨p.root, names⟩ (rest.map .name) = some q → q = p := by
    intro follow rest
    induction rest with
    | nil =>
      intro names hnames hq
      rw [List.map_nil, walkWith] at hq
      split at hq
      · obtain rfl := Option.some.inj hq
        rw [List.append_nil] at hnames
        rw [← hnames]
      · cases hq
    | cons n rest ih =>
      intro names hnames hq
      have hchild : p.names = (names ++ [n]) ++ rest := by
        rw [hnames, List.append_assoc, List.singleton_append]
      rw [List.map_cons, walkWith] at hq
      split at hq
      · cases hq
      · exact ih _ hchild hq
      · split at hq
        · rename_i hend
          obtain rfl := Option.some.inj hq
          rw [List.isEmpty_iff, List.map_eq_nil_iff] at hend
          rw [hend, List.append_nil] at hchild
          rw [Place.child, ← hchild]
        · cases hq
      · rename_i root target hlink
        exact absurd hlink (hp _ ⟨rest, hchild.symm⟩ root target)
  cases links with
  | zero => exact hwalk _ p.names [] rfl hq
  | succ links => exact hwalk _ p.names [] rfl hq

/-! ## What a path names -/

/-- What leads nowhere leads nowhere with another name, and so does what has no such name in it. -/
theorem walkWith_child_eq_none (hfollow : ∀ p steps, (∀ q, follow p steps = some q → t.lookup (q.child n) = none) →
      follow p (steps ++ [.name n]) = none) (steps : List (Step ν))
    (hnone : ∀ q, t.walkWith follow p steps = some q → t.lookup (q.child n) = none) :
    t.walkWith follow p (steps ++ [.name n]) = none := by
  induction steps generalizing p with
  | nil =>
    have hchild : t.lookup (p.child n) = none := by
      cases hv : t.lookup (p.child n) with
      | none => rfl
      | some v =>
        have hdir := lookup_parent hv
        rw [← hv]
        apply hnone p
        simp only [walkWith, hdir, Option.isSome_some, if_true]
    simp only [List.nil_append, walkWith, hchild]
  | cons s steps ih =>
    cases s with
    | up => exact ih hnone
    | name m =>
      rw [List.cons_append, walkWith]
      rw [walkWith] at hnone
      cases hm : t.lookup (p.child m) with
      | none => rfl
      | some v =>
        rw [hm] at hnone
        cases v with
        | dir => exact ih hnone
        | file =>
          have hmore : (steps ++ [Step.name n]).isEmpty = false := by simp
          rw [hmore]
          rfl
        | link root target =>
          dsimp only at hnone ⊢
          rw [← List.append_assoc]
          exact hfollow _ _ hnone

theorem walk_child_eq_none (links : Nat) (hnone : ∀ q, t.walk links p steps = some q → t.lookup (q.child n) = none) :
    t.walk links p (steps ++ [.name n]) = none := by
  induction links generalizing p steps with
  | zero =>
    exact walkWith_child_eq_none (fun _ _ _ => rfl) steps hnone
  | succ links ih =>
    unfold walk at hnone ⊢
    exact walkWith_child_eq_none (fun _ _ h => ih h) steps hnone

theorem resolve_child_eq_none (hnone : ∀ q, t.resolve links p = some q → t.lookup (q.child n) = none) :
    t.resolve links (p.child n) = none := by
  unfold resolve
  rw [Place.child, List.map_append]
  exact walk_child_eq_none links hnone

/-- A path names the place that it leads to or, where nothing is yet, the place that is to be. -/
inductive Names (t : FileTree ρ ν σ κ) (links : Nat) : Place ρ ν → Place ρ ν → Prop
  | found {p q} : t.resolve links p = some q → Names t links p q
  | missing {p q n} : Names t links p q → t.lookup (q.child n) = none → Names t links (p.child n) (q.child n)

/-- The place is in the directory, whatever they are spelled like. -/
def Contains (t : FileTree ρ ν σ κ) (dir p : Place ρ ν) : Prop :=
  t.rootKey dir.root = t.rootKey p.root ∧ dir.names.map t.nameKey <+: p.names.map t.nameKey

theorem Names.isUnlinked {p q : Place ρ ν} (hq : t.Names links p q) : t.IsUnlinked q := by
  induction hq with
  | found hq => exact (isReal_resolve hq).isUnlinked
  | @missing p q n _ hnone ih =>
    intro names hnames root target hlink
    rcases List.prefix_concat_iff.mp hnames with rfl | habove
    · rw [show t.lookup ⟨(q.child n).root, q.names ++ [n]⟩ = none from hnone] at hlink
      cases hlink
    · exact ih names habove root target hlink

/-- A path names a place on a volume that is there. -/
theorem Names.lookup_root {p q : Place ρ ν} (hq : t.Names links p q) : t.lookup ⟨q.root, []⟩ = some .dir := by
  induction hq with
  | @found p q hq =>
    have hreal : t.IsReal ⟨q.root, [] ++ q.names⟩ := isReal_resolve hq
    have hroot : t.IsReal ⟨q.root, []⟩ := isReal_above hreal
    rcases hroot with h | h
    · exact h
    · cases FileTree.lookup_root h
  | missing _ _ ih => exact ih

/-- A directory has the keys of the place that its names reach in what it contains. -/
theorem Contains.lookup_eq {dir p : Place ρ ν} (h : t.Contains dir p) {names : List ν}
    (hnames : names <+: dir.names) : t.lookup ⟨dir.root, names⟩ = t.lookup ⟨p.root, p.names.take names.length⟩ := by
  have hkeys : names.map t.nameKey <+: p.names.map t.nameKey := (hnames.map t.nameKey).trans h.2
  unfold lookup
  rw [h.1, List.map_take, ← List.length_map t.nameKey, ← List.prefix_iff_eq_take.mp hkeys]

theorem Contains.isUnlinked {dir p : Place ρ ν} (h : t.Contains dir p) (hp : t.IsUnlinked p) : t.IsUnlinked dir := by
  intro names hnames root target hlink
  rw [h.lookup_eq hnames] at hlink
  exact hp _ (List.take_prefix _ _) root target hlink

end Nodes

end FileTree

/-! # Disks -/

open FileTree

namespace FileTree

variable {ρ ν σ κ : Type*} [DecidableEq σ] [DecidableEq κ] {t : FileTree ρ ν σ κ} {p : Place ρ ν}

/-- Where a place is kept. -/
def key (t : FileTree ρ ν σ κ) (p : Place ρ ν) : Place σ κ := ⟨t.rootKey p.root, p.names.map t.nameKey⟩

theorem key_child (t : FileTree ρ ν σ κ) (p : Place ρ ν) (n : ν) :
    t.key (p.child n) = ⟨t.rootKey p.root, p.names.map t.nameKey ++ [t.nameKey n]⟩ := by
  simp [key, Place.child]

theorem IsUnlinked.child (hp : t.IsUnlinked p) {n : ν}
    (hlast : ∀ root target, t.lookup (p.child n) ≠ some (.link root target)) : t.IsUnlinked (p.child n) := by
  intro names hnames root target hlink
  rcases List.prefix_concat_iff.mp hnames with rfl | habove
  · exact hlast root target hlink
  · exact hp names habove root target hlink

variable [DecidableEq ρ] [DecidableEq ν]

/-- A node in a directory, where there is none. -/
def add (t : FileTree ρ ν σ κ) (p : Place ρ ν) (n : ν) (v : Node ρ ν) : FileTree ρ ν σ κ :=
  if h : t.lookup p = some .dir ∧ t.lookup (p.child n) = none then
    { t with
      nodes := t.nodes.set (t.key (p.child n)) v
      parent := by
        intro root names m w hw
        have hold : t.nodes.get ⟨root, names⟩ = some .dir := by
          by_cases heq : (⟨root, names ++ [m]⟩ : Place σ κ) = t.key (p.child n)
          · rw [key_child] at heq
            obtain ⟨hroot, hnames⟩ := Place.mk.inj heq
            obtain ⟨rfl, -⟩ := List.append_singleton_inj.mp hnames
            exact hroot ▸ h.1
          · rw [OrderedMap.get_set_of_ne heq] at hw
            exact t.parent root names m w hw
        have hne : (⟨root, names⟩ : Place σ κ) ≠ t.key (p.child n) := by
          intro heq
          rw [heq] at hold
          cases hold.symm.trans h.2
        exact (OrderedMap.get_set_of_ne hne).trans hold
      roots := by
        intro root w hw
        have hne : (⟨root, []⟩ : Place σ κ) ≠ t.key (p.child n) := by
          intro heq
          rw [key_child] at heq
          exact absurd (Place.mk.inj heq).2 (by simp)
        exact t.roots root w ((OrderedMap.get_set_of_ne hne).symm.trans hw) }
  else t

def erase (t : FileTree ρ ν σ κ) (p : Place ρ ν) : FileTree ρ ν σ κ :=
  if h : t.lookup p = some .file then
    { t with
      nodes := t.nodes.delete (t.key p)
      parent := by
        intro root names m w hw
        have hne : (⟨root, names ++ [m]⟩ : Place σ κ) ≠ t.key p := by
          rintro heq
          rw [heq, OrderedMap.get_delete_self] at hw
          cases hw
        have hold := t.parent root names m w ((OrderedMap.get_delete_of_ne hne).symm.trans hw)
        have hne' : (⟨root, names⟩ : Place σ κ) ≠ t.key p := by
          intro heq
          rw [heq] at hold
          cases hold.symm.trans h
        exact (OrderedMap.get_delete_of_ne hne').trans hold
      roots := by
        intro root w hw
        have hne : (⟨root, []⟩ : Place σ κ) ≠ t.key p := by
          intro heq
          rw [heq, OrderedMap.get_delete_self] at hw
          cases hw
        exact t.roots root w ((OrderedMap.get_delete_of_ne hne).symm.trans hw) }
  else t

@[simp] theorem key_add (t : FileTree ρ ν σ κ) (p q : Place ρ ν) (n : ν) (v : Node ρ ν) :
    (t.add p n v).key q = t.key q := by
  unfold add
  split <;> rfl

@[simp] theorem key_erase (t : FileTree ρ ν σ κ) (p q : Place ρ ν) : (t.erase p).key q = t.key q := by
  unfold erase
  split <;> rfl

theorem get_add {n : ν} {v : Node ρ ν} (hdir : t.lookup p = some .dir) (hnone : t.lookup (p.child n) = none)
    (k : Place σ κ) : (t.add p n v).nodes.get k = if k = t.key (p.child n) then some v else t.nodes.get k := by
  rw [add, dif_pos ⟨hdir, hnone⟩]
  split
  · rename_i heq
    rw [heq]
    exact OrderedMap.get_set_self _ _ _
  · exact OrderedMap.get_set_of_ne ‹_›

theorem get_erase (hfile : t.lookup p = some .file) (k : Place σ κ) :
    (t.erase p).nodes.get k = if k = t.key p then none else t.nodes.get k := by
  rw [erase, dif_pos hfile]
  split
  · rename_i heq
    rw [heq]
    exact OrderedMap.get_delete_self _ _
  · exact OrderedMap.get_delete_of_ne ‹_›

/-- The directory that a path leads to before its last name, and the name. -/
def locate (t : FileTree ρ ν σ κ) (links : Nat) (p : Place ρ ν) : Option (Place ρ ν × ν) :=
  match p.names.getLast?, t.resolve links p.parent with
  | some n, some q => if t.lookup q = some .dir then some (q, n) else none
  | _, _ => none

theorem locate_child_eq_some_iff {links : Nat} {n m : ν} {q : Place ρ ν} : t.locate links (p.child n) = some (q, m) ↔
      t.resolve links p = some q ∧ t.lookup q = some .dir ∧ m = n := by
  have hparent : (p.child n).parent = p := by simp [Place.parent, Place.child]
  have hlast : (p.child n).names.getLast? = some n := by simp [Place.child]
  rw [locate, hlast, hparent]
  cases hq : t.resolve links p with
  | none => simp
  | some r =>
    by_cases hdir : t.lookup r = some .dir
    · simp only [hdir, if_true, Option.some.injEq, Prod.mk.injEq]
      constructor
      · rintro ⟨rfl, rfl⟩
        exact ⟨rfl, hdir, rfl⟩
      · rintro ⟨rfl, -, rfl⟩
        exact ⟨rfl, rfl⟩
    · simp only [hdir, Option.some.injEq]
      constructor
      · intro h
        cases h
      · rintro ⟨rfl, h, -⟩
        exact absurd h hdir

theorem dir_of_locate {links : Nat} {q : Place ρ ν} {n : ν} (h : t.locate links p = some (q, n)) :
    t.lookup q = some .dir := by
  unfold locate at h
  split at h
  · split at h
    · cases h
      assumption
    · cases h
  · cases h

/-- In a directory that is one, a path names what it says. -/
theorem locate_child {links : Nat} {n : ν} (hdir : t.lookup p = some .dir) :
    t.locate links (p.child n) = some (p, n) :=
  locate_child_eq_some_iff.mpr ⟨resolve_of_isReal links (.inl hdir), hdir, rfl⟩

end FileTree

structure Disk (ρ ν σ κ : Type*) [DecidableEq σ] [DecidableEq κ] where
  tree : FileTree ρ ν σ κ
  content : Place σ κ → List UInt8

namespace Disk

inductive Entry (ρ ν : Type*)
  | dir
  | file (content : List UInt8)
  | link (root : Option ρ) (steps : List (Step ν))
  deriving DecidableEq

def Entry.ofNode {ρ ν : Type*} (content : List UInt8) : Node ρ ν → Entry ρ ν
  | .dir => .dir
  | .file => .file content
  | .link root steps => .link root steps

variable {ρ ν σ κ : Type*} [DecidableEq σ] [DecidableEq κ]

def entry (d : Disk ρ ν σ κ) (k : Place σ κ) : Option (Entry ρ ν) :=
  (d.tree.nodes.get k).map (Entry.ofNode (d.content k))

section Entries

variable {d : Disk ρ ν σ κ} {p : Place ρ ν}

theorem entry_key (d : Disk ρ ν σ κ) (p : Place ρ ν) :
    d.entry (d.tree.key p) = (d.tree.lookup p).map (Entry.ofNode (d.content (d.tree.key p))) := rfl

theorem entry_eq_none_iff : d.entry (d.tree.key p) = none ↔ d.tree.lookup p = none := by
  simp [entry_key]

theorem entry_eq_dir_iff : d.entry (d.tree.key p) = some .dir ↔ d.tree.lookup p = some .dir := by
  rw [entry_key]
  cases d.tree.lookup p with
  | none => simp
  | some v => cases v <;> simp [Entry.ofNode]

theorem entry_eq_link_iff {root : Option ρ} {target : List (Step ν)} :
    d.entry (d.tree.key p) = some (.link root target) ↔ d.tree.lookup p = some (.link root target) := by
  rw [entry_key]
  cases d.tree.lookup p with
  | none => simp
  | some v => cases v <;> simp [Entry.ofNode]

theorem lookup_eq_file_iff :
    d.tree.lookup p = some .file ↔ ∃ content, d.entry (d.tree.key p) = some (.file content) := by
  rw [entry_key]
  cases d.tree.lookup p with
  | none => simp
  | some v => cases v <;> simp [Entry.ofNode]

/-- A place stays without links where no link is made. -/
theorem isUnlinked_of_entry {d' : Disk ρ ν σ κ} (hkey : d'.tree.key = d.tree.key)
    (hlinks : ∀ k root target, d'.entry k = some (.link root target) → d.entry k = some (.link root target))
    (hp : d.tree.IsUnlinked p) : d'.tree.IsUnlinked p := by
  intro names hnames root target hlink
  have hentry := hlinks _ _ _ (entry_eq_link_iff.mpr hlink)
  rw [hkey] at hentry
  exact hp names hnames root target (entry_eq_link_iff.mp hentry)

/-- To a file that is open, and empty. -/
def write (d : Disk ρ ν σ κ) (k : Place σ κ) (bytes : List UInt8) : Disk ρ ν σ κ :=
  { d with content := Function.update d.content k bytes }

theorem entry_write {content : List UInt8} {k : Place σ κ} (h : d.entry k = some (.file content))
    (bytes : List UInt8) (k' : Place σ κ) :
    (d.write k bytes).entry k' = if k' = k then some (.file bytes) else d.entry k' := by
  split
  · rename_i heq
    subst heq
    obtain ⟨v, hv, hentry⟩ := Option.map_eq_some_iff.mp h
    cases v with
    | file => simp [entry, write, hv, Entry.ofNode]
    | dir | link => cases hentry
  · rename_i hne
    simp [entry, write, Function.update_of_ne hne]

end Entries

variable [DecidableEq ρ] [DecidableEq ν]

/-! ## Calls -/

section Calls

variable (d : Disk ρ ν σ κ) (links : Nat) (p : Place ρ ν)

/-- What a path names, not what it leads to. `none` where there is nothing, or no directory on the way. -/
def lstat : Option (Node ρ ν) :=
  if p.names = [] then d.tree.lookup p
  else (d.tree.locate links p).bind fun (q, n) => d.tree.lookup (q.child n)

/-- The codes of errors. A fault is not the tree's. -/
inductive Errno
  | ENOENT
  | EEXIST
  | EISDIR
  | ELOOP
  | fault (code : Nat)
  deriving DecidableEq

def realpath : Except Errno (Place ρ ν) :=
  match d.tree.resolve links p with
  | some q => .ok q
  | none => .error .ENOENT

/-- What a path leads to. -/
def stat : Except Errno (Node ρ ν) :=
  match (d.tree.resolve links p).bind d.tree.lookup with
  | some v => .ok v
  | none => .error .ENOENT

def mkdir : Except Errno (Disk ρ ν σ κ) :=
  match d.tree.locate links p with
  | some (q, n) =>
    if (d.tree.lookup (q.child n)).isSome then .error .EEXIST else .ok { d with tree := d.tree.add q n .dir }
  | none => .error .ENOENT

/-- `O_WRONLY | O_CREAT | O_TRUNC | O_NOFOLLOW`: the file is empty now, and where it is kept. -/
def openTruncated : Except Errno (Disk ρ ν σ κ × Place σ κ) :=
  match d.tree.locate links p with
  | some (q, n) =>
    let k := d.tree.key (q.child n)
    match d.tree.lookup (q.child n) with
    | none => .ok (⟨d.tree.add q n .file, Function.update d.content k []⟩, k)
    | some .file => .ok (⟨d.tree, Function.update d.content k []⟩, k)
    | some .dir => .error .EISDIR
    | some (.link _ _) => .error .ELOOP
  | none => .error .ENOENT

def unlink : Except Errno (Disk ρ ν σ κ) :=
  match d.tree.locate links p with
  | some (q, n) =>
    if d.tree.lookup (q.child n) = some .file then .ok { d with tree := d.tree.erase (q.child n) }
    else .error .EISDIR
  | none => .error .ENOENT

def readFile : Except Errno (List UInt8) :=
  match d.tree.resolve links p with
  | some q => if d.tree.lookup q = some .file then .ok (d.content (d.tree.key q)) else .error .EISDIR
  | none => .error .ENOENT

end Calls

/-! ## What calls change -/

variable {d d' : Disk ρ ν σ κ} {links : Nat} {p : Place ρ ν} {k : Place σ κ}

theorem entry_mkdir (h : d.mkdir links p = .ok d') :
    ∃ q n, d.tree.locate links p = some (q, n) ∧ d.tree.lookup (q.child n) = none ∧ d'.tree.key = d.tree.key ∧
      ∀ k, d'.entry k = if k = d.tree.key (q.child n) then some .dir else d.entry k := by
  unfold mkdir at h
  split at h
  · rename_i q n hlocate
    split at h
    · cases h
    · rename_i hnone
      obtain rfl := Except.ok.inj h
      have hmissing : d.tree.lookup (q.child n) = none := by simpa using hnone
      refine ⟨q, n, hlocate, hmissing, funext fun _ => key_add _ _ _ _ _, fun k => ?_⟩
      rw [entry, get_add (dir_of_locate hlocate) hmissing]
      split <;> rfl
  · cases h

/-- Only a file that is there, or nothing yet, is opened, and it is empty then. -/
theorem entry_openTruncated (h : d.openTruncated links p = .ok (d', k)) :
    ∃ q n, d.tree.locate links p = some (q, n) ∧ k = d.tree.key (q.child n) ∧ d'.tree.key = d.tree.key ∧
      (d.tree.lookup (q.child n) = none ∨ d.tree.lookup (q.child n) = some .file) ∧
      ∀ k', d'.entry k' = if k' = k then some (.file []) else d.entry k' := by
  unfold openTruncated at h
  split at h
  · rename_i q n hlocate
    split at h
    · rename_i hmissing
      obtain ⟨rfl, rfl⟩ := Prod.mk.inj (Except.ok.inj h)
      refine ⟨q, n, hlocate, rfl, funext fun _ => key_add _ _ _ _ _, .inl hmissing, fun k' => ?_⟩
      rw [entry, get_add (dir_of_locate hlocate) hmissing]
      split
      · rename_i heq
        simp [heq, Entry.ofNode]
      · rename_i hne
        simp [entry, Function.update_of_ne hne]
    · rename_i hfile
      obtain ⟨rfl, rfl⟩ := Prod.mk.inj (Except.ok.inj h)
      refine ⟨q, n, hlocate, rfl, rfl, .inr hfile, fun k' => ?_⟩
      split
      · rename_i heq
        have hget : d.tree.nodes.get (d.tree.key (q.child n)) = some .file := hfile
        simp [entry, heq, hget, Entry.ofNode]
      · rename_i hne
        simp [entry, Function.update_of_ne hne]
    · cases h
    · cases h
  · cases h

theorem entry_unlink (h : d.unlink links p = .ok d') :
    ∃ q n, d.tree.locate links p = some (q, n) ∧ d.tree.lookup (q.child n) = some .file ∧ d'.tree.key = d.tree.key ∧
      ∀ k, d'.entry k = if k = d.tree.key (q.child n) then none else d.entry k := by
  unfold unlink at h
  split at h
  · rename_i q n hlocate
    split at h
    · rename_i hfile
      obtain rfl := Except.ok.inj h
      refine ⟨q, n, hlocate, hfile, funext fun _ => key_erase _ _ _, fun k => ?_⟩
      rw [entry, get_erase hfile]
      split <;> rfl
    · cases h
  · cases h

/-- A file that is there is read. -/
theorem readFile_of_entry {content : List UInt8} (links : Nat) (h : d.entry (d.tree.key p) = some (.file content)) :
    d.readFile links p = .ok content := by
  have hfile : d.tree.lookup p = some .file := lookup_eq_file_iff.mpr ⟨content, h⟩
  rw [entry_key, hfile] at h
  rw [readFile, resolve_of_isReal links (.inr hfile)]
  simpa [hfile, Entry.ofNode] using h

end Disk
