-- SUMMARY: Changes of several files that are taken back when a check refuses them, with operations that may fail.
import Mathlib.Data.List.Nodup
import Mathlib.Data.List.TakeWhile
import Mathlib.Logic.Function.Basic

/-! Every operation may fail, and then the plan ends where it is. -/

open List Function

namespace Transactions

/-- What is under each path, if anything. -/
abbrev Store (κ β : Type*) := κ → Option β

variable {κ β : Type*} [DecidableEq κ]

section Writing

def writeAll : List (κ × Option β) → Store κ β → Store κ β
  | [], s => s
  | (path, content) :: es, s => writeAll es (update s path content)

/-- The entries are written up to the first that fails; did all go through? -/
def tryAll (fails : κ → Bool) : List (κ × Option β) → Store κ β → Store κ β × Bool
  | [], s => (s, true)
  | (path, content) :: es, s =>
    if fails path then (s, false) else tryAll fails es (update s path content)

theorem tryAll_eq (fails : κ → Bool) (es : List (κ × Option β)) (s : Store κ β) : tryAll fails es s =
      (writeAll (es.takeWhile fun e => !fails e.1) s, es.all fun e => !fails e.1) := by
  induction es generalizing s with
  | nil => rfl
  | cons e es ih =>
    obtain ⟨path, content⟩ := e
    rw [tryAll]
    by_cases hfails : fails path
    · simp only [hfails, if_true, takeWhile_cons, Bool.not_true, Bool.false_eq_true, if_false,
        all_cons, Bool.false_and, writeAll]
    · simp only [hfails, Bool.false_eq_true, if_false, ih, takeWhile_cons, Bool.not_false,
        if_true, all_cons, Bool.true_and, writeAll]

variable {es : List (κ × Option β)}

theorem writeAll_of_notMem {path : κ} (h : path ∉ es.map Prod.fst) (s : Store κ β) : writeAll es s path = s path := by
  induction es generalizing s with
  | nil => rfl
  | cons e es ih =>
    rw [map_cons, mem_cons, not_or] at h
    rw [writeAll, ih h.2, update_of_ne h.1]

theorem writeAll_of_mem (hnodup : (es.map Prod.fst).Nodup) {path : κ}
    {content : Option β} (h : (path, content) ∈ es) (s : Store κ β) : writeAll es s path = content := by
  induction es generalizing s with
  | nil => exact absurd h not_mem_nil
  | cons e es ih =>
    obtain ⟨hnew, hnodup⟩ := nodup_cons.mp hnodup
    rcases mem_cons.mp h with rfl | h
    · rw [writeAll, writeAll_of_notMem hnew, update_self]
    · exact ih hnodup h _

theorem writeAll_congr {s s' : Store κ β} {path : κ}
    (h : s' path = s path) : writeAll es s' path = writeAll es s path := by
  induction es generalizing s s' with
  | nil => exact h
  | cons e es ih =>
    refine ih ?_
    by_cases heq : path = e.1
    · rw [heq, update_self, update_self]
    · rw [update_of_ne heq, update_of_ne heq, h]

end Writing

/-- One file: what is written back, and what is written. -/
structure Change (κ β : Type*) where
  path : κ
  before : Option β
  next : Option β

inductive Answer
  | accepts
  | refuses
  | throws
  deriving DecidableEq

/-- How a part of a call ends. A part that has `reported` a refusal goes on. -/
inductive Ending
  | settled
  | reported
  | rejected
  | threw
  deriving DecidableEq

def Ending.stops : Ending → Bool
  | .settled => false
  | .reported => false
  | .rejected => true
  | .threw => true

structure Plan (κ β : Type*) where
  changes : List (Change κ β)
  nodup : (changes.map Change.path).Nodup
  /-- What comes before the first change throws. -/
  blocked : Bool
  changeFails : κ → Bool
  restoreFails : κ → Bool
  answer : Answer
  /-- What comes after the last restored file throws. -/
  reportFails : Bool

namespace Plan

def nexts (cs : List (Change κ β)) : List (κ × Option β) := cs.map fun c => (c.path, c.next)

def befores (cs : List (Change κ β)) : List (κ × Option β) := cs.map fun c => (c.path, c.before)

/-- Change, check, and restore if the check refuses. -/
def commit (t : Plan κ β) (s : Store κ β) : Store κ β × Ending :=
  if t.blocked then (s, .threw)
  else if t.changes.isEmpty then (s, .settled)
  else
    match tryAll t.changeFails (nexts t.changes) s with
    | (s, false) => (s, .threw)
    | (s, true) =>
      match t.answer with
      | .accepts => (s, .settled)
      | .throws => (s, .threw)
      | .refuses =>
        match tryAll t.restoreFails (befores t.changes) s with
        | (s, true) => (s, if t.reportFails then .threw else .rejected)
        | (s, false) => (s, .threw)

/-- A refused plan leaves the files as they were. -/
def TakesBack (t : Plan κ β) (s : Store κ β) : Prop :=
  (t.commit s).2 ≠ .settled → ∀ c ∈ t.changes, (t.commit s).1 c.path = s c.path

/-- The plan comes to an end in which the changes stay. -/
def Settles (t : Plan κ β) : Prop :=
  t.blocked = false ∧ (t.changes = [] ∨ (∀ c ∈ t.changes, t.changeFails c.path = false) ∧ t.answer = .accepts)

/-- What stays of a plan that does not settle is what was there: the changes before the first that
fails, all of them if the check throws, those that are not restored; and what is restored is what
was there. -/
def Safe (t : Plan κ β) (s : Store κ β) : Prop :=
  t.blocked = false →
    if t.changes.any fun c => t.changeFails c.path then
      ∀ c ∈ t.changes.takeWhile fun c => !t.changeFails c.path, c.next = s c.path
    else
      match t.answer with
      | .accepts => True
      | .throws => ∀ c ∈ t.changes, c.next = s c.path
      | .refuses =>
        (∀ c ∈ t.changes.takeWhile fun c => !t.restoreFails c.path, c.before = s c.path) ∧
        ∀ c ∈ t.changes.dropWhile fun c => !t.restoreFails c.path, c.next = s c.path

section Spec

omit [DecidableEq κ]

theorem map_fst_nexts (cs : List (Change κ β)) : (nexts cs).map Prod.fst = cs.map Change.path := map_map

theorem map_fst_befores (cs : List (Change κ β)) : (befores cs).map Prod.fst = cs.map Change.path := map_map

theorem takeWhile_nexts (fails : κ → Bool) (cs : List (Change κ β)) :
    ((nexts cs).takeWhile fun e => !fails e.1) = nexts (cs.takeWhile fun c => !fails c.path) := by
  rw [nexts, takeWhile_map]
  rfl

theorem takeWhile_befores (fails : κ → Bool) (cs : List (Change κ β)) : ((befores cs).takeWhile fun e => !fails e.1) =
      befores (cs.takeWhile fun c => !fails c.path) := by
  rw [befores, takeWhile_map]
  rfl

theorem all_nexts (fails : κ → Bool) (cs : List (Change κ β)) :
    ((nexts cs).all fun e => !fails e.1) = !cs.any fun c => fails c.path := by
  rw [nexts, all_map, not_any_eq_all_not]
  rfl

theorem all_befores (fails : κ → Bool) (cs : List (Change κ β)) :
    ((befores cs).all fun e => !fails e.1) = !cs.any fun c => fails c.path := by
  rw [befores, all_map, not_any_eq_all_not]
  rfl

end Spec

/-- What is at the path of a change after some of the changes are written. -/
theorem writeAll_nexts {cs : List (Change κ β)} (hnodup : (cs.map Change.path).Nodup)
    {c : Change κ β} (hc : c ∈ cs) (s : Store κ β) : writeAll (nexts cs) s c.path = c.next :=
  writeAll_of_mem ((map_fst_nexts cs).symm ▸ hnodup) (mem_map.mpr ⟨c, hc, rfl⟩) s

theorem writeAll_befores {cs : List (Change κ β)} (hnodup : (cs.map Change.path).Nodup)
    {c : Change κ β} (hc : c ∈ cs) (s : Store κ β) : writeAll (befores cs) s c.path = c.before :=
  writeAll_of_mem ((map_fst_befores cs).symm ▸ hnodup) (mem_map.mpr ⟨c, hc, rfl⟩) s

variable {s : Store κ β}

/-- The first changes stay, and the others are not made. -/
theorem kept_iff (cs ds : List (Change κ β)) (hnodup : ((cs ++ ds).map Change.path).Nodup) :
    (∀ c ∈ cs ++ ds, writeAll (nexts cs) s c.path = s c.path) ↔ ∀ c ∈ cs, c.next = s c.path := by
  rw [map_append, nodup_append] at hnodup
  obtain ⟨hcs, -, hdisjoint⟩ := hnodup
  constructor
  · intro h c hc
    rw [← h c (mem_append_left _ hc), writeAll_nexts hcs hc]
  · intro h c hc
    rcases mem_append.mp hc with hc | hc
    · rw [writeAll_nexts hcs hc, h c hc]
    · refine writeAll_of_notMem (fun hmem => ?_) s
      rw [map_fst_nexts] at hmem
      exact hdisjoint c.path hmem c.path (mem_map_of_mem hc) rfl

/-- All changes are made, and the first ones restored. -/
theorem restored_iff (cs ds : List (Change κ β)) (hnodup : ((cs ++ ds).map Change.path).Nodup) :
    (∀ c ∈ cs ++ ds, writeAll (befores cs) (writeAll (nexts (cs ++ ds)) s) c.path = s c.path) ↔
      (∀ c ∈ cs, c.before = s c.path) ∧ ∀ c ∈ ds, c.next = s c.path := by
  have hall := hnodup
  rw [map_append, nodup_append] at hnodup
  obtain ⟨hcs, -, hdisjoint⟩ := hnodup
  have hfirst : ∀ c ∈ cs, writeAll (befores cs) (writeAll (nexts (cs ++ ds)) s) c.path = c.before :=
    fun c hc => writeAll_befores hcs hc _
  have hrest : ∀ c ∈ ds,
      writeAll (befores cs) (writeAll (nexts (cs ++ ds)) s) c.path = c.next := fun c hc => by
    rw [writeAll_of_notMem fun hmem => ?_, writeAll_nexts hall (mem_append_right _ hc)]
    rw [map_fst_befores] at hmem
    exact hdisjoint c.path hmem c.path (mem_map_of_mem hc) rfl
  rw [forall_mem_append]
  exact and_congr (forall₂_congr fun c hc => by rw [hfirst c hc])
    (forall₂_congr fun c hc => by rw [hrest c hc])

variable {t : Plan κ β}

theorem commit_of_blocked (h : t.blocked) : t.commit s = (s, .threw) := by
  rw [commit, if_pos h]

theorem commit_of_empty (h : t.blocked = false) (hempty : t.changes = []) : t.commit s = (s, .settled) := by
  rw [commit, h, hempty]
  rfl

theorem commit_of_cut (h : t.blocked = false) (hcut : (t.changes.any fun c => t.changeFails c.path)) :
    t.commit s = (writeAll (nexts (t.changes.takeWhile fun c => !t.changeFails c.path)) s, .threw) := by
  have hempty : t.changes.isEmpty = false := by
    cases hchanges : t.changes with
    | nil =>
      rw [hchanges] at hcut
      cases hcut
    | cons c cs => rfl
  rw [commit, h, hempty, tryAll_eq, takeWhile_nexts, all_nexts, hcut]
  rfl

/-- The changes are all made. -/
theorem commit_of_made (h : t.blocked = false) (hne : t.changes ≠ [])
    (hcut : (t.changes.any fun c => t.changeFails c.path) = false) :
    t.commit s =
      match t.answer with
      | .accepts => (writeAll (nexts t.changes) s, .settled)
      | .throws => (writeAll (nexts t.changes) s, .threw)
      | .refuses =>
        (writeAll (befores (t.changes.takeWhile fun c => !t.restoreFails c.path))
            (writeAll (nexts t.changes) s),
          if (t.changes.any fun c => t.restoreFails c.path) || t.reportFails then .threw
          else .rejected) := by
  have hempty : t.changes.isEmpty = false := by
    rw [isEmpty_eq_false_iff]
    exact hne
  have htake : (t.changes.takeWhile fun c => !t.changeFails c.path) = t.changes :=
    takeWhile_eq_self_iff.mpr fun c hc => by
      have hall := any_eq_false.mp hcut c hc
      rwa [Bool.not_eq_true, ← Bool.not_eq_true'] at hall
  rw [commit, h, hempty, tryAll_eq, takeWhile_nexts, all_nexts, hcut, htake]
  cases t.answer with
  | accepts => rfl
  | throws => rfl
  | refuses =>
    simp only [Bool.false_eq_true, if_false, Bool.not_false, tryAll_eq, takeWhile_befores, all_befores]
    cases t.changes.any fun c => t.restoreFails c.path <;> rfl

/-- A plan takes back what is refused exactly when it is safe. -/
theorem takesBack_iff (t : Plan κ β) : t.TakesBack s ↔ t.Safe s := by
  unfold TakesBack Safe
  by_cases hblocked : t.blocked
  · rw [commit_of_blocked hblocked, hblocked]
    exact iff_of_true (fun _ c _ => rfl) fun h => Bool.noConfusion h
  · rw [Bool.not_eq_true] at hblocked
    rw [imp_iff_right hblocked]
    split
    · -- the changes stop in the middle: the ones before the cut stay made
      rename_i hcut
      have hkept := kept_iff (s := s) (t.changes.takeWhile fun c => !t.changeFails c.path)
        (t.changes.dropWhile fun c => !t.changeFails c.path)
      rw [takeWhile_append_dropWhile] at hkept
      rw [commit_of_cut hblocked hcut, ← hkept t.nodup]
      exact imp_iff_right Ending.noConfusion
    · rename_i hcut
      rw [Bool.not_eq_true] at hcut
      by_cases hempty : t.changes = []
      · rw [commit_of_empty hblocked hempty, hempty]
        refine iff_of_true (fun h => absurd rfl h) ?_
        cases t.answer with
        | accepts => trivial
        | throws => exact forall_mem_nil _
        | refuses => exact ⟨forall_mem_nil _, forall_mem_nil _⟩
      · rw [commit_of_made hblocked hempty hcut]
        cases t.answer with
        | accepts => exact iff_of_true (fun h => absurd rfl h) trivial
        | throws =>
          have hkept := kept_iff (s := s) t.changes []
          rw [append_nil] at hkept
          exact (imp_iff_right Ending.noConfusion).trans (hkept t.nodup)
        -- all is made, and the restore may stop in the middle
        | refuses =>
          have hrestored := restored_iff (s := s)
            (t.changes.takeWhile fun c => !t.restoreFails c.path)
            (t.changes.dropWhile fun c => !t.restoreFails c.path)
          rw [takeWhile_append_dropWhile] at hrestored
          refine (imp_iff_right ?_).trans (hrestored t.nodup)
          dsimp only
          split <;> exact Ending.noConfusion

theorem writeAll_takeWhile_of_notMem {cs : List (Change κ β)} {content : Change κ β → Option β}
    {p : Change κ β → Bool} {path : κ} (h : path ∉ cs.map Change.path) :
    writeAll ((cs.takeWhile p).map fun c => (c.path, content c)) s path = s path := by
  refine writeAll_of_notMem (fun hmem => h ?_) s
  rw [map_map] at hmem
  exact (takeWhile_sublist p).map Change.path |>.subset hmem

/-- Other files stay as they are. -/
theorem commit_frame {path : κ} (h : path ∉ t.changes.map Change.path) : (t.commit s).1 path = s path := by
  have hall : writeAll (nexts t.changes) s path = s path := writeAll_of_notMem ((map_fst_nexts t.changes).symm ▸ h) s
  by_cases hblocked : t.blocked
  · rw [commit_of_blocked hblocked]
  · rw [Bool.not_eq_true] at hblocked
    by_cases hcut : (t.changes.any fun c => t.changeFails c.path)
    · rw [commit_of_cut hblocked hcut]
      exact writeAll_takeWhile_of_notMem h
    · rw [Bool.not_eq_true] at hcut
      by_cases hempty : t.changes = []
      · rw [commit_of_empty hblocked hempty]
      · rw [commit_of_made hblocked hempty hcut]
        cases t.answer with
        | accepts => exact hall
        | throws => exact hall
        | refuses => exact (writeAll_takeWhile_of_notMem h).trans hall

/-- Nothing else is read while a plan is carried out. -/
theorem commit_congr (t : Plan κ β) (s s' : Store κ β) : (t.commit s').2 = (t.commit s).2 ∧
      ∀ path, s' path = s path → (t.commit s').1 path = (t.commit s).1 path := by
  by_cases hblocked : t.blocked
  · rw [commit_of_blocked hblocked, commit_of_blocked hblocked]
    exact ⟨rfl, fun path h => h⟩
  · rw [Bool.not_eq_true] at hblocked
    by_cases hcut : (t.changes.any fun c => t.changeFails c.path)
    · rw [commit_of_cut hblocked hcut, commit_of_cut hblocked hcut]
      exact ⟨rfl, fun path h => writeAll_congr h⟩
    · rw [Bool.not_eq_true] at hcut
      by_cases hempty : t.changes = []
      · rw [commit_of_empty hblocked hempty, commit_of_empty hblocked hempty]
        exact ⟨rfl, fun path h => h⟩
      · rw [commit_of_made hblocked hempty hcut, commit_of_made hblocked hempty hcut]
        cases t.answer with
        | accepts => exact ⟨rfl, fun path h => writeAll_congr h⟩
        | throws => exact ⟨rfl, fun path h => writeAll_congr h⟩
        | refuses => exact ⟨rfl, fun path h => writeAll_congr (writeAll_congr h)⟩

/-- The call goes on after a plan that settles, and after no other. -/
theorem commit_stops_iff (t : Plan κ β) : (t.commit s).2.stops = false ↔ t.Settles := by
  unfold Settles
  by_cases hblocked : t.blocked
  · rw [commit_of_blocked hblocked, hblocked]
    exact iff_of_false Bool.noConfusion fun h => Bool.noConfusion h.1
  · rw [Bool.not_eq_true] at hblocked
    rw [and_iff_right hblocked]
    by_cases hempty : t.changes = []
    · rw [commit_of_empty hblocked hempty]
      exact iff_of_true rfl (.inl hempty)
    · rw [or_iff_right hempty]
      by_cases hcut : (t.changes.any fun c => t.changeFails c.path)
      · rw [commit_of_cut hblocked hcut]
        obtain ⟨c, hc, hfails⟩ := any_eq_true.mp hcut
        refine iff_of_false Bool.noConfusion fun h => ?_
        rw [h.1 c hc] at hfails
        cases hfails
      · rw [Bool.not_eq_true] at hcut
        have hmade : ∀ c ∈ t.changes, t.changeFails c.path = false := fun c hc =>
          Bool.not_eq_true _ ▸ any_eq_false.mp hcut c hc
        rw [commit_of_made hblocked hempty hcut, and_iff_right hmade]
        cases t.answer with
        | accepts => exact iff_of_true rfl rfl
        | throws => exact iff_of_false Bool.noConfusion Answer.noConfusion
        | refuses =>
          refine iff_of_false ?_ Answer.noConfusion
          dsimp only
          split <;> exact Bool.noConfusion

end Plan

/-! ## Calls -/

/-- A part of a call: it reads and changes its own files only. The watched ones are not to keep what
was refused. -/
structure Part (κ β : Type*) where
  owned : List κ
  watched : List κ
  watched_owned : watched ⊆ owned
  body : Store κ β → Store κ β × Ending
  frame : ∀ s path, path ∉ owned → (body s).1 path = s path
  locality : ∀ s s', (∀ path ∈ owned, s' path = s path) →
    (body s').2 = (body s).2 ∧ ∀ path ∈ owned, (body s').1 path = (body s).1 path

namespace Part

/-- The part that carries out a plan, made from the files it owns. -/
def ofPlan (owned : List κ) (plan : Store κ β → Plan κ β)
    (hpaths : ∀ s, (plan s).changes.map Change.path ⊆ owned)
    (hlocal : ∀ s s', (∀ path ∈ owned, s' path = s path) → plan s' = plan s) : Part κ β where
  owned := owned
  watched := owned
  watched_owned := Subset.refl owned
  body s := (plan s).commit s
  frame s path hpath := Plan.commit_frame fun hmem => hpath (hpaths s hmem)
  locality s s' h := by
    rw [hlocal s s' h]
    obtain ⟨hending, hbody⟩ := (plan s).commit_congr s s'
    exact ⟨hending, fun path hpath => hbody path (h path hpath)⟩

omit [DecidableEq κ]

/-- The watched files are as before unless the part settles. -/
def KeepsOwn (part : Part κ β) (s : Store κ β) : Prop :=
  (part.body s).2 ≠ .settled → ∀ path ∈ part.watched, (part.body s).1 path = s path

/-- The parts one after the other. The flag of a part says whether the call gets to it. -/
def call : List (Bool × Part κ β) → Store κ β → Store κ β × List (Part κ β × Ending)
  | [], s => (s, [])
  | (reaches, part) :: parts, s =>
    if reaches then
      let (s', ending) := part.body s
      if ending.stops then (s', [(part, ending)])
      else
        let (s'', endings) := call parts s'
        (s'', (part, ending) :: endings)
    else (s, [])

/-- After the call the watched files of every part that did not settle are as before it. -/
def KeepsRefused (parts : List (Bool × Part κ β)) (s : Store κ β) : Prop :=
  ∀ e ∈ (call parts s).2, e.2 ≠ .settled → ∀ path ∈ e.1.watched, (call parts s).1 path = s path

/-- Every part that the call gets to keeps its own, from what was there before the call. -/
def AllKeep : List (Bool × Part κ β) → Store κ β → Prop
  | [], _ => True
  | (reaches, part) :: parts, s =>
    reaches = true → part.KeepsOwn s ∧ ((part.body s).2.stops = false → AllKeep parts s)

/-- No two parts have a file in common. -/
def Separate (parts : List (Bool × Part κ β)) : Prop :=
  parts.Pairwise fun q r => List.Disjoint q.2.owned r.2.owned

theorem keepsOwn_ofPlan [DecidableEq κ] {owned : List κ} {plan : Store κ β → Plan κ β}
    {hpaths : ∀ s, (plan s).changes.map Change.path ⊆ owned}
    {hlocal : ∀ s s', (∀ path ∈ owned, s' path = s path) → plan s' = plan s} {s : Store κ β} :
    (ofPlan owned plan hpaths hlocal).KeepsOwn s ↔ (plan s).Safe s := by
  rw [← Plan.takesBack_iff]
  refine imp_congr_right fun _ => ⟨fun h c hc => ?_, fun h path hpath => ?_⟩
  · exact h c.path (hpaths s (mem_map_of_mem hc))
  · by_cases hmem : path ∈ (plan s).changes.map Change.path
    · obtain ⟨c, hc, rfl⟩ := mem_map.mp hmem
      exact h c hc
    · exact Plan.commit_frame hmem

theorem keepsOwn_congr {part : Part κ β} {s s' : Store κ β}
    (h : ∀ path ∈ part.owned, s' path = s path) : part.KeepsOwn s' ↔ part.KeepsOwn s := by
  obtain ⟨hending, hbody⟩ := part.locality s s' h
  unfold KeepsOwn
  rw [hending]
  refine imp_congr_right fun _ => forall₂_congr fun path hpath => ?_
  rw [hbody path (part.watched_owned hpath), h path (part.watched_owned hpath)]

variable {parts : List (Bool × Part κ β)}

theorem allKeep_congr {s s' : Store κ β}
    (h : ∀ q ∈ parts, ∀ path ∈ q.2.owned, s' path = s path) : AllKeep parts s' ↔ AllKeep parts s := by
  induction parts with
  | nil => exact Iff.rfl
  | cons q parts ih =>
    obtain ⟨reaches, part⟩ := q
    have hown := h _ mem_cons_self
    rw [AllKeep, AllKeep, keepsOwn_congr hown, (part.locality s s' hown).1, ih fun q hq => h q (mem_cons_of_mem _ hq)]

theorem call_of_stops {part : Part κ β} {s : Store κ β} (h : (part.body s).2.stops) :
    call ((true, part) :: parts) s = ((part.body s).1, [(part, (part.body s).2)]) := by
  simp only [call, if_true, h]

theorem call_of_goesOn {part : Part κ β} {s : Store κ β} (h : (part.body s).2.stops = false) :
    call ((true, part) :: parts) s = ((call parts (part.body s).1).1,
        (part, (part.body s).2) :: (call parts (part.body s).1).2) := by
  simp only [call, if_true, h, Bool.false_eq_true, if_false]

theorem call_frame {path : κ}
    (h : ∀ q ∈ parts, path ∉ q.2.owned) (s : Store κ β) : (call parts s).1 path = s path := by
  induction parts generalizing s with
  | nil => rfl
  | cons q parts ih =>
    obtain ⟨reaches, part⟩ := q
    have hbody := part.frame s path (h _ mem_cons_self)
    cases reaches with
    | false => rfl
    | true =>
      cases hstops : (part.body s).2.stops with
      | true =>
        rw [call_of_stops hstops]
        exact hbody
      | false =>
        rw [call_of_goesOn hstops]
        exact (ih (fun q hq => h q (mem_cons_of_mem _ hq)) _).trans hbody

theorem exists_of_mem_call {s : Store κ β} {e : Part κ β × Ending}
    (he : e ∈ (call parts s).2) : ∃ q ∈ parts, q.2 = e.1 := by
  induction parts generalizing s with
  | nil => exact absurd he not_mem_nil
  | cons q parts ih =>
    obtain ⟨reaches, part⟩ := q
    cases reaches with
    | false => exact absurd he not_mem_nil
    | true =>
      cases hstops : (part.body s).2.stops with
      | true =>
        rw [call_of_stops hstops, mem_singleton] at he
        exact ⟨_, mem_cons_self, by rw [he]⟩
      | false =>
        rw [call_of_goesOn hstops, mem_cons] at he
        rcases he with rfl | he
        · exact ⟨_, mem_cons_self, rfl⟩
        · obtain ⟨q, hq, heq⟩ := ih he
          exact ⟨q, mem_cons_of_mem _ hq, heq⟩

/-- A call keeps nothing of what is refused exactly when each part that it gets to does so. -/
theorem keepsRefused_iff (hseparate : Separate parts) (s : Store κ β) : KeepsRefused parts s ↔ AllKeep parts s := by
  induction parts generalizing s with
  | nil => exact iff_of_true (fun e he => absurd he not_mem_nil) trivial
  | cons q parts ih =>
    obtain ⟨reaches, part⟩ := q
    obtain ⟨hdisjoint, htail⟩ := pairwise_cons.mp hseparate
    rw [AllKeep]
    cases reaches with
    | false =>
      exact iff_of_true (fun e he => absurd he not_mem_nil) Bool.noConfusion
    | true =>
      rw [imp_iff_right rfl, KeepsRefused]
      cases hstops : (part.body s).2.stops with
      | true =>
        rw [call_of_stops hstops, forall_mem_singleton, and_iff_left Bool.noConfusion]
        exact Iff.rfl
      | false =>
        -- the later parts leave the files of this one, and it leaves theirs
        have hlater : ∀ path ∈ part.watched,
            (call parts (part.body s).1).1 path = (part.body s).1 path := fun path hpath =>
          call_frame (fun q hq hmem => hdisjoint q hq (part.watched_owned hpath) hmem) _
        have hearlier : ∀ q ∈ parts, ∀ path ∈ q.2.owned, (part.body s).1 path = s path :=
          fun q hq path hpath => part.frame s path fun hmem => hdisjoint q hq hmem hpath
        rw [call_of_goesOn hstops, forall_mem_cons, imp_iff_right rfl, ← allKeep_congr hearlier, ← ih htail]
        refine and_congr ?_ (forall₂_congr fun e he => ?_)
        · exact imp_congr_right fun _ => forall₂_congr fun path hpath => by rw [hlater path hpath]
        · obtain ⟨q, hq, heq⟩ := exists_of_mem_call he
          refine imp_congr_right fun _ => forall₂_congr fun path hpath => ?_
          rw [hearlier q hq path (heq ▸ e.1.watched_owned hpath)]

end Part

end Transactions
