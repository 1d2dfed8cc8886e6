-- SUMMARY: Batches whose items are handled in order within a batch, but concurrently across batches.
import Tracenium.Lib.Machine

/-!
Every batch that arrives is handled by a handler of its own, which takes the first item at once and the others one at a
time, whenever it is resumed.
-/

open List

namespace Batches

open Machine

variable {α : Type*}

/-- What every suspended handler has left, in order of arrival, and the items taken so far. -/
structure State (α : Type*) where
  waiting : List (List α)
  taken : List α

inductive Event (α : Type*)
  | arrive (batch : List α)
  | resume (k : Nat)

def step (s : State α) : Event α → State α
  | .arrive [] => s
  | .arrive (x :: xs) => ⟨s.waiting ++ [xs], s.taken ++ [x]⟩
  | .resume k =>
    match s.waiting[k]? with
    | none => s
    | some [] => { s with waiting := s.waiting.eraseIdx k }
    | some (x :: xs) => ⟨s.waiting.set k xs, s.taken ++ [x]⟩

def machine (α : Type*) : Machine (State α) (Event α) where
  init := ⟨[], []⟩
  step := step

/-- The batches of a run, in order. -/
def arrivals : List (Event α) → List (List α)
  | [] => []
  | .arrive b :: tr => b :: arrivals tr
  | .resume _ :: tr => arrivals tr

/-- The run handles the batches `bs`, to the end. -/
def Completes (bs : List (List α)) (tr : List (Event α)) : Prop :=
  arrivals tr = bs ∧ ((machine α).run tr).waiting = []

/-- No item of an earlier batch that may be overtaken differs from an item of a later one. -/
def InOrder (bs : List (List α)) : Prop :=
  bs.Pairwise fun b b' => ∀ x ∈ b.tail, ∀ y ∈ b', x = y

@[simp] theorem arrivals_append (a b : List (Event α)) : arrivals (a ++ b) = arrivals a ++ arrivals b := by
  induction a with
  | nil => rfl
  | cons e a ih => cases e <;> simp [arrivals, ih]

/-! ## In order on every schedule -/

/-- What is taken, what the handlers have left and what is to come make up the whole, and no two
items that may still be taken in either order differ. -/
structure Ordered (all : List α) (future : List (List α)) (s : State α) : Prop where
  whole : s.taken ++ s.waiting.flatten ++ future.flatten = all
  waiting : s.waiting.Pairwise fun b b' => ∀ x ∈ b, ∀ y ∈ b', x = y
  arriving : ∀ x ∈ s.waiting.flatten, ∀ y ∈ future.flatten, x = y
  future : InOrder future

/-- An item may be taken before others that are all equal to it. -/
theorem append_singleton_comm {x : α} {xs : List α} (h : ∀ y ∈ xs, y = x) : xs ++ [x] = [x] ++ xs := by
  rw [eq_replicate_of_mem h, ← replicate_succ', singleton_append, ← replicate_succ]

theorem Ordered.arrive {all : List α} {b : List α} {future : List (List α)} {s : State α}
    (h : Ordered all (b :: future) s) : Ordered all future (step s (.arrive b)) := by
  obtain ⟨hb, hfuture⟩ := pairwise_cons.mp h.future
  cases b with
  | nil =>
    refine ⟨by simpa [step] using h.whole, h.waiting, ?_, hfuture⟩
    rw [step]
    simpa using h.arriving
  | cons x xs =>
    have hx : ∀ y ∈ s.waiting.flatten, y = x := fun y hy => h.arriving y hy x (by simp)
    refine ⟨?_, ?_, ?_, hfuture⟩
    · rw [← h.whole, step, flatten_append, flatten_cons]
      have hcomm := append_singleton_comm hx
      calc s.taken ++ [x] ++ (s.waiting.flatten ++ [xs].flatten) ++ future.flatten
          = s.taken ++ ([x] ++ s.waiting.flatten) ++ xs ++ future.flatten := by simp
        _ = s.taken ++ (s.waiting.flatten ++ [x]) ++ xs ++ future.flatten := by rw [hcomm]
        _ = s.taken ++ s.waiting.flatten ++ (x :: xs ++ future.flatten) := by simp
    · refine pairwise_append.mpr ⟨h.waiting, pairwise_singleton _ _, ?_⟩
      intro b' hb' b'' hb'' y hy z hz
      rw [mem_singleton.mp hb''] at hz
      exact h.arriving y (mem_flatten_of_mem hb' hy) z (by simp [hz])
    · intro y hy z hz
      rw [step, flatten_append, mem_append] at hy
      rcases hy with hy | hy
      · exact h.arriving y hy z (by simp only [flatten_cons, mem_append, hz, or_true])
      · obtain ⟨b', hb', hz⟩ := mem_flatten.mp hz
        exact hb b' hb' y (by simpa using hy) z hz

theorem exists_of_getElem? {l : List α} {k : Nat} {x : α} (h : l[k]? = some x) :
    ∃ a b, l = a ++ x :: b ∧ l.eraseIdx k = a ++ b ∧ ∀ y, l.set k y = a ++ y :: b := by
  obtain ⟨hk, rfl⟩ := List.getElem?_eq_some_iff.mp h
  refine ⟨l.take k, l.drop (k + 1), ?_, eraseIdx_eq_take_drop_succ l k, fun y => ?_⟩
  · rw [getElem_cons_drop, take_append_drop]
  · rw [set_eq_take_append_cons_drop, if_pos hk]

theorem Ordered.resume {all : List α} {future : List (List α)} {s : State α}
    (h : Ordered all future s) (k : Nat) : Ordered all future (step s (.resume k)) := by
  rw [step]
  split
  · exact h
  · rename_i hk
    obtain ⟨a, b, hwaiting, herase, -⟩ := exists_of_getElem? hk
    have hflat : (s.waiting.eraseIdx k).flatten = s.waiting.flatten := by
      rw [herase, hwaiting]
      simp
    exact ⟨by rw [hflat, h.whole], h.waiting.sublist (eraseIdx_sublist _ _),
      by rw [hflat]; exact h.arriving, h.future⟩
  · rename_i x xs hk
    obtain ⟨a, b, hwaiting, -, hset⟩ := exists_of_getElem? hk
    have hpair := h.waiting
    rw [hwaiting] at hpair
    obtain ⟨ha, hxb, hab⟩ := pairwise_append.mp hpair
    obtain ⟨hx, hb⟩ := pairwise_cons.mp hxb
    refine ⟨?_, ?_, ?_, h.future⟩
    · -- what the earlier handlers have left is equal to the item taken
      have heq : ∀ y ∈ a.flatten, y = x := by
        intro y hy
        obtain ⟨c, hc, hy⟩ := mem_flatten.mp hy
        exact hab c hc (x :: xs) (by simp) y hy x (by simp)
      have hcomm := append_singleton_comm heq
      rw [← h.whole, hset, hwaiting]
      calc s.taken ++ [x] ++ (a ++ xs :: b).flatten ++ future.flatten
          = s.taken ++ ([x] ++ a.flatten) ++ xs ++ b.flatten ++ future.flatten := by simp
        _ = s.taken ++ (a.flatten ++ [x]) ++ xs ++ b.flatten ++ future.flatten := by rw [hcomm]
        _ = s.taken ++ (a ++ (x :: xs) :: b).flatten ++ future.flatten := by simp
    · rw [hset]
      refine pairwise_append.mpr ⟨ha, pairwise_cons.mpr ⟨fun c hc y hy => ?_, hb⟩, ?_⟩
      · exact hx c hc y (mem_cons_of_mem _ hy)
      · intro c hc d hd y hy z hz
        rcases mem_cons.mp hd with rfl | hd
        · exact hab c hc (x :: d) (by simp) y hy z (mem_cons_of_mem _ hz)
        · exact hab c hc d (by simp [hd]) y hy z hz
    · intro y hy z hz
      refine h.arriving y ?_ z hz
      rw [hset] at hy
      rw [hwaiting]
      simp only [flatten_append, mem_append] at hy ⊢
      tauto

/-- From an ordered state, the run takes everything in order. -/
theorem Ordered.exec {all : List α} {s : State α} {tr : List (Event α)}
    (h : Ordered all (arrivals tr) s) : Ordered all [] ((machine α).exec s tr) := by
  induction tr generalizing s with
  | nil => exact h
  | cons e tr ih =>
    cases e with
    | arrive b => exact ih h.arrive
    | resume k => exact ih (h.resume k)

theorem taken_of_inOrder {bs : List (List α)} (hbs : InOrder bs) {tr : List (Event α)}
    (htr : Completes bs tr) : ((machine α).run tr).taken = bs.flatten := by
  obtain ⟨rfl, hdone⟩ := htr
  have hstart : Ordered (arrivals tr).flatten (arrivals tr) (machine α).init :=
    ⟨by simp [machine], by simp [machine], by simp [machine], hbs⟩
  have hwhole := hstart.exec.whole
  rw [← run, hdone] at hwhole
  simpa using hwhole

/-! ## Schedules -/

/-- The batch arrives and its handler, the last of `n + 1`, is resumed until it is done. -/
def drain (n : Nat) : List α → List (Event α)
  | [] => [.arrive []]
  | x :: xs => .arrive (x :: xs) :: replicate (xs.length + 1) (.resume n)

theorem arrivals_replicate_resume (m n : Nat) : arrivals (replicate m (Event.resume n : Event α)) = [] := by
  induction m with
  | zero => rfl
  | succ m ih => rw [replicate_succ, arrivals, ih]

theorem arrivals_drain (n : Nat) (b : List α) : arrivals (drain n b) = [b] := by
  cases b with
  | nil => rfl
  | cons x xs => rw [drain, arrivals, arrivals_replicate_resume]

/-- A handler that is resumed as often as it has items takes them and is done. -/
theorem exec_replicate_resume (w : List (List α)) (xs taken : List α) :
    (machine α).exec ⟨w ++ [xs], taken⟩ (replicate (xs.length + 1) (.resume w.length)) = ⟨w, taken ++ xs⟩ := by
  induction xs generalizing taken with
  | nil => simp [machine, step, eraseIdx_append_of_length_le]
  | cons x xs ih =>
    rw [length_cons, replicate_succ, exec_cons]
    have hstep : (machine α).step ⟨w ++ [x :: xs], taken⟩ (.resume w.length) =
        ⟨w ++ [xs], taken ++ [x]⟩ := by
      simp [machine, step]
    rw [hstep, ih]
    simp

/-- A batch that is drained is taken at once, whatever the other handlers have left. -/
theorem exec_drain (w : List (List α)) (b taken : List α) :
    (machine α).exec ⟨w, taken⟩ (drain w.length b) = ⟨w, taken ++ b⟩ := by
  cases b with
  | nil => simp [drain, machine, step]
  | cons x xs =>
    rw [drain, exec_cons]
    have hstep : (machine α).step ⟨w, taken⟩ (.arrive (x :: xs)) = ⟨w ++ [xs], taken ++ [x]⟩ := rfl
    rw [hstep, exec_replicate_resume]
    simp

def drainAll (n : Nat) (bs : List (List α)) : List (Event α) := bs.flatMap (drain n)

theorem arrivals_drainAll (n : Nat) (bs : List (List α)) : arrivals (drainAll n bs) = bs := by
  induction bs with
  | nil => rfl
  | cons b bs ih =>
    rw [drainAll, flatMap_cons, arrivals_append, arrivals_drain]
    exact congrArg (b :: ·) ih

theorem exec_drainAll (w : List (List α)) (bs : List (List α)) (taken : List α) :
    (machine α).exec ⟨w, taken⟩ (drainAll w.length bs) = ⟨w, taken ++ bs.flatten⟩ := by
  induction bs generalizing taken with
  | nil => simp [drainAll]
  | cons b bs ih =>
    rw [drainAll, flatMap_cons, exec_append, exec_drain]
    rw [← drainAll, ih]
    simp

/-- A handler that is resumed `k` times takes `k` items. -/
theorem exec_resume_first {k : Nat} {xs : List α} (hk : k ≤ xs.length) (taken : List α) :
    (machine α).exec ⟨[xs], taken⟩ (replicate k (.resume 0)) = ⟨[xs.drop k], taken ++ xs.take k⟩ := by
  induction k generalizing xs taken with
  | zero => simp
  | succ k ih =>
    cases xs with
    | nil => simp at hk
    | cons x xs =>
      rw [replicate_succ, exec_cons]
      have hstep : (machine α).step ⟨[x :: xs], taken⟩ (.resume 0) = ⟨[xs], taken ++ [x]⟩ := rfl
      rw [hstep, ih (by simpa using hk)]
      simp

/-- The batches `pre`, then a batch whose handler stops after `k + 1` items until all of `post`
has been taken. -/
def overtaken (pre : List (List α)) (x : α) (xs : List α) (k : Nat) (post : List (List α)) :
    List (Event α) :=
  drainAll 0 pre ++ (.arrive (x :: xs) :: replicate k (.resume 0)) ++ drainAll 1 post ++
    replicate ((xs.drop k).length + 1) (.resume 0)

theorem arrivals_overtaken (pre : List (List α)) (x : α) (xs : List α) (k : Nat)
    (post : List (List α)) : arrivals (overtaken pre x xs k post) = pre ++ (x :: xs) :: post := by
  simp [overtaken, arrivals_drainAll, arrivals, arrivals_replicate_resume]

theorem run_overtaken (pre : List (List α)) (x : α) {xs : List α} {k : Nat} (hk : k ≤ xs.length)
    (post : List (List α)) : (machine α).run (overtaken pre x xs k post) =
      ⟨[], pre.flatten ++ x :: xs.take k ++ post.flatten ++ xs.drop k⟩ := by
  have hpre : (machine α).run (drainAll 0 pre) = ⟨[], pre.flatten⟩ := exec_drainAll [] pre []
  have harrive : (machine α).step ⟨[], pre.flatten⟩ (.arrive (x :: xs)) = ⟨[xs], pre.flatten ++ [x]⟩ := rfl
  have hpost := exec_drainAll [xs.drop k] post (pre.flatten ++ [x] ++ xs.take k)
  have hlast := exec_replicate_resume [] (xs.drop k)
    (pre.flatten ++ [x] ++ xs.take k ++ post.flatten)
  rw [overtaken, run_append, run_append, run_append, hpre, exec_cons, harrive, exec_resume_first hk]
  simp only [length_singleton, length_nil, nil_append] at hpost hlast
  rw [hpost, hlast]
  simp

theorem eq_of_append_singleton_comm {x : α} {ys : List α} (h : ys ++ [x] = x :: ys) : ∀ y ∈ ys, x = y := by
  induction ys with
  | nil => simp
  | cons y ys ih =>
    obtain ⟨rfl, htail⟩ := cons.inj h
    exact forall_mem_cons.mpr ⟨rfl, ih htail⟩

/-- When a list commutes with every end of another, all their items are equal. -/
theorem eq_of_append_drop_comm {xs ys : List α} (h : ∀ k, k ≤ xs.length → ys ++ xs.drop k = xs.drop k ++ ys) :
    ∀ x ∈ xs, ∀ y ∈ ys, x = y := by
  induction xs with
  | nil => simp
  | cons x xs ih =>
    have hrest := ih fun k hk => h (k + 1) (by simpa using hk)
    refine forall_mem_cons.mpr ⟨?_, hrest⟩
    cases xs with
    | nil => exact eq_of_append_singleton_comm (h 0 (by simp))
    | cons x' xs =>
      intro y hy
      cases ys with
      | nil => cases hy
      | cons y' ys =>
        -- the two sides start with the same item
        have hhead := cons.inj (h 0 (by simp))
        have hy' : x' = y' := hrest x' (by simp) y' (by simp)
        have hx' : x' = y := hrest x' (by simp) y hy
        rw [← hhead.1, ← hy', hx']

theorem inOrder_of_taken (pre : List (List α)) {bs : List (List α)}
    (h : ∀ tr, Completes (pre ++ bs) tr → ((machine α).run tr).taken = (pre ++ bs).flatten) : InOrder bs := by
  induction bs generalizing pre with
  | nil => exact .nil
  | cons b bs ih =>
    refine pairwise_cons.mpr ⟨?_, ih (pre ++ [b]) (by simpa using h)⟩
    cases b with
    | nil => simp
    | cons x xs =>
      have hcomm : ∀ k, k ≤ xs.length →
          bs.flatten ++ xs.drop k = xs.drop k ++ bs.flatten := by
        intro k hk
        have hrun := run_overtaken pre x hk bs
        have htaken := h (overtaken pre x xs k bs)
          ⟨arrivals_overtaken pre x xs k bs, by rw [hrun]⟩
        rw [hrun] at htaken
        have hsplit : (pre ++ (x :: xs) :: bs).flatten =
            pre.flatten ++ x :: xs.take k ++ (xs.drop k ++ bs.flatten) := by
          simp only [flatten_append, flatten_cons, cons_append, append_assoc]
          rw [← append_assoc (xs.take k), take_append_drop]
        rw [hsplit, append_assoc] at htaken
        exact append_cancel_left htaken
      intro b' hb' y hy z hz
      exact eq_of_append_drop_comm hcomm y hy z (mem_flatten_of_mem hb' hz)

/-- The items are taken in order on every schedule exactly if nothing that may be overtaken
differs from what may overtake it. -/
theorem taken_iff_inOrder {bs : List (List α)} :
    (∀ tr, Completes bs tr → ((machine α).run tr).taken = bs.flatten) ↔ InOrder bs :=
  ⟨fun h => inOrder_of_taken [] h, fun h _ htr => taken_of_inOrder h htr⟩

end Batches
