-- SUMMARY: The discipline of the Windows lane, and the one way in which it is broken.
import Tracenium.Ipc.LaneMoves

/-!
When a lane is closed while something is in flight, the rejection of that call pumps the queue onto the open socket.
-/

open Utf16 List Prod

namespace Ipc.Windows

/-! ## Statement -/

def Outstanding (s : Lane) (n : Nat) : Prop :=
  n ∈ s.sent.map fst ∧ s.isSettled n = false

def Dropped (calls : List Nat) (s : Lane) : Prop :=
  ∀ n ∈ calls, (∃ error, (n, .rejected error) ∈ s.outcomes) ∧ n ∉ s.sent.map fst

/-- The serial discipline: at most one request outstanding, requests written in the order of their
calls, every promise settled at most once and in the end by the timers, and the calls that were
queued when the lane was torn down rejected without having been written. -/
structure Disciplined (c : Config) (s : Lane) : Prop where
  single : ∀ n m, Outstanding s n → Outstanding s m → n = m
  fifo : (s.sent.map fst).Pairwise (· < ·)
  once : (s.outcomes.map fst).Nodup
  settles : ∀ n < s.requests.length, s.isSettled n = false → ∃ fired : List (Nat × Nat),
    ((machine c).exec s (fired.map fun t => .timer t.1 t.2)).isSettled n = true
  dropped : Dropped s.torn s

/-- A lane is closed when no request in its queue can be written. -/
def ClosesQuietly (s : Lane) : Event → Prop
  | .close => ∀ n ∈ s.queue, s.serializable n = true → s.writable s.socket = none
  | _ => True

/-! ## One request at a time, each settled once -/

variable {s : Lane}

theorem Sound.single (h : Sound s) {n m : Nat} (hn : Outstanding s n) (hm : Outstanding s m) : n = m := by
  have hbusy (k : Nat) (hk : Outstanding s k) : Busy s k := by
    obtain ⟨⟨k, j⟩, hmem, rfl⟩ := mem_map.mp hk.1
    exact (h.rest k (h.sent k j hmem).1 hk.2).resolve_left fun hqueue => h.not_sent hqueue hk.1
  exact (hbusy n hn).unique (hbusy m hm)

variable {s t : Lane}

theorem isSettled_mono (h : s.outcomes ⊆ t.outcomes) {n : Nat}
    (hn : s.isSettled n) : t.isSettled n := by
  rw [World.isSettled_iff] at hn ⊢
  exact (map_subset fst h) hn

/-- When the timer of the call in flight fires, that call is settled and the lane moves up. -/
theorem Settled.step_timer (h : Settled s) (c : Config) {m : Nat} (hbusy : Busy s m) (waitedMs : Nat) :
    (step c s (.timer m waitedMs)).isSettled m ∧ (step c s (.timer m waitedMs)).requests = s.requests ∧
      (step c s (.timer m waitedMs)).pending.size + (step c s (.timer m waitedMs)).queue.length <
        s.pending.size + s.queue.length := by
  have htimer : m ∈ s.timers := by simp [hbusy.timers]
  rw [step, Lane.timer, if_pos htimer]
  obtain ⟨hmoves, -⟩ := Settled.settlePending h.toSound hbusy c.writeError
    (.rejected (s.timeoutError c.timeoutOf m waitedMs))
  have hframe := hmoves.frame
  refine ⟨isSettled_mono hframe.outcomes (World.isSettled_settle.mpr (.inr rfl)),
    hframe.requests, Nat.lt_of_le_of_lt hframe.size ?_⟩
  have hsize : s.pending.size = 1 := by rw [OrderedMap.size, hbusy.pending, length_singleton]
  rw [hsize]
  show 0 + s.queue.length < 1 + s.queue.length
  omega

/-- A call that is not settled is settled in the end by the timers of those before it and its
own. -/
theorem Settled.settles (h : Settled s) (c : Config) {n : Nat}
    (hn : n < s.requests.length) (hopen : s.isSettled n = false) : ∃ fired : List (Nat × Nat),
      ((machine c).exec s (fired.map fun t => .timer t.1 t.2)).isSettled n := by
  generalize hsize : s.pending.size + s.queue.length = size
  induction size using Nat.strong_induction_on generalizing s with
  | _ size ih =>
    have hbusy : ∃ m, Busy s m := by
      rcases h.lane with hfree | hbusy
      · rcases h.rest n hn hopen with hqueue | hbusy
        · rw [h.waiting hfree] at hqueue
          cases hqueue
        · exact ⟨n, hbusy⟩
      · exact hbusy
    obtain ⟨m, hbusy⟩ := hbusy
    obtain ⟨-, hrequests, hlt⟩ := h.step_timer c hbusy 0
    cases hn' : (step c s (.timer m 0)).isSettled n with
    | true => exact ⟨[(m, 0)], hn'⟩
    | false =>
      obtain ⟨fired, hfired⟩ := ih _ (hsize ▸ hlt) (h.event c (.timer m 0))
        (hrequests.symm ▸ hn) hn' rfl
      exact ⟨(m, 0) :: fired, hfired⟩

/-! ## What was queued is not written -/

/-- What is written from now on was not settled before. -/
theorem Sound.sent_of_settled {p : Prop} (h : Sound s) (hmoves : Moves p s t)
    {n : Nat} (hn : s.isSettled n) (hsent : n ∈ t.sent.map fst) : n ∈ s.sent.map fst := by
  have hkeep : Sound t ∧ t.isSettled n ∧
      (n ∈ t.sent.map fst → n ∈ s.sent.map fst) := by
    refine hmoves.keep (P := fun t => Sound t ∧ t.isSettled n ∧
      (n ∈ t.sent.map fst → n ∈ s.sent.map fst)) ?_ ⟨h, hn, id⟩
    rintro t u ⟨hsound, hsettled, hold⟩ hmove
    refine ⟨hsound.move hmove, isSettled_mono hmove.frame.outcomes hsettled, ?_⟩
    cases hmove with
    | drop hqueue error => exact hold
    | write hmay hqueue hfree hk =>
      rename_i m k queue
      intro hsent
      rcases mem_map.mp hsent with ⟨e, he, rfl⟩
      rcases mem_append.mp he with he | he
      · exact hold (mem_map_of_mem he)
      · rw [mem_singleton.mp he] at hsettled
        rw [(hsound.queue m (hqueue ▸ mem_cons_self)).2] at hsettled
        cases hsettled
    | leave hpending error => exact hold
  exact hkeep.2.2 hsent

theorem Dropped.moves {calls : List Nat} {p : Prop} (hd : Dropped calls s)
    (h : Sound s) (hmoves : Moves p s t) : Dropped calls t := by
  intro n hn
  obtain ⟨⟨error, herror⟩, hsent⟩ := hd n hn
  have hsettled : s.isSettled n := World.isSettled_iff.mpr (mem_map.mpr ⟨_, herror, rfl⟩)
  exact ⟨⟨error, hmoves.frame.outcomes herror⟩,
    fun hnew => hsent (h.sent_of_settled hmoves hsettled hnew)⟩

theorem Dropped.congr {calls : List Nat} (hd : Dropped calls s)
    (houtcomes : s.outcomes ⊆ t.outcomes) (hsent : t.sent = s.sent) : Dropped calls t := by
  intro n hn
  obtain ⟨⟨error, herror⟩, hnot⟩ := hd n hn
  exact ⟨⟨error, houtcomes herror⟩, hsent.symm ▸ hnot⟩

theorem dropped_of_moves {p : Prop} (h : Sound s) (hd : Dropped s.torn s)
    (hmoves : Moves p s t) : Dropped t.torn t := by
  rw [hmoves.frame.torn]
  exact hd.moves h hmoves

theorem dropped_settlePending (h : Sound s) (hd : Dropped s.torn s) {n : Nat}
    (hbusy : Busy s n) (writeError : Str) (o : Outcome) : Dropped (s.settlePending writeError (s.idOf n) n o).torn
      (s.settlePending writeError (s.idOf n) n o) := by
  have hleave : Dropped (s.leave n o).torn (s.leave n o) := hd.congr (subset_append_left _ _) rfl
  exact dropped_of_moves (h.leave hbusy o) hleave
    (Settled.settlePending h hbusy writeError o).1

/-- Moves that write nothing reject the calls they take from the queue. -/
theorem dropped_of_quiet (h : Sound s) (hmoves : Moves False s t) (hqueue : t.queue = []) : Dropped s.queue t := by
  have hkeep : t.sent = s.sent ∧
      ∀ n ∈ s.queue, n ∈ t.queue ∨ ∃ error, (n, .rejected error) ∈ t.outcomes := by
    refine hmoves.keep (P := fun t => t.sent = s.sent ∧
      ∀ n ∈ s.queue, n ∈ t.queue ∨ ∃ error, (n, .rejected error) ∈ t.outcomes) ?_
      ⟨rfl, fun n hn => .inl hn⟩
    rintro t u ⟨hsent, hall⟩ hmove
    have houtcomes := hmove.frame.outcomes
    cases hmove with
    | drop hqueue error =>
      rename_i m queue
      refine ⟨hsent, fun n hn => ?_⟩
      rcases hall n hn with hn | ⟨e, he⟩
      · rw [hqueue] at hn
        rcases mem_cons.mp hn with rfl | hn
        · exact .inr ⟨error, mem_append_right _ (mem_singleton_self _)⟩
        · exact .inl hn
      · exact .inr ⟨e, houtcomes he⟩
    | write hmay _ _ _ => exact hmay.elim
    | leave hpending error =>
      exact ⟨hsent, fun n hn => (hall n hn).imp_right fun ⟨e, he⟩ => ⟨e, houtcomes he⟩⟩
  intro n hn
  refine ⟨(hkeep.2 n hn).resolve_left (by simp [hqueue]), ?_⟩
  rw [hkeep.1]
  exact h.not_sent hn

structure Orderly (s : Lane) : Prop extends Settled s where
  dropped : Dropped s.torn s

theorem Orderly.event (h : Orderly s) (c : Config) {e : Event} (he : ClosesQuietly s e) : Orderly (step c s e) := by
  refine ⟨h.toSettled.event c e, ?_⟩
  have htear (htears : e.tears) : Dropped (step c s e).torn (step c s e) := by
    obtain ⟨s₀, t₀, hlost, hmoves, -, hqueue, hlost', htorn⟩ :=
      h.toSettled.tear c htears (p := False) fun hclose n hn hserializable hwritable => by
        rw [hclose] at he
        exact hwritable (he n hn hserializable)
    have hsound := hlost.sound h.toSound
    have houtcomes : t₀.outcomes ⊆ (step c s e).outcomes := by
      rw [hlost'.outcomes]
      exact Subset.refl _
    have hold : Dropped s.torn t₀ :=
      (h.dropped.congr (by rw [hlost.outcomes]; exact Subset.refl _) hlost.sent).moves hsound
        hmoves
    have hnew : Dropped s.queue t₀ := hlost.queue ▸ dropped_of_quiet hsound hmoves hqueue
    rw [htorn]
    intro n hn
    rcases mem_append.mp hn with hn | hn
    · exact hold.congr houtcomes hlost'.sent n hn
    · exact hnew.congr houtcomes hlost'.sent n hn
  cases e with
  | connect => exact h.dropped
  | call req randomUUID =>
    rw [step, Lane.call]
    split
    · exact h.dropped.congr (subset_append_left _ _) rfl
    · obtain ⟨hmoves, -⟩ := h.toSettled.enqueue
        { req with id := if req.id = [] then randomUUID else req.id } c.writeError
      exact dropped_of_moves (h.toSound.enqueue _).1 h.dropped hmoves
  | refuse req error => exact h.dropped.congr (subset_append_left _ _) rfl
  | response n =>
    rw [step, Lane.response]
    split
    · rename_i hexpects
      obtain ⟨hsound, -⟩ := h.toSound.answer hexpects
      dsimp only
      split
      · rename_i m hm
        have hpending := OrderedMap.get_eq_some_iff.mp hm
        have hbusy := hsound.busy hpending
        rw [hbusy.pending] at hpending
        rw [(mk.inj (mem_singleton.mp hpending)).1]
        exact dropped_settlePending hsound h.dropped hbusy _ _
      · exact h.dropped
    · exact h.dropped
  | timer n waitedMs =>
    rw [step, Lane.timer]
    split
    · rename_i hn
      exact dropped_settlePending h.toSound h.dropped (h.busy_of_timer hn) _ _
    · exact h.dropped
  | ended k =>
    rw [step, World.endSocket]
    split
    · exact h.dropped
    · exact h.dropped
  | error k errMessage => exact htear rfl
  | closed k => exact htear rfl
  | close => exact htear rfl

theorem Orderly.disciplined (h : Orderly s) (c : Config) : Disciplined c s where
  single := fun _ _ hn hm => h.toSound.single hn hm
  fifo := (pairwise_append.mp h.order).1
  once := h.once
  settles := fun _ hn hopen => h.toSettled.settles c hn hopen
  dropped := h.dropped

/-! ## Closing a lane -/

/-- On a socket that takes writes, pumping writes one of the calls that can be written. -/
theorem Sound.pumpQueue_writes (writeError : Str) {queue : List Nat}
    (h : Sound { s with queue := queue }) (hfree : Free s)
    (hwritable : s.writable s.socket ≠ none) (hany : ∃ n ∈ queue, s.serializable n) :
    ∃ n ∈ queue, n ∈ (s.pumpQueue writeError queue).sent.map fst := by
  induction queue generalizing s with
  | nil =>
    obtain ⟨n, hn, -⟩ := hany
    cases hn
  | cons n queue ih =>
    have hopen : s.isSettled n = false := (h.queue n mem_cons_self).2
    rcases pumpQueue_cons hfree hopen writeError queue with
      ⟨error, queue', hnot, heq⟩ | ⟨k, -, -, heq⟩
    · obtain ⟨m, hm, hserializable⟩ := hany
      have hmqueue : m ∈ queue := by
        refine (mem_cons.mp hm).resolve_left ?_
        rintro rfl
        exact hwritable (hnot hserializable)
      obtain ⟨m', hm', hsent⟩ := ih
        (s := { s with toWorld := s.settle n (.rejected error), queue := queue' })
        (h.drop rfl error) ⟨hfree.inFlight, hfree.pending, hfree.timers⟩ hwritable
        ⟨m, hmqueue, hserializable⟩
      rw [heq]
      exact ⟨m', mem_cons_of_mem _ hm', hsent⟩
    · rw [heq]
      refine ⟨n, mem_cons_self, mem_map.mpr ⟨(n, k), ?_, rfl⟩⟩
      exact mem_append_right _ (mem_singleton_self _)

/-- Rejecting what is in flight lets the next call that can be written onto the socket. -/
theorem Sound.rejectAll_writes (h : Sound s) {m : Nat} (hbusy : Busy s m)
    (writeError : Str) (errors : Str → Str) (hwritable : s.writable s.socket ≠ none)
    (hany : ∃ n ∈ s.queue, s.serializable n) :
    ∃ n ∈ s.queue, n ∈ (s.rejectAll writeError errors).sent.map fst := by
  have hsize : s.pending.size = 1 := by rw [OrderedMap.size, hbusy.pending, length_singleton]
  rw [Lane.rejectAll, hsize, Nat.add_comm, Lane.rejectPending, hbusy.pending]
  dsimp only
  rw [hbusy.settlePending]
  have hleave := h.leave hbusy (.rejected (errors (s.idOf m)))
  have hfree : Free (s.leave m (.rejected (errors (s.idOf m)))) := ⟨rfl, rfl, rfl⟩
  obtain ⟨n, hn, hsent⟩ := Sound.pumpQueue_writes writeError hleave hfree hwritable hany
  obtain ⟨hpump, hidle⟩ := hleave.pump hfree writeError (p := True) fun _ _ _ _ => trivial
  have hturns := hpump.frame.size
  obtain ⟨hrest, -, -⟩ := (hleave.moves hpump).rejectPending writeError errors (p := True)
    s.queue.length hidle (hturns.trans (Nat.le_of_eq (Nat.zero_add _)))
    fun _ _ _ _ => trivial
  exact ⟨n, hn, map_subset fst hrest.frame.sent hsent⟩

/-- Closing a lane with a call in its queue that can be written writes one. -/
theorem Settled.close_writes (h : Settled s) (c : Config)
    (hwritable : s.writable s.socket ≠ none) (hany : ∃ n ∈ s.queue, s.serializable n) :
    ∃ n ∈ s.queue, n ∈ (step c s .close).sent.map fst := by
  have hclosing : Settled { s with closedByClient := true } := h.withSockets (Nat.le_refl _) s.socket true
  rcases hclosing.lane with hfree | ⟨m, hbusy⟩
  · obtain ⟨n, hn, -⟩ := hany
    have hqueue : s.queue = [] := hclosing.waiting hfree
    rw [hqueue] at hn
    cases hn
  · exact hclosing.toSound.rejectAll_writes hbusy c.writeError _ hwritable hany

theorem not_disciplined_of_close (h : Orderly s) (c : Config) {e : Event}
    (he : ¬ ClosesQuietly s e) : ¬ Disciplined c (step c s e) := by
  cases e with
  | close =>
    simp only [ClosesQuietly, Classical.not_forall] at he
    obtain ⟨n, hn, hserializable, hwritable⟩ := he
    obtain ⟨m, hm, hsent⟩ := h.toSettled.close_writes c hwritable ⟨n, hn, hserializable⟩
    intro hdisciplined
    exact (hdisciplined.dropped m (mem_append_right _ hm)).2 hsent
  | _ => exact absurd trivial he

/-- In a run of a lane, all its states are disciplined if and only if it was never closed with a
request in its queue that could be written. -/
theorem always_disciplined_iff (c : Config) (tr : List Event) :
    (machine c).Always (Disciplined c) tr ↔ (machine c).Guarded ClosesQuietly tr := by
  refine Machine.always_iff_guarded (I := Orderly) ?_ ?_ ?_ ?_ tr
  · exact ⟨settled_start c.name, nofun⟩
  · intro s e h he
    exact h.event c he
  · intro s h
    exact h.disciplined c
  · intro s e h he
    exact not_disciplined_of_close h c he

def closeBehind : List Event :=
  [.connect, .call ⟨[0x61], [], true⟩ [], .call ⟨[0x62], [], true⟩ [], .close]

/-- The call behind is written to the pipe and rejected. -/
theorem not_always_disciplined_closeBehind :
    let c : Config := ⟨[], fun _ => 8000, []⟩
    ¬ (machine c).Always (Disciplined c) closeBehind ∧ ((machine c).run closeBehind).torn = [1] ∧
      ((machine c).run closeBehind).sent = [(0, 0), (1, 0)] := by
  intro c
  refine ⟨fun h => ?_, by decide, by decide⟩
  have hdropped : Dropped [1] ((machine c).run closeBehind) := h.last.dropped
  exact (hdropped 1 (mem_singleton_self 1)).2 (by decide)

end Ipc.Windows
