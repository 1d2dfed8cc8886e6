-- SUMMARY: The moves a lane is made of, and what holds of it after all of them.
import Tracenium.Ipc.Calls
import Mathlib.Logic.Relation

open Utf16 List OrderedMap Nat Prod

namespace Ipc.Windows

open World Lane Subset

/-! ## Moves -/

def Lane.leave (s : Lane) (n : Nat) (o : Outcome) : Lane :=
  { s.settled n o with pending := .empty, timers := [], inFlight := none }

def Lane.write (s : Lane) (n k : Nat) : Lane :=
  { s with
    toWorld := s.send n k
    timers := [n]
    inFlight := some (s.idOf n, s.methodOf n)
    pending := empty.set (s.idOf n) n }

inductive Move (mayWrite : Prop) : Lane → Lane → Prop
  | drop {s : Lane} {n : Nat} {queue : List Nat} (hqueue : s.queue = n :: queue) (error : Str) :
      Move mayWrite s { s with toWorld := s.settle n (.rejected error), queue := queue }
  | write {s : Lane} {n k : Nat} {queue : List Nat} (hmay : mayWrite)
      (hqueue : s.queue = n :: queue) (hfree : s.pending = .empty)
      (hk : s.sockets[k]? = some .writable) : Move mayWrite s { s.write n k with queue := queue }
  | leave {s : Lane} {n : Nat} (hpending : s.pending.entries = [(s.idOf n, n)]) (error : Str) :
      Move mayWrite s (s.leave n (.rejected error))

def Moves (mayWrite : Prop) : Lane → Lane → Prop := Relation.ReflTransGen (Move mayWrite)

variable {p : Prop}

theorem Moves.refl (s : Lane) : Moves p s s := Relation.ReflTransGen.refl

theorem Moves.trans {s t u : Lane} (h : Moves p s t) (h' : Moves p t u) : Moves p s u :=
  Relation.ReflTransGen.trans h h'

theorem Moves.head {s t u : Lane} (h : Move p s t) (h' : Moves p t u) : Moves p s u := Relation.ReflTransGen.head h h'

variable {s t : Lane}

/-- What every move keeps, all moves keep. -/
theorem Moves.keep {P : Lane → Prop} (hmove : ∀ s t, P s → Move p s t → P t) (h : Moves p s t) (hs : P s) : P t := by
  induction h with
  | refl => exact hs
  | tail _ hlast ih => exact hmove _ _ ih hlast

/-! ## Sound lanes -/

structure Free (s : Lane) : Prop where
  inFlight : s.inFlight = none
  pending : s.pending = .empty
  timers : s.timers = []

structure Busy (s : Lane) (n : Nat) : Prop where
  inFlight : s.inFlight = some (s.idOf n, s.methodOf n)
  pending : s.pending.entries = [(s.idOf n, n)]
  timers : s.timers = [n]
  called : n < s.requests.length
  isOpen : s.isSettled n = false
  sent : n ∈ s.sent.map fst

/-- Calls are settled at most once, written in the order they were made and before those that are
queued, and those that are not settled are queued or have the lane. -/
structure Sound (s : Lane) : Prop where
  once : (s.outcomes.map fst).Nodup
  settled : ∀ n, s.isSettled n = true → n < s.requests.length
  sent : ∀ n k, (n, k) ∈ s.sent → n < s.requests.length ∧ k < s.sockets.length
  answered : ∀ n ∈ s.answered, n ∈ s.sent.map fst
  order : (s.sent.map fst ++ s.queue).Pairwise (· < ·)
  queue : ∀ n ∈ s.queue, n < s.requests.length ∧ s.isSettled n = false
  lane : Free s ∨ ∃ n, Busy s n
  rest : ∀ n < s.requests.length, s.isSettled n = false → n ∈ s.queue ∨ Busy s n

/-- Between events, calls wait only for one that has the lane. -/
structure Settled (s : Lane) : Prop extends Sound s where
  waiting : Free s → s.queue = []

variable {s : Lane}

theorem Free.not_busy (h : Free s) (n : Nat) : ¬ Busy s n := by
  intro hbusy
  have hpending := hbusy.pending
  rw [h.pending] at hpending
  cases hpending

theorem Busy.unique {n m : Nat} (hn : Busy s n) (hm : Busy s m) : n = m := by
  have h := hn.pending.symm.trans hm.pending
  rw [List.cons.injEq, Prod.mk.injEq] at h
  exact h.1.2

variable {n : Nat}

/-- A queued call was not written. -/
theorem Sound.not_sent (h : Sound s) (hn : n ∈ s.queue) : n ∉ s.sent.map fst := by
  intro hsent
  exact lt_irrefl n ((pairwise_append.mp h.order).2.2 n hsent n hn)

theorem Busy.drop {m n : Nat} (h : Busy s m) (hne : m ≠ n) (o : Outcome)
    (queue : List Nat) : Busy { s with toWorld := s.settle n o, queue := queue } m :=
  ⟨h.inFlight, h.pending, h.timers, h.called, isSettled_settle_eq_false.mpr ⟨h.isOpen, hne⟩, h.sent⟩

variable {queue : List Nat}

theorem Sound.drop (h : Sound s) (hqueue : s.queue = n :: queue) (error : Str) :
    Sound { s with toWorld := s.settle n (.rejected error), queue := queue } := by
  have hn := h.queue n (hqueue ▸ mem_cons_self)
  have horder := h.order
  rw [hqueue] at horder
  have hne (m : Nat) (hm : Busy s m) : m ≠ n := by
    rintro rfl
    exact h.not_sent (hqueue ▸ mem_cons_self) hm.sent
  obtain ⟨hsent, hcons, hlt⟩ := pairwise_append.mp horder
  obtain ⟨hhead, htail⟩ := pairwise_cons.mp hcons
  refine ⟨nodup_settle h.once hn.2 _, fun m hm => ?_, h.sent, h.answered,
    pairwise_append.mpr ⟨hsent, htail, fun a ha b hb => hlt a ha b (mem_cons_of_mem _ hb)⟩,
    fun m hm => ?_, ?_, fun m hm hopen => ?_⟩
  · rcases isSettled_settle.mp hm with hm | rfl
    · exact h.settled m hm
    · exact hn.1
  · obtain ⟨hlt, hopen⟩ := h.queue m (hqueue ▸ mem_cons_of_mem _ hm)
    exact ⟨hlt, isSettled_settle_eq_false.mpr ⟨hopen, ne_of_gt (hhead m hm)⟩⟩
  · rcases h.lane with hfree | ⟨m, hbusy⟩
    · exact .inl ⟨hfree.inFlight, hfree.pending, hfree.timers⟩
    · exact .inr ⟨m, hbusy.drop (hne m hbusy) _ _⟩
  · obtain ⟨hopen, hmn⟩ := isSettled_settle_eq_false.mp hopen
    rcases h.rest m hm hopen with hmem | hbusy
    · rw [hqueue] at hmem
      exact .inl ((mem_cons.mp hmem).resolve_left hmn)
    · exact .inr (hbusy.drop hmn _ _)

theorem busy_write (s : Lane) {n k : Nat} (hn : n < s.requests.length)
    (hopen : s.isSettled n = false) (queue : List Nat) : Busy { s.write n k with queue := queue } n :=
  ⟨rfl, set_of_empty rfl _ _, rfl, hn, hopen, by simp [write, send]⟩

theorem Sound.write (h : Sound s) {n k : Nat} (hqueue : s.queue = n :: queue) (hfree : s.pending = .empty)
    (hk : s.sockets[k]? = some .writable) : Sound { s.write n k with queue := queue } := by
  have hn := h.queue n (hqueue ▸ mem_cons_self)
  have horder := h.order
  rw [hqueue] at horder
  have hmap : (s.write n k).sent.map fst = s.sent.map fst ++ [n] := by
    simp [Lane.write, World.send]
  refine ⟨h.once, h.settled, fun m j hm => ?_, fun m hm => ?_, ?_, fun m hm => ?_,
    .inr ⟨n, busy_write s hn.1 hn.2 queue⟩, fun m hm hopen => ?_⟩
  · rcases mem_append.mp hm with hm | hm
    · exact h.sent m j hm
    · obtain ⟨rfl, rfl⟩ := mk.inj (mem_singleton.mp hm)
      exact ⟨hn.1, (List.getElem?_eq_some_iff.mp hk).1⟩
  · show m ∈ (s.write n k).sent.map fst
    rw [hmap]
    exact mem_append_left _ (h.answered m hm)
  · show ((s.write n k).sent.map fst ++ queue).Pairwise (· < ·)
    rw [hmap, append_assoc]
    exact horder
  · exact h.queue m (hqueue ▸ mem_cons_of_mem _ hm)
  · rcases h.rest m hm hopen with hmem | hbusy
    · rw [hqueue] at hmem
      rcases mem_cons.mp hmem with rfl | hmem
      · exact .inr (busy_write s hn.1 hn.2 queue)
      · exact .inl hmem
    · have hpending := hbusy.pending
      rw [hfree] at hpending
      cases hpending

theorem Sound.busy (h : Sound s) {i : Str} (hpending : (i, n) ∈ s.pending.entries) : Busy s n := by
  rcases h.lane with hfree | ⟨m, hbusy⟩
  · rw [hfree.pending] at hpending
    cases hpending
  · rw [hbusy.pending] at hpending
    obtain ⟨rfl, rfl⟩ := mk.inj (mem_singleton.mp hpending)
    exact hbusy

/-- The call that has the lane leaves it, settled. -/
theorem Sound.leave (h : Sound s) (hbusy : Busy s n) (o : Outcome) : Sound (s.leave n o) := by
  refine ⟨nodup_settle h.once hbusy.isOpen o, fun m hm => ?_, h.sent, h.answered, h.order,
    fun m hm => ?_, .inl ⟨rfl, rfl, rfl⟩, fun m hm hopen => ?_⟩
  · rcases isSettled_settle.mp hm with hm | rfl
    · exact h.settled m hm
    · exact hbusy.called
  · obtain ⟨hlt, hopen⟩ := h.queue m hm
    refine ⟨hlt, isSettled_settle_eq_false.mpr ⟨hopen, ?_⟩⟩
    rintro rfl
    exact h.not_sent hm hbusy.sent
  · obtain ⟨hopen, hne⟩ := isSettled_settle_eq_false.mp hopen
    rcases h.rest m hm hopen with hmem | hm
    · exact .inl hmem
    · exact absurd (hm.unique hbusy) hne

theorem Sound.move (h : Sound s) (hmove : Move p s t) : Sound t := by
  cases hmove with
  | drop hqueue error => exact h.drop hqueue error
  | write _ hqueue hfree hk => exact h.write hqueue hfree hk
  | leave hpending error =>
    exact h.leave (h.busy (hpending ▸ mem_singleton_self _)) (.rejected error)

theorem Sound.moves (h : Sound s) (hmoves : Moves p s t) : Sound t := hmoves.keep (fun _ _ h hmove => h.move hmove) h

/-! ## What the operations do -/

/-- What a free lane does with the call at the head of the queue: it rejects it and goes on with
the rest, or it writes it. -/
theorem pumpQueue_cons (hfree : Free s) (hopen : s.isSettled n = false) (writeError : Str) (queue : List Nat) :
    (∃ error queue', (s.serializable n → s.writable s.socket = none) ∧ s.pumpQueue writeError (n :: queue) =
        { s with toWorld := s.settle n (.rejected error), queue := queue' }.pumpQueue writeError
          queue) ∨
    (∃ k, s.writable s.socket = some k ∧ s.serializable n ∧
      s.pumpQueue writeError (n :: queue) = { s.write n k with queue := queue }) := by
  rw [pumpQueue, if_neg (by simp [hopen])]
  cases hwritable : s.writable s.socket with
  | none =>
    have htimers : s.timers.filter (· ≠ n) = s.timers := by
      rw [hfree.timers]
      rfl
    refine .inl ⟨text "PrivSvc socket not available", s.queue, fun _ => rfl, ?_⟩
    dsimp only
    rw [settled, htimers]
  | some k =>
    dsimp only
    cases hserializable : s.serializable n with
    | true =>
      refine .inr ⟨k, rfl, rfl, ?_⟩
      rw [if_pos rfl, hfree.pending, hfree.timers]
      rfl
    | false =>
      have hpending : (s.pending.set (s.idOf n) n).delete (s.idOf n) = s.pending := by
        rw [hfree.pending]
        exact delete_of_singleton (set_of_empty rfl _ _)
      have htimers : (s.timers ++ [n]).filter (· ≠ n) = s.timers := by
        rw [hfree.timers]
        simp
      refine .inl ⟨writeError, queue, nofun, ?_⟩
      rw [if_neg (by simp), settled, hpending, htimers, ← hfree.inFlight]

/-- A free lane is pumped by rejecting calls and writing one, which is one that can be written. -/
theorem Sound.pumpQueue (writeError : Str) (h : Sound { s with queue := queue }) (hfree : Free s)
    (hp : ∀ n ∈ queue, s.serializable n → s.writable s.socket ≠ none → p) :
    Moves p { s with queue := queue } (s.pumpQueue writeError queue) ∧
      (Free (s.pumpQueue writeError queue) → (s.pumpQueue writeError queue).queue = []) := by
  induction queue generalizing s with
  | nil => exact ⟨Moves.refl _, fun _ => rfl⟩
  | cons n queue ih =>
    have hopen : s.isSettled n = false := (h.queue n mem_cons_self).2
    rcases pumpQueue_cons hfree hopen writeError queue with
      ⟨error, queue', -, heq⟩ | ⟨k, hwritable, hserializable, heq⟩
    · obtain ⟨hmoves, hidle⟩ := ih
        (s := { s with toWorld := s.settle n (.rejected error), queue := queue' })
        (h.drop rfl error) ⟨hfree.inFlight, hfree.pending, hfree.timers⟩
        fun m hm => hp m (mem_cons_of_mem _ hm)
      rw [heq]
      exact ⟨hmoves.head (.drop rfl error), hidle⟩
    · have hmay : p := hp n mem_cons_self hserializable (by simp [hwritable])
      rw [heq]
      refine ⟨.head (.write hmay rfl hfree.pending (writable_eq_some hwritable).2)
        (Moves.refl _), fun hfree' => ?_⟩
      cases hfree'.inFlight

theorem Sound.pump (h : Sound s) (hfree : Free s) (writeError : Str)
    (hp : ∀ n ∈ s.queue, s.serializable n → s.writable s.socket ≠ none → p) : Moves p s (s.pump writeError) ∧
      (Free (s.pump writeError) → (s.pump writeError).queue = []) := by
  rw [Lane.pump, if_neg (by simp [hfree.inFlight])]
  exact Sound.pumpQueue writeError h hfree hp

theorem pump_of_busy (h : Busy s n) (writeError : Str) : s.pump writeError = s := by
  rw [pump, if_pos (by simp [h.inFlight])]

/-- A request that leaves the lane lets the next one in. -/
theorem Busy.settlePending (h : Busy s n) (writeError : Str) (o : Outcome) :
    s.settlePending writeError (s.idOf n) n o = (s.leave n o).pump writeError := by
  have hpending : s.pending.delete (s.idOf n) = .empty := delete_of_singleton h.pending
  have htimers : s.timers.filter (· ≠ n) = [] := by
    rw [h.timers]
    simp
  rw [Lane.settlePending, Lane.finish, Lane.settled, htimers, hpending]
  rw [h.inFlight, Option.map_some, if_pos rfl]
  rfl

/-! ## What the moves leave alone -/

/-- What the moves from `s` leave alone, and how the rest changes. -/
structure Frame (s t : Lane) : Prop where
  sockets : t.sockets = s.sockets
  socket : t.socket = s.socket
  requests : t.requests = s.requests
  answered : t.answered = s.answered
  torn : t.torn = s.torn
  queue : t.queue ⊆ s.queue
  sent : s.sent ⊆ t.sent
  outcomes : s.outcomes ⊆ t.outcomes
  size : t.pending.size + t.queue.length ≤ s.pending.size + s.queue.length

theorem Frame.refl (s : Lane) : Frame s s :=
  ⟨rfl, rfl, rfl, rfl, rfl, Subset.refl _, Subset.refl _, Subset.refl _, le_refl _⟩

theorem Frame.trans {s t u : Lane} (h : Frame s t) (h' : Frame t u) : Frame s u :=
  ⟨h'.sockets.trans h.sockets, h'.socket.trans h.socket, h'.requests.trans h.requests,
    h'.answered.trans h.answered, h'.torn.trans h.torn, Subset.trans h'.queue h.queue,
    Subset.trans h.sent h'.sent, Subset.trans h.outcomes h'.outcomes,
    le_trans h'.size h.size⟩

theorem Frame.idOf (h : Frame s t) (n : Nat) : t.idOf n = s.idOf n := by
  rw [World.idOf, World.idOf, h.requests]

theorem Frame.serializable (h : Frame s t) (n : Nat) : t.serializable n = s.serializable n := by
  rw [World.serializable, World.serializable, h.requests]

theorem Frame.writable (h : Frame s t) : t.writable t.socket = s.writable s.socket := by
  unfold World.writable
  rw [h.socket, h.sockets]

theorem Move.frame (h : Move p s t) : Frame s t := by
  cases h with
  | drop hqueue error =>
    refine ⟨rfl, rfl, rfl, rfl, rfl, ?_, refl _, subset_append_left _ _, ?_⟩
    · rw [hqueue]
      exact subset_cons_self _ _
    · rw [hqueue, length_cons]
      exact Nat.add_le_add_left (Nat.le_succ _) _
  | write hmay hqueue hfree hk =>
    refine ⟨rfl, rfl, rfl, rfl, rfl, ?_, subset_append_left _ _, refl _, ?_⟩
    · rw [hqueue]
      exact subset_cons_self _ _
    · rw [hqueue, length_cons, hfree, OrderedMap.size, Lane.write, set_of_empty rfl, length_singleton]
      simp only
      omega
  | leave hpending error =>
    refine ⟨rfl, rfl, rfl, rfl, rfl, refl _, refl _, subset_append_left _ _, ?_⟩
    exact Nat.add_le_add_right (Nat.zero_le _) _

theorem Moves.frame (h : Moves p s t) : Frame s t :=
  h.keep (fun _ _ hframe hmove => hframe.trans hmove.frame) (Frame.refl s)

/-! ## Tearing down -/

/-- Everything in the queue is rejected. -/
theorem moves_dropAll (error : Str)
    (hqueue : s.queue = queue) :
    Moves p s { s with
      queue := []
      outcomes := s.outcomes ++ queue.map fun n => (n, .rejected error) } := by
  induction queue generalizing s with
  | nil =>
    have heq : { s with queue := [], outcomes := s.outcomes ++ [] } = s := by
      rw [append_nil, ← hqueue]
    rw [map_nil, heq]
    exact Moves.refl s
  | cons n queue ih =>
    have hrest := ih (s := { s with toWorld := s.settle n (.rejected error), queue := queue }) rfl
    refine .head (.drop hqueue error) ?_
    simpa [settle] using hrest

/-- When the socket is lost, the queue is rejected, and then what was in flight. -/
theorem Sound.drain (h : Sound s) (writeError error : Str) (errors : Str → Str) (p : Prop) :
    Moves p s ((s.drainQueue error).rejectAll writeError errors) ∧
      Free ((s.drainQueue error).rejectAll writeError errors) ∧
      ((s.drainQueue error).rejectAll writeError errors).queue = [] := by
  have hall : (s.queue.filter fun n => !s.isSettled n) = s.queue := by
    refine filter_eq_self.mpr fun n hn => ?_
    rw [(h.queue n hn).2]
    rfl
  have hdrop := moves_dropAll (p := p) error (s := s) rfl
  rcases h.lane with hfree | ⟨n, hbusy⟩
  · have hdrain : (s.drainQueue error).rejectAll writeError errors = { s with
        queue := []
        outcomes := s.outcomes ++ s.queue.map fun n => (n, .rejected error) } := by
      rw [drainQueue, hall, rejectAll, hfree.pending, ← hfree.inFlight]
      rfl
    rw [hdrain]
    exact ⟨hdrop, ⟨hfree.inFlight, hfree.pending, hfree.timers⟩, rfl⟩
  · have htimers : s.timers.filter (· ≠ n) = [] := by
      rw [hbusy.timers]
      simp
    have hsize : s.pending.size = 1 := by rw [OrderedMap.size, hbusy.pending, length_singleton]
    generalize hs₀ : { s with
      queue := []
      outcomes := s.outcomes ++ s.queue.map fun n => (n, Outcome.rejected error) } = s₀ at hdrop
    have hpending : s₀.pending.entries = [(s.idOf n, n)] := by
      rw [← hs₀]
      exact hbusy.pending
    have hdrain : (s.drainQueue error).rejectAll writeError errors =
        s₀.leave n (.rejected (errors (s.idOf n))) := by
      have hdelete : s.pending.delete (s.idOf n) = .empty := delete_of_singleton hbusy.pending
      rw [drainQueue, hall, rejectAll]
      simp only [hsize, length_nil]
      simp only [hbusy.pending, Lane.rejectPending, Lane.settlePending, Lane.settled, hdelete, htimers]
      rw [← hs₀]
      rfl
    have hid : s₀.idOf n = s.idOf n := by rw [← hs₀]; rfl
    rw [hdrain]
    refine ⟨hdrop.trans (.head (.leave (by rw [hpending, hid]) _) (Moves.refl _)), ⟨rfl, rfl, rfl⟩, ?_⟩
    rw [← hs₀]
    rfl

/-- Closing rejects what is in flight until the queue is empty: as each rejection pumps the lane,
the calls in the queue are written one after another if they can be. -/
theorem Sound.rejectPending (h : Sound s) (writeError : Str) (errors : Str → Str)
    (turns : Nat) (hwaiting : Free s → s.queue = []) (hturns : s.pending.size + s.queue.length ≤ turns)
    (hp : ∀ n ∈ s.queue, s.serializable n → s.writable s.socket ≠ none → p) :
    Moves p s (s.rejectPending writeError errors turns) ∧ Free (s.rejectPending writeError errors turns) ∧
      (s.rejectPending writeError errors turns).queue = [] := by
  induction turns generalizing s with
  | zero =>
    rcases h.lane with hfree | ⟨n, hbusy⟩
    · exact ⟨Moves.refl s, hfree, hwaiting hfree⟩
    · rw [OrderedMap.size, hbusy.pending, length_singleton] at hturns
      omega
  | succ turns ih =>
    rcases h.lane with hfree | ⟨n, hbusy⟩
    · rw [rejectPending, hfree.pending]
      exact ⟨Moves.refl s, hfree, hwaiting hfree⟩
    · rw [rejectPending, hbusy.pending]
      dsimp only
      rw [hbusy.settlePending]
      have hleave : Move p s (s.leave n (.rejected (errors (s.idOf n)))) := .leave hbusy.pending _
      obtain ⟨hpump, hidle⟩ := (h.move hleave).pump ⟨rfl, rfl, rfl⟩ writeError hp
      have hmoves := hpump.head hleave
      have hframe := hmoves.frame
      have hsize : ((s.leave n (.rejected (errors (s.idOf n)))).pump writeError).pending.size +
          ((s.leave n (.rejected (errors (s.idOf n)))).pump writeError).queue.length ≤ turns := by
        have hle := hpump.frame.size
        rw [OrderedMap.size, hbusy.pending, length_singleton] at hturns
        refine hle.trans ?_
        show 0 + s.queue.length ≤ turns
        omega
      obtain ⟨hrest, hfree, hempty⟩ := ih (h.moves hmoves) hidle hsize fun m hm => by
        rw [hframe.serializable, hframe.writable]
        exact hp m (hframe.queue hm)
      exact ⟨hmoves.trans hrest, hfree, hempty⟩

/-! ## Events -/

/-- What happens to sockets leaves a lane sound. -/
theorem Sound.withSockets (h : Sound s) {sockets : List Socket}
    (hlength : s.sockets.length ≤ sockets.length) (socket : Option Nat) (closedByClient : Bool) :
    Sound { s with sockets := sockets, socket := socket, closedByClient := closedByClient } := by
  have hbusy (n : Nat) (hn : Busy s n) :
      Busy { s with sockets := sockets, socket := socket, closedByClient := closedByClient } n :=
    ⟨hn.inFlight, hn.pending, hn.timers, hn.called, hn.isOpen, hn.sent⟩
  refine ⟨h.once, h.settled, fun n k hn => ?_, h.answered, h.order, h.queue, ?_, fun n hn hopen => ?_⟩
  · obtain ⟨hlt, hk⟩ := h.sent n k hn
    exact ⟨hlt, lt_of_lt_of_le hk hlength⟩
  · rcases h.lane with hfree | ⟨n, hn⟩
    · exact .inl ⟨hfree.inFlight, hfree.pending, hfree.timers⟩
    · exact .inr ⟨n, hbusy n hn⟩
  · exact (h.rest n hn hopen).imp_right (hbusy n)

theorem Settled.withSockets (h : Settled s) {sockets : List Socket}
    (hlength : s.sockets.length ≤ sockets.length) (socket : Option Nat) (closedByClient : Bool) :
    Settled { s with sockets := sockets, socket := socket, closedByClient := closedByClient } :=
  ⟨h.toSound.withSockets hlength socket closedByClient,
    fun hfree => h.waiting ⟨hfree.inFlight, hfree.pending, hfree.timers⟩⟩

/-- The next call has not been settled. -/
theorem Sound.next_open (h : Sound s) : s.isSettled s.requests.length = false := by
  cases hn : s.isSettled s.requests.length with
  | false => rfl
  | true => exact absurd (h.settled _ hn) (lt_irrefl _)

theorem Busy.add (h : Busy s n) (req : Request) :
    (s.add req).idOf n = s.idOf n ∧ (s.add req).methodOf n = s.methodOf n := by
  refine ⟨idOf_add_of_lt h.called req, ?_⟩
  rw [World.methodOf, World.methodOf, World.add, getElem?_append_left h.called]

/-- A call is made and rejected at once. -/
theorem Settled.refuse (h : Settled s) (req : Request) (error : Str) : Settled (s.refuse req error) := by
  have hlength : (s.add req).requests.length = s.requests.length + 1 := by
    simp [add]
  have hopen {n : Nat} (hn : ((s.add req).settle s.requests.length (.rejected error)).isSettled n =
      false) : s.isSettled n = false ∧ n ≠ s.requests.length :=
    isSettled_settle_eq_false.mp hn
  have hbusy (n : Nat) (hn : Busy s n) : Busy (s.refuse req error) n := by
    obtain ⟨hid, hmethod⟩ := hn.add req
    refine ⟨?_, ?_, hn.timers, hlength ▸ lt_succ_of_lt hn.called,
      isSettled_settle_eq_false.mpr ⟨hn.isOpen, Nat.ne_of_lt hn.called⟩, hn.sent⟩
    · show s.inFlight = some ((s.add req).idOf n, (s.add req).methodOf n)
      rw [hid, hmethod, hn.inFlight]
    · show s.pending.entries = [((s.add req).idOf n, n)]
      rw [hid, hn.pending]
  refine ⟨⟨nodup_settle h.once h.next_open _, fun n hn => ?_, fun n k hn => ?_, h.answered,
    h.order, fun n hn => ?_, ?_, fun n hn hnopen => ?_⟩, fun hfree => h.waiting
      ⟨hfree.inFlight, hfree.pending, hfree.timers⟩⟩
  · refine hlength ▸ ?_
    rcases isSettled_settle.mp hn with hn | rfl
    · exact lt_succ_of_lt (h.settled n hn)
    · exact lt_succ_self _
  · obtain ⟨hlt, hk⟩ := h.sent n k hn
    exact ⟨hlength ▸ lt_succ_of_lt hlt, hk⟩
  · obtain ⟨hlt, hnopen⟩ := h.queue n hn
    exact ⟨hlength ▸ lt_succ_of_lt hlt, isSettled_settle_eq_false.mpr ⟨hnopen, Nat.ne_of_lt hlt⟩⟩
  · rcases h.lane with hfree | ⟨n, hn⟩
    · exact .inl ⟨hfree.inFlight, hfree.pending, hfree.timers⟩
    · exact .inr ⟨n, hbusy n hn⟩
  · obtain ⟨hnopen, hne⟩ := hopen hnopen
    have hlt : n < s.requests.length + 1 := hlength ▸ hn
    exact (h.rest n (by omega) hnopen).imp_right (hbusy n)

def Lane.enqueue (s : Lane) (req : Request) : Lane :=
  { s with
    toWorld := s.add req
    behind := s.behind ++ [s.laneAhead]
    queue := s.queue ++ [s.requests.length] }

theorem Sound.enqueue (h : Sound s) (req : Request) :
    Sound (s.enqueue req) ∧ ∀ n, Busy s n → Busy (s.enqueue req) n := by
  have hlength : (s.add req).requests.length = s.requests.length + 1 := by
    simp [add]
  have hbusy (n : Nat) (hn : Busy s n) : Busy (s.enqueue req) n := by
    obtain ⟨hid, hmethod⟩ := hn.add req
    refine ⟨?_, ?_, hn.timers, hlength ▸ lt_succ_of_lt hn.called, hn.isOpen, hn.sent⟩
    · show s.inFlight = some ((s.add req).idOf n, (s.add req).methodOf n)
      rw [hid, hmethod, hn.inFlight]
    · show s.pending.entries = [((s.add req).idOf n, n)]
      rw [hid, hn.pending]
  refine ⟨⟨h.once, fun n hn => ?_, fun n k hn => ?_, h.answered, ?_, fun n hn => ?_, ?_,
    fun n hn hopen => ?_⟩, hbusy⟩
  · exact hlength ▸ lt_succ_of_lt (h.settled n hn)
  · obtain ⟨hlt, hk⟩ := h.sent n k hn
    exact ⟨hlength ▸ lt_succ_of_lt hlt, hk⟩
  · show (s.sent.map fst ++ (s.queue ++ [s.requests.length])).Pairwise (· < ·)
    rw [← append_assoc]
    refine pairwise_append.mpr ⟨h.order, pairwise_singleton _ _, ?_⟩
    intro a ha b hb
    rw [mem_singleton.mp hb]
    rcases mem_append.mp ha with ha | ha
    · obtain ⟨⟨n, k⟩, hmem, rfl⟩ := mem_map.mp ha
      exact (h.sent n k hmem).1
    · exact (h.queue a ha).1
  · show n < (s.add req).requests.length ∧ s.isSettled n = false
    rw [hlength]
    rcases mem_append.mp hn with hn | hn
    · obtain ⟨hlt, hopen⟩ := h.queue n hn
      exact ⟨lt_succ_of_lt hlt, hopen⟩
    · rw [mem_singleton.mp hn]
      exact ⟨lt_succ_self _, h.next_open⟩
  · rcases h.lane with hfree | ⟨n, hn⟩
    · exact .inl ⟨hfree.inFlight, hfree.pending, hfree.timers⟩
    · exact .inr ⟨n, hbusy n hn⟩
  · rcases Nat.lt_succ_iff_lt_or_eq.mp (hlength ▸ hn) with hlt | rfl
    · exact (h.rest n hlt hopen).imp (mem_append_left _) (hbusy n)
    · exact .inl (mem_append_right _ (mem_singleton_self _))

/-- A call that is accepted is added to the queue, and the lane is pumped if it is free. -/
theorem Settled.enqueue (h : Settled s) (req : Request) (writeError : Str) :
    Moves True (s.enqueue req) ((s.enqueue req).pump writeError) ∧ Settled ((s.enqueue req).pump writeError) := by
  obtain ⟨hsound, hbusy⟩ := h.toSound.enqueue req
  rcases hsound.lane with hfree | ⟨n, hn⟩
  · obtain ⟨hmoves, hidle⟩ := hsound.pump hfree writeError (p := True) fun _ _ _ _ => trivial
    exact ⟨hmoves, hsound.moves hmoves, hidle⟩
  · rw [pump_of_busy hn]
    exact ⟨Moves.refl _, hsound, fun hfree => absurd hn (hfree.not_busy n)⟩

/-- A call that leaves the lane lets the next one in. -/
theorem Settled.settlePending (h : Sound s) (hbusy : Busy s n) (writeError : Str) (o : Outcome) :
    Moves True (s.leave n o) (s.settlePending writeError (s.idOf n) n o) ∧
      Settled (s.settlePending writeError (s.idOf n) n o) := by
  rw [hbusy.settlePending]
  have hleave := h.leave hbusy o
  obtain ⟨hmoves, hidle⟩ := hleave.pump ⟨rfl, rfl, rfl⟩ writeError (p := True)
    fun _ _ _ _ => trivial
  exact ⟨hmoves, hleave.moves hmoves, hidle⟩

/-- A call whose response comes in is one that was written. -/
theorem Sound.answer (h : Sound s) (hn : s.expects n) : Sound { s with toWorld := s.answer n } ∧
      ∀ m, Busy s m → Busy { s with toWorld := s.answer n } m := by
  have hbusy (m : Nat) (hm : Busy s m) : Busy { s with toWorld := s.answer n } m :=
    ⟨hm.inFlight, hm.pending, hm.timers, hm.called, hm.isOpen, hm.sent⟩
  refine ⟨⟨h.once, h.settled, h.sent, fun m hm => ?_, h.order, h.queue, ?_, fun m hm hopen => ?_⟩, hbusy⟩
  · rcases mem_append.mp hm with hm | hm
    · exact h.answered m hm
    · rw [mem_singleton.mp hm]
      obtain ⟨⟨k, hk, -⟩, -⟩ := expects_iff.mp hn
      exact mem_map.mpr ⟨(n, k), hk, rfl⟩
  · rcases h.lane with hfree | ⟨m, hm⟩
    · exact .inl ⟨hfree.inFlight, hfree.pending, hfree.timers⟩
    · exact .inr ⟨m, hbusy m hm⟩
  · exact (h.rest m hm hopen).imp_right (hbusy m)

theorem Settled.response (h : Settled s) (writeError : Str) (n : Nat) : Settled (s.response writeError n) := by
  rw [Lane.response]
  split
  · rename_i hexpects
    obtain ⟨hsound, hbusy⟩ := h.toSound.answer hexpects
    dsimp only
    split
    · rename_i m hm
      have hpending := get_eq_some_iff.mp hm
      have hm := hsound.busy hpending
      rw [hm.pending] at hpending
      obtain ⟨hid, -⟩ := mk.inj (mem_singleton.mp hpending)
      rw [hid]
      exact (Settled.settlePending hsound hm writeError _).2
    · exact ⟨hsound, fun hfree => h.waiting ⟨hfree.inFlight, hfree.pending, hfree.timers⟩⟩
  · exact h

theorem Sound.busy_of_timer (h : Sound s) (hn : n ∈ s.timers) : Busy s n := by
  rcases h.lane with hfree | ⟨m, hbusy⟩
  · rw [hfree.timers] at hn
    cases hn
  · rw [hbusy.timers] at hn
    rw [mem_singleton.mp hn]
    exact hbusy

theorem Settled.timer (h : Settled s) (timeoutOf : Str → Nat) (writeError : Str)
    (n waitedMs : Nat) : Settled (s.timer timeoutOf writeError n waitedMs) := by
  rw [Lane.timer]
  split
  · rename_i hn
    exact (Settled.settlePending h.toSound (h.busy_of_timer hn) writeError _).2
  · exact h

/-! ## Losing the socket -/

structure Lost (s t : Lane) : Prop where
  requests : t.requests = s.requests
  sent : t.sent = s.sent
  answered : t.answered = s.answered
  outcomes : t.outcomes = s.outcomes
  queue : t.queue = s.queue
  inFlight : t.inFlight = s.inFlight
  pending : t.pending = s.pending
  timers : t.timers = s.timers
  length : t.sockets.length = s.sockets.length
  alive : ∀ k, t.alive k = true → s.alive k = true

theorem Lost.sound (hlost : Lost s t) (h : Sound s) : Sound t := by
  have hid (n : Nat) : t.idOf n = s.idOf n := by rw [idOf, idOf, hlost.requests]
  have hmethod (n : Nat) : t.methodOf n = s.methodOf n := by
    rw [methodOf, methodOf, hlost.requests]
  have hsettled (n : Nat) : t.isSettled n = s.isSettled n := by
    rw [isSettled, isSettled, hlost.outcomes]
  have hbusy (n : Nat) (hn : Busy s n) : Busy t n := by
    refine ⟨?_, ?_, ?_, ?_, ?_, ?_⟩
    · rw [hid, hmethod, hlost.inFlight, hn.inFlight]
    · rw [hid, hlost.pending, hn.pending]
    · rw [hlost.timers, hn.timers]
    · rw [hlost.requests]
      exact hn.called
    · rw [hsettled, hn.isOpen]
    · rw [hlost.sent]
      exact hn.sent
  refine ⟨?_, ?_, ?_, ?_, ?_, ?_, ?_, ?_⟩
  · rw [hlost.outcomes]
    exact h.once
  · intro n
    rw [hsettled, hlost.requests]
    exact h.settled n
  · rw [hlost.sent, hlost.requests, hlost.length]
    exact h.sent
  · rw [hlost.answered, hlost.sent]
    exact h.answered
  · rw [hlost.sent, hlost.queue]
    exact h.order
  · intro n
    rw [hlost.queue, hlost.requests, hsettled]
    exact h.queue n
  · rcases h.lane with hfree | ⟨n, hn⟩
    · exact .inl ⟨hlost.inFlight.trans hfree.inFlight, hlost.pending.trans hfree.pending,
        hlost.timers.trans hfree.timers⟩
    · exact .inr ⟨n, hbusy n hn⟩
  · intro n
    rw [hlost.requests, hsettled, hlost.queue]
    exact fun hn hopen => (h.rest n hn hopen).imp_right (hbusy n)

def Event.tears : Event → Bool
  | .error _ _ => true
  | .closed _ => true
  | .close => true
  | _ => false

theorem lost_destroy (s : Lane) (k : Nat) (socket : Option Nat) :
    Lost s { s with toWorld := s.destroy k, socket := socket } :=
  ⟨rfl, rfl, rfl, rfl, rfl, rfl, rfl, rfl, length_set, fun _ => alive_destroy⟩

theorem lost_destroySocket (s : Lane) (old socket : Option Nat) (torn : List Nat) :
    Lost s { s with toWorld := s.destroySocket old, socket := socket, torn := torn } :=
  ⟨rfl, rfl, rfl, rfl, rfl, rfl, rfl, rfl, length_destroySocket old,
    fun _ => alive_destroySocket⟩

/-- A lane that is torn down moves until nothing is left, and it writes calls only when it is
closed with calls in its queue that can be written. -/
theorem Settled.tear (h : Settled s) (c : Config) {e : Event} (he : e.tears) (hp : e = .close →
      ∀ n ∈ s.queue, s.serializable n → s.writable s.socket ≠ none → p) :
    ∃ s₀ t₀, Lost s s₀ ∧ Moves p s₀ t₀ ∧ Free t₀ ∧ t₀.queue = [] ∧ Lost t₀ (step c s e) ∧
      (step c s e).torn = s.torn ++ s.queue := by
  cases e with
  | error k errMessage =>
    have hlost := lost_destroy s k none
    obtain ⟨hmoves, hfree, hqueue⟩ := (hlost.sound h.toSound).drain c.writeError
      (if errMessage = [] then text "PrivSvc socket error" else errMessage)
      (fun id =>
        if errMessage = [] then text "PrivSvc socket error (" ++ id ++ text ")" else errMessage) p
    refine ⟨_, _, hlost, hmoves, hfree, hqueue, ?_, rfl⟩
    exact lost_destroySocket _ s.socket _ _
  | closed k =>
    have hlost := lost_destroy s k s.socket
    obtain ⟨hmoves, hfree, hqueue⟩ := (hlost.sound h.toSound).drain c.writeError
      (text "PrivSvc connection closed")
      (fun id => text "PrivSvc connection closed (" ++ id ++ text ")") p
    refine ⟨_, _, hlost, hmoves, hfree, hqueue, ?_, rfl⟩
    exact lost_destroySocket _ none _ _
  | close =>
    have hlost : Lost s { s with closedByClient := true } :=
      ⟨rfl, rfl, rfl, rfl, rfl, rfl, rfl, rfl, rfl, fun _ => id⟩
    obtain ⟨hmoves, hfree, hqueue⟩ := (hlost.sound h.toSound).rejectPending c.writeError
      (fun id => text "PrivSvc client closed (" ++ id ++ text ")")
      _
      (fun hfree => h.waiting ⟨hfree.inFlight, hfree.pending, hfree.timers⟩) (le_refl _)
      (hp rfl)
    refine ⟨_, _, hlost, hmoves, hfree, hqueue, ?_, rfl⟩
    exact lost_destroySocket _ _ none _
  | _ => cases he

/-- Whatever happens, the lane stays settled. -/
theorem Settled.event (h : Settled s) (c : Config) (e : Event) : Settled (step c s e) := by
  have htear (htears : e.tears) : Settled (step c s e) := by
    obtain ⟨s₀, t₀, hlost, hmoves, hfree, hqueue, hlost', -⟩ := h.tear c htears (p := True) fun _ _ _ _ _ => trivial
    exact ⟨hlost'.sound ((hlost.sound h.toSound).moves hmoves), fun _ => hlost'.queue.trans hqueue⟩
  cases e with
  | connect =>
    refine h.withSockets ?_ (some s.sockets.length) false
    rw [length_append]
    exact le_add_right _ _
  | call req randomUUID =>
    rw [step, call]
    split
    · exact h.refuse req _
    · exact (h.enqueue _ c.writeError).2
  | refuse req error => exact h.refuse req error
  | response n => exact h.response c.writeError n
  | timer n waitedMs => exact h.timer c.timeoutOf c.writeError n waitedMs
  | ended k =>
    rw [step, endSocket]
    split
    · exact h.withSockets (le_of_eq length_set.symm) s.socket s.closedByClient
    · exact h
  | error k errMessage => exact htear rfl
  | closed k => exact htear rfl
  | close => exact htear rfl

theorem settled_start (name : Str) : Settled (start name) :=
  ⟨⟨.nil, nofun, nofun, nofun, .nil, nofun, .inl ⟨rfl, rfl, rfl⟩, nofun⟩, fun _ => rfl⟩

end Ipc.Windows
