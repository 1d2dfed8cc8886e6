-- SUMMARY: When every remote-session peer is registered, capped and closable: what each step keeps of peers and map, and the runs without a peer that loses its entry.
import Tracenium.Lib.Locks
import Tracenium.Rcp.SessionManager
import Mathlib.Data.List.Perm.Subperm

open Utf16 OrderedMap List Option

namespace Rcp.Sessions

/-- Peers are unique, registered and closable. -/
structure Registered (s : State) : Prop where
  unique : ∀ (i j : Nat) p q, s.peers[i]? = some p → s.peers[j]? = some q → p.disposed = false →
    q.disposed = false → p.sessionId = q.sessionId → i = j
  registered : ∀ (i : Nat) p, s.peers[i]? = some p → p.disposed = false → s.sessions.get p.sessionId = some i
  capped : (s.peers.filter fun p => !p.disposed).length ≤ MAX_CONCURRENT_LOCAL_PEERS
  /-- A call that its session was closed under leaves no live peer. -/
  closed : ∀ (n : Nat) c, s.calls[n]? = some c → c.phase = .over → c.closed = true →
    ∀ i, c.peer = some i → ∀ p, s.peers[i]? = some p → p.disposed = true

structure Invariant (s : State) : Prop where
  registered : ∀ (i : Nat) p, s.peers[i]? = some p → p.disposed = false → s.sessions.get p.sessionId = some i
  live : ∀ sessionId i, s.sessions.get sessionId = some i →
    ∃ p, s.peers[i]? = some p ∧ p.sessionId = sessionId ∧ p.disposed = false
  size : s.sessions.size ≤ MAX_CONCURRENT_LOCAL_PEERS
  own : ∀ (n : Nat) c, s.calls[n]? = some c → ∀ i, c.peer = some i →
    ∃ p, s.peers[i]? = some p ∧ p.sessionId = c.offer.sessionId
  closed : ∀ (n : Nat) c, s.calls[n]? = some c → c.closed = true →
    ∀ i, c.peer = some i → ∀ p, s.peers[i]? = some p → p.disposed = true

/-- Live peers have different sessions, and these are keys of the map. -/
theorem Invariant.capped {s : State} (hs : Invariant s) :
    (s.peers.filter fun p => !p.disposed).length ≤ s.sessions.size := by
  have hnodup : ((s.peers.filter fun p => !p.disposed).map Peer.sessionId).Nodup := by
    refine pairwise_map.mpr (pairwise_filter.mpr (pairwise_iff_getElem.mpr ?_))
    intro i j hi hj hlt hpi hpj heq
    have hget := hs.registered i _ (getElem?_eq_getElem hi) (by simpa using hpi)
    have hget' := hs.registered j _ (getElem?_eq_getElem hj) (by simpa using hpj)
    rw [heq, hget'] at hget
    exact hlt.ne' (some.inj hget)
  have hsub : (s.peers.filter fun p => !p.disposed).map Peer.sessionId ⊆ s.sessions.entries.map Prod.fst := by
    intro sessionId hmem
    obtain ⟨p, hp, rfl⟩ := mem_map.mp hmem
    obtain ⟨hp, halive⟩ := mem_filter.mp hp
    obtain ⟨i, hi⟩ := mem_iff_getElem?.mp hp
    have hget := hs.registered i p hi (by simpa using halive)
    exact mem_map_of_mem (get_eq_some_iff.mp hget)
  simpa [OrderedMap.size] using (List.Nodup.subperm hnodup hsub).length_le

theorem Registered.of_invariant {s : State} (hs : Invariant s) : Registered s where
  unique i j p q hi hj hp hq heq := by
    have hget := hs.registered i p hi hp
    rw [heq, hs.registered j q hj hq] at hget
    exact (some.inj hget).symm
  registered := hs.registered
  capped := hs.capped.trans hs.size
  closed n c hn _ := hs.closed n c hn

/-! ## Operations -/

section Operations

variable {s : State}

/-- What is no peer, map entry or call does not matter. -/
theorem Invariant.frame (hs : Invariant s) {s' : State} (hpeers : s'.peers = s.peers)
    (hsessions : s'.sessions = s.sessions) (hcalls : s'.calls = s.calls) : Invariant s' := by
  obtain ⟨now, peers, sessions, consent, started, ufrag, ice, calls, history⟩ := s'
  cases hpeers
  cases hsessions
  cases hcalls
  exact ⟨hs.registered, hs.live, hs.size, hs.own, hs.closed⟩

/-- Calls may change their phases. -/
theorem Invariant.goTo (hs : Invariant s) (n : Nat) (phase : Phase) : Invariant (s.goTo n phase) := by
  have hcalls : ∀ (m : Nat) c, (s.goTo n phase).calls[m]? = some c → ∃ c', s.calls[m]? = some c' ∧
      c'.offer = c.offer ∧ c'.peer = c.peer ∧ c'.closed = c.closed := by
    intro m c hm
    obtain ⟨c', hc', rfl⟩ := Slots.of_getElem?_modify hm
    refine ⟨c', hc', ?_⟩
    split <;> simp
  refine ⟨hs.registered, hs.live, hs.size, fun m c hm i hi => ?_, fun m c hm hclosed i hi => ?_⟩
  · obtain ⟨c', hc', hoffer, hpeer, -⟩ := hcalls m c hm
    exact hoffer ▸ hs.own m c' hc' i (hpeer.trans hi)
  · obtain ⟨c', hc', -, hpeer, hclosed'⟩ := hcalls m c hm
    exact hs.closed m c' hc' (hclosed'.trans hclosed) i (hpeer.trans hi)

/-- A call that starts. -/
theorem Invariant.start (hs : Invariant s) (o : Offer) :
    Invariant { s with calls := s.calls ++ [⟨o, .over, none, false⟩] } := by
  refine ⟨hs.registered, hs.live, hs.size, fun m c hm i hi => ?_, fun m c hm hclosed i hi => ?_⟩
  · rcases Slots.of_getElem?_concat hm with hm | ⟨-, rfl⟩
    · exact hs.own m c hm i hi
    · cases hi
  · rcases Slots.of_getElem?_concat hm with hm | ⟨-, rfl⟩
    · exact hs.closed m c hm hclosed i hi
    · cases hi

/-- An entry that is not there is deleted. -/
theorem Invariant.forgetPeer (hs : Invariant s) {sessionId : Str} (hnone : s.sessions.get sessionId = none) :
    Invariant (s.forgetPeer sessionId) := by
  refine ⟨fun i p hi hp => ?_, fun sessionId' i hget => ?_, ?_, hs.own, hs.closed⟩
  · have hget := hs.registered i p hi hp
    have hne : p.sessionId ≠ sessionId := by
      rintro rfl
      rw [hnone] at hget
      cases hget
    exact (get_delete_of_ne hne).trans hget
  · exact hs.live sessionId' i (get_delete_eq_some hget).2
  · exact (size_delete_le _ _).trans hs.size

theorem getElem?_dispose {i j : Nat} {p : Peer} (h : (s.dispose i).peers[j]? = some p) :
    ∃ q, s.peers[j]? = some q ∧ q.sessionId = p.sessionId ∧ (q.disposed → p.disposed) ∧
      (j = i → p.disposed) ∧ (j ≠ i → p = q) := by
  obtain ⟨q, hq, rfl⟩ := Slots.of_getElem?_modify h
  refine ⟨q, hq, ?_⟩
  by_cases heq : i = j
  · simp [heq]
  · simp [heq, Ne.symm heq]

/-- The peer of a session is taken from the map and disposed. -/
theorem Invariant.drop (hs : Invariant s) {sessionId : Str} {i : Nat}
    (hget : s.sessions.get sessionId = some i) : Invariant ((s.forgetPeer sessionId).dispose i) := by
  obtain ⟨p, hp, hsession, -⟩ := hs.live sessionId i hget
  refine ⟨fun j q hj hq => ?_, fun sessionId' j hget' => ?_, ?_, fun n c hn j hj => ?_, fun n c hn hclosed j hj q hq => ?_⟩
  · obtain ⟨q', hq', -, -, hself, hother⟩ := getElem?_dispose hj
    have hne : j ≠ i := fun heq => by simp [hself heq] at hq
    have heq := hother hne
    subst heq
    have hgetq := hs.registered j q hq' hq
    -- the entry is another one: it leads to another peer
    have hnes : q.sessionId ≠ sessionId := by
      rintro rfl
      rw [hgetq] at hget
      exact hne (some.inj hget)
    exact (get_delete_of_ne hnes).trans hgetq
  · obtain ⟨hne, hget'⟩ := get_delete_eq_some hget'
    obtain ⟨q, hq, hqs, halive⟩ := hs.live sessionId' j hget'
    have hji : j ≠ i := by
      rintro rfl
      cases hp.symm.trans hq
      exact hne (hqs.symm.trans hsession)
    refine ⟨q, ?_, hqs, halive⟩
    simp [State.dispose, State.forgetPeer, Ne.symm hji, hq]
  · exact (size_delete_le _ _).trans hs.size
  · obtain ⟨q, hq, hqs⟩ := hs.own n c hn j hj
    simp only [State.dispose, State.forgetPeer, getElem?_modify, hq]
    by_cases hji : i = j
    · simp [hji, hqs]
    · simp [hji, hqs]
  · obtain ⟨q', hq', -, hkept, -, -⟩ := getElem?_dispose hq
    exact hkept (hs.closed n c hn hclosed j hj q' hq')

/-- A peer is built for a session that has none. -/
theorem Invariant.build (hs : Invariant s) {n : Nat} {o : Offer} {asks : Bool}
    (hoffer : ∀ c, s.calls[n]? = some c → c.offer = o)
    (hfree : ¬ Expired s o → s.sessions.get o.sessionId = none ∧ s.sessions.size < MAX_CONCURRENT_LOCAL_PEERS ∧
      ∀ c, s.calls[n]? = some c → c.closed = false) : Invariant (build s n o asks) := by
  unfold Sessions.build
  dsimp only
  split
  · exact (hs.goTo n .over).frame rfl rfl rfl
  · obtain ⟨hnone, hroom, hopen⟩ := hfree ‹_›
    have hold : ∀ {j : Nat} {q : Peer} (p : Peer), s.peers[j]? = some q → (s.peers ++ [p])[j]? = some q :=
      fun p hj => (List.getElem?_append_left (List.getElem?_eq_some_iff.mp hj).1).trans hj
    have hcalls : ∀ (m : Nat) c, (s.calls.modify n fun c =>
        { c with phase := .accepting, peer := some s.peers.length })[m]? = some c →
        s.calls[m]? = some c ∨ (c.closed = false ∧ c.offer = o ∧ c.peer = some s.peers.length) := by
      intro m c hm
      obtain ⟨c', hc', rfl⟩ := Slots.of_getElem?_modify hm
      by_cases hnm : n = m
      · subst hnm
        exact .inr (by simp [hoffer c' hc', hopen c' hc'])
      · exact .inl (by simp [hnm, hc'])
    refine ⟨fun j q hj hq => ?_, fun sessionId j hget => ?_, ?_, fun m c hm j hj => ?_,
      fun m c hm hclosed j hj q hq => ?_⟩
    · rcases Slots.of_getElem?_concat hj with hj | ⟨rfl, rfl⟩
      · have hget := hs.registered j q hj hq
        have hne : q.sessionId ≠ o.sessionId := fun heq => by
          rw [heq, hnone] at hget
          cases hget
        exact (get_set_of_ne hne).trans hget
      · exact get_set_self _ _ _
    · by_cases heq : sessionId = o.sessionId
      · subst heq
        rw [get_set_self] at hget
        cases hget
        exact ⟨_, getElem?_concat_length, rfl, rfl⟩
      · rw [get_set_of_ne heq] at hget
        obtain ⟨p, hp, h⟩ := hs.live sessionId j hget
        exact ⟨p, hold _ hp, h⟩
    · exact (size_set_le _ _ _).trans hroom
    · rcases hcalls m c hm with hm | ⟨-, rfl, hpeer⟩
      · obtain ⟨p, hp, h⟩ := hs.own m c hm j hj
        exact ⟨p, hold _ hp, h⟩
      · cases hpeer.symm.trans hj
        exact ⟨_, getElem?_concat_length, rfl⟩
    · rcases hcalls m c hm with hm | ⟨hfalse, -, -⟩
      · obtain ⟨p, hp, -⟩ := hs.own m c hm j hj
        obtain rfl : p = q := some.inj ((hold _ hp).symm.trans hq)
        exact hs.closed m c hm hclosed j hj p hp
      · simp [hfalse] at hclosed

/-- Calls are closed whose session has no live peer. -/
theorem Invariant.markClosed (hs : Invariant s) {sessionId : Str} (hnone : s.sessions.get sessionId = none) :
    Invariant (s.markClosed sessionId) := by
  have hcalls : ∀ (m : Nat) c, (s.markClosed sessionId).calls[m]? = some c → ∃ c', s.calls[m]? = some c' ∧
      c'.offer = c.offer ∧ c'.peer = c.peer ∧ (c.closed → c'.closed ∨ c.offer.sessionId = sessionId) := by
    intro m c hm
    simp only [State.markClosed, getElem?_map, map_eq_some_iff] at hm
    obtain ⟨c', hc', rfl⟩ := hm
    refine ⟨c', hc', ?_⟩
    split
    · rename_i h
      exact ⟨rfl, rfl, fun _ => .inr h.1⟩
    · exact ⟨rfl, rfl, .inl⟩
  refine ⟨hs.registered, hs.live, hs.size, fun m c hm i hi => ?_, fun m c hm hclosed i hi p hp => ?_⟩
  · obtain ⟨c', hc', hoffer, hpeer, -⟩ := hcalls m c hm
    exact hoffer ▸ hs.own m c' hc' i (hpeer.trans hi)
  · obtain ⟨c', hc', hoffer, hpeer, hclosed'⟩ := hcalls m c hm
    rcases hclosed' hclosed with hclosed | hsession
    · exact hs.closed m c' hc' hclosed i (hpeer.trans hi) p hp
    · obtain ⟨q, hq, hqs⟩ := hs.own m c' hc' i (hpeer.trans hi)
      cases hp.symm.trans hq
      by_contra halive
      have hget := hs.registered i p hp (by simpa using halive)
      rw [hqs, hoffer, hsession, hnone] at hget
      cases hget

end Operations

/-! ## Steps -/

theorem refusal_eq_none {s : State} {o : Offer} {policy : Policy} (h : refusal s o policy = none) :
    s.sessions.size < MAX_CONCURRENT_LOCAL_PEERS := by
  by_contra hfull
  simp [refusal, Nat.not_lt.mp hfull] at h

theorem Invariant.passGates {s : State} (hs : Invariant s) {n : Nat} {o : Offer} {policy : Policy}
    (hoffer : ∀ c, s.calls[n]? = some c → c.offer = o)
    (hfree : Builds s o policy → s.sessions.get o.sessionId = none ∧
      ∀ c, s.calls[n]? = some c → c.closed = false) : Invariant (passGates s n o policy) := by
  unfold Sessions.passGates
  split
  · exact (hs.goTo n .over).frame rfl rfl rfl
  · rename_i hrefusal
    split
    · exact hs.goTo n .consenting
    · rename_i hconsent
      refine hs.build hoffer fun hexpired => ?_
      obtain ⟨hnone, hopen⟩ := hfree ⟨hrefusal, hconsent, hexpired⟩
      exact ⟨hnone, refusal_eq_none hrefusal, hopen⟩

/-- The peer is dropped, whatever else the restart forgets. -/
theorem Invariant.restart {s : State} (hs : Invariant s) {n : Nat} {o : Offer} {i : Nat}
    (hget : s.sessions.get o.sessionId = some i) : Invariant (restart s n o i) := by
  unfold Sessions.restart
  dsimp only
  split
  · exact ((hs.drop hget).goTo n _).frame rfl rfl rfl
  · exact ((hs.drop hget).goTo n _).frame rfl rfl rfl

theorem Invariant.onOffer {s : State} (hs : Invariant s) {n : Nat} {o : Offer} {policy : Policy}
    (hcall : ∀ c, s.calls[n]? = some c → c.offer = o ∧ c.closed = false) : Invariant (onOffer s n o policy) := by
  unfold Sessions.onOffer
  split
  · exact hs.goTo n .over
  · split
    · rename_i i hget
      split
      · exact hs.goTo n .over
      · exact hs.restart hget
    · rename_i hget
      exact hs.passGates (fun c hc => (hcall c hc).1) fun _ => ⟨hget, fun c hc => (hcall c hc).2⟩

/-- A close drops the peer and closes the calls. -/
theorem Invariant.onEnd {s : State} (hs : Invariant s) (sessionId : Str) : Invariant (onEnd s sessionId) := by
  have hnote : Invariant ((s.note (.received sessionId)).forgetIce sessionId) := hs.frame rfl rfl rfl
  unfold Sessions.onEnd
  dsimp only
  split
  · rename_i i hget
    have hdrop := (hnote.drop hget).markClosed (get_delete_self _ _)
    exact hdrop.frame rfl rfl rfl
  · rename_i hget
    exact hnote.markClosed hget

/-- Whether no peer loses its entry by the step. -/
def Orderly (s : State) (e : Event) : Prop :=
  match e with
  | .disposed n policy => ∀ c ∈ s.calls[n]?, c.phase = .disposing true → Builds s c.offer policy →
      s.sessions.get c.offer.sessionId = none ∧ c.closed = false
  | .decided n decision => ∀ c ∈ s.calls[n]?, c.phase = .consenting → decision = .approved →
      ¬ Expired s c.offer → s.sessions.get c.offer.sessionId = none ∧
        s.sessions.size < MAX_CONCURRENT_LOCAL_PEERS ∧ c.closed = false
  | .accepted n ok => ∀ c ∈ s.calls[n]?, c.phase = .accepting → ok = true ∨ s.sessions.get c.offer.sessionId = none
  | .teardown i checked _ => ∀ p ∈ s.peers[i]?, (checked && p.disposed) = true ∨ s.sessions.get p.sessionId = none
  | _ => True

instance (s : State) (e : Event) : Decidable (Orderly s e) :=
  match e with
  | .offer _ _ | .ice _ _ | .ended _ | .tick _ => inferInstanceAs (Decidable True)
  | .disposed _ _ | .decided _ _ | .accepted _ _ | .teardown _ _ _ =>
    inferInstanceAs (Decidable (∀ x ∈ _, _))

theorem Invariant.step {s : State} (hs : Invariant s) {e : Event} (he : Orderly s e) : Invariant (step s e) := by
  cases e with
  | offer o policy =>
    refine (hs.start o).onOffer fun c hc => ?_
    obtain rfl : c = ⟨o, .over, none, false⟩ := by simpa using hc.symm
    exact ⟨rfl, rfl⟩
  | disposed n policy =>
    unfold Sessions.step Sessions.onDisposed
    dsimp only
    split
    · rename_i o rebuildable peer closed hn
      split
      · rename_i hrebuildable
        subst hrebuildable
        refine hs.passGates (by simp [hn]) fun hbuilds => ?_
        simpa [hn] using he _ hn rfl hbuilds
      · exact (hs.goTo n .over).frame rfl rfl rfl
    · exact hs
  | decided n decision =>
    unfold Sessions.step Sessions.onDecision
    dsimp only
    split
    · rename_i o peer closed hn
      split
      · rename_i happroved
        have hgranted : Invariant ((s.note (.approved o.sessionId)).grantConsent o.sessionId) := hs.frame rfl rfl rfl
        refine hgranted.build (fun c hc => ?_) fun hexpired => ?_
        · cases hn.symm.trans hc
          rfl
        · obtain ⟨hnone, hroom, hopen⟩ := he _ hn rfl happroved hexpired
          refine ⟨hnone, hroom, fun c hc => ?_⟩
          cases hn.symm.trans hc
          exact hopen
      · exact (hs.goTo n .over).frame rfl rfl rfl
    · exact hs
  | accepted n ok =>
    unfold Sessions.step Sessions.onAccepted
    dsimp only
    split
    · rename_i o peer closed hn
      split
      · exact (hs.goTo n .over).frame rfl rfl rfl
      · rename_i hok
        have hforget := hs.forgetPeer ((he _ hn rfl).resolve_left hok)
        exact (hforget.goTo n .over).frame rfl rfl rfl
    · exact hs
  | ice sessionId ice =>
    have hsweep : Invariant (sweepPendingIce s) := hs.frame rfl rfl rfl
    unfold Sessions.step Sessions.onIce Sessions.rememberEarlyIce
    dsimp only
    split
    · exact hs
    · split
      · exact hs
      · split
        · split
          · exact hsweep
          · exact hsweep.frame rfl rfl rfl
        · split
          · exact hsweep
          · exact hsweep.frame rfl rfl rfl
  | ended sessionId => exact hs.onEnd sessionId
  | teardown i checked reason =>
    unfold Sessions.step Sessions.onTeardown
    dsimp only
    split
    · rename_i p hp
      split
      · exact hs
      · rename_i hrun
        exact (hs.forgetPeer ((he p hp).resolve_left hrun)).frame rfl rfl rfl
    · exact hs
  | tick d => exact hs.frame rfl rfl rfl

theorem Invariant.init : Invariant machine.init where
  registered := by simp [machine]
  live := by simp [machine, OrderedMap.get, OrderedMap.empty]
  size := by simp [machine, OrderedMap.size]
  own := by simp [machine]
  closed := by simp [machine]

theorem always_registered {tr : List Event} (horderly : machine.Guarded Orderly tr) : machine.Always Registered tr :=
  (horderly.always .init fun _ _ hs he => hs.step he).mono fun _ => .of_invariant

/-! ## Two runs -/

def allowed : Policy := ⟨fun _ => true, true⟩

def screenOffer (sdp : Str) : Offer := ⟨text "s-1", sdp, text "rcp.screen", 3600⟩

/-- A screen whose network changes once, and that the backend closes. -/
def closedRun : List Event :=
  [.offer (screenOffer (text "a=ice-ufrag:first")) allowed, .decided 0 .approved, .accepted 0 true,
   .offer (screenOffer (text "a=ice-ufrag:again")) allowed, .disposed 1 allowed, .accepted 1 true,
   .ended (text "s-1")]

theorem always_registered_closedRun : machine.Always Registered closedRun :=
  always_registered (Machine.guarded_iff_guardedFrom.mpr (by decide +kernel))

/-- The offer is sent again while the user is asked: both prompts are answered. -/
def askedTwice : List Event :=
  [.offer (screenOffer (text "a=ice-ufrag:first")) allowed, .offer (screenOffer (text "a=ice-ufrag:first")) allowed,
   .decided 0 .approved, .decided 1 .approved]

/-- Two screens are captured, and one of them is not in the map. -/
theorem not_always_registered_askedTwice : ¬ machine.Always Registered askedTwice := by
  intro h
  have hunique := h.last.unique 0 1 ⟨text "s-1", text "rcp.screen", 3600000, false⟩
    ⟨text "s-1", text "rcp.screen", 3600000, false⟩ (by decide) (by decide) rfl rfl rfl
  cases hunique

end Rcp.Sessions
