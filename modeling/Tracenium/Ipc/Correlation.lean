-- SUMMARY: Responses reach the calls they answer, on both platforms, as long as ids are not reused.
import Tracenium.Ipc.LinuxClient
import Tracenium.Ipc.LaneDiscipline

/-!
The agent reuses ids, and so the late response to a call that timed out resolves the call that was made in its place.
-/

open Utf16 List OrderedMap Prod

namespace Ipc

open World Windows Linux

namespace Windows

/-- Every promise is settled at most once, and in the end by the timers. A call that resolves does
so with its own response, and until then it waits in the queue or its slot is its own. -/
structure Correlated (c : Config) (s : Lane) : Prop where
  once : (s.outcomes.map fst).Nodup
  settles : ∀ n < s.requests.length, s.isSettled n = false → ∃ fired : List (Nat × Nat),
    ((machine c).exec s (fired.map fun t => .timer t.1 t.2)).isSettled n = true
  own : ∀ n m, (n, .resolved m) ∈ s.outcomes → m = n
  slot : ∀ n < s.requests.length, s.isSettled n = false → n ∈ s.queue ∨ (s.idOf n, n) ∈ s.pending.entries

/-- A response to the call may come, now or after it is written. -/
def Active (s : Lane) (n : Nat) : Prop := n ∈ s.queue ∨ s.expects n = true

/-- A call takes an id for which no response may come any more. -/
def FreshId (s : Lane) : Event → Prop
  | .call req randomUUID =>
    ∀ n, Active s n → s.idOf n ≠ if req.id = [] then randomUUID else req.id
  | _ => True

/-- Calls are resolved with their own responses, and the ids tell those apart to which a response
may come. -/
structure Apart (s : Lane) : Prop where
  own : ∀ n m, (n, .resolved m) ∈ s.outcomes → m = n
  apart : ∀ n m, Active s n → Active s m → s.idOf n = s.idOf m → n = m

/-- The responses to the pending calls may come. -/
def Awaited (s : Lane) : Prop := ∀ e ∈ s.pending.entries, s.expects e.2 = true

structure Consistent (s : Lane) : Prop extends Settled s, Apart s where
  awaited : Awaited s

section Moves

variable {s t : Lane} {p : Prop}

theorem Sound.lt_of_active (h : Sound s) {n : Nat} (hn : Active s n) : n < s.requests.length := by
  rcases hn with hn | hn
  · exact (h.queue n hn).1
  · obtain ⟨⟨k, hk, -⟩, -⟩ := expects_iff.mp hn
    exact (h.sent n k hk).1

theorem own_rejected (h : Apart s) (k : Nat) (error : Str) :
    ∀ n m, (n, .resolved m) ∈ s.outcomes ++ [(k, .rejected error)] → m = n := by
  intro n m hmem
  rcases mem_append.mp hmem with hmem | hmem
  · exact h.own n m hmem
  · cases (mk.inj (mem_singleton.mp hmem)).2

theorem Apart.move (h : Apart s) (hmove : Move p s t) : Apart t := by
  have hactive (n : Nat) (hn : Active t n) : Active s n := by
    cases hmove with
    | drop hqueue error =>
      exact hn.imp_left fun hn => hqueue ▸ mem_cons_of_mem _ hn
    | write hmay hqueue hfree hk =>
      rename_i m k queue
      rcases hn with hn | hn
      · exact .inl (hqueue ▸ mem_cons_of_mem _ hn)
      · obtain ⟨⟨j, hj, halive⟩, hnot⟩ := expects_iff.mp hn
        rcases mem_append.mp hj with hj | hj
        · exact .inr (expects_iff.mpr ⟨⟨j, hj, halive⟩, hnot⟩)
        · rw [(mk.inj (mem_singleton.mp hj)).1]
          exact .inl (hqueue ▸ mem_cons_self)
    | leave hpending error => exact hn
  refine ⟨?_, fun n m hn hm hid => ?_⟩
  · cases hmove with
    | drop hqueue error => exact own_rejected h _ error
    | write hmay hqueue hfree hk => exact h.own
    | leave hpending error => exact own_rejected h _ error
  · rw [hmove.frame.idOf, hmove.frame.idOf] at hid
    exact h.apart n m (hactive n hn) (hactive m hm) hid

/-- A call is pending when it is written, and then its response may come. -/
theorem Awaited.move (h : Awaited s) (hs : Sound s) (hmove : Move p s t) : Awaited t := by
  intro e he
  cases hmove with
  | drop hqueue error => exact h e he
  | write hmay hqueue hfree hk =>
    rename_i n k queue
    have hentries : (empty.set (s.idOf n) n).entries = [(s.idOf n, n)] := set_of_empty rfl _ _
    replace he : e ∈ (empty.set (s.idOf n) n).entries := he
    rw [mem_singleton.mp he]
    refine expects_iff.mpr ⟨⟨k, mem_append_right _ (mem_singleton_self _), alive_of_writable hk⟩, fun hn => ?_⟩
    exact hs.not_sent (hqueue ▸ mem_cons_self) (hs.answered n hn)
  | leave hpending error => cases he

theorem Apart.moves (h : Apart s) (hmoves : Moves p s t) : Apart t := hmoves.keep (fun _ _ h hmove => h.move hmove) h

theorem Awaited.moves (h : Awaited s) (hs : Sound s) (hmoves : Moves p s t) : Awaited t := by
  have hkeep : Sound t ∧ Awaited t := hmoves.keep (P := fun t => Sound t ∧ Awaited t)
    (fun _ _ h hmove => ⟨h.1.move hmove, h.2.move h.1 hmove⟩) ⟨hs, h⟩
  exact hkeep.2

/-- Losing sockets only makes fewer responses come. -/
theorem Lost.apart (hlost : Lost s t) (h : Apart s) : Apart t := by
  have hactive (n : Nat) (hn : Active t n) : Active s n := by
    rcases hn with hn | hn
    · exact .inl (hlost.queue ▸ hn)
    · exact .inr (expects_mono s.toWorld t.toWorld hlost.sent hlost.alive
        (hlost.answered ▸ Subset.refl _) hn)
  have hid (n : Nat) : t.idOf n = s.idOf n := by rw [idOf, idOf, hlost.requests]
  refine ⟨?_, fun n m hn hm hnm => ?_⟩
  · rw [hlost.outcomes]
    exact h.own
  · rw [hid, hid] at hnm
    exact h.apart n m (hactive n hn) (hactive m hm) hnm

end Moves

/-! ## Events -/

section Events

variable {s : Lane}

/-- What happens to sockets matters only for the responses that may come. -/
theorem Consistent.withSockets (h : Consistent s) {sockets : List Socket}
    (hlength : s.sockets.length ≤ sockets.length)
    (halive : ∀ k < s.sockets.length, { s.toWorld with sockets := sockets }.alive k = s.alive k)
    (socket : Option Nat) (closedByClient : Bool) :
    Consistent { s with
      sockets := sockets, socket := socket, closedByClient := closedByClient } := by
  have hexpects (n : Nat) : { s.toWorld with sockets := sockets }.expects n = s.expects n := by
    rw [Bool.eq_iff_iff, expects_iff, expects_iff]
    refine and_congr_left fun _ => exists_congr fun k => and_congr_right fun hk => ?_
    rw [halive k (h.sent n k hk).2]
  have hactive (n : Nat) (hn : n ∈ s.queue ∨
      { s.toWorld with sockets := sockets }.expects n) : Active s n := by
    rwa [hexpects] at hn
  exact ⟨h.toSettled.withSockets hlength socket closedByClient,
    ⟨h.own, fun n m hn hm hid => h.apart n m (hactive n hn) (hactive m hm) hid⟩,
    fun e he => (hexpects e.2).trans (h.awaited e he)⟩

/-- A call is added, with the queue ending in it or not. -/
theorem Consistent.active_add (h : Consistent s) (req : Request) {n : Nat}
    (hn : n ∈ s.queue ∨ (s.add req).expects n) : Active s n ∧ (s.add req).idOf n = s.idOf n := by
  have hactive : Active s n := hn
  exact ⟨hactive, idOf_add_of_lt (h.lt_of_active hactive) req⟩

theorem Consistent.refuse (h : Consistent s) (req : Request) (error : Str) : Consistent (s.refuse req error) := by
  refine ⟨h.toSettled.refuse req error, ⟨own_rejected h.toApart _ error, fun n m hn hm hid => ?_⟩, h.awaited⟩
  obtain ⟨hn, hidn⟩ := h.active_add req hn
  obtain ⟨hm, hidm⟩ := h.active_add req hm
  exact h.apart n m hn hm (hidn.symm.trans (hid.trans hidm))

/-- A call with a fresh id joins the queue. -/
theorem Consistent.apart_enqueue (h : Consistent s) {req : Request}
    (hfresh : ∀ n, Active s n → s.idOf n ≠ req.id) : Apart (s.enqueue req) := by
  have hactive (n : Nat) (hn : Active (s.enqueue req) n) :
      Active s n ∧ (s.add req).idOf n = s.idOf n ∨ n = s.requests.length := by
    rcases hn with hn | hn
    · rcases mem_append.mp hn with hn | hn
      · exact .inl (h.active_add req (.inl hn))
      · exact .inr (mem_singleton.mp hn)
    · exact .inl (h.active_add req (.inr hn))
  refine ⟨h.own, fun n m hn hm hid => ?_⟩
  replace hid : (s.add req).idOf n = (s.add req).idOf m := hid
  rcases hactive n hn with ⟨hn, hidn⟩ | rfl <;> rcases hactive m hm with ⟨hm, hidm⟩ | rfl
  · exact h.apart n m hn hm (hidn.symm.trans (hid.trans hidm))
  · rw [hidn, idOf_add_length] at hid
    exact absurd hid (hfresh n hn)
  · rw [hidm, idOf_add_length] at hid
    exact absurd hid.symm (hfresh m hm)
  · rfl

theorem Consistent.call (h : Consistent s) (writeError : Str) {req : Request} {randomUUID : Str}
    (hfresh : FreshId s (.call req randomUUID)) : Consistent (s.call writeError req randomUUID) := by
  rw [Lane.call]
  split
  · exact h.refuse req _
  · have hapart : Apart (s.enqueue { req with
        id := if req.id = [] then randomUUID else req.id }) := h.apart_enqueue hfresh
    obtain ⟨hmoves, hsettled⟩ := h.toSettled.enqueue
      { req with id := if req.id = [] then randomUUID else req.id } writeError
    have hawaited : Awaited (s.enqueue { req with
        id := if req.id = [] then randomUUID else req.id }) := h.awaited
    exact ⟨hsettled, hapart.moves hmoves, hawaited.moves (h.toSound.enqueue _).1 hmoves⟩

/-- A call leaves the lane with a response of its own or none. -/
theorem Consistent.settlePending (hs : Sound s) (h : Apart s) {n : Nat} (hbusy : Busy s n)
    (writeError : Str) {o : Outcome} (ho : ∀ m, o = .resolved m → m = n) :
    Consistent (s.settlePending writeError (s.idOf n) n o) := by
  obtain ⟨hmoves, hsettled⟩ := Settled.settlePending hs hbusy writeError o
  have hleave : Apart (s.leave n o) := by
    refine ⟨fun k m hm => ?_, h.apart⟩
    rcases mem_append.mp hm with hm | hm
    · exact h.own k m hm
    · obtain ⟨rfl, rfl⟩ := mk.inj (mem_singleton.mp hm)
      exact ho m rfl
  have hempty : Awaited (s.leave n o) := nofun
  exact ⟨hsettled, hleave.moves hmoves, hempty.moves (hs.leave hbusy o) hmoves⟩

/-- The response to a call settles that call or none. -/
theorem Consistent.response (h : Consistent s) (writeError : Str) (n : Nat) :
    Consistent (s.response writeError n) := by
  rw [Lane.response]
  split
  · rename_i hexpects
    obtain ⟨hsound, hanswer⟩ := h.toSound.answer hexpects
    have hmono (m : Nat) (hm : (s.answer n).expects m) : s.expects m :=
      expects_mono s.toWorld (s.answer n) rfl (fun _ => id) (subset_append_left _ _) hm
    have hapart : Apart { s with toWorld := s.answer n } :=
      ⟨h.own, fun k m hk hm => h.apart k m (hk.imp_right (hmono k)) (hm.imp_right (hmono m))⟩
    dsimp only
    split
    · rename_i m hm
      have hpending := get_eq_some_iff.mp hm
      have hbusy := h.toSound.busy hpending
      have hid : s.idOf n = s.idOf m := by
        have hmem := hpending
        rw [hbusy.pending] at hmem
        exact (mk.inj (mem_singleton.mp hmem)).1
      obtain rfl : n = m := h.apart n m (.inr hexpects) (.inr (h.awaited _ hpending)) hid
      exact Consistent.settlePending hsound hapart (hanswer n hbusy) writeError
        fun _ ho => by cases ho; rfl
    · rename_i hnone
      refine ⟨⟨hsound, fun hfree => h.waiting ⟨hfree.inFlight, hfree.pending, hfree.timers⟩⟩, hapart, fun e he => ?_⟩
      obtain ⟨halive, hnot⟩ := expects_iff.mp (h.awaited e he)
      refine expects_iff.mpr ⟨halive, fun hmem => ?_⟩
      rcases mem_append.mp hmem with hmem | hmem
      · exact hnot hmem
      · -- the call whose response came in would have been found
        have hbusy := h.toSound.busy (i := e.1) (n := e.2) he
        refine get_eq_none_iff.mp hnone n ?_
        rw [← mem_singleton.mp hmem]
        show (s.idOf e.2, e.2) ∈ s.pending.entries
        rw [hbusy.pending]
        exact mem_singleton_self _
  · exact h

theorem Consistent.event (h : Consistent s) (c : Config) {e : Event} (he : FreshId s e) :
    Consistent (step c s e) := by
  have htear (htears : e.tears) : Consistent (step c s e) := by
    obtain ⟨s₀, t₀, hlost, hmoves, hfree, -, hlost', -⟩ :=
      h.toSettled.tear c htears (p := True) fun _ _ _ _ _ => trivial
    refine ⟨h.toSettled.event c e, hlost'.apart ((hlost.apart h.toApart).moves hmoves), ?_⟩
    intro i hi
    rw [hlost'.pending, hfree.pending] at hi
    cases hi
  cases e with
  | connect =>
    refine h.withSockets ?_ (fun k hk => alive_connect_of_lt hk) _ _
    rw [length_append]
    exact Nat.le_add_right _ _
  | call req randomUUID => exact h.call c.writeError he
  | refuse req error => exact h.refuse req error
  | response n => exact h.response c.writeError n
  | timer n waitedMs =>
    rw [step, Lane.timer]
    split
    · rename_i hn
      exact Consistent.settlePending h.toSound h.toApart (h.busy_of_timer hn) c.writeError
        fun _ ho => by cases ho
    · exact h
  | ended k =>
    have halive := alive_endSocket (w := s.toWorld) k
    rw [step, endSocket]
    rw [endSocket] at halive
    split
    · rename_i hk
      rw [if_pos hk] at halive
      exact h.withSockets (Nat.le_of_eq length_set.symm) (fun j _ => halive j) _ _
    · exact h
  | error k errMessage => exact htear rfl
  | closed k => exact htear rfl
  | close => exact htear rfl

theorem Consistent.correlated (h : Consistent s) (c : Config) : Correlated c s where
  once := h.once
  settles := fun _ hn hopen => h.toSettled.settles c hn hopen
  own := h.own
  slot := fun n hn hopen => (h.rest n hn hopen).imp_right fun hbusy => by
    rw [hbusy.pending]
    exact mem_singleton_self _

end Events

/-- In a run of a lane whose calls take fresh ids, all calls are correlated with their
responses. -/
theorem always_correlated {c : Config} {tr : List Event} (h : (machine c).Guarded FreshId tr) :
    (machine c).Always (Correlated c) tr := by
  have hstart : Consistent (machine c).init :=
    ⟨settled_start c.name, ⟨nofun, fun n m hn => by rcases hn with hn | hn <;> cases hn⟩, nofun⟩
  exact (h.always hstart fun s e hs he => hs.event c he).mono fun s hs => hs.correlated c

end Windows

/-! ## Both clients -/

/-- Where every call takes an id for which no response may come any more, every response is
delivered to the call it answers, in every run of the Linux client and of a Windows lane. -/
theorem always_correlated_of_freshIds {timeoutOf : Str → Nat} {c : Config}
    {tr : List Linux.Event} {tr' : List Windows.Event} (h : (machine timeoutOf).Guarded FreshId tr)
    (h' : (machine c).Guarded FreshId tr') : (machine timeoutOf).Always (Correlated timeoutOf) tr ∧
      (machine c).Always (Correlated c) tr' :=
  ⟨always_correlated h, always_correlated h'⟩

def grpcConnect : Request := ⟨text "grpc-connect", text "grpc.connect", true⟩

/-- A request that is answered, and one with the same id after it. -/
theorem always_correlated_reconnect :
    let timeoutOf : Str → Nat := fun _ => 60000
    let c : Windows.Config := ⟨[], timeoutOf, []⟩
    (machine timeoutOf).Always (Correlated timeoutOf)
        [.connect, .call grpcConnect [] [], .response 0, .call grpcConnect [] []] ∧
      (machine c).Always (Correlated c)
        [.connect, .call grpcConnect [], .response 0, .call grpcConnect []] := by
  intro timeoutOf c
  have hlinux (n : Nat) (hn : ((machine timeoutOf).run
      [.connect, .call grpcConnect [] [], .response 0]).expects n) : False := by
    obtain ⟨⟨k, hk, -⟩, hnot⟩ := expects_iff.mp hn
    obtain ⟨rfl, -⟩ := mk.inj (mem_singleton.mp hk)
    exact hnot (by decide)
  have hwindows (n : Nat) (hn : Active ((machine c).run
      [.connect, .call grpcConnect [], .response 0]) n) : False := by
    rcases hn with hn | hn
    · cases hn
    · obtain ⟨⟨k, hk, -⟩, hnot⟩ := expects_iff.mp hn
      obtain ⟨rfl, -⟩ := mk.inj (mem_singleton.mp hk)
      exact hnot (by decide)
  refine always_correlated_of_freshIds (Machine.guarded_iff_guardedFrom.mpr ?_)
    (Machine.guarded_iff_guardedFrom.mpr ?_)
  · exact ⟨trivial, nofun, trivial, fun n hn => (hlinux n hn).elim, trivial⟩
  · refine ⟨trivial, ⟨fun n hn => ?_, trivial, fun n hn => (hwindows n hn).elim, trivial⟩⟩
    rcases hn with hn | hn <;> cases hn

/-- A request times out and is made again under its id, and then its first response comes in: it
resolves the second promise. -/
theorem not_always_correlated_late :
    let timeoutOf : Str → Nat := fun _ => 60000
    let c : Config := ⟨[], timeoutOf, []⟩
    ¬ (machine timeoutOf).Always (Correlated timeoutOf)
        [.connect, .call grpcConnect [] [], .timer 0, .call grpcConnect [] [], .response 0] ∧
      ¬ (machine c).Always (Correlated c)
        [.connect, .call grpcConnect [], .timer 0 0, .call grpcConnect [], .response 0] := by
  intro timeoutOf c
  refine ⟨fun h => ?_, fun h => ?_⟩
  · exact absurd (h.last.own 1 0 (by decide)) (by decide)
  · exact absurd (h.last.own 1 0 (by decide)) (by decide)

end Ipc
