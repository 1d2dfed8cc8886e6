-- SUMMARY: The Linux IPC client: calls correlated by their ids, and when the responses reach them.
import Tracenium.Ipc.Calls

/-!
`PrivSvcClient` of `src/priv/privsvc-client-linux.ts`. Any number of calls may be under way; a
response goes to the pending call with its id. A call begins here when `ensureConnected` returns;
`refuse` is one for which it throws.
-/

open Utf16 List OrderedMap Nat Prod

namespace Ipc.Linux

open World

def MAX_PENDING : Nat := 500

/-- The client: its socket, the pending calls by their ids, and the calls whose timers are armed. -/
structure Caller extends World where
  socket : Option Nat
  pending : OrderedMap Str Nat
  timers : List Nat
  closedByClient : Bool

def Caller.start : Caller := ⟨.start, none, .empty, [], false⟩

namespace Caller

def finish (s : Caller) (n : Nat) (o : Outcome) : Caller :=
  { s with toWorld := s.settle n o, timers := s.timers.filter (· ≠ n) }

/-- A call whose promise is rejected at once, with an id of its own. -/
def refuse (s : Caller) (req : Request) (error : Str) : Caller :=
  { s with toWorld := (s.add req).settle s.requests.length (.rejected error) }

/-- `call`. The error of `JSON.stringify` or `write` is `writeError`. -/
def call (s : Caller) (req : Request) (randomUUID writeError : Str) : Caller :=
  if s.pending.size ≥ MAX_PENDING then
    s.refuse req
      (text "PrivSvc pending requests overflow (" ++ Json.decimal MAX_PENDING ++ text ")")
  else
    let req := { req with id := if req.id = [] then randomUUID else req.id }
    let n := s.requests.length
    let s :=
      { s with
        toWorld := s.add req
        timers := s.timers ++ [n]
        pending := s.pending.set req.id n }
    match s.writable s.socket with
    | none =>
      { s with pending := s.pending.delete req.id }.finish n
        (.rejected (text "PrivSvc socket not available"))
    | some k =>
      if req.serializable then { s with toWorld := s.send n k }
      else { s with pending := s.pending.delete req.id }.finish n (.rejected writeError)

def timer (timeoutOf : Str → Nat) (s : Caller) (n : Nat) : Caller :=
  if n ∈ s.timers then
    { s with pending := s.pending.delete (s.idOf n) }.finish n
      (.rejected (text "PrivSvc timeout: " ++ s.methodOf n ++ text " did not answer within " ++
        Json.decimal (timeoutOf (s.methodOf n)) ++ text "ms"))
  else s

def response (s : Caller) (n : Nat) : Caller :=
  if s.expects n then
    let s := { s with toWorld := s.answer n }
    match s.pending.get (s.idOf n) with
    | some m => { s with pending := s.pending.delete (s.idOf n) }.finish m (.resolved n)
    | none => s
  else s

def rejectPending (s : Caller) (error : Str → Str) : Caller :=
  { s with
    pending := .empty
    timers := s.timers.filter fun n => n ∉ s.pending.entries.map snd
    toWorld :=
      { s.toWorld with
        outcomes := s.outcomes ++ s.pending.entries.map fun e => (e.2, .rejected (error e.1)) } }

/-- The error that a pending call is rejected with when the socket fails. -/
def socketError (errMessage id : Str) : Str :=
  if errMessage = [] then text "PrivSvc socket error (" ++ id ++ text ")" else errMessage

def onSocketError (s : Caller) (errMessage : Str) : Caller :=
  let sock := s.socket
  let s := { s with socket := none }.rejectPending (socketError errMessage)
  { s with toWorld := s.destroySocket sock }

def onSocketClose (s : Caller) : Caller :=
  { s.rejectPending fun id => text "PrivSvc connection closed (" ++ id ++ text ")" with
    socket := none }

def close (s : Caller) : Caller :=
  let s := { s with closedByClient := true }.rejectPending fun id =>
    text "PrivSvc client closed (" ++ id ++ text ")"
  { s with toWorld := s.destroySocket s.socket, socket := none }

end Caller

/-! ## Runs -/

/-- A socket is connected, a call is made or refused, or something happens to a call, a socket or
the client. Node destroys a socket on its error, and it is gone when it is closed. -/
inductive Event
  | connect
  | call (req : Request) (randomUUID writeError : Str)
  | refuse (req : Request) (error : Str)
  | response (n : Nat)
  | timer (n : Nat)
  | ended (k : Nat)
  | error (k : Nat) (errMessage : Str)
  | overflow
  | closed (k : Nat)
  | close

def step (timeoutOf : Str → Nat) (s : Caller) : Event → Caller
  | .connect =>
    { s with toWorld := s.toWorld.connect, socket := some s.sockets.length, closedByClient := false }
  | .call req randomUUID writeError => s.call req randomUUID writeError
  | .refuse req error => s.refuse req error
  | .response n => s.response n
  | .timer n => s.timer timeoutOf n
  | .ended k => { s with toWorld := s.endSocket k }
  | .error k errMessage => { s with toWorld := s.destroy k }.onSocketError errMessage
  | .overflow => s.onSocketError (text "PrivSvc buffer overflow")
  | .closed k => { s with toWorld := s.destroy k }.onSocketClose
  | .close => s.close

def machine (timeoutOf : Str → Nat) : Machine Caller Event where
  init := .start
  step := step timeoutOf

/-! ## Correlation -/

/-- Every promise is settled at most once, and its timer settles it at the latest. A call that
resolves does so with its own response, and until then its slot is its own. -/
structure Correlated (timeoutOf : Str → Nat) (s : Caller) : Prop where
  once : (s.outcomes.map fst).Nodup
  settles : ∀ n < s.requests.length, (step timeoutOf s (.timer n)).isSettled n = true
  own : ∀ n m, (n, .resolved m) ∈ s.outcomes → m = n
  slot : ∀ n < s.requests.length, s.isSettled n = false → (s.idOf n, n) ∈ s.pending.entries

/-- A call takes an id for which no response may come any more. -/
def FreshId (s : Caller) : Event → Prop
  | .call req randomUUID _ =>
    ∀ n, s.expects n = true → s.idOf n ≠ if req.id = [] then randomUUID else req.id
  | _ => True

/-- The calls that are not settled are those whose timers are armed and those in the slots of their
ids, and they have ids of their own among all calls whose responses may come. -/
structure Consistent (s : Caller) : Prop where
  once : (s.outcomes.map fst).Nodup
  settled : ∀ n, s.isSettled n = true → n < s.requests.length
  own : ∀ n m, (n, .resolved m) ∈ s.outcomes → m = n
  pending : ∀ i n, (i, n) ∈ s.pending.entries ↔ n < s.requests.length ∧ s.isSettled n = false ∧ i = s.idOf n
  timers : ∀ n, n ∈ s.timers ↔ n < s.requests.length ∧ s.isSettled n = false
  sent : ∀ n k, (n, k) ∈ s.sent → n < s.requests.length ∧ k < s.sockets.length
  answered : ∀ n ∈ s.answered, n < s.requests.length
  expects : ∀ n < s.requests.length, s.isSettled n = false → s.expects n = true
  apart : ∀ n m, s.expects n = true → s.expects m = true → s.idOf n = s.idOf m → n = m

section Steps

variable {s : Caller}

/-- A call is settled, after the server has answered it or not. -/
theorem Consistent.finish (h : Consistent s) {n : Nat} (hn : n < s.requests.length)
    (hopen : s.isSettled n = false) {o : Outcome} (ho : ∀ m, o = .resolved m → m = n)
    {answered : List Nat} (hanswered : answered = s.answered ∨ answered = s.answered ++ [n]) : Consistent ({ s with
      answered := answered
      pending := s.pending.delete (s.idOf n) }.finish n o) := by
  have hopen' (m : Nat) : (s.settle n o).isSettled m = false ↔ s.isSettled m = false ∧ m ≠ n :=
    isSettled_settle_eq_false
  have hsub : s.answered ⊆ answered := by
    rcases hanswered with rfl | rfl
    · exact Subset.refl _
    · exact subset_append_left _ _
  have hmono (m : Nat) (hm : { s.toWorld with answered := answered }.expects m) :
      s.expects m :=
    expects_mono s.toWorld { s.toWorld with answered := answered } rfl (fun _ => id) hsub hm
  refine ⟨nodup_settle h.once hopen o, fun m hm => ?_, fun m m' hm => ?_, fun i m => ?_,
    fun m => ?_, h.sent, fun m hm => ?_, fun m hm hmopen => ?_, fun m m' hm hm' => ?_⟩
  · rcases isSettled_settle.mp hm with hm | rfl
    · exact h.settled m hm
    · exact hn
  · rcases mem_append.mp hm with hm | hm
    · exact h.own m m' hm
    · obtain ⟨rfl, rfl⟩ := mk.inj (mem_singleton.mp hm)
      exact ho m' rfl
  · constructor
    · intro hmem
      obtain ⟨hmem, hkey⟩ := mem_delete.mp hmem
      obtain ⟨hm, hmopen, rfl⟩ := (h.pending i m).mp hmem
      exact ⟨hm, (hopen' m).mpr ⟨hmopen, fun hne => hkey (by rw [hne])⟩, rfl⟩
    · rintro ⟨hm, hmopen, rfl⟩
      obtain ⟨hmopen, hne⟩ := (hopen' m).mp hmopen
      refine mem_delete.mpr ⟨(h.pending _ m).mpr ⟨hm, hmopen, rfl⟩, fun hkey => ?_⟩
      exact hne (h.apart m n (h.expects m hm hmopen) (h.expects n hn hopen) hkey)
  · show m ∈ s.timers.filter (· ≠ n) ↔ m < s.requests.length ∧ (s.settle n o).isSettled m = false
    rw [mem_filter, h.timers, hopen', decide_eq_true_eq, and_assoc]
  · rcases hanswered with rfl | rfl
    · exact h.answered m hm
    · rcases mem_append.mp hm with hm | hm
      · exact h.answered m hm
      · rw [mem_singleton.mp hm]
        exact hn
  · obtain ⟨hmopen, hne⟩ := (hopen' m).mp hmopen
    obtain ⟨halive, hnot⟩ := expects_iff.mp (h.expects m hm hmopen)
    refine expects_iff.mpr ⟨halive, ?_⟩
    rcases hanswered with rfl | rfl
    · exact hnot
    · have hnot' : m ∉ s.answered ++ [n] := by
        rw [mem_append, mem_singleton, not_or]
        exact ⟨hnot, hne⟩
      exact hnot'
  · exact h.apart m m' (hmono m hm) (hmono m' hm')

/-- All pending calls are rejected, and sockets may be destroyed. -/
theorem Consistent.rejectPending (h : Consistent s) (error : Str → Str) {sockets : List Socket}
    (hlength : sockets.length = s.sockets.length)
    (halive : ∀ k, { s.toWorld with sockets := sockets }.alive k → s.alive k)
    (socket : Option Nat) (closedByClient : Bool) :
    Consistent { s.rejectPending error with
      sockets := sockets, socket := socket, closedByClient := closedByClient } := by
  have hkeys : (s.rejectPending error).outcomes.map fst =
      s.outcomes.map fst ++ s.pending.entries.map snd := by
    simp [Caller.rejectPending, Function.comp_def]
  have hmem (n : Nat) : n ∈ s.pending.entries.map snd ↔
      n < s.requests.length ∧ s.isSettled n = false := by
    constructor
    · intro hn
      obtain ⟨⟨i, m⟩, hmem, rfl⟩ := mem_map.mp hn
      obtain ⟨hlt, hopen, -⟩ := (h.pending i m).mp hmem
      exact ⟨hlt, hopen⟩
    · rintro ⟨hlt, hopen⟩
      exact mem_map.mpr ⟨(s.idOf n, n), (h.pending _ n).mpr ⟨hlt, hopen, rfl⟩, rfl⟩
  have hsettled (n : Nat) : (s.rejectPending error).isSettled n ↔ n < s.requests.length := by
    rw [isSettled_iff, hkeys, mem_append, hmem, ← isSettled_iff]
    constructor
    · rintro (hn | hn)
      · exact h.settled n hn
      · exact hn.1
    · intro hn
      cases hopen : s.isSettled n with
      | true => exact .inl rfl
      | false => exact .inr ⟨hn, rfl⟩
  have hclosed (n : Nat) :
      ¬ (n < s.requests.length ∧ (s.rejectPending error).isSettled n = false) := by
    rintro ⟨hn, hopen⟩
    rw [(hsettled n).mpr hn] at hopen
    cases hopen
  have hmono (n : Nat) (hn : { s.toWorld with sockets := sockets }.expects n) :
      s.expects n :=
    expects_mono s.toWorld { s.toWorld with sockets := sockets } rfl halive
      (Subset.refl _) hn
  refine ⟨?_, fun n hn => (hsettled n).mp hn, fun n m hn => ?_, fun i n => ?_, fun n => ?_,
    fun n k hn => ?_, h.answered, fun n hn hopen => absurd ⟨hn, hopen⟩ (hclosed n),
    fun n m hn hm => h.apart n m (hmono n hn) (hmono m hm)⟩
  · show ((s.rejectPending error).outcomes.map fst).Nodup
    rw [hkeys]
    refine nodup_append.mpr ⟨h.once, ?_, ?_⟩
    · refine Nodup.map_on ?_ (Nodup.of_map _ s.pending.nodup)
      rintro ⟨i, n⟩ hi ⟨j, m⟩ hj rfl
      rw [((h.pending i n).mp hi).2.2, ((h.pending j n).mp hj).2.2]
    · intro n hn m hm
      rintro rfl
      exact isSettled_eq_false_iff.mp ((hmem n).mp hm).2 hn
  · rcases mem_append.mp hn with hn | hn
    · exact h.own n m hn
    · obtain ⟨e, -, he⟩ := mem_map.mp hn
      cases (mk.inj he).2
  · exact iff_of_false (not_mem_nil) fun hn => hclosed n ⟨hn.1, hn.2.1⟩
  · refine iff_of_false (fun hn => ?_) (hclosed n)
    obtain ⟨htimer, hnot⟩ := mem_filter.mp hn
    rw [decide_eq_true_eq, hmem] at hnot
    exact hnot ((h.timers n).mp htimer)
  · obtain ⟨hlt, hk⟩ := h.sent n k hn
    exact ⟨hlt, hlength ▸ hk⟩

theorem Consistent.lt_of_expects (h : Consistent s) {n : Nat} (hn : s.expects n) : n < s.requests.length := by
  obtain ⟨⟨k, hk, -⟩, -⟩ := expects_iff.mp hn
  exact (h.sent n k hk).1

/-- A call is made and rejected at once. -/
theorem Consistent.addRejected (h : Consistent s) (req : Request) (error : Str)
    {pending : OrderedMap Str Nat} {timers : List Nat} (hpending : ∀ e, e ∈ pending.entries ↔ e ∈ s.pending.entries)
    (htimers : ∀ n, n ∈ timers ↔ n ∈ s.timers) : Consistent { s with
      toWorld := (s.add req).settle s.requests.length (.rejected error)
      pending := pending
      timers := timers } := by
  have hlength : (s.add req).requests.length = s.requests.length + 1 := by
    simp [add]
  have hfresh : s.isSettled s.requests.length = false := by
    cases hn : s.isSettled s.requests.length with
    | false => rfl
    | true => exact absurd (h.settled _ hn) (lt_irrefl _)
  have hopen (n : Nat) : n < (s.add req).requests.length ∧
      ((s.add req).settle s.requests.length (.rejected error)).isSettled n = false ↔
      n < s.requests.length ∧ s.isSettled n = false := by
    rw [isSettled_settle_eq_false, hlength]
    constructor
    · rintro ⟨hn, hopen, hne⟩
      exact ⟨by omega, hopen⟩
    · rintro ⟨hn, hopen⟩
      exact ⟨by omega, hopen, by omega⟩
  refine ⟨nodup_settle h.once hfresh _, fun n hn => ?_, fun n m hn => ?_,
    fun i n => ?_, fun n => ?_, fun n k hn => ?_, fun n hn => ?_, fun n hn hnopen => ?_,
    fun n m hn hm hid => ?_⟩
  · show n < (s.add req).requests.length
    rw [hlength]
    rcases isSettled_settle.mp hn with hn | rfl
    · exact lt_succ_of_lt (h.settled n hn)
    · exact lt_succ_self _
  · rcases mem_append.mp hn with hn | hn
    · exact h.own n m hn
    · cases (mk.inj (mem_singleton.mp hn)).2
  · rw [hpending, h.pending, ← and_assoc, ← and_assoc, ← hopen]
    refine and_congr_right fun hn => ?_
    show i = s.idOf n ↔ i = (s.add req).idOf n
    rw [idOf_add_of_lt ((hopen n).mp hn).1]
  · rw [htimers, h.timers]
    exact (hopen n).symm
  · obtain ⟨hlt, hk⟩ := h.sent n k hn
    exact ⟨hlength ▸ lt_succ_of_lt hlt, hk⟩
  · exact hlength ▸ lt_succ_of_lt (h.answered n hn)
  · obtain ⟨hlt, hn⟩ := (hopen n).mp ⟨hn, hnopen⟩
    exact h.expects n hlt hn
  · refine h.apart n m hn hm ?_
    rw [← idOf_add_of_lt (h.lt_of_expects hn) req, ← idOf_add_of_lt (h.lt_of_expects hm) req]
    exact hid

/-- A call with a fresh id is made and written. -/
theorem Consistent.addSent (h : Consistent s) (req : Request) {k : Nat} (hk : s.sockets[k]? = some .writable)
    (hfresh : ∀ n, s.expects n → s.idOf n ≠ req.id) : Consistent { s with
      toWorld := (s.add req).send s.requests.length k
      timers := s.timers ++ [s.requests.length]
      pending := s.pending.set req.id s.requests.length } := by
  have hlength : (s.add req).requests.length = s.requests.length + 1 := by
    simp [add]
  have hnew : s.isSettled s.requests.length = false := by
    cases hn : s.isSettled s.requests.length with
    | false => rfl
    | true => exact absurd (h.settled _ hn) (lt_irrefl _)
  have hopen (n : Nat) : n < (s.add req).requests.length ∧ s.isSettled n = false ↔
      (n < s.requests.length ∧ s.isSettled n = false) ∨ n = s.requests.length := by
    rw [hlength]
    constructor
    · rintro ⟨hn, hopen⟩
      rcases Nat.lt_succ_iff_lt_or_eq.mp hn with hn | hn
      · exact .inl ⟨hn, hopen⟩
      · exact .inr hn
    · rintro (⟨hn, hopen⟩ | rfl)
      · exact ⟨lt_succ_of_lt hn, hopen⟩
      · exact ⟨lt_succ_self _, hnew⟩
  have hexpects (n : Nat) : ((s.add req).send s.requests.length k).expects n ↔
      s.expects n ∨ n = s.requests.length := by
    rw [expects_iff, expects_iff]
    constructor
    · rintro ⟨⟨j, hj, halive⟩, hn⟩
      rcases mem_append.mp hj with hj | hj
      · exact .inl ⟨⟨j, hj, halive⟩, hn⟩
      · exact .inr (mk.inj (mem_singleton.mp hj)).1
    · rintro (⟨⟨j, hj, halive⟩, hn⟩ | rfl)
      · exact ⟨⟨j, mem_append_left _ hj, halive⟩, hn⟩
      · refine ⟨⟨k, mem_append_right _ (mem_singleton_self _), alive_of_writable hk⟩, fun hn => ?_⟩
        exact absurd (h.answered _ hn) (lt_irrefl _)
  have hid (n : Nat) (hn : s.expects n) : (s.add req).idOf n = s.idOf n :=
    idOf_add_of_lt (h.lt_of_expects hn) req
  refine ⟨h.once, fun n hn => ?_, h.own, fun i n => ?_, fun n => ?_, fun n j hn => ?_,
    fun n hn => ?_, fun n hn hnopen => ?_, fun n m hn hm hidnm => ?_⟩
  · exact hlength ▸ lt_succ_of_lt (h.settled n hn)
  · show (i, n) ∈ (s.pending.set req.id s.requests.length).entries ↔
      n < (s.add req).requests.length ∧ s.isSettled n = false ∧ i = (s.add req).idOf n
    rw [OrderedMap.mem_set, ← and_assoc, hopen, Prod.mk.injEq]
    constructor
    · rintro (⟨rfl, rfl⟩ | ⟨hmem, -⟩)
      · exact ⟨.inr rfl, (idOf_add_length req).symm⟩
      · obtain ⟨hlt, hnopen, rfl⟩ := (h.pending i n).mp hmem
        exact ⟨.inl ⟨hlt, hnopen⟩, (hid n (h.expects n hlt hnopen)).symm⟩
    · rintro ⟨⟨hlt, hnopen⟩ | rfl, rfl⟩
      · have hn := h.expects n hlt hnopen
        rw [hid n hn]
        exact .inr ⟨(h.pending _ n).mpr ⟨hlt, hnopen, rfl⟩, hfresh n hn⟩
      · exact .inl ⟨idOf_add_length req, rfl⟩
  · show n ∈ s.timers ++ [s.requests.length] ↔ n < (s.add req).requests.length ∧ s.isSettled n = false
    rw [mem_append, mem_singleton, h.timers, hopen]
  · show n < (s.add req).requests.length ∧ j < s.sockets.length
    rw [hlength]
    rcases mem_append.mp hn with hn | hn
    · obtain ⟨hlt, hj⟩ := h.sent n j hn
      exact ⟨lt_succ_of_lt hlt, hj⟩
    · obtain ⟨rfl, rfl⟩ := mk.inj (mem_singleton.mp hn)
      exact ⟨Nat.lt_succ_self _, (List.getElem?_eq_some_iff.mp hk).1⟩
  · exact hlength ▸ lt_succ_of_lt (h.answered n hn)
  · refine (hexpects n).mpr (((hopen n).mp ⟨hn, hnopen⟩).imp_left fun hn => ?_)
    exact h.expects n hn.1 hn.2
  · replace hidnm : (s.add req).idOf n = (s.add req).idOf m := hidnm
    rcases (hexpects n).mp hn with hn | rfl <;> rcases (hexpects m).mp hm with hm | rfl
    · exact h.apart n m hn hm (by rw [← hid n hn, ← hid m hm, hidnm])
    · rw [hid n hn, idOf_add_length] at hidnm
      exact absurd hidnm (hfresh n hn)
    · rw [hid m hm, idOf_add_length] at hidnm
      exact absurd hidnm.symm (hfresh m hm)
    · rfl

theorem Consistent.call (h : Consistent s) {req : Request} {randomUUID : Str} (writeError : Str)
    (hfresh : FreshId s (.call req randomUUID writeError)) : Consistent (s.call req randomUUID writeError) := by
  rw [Caller.call]
  split
  · exact h.addRejected req _ (fun _ => Iff.rfl) fun _ => Iff.rfl
  · generalize hreq : { req with id := if req.id = [] then randomUUID else req.id } = req'
    have hid : ∀ n, s.expects n → s.idOf n ≠ req'.id := by
      rw [← hreq]
      exact hfresh
    -- taking the slot of the id and giving it back leaves the pending calls as they are
    have hpending (e : Str × Nat) :
        e ∈ ((s.pending.set req'.id s.requests.length).delete req'.id).entries ↔
          e ∈ s.pending.entries := by
      rw [OrderedMap.mem_delete, OrderedMap.mem_set]
      constructor
      · rintro ⟨rfl | ⟨he, -⟩, hne⟩
        · exact absurd rfl hne
        · exact he
      · intro he
        obtain ⟨hlt, hopen, heq⟩ := (h.pending e.1 e.2).mp he
        have hne : e.1 ≠ req'.id := heq ▸ hid e.2 (h.expects e.2 hlt hopen)
        exact ⟨.inr ⟨he, hne⟩, hne⟩
    have htimers (n : Nat) :
        n ∈ (s.timers ++ [s.requests.length]).filter (· ≠ s.requests.length) ↔ n ∈ s.timers := by
      rw [mem_filter, mem_append, mem_singleton, decide_eq_true_eq]
      constructor
      · rintro ⟨hn | hn, hne⟩
        · exact hn
        · exact absurd hn hne
      · intro hn
        exact ⟨.inl hn, Nat.ne_of_lt ((h.timers n).mp hn).1⟩
    dsimp only
    split
    · exact h.addRejected req' _ hpending htimers
    · rename_i k hk
      split
      · exact h.addSent req' (writable_eq_some hk).2 hid
      · exact h.addRejected req' _ hpending htimers

/-- A response that no pending call waits for is dropped. -/
theorem Consistent.orphan (h : Consistent s) {n : Nat} (hexpects : s.expects n)
    (hnone : s.pending.get (s.idOf n) = none) : Consistent { s with toWorld := s.answer n } := by
  have hlt := h.lt_of_expects hexpects
  have hmono (m : Nat) (hm : (s.answer n).expects m) : s.expects m :=
    expects_mono s.toWorld (s.answer n) rfl (fun _ => id) (subset_append_left _ _) hm
  refine ⟨h.once, h.settled, h.own, h.pending, h.timers, h.sent, fun m hm => ?_,
    fun m hm hopen => ?_, fun m m' hm hm' => h.apart m m' (hmono m hm) (hmono m' hm')⟩
  · rcases mem_append.mp hm with hm | hm
    · exact h.answered m hm
    · rw [mem_singleton.mp hm]
      exact hlt
  · obtain ⟨halive, hnot⟩ := expects_iff.mp (h.expects m hm hopen)
    refine expects_iff.mpr ⟨halive, fun hmem => ?_⟩
    rcases mem_append.mp hmem with hmem | hmem
    · exact hnot hmem
    · -- a call that is not settled is pending
      rw [mem_singleton.mp hmem] at hopen
      exact get_eq_none_iff.mp hnone n ((h.pending _ n).mpr ⟨hlt, hopen, rfl⟩)

/-- The response to a call settles that call or none. -/
theorem Consistent.response (h : Consistent s) (n : Nat) : Consistent (s.response n) := by
  rw [Caller.response]
  split
  · rename_i hexpects
    dsimp only
    split
    · rename_i m hm
      obtain ⟨hlt, hopen, hid⟩ := (h.pending _ m).mp (get_eq_some_iff.mp hm)
      obtain rfl : n = m := h.apart n m hexpects (h.expects m hlt hopen) hid
      exact h.finish hlt hopen (fun _ ho => by cases ho; rfl) (.inr rfl)
    · exact h.orphan hexpects ‹_›
  · exact h

theorem Consistent.timer (h : Consistent s) (timeoutOf : Str → Nat) (n : Nat) : Consistent (s.timer timeoutOf n) := by
  rw [Caller.timer]
  split
  · rename_i hn
    obtain ⟨hlt, hopen⟩ := (h.timers n).mp hn
    exact h.finish hlt hopen (fun _ ho => by cases ho) (.inl rfl)
  · exact h

theorem Consistent.connect (h : Consistent s) :
    Consistent { s with
      toWorld := s.toWorld.connect, socket := some s.sockets.length, closedByClient := false } := by
  have hexpects (n : Nat) : s.toWorld.connect.expects n = s.expects n := by
    rw [Bool.eq_iff_iff, expects_iff, expects_iff]
    refine and_congr_left fun _ => exists_congr fun k => and_congr_right fun hk => ?_
    rw [alive_connect_of_lt (h.sent n k hk).2]
  refine ⟨h.once, h.settled, h.own, h.pending, h.timers, fun n k hn => ?_, h.answered,
    fun n hn hopen => (hexpects n).trans (h.expects n hn hopen), fun n m hn hm =>
      h.apart n m ((hexpects n).symm.trans hn) ((hexpects m).symm.trans hm)⟩
  obtain ⟨hlt, hk⟩ := h.sent n k hn
  refine ⟨hlt, ?_⟩
  show k < (s.sockets ++ [Socket.writable]).length
  rw [length_append]
  exact Nat.lt_add_right _ hk

theorem Consistent.ended (h : Consistent s) (k : Nat) : Consistent { s with toWorld := s.endSocket k } := by
  unfold endSocket
  split
  · rename_i hk
    have hexpects (n : Nat) :
        { s.toWorld with sockets := s.sockets.set k .ended }.expects n = s.expects n := by
      have halive (j : Nat) : { s.toWorld with sockets := s.sockets.set k .ended }.alive j =
          s.alive j := by
        have h := World.alive_endSocket (w := s.toWorld) k j
        rwa [endSocket, if_pos hk] at h
      simp only [World.expects, halive]
    refine ⟨h.once, h.settled, h.own, h.pending, h.timers, fun n j hn => ?_, h.answered,
      fun n hn hopen => (hexpects n).trans (h.expects n hn hopen), fun n m hn hm =>
        h.apart n m ((hexpects n).symm.trans hn) ((hexpects m).symm.trans hm)⟩
    obtain ⟨hlt, hj⟩ := h.sent n j hn
    refine ⟨hlt, ?_⟩
    show j < (s.sockets.set k .ended).length
    rwa [length_set]
  · exact h

theorem Consistent.step (h : Consistent s) (timeoutOf : Str → Nat) {e : Event}
    (he : FreshId s e) : Consistent (step timeoutOf s e) := by
  cases e with
  | connect => exact h.connect
  | call req randomUUID writeError => exact h.call writeError he
  | refuse req error => exact h.addRejected req error (fun _ => Iff.rfl) fun _ => Iff.rfl
  | response n => exact h.response n
  | timer n => exact h.timer timeoutOf n
  | ended k => exact h.ended k
  | error k errMessage =>
    exact h.rejectPending (Caller.socketError errMessage)
      ((length_destroySocket s.socket).trans length_set)
      (fun j hj => alive_destroy (alive_destroySocket hj)) none s.closedByClient
  | overflow =>
    exact h.rejectPending (Caller.socketError (text "PrivSvc buffer overflow"))
      (length_destroySocket s.socket) (fun j => alive_destroySocket) none
      s.closedByClient
  | closed k =>
    exact h.rejectPending (fun id => text "PrivSvc connection closed (" ++ id ++ text ")")
      length_set (fun j => alive_destroy) none s.closedByClient
  | close =>
    exact h.rejectPending (fun id => text "PrivSvc client closed (" ++ id ++ text ")")
      (length_destroySocket s.socket) (fun j => alive_destroySocket) none true

theorem Consistent.correlated (h : Consistent s) (timeoutOf : Str → Nat) : Correlated timeoutOf s := by
  refine ⟨h.once, fun n hn => ?_, h.own, fun n hn hopen => (h.pending _ n).mpr ⟨hn, hopen, rfl⟩⟩
  show (s.timer timeoutOf n).isSettled n
  unfold Caller.timer
  split
  · exact isSettled_settle.mpr (.inr rfl)
  · rename_i hn'
    rw [h.timers, not_and, Bool.not_eq_false] at hn'
    exact hn' hn

end Steps

/-- In a run whose calls take fresh ids, all calls are correlated with their responses. -/
theorem always_correlated {timeoutOf : Str → Nat} {tr : List Event} (h : (machine timeoutOf).Guarded FreshId tr) :
    (machine timeoutOf).Always (Correlated timeoutOf) tr := by
  have hstart : Consistent (machine timeoutOf).init := by
    refine ⟨.nil, nofun, nofun, fun i n => ?_, fun n => ?_, nofun, nofun, nofun, nofun⟩
    · exact iff_of_false (not_mem_nil) fun hn => not_lt_zero n hn.1
    · exact iff_of_false (not_mem_nil) fun hn => not_lt_zero n hn.1
  exact (h.always hstart fun s e hs he => hs.step timeoutOf he).mono
    fun s hs => hs.correlated timeoutOf

end Ipc.Linux
