-- SUMMARY: The queue of recordings that are uploaded, and the runs in which uploads are bounded and one at a time.
import Tracenium.Lib.Locks
import Tracenium.Lib.Logs
import Tracenium.Rcp.FileSession
import Tracenium.Rcp.Recordings

/-!
`RecordingUploader` of `src/plugins/rcp/recording-uploader.ts`. An entry that is not in the queue any more may still
wait for its timer or for its `putFile`. Timers fire in any order, and a file that is gone does not come back.
-/

open Utf16 Function Option List

namespace Rcp.Uploader

open Recording (UPLOAD_DELAY_MS MAX_ATTEMPTS backoffMs UploadOutcome)

/-- `timer` has the delay that it was set with. `putting` says that `putFile` has not resolved. -/
structure QueueEntry where
  sessionId : Str
  file : Str
  url : Option Str
  attempts : Nat
  timer : Option Nat
  putting : Bool
  deriving DecidableEq

inductive Note
  | enqueued (sessionId : Str)
  | requested (sessionId : Str)
  | rejected (sessionId : Str)
  | stopped
  | put (sessionId : Str)
  | answered (sessionId : Str) (outcome : UploadOutcome)
  | removed (sessionId file : Str)

structure State where
  entries : List QueueEntry
  queue : Str → Option Nat
  present : Str → Bool
  log : List Note

/-- `queue.get(sessionId)`, with the number of the entry. -/
def State.get (s : State) (sessionId : Str) : Option (Nat × QueueEntry) :=
  (s.queue sessionId).bind fun k => s.entries[k]?.map fun e => (k, e)

def State.note (s : State) (r : Note) : State := { s with log := r :: s.log }

def State.store (s : State) (k : Nat) (e : QueueEntry) : State := { s with entries := s.entries.set k e }

def State.delete (s : State) (sessionId : Str) : State := { s with queue := update s.queue sessionId none }

/-- `queue.set(sessionId, e)` with a new entry. -/
def State.set (s : State) (e : QueueEntry) : State :=
  { s with
    entries := s.entries ++ [e]
    queue := update s.queue e.sessionId (some s.entries.length) }

def removeRecording (s : State) (sessionId file : Str) : State :=
  { s with present := update s.present file false, log := .removed sessionId file :: s.log }

def clearTimeout (s : State) (sessionId : Str) : State :=
  match s.get sessionId with
  | some (k, e) => s.store k { e with timer := none }
  | none => s

def enqueue (s : State) (sessionId file url : Str) : State :=
  let existing := (s.get sessionId).map fun (_, e) => e.attempts
  let attempts := existing.getD 0
  let delay := if existing.isSome then backoffMs attempts else UPLOAD_DELAY_MS
  ((clearTimeout s sessionId).note (.enqueued sessionId)).set ⟨sessionId, file, some url, attempts, some delay, false⟩

/-- `path.basename(file).replace(/\.trec$/, "")`. -/
def sessionIdOf (platform : Platform) (file : Str) : Str :=
  let name := basename platform file
  if text ".trec" <:+ name then name.take (name.length - 5) else name

def resumeFile (platform : Platform) (s : State) (file : Str) : State :=
  let sessionId := sessionIdOf platform file
  if (s.queue sessionId).isSome then s
  else (s.note (.requested sessionId)).set ⟨sessionId, file, none, 0, none, false⟩

def resume (platform : Platform) (s : State) (files : List Str) : State := files.foldl (resumeFile platform) s

def reject (s : State) (sessionId : Str) : State :=
  match s.get sessionId with
  | some (k, e) =>
    removeRecording (((s.store k { e with timer := none }).delete sessionId).note (.rejected sessionId))
      sessionId e.file
  | none => s.note (.rejected sessionId)

def stop (s : State) : State :=
  { s with
    entries := s.entries.mapIdx fun k e => if s.queue e.sessionId = some k then { e with timer := none } else e
    queue := fun _ => none
    log := .stopped :: s.log }

/-- `attempt(entry)` up to its `putFile`. -/
def attempt (s : State) (k : Nat) : State :=
  match s.entries[k]? with
  | some e =>
    if e.timer.isNone then s
    else if e.url.getD [] = [] then s.store k { e with timer := none }
    else if s.present e.file then
      (s.store k { e with timer := none, attempts := e.attempts + 1, putting := true }).note (.put e.sessionId)
    else (s.store k { e with timer := none }).delete e.sessionId
  | none => s

/-- `attempt(entry)` once its `putFile` resolves. -/
def putDone (s : State) (k : Nat) (outcome : UploadOutcome) : State :=
  match s.entries[k]? with
  | some e =>
    if e.putting then
      let s := s.note (.answered e.sessionId outcome)
      let e := { e with putting := false }
      match outcome with
      | .ok => removeRecording ((s.store k e).delete e.sessionId) e.sessionId e.file
      | .fails retryable freshUrl =>
        if freshUrl then (s.store k { e with url := none }).note (.requested e.sessionId)
        else if !retryable || decide (MAX_ATTEMPTS ≤ e.attempts) then
          removeRecording ((s.store k e).delete e.sessionId) e.sessionId e.file
        else s.store k { e with timer := some (backoffMs e.attempts) }
    else s
  | none => s

inductive Event
  | enqueue (sessionId file url : Str)
  | resume (files : List Str)
  | reject (sessionId : Str)
  | stop
  | timer (k : Nat)
  | put (k : Nat) (outcome : UploadOutcome)
  | vanish (file : Str)

def step (platform : Platform) (s : State) (e : Event) : State :=
  match e with
  | .enqueue sessionId file url => enqueue s sessionId file url
  | .resume files => resume platform s files
  | .reject sessionId => reject s sessionId
  | .stop => stop s
  | .timer k => attempt s k
  | .put k outcome => putDone s k outcome
  | .vanish file => { s with present := update s.present file false }

def machine (platform : Platform) : Machine State Event where
  init := ⟨[], fun _ => none, fun _ => true, []⟩
  step := step platform

/-! ## What is promised -/

/-- How often the recording of a session was sent. -/
def puts (sessionId : Str) (log : List Note) : Nat :=
  log.countP fun r => match r with
    | .put sessionId' => sessionId' = sessionId
    | _ => false

/-- The session was rejected, or the queue was stopped, after it was last enqueued. -/
def halted (sessionId : Str) : List Note → Bool
  | [] => false
  | .enqueued sessionId' :: rs => sessionId' ≠ sessionId && halted sessionId rs
  | .rejected sessionId' :: rs => sessionId' = sessionId || halted sessionId rs
  | .stopped :: _ => true
  | _ :: rs => halted sessionId rs

/-- What a file is removed on. -/
def Note.settles (before : List Note) (sessionId : Str) : Note → Prop
  | .answered sessionId' .ok | .rejected sessionId' => sessionId' = sessionId
  | .answered sessionId' (.fails retryable freshUrl) =>
    sessionId' = sessionId ∧ freshUrl = false ∧ (retryable = false ∨ MAX_ATTEMPTS ≤ puts sessionId before)
  | _ => False

variable (fileOf : Str → Str)

/-- A PUT starts for a session that goes on, and a file is removed when its session is settled. -/
def Permitted (before : List Note) : Note → Prop
  | .put sessionId => halted sessionId before = false
  | .removed sessionId file => file = fileOf sessionId ∧ ∃ r ∈ before.head?, r.settles before sessionId
  | _ => True

/-- The file of the session is gone. -/
def State.Gone (s : State) (sessionId : Str) : Prop := s.present (fileOf sessionId) = false

/-- Uploads are one at a time and bounded. -/
structure Bounded (s : State) : Prop where
  onePut : ∀ (k j : Nat) e e', s.entries[k]? = some e → s.entries[j]? = some e' → e.sessionId = e'.sessionId →
    e.putting = true → e'.putting = true → k = j
  oneTimer : ∀ (k j : Nat) e e', s.entries[k]? = some e → s.entries[j]? = some e' → e.sessionId = e'.sessionId →
    e.timer ≠ none → e'.timer ≠ none → k = j
  bounded : ∀ sessionId, puts sessionId s.log ≤ MAX_ATTEMPTS
  spent : ∀ sessionId, puts sessionId s.log = MAX_ATTEMPTS →
    (∀ e ∈ s.entries, e.sessionId = sessionId → e.putting = false) → s.Gone fileOf sessionId
  permitted : Each (Permitted fileOf) s.log

/-- No attempt of the session would be forgotten. -/
def State.Remembers (s : State) (sessionId : Str) : Prop :=
  s.queue sessionId ≠ none ∨ puts sessionId s.log = 0 ∨ s.Gone fileOf sessionId

/-- A destination comes while nothing of its session is sent, for a session whose attempts are remembered. A fresh
destination is not asked for at the last attempt, and what is tried again is still in the queue. -/
def Orderly (platform : Platform) (s : State) : Event → Prop
  | .enqueue sessionId file _ =>
    file = fileOf sessionId ∧ s.Remembers fileOf sessionId ∧
      ∀ k < s.entries.length, ∀ e ∈ s.entries[k]?, e.sessionId = sessionId →
        e.putting = false ∧ (e.timer ≠ none → s.queue sessionId = some k)
  | .resume files => ∀ file ∈ files, file = fileOf (sessionIdOf platform file) ∧
      s.Remembers fileOf (sessionIdOf platform file)
  | .put k (.fails retryable freshUrl) => ∀ e ∈ s.entries[k]?, e.putting = true → s.Gone fileOf e.sessionId ∨
        if freshUrl then e.attempts < MAX_ATTEMPTS
        else retryable = true → e.attempts < MAX_ATTEMPTS → s.queue e.sessionId = some k
  | _ => True

/-! ## Invariant -/

def QueueEntry.IsActive (e : QueueEntry) : Prop := e.timer ≠ none ∨ e.putting = true

variable (s : State)

/-- An entry is counted for what was sent, as long as it may be sent again. -/
structure Fits (k : Nat) (e : QueueEntry) : Prop where
  named : e.file = fileOf e.sessionId
  live : e.IsActive → s.queue e.sessionId = some k → halted e.sessionId s.log = false
  armed : e.timer ≠ none → e.putting = false ∧ (s.queue e.sessionId = some k ∨ s.Gone fileOf e.sessionId)
  exact : e.putting = true ∨ s.queue e.sessionId = some k →
    s.Gone fileOf e.sessionId ∨ e.attempts = puts e.sessionId s.log
  counted : e.attempts ≤ puts e.sessionId s.log

/-- What entries, queue and files keep together. -/
structure Invariant : Prop where
  fits : ∀ (k : Nat) e, s.entries[k]? = some e → Fits fileOf s k e
  indexed : ∀ sessionId k, s.queue sessionId = some k → ∃ e, s.entries[k]? = some e ∧ e.sessionId = sessionId
  alone : ∀ (k j : Nat) e e', s.entries[k]? = some e → s.entries[j]? = some e' → e.sessionId = e'.sessionId →
    e.IsActive → e'.IsActive → k = j
  bounded : ∀ sessionId, puts sessionId s.log ≤ MAX_ATTEMPTS
  spent : ∀ sessionId, puts sessionId s.log = MAX_ATTEMPTS → s.Gone fileOf sessionId ∨
    ∃ (k : Nat) (e : QueueEntry), s.entries[k]? = some e ∧ e.sessionId = sessionId ∧ e.putting = true
  permitted : Each (Permitted fileOf) s.log

section Steps

variable {fileOf} {s} {k : Nat} {e : QueueEntry}

theorem Bounded.of_invariant (hs : Invariant fileOf s) : Bounded fileOf s where
  onePut k j e e' hk hj hsame he he' := hs.alone k j e e' hk hj hsame (.inr he) (.inr he')
  oneTimer k j e e' hk hj hsame he he' := hs.alone k j e e' hk hj hsame (.inl he) (.inl he')
  bounded := hs.bounded
  spent sessionId hmax hidle := by
    rcases hs.spent sessionId hmax with hgone | ⟨k, e, hk, hsession, hputting⟩
    · exact hgone
    · cases (hidle e (mem_of_getElem? hk) hsession).symm.trans hputting
  permitted := hs.permitted

theorem Fits.timer_eq_none (h : Fits fileOf s k e) (hputting : e.putting) : e.timer = none := by
  by_contra harmed
  cases (h.armed harmed).1.symm.trans hputting

/-- An entry whose file is there is sent again only if it was not sent too often. -/
theorem Invariant.puts_lt (hs : Invariant fileOf s) (hk : s.entries[k]? = some e) (harmed : e.timer ≠ none)
    (hgone : ¬ s.Gone fileOf e.sessionId) : puts e.sessionId s.log < MAX_ATTEMPTS := by
  refine lt_of_le_of_ne (hs.bounded _) fun hmax => ?_
  obtain ⟨j, e', hj, hsame, hputting⟩ := (hs.spent _ hmax).resolve_left hgone
  obtain rfl := hs.alone k j e e' hk hj hsame.symm (.inl harmed) (.inr hputting)
  cases hk.symm.trans hj
  exact harmed ((hs.fits k e hk).timer_eq_none hputting)

/-- Entries that are as they were, or less active. -/
structure Calmer (es es' : List QueueEntry) : Prop where
  old : ∀ (j : Nat) d, es'[j]? = some d → ∃ d₀ url timer putting, es[j]? = some d₀ ∧
    d = ⟨d₀.sessionId, d₀.file, url, d₀.attempts, timer, putting⟩ ∧
    (d.IsActive → d₀.IsActive) ∧ (putting = true → d₀.putting = true)
  kept : ∀ (j : Nat) d₀, es[j]? = some d₀ → ∃ d, es'[j]? = some d ∧ d.sessionId = d₀.sessionId

theorem Calmer.refl (es : List QueueEntry) : Calmer es es :=
  ⟨fun _ d h => ⟨d, _, _, _, h, rfl, id, id⟩, fun _ d h => ⟨d, h, rfl⟩⟩

variable {url : Option Str} {timer : Option Nat} {putting : Bool}

theorem Calmer.set {es : List QueueEntry} (hk : es[k]? = some e) (hputting : putting → e.putting)
    (hactive : timer ≠ none → e.IsActive) :
    Calmer es (es.set k ⟨e.sessionId, e.file, url, e.attempts, timer, putting⟩) where
  old j d hj := by
    rcases Slots.of_getElem?_set hj with ⟨rfl, rfl⟩ | ⟨-, hj⟩
    · exact ⟨e, _, _, _, hk, rfl, fun h => h.elim hactive fun h => .inr (hputting h), hputting⟩
    · exact ⟨d, _, _, _, hj, rfl, id, id⟩
  kept j d hj := by
    by_cases hjk : j = k
    · subst hjk
      cases hk.symm.trans hj
      exact ⟨_, Slots.getElem?_set_self hk, rfl⟩
    · exact ⟨d, Slots.getElem?_set_of_ne hjk hj, rfl⟩

/-- A step that sends nothing, and starts nothing that may not be sent. -/
theorem Invariant.calm (hs : Invariant fileOf s) {s' : State} (hentries : Calmer s.entries s'.entries)
    (hqueue : ∀ sessionId k, s'.queue sessionId = some k → s.queue sessionId = some k)
    (hgone : ∀ sessionId, s.Gone fileOf sessionId → s'.Gone fileOf sessionId)
    (hputs : ∀ sessionId, puts sessionId s'.log = puts sessionId s.log)
    (hhalted : ∀ sessionId k, s'.queue sessionId = some k → halted sessionId s.log = false →
      halted sessionId s'.log = false)
    (harmed : ∀ (k : Nat) d, s'.entries[k]? = some d → d.timer ≠ none →
      d.putting = false ∧ (s'.queue d.sessionId = some k ∨ s'.Gone fileOf d.sessionId))
    (hover : ∀ (k : Nat) d, s.entries[k]? = some d → d.putting →
      puts d.sessionId s.log < MAX_ATTEMPTS ∨ s'.Gone fileOf d.sessionId ∨ s'.entries[k]? = some d)
    (hpermitted : Each (Permitted fileOf) s'.log) : Invariant fileOf s' where
  fits j d hj := by
    obtain ⟨d₀, url, timer, putting, hd₀, rfl, hactive, hputting⟩ := hentries.old j d hj
    obtain ⟨hnamed, hlive, -, hexact, hcounted⟩ := hs.fits j d₀ hd₀
    rw [← hputs] at hexact hcounted
    exact
      { named := hnamed
        live := fun hd hqueued => hhalted _ j hqueued (hlive (hactive hd) (hqueue _ j hqueued))
        armed := harmed j _ hj
        exact := fun hd => (hexact (hd.imp hputting (hqueue _ j))).imp_left (hgone _)
        counted := hcounted }
  indexed sessionId j hj := by
    obtain ⟨d₀, hd₀, hsession⟩ := hs.indexed sessionId j (hqueue sessionId j hj)
    obtain ⟨d, hd, hsame⟩ := hentries.kept j d₀ hd₀
    exact ⟨d, hd, hsame.trans hsession⟩
  alone i j d d' hi hj hsame hd hd' := by
    obtain ⟨d₀, _, _, _, hd₀, rfl, hactive, -⟩ := hentries.old i d hi
    obtain ⟨d₁, _, _, _, hd₁, rfl, hactive', -⟩ := hentries.old j d' hj
    exact hs.alone i j d₀ d₁ hd₀ hd₁ hsame (hactive hd) (hactive' hd')
  bounded sessionId := hputs sessionId ▸ hs.bounded sessionId
  spent sessionId hmax := by
    rw [hputs] at hmax
    rcases hs.spent sessionId hmax with h | ⟨j, d, hj, rfl, hputting⟩
    · exact .inl (hgone _ h)
    · rcases hover j d hj hputting with hlt | h | h
      · exact absurd hmax (Nat.ne_of_lt hlt)
      · exact .inl h
      · exact .inr ⟨j, d, h, rfl, hputting⟩
  permitted := hpermitted

/-- An entry is settled: it leaves the queue, and its file is gone. -/
theorem Invariant.settle (hs : Invariant fileOf s) (hk : s.entries[k]? = some e) {l : List Note}
    (hputting : putting → e.putting) (hputs : ∀ sessionId, puts sessionId l = puts sessionId s.log)
    (hhalted : ∀ sessionId, sessionId ≠ e.sessionId → halted sessionId l = halted sessionId s.log)
    (hpermitted : Each (Permitted fileOf) l) :
    Invariant fileOf ⟨s.entries.set k ⟨e.sessionId, e.file, url, e.attempts, none, putting⟩,
      update s.queue e.sessionId none, update s.present e.file false, l⟩ := by
  have hqueue : ∀ sessionId k', update s.queue e.sessionId none sessionId = some k' →
      sessionId ≠ e.sessionId ∧ s.queue sessionId = some k' := by
    intro sessionId k' h
    by_cases heq : sessionId = e.sessionId
    · subst heq
      simp at h
    · exact ⟨heq, by simpa [heq] using h⟩
  have hgone : ∀ sessionId, s.Gone fileOf sessionId ∨ sessionId = e.sessionId →
      update s.present e.file false (fileOf sessionId) = false := by
    intro sessionId h
    by_cases heq : fileOf sessionId = e.file
    · rw [heq, update_self]
    · refine (update_of_ne heq _ _).trans (h.resolve_right ?_)
      rintro rfl
      exact heq (hs.fits k e hk).named.symm
  refine hs.calm (Calmer.set hk hputting fun h => absurd rfl h) (fun sessionId k' h => (hqueue _ _ h).2)
    (fun sessionId h => hgone sessionId (.inl h)) hputs
    (fun sessionId k' h h' => (hhalted sessionId (hqueue _ _ h).1).trans h') (fun j d hj hd => ?_)
    (fun j d hj hd => ?_) hpermitted
  · rcases Slots.of_getElem?_set hj with ⟨rfl, rfl⟩ | ⟨-, hj⟩
    · exact absurd rfl hd
    · obtain ⟨hidle, hqueued⟩ := (hs.fits j d hj).armed hd
      refine ⟨hidle, ?_⟩
      by_cases heq : d.sessionId = e.sessionId
      · exact .inr (hgone _ (.inr heq))
      · exact hqueued.imp (by simpa [heq] using ·) fun h => hgone _ (.inl h)
  · by_cases heq : d.sessionId = e.sessionId
    · exact .inr (.inl (hgone _ (.inr heq)))
    · have hjk : j ≠ k := by
        rintro rfl
        cases hk.symm.trans hj
        exact heq rfl
      exact .inr (.inr (Slots.getElem?_set_of_ne hjk hj))

/-- A new entry that nothing of its session competes with. -/
theorem Invariant.set (hs : Invariant fileOf s) (hfits : Fits fileOf (s.set e) s.entries.length e)
    (hidle : e.putting = false) (hothers : ∀ (k : Nat) d, s.entries[k]? = some d → d.sessionId = e.sessionId →
      d.IsActive → e.timer = none ∧ (d.timer ≠ none → s.Gone fileOf e.sessionId)) : Invariant fileOf (s.set e) := by
  have hactive : e.IsActive → e.timer ≠ none := fun h => h.resolve_right (by simp [hidle])
  have hself : (s.set e).queue e.sessionId = some s.entries.length := update_self _ _ _
  have hold : ∀ {j : Nat} {d : QueueEntry}, (s.set e).entries[j]? = some d →
      s.entries[j]? = some d ∨ j = s.entries.length ∧ d = e := Slots.of_getElem?_concat
  have hnew : ∀ {j : Nat} {d : QueueEntry}, s.entries[j]? = some d → (s.set e).entries[j]? = some d := fun hj =>
    (List.getElem?_append_left (List.getElem?_eq_some_iff.mp hj).1).trans hj
  have hqueue : ∀ {d : QueueEntry} {j : Nat}, s.entries[j]? = some d → (s.set e).queue d.sessionId = some j →
      s.queue d.sessionId = some j := by
    intro d j hj h
    by_cases heq : d.sessionId = e.sessionId
    · rw [heq] at h
      cases hself.symm.trans h
      simp at hj
    · exact (update_of_ne heq _ _).symm.trans h
  refine ⟨fun j d hj => ?_, fun sessionId j hj => ?_, fun i j d d' hi hj hsame hd hd' => ?_, hs.bounded,
    fun sessionId hmax => ?_, hs.permitted⟩
  · rcases hold hj with hj | ⟨rfl, rfl⟩
    · have h := hs.fits j d hj
      refine { h with
        live := fun hd hqueued => h.live hd (hqueue hj hqueued)
        armed := fun hd => ⟨(h.armed hd).1, ?_⟩
        exact := fun hd => h.exact (hd.imp_right (hqueue hj)) }
      by_cases heq : d.sessionId = e.sessionId
      · exact .inr (heq ▸ (hothers j d hj heq (.inl hd)).2 hd)
      · exact (h.armed hd).2.imp_left (update_of_ne heq _ _).trans
    · exact hfits
  · by_cases heq : sessionId = e.sessionId
    · subst heq
      cases hself.symm.trans hj
      exact ⟨e, getElem?_concat_length, rfl⟩
    · obtain ⟨d, hd, hsession⟩ := hs.indexed sessionId j ((update_of_ne heq _ _).symm.trans hj)
      exact ⟨d, hnew hd, hsession⟩
  · rcases hold hi with hi' | ⟨rfl, rfl⟩ <;> rcases hold hj with hj' | ⟨rfl, rfl⟩
    · exact hs.alone i j d d' hi' hj' hsame hd hd'
    · exact absurd (hothers i d hi' hsame hd).1 (hactive hd')
    · exact absurd (hothers j d' hj' hsame.symm hd').1 (hactive hd)
    · rfl
  · exact (hs.spent sessionId hmax).imp_right fun ⟨j, d, hj, h⟩ => ⟨j, d, hnew hj, h⟩

theorem puts_put (sessionId sessionId' : Str) (log : List Note) :
    puts sessionId (.put sessionId' :: log) = puts sessionId log + if sessionId' = sessionId then 1 else 0 := by
  simp [puts, countP_cons]

/-- A file is sent. -/
theorem Invariant.put (hs : Invariant fileOf s) (hk : s.entries[k]? = some e) (harmed : e.timer ≠ none)
    (hpresent : ¬ s.Gone fileOf e.sessionId) : Invariant fileOf { s with
      entries := s.entries.set k { e with timer := none, attempts := e.attempts + 1, putting := true }
      log := .put e.sessionId :: s.log } := by
  have hfits := hs.fits k e hk
  have hqueued := (hfits.armed harmed).2.resolve_right hpresent
  have hlive := hfits.live (.inl harmed) hqueued
  have hexact := (hfits.exact (.inr hqueued)).resolve_left hpresent
  have hsame : ∀ {sessionId}, sessionId ≠ e.sessionId →
      puts sessionId (.put e.sessionId :: s.log) = puts sessionId s.log := fun h => by simp [puts_put, Ne.symm h]
  -- any other entry of the session waits neither for a timer nor for an answer
  have hother : ∀ {j : Nat} {d : QueueEntry}, j ≠ k → s.entries[j]? = some d → d.IsActive →
      d.sessionId ≠ e.sessionId := fun hjk hj hd h => hjk (hs.alone _ k _ e hj hk h hd (.inl harmed))
  refine ⟨fun j d hj => ?_, fun sessionId j hj => ?_, fun i j d d' hi hj hsession hd hd' => ?_, fun sessionId => ?_,
    fun sessionId hmax => ?_, each_cons.mpr ⟨hlive, hs.permitted⟩⟩
  · rcases Slots.of_getElem?_set hj with ⟨rfl, rfl⟩ | ⟨hjk, hj⟩
    · exact
        { named := hfits.named
          live := fun _ _ => hlive
          armed := fun h => absurd rfl h
          exact := fun _ => .inr (by simp [puts_put, hexact])
          counted := by simp [puts_put, hexact] }
    · have h := hs.fits j d hj
      refine { h with exact := fun hd => ?_, counted := h.counted.trans (by simp [puts_put]) }
      have hne : d.sessionId ≠ e.sessionId := by
        rcases hd with hd | hd
        · exact hother hjk hj (.inr hd)
        · intro heq
          rw [heq] at hd
          exact hjk (some.inj (hd.symm.trans hqueued))
      exact (hsame hne).symm ▸ h.exact hd
  · obtain ⟨d, hd, hsession⟩ := hs.indexed sessionId j hj
    by_cases hjk : j = k
    · subst hjk
      cases hk.symm.trans hd
      exact ⟨_, Slots.getElem?_set_self hk, hsession⟩
    · exact ⟨d, Slots.getElem?_set_of_ne hjk hd, hsession⟩
  · rcases Slots.of_getElem?_set hi with ⟨rfl, rfl⟩ | ⟨hik, hi'⟩ <;>
      rcases Slots.of_getElem?_set hj with ⟨rfl, rfl⟩ | ⟨hjk, hj'⟩
    · rfl
    · exact absurd hsession.symm (hother hjk hj' hd')
    · exact absurd hsession (hother hik hi' hd)
    · exact hs.alone i j d d' hi' hj' hsession hd hd'
  · by_cases heq : sessionId = e.sessionId
    · subst heq
      simpa [puts_put] using Nat.succ_le_of_lt (hs.puts_lt hk harmed hpresent)
    · exact hsame heq ▸ hs.bounded sessionId
  · by_cases heq : sessionId = e.sessionId
    · exact .inr ⟨k, _, Slots.getElem?_set_self hk, heq.symm, rfl⟩
    · refine (hs.spent sessionId (hsame heq ▸ hmax)).imp_right fun ⟨j, d, hj, hsession, hputting⟩ => ?_
      have hjk : j ≠ k := by
        rintro rfl
        cases hk.symm.trans hj
        exact heq hsession.symm
      exact ⟨j, d, Slots.getElem?_set_of_ne hjk hj, hsession, hputting⟩

/-! ## Steps -/

theorem get_eq_some_iff {sessionId : Str} :
    s.get sessionId = some (k, e) ↔ s.queue sessionId = some k ∧ s.entries[k]? = some e := by
  simp only [State.get, bind_eq_some_iff, map_eq_some_iff, Prod.mk.injEq]
  constructor
  · rintro ⟨j, hj, d, hd, rfl, rfl⟩
    exact ⟨hj, hd⟩
  · rintro ⟨hk, he⟩
    exact ⟨k, hk, e, he, rfl, rfl⟩

theorem Invariant.get_ne_none (hs : Invariant fileOf s) {sessionId : Str} (h : s.queue sessionId ≠ none) :
    s.get sessionId ≠ none := by
  obtain ⟨k, hk⟩ := ne_none_iff_exists'.mp h
  obtain ⟨e, he, -⟩ := hs.indexed sessionId k hk
  exact ne_none_iff_exists'.mpr ⟨_, get_eq_some_iff.mpr ⟨hk, he⟩⟩

theorem Invariant.session_of_get (hs : Invariant fileOf s) {sessionId : Str} (h : s.get sessionId = some (k, e)) :
    e.sessionId = sessionId := by
  obtain ⟨hk, he⟩ := get_eq_some_iff.mp h
  obtain ⟨d, hd, hsession⟩ := hs.indexed sessionId k hk
  cases he.symm.trans hd
  exact hsession

/-- A note that sends nothing, and halts nothing that is in the queue. -/
theorem Invariant.note (hs : Invariant fileOf s) {r : Note}
    (hputs : ∀ sessionId, puts sessionId (r :: s.log) = puts sessionId s.log)
    (hhalted : ∀ sessionId k, s.queue sessionId = some k → halted sessionId s.log = false →
      halted sessionId (r :: s.log) = false) (hpermitted : Permitted fileOf s.log r) : Invariant fileOf (s.note r) :=
  hs.calm (.refl _) (fun _ _ h => h) (fun _ h => h) hputs hhalted (fun j d hj => (hs.fits j d hj).armed)
    (fun _ _ hj _ => .inr (.inr hj)) (each_cons.mpr ⟨hpermitted, hs.permitted⟩)

/-- The timer of an entry is cleared, or has fired. -/
theorem Invariant.disarm (hs : Invariant fileOf s) (hk : s.entries[k]? = some e) :
    Invariant fileOf (s.store k { e with timer := none }) := by
  refine hs.calm (Calmer.set hk id fun h => absurd rfl h) (fun _ _ h => h) (fun _ h => h) (fun _ => rfl)
    (fun _ _ _ h => h) (fun j d hj hd => ?_) (fun j d hj hd => .inr (.inr ?_)) hs.permitted
  · rcases Slots.of_getElem?_set hj with ⟨-, rfl⟩ | ⟨-, hj⟩
    · exact absurd rfl hd
    · exact (hs.fits j d hj).armed hd
  · by_cases hjk : j = k
    · subst hjk
      cases hk.symm.trans hj
      rw [State.store, Slots.getElem?_set_self hk, ← (hs.fits j e hk).timer_eq_none hd]
    · exact Slots.getElem?_set_of_ne hjk hj

theorem Invariant.attempt (hs : Invariant fileOf s) (k : Nat) : Invariant fileOf (attempt s k) := by
  unfold Uploader.attempt
  split
  · rename_i e hk
    split
    · exact hs
    · rename_i harmed
      split
      · exact hs.disarm hk
      · have hfile := (hs.fits k e hk).named
        split
        · rename_i hpresent
          refine hs.put hk (by simpa using harmed) fun hgone => ?_
          rw [State.Gone, ← hfile, hpresent] at hgone
          cases hgone
        · rename_i habsent
          have hsame : update s.present e.file false = s.present :=
            update_eq_self_iff.mpr (by simpa using habsent : s.present e.file = false).symm
          have hsettled := @Invariant.settle _ _ _ _ e.url _ hs hk _ id (fun _ => rfl) (fun _ _ => rfl) hs.permitted
          rwa [hsame] at hsettled
  · exact hs

theorem Invariant.putDone (hs : Invariant fileOf s) (platform : Platform) {outcome : UploadOutcome}
    (he : Orderly fileOf platform s (.put k outcome)) : Invariant fileOf (putDone s k outcome) := by
  unfold Uploader.putDone
  split
  · rename_i e hk
    split
    · rename_i hputting
      have hfits := hs.fits k e hk
      have htimer := hfits.timer_eq_none hputting
      -- the entry is through, and its file is removed
      have hremove (hsettles : Note.settles (.answered e.sessionId outcome :: s.log) e.sessionId
          (.answered e.sessionId outcome)) : Invariant fileOf (removeRecording (((s.note (.answered e.sessionId
            outcome)).store k { e with putting := false }).delete e.sessionId) e.sessionId e.file) := by
        rw [htimer]
        refine hs.settle hk (fun h => by cases h) (fun _ => rfl) (fun _ _ => rfl) ?_
        exact each_cons.mpr ⟨⟨hfits.named, _, rfl, hsettles⟩, each_cons.mpr ⟨trivial, hs.permitted⟩⟩
      cases outcome with
      | ok => exact hremove rfl
      | fails retryable freshUrl =>
        dsimp only
        have hcond := he e hk hputting
        -- the entry is no longer sent, and may be armed
        have hchange {url : Option Str} {timer : Option Nat} {l : List Note}
            (hlt : s.Gone fileOf e.sessionId ∨ e.attempts < MAX_ATTEMPTS)
            (harmed : timer ≠ none → s.queue e.sessionId = some k ∨ s.Gone fileOf e.sessionId)
            (hputs : ∀ sessionId, puts sessionId l = puts sessionId s.log)
            (hhalted : ∀ sessionId, halted sessionId l = halted sessionId s.log)
            (hpermitted : Each (Permitted fileOf) l) : Invariant fileOf { s with
              entries := s.entries.set k ⟨e.sessionId, e.file, url, e.attempts, timer, false⟩, log := l } := by
          refine hs.calm (Calmer.set hk (fun h => by cases h) fun _ => .inr hputting) (fun _ _ h => h)
            (fun _ h => h) hputs (fun sessionId _ _ h => (hhalted sessionId).trans h) (fun j d hj hd => ?_)
            (fun j d hj hd => ?_) hpermitted
          · rcases Slots.of_getElem?_set hj with ⟨rfl, rfl⟩ | ⟨-, hj⟩
            · exact ⟨rfl, harmed hd⟩
            · exact (hs.fits j d hj).armed hd
          · by_cases hjk : j = k
            · subst hjk
              cases hk.symm.trans hj
              rcases hlt with hgone | hlt
              · exact .inr (.inl hgone)
              · exact (hfits.exact (.inl hputting)).symm.imp (fun h => lt_of_eq_of_lt h.symm hlt) .inl
            · exact .inr (.inr (Slots.getElem?_set_of_ne hjk hj))
        split
        · rename_i hfresh
          rw [if_pos hfresh] at hcond
          exact hchange hcond (fun h => absurd htimer h) (fun _ => rfl) (fun _ => rfl)
            (each_cons.mpr ⟨trivial, each_cons.mpr ⟨trivial, hs.permitted⟩⟩)
        · rename_i hfresh
          rw [if_neg hfresh] at hcond
          split
          · rename_i hover
            refine hremove ⟨rfl, by simpa using hfresh, ?_⟩
            simp only [Bool.or_eq_true, Bool.not_eq_true', decide_eq_true_eq] at hover
            exact hover.imp_right fun h => h.trans hfits.counted
          · rename_i hagain
            simp only [Bool.or_eq_true, Bool.not_eq_true', decide_eq_true_eq, not_or, Bool.not_eq_false,
              Nat.not_le] at hagain
            exact hchange (.inr hagain.2) (fun _ => (hcond.imp_right fun h => h hagain.1 hagain.2).symm)
              (fun _ => rfl) (fun _ => rfl) (each_cons.mpr ⟨trivial, hs.permitted⟩)
    · exact hs
  · exact hs

theorem Invariant.reject (hs : Invariant fileOf s) (sessionId : Str) : Invariant fileOf (reject s sessionId) := by
  unfold Uploader.reject
  split
  · rename_i k e hget
    obtain rfl := hs.session_of_get hget
    obtain ⟨-, hk⟩ := get_eq_some_iff.mp hget
    refine hs.settle hk id (fun _ => rfl) (fun sessionId hne => ?_) ?_
    · show (decide (e.sessionId = sessionId) || halted sessionId s.log) = _
      simp [Ne.symm hne]
    · exact each_cons.mpr ⟨⟨(hs.fits k e hk).named, _, rfl, rfl⟩, each_cons.mpr ⟨trivial, hs.permitted⟩⟩
  · rename_i hget
    refine hs.note (fun _ => rfl) (fun sessionId' j hj h => ?_) trivial
    have hne : sessionId ≠ sessionId' := by
      rintro rfl
      exact hs.get_ne_none (by simp [hj]) hget
    show (decide (sessionId = sessionId') || halted sessionId' s.log) = false
    simp [hne, h]

theorem Invariant.stop (hs : Invariant fileOf s) : Invariant fileOf (stop s) := by
  have hold : ∀ {j : Nat} {d : QueueEntry}, (Uploader.stop s).entries[j]? = some d → ∃ d₀, s.entries[j]? = some d₀ ∧
      d = if s.queue d₀.sessionId = some j then { d₀ with timer := none } else d₀ := by
    intro j d hj
    obtain ⟨d₀, hd₀, rfl⟩ := map_eq_some_iff.mp (getElem?_mapIdx.symm.trans hj)
    exact ⟨d₀, hd₀, rfl⟩
  have hnew : ∀ {j : Nat} {d₀ : QueueEntry}, s.entries[j]? = some d₀ → (Uploader.stop s).entries[j]? =
      some (if s.queue d₀.sessionId = some j then { d₀ with timer := none } else d₀) := fun hj =>
    getElem?_mapIdx.trans (by rw [hj]; rfl)
  refine hs.calm ⟨fun j d hj => ?_, fun j d hj => ⟨_, hnew hj, by split <;> rfl⟩⟩ (fun _ _ h => by cases h)
    (fun _ h => h) (fun _ => rfl) (fun _ _ h => by cases h) (fun j d hj hd => ?_)
    (fun j d hj hd => ?_) (each_cons.mpr ⟨trivial, hs.permitted⟩)
  · obtain ⟨d₀, hd₀, rfl⟩ := hold hj
    split
    · exact ⟨d₀, _, _, _, hd₀, rfl, fun h => .inr (h.resolve_left (by simp)), id⟩
    · exact ⟨d₀, _, _, _, hd₀, rfl, id, id⟩
  · obtain ⟨d₀, hd₀, rfl⟩ := hold hj
    split at hd
    · exact absurd rfl hd
    · rename_i hqueued
      obtain ⟨hidle, harmed⟩ := (hs.fits j d₀ hd₀).armed hd
      rw [if_neg hqueued]
      exact ⟨hidle, .inr (harmed.resolve_left hqueued)⟩
  · refine .inr (.inr ((hnew hj).trans (congrArg some ?_)))
    split
    · rw [← (hs.fits j d hj).timer_eq_none hd]
    · rfl

/-- Where nothing of a session waits for an answer and its timer is cleared, nothing of it is active. -/
theorem Invariant.clearTimeout (hs : Invariant fileOf s) {sessionId : Str}
    (hclear : ∀ k < s.entries.length, ∀ e ∈ s.entries[k]?, e.sessionId = sessionId →
      e.putting = false ∧ (e.timer ≠ none → s.queue sessionId = some k)) :
    ∃ es, clearTimeout s sessionId = { s with entries := es } ∧ Invariant fileOf { s with entries := es } ∧
      ∀ (j : Nat) d, es[j]? = some d → d.sessionId = sessionId → ¬ d.IsActive := by
  have hown : ∀ {j : Nat} {d : QueueEntry}, s.entries[j]? = some d → d.sessionId = sessionId →
      s.queue sessionId ≠ some j → ¬ d.IsActive := fun hj hsession hne h => by
    obtain ⟨hidle, hqueued⟩ := hclear _ (List.getElem?_eq_some_iff.mp hj).1 _ hj hsession
    exact h.elim (fun harmed => hne (hqueued harmed)) fun h => by cases hidle.symm.trans h
  unfold Uploader.clearTimeout
  split
  · rename_i k e hget
    obtain ⟨hqueued, hk⟩ := get_eq_some_iff.mp hget
    refine ⟨_, rfl, hs.disarm hk, fun j d hj hsession => ?_⟩
    rcases Slots.of_getElem?_set hj with ⟨rfl, rfl⟩ | ⟨hjk, hj⟩
    · simp [QueueEntry.IsActive, (hclear _ (List.getElem?_eq_some_iff.mp hk).1 _ hk hsession).1]
    · exact hown hj hsession fun h => hjk (some.inj (h.symm.trans hqueued))
  · rename_i hget
    exact ⟨_, rfl, hs, fun j d hj hsession => hown hj hsession fun h => hs.get_ne_none (by simp [h]) hget⟩

theorem Invariant.enqueue (hs : Invariant fileOf s) (platform : Platform) {sessionId file url : Str}
    (he : Orderly fileOf platform s (.enqueue sessionId file url)) :
    Invariant fileOf (enqueue s sessionId file url) := by
  obtain ⟨hfile, hremembers, hclear⟩ := he
  obtain ⟨es, hcleared, hs', hquiet⟩ := hs.clearTimeout hclear
  have hlive : ∀ sessionId', halted sessionId' s.log = false ∨ sessionId = sessionId' →
      halted sessionId' (.enqueued sessionId :: s.log) = false := by
    intro sessionId' h
    show (decide (sessionId ≠ sessionId') && halted sessionId' s.log) = false
    rcases h with h | h <;> simp [h]
  have hnote := hs'.note (r := .enqueued sessionId) (fun _ => rfl) (fun _ _ _ h => hlive _ (.inl h)) trivial
  have hexact : (s.Gone fileOf sessionId ∨ ((s.get sessionId).map fun (_, e) => e.attempts).getD 0 =
      puts sessionId s.log) ∧ ((s.get sessionId).map fun (_, e) => e.attempts).getD 0 ≤ puts sessionId s.log := by
    cases hget : s.get sessionId with
    | none =>
      have hremembers := hremembers.resolve_left fun h => hs.get_ne_none h hget
      exact ⟨(hremembers.imp_left Eq.symm).symm, Nat.zero_le _⟩
    | some found =>
      obtain ⟨k, e⟩ := found
      obtain rfl := hs.session_of_get hget
      obtain ⟨hqueued, hk⟩ := get_eq_some_iff.mp hget
      exact ⟨(hs.fits k e hk).exact (.inr hqueued), (hs.fits k e hk).counted⟩
  unfold Uploader.enqueue
  rw [hcleared]
  refine hnote.set ⟨hfile, fun _ _ => hlive _ (.inr rfl), fun _ => ⟨rfl, .inl (update_self _ _ _)⟩,
    fun _ => hexact.1, hexact.2⟩ rfl fun j d hj hsession hd => absurd hd (hquiet j d hj hsession)

theorem Invariant.resumeFile (hs : Invariant fileOf s) (platform : Platform) {file : Str}
    (hfile : file = fileOf (sessionIdOf platform file)) (hremembers : s.Remembers fileOf (sessionIdOf platform file)) :
    Invariant fileOf (resumeFile platform s file) := by
  unfold Uploader.resumeFile
  dsimp only
  split
  · exact hs
  · rename_i hnone
    have hnone : s.queue (sessionIdOf platform file) = none := by simpa using hnone
    have hnote := hs.note (r := .requested (sessionIdOf platform file)) (fun _ => rfl) (fun _ _ _ h => h) trivial
    refine hnote.set ⟨hfile, fun h => ?_, fun h => absurd rfl h, fun _ => ?_, Nat.zero_le _⟩ rfl
      fun j d hj hsession _ => ⟨rfl, fun harmed => ?_⟩
    · exact absurd h (by simp [QueueEntry.IsActive])
    · exact ((hremembers.resolve_left (not_not.mpr hnone)).imp_left Eq.symm).symm
    · refine hsession ▸ ((hs.fits j d hj).armed harmed).2.resolve_left fun h => ?_
      cases hnone.symm.trans (hsession ▸ h)

/-- What is remembered of a session stays so while files are taken up. -/
theorem State.Remembers.resumeFile {sessionId : Str} (h : s.Remembers fileOf sessionId) (platform : Platform)
    (file : Str) : (resumeFile platform s file).Remembers fileOf sessionId := by
  unfold Uploader.resumeFile
  dsimp only
  split
  · exact h
  · refine h.imp_left fun hqueued => ?_
    by_cases heq : sessionId = sessionIdOf platform file
    · subst heq
      exact ne_of_eq_of_ne (update_self _ _ _) (some_ne_none _)
    · exact ne_of_eq_of_ne (update_of_ne heq _ _) hqueued

theorem Invariant.resume (hs : Invariant fileOf s) (platform : Platform) {files : List Str}
    (he : Orderly fileOf platform s (.resume files)) : Invariant fileOf (resume platform s files) := by
  induction files generalizing s with
  | nil => exact hs
  | cons file files ih =>
    obtain ⟨⟨hfile, hremembers⟩, hrest⟩ := forall_mem_cons.mp he
    exact ih (hs.resumeFile platform hfile hremembers) fun file' hmem =>
      ⟨(hrest file' hmem).1, (hrest file' hmem).2.resumeFile platform file⟩

theorem Invariant.step (hs : Invariant fileOf s) (platform : Platform) {e : Event}
    (he : Orderly fileOf platform s e) : Invariant fileOf (step platform s e) := by
  cases e with
  | enqueue => exact hs.enqueue platform he
  | resume => exact hs.resume platform he
  | reject => exact hs.reject _
  | stop => exact hs.stop
  | timer => exact hs.attempt _
  | put => exact hs.putDone platform he
  | vanish file =>
    have hgone : ∀ sessionId, s.Gone fileOf sessionId →
        update s.present file false (fileOf sessionId) = false := by
      intro sessionId h
      by_cases heq : fileOf sessionId = file
      · rw [heq, update_self]
      · exact (update_of_ne heq _ _).trans h
    exact hs.calm (.refl _) (fun _ _ h => h) hgone (fun _ => rfl) (fun _ _ _ h => h)
      (fun j d hj hd => ((hs.fits j d hj).armed hd).imp_right fun h => h.imp_right (hgone _))
      (fun _ _ hj _ => .inr (.inr hj)) hs.permitted

end Steps

theorem invariant_init (platform : Platform) : Invariant fileOf (machine platform).init := by
  constructor <;> simp [machine, puts, MAX_ATTEMPTS]

variable {fileOf}

/-- Along every run whose steps are orderly, uploads are one at a time and bounded. -/
theorem always_bounded (platform : Platform) {tr : List Event}
    (h : (machine platform).Guarded (Orderly fileOf platform) tr) : (machine platform).Always (Bounded fileOf) tr :=
  (h.always (invariant_init fileOf platform) fun _ _ hs he => hs.step platform he).mono fun _ => .of_invariant

instance (s : State) (sessionId : Str) : Decidable (s.Gone fileOf sessionId) :=
  inferInstanceAs (Decidable (_ = _))

instance (s : State) (sessionId : Str) : Decidable (s.Remembers fileOf sessionId) :=
  inferInstanceAs (Decidable (_ ∨ _ ∨ _))

instance (platform : Platform) (s : State) (e : Event) : Decidable (Orderly fileOf platform s e) :=
  match e with
  | .enqueue .. => inferInstanceAs (Decidable (_ ∧ _ ∧ ∀ k < s.entries.length, ∀ e ∈ s.entries[k]?, _))
  | .resume files => inferInstanceAs (Decidable (∀ file ∈ files, _))
  | .put k (.fails ..) => inferInstanceAs (Decidable (∀ e ∈ s.entries[k]?, _))
  | .reject _ | .stop | .timer _ | .put _ .ok | .vanish _ => inferInstanceAs (Decidable True)

/-- The recording of a session, in the directory of the recordings. -/
def recordingFile (sessionId : Str) : Str := text "/var/lib/agent/recordings/" ++ sessionId ++ text ".trec"

/-- A recording of an earlier process gets a destination, fails once and is sent at the second attempt. -/
def resumedRun : List Event :=
  [.resume [recordingFile (text "s")], .enqueue (text "s") (recordingFile (text "s")) (text "https://blob/s"),
    .timer 1, .put 1 (.fails true false), .timer 1, .put 1 .ok]

theorem always_bounded_resumedRun : (machine .linux).Always (Bounded recordingFile) resumedRun :=
  always_bounded .linux (Machine.guarded_iff_guardedFrom.mpr (by decide))

/-- A second destination comes while the recording is sent. -/
def answeredTwice : List Event :=
  [.enqueue (text "s") (recordingFile (text "s")) (text "https://blob/s"), .timer 0,
    .enqueue (text "s") (recordingFile (text "s")) (text "https://blob/s"), .timer 1]

theorem not_always_bounded_answeredTwice : ¬ (machine .linux).Always (Bounded recordingFile) answeredTwice := by
  intro h
  have hsame := h.last.onePut 0 1 ⟨text "s", recordingFile (text "s"), some (text "https://blob/s"), 1, none, true⟩
    ⟨text "s", recordingFile (text "s"), some (text "https://blob/s"), 2, none, true⟩ (by decide)
    (by decide) rfl rfl rfl
  cases hsame

end Rcp.Uploader
