-- SUMMARY: When consent answers reach the prompt they answer: what every step keeps, and the runs with one prompt at a time.
import Tracenium.Rcp.ConsentPrompts

/-! A request reads every response that it finds, and removes the request file whoever it belongs to. -/

open Utf16 List Function Option

namespace Rcp.Consent

def Phase.prompt : Phase → Option Prompt
  | .asking _ => none
  | .polling p _ => some p
  | .answered p _ => some p
  | .settled p _ => p

/-- The request is decided so, or it has still to poll. -/
def Phase.resolves (now due : Nat) (d : Decision) : Phase → Prop
  | .asking _ => False
  | .polling _ _ => now ≤ due
  | .answered _ r => r.decision = d
  | .settled _ d' => d' = d

def State.pending (s : State) (n : Nat) : Option Prompt := s.requests[n]?.bind Phase.pending

/-- The answers reach the prompts that they answer. -/
structure Reaches (s : State) : Prop where
  /-- A request is approved by an approval of its own that was written in time. -/
  approved : ∀ (n : Nat) p, s.requests[n]? = some (.settled (some p) .approved) →
    ∃ w ∈ s.written, w.at_ < p.deadline ∧ ∃ r ∈ w.content, r.requestId = p.requestId ∧ r.approved = true
  /-- An answer that stays and leaves time for a poll decides the request that it was written for. -/
  answered : ∀ (k : Nat) w, s.written[k]? = some w → k ∉ s.overwritten → ∀ r ∈ w.content, ∀ n ∈ w.asked,
    ∀ phase p, s.requests[n]? = some phase → phase.prompt = some p → w.at_ + POLL_MS < p.deadline →
      phase.resolves s.now (w.at_ + POLL_MS) r.decision
  /-- The tray sees the prompt that was published last, as long as it is pending. -/
  shown : ∀ n p, s.last = some n → s.pending n = some p → s.request = some p.file
  removed : ∀ q, s.request = some q → ∃ n p, s.last = some n ∧ s.pending n = some p ∧ p.file = q

/-! ## Reading responses -/

section Consume

variable {requestId : Str} {profiles : List Str} {files : Files}

theorem update_none {files : Files} {profile profile' : Str} {f : ResponseFile}
    (h : update files profile none profile' = some f) : files profile' = some f := by
  by_cases heq : profile' = profile
  · subst heq
    simp at h
  · simpa [heq] using h

/-- Files are removed, and none is added. -/
theorem consume_sub {profile : Str} {f : ResponseFile}
    (h : (consume requestId profiles files).1 profile = some f) : files profile = some f := by
  induction profiles generalizing files with
  | nil => exact h
  | cons p rest ih =>
    unfold consume at h
    split at h
    · exact ih h
    · split at h
      · split at h
        · exact update_none h
        · exact update_none (ih h)
      · exact update_none (ih h)

theorem consume_some {r : Response} (h : (consume requestId profiles files).2 = some r) :
    r.requestId = requestId ∧ ∃ profile f, files profile = some f ∧ f.content = some r := by
  induction profiles generalizing files with
  | nil => simp [consume] at h
  | cons p rest ih =>
    -- what is found after a removal was there before
    have hrest : (consume requestId rest (update files p none)).2 = some r →
        r.requestId = requestId ∧ ∃ profile f, files profile = some f ∧ f.content = some r := by
      intro hr
      obtain ⟨hid, profile, f, hf, hcontent⟩ := ih hr
      exact ⟨hid, profile, f, update_none hf, hcontent⟩
    unfold consume at h
    split at h
    · exact ih h
    · rename_i f hf
      split at h
      · rename_i r' hcontent
        split at h
        · rename_i hid
          cases h
          exact ⟨hid, p, f, hf, hcontent⟩
        · exact hrest h
      · exact hrest h

theorem consume_none (h : (consume requestId profiles files).2 = none) {profile : Str}
    (hprofile : profile ∈ profiles) {f : ResponseFile} (hf : files profile = some f) {r : Response}
    (hr : f.content = some r) : r.requestId ≠ requestId := by
  induction profiles generalizing files with
  | nil => cases hprofile
  | cons p rest ih =>
    by_cases hp : profile = p
    · subst hp
      intro hid
      simp [consume, hf, hr, hid] at h
    · have hrest : profile ∈ rest := (mem_cons.mp hprofile).resolve_left hp
      have hkept : update files p none profile = some f := by simpa [hp] using hf
      unfold consume at h
      split at h
      · exact ih h hrest hf
      · split at h
        · split at h
          · cases h
          · exact ih h hrest hkept
        · exact ih h hrest hkept

end Consume

/-! ## The invariant -/

/-- An answer still lies where it was written when the request polls next, or the request has one. -/
def Phase.stands (files : Files) (k : Nat) (w : Written) : Phase → Prop
  | .asking _ => False
  | .polling _ wake => wake ≤ w.at_ + POLL_MS ∧ files w.profile = some ⟨k, w.content⟩
  | .answered _ _ => True
  | .settled _ d => d ≠ .timeout

/-- There is a response of the request that was written in time. -/
def Backed (s : State) (p : Prompt) (r : Response) : Prop :=
  r.requestId = p.requestId ∧ ∃ w ∈ s.written, w.content = some r ∧ w.at_ < p.deadline

/-- What is known of a request by its phase. -/
structure Known (s : State) (phase : Phase) : Prop where
  wake : ∀ p wake, phase = .polling p wake → s.now ≤ wake ∧ wake ≤ s.now + POLL_MS
  answered : ∀ p r, phase = .answered p r → Backed s p r
  settled : ∀ p d, phase = .settled (some p) d → d = .timeout ∨ ∃ r, d = r.decision ∧ Backed s p r

/-- What is known of a response by the phase of a request that it was written for. -/
structure Serves (s : State) (k : Nat) (w : Written) (r : Response) (phase : Phase) : Prop where
  prompt : ∃ p, phase.prompt = some p ∧ p.requestId = r.requestId
  stands : ∀ p, phase.prompt = some p → w.at_ + POLL_MS < p.deadline → phase.stands s.files k w

structure Invariant (profiles : List Str) (s : State) : Prop where
  single : ∀ n m p q, s.pending n = some p → s.pending m = some q → n = m
  shown : ∀ n p, s.pending n = some p → s.last = some n ∧ s.request = some p.file
  removed : ∀ q, s.request = some q → ∃ n p, s.last = some n ∧ s.pending n = some p ∧ p.file = q
  known : ∀ (n : Nat) phase, s.requests[n]? = some phase → Known s phase
  files : ∀ profile f, s.files profile = some f →
    ∃ w, s.written[f.serial]? = some w ∧ w.profile = profile ∧ w.content = f.content
  written : ∀ w ∈ s.written, w.profile ∈ profiles ∧ w.at_ ≤ s.now
  agree : ∀ w ∈ s.written, ∀ w' ∈ s.written, ∀ r ∈ w.content, ∀ r' ∈ w'.content,
    r.requestId = r'.requestId → r.approved = r'.approved
  serves : ∀ (k : Nat) w, s.written[k]? = some w → k ∉ s.overwritten → ∀ r ∈ w.content, ∀ n ∈ w.asked,
    ∃ phase, s.requests[n]? = some phase ∧ Serves s k w r phase

theorem Invariant.decision_eq {profiles : List Str} {s : State} (hs : Invariant profiles s) {w : Written}
    (hw : w ∈ s.written) {r : Response} (hr : r ∈ w.content) {p : Prompt} (hp : p.requestId = r.requestId)
    {r' : Response} (hbacked : Backed s p r') : r'.decision = r.decision := by
  obtain ⟨hid, w', hw', hr', -⟩ := hbacked
  have happroved := hs.agree w' hw' w hw r' hr' r hr (hid.trans hp)
  simp [Response.decision, happroved]

theorem Reaches.of_invariant {profiles : List Str} {s : State} (hs : Invariant profiles s) : Reaches s where
  approved n p hn := by
    rcases (hs.known n _ hn).settled p _ rfl with h | ⟨r, hd, hid, w, hw, hr, hlt⟩
    · cases h
    · refine ⟨w, hw, hlt, r, hr, hid, ?_⟩
      by_contra hdenied
      simp [Response.decision, hdenied] at hd
  answered k w hw hk r hr n hn phase p hphase hp hlt := by
    obtain ⟨phase', hphase', ⟨p', hp', hid⟩, hstands⟩ := hs.serves k w hw hk r hr n hn
    cases hphase.symm.trans hphase'
    cases hp.symm.trans hp'
    have hknown := hs.known n phase hphase
    have hstand := hstands p hp hlt
    have hmem := mem_of_getElem? hw
    cases phase with
    | asking _ => exact hstand
    | polling p' wake => exact (hknown.wake p' wake rfl).1.trans hstand.1
    | answered p' r' =>
      cases hp
      exact hs.decision_eq hmem hr hid (hknown.answered p r' rfl)
    | settled p' d =>
      cases hp
      rcases hknown.settled p d rfl with htimeout | ⟨r', rfl, hbacked⟩
      · exact absurd htimeout hstand
      · exact hs.decision_eq hmem hr hid hbacked
  shown n p _ hn := (hs.shown n p hn).2
  removed := hs.removed

/-! ## Steps -/

section Steps

variable {profiles : List Str} {s : State}

theorem pending_eq_some {n : Nat} {p : Prompt} :
    s.pending n = some p ↔ ∃ phase, s.requests[n]? = some phase ∧ phase.pending = some p := by
  simp [State.pending, bind_eq_some_iff]

/-- The phase of one request is replaced while no other is pending. -/
theorem Invariant.replace (hs : Invariant profiles s) {n : Nat} {old new : Phase} {files : Files}
    {request : Option RequestFile} {last : Option Nat} (hold : s.requests[n]? = some old)
    (hfiles : ∀ profile f, files profile = some f → s.files profile = some f)
    (hothers : ∀ m p, s.pending m = some p → m = n) (hknown : Known s new)
    (hshown : ∀ p, new.pending = some p → last = some n ∧ request = some p.file)
    (hremoved : ∀ q, request = some q → last = some n ∧ ∃ p, new.pending = some p ∧ p.file = q)
    (hserves : ∀ (k : Nat) w, s.written[k]? = some w → ∀ r ∈ w.content, Serves s k w r old →
      (∃ p, new.prompt = some p ∧ p.requestId = r.requestId) ∧
        ∀ p, new.prompt = some p → w.at_ + POLL_MS < p.deadline → new.stands files k w) :
    Invariant profiles { s with files := files, request := request, last := last, requests := s.requests.set n new } := by
  have hlength : n < s.requests.length := (List.getElem?_eq_some_iff.mp hold).1
  have hself : (s.requests.set n new)[n]? = some new := by simp [hlength]
  have hother : ∀ {m}, m ≠ n → (s.requests.set n new)[m]? = s.requests[m]? := fun hm => by
    simp [Ne.symm hm]
  -- the other requests are not pending
  have hpending : ∀ {m p}, (s.requests.set n new)[m]?.bind Phase.pending = some p →
      m = n ∧ new.pending = some p := by
    intro m p hm
    by_cases heq : m = n
    · subst heq
      rw [hself] at hm
      exact ⟨rfl, hm⟩
    · rw [hother heq] at hm
      exact absurd (hothers m p hm) heq
  refine ⟨?_, ?_, ?_, ?_, ?_, hs.written, hs.agree, ?_⟩
  · exact fun m m' p q hm hm' => (hpending hm).1.trans (hpending hm').1.symm
  · intro m p hm
    obtain ⟨rfl, hnew⟩ := hpending hm
    exact hshown p hnew
  · intro q hq
    obtain ⟨hlast, p, hnew, hp⟩ := hremoved q hq
    refine ⟨n, p, hlast, ?_, hp⟩
    simp [State.pending, hself, hnew]
  · intro m phase hm
    by_cases heq : m = n
    · subst heq
      cases hself.symm.trans hm
      exact ⟨hknown.wake, hknown.answered, hknown.settled⟩
    · have h := hs.known m phase ((hother heq).symm.trans hm)
      exact ⟨h.wake, h.answered, h.settled⟩
  · exact fun profile f hf => hs.files profile f (hfiles profile f hf)
  · intro k w hw hk r hr m hm
    obtain ⟨phase, hphase, hserve⟩ := hs.serves k w hw hk r hr m hm
    by_cases heq : m = n
    · subst heq
      cases hold.symm.trans hphase
      obtain ⟨hprompt, hstands⟩ := hserves k w hw r hr hserve
      exact ⟨new, hself, hprompt, hstands⟩
    · refine ⟨phase, (hother heq).trans hphase, hserve.prompt, fun p hp hlt => ?_⟩
      have hstand := hserve.stands p hp hlt
      cases phase with
      | polling p' wake =>
        exact absurd (hothers m p' (pending_eq_some.mpr ⟨_, hphase, rfl⟩)) heq
      | _ => exact hstand

/-- A request that was not published ends. -/
theorem Invariant.unavailable (hs : Invariant profiles s) {n : Nat} {r : Request}
    (hn : s.requests[n]? = some (.asking r)) : Invariant profiles (s.put n (.settled none .unavailable)) := by
  have hlength : n < s.requests.length := (List.getElem?_eq_some_iff.mp hn).1
  have hself : (s.requests.set n (.settled none .unavailable))[n]? = some (.settled none .unavailable) := by
    simp [hlength]
  have hother : ∀ {m}, m ≠ n → (s.requests.set n (.settled none .unavailable))[m]? = s.requests[m]? :=
    fun hm => by simp [Ne.symm hm]
  have hpending : ∀ m, (s.put n (.settled none .unavailable)).pending m = s.pending m := by
    intro m
    by_cases heq : m = n
    · subst heq
      simp [State.pending, State.put, hself, hn, Phase.pending]
    · simp [State.pending, State.put, hother heq]
  refine ⟨?_, ?_, ?_, ?_, hs.files, hs.written, hs.agree, ?_⟩
  · simpa only [hpending] using hs.single
  · intro m p hm
    exact hs.shown m p (hpending m ▸ hm)
  · intro q hq
    obtain ⟨m, p, hlast, hm, hp⟩ := hs.removed q hq
    exact ⟨m, p, hlast, (hpending m).trans hm, hp⟩
  · intro m phase hm
    by_cases heq : m = n
    · subst heq
      cases hself.symm.trans hm
      exact ⟨by simp, by simp, by simp⟩
    · have h := hs.known m phase ((hother heq).symm.trans hm)
      exact ⟨h.wake, h.answered, h.settled⟩
  · intro k w hw hk r' hr m hm
    obtain ⟨phase, hphase, hserve⟩ := hs.serves k w hw hk r' hr m hm
    have heq : m ≠ n := by
      rintro rfl
      cases hn.symm.trans hphase
      obtain ⟨p, hp, -⟩ := hserve.prompt
      cases hp
    exact ⟨phase, (hother heq).trans hphase, hserve.prompt, hserve.stands⟩

/-- A new request. -/
theorem Invariant.request (hs : Invariant profiles s) (r : Request) :
    Invariant profiles { s with requests := s.requests ++ [.asking r] } := by
  have hget : ∀ (m : Nat) phase, (s.requests ++ [.asking r])[m]? = some phase →
      s.requests[m]? = some phase ∨ phase = .asking r := by
    intro m phase hm
    rw [getElem?_append] at hm
    split at hm
    · exact .inl hm
    · exact .inr (mem_singleton.mp (mem_of_getElem? hm))
  have hpending : ∀ m, ({ s with requests := s.requests ++ [.asking r] } : State).pending m = s.pending m := by
    intro m
    simp only [State.pending, getElem?_append]
    split
    · rfl
    · rename_i hm
      rw [getElem?_eq_none (Nat.le_of_not_lt hm)]
      cases h : ([Phase.asking r] : List Phase)[m - s.requests.length]? with
      | none => rfl
      | some phase =>
        rw [mem_singleton.mp (mem_of_getElem? h)]
        rfl
  refine ⟨?_, ?_, ?_, ?_, hs.files, hs.written, hs.agree, ?_⟩
  · simpa only [hpending] using hs.single
  · intro m p hm
    exact hs.shown m p (hpending m ▸ hm)
  · intro q hq
    obtain ⟨m, p, hlast, hm, hp⟩ := hs.removed q hq
    exact ⟨m, p, hlast, (hpending m).trans hm, hp⟩
  · intro m phase hm
    rcases hget m phase hm with h | rfl
    · have hk := hs.known m phase h
      exact ⟨hk.wake, hk.answered, hk.settled⟩
    · exact ⟨by simp, by simp, by simp⟩
  · intro k w hw hk r' hr m hm
    obtain ⟨phase, hphase, hserve⟩ := hs.serves k w hw hk r' hr m hm
    refine ⟨phase, ?_, hserve.prompt, hserve.stands⟩
    rw [List.getElem?_append_left (List.getElem?_eq_some_iff.mp hphase).1, hphase]

/-- A turn of the loop, when it is the only prompt. An answer that lies there in time is found. -/
theorem Invariant.loop (hs : Invariant profiles s) {n : Nat} {old : Phase} {p : Prompt}
    (hold : s.requests[n]? = some old) (hphase : (∃ r, old = .asking r) ∨ old = .polling p s.now)
    (hothers : ∀ m q, s.pending m = some q → m = n) :
    Invariant profiles (Consent.loop profiles { s with request := some p.file, last := some n } n p) := by
  have hpolling : ∀ {k w r}, Serves s k w r old → p.requestId = r.requestId ∧
      (w.at_ + POLL_MS < p.deadline → s.now ≤ w.at_ + POLL_MS ∧ s.files w.profile = some ⟨k, w.content⟩) := by
    intro k w r hserve
    obtain ⟨p', hp', hid⟩ := hserve.prompt
    rcases hphase with ⟨r', rfl⟩ | rfl
    · cases hp'
    · cases hp'
      exact ⟨hid, hserve.stands p rfl⟩
  unfold Consent.loop
  split
  · rename_i hlt
    cases hconsume : consume p.requestId profiles s.files with
    | mk files answer =>
      have hfiles : ∀ profile f, files profile = some f → s.files profile = some f := by
        intro profile f hf
        have hsub : (consume p.requestId profiles s.files).1 profile = some f := by
          rw [hconsume]
          exact hf
        exact consume_sub hsub
      cases answer with
      | some r =>
        have hbacked : Backed s p r := by
          obtain ⟨hid, profile, f, hf, hcontent⟩ := consume_some (congrArg Prod.snd hconsume)
          obtain ⟨w, hw, -, hwcontent⟩ := hs.files profile f hf
          have hmem := mem_of_getElem? hw
          exact ⟨hid, w, hmem, hwcontent.trans hcontent, (hs.written w hmem).2.trans_lt hlt⟩
        refine hs.replace hold hfiles hothers ⟨by simp, ?_, by simp⟩ ?_ ?_ ?_
        · intro p' r' heq
          cases heq
          exact hbacked
        · intro p' hp'
          cases hp'
          exact ⟨rfl, rfl⟩
        · intro q hq
          cases hq
          exact ⟨rfl, p, rfl, rfl⟩
        · exact fun k w _ r' _ hserve => ⟨⟨p, rfl, (hpolling hserve).1⟩, fun _ _ _ => trivial⟩
      | none =>
        refine hs.replace hold hfiles hothers ⟨?_, by simp, by simp⟩ ?_ ?_ ?_
        · intro p' wake heq
          cases heq
          exact ⟨Nat.le_add_right _ _, le_rfl⟩
        · intro p' hp'
          cases hp'
          exact ⟨rfl, rfl⟩
        · intro q hq
          cases hq
          exact ⟨rfl, p, rfl, rfl⟩
        · intro k w hw r hr hserve
          obtain ⟨hid, hstand⟩ := hpolling hserve
          refine ⟨⟨p, rfl, hid⟩, fun p' hp' hdue => ?_⟩
          cases hp'
          -- an answer of the request would have been found
          obtain ⟨-, hfile⟩ := hstand hdue
          have hprofile := (hs.written w (mem_of_getElem? hw)).1
          exact absurd hid.symm (consume_none (congrArg Prod.snd hconsume) hprofile hfile hr)
  · rename_i hle
    refine hs.replace hold (fun _ _ h => h) hothers ⟨by simp, by simp, ?_⟩ (by simp [Phase.pending]) (by simp) ?_
    · intro p' d heq
      cases heq
      exact .inl rfl
    · intro k w _ r _ hserve
      obtain ⟨hid, hstand⟩ := hpolling hserve
      refine ⟨⟨p, rfl, hid⟩, fun p' hp' hdue => ?_⟩
      cases hp'
      exact absurd ((hstand hdue).1.trans_lt hdue) hle

/-- An answered request resolves, and takes its prompt down. -/
theorem Invariant.settle (hs : Invariant profiles s) {n : Nat} {p : Prompt} {r : Response}
    (hn : s.requests[n]? = some (.answered p r)) : Invariant profiles (Consent.settle s n p r.decision) := by
  have hpending : s.pending n = some p := pending_eq_some.mpr ⟨_, hn, rfl⟩
  have hbacked := (hs.known n _ hn).answered p r rfl
  refine hs.replace hn (fun _ _ h => h) (fun m q hm => hs.single m n q p hm hpending) ⟨by simp, by simp, ?_⟩
    (by simp [Phase.pending]) (by simp) ?_
  · intro p' d heq
    cases heq
    exact .inr ⟨r, rfl, hbacked⟩
  · intro k w _ r' _ hserve
    obtain ⟨p', hp', hid⟩ := hserve.prompt
    cases hp'
    refine ⟨⟨p, rfl, hid⟩, fun _ _ _ => ?_⟩
    cases hd : r.approved <;> simp [Phase.stands, Response.decision, hd]

theorem mem_askedBy {content : Option Response} {n : Nat} (h : n ∈ s.askedBy content) :
    ∃ p r, s.pending n = some p ∧ content = some r ∧ r.requestId = p.requestId := by
  have hany : ((s.pending n).map Prompt.requestId).any (fun id => content.any (·.requestId = id)) :=
    (mem_filter.mp h).2
  cases hp : s.pending n with
  | none => simp [hp] at hany
  | some p =>
    cases content with
    | none => simp at hany
    | some r => exact ⟨p, r, rfl, rfl, by simpa [hp] using hany⟩

/-- The tray writes a response that agrees with those that it wrote under the same id. -/
theorem Invariant.respond (hs : Invariant profiles s) {profile : Str} (hprofile : profile ∈ profiles)
    {content : Option Response} (hagree : ∀ r ∈ content, ∀ w ∈ s.written, ∀ r' ∈ w.content,
      r'.requestId = r.requestId → r'.approved = r.approved) : Invariant profiles { s with
      files := update s.files profile (some ⟨s.written.length, content⟩)
      written := s.written ++ [⟨profile, content, s.now, s.askedBy content⟩]
      overwritten := (s.files profile).toList.map ResponseFile.serial ++ s.overwritten } := by
  have hbacked : ∀ {p r}, Backed s p r → Backed { s with
      files := update s.files profile (some ⟨s.written.length, content⟩)
      written := s.written ++ [⟨profile, content, s.now, s.askedBy content⟩]
      overwritten := (s.files profile).toList.map ResponseFile.serial ++ s.overwritten } p r :=
    fun ⟨hid, w, hw, h⟩ => ⟨hid, w, mem_append_left _ hw, h⟩
  refine ⟨hs.single, hs.shown, hs.removed, fun n phase hn => ?_, fun profile' f hf => ?_, fun w hw => ?_,
    fun w hw w' hw' r hr r' hr' hid => ?_, fun k w hw hk r hr n hn => ?_⟩
  · have h := hs.known n phase hn
    exact ⟨h.wake, fun p r hphase => hbacked (h.answered p r hphase),
      fun p d hphase => (h.settled p d hphase).imp_right fun ⟨r, hd, hr⟩ => ⟨r, hd, hbacked hr⟩⟩
  · by_cases heq : profile' = profile
    · subst heq
      simp only [update_self, some.injEq] at hf
      subst hf
      exact ⟨⟨profile', content, s.now, s.askedBy content⟩, by simp, rfl, rfl⟩
    · obtain ⟨w, hw, h⟩ := hs.files profile' f (by simpa [heq] using hf)
      exact ⟨w, by rw [List.getElem?_append_left (List.getElem?_eq_some_iff.mp hw).1, hw], h⟩
  · rcases mem_append.mp hw with hw | hw
    · exact hs.written w hw
    · rw [mem_singleton.mp hw]
      exact ⟨hprofile, le_rfl⟩
  · rcases mem_append.mp hw with hw | hw <;> rcases mem_append.mp hw' with hw' | hw'
    · exact hs.agree w hw w' hw' r hr r' hr' hid
    · rw [mem_singleton.mp hw'] at hr'
      exact hagree r' hr' w hw r hr hid
    · rw [mem_singleton.mp hw] at hr
      exact (hagree r hr w' hw' r' hr' hid.symm).symm
    · rw [mem_singleton.mp hw] at hr
      rw [mem_singleton.mp hw'] at hr'
      cases mem_unique hr hr'
      rfl
  · simp only [mem_append, not_or] at hk
    rw [getElem?_append] at hw
    split at hw
    · obtain ⟨phase, hphase, hserve⟩ := hs.serves k w hw hk.2 r hr n hn
      refine ⟨phase, hphase, hserve.prompt, fun p hp hlt => ?_⟩
      have hstand := hserve.stands p hp hlt
      cases phase with
      | polling p' wake =>
        refine ⟨hstand.1, ?_⟩
        -- what is written over is listed
        have hne : w.profile ≠ profile := by
          rintro rfl
          exact hk.1 (by simp [hstand.2])
        simpa [hne] using hstand.2
      | _ => exact hstand
    · rename_i hlength
      have hmem := mem_of_getElem? hw
      rw [mem_singleton.mp hmem] at hr hn ⊢
      have hklength : k = s.written.length := by
        have hlt := (List.getElem?_eq_some_iff.mp hw).1
        simp only [length_singleton] at hlt
        omega
      obtain ⟨p, r', hpending, hr', hid⟩ := mem_askedBy hn
      obtain ⟨phase, hphase, hp⟩ := pending_eq_some.mp hpending
      cases mem_unique hr hr'
      have hknown := hs.known n phase hphase
      cases phase with
      | polling p' wake =>
        cases hp
        refine ⟨_, hphase, ⟨p, rfl, hid.symm⟩, fun p' hp' _ => ?_⟩
        exact ⟨(hknown.wake p wake rfl).2, by simp [hklength]⟩
      | answered p' r' =>
        cases hp
        exact ⟨_, hphase, ⟨p, rfl, hid.symm⟩, fun _ _ _ => trivial⟩
      | asking _ => cases hp
      | settled _ _ => cases hp

theorem Invariant.tick (hs : Invariant profiles s) {d : Nat} (hdue : ¬ s.requests.any (·.due (s.now + d))) :
    Invariant profiles { s with now := s.now + d } := by
  refine ⟨hs.single, hs.shown, hs.removed, fun n phase hn => ?_, hs.files, fun w hw => ?_, hs.agree, ?_⟩
  · have h := hs.known n phase hn
    refine ⟨fun p wake hphase => ?_, h.answered, h.settled⟩
    have hwake : s.now + d ≤ wake := by
      by_contra hlt
      refine hdue (any_eq_true.mpr ⟨phase, mem_of_getElem? hn, ?_⟩)
      simpa [hphase, Phase.due] using hlt
    exact ⟨hwake, (h.wake p wake hphase).2.trans (by dsimp only; omega)⟩
  · exact ⟨(hs.written w hw).1, (hs.written w hw).2.trans (Nat.le_add_right _ _)⟩
  · intro k w hw hk r hr n hn
    obtain ⟨phase, hphase, hserve⟩ := hs.serves k w hw hk r hr n hn
    exact ⟨phase, hphase, hserve.prompt, hserve.stands⟩

end Steps

/-! ## Runs -/

/-- One prompt is up at a time, and the responses to one request agree. -/
def Alone (s : State) : Event → Prop
  | .console n true _ => (∃ r, s.requests[n]? = some (.asking r)) → ∀ m, s.pending m = none
  | .respond _ content => ∀ r ∈ content, ∀ w ∈ s.written, ∀ r' ∈ w.content,
      r'.requestId = r.requestId → r'.approved = r.approved
  | _ => True

theorem invariant_init (profiles : List Str) : Invariant profiles (machine profiles).init := by
  constructor <;> simp [machine, State.pending]

theorem invariant_step (profiles : List Str) (s : State) (e : Event) (hs : Invariant profiles s)
    (he : Alone s e) : Invariant profiles (step profiles s e) := by
  cases e with
  | request r => exact hs.request r
  | console n user recording =>
    unfold step
    dsimp only
    split
    · rename_i r hn
      split
      · rename_i huser
        subst huser
        have hnone := he ⟨r, hn⟩
        exact hs.loop hn (.inl ⟨r, rfl⟩) fun m q hm => by simp [hnone m] at hm
      · exact hs.unavailable hn
    · exact hs
  | poll n =>
    unfold step
    dsimp only
    split
    · rename_i p wake hn
      split
      · rename_i hwake
        have hpending : s.pending n = some p := pending_eq_some.mpr ⟨_, hn, rfl⟩
        obtain ⟨hlast, hrequest⟩ := hs.shown n p hpending
        have hloop := hs.loop hn (.inr (by rw [hwake])) fun m q hm => hs.single m n q p hm hpending
        rwa [← hlast, ← hrequest] at hloop
      · exact hs
    · exact hs
  | identified n =>
    unfold step
    dsimp only
    split
    · exact hs.settle ‹_›
    · exact hs
  | respond profile content =>
    unfold step
    dsimp only
    split
    · exact hs.respond (by simpa using ‹profiles.contains profile›) he
    · exact hs
  | tick d =>
    unfold step
    dsimp only
    split
    · exact hs
    · exact hs.tick ‹_›

/-- In a run with one prompt at a time, whose responses agree, the answers reach their prompts. -/
theorem always_reaches (profiles : List Str) {tr : List Event}
    (h : (machine profiles).Guarded Alone tr) : (machine profiles).Always Reaches tr :=
  (h.always (invariant_init profiles) (invariant_step profiles)).mono fun _ => .of_invariant

/-! ## Sample runs -/

theorem pending_eq_none {s : State} (h : ∀ phase ∈ s.requests, phase.pending = none) (n : Nat) :
    s.pending n = none := by
  rw [State.pending, bind_eq_none_iff]
  exact fun phase hphase => h phase (mem_of_getElem? hphase)

def ana : List Str := [text "ana"]

def viewRequest (sessionId : String) : Request := ⟨text sessionId, text "rcp.screen", text "Op", 60⟩

def approval (requestId : String) : Option Response := some ⟨text requestId, true, some (text "ana")⟩

def orderlyRun : List Event :=
  [.request (viewRequest "s1"), .console 0 true false, .tick 100, .respond (text "ana") (approval "s1.view.0"),
    .tick 200, .poll 0, .identified 0, .request (viewRequest "s2"), .console 1 true false]

theorem always_reaches_orderlyRun : (machine ana).Always Reaches orderlyRun := by
  refine always_reaches ana (Machine.guarded_iff_guardedFrom.mpr ?_)
  refine ⟨trivial, fun _ => pending_eq_none (by decide), trivial, fun r _ w hw => ?_, trivial, trivial,
    trivial, trivial, fun _ => pending_eq_none (by decide +kernel), trivial⟩
  have hnone : ((machine ana).run (orderlyRun.take 3)).written = [] := by decide
  exact absurd (hnone ▸ hw) not_mem_nil

/-- Two prompts are up, and the approval of the second one is read by the request of the first one. -/
def crossedRun : List Event :=
  [.request (viewRequest "s1"), .request (viewRequest "s2"), .console 0 true false, .tick 10,
    .console 1 true false, .tick 10, .respond (text "ana") (approval "s2.view.10"), .tick 280, .poll 0,
    .tick 10, .poll 1, .tick 11]

theorem not_always_reaches_crossedRun : ¬ (machine ana).Always Reaches crossedRun := by
  intro h
  have hwritten : ((machine ana).run crossedRun).written[0]? =
      some ⟨text "ana", approval "s2.view.10", 20, [1]⟩ := by decide +kernel
  have hkept : 0 ∉ ((machine ana).run crossedRun).overwritten := by decide
  have hphase : ((machine ana).run crossedRun).requests[1]? =
      some (.polling (publish 10 (viewRequest "s2") false) 610) := by decide +kernel
  have hlate := h.last.answered 0 _ hwritten hkept _ rfl 1 (by decide) _ _ hphase rfl (by decide)
  have hnow : ((machine ana).run crossedRun).now = 321 := by decide
  simp [Phase.resolves, hnow, POLL_MS] at hlate

end Rcp.Consent
