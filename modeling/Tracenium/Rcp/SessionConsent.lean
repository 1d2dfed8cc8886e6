-- SUMMARY: When consent and hard cap belong to one session: the two invariants of a session's record, and the runs that leave nothing behind.
import Tracenium.Rcp.SessionManager

open Utf16 Option List

namespace Rcp.Sessions

open State

/-- Each peer that needs the consent of the user has one. -/
def Asked (log : List Entry) : Prop :=
  ∀ sessionId since capAt timeout es, .built sessionId true since capAt timeout :: es <:+ log → consented es = true

/-- Each peer that is rebuilt is capped by the start of its session. -/
def Capped (log : List Entry) : Prop :=
  ∀ sessionId asks since capAt timeout es start, .built sessionId asks since capAt timeout :: es <:+ log →
    startOf es = some start → capAt ≤ start + timeout * 1000

/-- Consent and cap are of one session, and nothing is kept of an ended one. -/
structure Owned (s : State) : Prop where
  asked : ∀ sessionId, Asked (s.log sessionId)
  capped : ∀ sessionId, Capped (s.log sessionId)
  forgotten : ∀ sessionId, ended (s.log sessionId) = true → s.awaits sessionId = false →
    sessionId ∉ s.consentGranted ∧ s.sessionStartedAt sessionId = none ∧ s.sessionUfrag sessionId = none ∧
      s.pendingIce.get sessionId = none

/-! ## Records -/

namespace Kept

structure Consistent (k : Kept) : Prop where
  consent : k.consent = true → consented k.log = true
  start : k.startedAt = startOf k.log
  asked : Asked k.log
  capped : Capped k.log

structure Remembered (k : Kept) : Prop extends Consistent k where
  gone : ended k.log = true → k.consent = false

/-- Neither ICE credentials nor candidates are left of an ended session that nobody awaits. -/
def Forgotten (k : Kept) : Prop :=
  ended k.log = true → k.awaited = true ∨ k.ufrag = none ∧ k.ice = none

variable {k : Kept}

theorem Consistent.note (hk : k.Consistent) {e : Entry} (hbuilt : ∀ sessionId asks since capAt timeout,
    e ≠ .built sessionId asks since capAt timeout) : Asked (e :: k.log) ∧ Capped (e :: k.log) := by
  constructor
  · intro sessionId since capAt timeout es hsuffix
    rcases suffix_cons_iff.mp hsuffix with heq | hsuffix
    · cases heq
      exact absurd rfl (hbuilt _ _ _ _ _)
    · exact hk.asked _ _ _ _ _ hsuffix
  · intro sessionId asks since capAt timeout es start hsuffix hstart
    rcases suffix_cons_iff.mp hsuffix with heq | hsuffix
    · cases heq
      exact absurd rfl (hbuilt _ _ _ _ _)
    · exact hk.capped _ _ _ _ _ _ _ hsuffix hstart

/-- A session that ends, with nothing remembered of it. -/
theorem Consistent.ends (hk : k.Consistent) {k' : Kept} {e : Entry} (he : e.ends)
    (hconsent : k'.consent = false) (hstart : k'.startedAt = none) (hlog : k'.log = e :: k.log) : k'.Remembered := by
  obtain ⟨hended, -, hstartOf⟩ := ended_cons he k.log
  obtain ⟨hasked, hcapped⟩ := hk.note (e := e) (by rintro _ _ _ _ _ rfl; cases he)
  exact
    { consent := by simp [hconsent]
      start := by rw [hstart, hlog, hstartOf]
      asked := hlog ▸ hasked
      capped := hlog ▸ hcapped
      gone := fun _ => hconsent }

/-- The approval is noted and kept. -/
theorem Consistent.approves (hk : k.Consistent) (sessionId : Str) :
    Consistent { k with consent := true, log := .approved sessionId :: k.log } := by
  obtain ⟨hasked, hcapped⟩ := hk.note (e := .approved sessionId) (by rintro _ _ _ _ _ ⟨⟩)
  exact ⟨fun _ => rfl, hk.start, hasked, hcapped⟩

/-- A peer is built after a whole number of seconds: the cap is at the second. -/
theorem Consistent.builds (hk : k.Consistent) {k' : Kept} {now capAt timeout : Nat} {sessionId : Str} {asks : Bool}
    (hasks : asks → k.consent) (hwhole : ∀ start ∈ k.startedAt, start ≤ now ∧ (now - start) % 1000 = 0)
    (hexpired : ¬ timeout ≤ (now - k.startedAt.getD now) / 1000)
    (hcapAt : capAt = now + (timeout - (now - k.startedAt.getD now) / 1000) * 1000)
    (hconsent : k'.consent = k.consent) (hstart : k'.startedAt = some (k.startedAt.getD now))
    (hlog : k'.log = .built sessionId asks now capAt timeout :: k.log) : k'.Remembered := by
  refine ⟨⟨fun h => ?_, ?_, ?_, ?_⟩, fun h => ?_⟩
  · rw [hlog]
    exact hk.consent (hconsent ▸ h)
  · rw [hstart, hlog, startOf, hk.start]
  · rw [hlog]
    intro sessionId since capAt timeout es hsuffix
    rcases suffix_cons_iff.mp hsuffix with heq | hsuffix
    · cases heq
      exact hk.consent (hasks rfl)
    · exact hk.asked _ _ _ _ _ hsuffix
  · rw [hlog]
    intro sessionId asks since capAt' timeout es start hsuffix hstartOf
    rcases suffix_cons_iff.mp hsuffix with heq | hsuffix
    · cases heq
      have hstarted := hk.start.trans hstartOf
      obtain ⟨hle, hmod⟩ := hwhole start hstarted
      simp only [hstarted, getD_some] at hexpired
      simp only [hcapAt, hstarted, getD_some]
      omega
    · exact hk.capped _ _ _ _ _ _ _ hsuffix hstartOf
  · rw [hlog] at h
    cases h

/-- What is no consent, start or history does not matter. -/
theorem Remembered.frame (hk : k.Remembered) {k' : Kept} (hconsent : k'.consent = k.consent)
    (hstart : k'.startedAt = k.startedAt) (hlog : k'.log = k.log) : k'.Remembered := by
  obtain ⟨consent, startedAt, ufrag, ice, awaited, log⟩ := k'
  cases hconsent
  cases hstart
  cases hlog
  exact ⟨⟨hk.consent, hk.start, hk.asked, hk.capped⟩, hk.gone⟩

end Kept

/-! ## Conditions -/

/-- The fields are there, and no peer is registered for the session. -/
def Admits (s : State) (o : Offer) : Prop :=
  ¬ (o.sessionId = [] ∨ o.sdp = [] ∨ o.capability = []) ∧ s.sessions.get o.sessionId = none

/-- Neither a consent nor a start is kept for the session. -/
def Fresh (s : State) (sessionId : Str) : Prop :=
  s.consentGranted.contains sessionId = false ∧ s.sessionStartedAt sessionId = none

/-- A whole number of seconds has passed since the start that is kept. -/
def OnTheSecond (s : State) (sessionId : Str) : Prop :=
  ∀ start ∈ s.sessionStartedAt sessionId, start ≤ s.now ∧ (s.now - start) % 1000 = 0

/-- Neither ICE credentials nor candidates are kept for the session. -/
def Quiet (s : State) (sessionId : Str) : Prop :=
  s.sessionUfrag sessionId = none ∧ s.pendingIce.get sessionId = none

/-- What the gates do to an offer leaves no consent and no start behind. -/
def ClearingGates (s : State) (o : Offer) (policy : Policy) : Prop :=
  (refusal s o policy ≠ none → Fresh s o.sessionId) ∧ (Builds s o policy → OnTheSecond s o.sessionId)

/-- What the gates do to an offer leaves no ICE behind. -/
def QuietGates (s : State) (o : Offer) (policy : Policy) : Prop :=
  refusal s o policy ≠ none ∨ ¬ Asks s o policy ∧ Expired s o → Quiet s o.sessionId

/-- Where the step ends a session without forgetting its consent and its start, none is kept. A peer is
rebuilt on the second. -/
def Clearing (s : State) (e : Event) : Prop :=
  match e with
  | .offer o policy => Admits s o → ClearingGates s o policy
  | .disposed n policy => ∀ c ∈ s.calls[n]?, (c.phase = .disposing true → ClearingGates s c.offer policy) ∧
      (c.phase = .disposing false → Fresh s c.offer.sessionId)
  | .decided n decision => ∀ c ∈ s.calls[n]?, c.phase = .consenting →
      (decision ≠ .approved → Fresh s c.offer.sessionId) ∧
        (decision = .approved → ¬ Expired s c.offer → OnTheSecond s c.offer.sessionId)
  | .accepted n ok => ∀ c ∈ s.calls[n]?, c.phase = .accepting → ok = false → Fresh s c.offer.sessionId
  | .ended sessionId => s.sessions.get sessionId = none → Fresh s sessionId
  | _ => True

/-- Where the step ends a session, or an offer for an ended one, without forgetting its ICE, none is kept. -/
def Quieting (s : State) (e : Event) : Prop :=
  match e with
  | .offer o policy => Admits s o → QuietGates s o policy
  | .disposed n policy => ∀ c ∈ s.calls[n]?, (c.phase = .disposing true → QuietGates s c.offer policy) ∧
      (c.phase = .disposing false → Quiet s c.offer.sessionId)
  | .decided n decision => ∀ c ∈ s.calls[n]?, c.phase = .consenting →
      decision ≠ .approved ∨ Expired s c.offer → Quiet s c.offer.sessionId
  | .accepted n ok => ∀ c ∈ s.calls[n]?, c.phase = .accepting → ok = true →
      ended (s.log c.offer.sessionId) = true → s.sessionUfrag c.offer.sessionId = none
  | .ice sessionId _ => s.sessions.get sessionId = none → ended (s.log sessionId) = true → s.awaits sessionId = true
  | .ended sessionId => s.awaits sessionId = false → s.sessionUfrag sessionId = none
  | .teardown i checked _ => ∀ p ∈ s.peers[i]?, (checked && p.disposed) = false →
      s.awaits p.sessionId = false → Quiet s p.sessionId
  | .tick _ => True

section Decidable

variable (s : State) (sessionId : Str) (o : Offer) (policy : Policy)

instance : Decidable (Admits s o) := inferInstanceAs (Decidable (¬ _ ∧ _))

instance : Decidable (Fresh s sessionId) := inferInstanceAs (Decidable (_ ∧ _))

instance : Decidable (OnTheSecond s sessionId) := inferInstanceAs (Decidable (∀ _ ∈ _, _))

instance : Decidable (Quiet s sessionId) := inferInstanceAs (Decidable (_ ∧ _))

instance : Decidable (ClearingGates s o policy) := inferInstanceAs (Decidable ((_ → _) ∧ (_ → _)))

instance : Decidable (QuietGates s o policy) := inferInstanceAs (Decidable (_ → _))

instance (e : Event) : Decidable (Clearing s e) :=
  match e with
  | .offer _ _ | .ended _ => inferInstanceAs (Decidable (_ → _))
  | .disposed _ _ | .decided _ _ | .accepted _ _ => inferInstanceAs (Decidable (∀ c ∈ _, _))
  | .ice _ _ | .teardown _ _ _ | .tick _ => inferInstanceAs (Decidable True)

instance (e : Event) : Decidable (Quieting s e) :=
  match e with
  | .offer _ _ | .ice _ _ | .ended _ => inferInstanceAs (Decidable (_ → _))
  | .disposed _ _ | .decided _ _ | .accepted _ _ | .teardown _ _ _ => inferInstanceAs (Decidable (∀ c ∈ _, _))
  | .tick _ => inferInstanceAs (Decidable True)

end Decidable

/-! ## Consent and start -/

/-- A close or an error that is received, before the peer is looked up. -/
theorem kept_received (s : State) (sessionId : Str) :
    (((s.note (.received sessionId)).forgetIce sessionId).markClosed sessionId).kept sessionId =
      { s.kept sessionId with ice := none, log := .received sessionId :: (s.kept sessionId).log } := by
  rw [kept_markClosed, kept_forgetIce_self, kept_note_self s sessionId rfl]

section Remembered

variable {s : State} {n : Nat} {o : Offer}

theorem Kept.Consistent.build {c : Call} (hs : (s.kept o.sessionId).Consistent) (hn : s.calls[n]? = some c)
    (hoffer : c.offer = o) {asks : Bool} (hasks : asks → s.consentGranted.contains o.sessionId)
    (hwhole : ¬ Expired s o → OnTheSecond s o.sessionId) : ((build s n o asks).kept o.sessionId).Remembered := by
  by_cases hexpired : Expired s o
  · obtain ⟨awaited, hkept⟩ := kept_build_of_expired (n := n) hexpired
    rw [hkept]
    exact hs.ends (e := .sentClose o.sessionId (text "hard_cap_timeout")) rfl rfl rfl rfl
  · obtain ⟨capAt, hkept, hcapAt⟩ := kept_build hn hoffer hexpired
    rw [hkept]
    exact hs.builds hasks (hwhole hexpired) hexpired hcapAt rfl rfl rfl

theorem Kept.Remembered.passGates {c : Call} {policy : Policy} (hs : (s.kept o.sessionId).Remembered)
    (hn : s.calls[n]? = some c) (hoffer : c.offer = o) (hclearing : ClearingGates s o policy) :
    ((passGates s n o policy).kept o.sessionId).Remembered := by
  unfold Sessions.passGates
  split
  · rename_i code hrefusal
    obtain ⟨hconsent, hstart⟩ := hclearing.1 (by simp [hrefusal])
    obtain ⟨awaited, hkept⟩ := kept_over_self s o.sessionId n (e := .sentError o.sessionId code) rfl
    rw [hkept]
    exact hs.ends (e := .sentError o.sessionId code) rfl hconsent hstart rfl
  · rename_i hrefusal
    split
    · exact hs.frame rfl rfl rfl
    · rename_i hasks
      refine hs.toConsistent.build hn hoffer (fun hrequires => ?_) fun hexpired =>
        hclearing.2 ⟨hrefusal, hasks, hexpired⟩
      simpa [hrequires] using hasks

/-- A step about the session keeps its consent and start those of the history. -/
theorem Kept.Remembered.step {e : Event} {sessionId : Str} (hs : (s.kept sessionId).Remembered)
    (hconcerns : concerns s e = some sessionId) (he : Clearing s e) : ((step s e).kept sessionId).Remembered := by
  cases e with
  | offer o policy =>
    obtain rfl : o.sessionId = sessionId := some.inj hconcerns
    have hstart := kept_start s o o.sessionId
    unfold Sessions.step onOffer
    dsimp only
    split
    · exact (hstart ▸ hs).frame rfl rfl rfl
    · rename_i hfields
      split
      · rename_i i hget
        split
        · exact (hstart ▸ hs).frame rfl rfl rfl
        · unfold restart
          dsimp only
          split
          · exact (hstart ▸ hs).frame rfl rfl rfl
          · exact (hstart ▸ hs).frame rfl rfl rfl
      · rename_i hget
        exact (hstart ▸ hs).passGates getElem?_concat_length rfl (he ⟨hfields, hget⟩)
  | disposed n policy =>
    unfold Sessions.step onDisposed
    dsimp only
    split
    · rename_i o rebuildable peer closed hn
      obtain rfl : o.sessionId = sessionId := by simpa [concerns, hn] using hconcerns
      split
      · rename_i hrebuildable
        exact hs.passGates hn rfl ((he _ hn).1 (by rw [hrebuildable]))
      · rename_i hrebuildable
        obtain ⟨hconsent, hstart⟩ := (he _ hn).2 (by simp [hrebuildable])
        obtain ⟨awaited, hkept⟩ := kept_over_self s o.sessionId n
          (e := .sentClose o.sessionId (text "ice_restart_unsupported")) rfl
        rw [hkept]
        exact hs.ends (e := .sentClose o.sessionId (text "ice_restart_unsupported")) rfl hconsent hstart rfl
    · exact hs
  | decided n decision =>
    unfold Sessions.step onDecision
    dsimp only
    split
    · rename_i o peer closed hn
      obtain rfl : o.sessionId = sessionId := by simpa [concerns, hn] using hconcerns
      obtain ⟨hdeclined, hwhole⟩ := he _ hn rfl
      split
      · rename_i happroved
        have hgrant : ((s.note (.approved o.sessionId)).grantConsent o.sessionId).kept o.sessionId =
            { s.kept o.sessionId with consent := true, log := .approved o.sessionId :: s.log o.sessionId } := by
          rw [kept_grantConsent_self, kept_note_self s o.sessionId rfl]
          rfl
        have hconsistent := hgrant ▸ hs.approves o.sessionId
        exact Kept.Consistent.build (s := (s.note (.approved o.sessionId)).grantConsent o.sessionId) hconsistent hn
          rfl (fun _ => by simp [grantConsent]) (hwhole happroved)
      · rename_i happroved
        obtain ⟨hconsent, hstart⟩ := hdeclined happroved
        obtain ⟨awaited, hkept⟩ := kept_over_self s o.sessionId n
          (e := .sentClose o.sessionId (consentCloseReason decision)) rfl
        rw [hkept]
        exact hs.ends (e := .sentClose o.sessionId (consentCloseReason decision)) rfl hconsent hstart rfl
    · exact hs
  | accepted n ok =>
    unfold Sessions.step onAccepted
    dsimp only
    split
    · rename_i o peer closed hn
      obtain rfl : o.sessionId = sessionId := by simpa [concerns, hn] using hconcerns
      split
      · exact hs.frame rfl rfl rfl
      · rename_i hok
        obtain ⟨hconsent, hstart⟩ := he _ hn rfl (by simpa using hok)
        obtain ⟨awaited, hkept⟩ := kept_over_self
          (((s.forgetPeer o.sessionId).forgetIce o.sessionId).forgetUfrag o.sessionId) o.sessionId n
          (e := .sentError o.sessionId (text "SDP_PARSE_ERROR")) rfl
        rw [hkept]
        exact hs.ends (e := .sentError o.sessionId (text "SDP_PARSE_ERROR")) rfl hconsent hstart rfl
    · exact hs
  | ice sessionId' ice =>
    unfold Sessions.step onIce
    dsimp only
    split
    · exact hs
    · split
      · exact hs
      · obtain ⟨ice', hkept, -⟩ := kept_rememberEarlyIce s sessionId' ice sessionId
        exact hs.frame (by rw [hkept]) (by rw [hkept]) (by rw [hkept])
  | ended sessionId' =>
    obtain rfl : sessionId' = sessionId := some.inj hconcerns
    have hmark := kept_received s sessionId'
    unfold Sessions.step onEnd
    dsimp only
    split
    · exact hs.ends (e := .received sessionId') rfl (by simp) (by simp) (by simp [hmark])
    · rename_i hget
      obtain ⟨hconsent, hstart⟩ := he hget
      rw [hmark]
      exact hs.ends (e := .received sessionId') rfl hconsent hstart rfl
  | teardown i checked reason =>
    unfold Sessions.step onTeardown
    dsimp only
    split
    · rename_i p hp
      obtain rfl : p.sessionId = sessionId := by simpa [concerns, hp] using hconcerns
      split
      · exact hs
      · have hnote := kept_note_self ((s.forgetPeer p.sessionId).forgetConsent p.sessionId) p.sessionId
          (e := .sentClose p.sessionId reason) rfl
        rw [hnote]
        exact hs.ends (e := .sentClose p.sessionId reason) rfl (by simp) (by simp) (by simp)
    · exact hs
  | tick d => cases hconcerns

end Remembered

/-! ## ICE -/

section Forgotten

variable {s : State} {n : Nat} {o : Offer}

theorem Kept.Forgotten.of_quiet {k : Kept} (hufrag : k.ufrag = none) (hice : k.ice = none) : k.Forgotten :=
  fun _ => .inr ⟨hufrag, hice⟩

theorem Kept.Forgotten.of_awaited {k : Kept} (hawaited : k.awaited) : k.Forgotten := fun _ => .inl hawaited

theorem Kept.Forgotten.build {c : Call} (hn : s.calls[n]? = some c) (hoffer : c.offer = o) {asks : Bool}
    (hquiet : Expired s o → Quiet s o.sessionId) : ((build s n o asks).kept o.sessionId).Forgotten := by
  by_cases hexpired : Expired s o
  · obtain ⟨awaited, hkept⟩ := kept_build_of_expired (n := n) hexpired
    rw [hkept]
    exact .of_quiet (hquiet hexpired).1 (hquiet hexpired).2
  · obtain ⟨capAt, hkept, -⟩ := kept_build hn hoffer hexpired
    rw [hkept]
    exact .of_awaited rfl

theorem awaits_goTo {c : Call} {phase : Phase} (hn : s.calls[n]? = some c) (hoffer : c.offer = o)
    (hphase : phase ≠ .over) : ((s.goTo n phase).kept o.sessionId).awaited :=
  awaits_modify_self o.sessionId hn (by simp [hoffer]) hphase

theorem Kept.Forgotten.passGates {c : Call} {policy : Policy} (hn : s.calls[n]? = some c) (hoffer : c.offer = o)
    (hquiet : QuietGates s o policy) : ((passGates s n o policy).kept o.sessionId).Forgotten := by
  unfold Sessions.passGates
  split
  · rename_i code hrefusal
    obtain ⟨hufrag, hice⟩ := hquiet (.inl (by simp [hrefusal]))
    exact .of_quiet hufrag hice
  · split
    · exact .of_awaited (awaits_goTo hn hoffer (by simp))
    · rename_i hasks
      exact .build hn hoffer fun hexpired => hquiet (.inr ⟨hasks, hexpired⟩)

/-- A step about the session leaves no ICE of it behind. -/
theorem Kept.Forgotten.step {e : Event} {sessionId : Str} (hs : (s.kept sessionId).Forgotten)
    (hconcerns : concerns s e = some sessionId) (he : Quieting s e) : ((step s e).kept sessionId).Forgotten := by
  cases e with
  | offer o policy =>
    obtain rfl : o.sessionId = sessionId := some.inj hconcerns
    unfold Sessions.step onOffer
    dsimp only
    split
    · exact (kept_start_over s o o.sessionId).symm ▸ hs
    · rename_i hfields
      split
      · rename_i i hget
        split
        · exact (kept_start_over s o o.sessionId).symm ▸ hs
        · unfold restart
          dsimp only
          split
          · exact .of_awaited (awaits_goTo getElem?_concat_length rfl (by simp))
          · exact .of_awaited (awaits_goTo getElem?_concat_length rfl (by simp))
      · rename_i hget
        exact .passGates getElem?_concat_length rfl (he ⟨hfields, hget⟩)
  | disposed n policy =>
    unfold Sessions.step onDisposed
    dsimp only
    split
    · rename_i o rebuildable peer closed hn
      obtain rfl : o.sessionId = sessionId := by simpa [concerns, hn] using hconcerns
      split
      · rename_i hrebuildable
        exact .passGates hn rfl ((he _ hn).1 (by rw [hrebuildable]))
      · rename_i hrebuildable
        obtain ⟨hufrag, hice⟩ := (he _ hn).2 (by simp [hrebuildable])
        exact .of_quiet hufrag hice
    · exact hs
  | decided n decision =>
    unfold Sessions.step onDecision
    dsimp only
    split
    · rename_i o peer closed hn
      obtain rfl : o.sessionId = sessionId := by simpa [concerns, hn] using hconcerns
      have hquiet := he _ hn rfl
      split
      · exact .build (s := (s.note (.approved o.sessionId)).grantConsent o.sessionId) hn rfl fun hexpired =>
          hquiet (.inr hexpired)
      · rename_i happroved
        obtain ⟨hufrag, hice⟩ := hquiet (.inl happroved)
        exact .of_quiet hufrag hice
    · exact hs
  | accepted n ok =>
    unfold Sessions.step onAccepted
    dsimp only
    split
    · rename_i o peer closed hn
      obtain rfl : o.sessionId = sessionId := by simpa [concerns, hn] using hconcerns
      split
      · rename_i hok
        intro hended
        exact .inr ⟨he _ hn rfl hok hended, OrderedMap.get_delete_self _ _⟩
      · obtain ⟨awaited, hkept⟩ := kept_over_self
          (((s.forgetPeer o.sessionId).forgetIce o.sessionId).forgetUfrag o.sessionId) o.sessionId n
          (e := .sentError o.sessionId (text "SDP_PARSE_ERROR")) rfl
        rw [hkept]
        exact .of_quiet (by simp) (by simp)
    · exact hs
  | ice sessionId' ice =>
    obtain rfl : sessionId' = sessionId := some.inj hconcerns
    unfold Sessions.step onIce
    dsimp only
    split
    · exact hs
    · split
      · exact hs
      · rename_i hget
        obtain ⟨ice', hkept, -⟩ := kept_rememberEarlyIce s sessionId' ice sessionId'
        rw [hkept]
        exact fun hended => .inl (he hget hended)
  | ended sessionId' =>
    obtain rfl : sessionId' = sessionId := some.inj hconcerns
    have hmark := kept_received s sessionId'
    unfold Sessions.step onEnd
    dsimp only
    have hforgotten : Kept.Forgotten
        { s.kept sessionId' with ice := none, log := .received sessionId' :: (s.kept sessionId').log } := by
      intro _
      cases hawaits : s.awaits sessionId' with
      | true => exact .inl hawaits
      | false => exact .inr ⟨he hawaits, rfl⟩
    split
    · rw [kept_dispose, kept_forgetConsent_self, kept_forgetPeer, hmark]
      exact hforgotten
    · rw [hmark]
      exact hforgotten
  | teardown i checked reason =>
    unfold Sessions.step onTeardown
    dsimp only
    split
    · rename_i p hp
      obtain rfl : p.sessionId = sessionId := by simpa [concerns, hp] using hconcerns
      split
      · exact hs
      · rename_i hrun
        have hnote := kept_note_self ((s.forgetPeer p.sessionId).forgetConsent p.sessionId) p.sessionId
          (e := .sentClose p.sessionId reason) rfl
        intro _
        cases hawaits : s.awaits p.sessionId with
        | true => exact .inl hawaits
        | false => exact .inr (he p hp (by simpa using hrun) hawaits)
    · exact hs
  | tick d => cases hconcerns

end Forgotten

/-! ## Runs -/

theorem always_remembered {tr : List Event} (hclearing : machine.Guarded Clearing tr) :
    machine.Always (fun s => ∀ sessionId, (s.kept sessionId).Remembered) tr := by
  refine hclearing.always (fun sessionId => ?_) fun s e hs he sessionId => ?_
  · have hnil : Asked [] ∧ Capped [] := by simp [Asked, Capped]
    exact ⟨⟨by simp [kept, machine], rfl, hnil.1, hnil.2⟩, nofun⟩
  · by_cases hconcerns : concerns s e = some sessionId
    · exact (hs sessionId).step hconcerns he
    · obtain ⟨ice, hkept, -⟩ := kept_step_of_ne hconcerns
      exact (hs sessionId).frame (by rw [machine, hkept]) (by rw [machine, hkept]) (by rw [machine, hkept])

theorem always_forgotten {tr : List Event} (hquieting : machine.Guarded Quieting tr) :
    machine.Always (fun s => ∀ sessionId, (s.kept sessionId).Forgotten) tr := by
  refine hquieting.always nofun fun s e hs he sessionId => ?_
  by_cases hconcerns : concerns s e = some sessionId
  · exact (hs sessionId).step hconcerns he
  · obtain ⟨ice, hkept, hnone⟩ := kept_step_of_ne hconcerns
    intro hended
    rw [machine, hkept] at hended ⊢
    exact (hs sessionId hended).imp id fun ⟨hufrag, hice⟩ => ⟨hufrag, hnone hice⟩

theorem always_owned {tr : List Event} (hclearing : machine.Guarded Clearing tr)
    (hquieting : machine.Guarded Quieting tr) : machine.Always Owned tr := by
  intro pre hpre
  have hremembered := always_remembered hclearing pre hpre
  have hforgotten := always_forgotten hquieting pre hpre
  refine ⟨fun sessionId => (hremembered sessionId).asked, fun sessionId => (hremembered sessionId).capped,
    fun sessionId hended hawaits => ?_⟩
  have hconsent : (machine.run pre).consentGranted.contains sessionId = false := (hremembered sessionId).gone hended
  have hstart := (hremembered sessionId).start.trans (startOf_eq_none_of_ended hended)
  have hleft := (hforgotten sessionId hended).resolve_left (by simp [kept, hawaits])
  exact ⟨by simpa using hconsent, hstart, hleft⟩

/-! ## Two runs -/

def requiring (screen : Bool) : Policy := ⟨fun _ => screen, true⟩

def screenFor (sessionId sdp : Str) : Offer := ⟨sessionId, sdp, text "rcp.screen", 3600⟩

/-- A screen that is rebuilt two seconds after its start, and another one that the policy refuses. -/
def rebuiltRun : List Event :=
  [.offer (screenFor (text "s-1") (text "a=ice-ufrag:first")) (requiring true), .decided 0 .approved,
   .accepted 0 true, .tick 2000, .offer (screenFor (text "s-1") (text "a=ice-ufrag:again")) (requiring true),
   .disposed 1 (requiring true), .accepted 1 true,
   .offer (screenFor (text "s-2") (text "a=ice-ufrag:other")) (requiring false)]

theorem always_owned_rebuiltRun : machine.Always Owned rebuiltRun :=
  always_owned (Machine.guarded_iff_guardedFrom.mpr (by decide +kernel))
    (Machine.guarded_iff_guardedFrom.mpr (by decide +kernel))

/-- The user approves, the description is refused, and the session is offered again. -/
def refusedOnce : List Event :=
  [.offer (screenFor (text "s-1") (text "v=0")) (requiring true), .decided 0 .approved, .accepted 0 false,
   .offer (screenFor (text "s-1") (text "a=ice-ufrag:again")) (requiring true)]

/-- The second screen is captured without a question: the consent of the failed session is still there. -/
theorem not_always_owned_refusedOnce : ¬ machine.Always Owned refusedOnce := by
  intro h
  have hlog : (machine.run refusedOnce).log (text "s-1") =
      [.built (text "s-1") true 0 3600000 3600, .sentError (text "s-1") (text "SDP_PARSE_ERROR"),
        .built (text "s-1") true 0 3600000 3600, .approved (text "s-1")] := by decide
  have hasked := h.last.asked (text "s-1")
  have hconsented := hasked (text "s-1") 0 3600000 3600 _ suffix_rfl
  cases hconsented

end Rcp.Sessions
