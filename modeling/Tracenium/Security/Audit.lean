-- SUMMARY: Which remediations of the security enforcer get into an event, pass by pass.
import Tracenium.Security.Enforcer

/-!
A pass records the outcomes before it builds the event, and sends the event of a remediation in its own pass or never.
-/

open Utf16 List

namespace Security

open EnforceResult

section Conditions

variable (s : State) (input : PassInput)

/-- The checks that the pass comes to before its deadline, if no call is rejected. -/
def inTime : List RemediatorEntry :=
  match input.policy with
  | none => []
  | some _ => SECURITY_CAPABILITY_REMEDIATORS.takeWhile fun e =>
    (input.turn e.checkId).deadlineNow ≤ input.passStart + ENFORCE_PASS_TIMEOUT_MS

/-- The state of the check is read, in a mode. -/
def Reads (e : RemediatorEntry) (mode : SecurityMode) : Prop :=
  ∃ policy cap, input.policy = some policy ∧ policy.capability e.capability = some cap ∧
    guardedMode e.checkId (effectiveMode cap policy input.mayRemediate) = mode ∧ mode ≠ .off ∧
    e.policyHasValue cap = true ∧ input.platform ∈ e.oses ∧ e.desiredEqual cap = true ∧
    (mode = .auto → (s.lastAppliedAt e.checkId).getD 0 + cooldownMs policy ≤ (input.turn e.checkId).cooldownNow)

/-- The check is remediated, with whatever answer. -/
def Remediates (e : RemediatorEntry) (answer : PrivAnswer Bool) : Prop :=
  Reads s input e .auto ∧ (input.turn e.checkId).read = .ok false ∧ (input.turn e.checkId).acquired = true ∧
    (input.turn e.checkId).applied = answer

/-- A call for the check is rejected. -/
def Rejects (e : RemediatorEntry) : Prop :=
  (∃ mode, Reads s input e mode ∧ (input.turn e.checkId).read = .rejects) ∨ Remediates s input e .rejects

/-- Of every remediation with a new outcome: no later call of its pass is rejected, the event is built and
enqueued, and the outcome is not the one that was recorded last. -/
def KeepsTrack (prev : Str → Option EnforceOutcome) : Prop :=
  ∀ pre e post requiresReboot, inTime input = pre ++ e :: post → (∀ e' ∈ pre, ¬ Rejects s input e') →
    Remediates s input e (.ok requiresReboot) → prev e.checkId ≠ some (outcomeOfReboot requiresReboot) →
    (∀ e' ∈ post, ¬ Rejects s input e') ∧ input.factsBuilt = true ∧ input.enqueues = true ∧
      s.lastEmittedOutcome e.checkId ≠ some (outcomeOfReboot requiresReboot)

end Conditions

/-! ## Checks -/

section Checks

variable {s : State} {input : PassInput} {policy : SecurityPolicy} {e : RemediatorEntry}

theorem nodup_remediators : (SECURITY_CAPABILITY_REMEDIATORS.map RemediatorEntry.checkId).Nodup := by
  decide +kernel

/-- What a check gives that is not remediated. -/
def Idle (e : RemediatorEntry) : EntryEnd → Prop
  | .skips => True
  | .gives r => r.checkId = e.checkId ∧ r.outcome.remediated = false
  | _ => False

/-- Only the cooldown of the check itself matters. -/
theorem enforceEntry_congr {la la' : Str → Option Nat} (h : la e.checkId = la' e.checkId) :
    enforceEntry input policy la e = enforceEntry input policy la' e := by
  unfold enforceEntry
  rw [h]

/-- The state of the check is read, or there is a result without that. -/
theorem enforceEntry_cases (hpolicy : input.policy = some policy) (e : RemediatorEntry) :
    (∃ mode, Reads s input e mode ∧
      enforceEntry input policy s.lastAppliedAt e = enforceRead e mode (input.turn e.checkId)) ∨
    ((∀ mode, ¬ Reads s input e mode) ∧ Idle e (enforceEntry input policy s.lastAppliedAt e)) := by
  -- what `Reads` says, for the policy and the capability at hand
  have hreads : ∀ mode, Reads s input e mode → ∃ cap, policy.capability e.capability = some cap ∧
      guardedMode e.checkId (effectiveMode cap policy input.mayRemediate) = mode ∧ mode ≠ .off ∧
      e.policyHasValue cap ∧ input.platform ∈ e.oses ∧ e.desiredEqual cap ∧
      (mode = .auto →
        (s.lastAppliedAt e.checkId).getD 0 + cooldownMs policy ≤ (input.turn e.checkId).cooldownNow) := by
    rintro mode ⟨policy', cap, hpolicy', h⟩
    rw [hpolicy] at hpolicy'
    cases hpolicy'
    exact ⟨cap, h⟩
  unfold enforceEntry
  cases hcap : policy.capability e.capability with
  | none =>
    refine .inr ⟨fun mode h => ?_, trivial⟩
    obtain ⟨cap, hcap', -⟩ := hreads mode h
    rw [hcap] at hcap'
    cases hcap'
  | some cap =>
    have hreads' : ∀ mode, Reads s input e mode →
        guardedMode e.checkId (effectiveMode cap policy input.mayRemediate) = mode ∧ mode ≠ .off ∧
        e.policyHasValue cap ∧ input.platform ∈ e.oses ∧ e.desiredEqual cap ∧
        (mode = .auto →
          (s.lastAppliedAt e.checkId).getD 0 + cooldownMs policy ≤ (input.turn e.checkId).cooldownNow) := by
      intro mode h
      obtain ⟨cap', hcap', h'⟩ := hreads mode h
      rw [hcap] at hcap'
      cases hcap'
      exact h'
    dsimp only
    by_cases hoff : guardedMode e.checkId (effectiveMode cap policy input.mayRemediate) = .off
    · rw [if_pos hoff]
      exact .inr ⟨fun mode h => (hreads' mode h).2.1 ((hreads' mode h).1 ▸ hoff), rfl, rfl⟩
    rw [if_neg hoff]
    by_cases hvalue : e.policyHasValue cap
    swap
    · rw [if_pos (by simpa using hvalue)]
      exact .inr ⟨fun mode h => hvalue (hreads' mode h).2.2.1, rfl, rfl⟩
    rw [if_neg (by simp [hvalue])]
    by_cases hos : input.platform ∈ e.oses
    swap
    · rw [if_pos (by simpa using hos)]
      exact .inr ⟨fun mode h => hos (hreads' mode h).2.2.2.1, rfl, rfl⟩
    rw [if_neg (by simpa using hos)]
    by_cases hdesired : e.desiredEqual cap
    swap
    · rw [if_pos (by simpa using hdesired)]
      exact .inr ⟨fun mode h => hdesired (hreads' mode h).2.2.2.2.1, rfl, rfl⟩
    rw [if_neg (by simp [hdesired])]
    by_cases hcooldown : guardedMode e.checkId (effectiveMode cap policy input.mayRemediate) = .auto ∧
        (input.turn e.checkId).cooldownNow < (s.lastAppliedAt e.checkId).getD 0 + cooldownMs policy
    · rw [if_pos hcooldown]
      refine .inr ⟨fun mode h => ?_, rfl, rfl⟩
      exact absurd ((hreads' mode h).2.2.2.2.2 ((hreads' mode h).1 ▸ hcooldown.1)) (Nat.not_le.mpr hcooldown.2)
    · rw [if_neg hcooldown]
      exact .inl ⟨_, ⟨policy, cap, hpolicy, hcap, rfl, hoff, hvalue, hos, hdesired,
        fun hauto => Nat.le_of_not_lt fun hlt => hcooldown ⟨hauto, hlt⟩⟩, rfl⟩

theorem Reads.unique {mode mode' : SecurityMode} (h : Reads s input e mode) (h' : Reads s input e mode') :
    mode = mode' := by
  obtain ⟨policy, cap, hpolicy, hcap, hmode, -⟩ := h
  obtain ⟨policy', cap', hpolicy', hcap', hmode', -⟩ := h'
  rw [hpolicy] at hpolicy'
  cases hpolicy'
  rw [hcap] at hcap'
  cases hcap'
  exact hmode.symm.trans hmode'

theorem Reads.ne_off {mode : SecurityMode} (h : Reads s input e mode) : mode ≠ .off := by
  obtain ⟨_, _, _, _, _, hoff, -⟩ := h
  exact hoff

/-- A call is rejected only where it is made. -/
theorem not_rejects {answer : PrivAnswer Bool} (hread : (input.turn e.checkId).read = answer)
    (hanswer : answer ≠ .rejects) (hno : ¬ Remediates s input e .rejects) : ¬ Rejects s input e := by
  rintro (⟨_, _, h⟩ | h)
  · exact hanswer (hread.symm.trans h)
  · exact hno h

/-- What becomes of a check: nothing that matters, a call that is rejected, or a remediation. -/
theorem enforceEntry_spec (hpolicy : input.policy = some policy) (e : RemediatorEntry) :
    (¬ Rejects s input e ∧ (∀ requiresReboot, ¬ Remediates s input e (.ok requiresReboot)) ∧
      Idle e (enforceEntry input policy s.lastAppliedAt e)) ∨
    (Rejects s input e ∧ (∀ requiresReboot, ¬ Remediates s input e (.ok requiresReboot)) ∧
      enforceEntry input policy s.lastAppliedAt e = .rejects) ∨
    ∃ requiresReboot r, ¬ Rejects s input e ∧ Remediates s input e (.ok requiresReboot) ∧
      r.checkId = e.checkId ∧ r.outcome = outcomeOfReboot requiresReboot ∧
      enforceEntry input policy s.lastAppliedAt e = .applies r (input.turn e.checkId).appliedAt := by
  rcases enforceEntry_cases (s := s) hpolicy e with ⟨mode, hreads, hentry⟩ | ⟨hno, hidle⟩
  · rw [hentry]
    unfold enforceRead
    cases hread : (input.turn e.checkId).read with
    | rejects =>
      refine .inr (.inl ⟨.inl ⟨mode, hreads, hread⟩, fun _ h => ?_, rfl⟩)
      cases hread.symm.trans h.2.1
    | failed error =>
      have hno : ∀ answer, ¬ Remediates s input e answer := fun answer h => by cases hread.symm.trans h.2.1
      exact .inl ⟨not_rejects hread (by simp) (hno _), fun _ => hno _, rfl, rfl⟩
    | ok compliant =>
      cases compliant with
      | true =>
        have hno : ∀ answer, ¬ Remediates s input e answer := fun answer h => by cases hread.symm.trans h.2.1
        exact .inl ⟨not_rejects hread (by simp) (hno _), fun _ => hno _, rfl, rfl⟩
      | false =>
        dsimp only
        by_cases hreport : mode = .reportOnly
        · have hno : ∀ answer, ¬ Remediates s input e answer := fun answer h => by
            cases hreport.symm.trans (hreads.unique h.1)
          rw [if_pos hreport]
          exact .inl ⟨not_rejects hread (by simp) (hno _), fun _ => hno _, rfl, rfl⟩
        rw [if_neg hreport]
        have hauto : mode = .auto := by
          cases mode with
          | auto => rfl
          | reportOnly => exact absurd rfl hreport
          | off => exact absurd rfl hreads.ne_off
        cases hacquired : (input.turn e.checkId).acquired with
        | false =>
          have hno : ∀ answer, ¬ Remediates s input e answer := fun answer h => by
            cases hacquired.symm.trans h.2.2.1
          exact .inl ⟨not_rejects hread (by simp) (hno _), fun _ => hno _, rfl, rfl⟩
        | true =>
          have hdoes : Remediates s input e (input.turn e.checkId).applied := ⟨hauto ▸ hreads, hread, hacquired, rfl⟩
          have honly : ∀ answer, Remediates s input e answer → (input.turn e.checkId).applied = answer :=
            fun answer h => h.2.2.2
          cases happlied : (input.turn e.checkId).applied with
          | rejects =>
            refine .inr (.inl ⟨.inr (happlied ▸ hdoes), fun _ h => ?_, rfl⟩)
            cases happlied.symm.trans (honly _ h)
          | failed error =>
            refine .inl ⟨not_rejects hread (by simp) fun h => ?_, fun _ h => ?_, rfl, rfl⟩
            all_goals cases happlied.symm.trans (honly _ h)
          | ok requiresReboot =>
            refine .inr (.inr ⟨requiresReboot, _, not_rejects hread (by simp) fun h => ?_, happlied ▸ hdoes,
              rfl, rfl, rfl⟩)
            cases happlied.symm.trans (honly _ h)
  · refine .inl ⟨?_, fun requiresReboot h => hno _ h.1, hidle⟩
    rintro (⟨mode, h, -⟩ | h)
    · exact hno mode h
    · exact hno _ h.1

end Checks

/-! ## The loop -/

section Loop

variable {s : State} {input : PassInput} {policy : SecurityPolicy} {e : RemediatorEntry} {r : EnforceResult}
  {prev : Str → Option EnforceOutcome}

def timely (input : PassInput) (e : RemediatorEntry) : Bool :=
  (input.turn e.checkId).deadlineNow ≤ input.passStart + ENFORCE_PASS_TIMEOUT_MS

def Gives (s : State) (input : PassInput) (policy : SecurityPolicy) (e : RemediatorEntry) (r : EnforceResult) :
    Prop :=
  enforceEntry input policy s.lastAppliedAt e = .gives r ∨
    ∃ now, enforceEntry input policy s.lastAppliedAt e = .applies r now

/-- The pass comes to a check of a list that gives a result. -/
def Comes (s : State) (input : PassInput) (policy : SecurityPolicy) (es : List RemediatorEntry)
    (r : EnforceResult) : Prop :=
  ∃ pre e post, es = pre ++ e :: post ∧ (∀ e' ∈ pre, ¬ Rejects s input e') ∧ Gives s input policy e r

theorem comes_cons {es : List RemediatorEntry} : Comes s input policy (e :: es) r ↔
    Gives s input policy e r ∨ (¬ Rejects s input e ∧ Comes s input policy es r) := by
  constructor
  · rintro ⟨pre, e', post, hsplit, hpre, hgives⟩
    cases pre with
    | nil =>
      cases hsplit
      exact .inl hgives
    | cons e'' pre =>
      cases hsplit
      exact .inr ⟨hpre _ mem_cons_self, pre, e', post, rfl,
        fun e' he' => hpre e' (mem_cons_of_mem _ he'), hgives⟩
  · rintro (hgives | ⟨hno, pre, e', post, rfl, hpre, hgives⟩)
    · exact ⟨[], e, es, rfl, by simp, hgives⟩
    · refine ⟨e :: pre, e', post, rfl, fun e'' he'' => ?_, hgives⟩
      rcases mem_cons.mp he'' with rfl | he''
      · exact hno
      · exact hpre e'' he''

structure LoopSpec (s : State) (input : PassInput) (policy : SecurityPolicy) (es : List RemediatorEntry)
    (p q : Progress) : Prop where
  rejected : q.rejected = true ↔ ∃ e ∈ es.takeWhile (timely input), Rejects s input e
  results : ∀ r, r ∈ q.results ↔ r ∈ p.results ∨ Comes s input policy (es.takeWhile (timely input)) r
  ids : (q.results.map checkId).Sublist
    (p.results.map checkId ++ es.map RemediatorEntry.checkId)

/-- A check that is passed, with the results that it gives. -/
theorem LoopSpec.cons {es : List RemediatorEntry} {p p' q : Progress} (rs : List EnforceResult)
    (htimely : timely input e) (hno : ¬ Rejects s input e)
    (hgives : ∀ r, Gives s input policy e r ↔ r ∈ rs)
    (hids : (rs.map checkId).Sublist [e.checkId]) (hp' : p'.results = p.results ++ rs)
    (hq : LoopSpec s input policy es p' q) : LoopSpec s input policy (e :: es) p q where
  rejected := by
    rw [hq.rejected, takeWhile_cons_of_pos htimely]
    simp [hno]
  results r := by
    rw [hq.results, takeWhile_cons_of_pos htimely, comes_cons, hgives, hp']
    simp [hno, or_assoc]
  ids := by
    refine hq.ids.trans ?_
    rw [hp', map_append, append_assoc, map_cons]
    exact (Sublist.refl _).append (hids.append (Sublist.refl _))

theorem loopSpec (hpolicy : input.policy = some policy) {es : List RemediatorEntry} {p : Progress}
    (hnodup : (es.map RemediatorEntry.checkId).Nodup)
    (hsame : ∀ e ∈ es, p.lastAppliedAt e.checkId = s.lastAppliedAt e.checkId) (hp : p.rejected = false) :
    LoopSpec s input policy es p (enforceLoop input policy es p) := by
  induction es generalizing p with
  | nil => exact ⟨by simp [enforceLoop, hp], by simp [enforceLoop, Comes], by simp [enforceLoop]⟩
  | cons e es ih =>
    obtain ⟨hfresh, hnodup⟩ := nodup_cons.mp hnodup
    rw [enforceLoop]
    cases htimely : timely input e with
    | false =>
      -- the deadline is over
      have hlate : input.passStart + ENFORCE_PASS_TIMEOUT_MS < (input.turn e.checkId).deadlineNow := by
        simpa [timely] using htimely
      rw [if_pos hlate]
      refine ⟨?_, ?_, ?_⟩
      · simp [hp, htimely]
      · simp [htimely, Comes]
      · simp
    | true =>
      have hearly : ¬ input.passStart + ENFORCE_PASS_TIMEOUT_MS < (input.turn e.checkId).deadlineNow := by
        simpa [timely] using htimely
      rw [if_neg hearly, enforceEntry_congr (hsame e mem_cons_self)]
      have hsame' : ∀ e' ∈ es, p.lastAppliedAt e'.checkId = s.lastAppliedAt e'.checkId :=
        fun e' he' => hsame e' (mem_cons_of_mem e he')
      rcases enforceEntry_spec hpolicy e with ⟨hno, -, hidle⟩ | ⟨hrejects, -, hentry⟩ |
          ⟨requiresReboot, r₀, hno, -, hr₀, -, hentry⟩
      · cases hentry : enforceEntry input policy s.lastAppliedAt e with
        | skips =>
          exact .cons [] htimely hno (by simp [Gives, hentry]) (by simp) (by simp) (ih hnodup hsame' hp)
        | gives r₀ =>
          rw [hentry] at hidle
          exact .cons [r₀] htimely hno (by simp [Gives, hentry, eq_comm]) (by simp [hidle.1]) rfl
            (ih hnodup hsame' hp)
        | applies r₀ now =>
          rw [hentry] at hidle
          exact hidle.elim
        | rejects =>
          rw [hentry] at hidle
          exact hidle.elim
      · -- the pass is over
        rw [hentry]
        refine ⟨?_, fun r => ?_, ?_⟩
        · simp [htimely, hrejects]
        · rw [takeWhile_cons_of_pos htimely, comes_cons]
          simp [Gives, hentry, hrejects]
        · simp
      · rw [hentry]
        refine .cons [r₀] htimely hno (by simp [Gives, hentry, eq_comm]) (by simp [hr₀]) rfl
          (ih hnodup (fun e' he' => ?_) hp)
        -- the cooldown of the other checks is what it was
        have hother : e'.checkId ≠ e.checkId := fun h => hfresh (h ▸ mem_map_of_mem he')
        exact (Function.update_of_ne hother _ _).trans (hsame' e' he')

theorem inTime_eq (hpolicy : input.policy = some policy) :
    inTime input = SECURITY_CAPABILITY_REMEDIATORS.takeWhile (timely input) := by
  unfold inTime timely
  rw [hpolicy]

structure PassSpec (s : State) (input : PassInput) (policy : SecurityPolicy) (p : Pass) : Prop where
  rejected : p.rejected = true ↔ ∃ e ∈ inTime input, Rejects s input e
  results : ∀ r, r ∈ p.results ↔ Comes s input policy (inTime input) r
  nodup : (p.results.map checkId).Nodup
  enqueued : ∀ event, event ∈ p.enqueued ↔ p.rejected = false ∧ input.factsBuilt = true ∧ input.enqueues = true ∧
    ∃ r ∈ p.results, eventOf s.lastEmittedOutcome input.occurredAtUtc r = some event

/-- A pass, with its loop as a value of its own. -/
theorem runSecurityEnforce_eq (s : State) (hpolicy : input.policy = some policy) : ∃ p,
    p = enforceLoop input policy SECURITY_CAPABILITY_REMEDIATORS ⟨[], s.lastAppliedAt, false⟩ ∧
      runSecurityEnforce s input =
        if p.rejected then (⟨p.lastAppliedAt, s.lastEmittedOutcome⟩, ⟨p.results, true, []⟩)
        else (⟨p.lastAppliedAt, (emitSecurityEnforceEvents input s.lastEmittedOutcome p.results).1⟩,
          ⟨p.results, false, (emitSecurityEnforceEvents input s.lastEmittedOutcome p.results).2⟩) := by
  refine ⟨_, rfl, ?_⟩
  rw [runSecurityEnforce, hpolicy]

theorem passSpec (s : State) (hpolicy : input.policy = some policy) :
    PassSpec s input policy (runSecurityEnforce s input).2 := by
  obtain ⟨q, hq, heq⟩ := runSecurityEnforce_eq s hpolicy
  rw [heq]
  have hloop := @loopSpec s input policy hpolicy _ ⟨[], s.lastAppliedAt, false⟩ nodup_remediators
    (fun _ _ => rfl) rfl
  rw [← hq] at hloop
  obtain ⟨hrejected, hresults, hids⟩ := hloop
  rw [← inTime_eq hpolicy] at hrejected
  simp only [← inTime_eq hpolicy, not_mem_nil, false_or] at hresults
  have hnodup : (q.results.map checkId).Nodup := hids.nodup (by simpa using nodup_remediators)
  cases hq : q.rejected with
  | true => exact ⟨by simp [← hrejected, hq], hresults, hnodup, by simp⟩
  | false =>
    refine ⟨by simp [← hrejected, hq], hresults, hnodup, fun event => ?_⟩
    simp only [emitSecurityEnforceEvents]
    cases input.factsBuilt <;> cases input.enqueues <;> simp

/-- A remediation is among the results of a pass. -/
theorem comes_remediated (hpolicy : input.policy = some policy) {es : List RemediatorEntry}
    (hr : Comes s input policy es r) (hout : r.outcome.remediated) :
    ∃ pre e post requiresReboot, es = pre ++ e :: post ∧ (∀ e' ∈ pre, ¬ Rejects s input e') ∧
      ¬ Rejects s input e ∧ Remediates s input e (.ok requiresReboot) ∧ r.checkId = e.checkId ∧
      r.outcome = outcomeOfReboot requiresReboot := by
  obtain ⟨pre, e, post, hsplit, hpre, hgives⟩ := hr
  rcases enforceEntry_spec hpolicy e with ⟨-, -, hidle⟩ | ⟨-, -, hentry⟩ |
      ⟨requiresReboot, r₀, hno, hdoes, hid, hr₀, hentry⟩
  · rcases hgives with hentry | ⟨now, hentry⟩
    · rw [hentry] at hidle
      rw [hidle.2] at hout
      cases hout
    · rw [hentry] at hidle
      exact hidle.elim
  · rcases hgives with hgives | ⟨now, hgives⟩ <;> cases hentry.symm.trans hgives
  · refine ⟨pre, e, post, requiresReboot, hsplit, hpre, hno, hdoes, ?_⟩
    rcases hgives with hgives | ⟨now, hgives⟩
    · cases hentry.symm.trans hgives
    · cases hentry.symm.trans hgives
      exact ⟨hid, hr₀⟩

theorem remediated_comes (hpolicy : input.policy = some policy) {es pre post : List RemediatorEntry}
    {requiresReboot : Bool} (hsplit : es = pre ++ e :: post) (hpre : ∀ e' ∈ pre, ¬ Rejects s input e')
    (hdoes : Remediates s input e (.ok requiresReboot)) :
    ¬ Rejects s input e ∧ ∃ r, Comes s input policy es r ∧ r.checkId = e.checkId ∧
      r.outcome = outcomeOfReboot requiresReboot := by
  rcases enforceEntry_spec hpolicy e with ⟨-, hnone, -⟩ | ⟨-, hnone, -⟩ |
      ⟨requiresReboot', r, hno, hdoes', hid, hr, hentry⟩
  · exact absurd hdoes (hnone _)
  · exact absurd hdoes (hnone _)
  · cases hdoes.2.2.2.symm.trans hdoes'.2.2.2
    exact ⟨hno, r, ⟨pre, e, post, hsplit, hpre, .inr ⟨_, hentry⟩⟩, hid, hr⟩

theorem eventOf_spec {last : Str → Option EnforceOutcome} {utc : Nat} {event : SecurityEnforceEvent}
    (h : eventOf last utc r = some event) : event.checkId = r.checkId ∧ event.outcome = r.outcome ∧
      last r.checkId ≠ some r.outcome := by
  unfold eventOf at h
  split at h
  · cases h
  · rename_i hnew
    obtain ⟨eventType, -, rfl⟩ := Option.map_eq_some_iff.mp h
    refine ⟨rfl, rfl, fun hlast => hnew ?_⟩
    simp [hlast]

theorem exists_eventOf {last : Str → Option EnforceOutcome} {utc : Nat} (hout : r.outcome.remediated)
    (hlast : last r.checkId ≠ some r.outcome) : ∃ event, eventOf last utc r = some event := by
  unfold eventOf
  cases houtcome : r.outcome <;> simp_all [EnforceOutcome.remediated, EnforceOutcome.auditable, AUDIT_EVENT_TYPES]

theorem remediated_outcomeOfReboot (requiresReboot : Bool) : (outcomeOfReboot requiresReboot).remediated := by
  cases requiresReboot <;> rfl

/-- A pass puts its remediations with a new outcome into its event exactly when it keeps track of them. -/
theorem keepsTrack_iff (s : State) (input : PassInput) (prev : Str → Option EnforceOutcome) :
    KeepsTrack s input prev ↔ ∀ r ∈ (runSecurityEnforce s input).2.results, r.outcome.remediated →
      prev r.checkId ≠ some r.outcome → ∃ event ∈ (runSecurityEnforce s input).2.enqueued,
        event.checkId = r.checkId ∧ event.outcome = r.outcome := by
  cases hpolicy : input.policy with
  | none =>
    -- without a policy there is nothing to remediate
    have hnone : inTime input = [] := by simp [inTime, hpolicy]
    constructor
    · intro _ r hr
      simp [runSecurityEnforce, hpolicy] at hr
    · intro _ pre e post _ hsplit
      simp [hnone] at hsplit
  | some policy =>
    obtain ⟨hrejected, hresults, -, henqueued⟩ := passSpec s hpolicy
    constructor
    · intro htrack r hr hout hnew
      obtain ⟨pre, e, post, requiresReboot, hsplit, hpre, hno, hdoes, hid, houtcome⟩ :=
        comes_remediated hpolicy ((hresults r).mp hr) hout
      rw [hid, houtcome] at hnew
      obtain ⟨hpost, hfacts, hqueue, hlast⟩ := htrack pre e post requiresReboot hsplit hpre hdoes hnew
      rw [← hid, ← houtcome] at hlast
      have hend : (runSecurityEnforce s input).2.rejected = false := by
        refine Bool.eq_false_iff.mpr fun h => ?_
        obtain ⟨e', he', hrejects⟩ := hrejected.mp h
        rw [hsplit, mem_append, mem_cons] at he'
        rcases he' with he' | rfl | he'
        · exact hpre e' he' hrejects
        · exact hno hrejects
        · exact hpost e' he' hrejects
      obtain ⟨event, hevent⟩ := @exists_eventOf r _ input.occurredAtUtc hout hlast
      obtain ⟨hsame, hsame', -⟩ := eventOf_spec hevent
      exact ⟨event, (henqueued event).mpr ⟨hend, hfacts, hqueue, r, hr, hevent⟩, hsame, hsame'⟩
    · intro haudits pre e post requiresReboot hsplit hpre hdoes hnew
      obtain ⟨hno, r, hr, hid, houtcome⟩ := remediated_comes hpolicy hsplit hpre hdoes
      rw [← hid, ← houtcome] at hnew ⊢
      obtain ⟨event, hevent, hsame, hsame'⟩ := haudits r ((hresults r).mpr hr)
        (by rw [houtcome]; exact remediated_outcomeOfReboot _) hnew
      obtain ⟨hend, hfacts, hqueue, r', hr', hof⟩ := (henqueued event).mp hevent
      obtain ⟨hsame₂, hsame₂', hlast⟩ := eventOf_spec hof
      refine ⟨fun e' he' hrejects => ?_, hfacts, hqueue, ?_⟩
      · have h := hrejected.mpr ⟨e', by simp [hsplit, he'], hrejects⟩
        rw [hend] at h
        cases h
      · rwa [← hsame₂, ← hsame₂', hsame, hsame'] at hlast

end Loop

/-! ## Runs -/

section Runs

variable {s : State} {input : PassInput} {inputs : Nat → PassInput} {r : EnforceResult}

/-- Each check has one result, so the map has its outcome afterwards. -/
theorem recordOutcomes_of_mem {last : Str → Option EnforceOutcome} {results : List EnforceResult}
    (hnodup : (results.map checkId).Nodup) (hr : r ∈ results) :
    recordOutcomes last results r.checkId = some r.outcome := by
  induction results generalizing last with
  | nil => cases hr
  | cons r' results ih =>
    obtain ⟨hfresh, hnodup⟩ := nodup_cons.mp hnodup
    rcases mem_cons.mp hr with rfl | hr
    · -- no later result is of this check
      have hkeep : ∀ (rs : List EnforceResult) (m : Str → Option EnforceOutcome),
          r.checkId ∉ rs.map checkId → recordOutcomes m rs r.checkId = m r.checkId := by
        intro rs
        induction rs with
        | nil => exact fun _ _ => rfl
        | cons r' rs ih =>
          intro m hno
          rw [map_cons, mem_cons, not_or] at hno
          exact (ih _ hno.2).trans (Function.update_of_ne hno.1 _ _)
      exact (hkeep results _ hfresh).trans (Function.update_self ..)
    · exact ih hnodup hr

/-- What a pass has recorded is in the map that it leaves. -/
theorem lastEmittedOutcome_of_recorded {checkId : Str} {outcome : EnforceOutcome}
    (h : (runSecurityEnforce s input).2.recorded checkId = some outcome) :
    (runSecurityEnforce s input).1.lastEmittedOutcome checkId = some outcome := by
  cases hpolicy : input.policy with
  | none => simp [runSecurityEnforce, hpolicy, Pass.recorded] at h
  | some policy =>
    have hnodup := (passSpec s hpolicy).nodup
    obtain ⟨p, -, heq⟩ := runSecurityEnforce_eq s hpolicy
    rw [heq] at h hnodup ⊢
    cases hrejected : p.rejected with
    | true => simp [hrejected, Pass.recorded] at h
    | false =>
      simp only [hrejected, Pass.recorded, Bool.false_eq_true, if_false, Option.map_eq_some_iff] at h hnodup ⊢
      obtain ⟨r, hfind, rfl⟩ := h
      have hid : r.checkId = checkId := by simpa using find?_some hfind
      have hr := mem_of_find?_eq_some hfind
      subst hid
      exact recordOutcomes_of_mem hnodup hr

theorem lastEmittedOutcome_of_previous {n : Nat} {checkId : Str} {outcome : EnforceOutcome}
    (h : previous inputs n checkId = some outcome) : (states inputs n).lastEmittedOutcome checkId = some outcome := by
  cases n with
  | zero => cases h
  | succ n => exact lastEmittedOutcome_of_recorded h

theorem passSpec_pass {policy : SecurityPolicy} {n : Nat} (hpolicy : (inputs n).policy = some policy) :
    PassSpec (states inputs n) (inputs n) policy (pass inputs n) :=
  passSpec (states inputs n) hpolicy

theorem notRepeated (inputs : Nat → PassInput) : NotRepeated inputs := by
  intro n r hr _ hprev event hevent hsame
  have hlast := lastEmittedOutcome_of_previous hprev
  cases hpolicy : (inputs n).policy with
  | none => simp [pass, runSecurityEnforce, hpolicy] at hr
  | some policy =>
    have hspec := passSpec_pass hpolicy
    obtain ⟨-, -, -, r', hr', hof⟩ := (hspec.enqueued event).mp hevent
    obtain ⟨hid, -, hnew⟩ := eventOf_spec hof
    -- the event is of the same result
    have heq : r' = r := inj_on_of_nodup_map hspec.nodup hr' hr (hid.symm.trans hsame)
    rw [heq] at hnew
    exact hnew hlast

/-- In every run whose passes keep track of their remediations, these are audited, and no event is repeated. -/
theorem audited_of_keepsTrack (inputs : Nat → PassInput)
    (htrack : ∀ n, KeepsTrack (states inputs n) (inputs n) (previous inputs n)) :
    Audited inputs ∧ NotRepeated inputs := by
  refine ⟨fun n r hr hout hnew => ?_, notRepeated inputs⟩
  obtain ⟨event, hevent, hsame⟩ := (keepsTrack_iff _ _ _).mp (htrack n) r hr hout hnew
  exact ⟨n, le_rfl, event, hevent, hsame⟩

end Runs

/-! ## Samples -/

/-- Passwords are not to be taken by the SSH server. -/
def samplePolicy : SecurityPolicy where
  defaultMode := some .reportOnly
  cooldownMinutes := some 60
  capability key :=
    match key with
    | .ssh => some ⟨some .auto, fun name =>
      if name = text "passwordAuthentication" then some (.bool false) else none⟩
    | _ => none

/-- A check that has drifted, and is remediated; afterwards it is compliant. -/
def sampleTurn (compliant : Bool) : Turn :=
  ⟨0, 60 * 60 * 1000, 60 * 60 * 1000, 0, 5, 0, .ok compliant, true, .ok false⟩

def samplePass (n : Nat) (enqueues : Bool) : PassInput :=
  ⟨some samplePolicy, .linux, true, 0, fun _ => sampleTurn (decide (0 < n)), 0, true, enqueues⟩

theorem audited_of_keepsTrack_samplePass :
    Audited (fun n => samplePass n true) ∧ NotRepeated (fun n => samplePass n true) := by
  refine audited_of_keepsTrack _ fun n pre e post requiresReboot _ _ hdoes _ => ⟨?_, rfl, rfl, ?_⟩
  · rintro e' - (⟨_, _, h⟩ | ⟨_, _, _, h⟩)
    · cases h
    · cases h
  · cases n with
    | zero => simp [states]
    | succ n => cases hdoes.2.1

/-- The remediation of the first pass, whose event cannot be enqueued. -/
def lostResult : EnforceResult :=
  ⟨text "linux.ssh.password_auth_disabled", .ssh, text "passwordAuthentication", .auto, .driftRemediated, 5, none⟩

def lostRun (n : Nat) : PassInput := samplePass n (decide (0 < n))

theorem lostRun_policy (m : Nat) : (lostRun m).policy = some samplePolicy := rfl

theorem lostRun_read (m : Nat) (checkId : Str) : ((lostRun (m + 1)).turn checkId).read = .ok true := rfl

/-- The event is lost, and the check is compliant ever after. -/
theorem not_audited_lostRun : ¬ (Audited lostRun ∧ NotRepeated lostRun) := by
  rintro ⟨haudited, -⟩
  have hfirst : (pass lostRun 0).results[1]? = some lostResult := by decide +kernel
  have hremediated : lostResult.outcome.remediated := rfl
  have hnew : previous lostRun 0 lostResult.checkId ≠ some lostResult.outcome := nofun
  obtain ⟨m, -, event, hevent, -, houtcome⟩ := haudited 0 lostResult (mem_of_getElem? hfirst) hremediated hnew
  have hspec := passSpec_pass (lostRun_policy m)
  obtain ⟨-, -, hqueue, r, hr, hof⟩ := (hspec.enqueued event).mp hevent
  cases m with
  | zero => cases hqueue
  | succ m =>
    -- an event of a remediation is of a check that was not compliant
    have hout : r.outcome.remediated := by
      rw [← (eventOf_spec hof).2.1, houtcome]
      rfl
    obtain ⟨_, e, _, _, -, -, -, hdoes, -⟩ := comes_remediated (lostRun_policy (m + 1)) ((hspec.results r).mp hr) hout
    cases (lostRun_read m e.checkId).symm.trans hdoes.2.1

end Security
