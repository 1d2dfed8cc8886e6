-- SUMMARY: When a session has one capture loop that is over with it: the forks of the loop, and the frame that comes late.
import Tracenium.Rcp.CaptureRuns

/-! A capture sets the next timer when it is answered, and whoever sets one before that forks the loop. -/

open Utf16 List Option
open Rcp.Consent (Decision)

namespace Rcp.Capture

open Screen.Session

/-! ## The smaller model -/

structure Sole (t : Screen.Session) (log : List Screen.Act) : Prop where
  one : t.timers.length + t.capturing ≤ 1
  /-- The handle that is kept is that of the timer that is set. -/
  own : ∀ k ∈ t.timers, t.captureTimer = some k
  unarmed : t.disposed = true → t.timers = []
  ended : .ended ∈ log ↔ t.disposed = true
  quiet : Each (fun before act => (∃ quality server, act = .captured quality server) → .ended ∉ before) log

/-- The loop is forked: it is started where it goes on already, or a timer is set while a capture is awaited. -/
def Forks (platform : Screen.Platform) (t : Screen.Session) : Screen.Event → Prop
  | .started => t.start = .queued ∧ platform ≠ .linux ∧ t.disposed = false ∧ (t.timers ≠ [] ∨ t.capturing ≠ 0)
  | .shown ok => t.start = .showing ∧ ok = true ∧ t.disposed = false ∧ (t.timers ≠ [] ∨ t.capturing ≠ 0)
  | .message (.setQuality _ _) _ => t.disposed = false ∧ t.capturing ≠ 0
  | _ => False

section Sole

variable {platform : Screen.Platform} {t u : Screen.Session} {log acts : List Screen.Act}

/-- The loop is set only where there is none. -/
theorem Sole.scheduleNext (hs : Sole t log) (hidle : t.disposed = false → t.timers = [] ∧ t.capturing = 0) :
    Sole t.scheduleNext log := by
  unfold Screen.Session.scheduleNext
  split
  · exact hs
  · rename_i hlive
    have hlive : t.disposed = false := by simpa using hlive
    obtain ⟨htimers, hcapturing⟩ := hidle hlive
    exact
      { one := by simp [htimers, hcapturing]
        own := by simp [htimers]
        unarmed := fun hdisposed => by simp [hlive] at hdisposed
        ended := hs.ended
        quiet := hs.quiet }

/-- Acts that are no part of the loop. -/
def Aside (act : Screen.Act) : Prop := act ≠ .ended ∧ ∀ quality server, act ≠ .captured quality server

/-- A step that leaves the loop alone. -/
theorem Sole.aside (hs : Sole t log) (acts : List Screen.Act)
    (hsame : u.timers = t.timers ∧ u.captureTimer = t.captureTimer ∧ u.capturing = t.capturing ∧
      u.disposed = t.disposed) (hacts : ∀ act ∈ acts, Aside act) : Sole u (acts ++ log) := by
  obtain ⟨htimers, hhandle, hcapturing, hdisposed⟩ := hsame
  induction acts with
  | nil =>
    exact ⟨by simpa [htimers, hcapturing] using hs.one, by simpa [htimers, hhandle] using hs.own,
      by simpa [htimers, hdisposed] using hs.unarmed, by simpa [hdisposed] using hs.ended, hs.quiet⟩
  | cons act acts ih =>
    obtain ⟨hact, hacts⟩ := forall_mem_cons.mp hacts
    have hrest := ih hacts
    refine ⟨hrest.one, hrest.own, hrest.unarmed, ?_, each_cons.mpr ⟨?_, hrest.quiet⟩⟩
    · simpa [hact.1.symm] using hrest.ended
    · rintro ⟨quality, server, rfl⟩
      exact absurd rfl (hact.2 quality server)

theorem Sole.clearCaptureTimer (hs : Sole t log) : Sole t.clearCaptureTimer log ∧ t.clearCaptureTimer.timers = [] ∧
      t.clearCaptureTimer.capturing = t.capturing ∧ t.clearCaptureTimer.disposed = t.disposed := by
  have htimers : t.clearCaptureTimer.timers = [] := by
    unfold Screen.Session.clearCaptureTimer
    split
    · rename_i k hk
      simp only [filter_eq_nil_iff, decide_eq_true_eq, not_not]
      intro l hl
      exact (some.inj ((hs.own l hl).symm.trans hk))
    · rename_i hnone
      refine eq_nil_iff_forall_not_mem.mpr fun l hl => ?_
      simp [hs.own l hl] at hnone
  have hrest : t.clearCaptureTimer.capturing = t.capturing ∧ t.clearCaptureTimer.disposed = t.disposed := by
    unfold Screen.Session.clearCaptureTimer
    split <;> exact ⟨rfl, rfl⟩
  refine ⟨⟨?_, by simp [htimers], fun _ => htimers, by simpa [hrest.2] using hs.ended, hs.quiet⟩, htimers, hrest⟩
  have hone := hs.one
  simp only [htimers, length_nil]
  omega

theorem Sole.stopCapture (hs : Sole t log) (start : Screen.Start) :
    Sole (stopCapture platform { t with start := start }).1
      ((stopCapture platform { t with start := start }).2 ++ log) := by
  have hstart : Sole { t with start := start } log := ⟨hs.one, hs.own, hs.unarmed, hs.ended, hs.quiet⟩
  unfold Screen.Session.stopCapture
  split
  · exact hstart
  · obtain ⟨hclear, htimers, -, -⟩ := hstart.clearCaptureTimer
    have hends : Sole { ({ t with start := start } : Screen.Session).clearCaptureTimer with disposed := true }
        (.ended :: log) :=
      { one := hclear.one
        own := hclear.own
        unarmed := fun _ => htimers
        ended := by simp
        quiet := each_cons.mpr ⟨by simp, hclear.quiet⟩ }
    dsimp only
    split
    · exact hends.aside [.hidden, .tray none] ⟨rfl, rfl, rfl, rfl⟩ (by simp [Aside])
    · exact hends.aside [.tray none] ⟨rfl, rfl, rfl, rfl⟩ (by simp [Aside])

theorem Sole.startAfterIndicator (hs : Sole t log) (hforks : ¬ Forks platform t .started) :
    Sole (t.startAfterIndicator platform).1 ((t.startAfterIndicator platform).2 ++ log) := by
  unfold Screen.Session.startAfterIndicator
  split
  · exact hs
  · rename_i hstart
    split
    · exact hs.aside _ ⟨rfl, rfl, rfl, rfl⟩ (by simp)
    · split
      · exact hs.aside _ ⟨rfl, rfl, rfl, rfl⟩ (by simp [Aside])
      · rename_i hlinux
        have hover : Sole { t with start := .over } log := hs.aside [] ⟨rfl, rfl, rfl, rfl⟩ (by simp)
        refine hover.scheduleNext fun hlive => ?_
        by_contra hidle
        refine hforks ⟨by simpa using hstart, hlinux, hlive, ?_⟩
        exact Classical.not_and_iff_not_or_not.mp hidle

theorem Sole.onShown (hs : Sole t log) {ok : Bool} (hforks : ¬ Forks platform t (.shown ok)) :
    Sole (t.onShown platform ok).1 ((t.onShown platform ok).2 ++ log) := by
  unfold Screen.Session.onShown
  split
  · exact hs
  · rename_i hstart
    split
    · rename_i hok
      have hover : Sole { t with start := .over } (.shown :: log) :=
        hs.aside [.shown] ⟨rfl, rfl, rfl, rfl⟩ (by simp [Aside])
      refine hover.scheduleNext fun hlive => ?_
      by_contra hidle
      refine hforks ⟨by simpa using hstart, hok, hlive, ?_⟩
      exact Classical.not_and_iff_not_or_not.mp hidle
    · exact hs.stopCapture .over

/-- The timer that fires is the only one, and no capture is awaited. -/
theorem Sole.onTimer (hs : Sole t log) (k : Nat) (policy : Screen.Policy) :
    Sole (t.onTimer k policy).1 ((t.onTimer k policy).2 ++ log) := by
  unfold Screen.Session.onTimer
  split
  · exact hs
  · rename_i hset
    have hmem : k ∈ t.timers := by simpa using hset
    have hlive : t.disposed = false := by
      by_contra hdisposed
      simp [hs.unarmed (by simpa using hdisposed)] at hmem
    have hlength : (t.timers.erase k).length + (t.capturing + 1) ≤ 1 := by
      have hpos := length_pos_of_mem hmem
      have hone := hs.one
      rw [length_erase_of_mem hmem]
      omega
    have hended : Screen.Act.ended ∉ log := by simp [hs.ended, hlive]
    rw [if_neg (by simp [hlive])]
    exact
      { one := hlength
        own := fun l hl => hs.own l (mem_of_mem_erase hl)
        unarmed := fun hdisposed => Bool.noConfusion (hlive.symm.trans hdisposed)
        ended := by simpa using hs.ended
        quiet := each_cons.mpr ⟨fun _ => hended, hs.quiet⟩ }

theorem Sole.onCaptured (hs : Sole t log) : Sole t.onCaptured.1 (t.onCaptured.2 ++ log) := by
  unfold Screen.Session.onCaptured
  split
  · exact hs
  · rename_i hcapturing
    have hone := hs.one
    have hless : Sole { t with capturing := t.capturing - 1 } log :=
      { one := by dsimp only; omega
        own := hs.own
        unarmed := hs.unarmed
        ended := hs.ended
        quiet := hs.quiet }
    refine hless.scheduleNext fun _ => ⟨?_, ?_⟩
    · exact length_eq_zero_iff.mp (show t.timers.length = 0 by omega)
    · show t.capturing - 1 = 0
      omega

theorem Sole.setQuality (hs : Sole t log) (hcapturing : t.disposed = false → t.capturing = 0)
    (fps quality : Option Nat) : Sole (t.setQuality fps quality) log := by
  have hset : Sole { t with
      fps := (fps.map fun fps => max Screen.MIN_FPS (min Screen.MAX_FPS fps)).getD t.fps
      quality := (quality.map fun quality => max Screen.MIN_QUALITY (min Screen.MAX_QUALITY quality)).getD t.quality }
      log := hs.aside [] ⟨rfl, rfl, rfl, rfl⟩ (by simp)
  obtain ⟨hclear, htimers, hsame, hdisposed⟩ := hset.clearCaptureTimer
  exact hclear.scheduleNext fun hlive => ⟨htimers, hsame.trans (hcapturing (hdisposed ▸ hlive))⟩

theorem aside_answered (decision : Decision) : ∀ act ∈ answered decision, Aside act := by
  unfold answered
  split <;> simp [Aside]

theorem Sole.onDecision (hs : Sole t log) (decision : Decision) (policy : Screen.Policy) :
    Sole (t.onDecision decision policy).1 ((t.onDecision decision policy).2 ++ log) := by
  have hanswered := aside_answered decision
  unfold Screen.Session.onDecision
  split
  · exact hs
  · split
    · exact hs.aside _ ⟨rfl, rfl, rfl, rfl⟩ hanswered
    · dsimp only
      split
      · exact hs.aside _ ⟨rfl, rfl, rfl, rfl⟩ (by simpa [Aside, publishIndicator] using hanswered)
      · split
        · exact hs.aside _ ⟨rfl, rfl, rfl, rfl⟩ (by simpa [Aside] using hanswered)
        · exact hs.aside _ ⟨rfl, rfl, rfl, rfl⟩ hanswered

theorem Sole.control (hs : Sole t log) (policy : Screen.Policy) (method : Screen.Method) :
    Sole (t.control policy method).1 ((t.control policy method).2 ++ log) := by
  unfold Screen.Session.control
  split
  · exact hs.aside _ ⟨rfl, rfl, rfl, rfl⟩ (by simp [Aside])
  · exact hs
  · split
    · exact hs.aside _ ⟨rfl, rfl, rfl, rfl⟩ (by simp [Aside])
    · exact hs.aside _ ⟨rfl, rfl, rfl, rfl⟩ (by simp [Aside, publishIndicator])

theorem Sole.handleMessage (hs : Sole t log) {message : Screen.Message} {policy : Screen.Policy}
    (hforks : ¬ Forks platform t (.message message policy)) :
    Sole (t.handleMessage platform message policy).1 ((t.handleMessage platform message policy).2 ++ log) := by
  have hsilent : ∀ act : Screen.Act, Aside act → Sole t ([act] ++ log) := fun act hact =>
    hs.aside _ ⟨rfl, rfl, rfl, rfl⟩ (by simpa using hact)
  unfold Screen.Session.handleMessage
  split
  · exact hs
  · cases message with
    | setQuality fps quality =>
      refine hs.setQuality (fun hlive => ?_) fps quality
      by_contra hcapturing
      exact hforks ⟨hlive, hcapturing⟩
    | stop => exact hs.stopCapture t.start
    | input op => exact hs.control policy _
    | sas =>
      dsimp only
      unfold sendSecureAttention
      split
      · exact hs.control policy _
      · exact hsilent _ (by simp [Aside])
    | keyframe => exact hs
    | typeText typed =>
      dsimp only
      unfold sendTypeText
      split
      · exact hs
      · split
        · exact hsilent _ (by simp [Aside])
        · split
          · exact hsilent _ (by simp [Aside])
          · exact hs.control policy _
    | controlReleased =>
      dsimp only
      unfold controlReleased
      split
      · exact hs.aside _ ⟨rfl, rfl, rfl, rfl⟩ (by simp [Aside, publishIndicator])
      · exact hs

theorem Sole.handle (hs : Sole t log) {e : Screen.Event} (hforks : ¬ Forks platform t e) :
    Sole (t.handle platform e).1 ((t.handle platform e).2 ++ log) := by
  cases e with
  | started => exact hs.startAfterIndicator hforks
  | shown ok => exact hs.onShown hforks
  | timer k policy => exact hs.onTimer k policy
  | captured => exact hs.onCaptured
  | message message policy => exact hs.handleMessage hforks
  | decided decision policy => exact hs.onDecision decision policy
  | ended => exact hs.stopCapture t.start

/-- A timer beside the loop. -/
theorem two_scheduleNext (hlive : t.disposed = false) (hloop : t.timers ≠ [] ∨ t.capturing ≠ 0) :
    ¬ t.scheduleNext.timers.length + t.scheduleNext.capturing ≤ 1 := by
  have hpos : 0 < t.timers.length + t.capturing := by
    rcases hloop with htimers | hcapturing
    · have := length_pos_iff.mpr htimers
      omega
    · omega
  simp only [scheduleNext, hlive, Bool.false_eq_true, if_false, length_cons]
  omega

/-- A fork is seen at once. -/
theorem two_handle {e : Screen.Event} (hforks : Forks platform t e) :
    ¬ (t.handle platform e).1.timers.length + (t.handle platform e).1.capturing ≤ 1 := by
  cases e with
  | started =>
    obtain ⟨hstart, hlinux, hlive, hloop⟩ := hforks
    have htwo := two_scheduleNext (t := { t with start := .over }) hlive hloop
    simpa [handle, startAfterIndicator, hstart, hlive, hlinux] using htwo
  | shown ok =>
    obtain ⟨hstart, rfl, hlive, hloop⟩ := hforks
    have htwo := two_scheduleNext (t := { t with start := .over }) hlive hloop
    simpa [handle, onShown, hstart] using htwo
  | message message policy =>
    cases message with
    | setQuality fps quality =>
      obtain ⟨hlive, hcapturing⟩ := hforks
      simp only [handle, handleMessage, hlive, Bool.false_eq_true, if_false]
      unfold setQuality clearCaptureTimer
      split
      · exact two_scheduleNext hlive (.inr hcapturing)
      · exact two_scheduleNext hlive (.inr hcapturing)
    | _ => cases hforks
  | _ => cases hforks

end Sole

/-! ## Sessions -/

/-- A first frame that comes after the end. -/
def Late (t : Session) : Event → Prop
  | .captured (.frame _) _ => t.capturing ≠ 0 ∧ t.disposed = true ∧ t.seq = 0
  | _ => False

/-- The loop is not forked, and no first frame is late. -/
def Orderly (platform : Screen.Platform) (t : Session) (e : Event) : Prop :=
  (∀ e', e.screen = some e' → ¬ Forks platform t.toSession e') ∧ ¬ Late t e

def Shows (act : Act) : Prop :=
  (∃ quality server, act = .screen (.captured quality server)) ∨ lifecycle act = some .started

/-- One timer or capture at a time, and none of a session that has ended. -/
structure OneLoop (t : Session) (log : List Act) : Prop where
  one : t.timers.length + t.capturing ≤ 1
  unarmed : t.disposed = true → t.timers = []
  quiet : Each (fun before act => Shows act → .screen .ended ∉ before) log

structure Looped (t : Session) (log : List Act) : Prop where
  sole : Sole t.toSession (screenActs log)
  seq : t.seq = 0 ↔ t.auditStartedSent = false
  started : Each (fun before act => lifecycle act = some .started → .screen .ended ∉ before) log

section Looped

variable {platform : Screen.Platform} {t : Session} {live : Nat} {e : Event} {log acts : List Act}

theorem mem_screenActs {act : Screen.Act} : act ∈ screenActs acts ↔ .screen act ∈ acts := by
  have hact : ∀ a, screenAct a = some act ↔ a = .screen act := by
    intro a
    cases a <;> simp [screenAct]
  simp [screenActs, hact]

theorem Looped.oneLoop (hs : Looped t log) : OneLoop t log where
  one := hs.sole.one
  unarmed := hs.sole.unarmed
  quiet := by
    intro act before hbefore hshows
    rcases hshows with ⟨quality, server, rfl⟩ | hstarted
    · have hquiet := each_of_filterMap hs.sole.quiet _ before hbefore (.captured quality server) rfl
        ⟨quality, server, rfl⟩
      exact fun hended => hquiet (mem_screenActs.mpr hended)
    · exact hs.started act before hbefore hstarted

/-- The part of a step that the smaller model sees. -/
theorem Sole.whole (hs : Sole t.toSession (screenActs log))
    (hforks : ∀ e', e.screen = some e' → ¬ Forks platform t.toSession e') :
    Sole (t.handle platform live e).session.toSession (screenActs ((t.handle platform live e).acts ++ log)) := by
  have hhandle := @handle_screen platform t live e
  rw [screenActs_append]
  cases he : e.screen with
  | none =>
    simp only [he] at hhandle
    have hsession : (t.handle platform live e).session.toSession = t.toSession := congrArg Prod.fst hhandle
    have hacts : screenActs (t.handle platform live e).acts = [] := congrArg Prod.snd hhandle
    simpa [hsession, hacts] using hs
  | some e' =>
    simp only [he, map_some, getD_some] at hhandle
    have hnext := hs.handle (hforks e' he)
    rw [← hhandle] at hnext
    exact hnext

/-- Acts that are reported without a first audit. -/
theorem not_started_of_report (hacts : .started ∉ (report acts).audits) :
    ∀ act ∈ acts, lifecycle act ≠ some .started :=
  fun _ hact hstarted => hacts (mem_filterMap.mpr ⟨_, hact, hstarted⟩)

theorem Looped.silent (hs : Looped t log) (hacts : .started ∉ (report acts).audits) :
    Each (fun before act => lifecycle act = some .started → .screen .ended ∉ before) (acts ++ log) :=
  hs.started.append fun act hact _ hstarted => absurd hstarted (not_started_of_report hacts act hact)

/-- A first frame of a session that goes on comes before the end. -/
theorem Looped.onCaptured (hs : Looped t log) {result : CaptureResult} {offered : Offered}
    (hcapturing : t.capturing ≠ 0) (hlate : ¬ Late t (.captured result offered)) :
    ((t.onCaptured result offered).1.seq = 0 ↔ (t.onCaptured result offered).1.auditStartedSent = false) ∧
      Each (fun before act => lifecycle act = some .started → .screen .ended ∉ before)
        ((t.onCaptured result offered).2 ++ log) := by
  obtain ⟨o, -, heq⟩ := onCaptured_eq hcapturing result offered
  rw [heq]
  cases result with
  | fails code message =>
    obtain ⟨hseq, haudit, -, -, codes, -, htold⟩ := @captureFrame_fails t code message offered
    exact ⟨by simpa [hseq, haudit] using hs.seq, hs.silent (by simp [htold])⟩
  | frame frame =>
    obtain ⟨hseq, haudit, -, -, htold⟩ := captureFrame_frame hs.seq frame offered
    refine ⟨by simp [hseq, haudit], ?_⟩
    by_cases hstarted : t.auditStartedSent
    · exact hs.silent (by simp [htold, hstarted, Report.append, report_offer])
    · -- It is the first one, so that the session has not ended.
      have hzero : t.seq = 0 := hs.seq.mpr (by simpa using hstarted)
      have hlive : ¬ t.disposed := fun hdisposed => hlate ⟨hcapturing, hdisposed, hzero⟩
      have hended : .screen .ended ∉ (t.captureFrame (.frame frame) offered).2 ++ log := by
        rw [← mem_screenActs, screenActs_append, (captureFrame_screen _ _).2, nil_append, hs.sole.ended]
        exact hlive
      exact (each_of_notMem hended).mono fun before act hbefore _ => hbefore

theorem Looped.handle (hs : Looped t log) (horderly : Orderly platform t e) :
    Looped (t.handle platform live e).session ((t.handle platform live e).acts ++ log) := by
  have hsole : Sole (t.handle platform live e).session.toSession
      (screenActs ((t.handle platform live e).acts ++ log)) := hs.sole.whole horderly.1
  suffices hrest : ((t.handle platform live e).session.seq = 0 ↔
      (t.handle platform live e).session.auditStartedSent = false) ∧
      Each (fun before act => lifecycle act = some .started → .screen .ended ∉ before)
        ((t.handle platform live e).acts ++ log) from ⟨hsole, hrest.1, hrest.2⟩
  have htaken := @taken_handle platform t live e
  generalize t.handle platform live e = outcome at htaken
  cases htaken with
  | goes offered o hdisposed hsession hcounted htold =>
    obtain ⟨recorder, hoffer⟩ := offer_session t offered
    refine ⟨by simpa [hsession, hoffer] using hs.seq, hs.silent ?_⟩
    simp [htold, report_offer]
  | captured result offered he hcapturing houtcome =>
    subst houtcome he
    exact hs.onCaptured hcapturing horderly.2
  | finished reason handoff hlive hfinished =>
    obtain ⟨ended, -, hsession⟩ := hfinished.session
    refine ⟨by simpa [hsession] using hs.seq, hs.silent ?_⟩
    rw [hfinished.told]
    split <;> simp

/-- What a fork or a late frame leaves is no single loop. -/
theorem Looped.breaks (hs : Looped t log) (horderly : ¬ Orderly platform t e) :
    ¬ OneLoop (t.handle platform live e).session ((t.handle platform live e).acts ++ log) := by
  intro hone
  refine horderly ⟨fun e' he' hforks => ?_, fun hlate => ?_⟩
  · have hscreen := @handle_screen platform t live e
    simp only [he', map_some, getD_some] at hscreen
    have htwo := two_handle hforks
    rw [← hscreen] at htwo
    exact htwo hone.one
  · cases e with
    | captured result offered =>
      cases result with
      | fails code message => cases hlate
      | frame frame =>
        obtain ⟨hcapturing, hdisposed, hzero⟩ := hlate
        obtain ⟨o, -, heq⟩ := onCaptured_eq hcapturing (.frame frame) offered
        obtain ⟨-, -, -, -, htold⟩ := captureFrame_frame hs.seq frame offered
        have hquiet := hone.quiet
        simp only [Session.handle, heq] at hquiet
        have hstarted : .started ∈ (report (t.captureFrame (.frame frame) offered).2).audits := by
          simp [htold, hs.seq.mp hzero, Report.append]
        obtain ⟨act, hact, hlifecycle⟩ := mem_filterMap.mp hstarted
        obtain ⟨later, before, hsplit⟩ := append_of_mem hact
        have hended : .screen .ended ∈ log := mem_screenActs.mp (hs.sole.ended.mpr hdisposed)
        refine hquiet act (before ++ log) ⟨later, by simp [hsplit]⟩ (.inr hlifecycle) ?_
        exact mem_append_right _ hended
    | _ => cases hlate

theorem keeps_looped (platform : Screen.Platform) : Keeps platform (Orderly platform) Looped where
  opened sessionId operator now policy starts := by
    have hsole : Sole (opened sessionId operator now policy).1
        (opened sessionId operator now policy).2 := by
      constructor <;> simp [opened, publishIndicator]
    have hsilent : .started ∉ (report (Session.opened sessionId operator now policy starts).2).audits := by
      unfold Session.opened
      dsimp only
      split <;> simp [report, lifecycle]
    have hacts : Each (fun before act => lifecycle act = some .started → .screen .ended ∉ before)
        ((Session.opened sessionId operator now policy starts).2 ++ []) :=
      each_nil.append fun act hact _ hstarted => absurd hstarted (not_started_of_report hsilent act hact)
    refine ⟨?_, by simp [Session.opened], by simpa using hacts⟩
    rw [screenActs_opened]
    exact hsole
  handle t log live e hs horderly := hs.handle horderly

end Looped

/-- A run keeps one loop a session if and only if no step of it forks a loop, and no first frame comes after the end
of its session. -/
theorem oneLoop_iff (platform : Screen.Platform) (tr : List Input) :
    (machine platform).Always (State.Sessions OneLoop) tr ↔ (machine platform).Guarded (Meets (Orderly platform)) tr :=
  (keeps_looped platform).always_iff (fun _ _ hs => hs.oneLoop) (fun _ _ _ _ hs horderly => hs.breaks horderly) tr

def watching : Screen.Policy := ⟨false, false, false⟩

def forkedRun : List Input :=
  [.opens (text "s-1") (text "Ana") watching false, .on 0 .started, .on 0 (.timer 0 watching),
   .on 0 (.message (.setQuality (some 15) none) watching .skipped .sent)]

theorem not_oneLoop_forkedRun : ¬ (machine .windows).Always (State.Sessions OneLoop) forkedRun := by
  intro h
  have htwo : ∃ t, ((machine .windows).run forkedRun).sessions[0]? = some t ∧ t.timers.length + t.capturing = 2 :=
    ⟨_, rfl, by decide⟩
  obtain ⟨t, ht, htwo⟩ := htwo
  have hone := (h.last 0 t ht).one
  exact absurd (htwo ▸ hone) (by decide)

end Rcp.Capture
