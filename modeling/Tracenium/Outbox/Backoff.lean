-- SUMMARY: When the retry arithmetic of the outbox is exact, in every time zone.
import Tracenium.Lib.Zones
import Tracenium.Outbox.Keeping

open Utf16

namespace Outbox

def Host.zoned (h : Host) (z : Zone) : Host := { h with localTime := z.localTime, utc := z.utc }

variable {h : Host} {z : Zone}

theorem addSecondsIso_zoned (h : Host) (z : Zone) (iso secs : Int) :
    addSecondsIso (h.zoned z) iso secs = timeClip (z.utc (z.localTime iso + 1000 * secs)) := by
  have hmoved : z.localTime iso - 1000 * (z.localTime iso / 1000 % 60) +
      1000 * (z.localTime iso / 1000 % 60 + secs) = z.localTime iso + 1000 * secs := by
    omega
  simp only [addSecondsIso, Host.zoned, hmoved]

/-- The moved instant is one that a `Date` can hold, and the zone keeps the wall clock from `iso` on to it. -/
def CanMove (z : Zone) (iso secs : Int) : Prop :=
  (timeClip (iso + 1000 * secs)).isSome = true ∧ z.Keeps iso (1000 * secs)

theorem timeClip_eq_some {t u : Int} : timeClip t = some u ↔ (timeClip t).isSome = true ∧ t = u := by
  unfold timeClip
  split <;> simp

theorem addSecondsIso_eq_iff {iso secs : Int} :
    addSecondsIso (h.zoned z) iso secs = some (iso + 1000 * secs) ↔ CanMove z iso secs := by
  rw [addSecondsIso_zoned, timeClip_eq_some, Zone.utc_add_iff, CanMove]
  constructor
  · rintro ⟨hclip, hkeeps⟩
    rw [Zone.utc_add_iff.mpr hkeeps] at hclip
    exact ⟨hclip, hkeeps⟩
  · rintro ⟨hclip, hkeeps⟩
    rw [Zone.utc_add_iff.mpr hkeeps]
    exact ⟨hclip, hkeeps⟩

/-! ## Operations -/

theorem computeBackoffSeconds_ge (attempt : Nat) (jitter : Fin 10) : 30 ≤ computeBackoffSeconds attempt jitter := by
  have hpow : 1 ≤ 2 ^ (attempt - 1) := Nat.one_le_two_pow
  unfold computeBackoffSeconds
  omega

namespace SqliteOutbox

variable {o : SqliteOutbox}

/-- The row that failed waits until the instant that the backoff leads to. -/
theorem next_markFailed {id : Nat} {row : Nat × Row} (hrow : o.events.rows.find? (isLiveRow id) = some row)
    (hattempts : row.2.attempts + 1 < MAX_ATTEMPTS) {now next : Int} {jitter : Fin 10}
    (hnext : addSecondsIso h now (computeBackoffSeconds (row.2.attempts + 1) jitter) = some next) {error : Str}
    {r : Nat × Row} (hr : r ∈ (o.markFailed h id error now jitter).events.rows) (hid : r.1 = id) :
    r.2.nextAttemptAtUtc = next := by
  simp only [markFailed, hrow, Nat.not_le.mpr hattempts, hnext] at hr
  obtain ⟨r', -, rfl⟩ := Table.mem_update.mp hr
  split at hid
  · rename_i hr'
    simp [hr', retry]
  · rename_i hr'
    exact absurd (decide_eq_true hid) hr'

theorem mem_reclaim {later : Nat → Int × Fin 10} {rows : List (Nat × Row)} {r : Nat × Row}
    (hr : r ∈ o.events.rows) (hnot : r.1 ∉ rows.map Prod.fst) : r ∈ (reclaim h later rows o).events.rows := by
  induction rows generalizing o with
  | nil => exact hr
  | cons stale rows ih =>
    simp only [List.map_cons, List.mem_cons, not_or] at hnot
    have hkept : ∀ f, r ∈ (o.setRow stale.1 f).events.rows := fun f =>
      Table.mem_update_of_not hr (decide_eq_false hnot.1)
    rw [reclaim]
    split
    · exact ih (hkept _) hnot.2
    · split
      · exact ih (hkept _) hnot.2
      · exact hr

/-- A row that was not locked before the cutoff stays as it is. -/
theorem mem_recoverStaleInflight {ttlSeconds now cutoff : Int}
    (hcutoff : addSecondsIso h now (-ttlSeconds) = some cutoff) {later : Nat → Int × Fin 10} {r : Nat × Row}
    (hr : r ∈ o.events.rows) (hlocked : ∀ locked ∈ r.2.lockedAtUtc, cutoff ≤ locked) :
    r ∈ (o.recoverStaleInflight h ttlSeconds now later).events.rows := by
  rw [recoverStaleInflight, hcutoff]
  refine mem_reclaim hr fun hmem => ?_
  have hstale := List.mem_filter.mp (Table.mem_of_id (List.filter_subset_self _) hr hmem)
  simp only [isStale, Bool.and_eq_true, Option.any_eq_true, decide_eq_true_eq] at hstale
  obtain ⟨-, ⟨-, locked, hlock, hlt⟩, -⟩ := hstale
  exact absurd hlt (not_lt.mpr (hlocked locked hlock))

end SqliteOutbox

/-- The arithmetic is exact, and with it the retry of a row that failed by so many seconds and the recovery of stale
rows with so many seconds to live. -/
structure Exact (h : Host) (z : Zone) (iso secs : Int) : Prop where
  denotes : addSecondsIso (h.zoned z) iso secs = some (iso + 1000 * secs)
  /-- No row that failed is to be sent again before 30 seconds. -/
  retries : ∀ (o : SqliteOutbox) id error jitter row, o.events.rows.find? (SqliteOutbox.isLiveRow id) = some row →
    row.2.attempts + 1 < MAX_ATTEMPTS → secs = computeBackoffSeconds (row.2.attempts + 1) jitter →
    ∀ r ∈ (o.markFailed (h.zoned z) id error iso jitter).events.rows, r.1 = id →
      iso + 1000 * 30 ≤ r.2.nextAttemptAtUtc
  /-- No row is reclaimed that was locked less than so many seconds ago. -/
  reclaims : ∀ (o : SqliteOutbox) ttlSeconds later, secs = -ttlSeconds → ∀ r ∈ o.events.rows,
    (∀ locked ∈ r.2.lockedAtUtc, iso - locked ≤ 1000 * ttlSeconds) →
      r ∈ (o.recoverStaleInflight (h.zoned z) ttlSeconds iso later).events.rows

/-- The arithmetic is exact where the instant can be held and the zone keeps the wall clock, and only there. -/
theorem exact_iff_canMove (h : Host) (z : Zone) (iso secs : Int) : Exact h z iso secs ↔ CanMove z iso secs := by
  refine ⟨fun hexact => addSecondsIso_eq_iff.mp hexact.denotes, fun hmove => ?_⟩
  have hdenotes : addSecondsIso (h.zoned z) iso secs = some (iso + 1000 * secs) := addSecondsIso_eq_iff.mpr hmove
  refine ⟨hdenotes, ?_, ?_⟩
  · rintro o id error jitter row hrow hattempts rfl r hr hid
    have hnext := SqliteOutbox.next_markFailed hrow hattempts hdenotes hr hid
    have hbackoff := computeBackoffSeconds_ge (row.2.attempts + 1) jitter
    omega
  · rintro o ttlSeconds later rfl r hr hlocked
    refine SqliteOutbox.mem_recoverStaleInflight hdenotes hr fun locked hlock => ?_
    have hage := hlocked locked hlock
    omega

/-! ## The end of daylight saving time -/

/-- An hour ahead, until the instant 0. -/
def fallBack : Zone where
  offset t := if t < 0 then 3600000 else 0
  bound := 3600001
  bounded t := by split <;> decide

/-- In the hour that is repeated, a retry after 30 seconds is due an hour before. -/
theorem not_exact_fallBack : ¬ ∀ (h : Host) (z : Zone) (iso secs : Int), Exact h z iso secs := by
  intro hall
  have hmove := (addSecondsIso_eq_iff.mp (hall sampleHost fallBack 1000 30).denotes).2
  rcases hmove with ⟨-, hfirst⟩ | ⟨hskipped, -⟩
  · have hlater := hfirst (31000 - 3600000) (by decide)
    exact absurd hlater (by decide)
  · exact hskipped 31000 (by decide)

end Outbox
