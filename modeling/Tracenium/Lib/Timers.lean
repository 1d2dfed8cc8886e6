-- SUMMARY: One-shot timers of a host, a register of one timer a key, and what tracks what.
import Tracenium.Lib.OrderedMap
import Mathlib.Data.List.Perm.Basic

/-!
A program keeps the handle of the timer of each key. As long as the register has exactly the timers that run, clearing
and arming act on one key.
-/

open List OrderedMap

variable {κ α : Type*}

structure Timer (κ α : Type*) where
  id : Nat
  key : κ
  data : α

structure Timers (κ α : Type*) where
  running : List (Timer κ α)
  next : Nat
  handles : OrderedMap κ Nat

namespace Timers

open Timers

def empty : Timers κ α := ⟨[], 0, .empty⟩

def of [DecidableEq κ] (t : Timers κ α) (key : κ) : List α :=
  (t.running.filter fun timer => timer.key = key).map Timer.data

def clearTimeout (t : Timers κ α) (id : Nat) : Timers κ α :=
  { t with running := t.running.filter fun timer => timer.id ≠ id }

variable [DecidableEq κ]

/-- Arm a timer and keep its handle. A handle that is there is forgotten. -/
def arm (t : Timers κ α) (key : κ) (x : α) : Timers κ α :=
  { running := t.running ++ [⟨t.next, key, x⟩]
    next := t.next + 1
    handles := t.handles.set key t.next }

def clear (t : Timers κ α) (key : κ) : Timers κ α :=
  let t' := match t.handles.get key with
    | some id => t.clearTimeout id
    | none => t
  { t' with handles := t'.handles.delete key }

def clearAll (t : Timers κ α) : Timers κ α :=
  { t with
    running := t.running.filter fun timer => !(t.handles.entries.map Prod.snd).contains timer.id
    handles := .empty }

/-- A timer goes off, and its handle is given up. -/
def expire (t : Timers κ α) (timer : Timer κ α) : Timers κ α :=
  let t := t.clearTimeout timer.id
  { t with handles := t.handles.delete timer.key }

/-- The register has the timers that run, and no other. -/
structure Tracked (t : Timers κ α) : Prop where
  bounded : ∀ timer ∈ t.running, timer.id < t.next
  nodup : (t.running.map Timer.id).Nodup
  handle : ∀ key id, t.handles.get key = some id ↔ ∃ x, ⟨id, key, x⟩ ∈ t.running

variable {t : Timers κ α}

theorem mem_of_iff {key : κ} {x : α} : x ∈ t.of key ↔ ∃ id, ⟨id, key, x⟩ ∈ t.running := by
  constructor
  · intro hx
    obtain ⟨timer, htimer, rfl⟩ := mem_map.mp hx
    obtain ⟨hmem, hkey⟩ := mem_filter.mp htimer
    obtain rfl := of_decide_eq_true hkey
    exact ⟨timer.id, hmem⟩
  · rintro ⟨id, hmem⟩
    exact mem_map.mpr ⟨_, mem_filter.mpr ⟨hmem, decide_eq_true rfl⟩, rfl⟩

theorem of_eq_nil {key : κ} (h : ∀ timer ∈ t.running, timer.key ≠ key) : t.of key = [] := by
  refine eq_nil_iff_forall_not_mem.mpr fun x hx => ?_
  obtain ⟨id, hmem⟩ := mem_of_iff.mp hx
  exact h _ hmem rfl

/-- Only the timers of the key itself count. -/
theorem of_filter {p : Timer κ α → Bool} {key : κ}
    (h : ∀ timer ∈ t.running, timer.key = key → p timer) (handles : OrderedMap κ Nat) :
    of ⟨t.running.filter p, t.next, handles⟩ key = t.of key := by
  unfold of
  rw [filter_filter]
  congr 1
  apply filter_congr
  intro timer htimer
  by_cases hkey : timer.key = key
  · rw [decide_eq_true hkey, h timer htimer hkey, Bool.and_self]
  · rw [decide_eq_false hkey, Bool.false_and]

namespace Tracked

variable {t : Timers κ α}

theorem empty : (empty : Timers κ α).Tracked where
  bounded timer htimer := absurd htimer not_mem_nil
  nodup := .nil
  handle key id := by
    constructor
    · intro h
      cases h
    · rintro ⟨x, hx⟩
      cases hx

/-- A handle names one timer. -/
theorem eq_of_id (ht : t.Tracked) {timer timer' : Timer κ α} (h : timer ∈ t.running)
    (h' : timer' ∈ t.running) (hid : timer.id = timer'.id) : timer = timer' :=
  inj_on_of_nodup_map ht.nodup h h' hid

variable {timer : Timer κ α}

theorem get (ht : t.Tracked) (h : timer ∈ t.running) : t.handles.get timer.key = some timer.id :=
  (ht.handle _ _).mpr ⟨timer.data, h⟩

/-- A key has one timer. -/
theorem eq_of_key (ht : t.Tracked) {timer timer' : Timer κ α} (h : timer ∈ t.running)
    (h' : timer' ∈ t.running) (hkey : timer.key = timer'.key) : timer = timer' := by
  apply ht.eq_of_id h h'
  have hget := ht.get h
  rw [hkey, ht.get h'] at hget
  exact (Option.some.inj hget).symm

/-- The timers of a key are the one that runs for it. -/
theorem of_eq (ht : t.Tracked) (h : timer ∈ t.running) : t.of timer.key = [timer.data] := by
  have hnodup : (t.running.filter fun timer' => timer'.key = timer.key).Nodup :=
    (ht.nodup.sublist (filter_sublist.map _)).of_map
  have hall : ∀ timer' ∈ t.running.filter fun timer' => timer'.key = timer.key, timer' = timer := by
    intro timer' htimer'
    obtain ⟨hmem, hkey⟩ := mem_filter.mp htimer'
    exact ht.eq_of_key hmem h (of_decide_eq_true hkey)
  have hmem : timer ∈ t.running.filter fun timer' => timer'.key = timer.key := mem_filter.mpr ⟨h, decide_eq_true rfl⟩
  have hfilter := perm_singleton.mp
    ((perm_ext_iff_of_nodup hnodup (nodup_singleton timer)).mpr fun timer' =>
      ⟨fun h' => mem_singleton.mpr (hall timer' h'), fun h' => mem_singleton.mp h' ▸ hmem⟩)
  unfold of
  rw [hfilter]
  rfl

/-- Dropping the timers of one key, and its handle, keeps the register exact. -/
theorem drop (ht : t.Tracked) {p : Timer κ α → Bool} {key : κ}
    (hp : ∀ timer ∈ t.running, p timer ↔ timer.key ≠ key) :
    Tracked ⟨t.running.filter p, t.next, t.handles.delete key⟩ where
  bounded timer htimer := ht.bounded timer (mem_filter.mp htimer).1
  nodup := ht.nodup.sublist (filter_sublist.map _)
  handle key' id := by
    by_cases hkey : key' = key
    · subst hkey
      rw [get_delete_self]
      constructor
      · intro h
        cases h
      · rintro ⟨x, hx⟩
        obtain ⟨hmem, hpx⟩ := mem_filter.mp hx
        exact absurd rfl ((hp _ hmem).mp hpx)
    · rw [get_delete_of_ne hkey, ht.handle]
      apply exists_congr
      intro x
      constructor
      · exact fun hmem => mem_filter.mpr ⟨hmem, (hp _ hmem).mpr hkey⟩
      · exact fun hmem => (mem_filter.mp hmem).1

/-- The timers with the handle of a key are those of the key. -/
theorem id_ne_iff (ht : t.Tracked) {key : κ} {id : Nat} (hget : t.handles.get key = some id)
    (htimer : timer ∈ t.running) : timer.id ≠ id ↔ timer.key ≠ key := by
  obtain ⟨x, hx⟩ := (ht.handle _ _).mp hget
  apply not_congr
  constructor
  · intro hid
    exact congrArg Timer.key (ht.eq_of_id htimer hx hid)
  · intro hkey
    exact congrArg Timer.id (ht.eq_of_key htimer hx hkey)

theorem clear_eq (ht : t.Tracked) (key : κ) :
    ∃ p : Timer κ α → Bool, t.clear key = ⟨t.running.filter p, t.next, t.handles.delete key⟩ ∧
      ∀ timer ∈ t.running, p timer ↔ timer.key ≠ key := by
  unfold clear
  cases hget : t.handles.get key with
  | some id =>
    refine ⟨fun timer => timer.id ≠ id, rfl, ?_⟩
    intro timer htimer
    rw [decide_eq_true_iff]
    exact ht.id_ne_iff hget htimer
  | none =>
    refine ⟨fun _ => true, ?_, ?_⟩
    · rw [List.filter_true]
    · intro timer htimer
      refine iff_of_true rfl ?_
      rintro rfl
      have hsome := ht.get htimer
      rw [hget] at hsome
      cases hsome

theorem clear (ht : t.Tracked) (key : κ) : (t.clear key).Tracked := by
  obtain ⟨p, heq, hp⟩ := ht.clear_eq key
  rw [heq]
  exact ht.drop hp

theorem of_clear (ht : t.Tracked) (key key' : κ) : (t.clear key).of key' = if key' = key then [] else t.of key' := by
  obtain ⟨p, heq, hp⟩ := ht.clear_eq key
  rw [heq]
  split
  next hkey =>
    subst hkey
    apply of_eq_nil
    intro timer htimer
    obtain ⟨hmem, hpt⟩ := mem_filter.mp htimer
    exact (hp _ hmem).mp hpt
  next hkey =>
    apply of_filter
    rintro timer hmem rfl
    exact (hp _ hmem).mpr hkey

theorem expire_eq (ht : t.Tracked) (htimer : timer ∈ t.running) : t.expire timer = t.clear timer.key := by
  unfold Timers.expire Timers.clear
  rw [ht.get htimer]

theorem clearAll_running (ht : t.Tracked) : t.clearAll.running = [] := by
  apply filter_eq_nil_iff.mpr
  intro timer htimer
  have hmem := mem_map_of_mem (f := Prod.snd) (get_eq_some_iff.mp (ht.get htimer))
  rw [contains_iff_mem.mpr hmem]
  exact Bool.false_ne_true

theorem clearAll (ht : t.Tracked) : t.clearAll.Tracked where
  bounded timer htimer := by
    rw [ht.clearAll_running] at htimer
    cases htimer
  nodup := by
    rw [ht.clearAll_running]
    exact .nil
  handle key id := by
    rw [ht.clearAll_running]
    constructor
    · intro h
      cases h
    · rintro ⟨x, hx⟩
      cases hx

/-- A timer is armed for a key that has none. -/
theorem arm (ht : t.Tracked) {key : κ} (hnone : t.of key = []) (x : α) : (t.arm key x).Tracked where
  bounded timer htimer := by
    rcases mem_append.mp htimer with hmem | hmem
    · exact Nat.lt_succ_of_lt (ht.bounded timer hmem)
    · obtain rfl := mem_singleton.mp hmem
      exact Nat.lt_succ_self _
  nodup := by
    unfold Timers.arm
    rw [map_append]
    refine nodup_append.mpr ⟨ht.nodup, nodup_singleton _, ?_⟩
    intro id hid id' hid'
    obtain ⟨timer, htimer, rfl⟩ := mem_map.mp hid
    obtain rfl := mem_singleton.mp hid'
    exact Nat.ne_of_lt (ht.bounded timer htimer)
  handle key' id := by
    unfold Timers.arm
    by_cases hkey : key' = key
    · subst hkey
      rw [get_set_self]
      constructor
      · rintro h
        obtain rfl := Option.some.inj h
        exact ⟨x, mem_append_right _ mem_cons_self⟩
      · rintro ⟨y, hy⟩
        rcases mem_append.mp hy with hmem | hmem
        · have hin := mem_of_iff.mpr ⟨id, hmem⟩
          rw [hnone] at hin
          cases hin
        · cases mem_singleton.mp hmem
          rfl
    · rw [get_set_of_ne hkey, ht.handle]
      apply exists_congr
      intro y
      constructor
      · exact fun hmem => mem_append_left _ hmem
      · intro hmem
        rcases mem_append.mp hmem with hmem | hmem
        · exact hmem
        · exact absurd (congrArg Timer.key (mem_singleton.mp hmem)) hkey

end Tracked

theorem of_arm (key key' : κ) (x : α) :
    (t.arm key x).of key' = if key' = key then t.of key' ++ [x] else t.of key' := by
  unfold of arm
  rw [filter_append, map_append]
  split
  next hkey =>
    subst hkey
    rw [filter_singleton, decide_eq_true rfl]
    rfl
  next hkey =>
    rw [filter_singleton, decide_eq_false (Ne.symm hkey), cond_false, map_nil, append_nil]

end Timers
