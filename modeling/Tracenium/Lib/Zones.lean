-- SUMMARY: Time zones: the instant that a local time denotes, and when moving the local time moves the instant.
import Mathlib.Data.List.Sort
import Mathlib.Order.Basic
import Mathlib.Tactic.Common

/-!
A local time that is repeated denotes its first instant, and one that is skipped is read with the offset before the
gap.
-/

structure Zone where
  offset : Int → Int
  bound : Nat
  bounded : ∀ t, (offset t).natAbs < bound

namespace Zone

variable (z : Zone)

def localTime (t : Int) : Int := t + z.offset t

/-- The instants with a local time, in their order. -/
def possibleInstants (l : Int) : List Int :=
  ((List.range (2 * z.bound)).map fun i : Nat => l - z.bound + i).filter fun t => z.localTime t = l

/-- The greatest local time below one. -/
def localBefore (l : Int) : Option Int :=
  ((List.range (2 * z.bound)).map fun i : Nat => l - 1 - i).find? fun b => !(z.possibleInstants b).isEmpty

/-- The instant that a local time denotes. -/
def utc (l : Int) : Int :=
  match z.possibleInstants l with
  | t :: _ => l - z.offset t
  | [] =>
    match (z.localBefore l).bind fun b => (z.possibleInstants b).getLast? with
    | some t => l - z.offset t
    | none => l

/-- The last instant before a gap. -/
structure LastBefore (l w : Int) : Prop where
  below : z.localTime w < l
  greatest : ∀ v, z.localTime v < l → z.localTime v ≤ z.localTime w
  last : ∀ v, z.localTime v = z.localTime w → v ≤ w

/-- What a local time denotes: the first of its instants or, where it is skipped, the instant by the offset before. -/
def Denotes (l t : Int) : Prop :=
  (z.localTime t = l ∧ ∀ u, z.localTime u = l → t ≤ u) ∨
    (∀ u, z.localTime u ≠ l) ∧ ∃ w, z.LastBefore l w ∧ t = l - z.offset w

/-- From `t` on, `d` milliseconds of the wall clock are as many of the time: the offset is the same, and the local time
is none that is repeated; or it is skipped, and the offset before is that of `t`. -/
def Keeps (t d : Int) : Prop :=
  (z.offset (t + d) = z.offset t ∧ ∀ u, z.localTime u = z.localTime (t + d) → t + d ≤ u) ∨
    (∀ u, z.localTime u ≠ z.localTime t + d) ∧ ∃ w, z.LastBefore (z.localTime t + d) w ∧ z.offset w = z.offset t

variable {z} {l t : Int}

theorem mem_possibleInstants : t ∈ z.possibleInstants l ↔ z.localTime t = l := by
  simp only [possibleInstants, List.mem_filter, List.mem_map, List.mem_range, decide_eq_true_eq, and_iff_right_iff_imp]
  intro h
  have hbound := z.bounded t
  unfold localTime at h
  exact ⟨(t - l + z.bound).toNat, by omega, by omega⟩

theorem sorted_possibleInstants (l : Int) : (z.possibleInstants l).Pairwise (· < ·) := by
  refine List.Pairwise.filter _ (List.pairwise_map.mpr ?_)
  exact List.pairwise_lt_range.imp fun h => by omega

/-- Before every local time there is another one. -/
theorem localBefore_spec (z : Zone) (l : Int) : ∃ b, z.localBefore l = some b ∧ b < l ∧ z.possibleInstants b ≠ [] ∧
    ∀ v, z.localTime v < l → z.localTime v ≤ b := by
  have hmem : ∀ b, b ∈ (List.range (2 * z.bound)).map (fun i : Nat => l - 1 - i) ↔ b < l ∧ l ≤ b + 2 * z.bound := by
    intro b
    simp only [List.mem_map, List.mem_range]
    constructor
    · rintro ⟨i, hi, rfl⟩
      omega
    · intro h
      exact ⟨(l - 1 - b).toNat, by omega, by omega⟩
  have hsorted : ((List.range (2 * z.bound)).map fun i : Nat => l - 1 - i).Pairwise (· > ·) :=
    List.pairwise_map.mpr (List.pairwise_lt_range.imp fun h => by omega)
  have hlocal : ∀ v, (z.possibleInstants (z.localTime v)).isEmpty = false := fun v =>
    List.isEmpty_eq_false_iff.mpr (List.ne_nil_of_mem (mem_possibleInstants.mpr rfl))
  cases hfind : z.localBefore l with
  | none =>
    have hday := List.find?_eq_none.mp hfind (z.localTime (l - z.bound)) ((hmem _).mpr (by
      have hbound := z.bounded (l - z.bound)
      unfold localTime
      omega))
    simp [hlocal] at hday
  | some b =>
    obtain ⟨hb, before, after, hlist, hnone⟩ := List.find?_eq_some_iff_append.mp hfind
    have hmember : b < l ∧ l ≤ b + 2 * z.bound := (hmem b).mp (by rw [hlist]; simp)
    refine ⟨b, rfl, hmember.1, by simpa using hb, fun v hv => ?_⟩
    by_contra hlater
    have hv' := (hmem (z.localTime v)).mpr ⟨hv, by omega⟩
    rw [hlist] at hv' hsorted
    rcases List.mem_append.mp hv' with hv' | hv'
    · have hempty := hnone _ hv'
      simp [hlocal] at hempty
    · rcases List.mem_cons.mp hv' with heq | hv'
      · omega
      · have hbelow := List.rel_of_pairwise_cons (List.pairwise_append.mp hsorted).2.1 hv'
        omega

theorem denotes_utc (z : Zone) (l : Int) : z.Denotes l (z.utc l) := by
  unfold utc
  cases hinstants : z.possibleInstants l with
  | cons t ts =>
    have ht : z.localTime t = l := mem_possibleInstants.mp (by rw [hinstants]; exact List.mem_cons_self)
    have hutc : l - z.offset t = t := by
      unfold localTime at ht
      omega
    have hsorted := sorted_possibleInstants (z := z) l
    rw [hinstants] at hsorted
    dsimp only
    rw [hutc]
    refine .inl ⟨ht, fun u hu => ?_⟩
    have hmem := mem_possibleInstants.mpr hu
    rw [hinstants] at hmem
    rcases List.mem_cons.mp hmem with rfl | hmem
    · exact le_refl _
    · exact le_of_lt (List.rel_of_pairwise_cons hsorted hmem)
  | nil =>
    obtain ⟨b, hb, hbelow, hne, hgreatest⟩ := z.localBefore_spec l
    obtain ⟨w, hw⟩ : ∃ w, (z.possibleInstants b).getLast? = some w :=
      Option.isSome_iff_exists.mp (List.getLast?_isSome.mpr hne)
    have hlocal : z.localTime w = b := mem_possibleInstants.mp (List.mem_of_getLast? hw)
    have hskipped : ∀ u, z.localTime u ≠ l := fun u hu => by
      have hmem := mem_possibleInstants.mpr hu
      rw [hinstants] at hmem
      exact List.not_mem_nil hmem
    rw [hb]
    dsimp only [Option.bind_some]
    rw [hw]
    refine .inr ⟨hskipped, w, ⟨by rw [hlocal]; exact hbelow, fun v hv => ?_, fun v hv => ?_⟩, rfl⟩
    · rw [hlocal]
      exact hgreatest v hv
    -- the last of the instants with that local time
    have hsorted := sorted_possibleInstants (z := z) b
    have hmem : v ∈ z.possibleInstants b := mem_possibleInstants.mpr (hv.trans hlocal)
    obtain ⟨before, hlist⟩ := List.getLast?_eq_some_iff.mp hw
    rw [hlist] at hmem hsorted
    rcases List.mem_append.mp hmem with hmem | hmem
    · exact le_of_lt ((List.pairwise_append.mp hsorted).2.2 v hmem w List.mem_cons_self)
    · exact le_of_eq (List.mem_singleton.mp hmem)

theorem LastBefore.unique {w v : Int} (h : z.LastBefore l w) (h' : z.LastBefore l v) : w = v := by
  have hsame : z.localTime w = z.localTime v := le_antisymm (h'.greatest w h.below) (h.greatest v h'.below)
  exact le_antisymm (h'.last w hsame) (h.last v hsame.symm)

theorem Denotes.unique {u : Int} (h : z.Denotes l t) (h' : z.Denotes l u) : t = u := by
  rcases h with ⟨hlocal, hfirst⟩ | ⟨hskipped, w, hw, rfl⟩
  · rcases h' with ⟨hlocal', hfirst'⟩ | ⟨hskipped', -⟩
    · exact le_antisymm (hfirst u hlocal') (hfirst' t hlocal)
    · exact absurd hlocal (hskipped' t)
  · rcases h' with ⟨hlocal', -⟩ | ⟨-, v, hv, rfl⟩
    · exact absurd hlocal' (hskipped u)
    · rw [hw.unique hv]

theorem utc_eq_iff : z.utc l = t ↔ z.Denotes l t :=
  ⟨fun h => h ▸ denotes_utc z l, fun h => (denotes_utc z l).unique h⟩

/-- Moving the wall clock moves the time as much exactly where the zone keeps it. -/
theorem utc_add_iff {d : Int} : z.utc (z.localTime t + d) = t + d ↔ z.Keeps t d := by
  have hsame : z.localTime (t + d) = z.localTime t + d ↔ z.offset (t + d) = z.offset t := by
    unfold localTime
    omega
  rw [utc_eq_iff, Denotes, Keeps, hsame]
  refine or_congr (and_congr_right fun hoffset => ?_) (and_congr_right fun _ => exists_congr fun w => ?_)
  · rw [← hsame.mpr hoffset]
  · refine and_congr_right fun _ => ?_
    unfold localTime
    omega

end Zone
