-- SUMMARY: What a predicate that compiles is: a formula of rules, five levels deep at most and with sixty nodes at most.
import Tracenium.Asp.Predicates
import Tracenium.Lib.Checks

open Utf16 Json List Option
open ThreeValued (Formula)

namespace Asp.Predicate

open Rule

/-! ## Decoding -/

/-- A rule that reads one value, with its parameters. -/
inductive Test
  | equals (value : Value)
  | notEquals (value : Value)
  | inSet (values : List Value)
  | notInSet (values : List Value)
  | atMost (max : Number)
  | atLeast (min : Number)
  | between (min max : Number)
  | isTrue
  | isFalse
  | regexMatch (pattern : Str) (ignoreCase : Bool)
  | regexNotMatch (pattern : Str) (ignoreCase : Bool)
  | bitsAll (mask : Nat)
  | bitsNone (mask : Nat)

structure Atom where
  path : Str
  test : Test

section Parameters

variable (l : Library) (ms : List (Str × Value))

def pathAt : Option Str :=
  match own ms (text "path") with
  | some (.str s) => if isPath s && !(s.splitOn dot).any forbiddenSegments.contains then some s else none
  | _ => none

def scalarAt (k : Str) : Option Value := (own ms k).filter Value.isScalar

def arrayAt (k : Str) : Option (List Value) :=
  match own ms k with
  | some (.arr xs) => if !xs.isEmpty && xs.all Value.isScalar then some xs else none
  | _ => none

def numberAt (k : Str) : Option Number :=
  match own ms k with
  | some (.num x) => if x.isFinite then some x else none
  | _ => none

def maskAt : Option Nat :=
  match own ms (text "mask") with
  | some (.num x) => (x.safeInteger.filter fun z => 0 ≤ z).map Int.toNat
  | _ => none

def patternAt : Option Str :=
  match own ms (text "pattern") with
  | some (.str s) =>
    if s ≠ [] ∧ s.length ≤ MAX_REGEX_LENGTH ∧ (l.regExp s (ignoreCase ms)).isOk then some s else none
  | _ => none

def decodeTest : Rule → Option Test
  | .equals => (scalarAt ms (text "value")).map .equals
  | .notEquals => (scalarAt ms (text "value")).map .notEquals
  | .inSet => (arrayAt ms (text "values")).map .inSet
  | .notInSet => (arrayAt ms (text "values")).map .notInSet
  | .atMost => (numberAt ms (text "max")).map .atMost
  | .atLeast => (numberAt ms (text "min")).map .atLeast
  | .between =>
    (numberAt ms (text "min")).bind fun min => (numberAt ms (text "max")).bind fun max =>
      if min.le max then some (.between min max) else none
  | .isTrue => some .isTrue
  | .isFalse => some .isFalse
  | .regexMatch => (patternAt l ms).map fun p => .regexMatch p (ignoreCase ms)
  | .regexNotMatch => (patternAt l ms).map fun p => .regexNotMatch p (ignoreCase ms)
  | .bitsAll => (maskAt ms).map .bitsAll
  | .bitsNone => (maskAt ms).map .bitsNone
  | _ => none

def decodeAtom (rule : Rule) : Option Atom :=
  (pathAt ms).bind fun path => (decodeTest l ms rule).map fun test => ⟨path, test⟩

def flagsOk : Bool := (own ms (text "flags")).isNone || ignoreCase ms

end Parameters

def branches (child : Option Value → Option (Formula Atom)) (ms : List (Str × Value)) : Option (List (Formula Atom)) :=
  match own ms (text "rules") with
  | some (.arr (x :: xs)) => (x :: xs).mapM fun c => child (some c)
  | _ => none

/-- The formula that a predicate is, with room for so many levels. -/
def decode (l : Library) : Nat → Option Value → Option (Formula Atom)
  | room + 1, some (.obj ms) =>
    if flagsOk ms then
      match ruleAt ms with
      | none => none
      | some .allOf => (branches (decode l room) ms).map .all
      | some .anyOf => (branches (decode l room) ms).map .any
      | some .not => (decode l room (own ms (text "predicate"))).map .not
      | some rule => (decodeAtom l ms rule).map .atom
    else none
  | _, _ => none

/-! ## Walking -/

/-- A step adds an error exactly if it has no cost or there is no room for its cost. -/
structure Steps (t : Walk → Walk) (cost : Option Nat) : Prop where
  grows : ∀ w, w.errors ≠ [] → (t w).errors ≠ []
  clean : ∀ w, w.errors = [] → w.nodes ≤ MAX_NODES → ((t w).errors = [] ↔ ∃ k ∈ cost, w.nodes + k ≤ MAX_NODES)
  nodes : ∀ w, w.errors = [] → w.nodes ≤ MAX_NODES → (t w).errors = [] → ∀ k ∈ cost, (t w).nodes = w.nodes + k

def plus (a b : Option Nat) : Option Nat := a.bind fun x => b.map (x + ·)

@[simp] theorem plus_none_left (b : Option Nat) : plus none b = none := rfl

@[simp] theorem plus_none_right (a : Option Nat) : plus a none = none := by cases a <;> rfl

@[simp] theorem plus_some (x y : Nat) : plus (some x) (some y) = some (x + y) := rfl

@[simp] theorem plus_zero_left (b : Option Nat) : plus (some 0) b = b := by cases b <;> simp [plus]

@[simp] theorem plus_zero_right (a : Option Nat) : plus a (some 0) = a := by cases a <;> simp [plus]

theorem mem_plus {a b : Option Nat} {k : Nat} : k ∈ plus a b ↔ ∃ x ∈ a, ∃ y ∈ b, x + y = k := by
  cases a <;> cases b <;> simp

theorem Steps.comp {t u : Walk → Walk} {a b : Option Nat} (ht : Steps t a) (hu : Steps u b) :
    Steps (fun w => u (t w)) (plus a b) where
  grows w h := hu.grows _ (ht.grows w h)
  clean w h hn := by
    by_cases hmid : (t w).errors = []
    · obtain ⟨x, hx, hroom⟩ := (ht.clean w h hn).mp hmid
      have hnodes := ht.nodes w h hn hmid x hx
      rw [hu.clean _ hmid (by omega), hnodes]
      obtain rfl := mem_def.mp hx
      cases b <;> simp [Nat.add_assoc]
    · refine iff_of_false (hu.grows _ hmid) ?_
      rintro ⟨k, hk, hroom⟩
      obtain ⟨x, hx, y, _, rfl⟩ := mem_plus.mp hk
      exact hmid ((ht.clean w h hn).mpr ⟨x, hx, by omega⟩)
  nodes w h hn hend k hk := by
    obtain ⟨x, hx, y, hy, rfl⟩ := mem_plus.mp hk
    have hmid : (t w).errors = [] := by
      by_contra hno
      exact hu.grows _ hno hend
    obtain ⟨x', hx', hroom⟩ := (ht.clean w h hn).mp hmid
    obtain rfl := mem_unique hx hx'
    have hnodes := ht.nodes w h hn hmid x hx
    rw [hu.nodes _ hmid (by omega) hend y hy, hnodes, Nat.add_assoc]

theorem Steps.id : Steps (fun w => w) (some 0) where
  grows _ h := h
  clean w h hn := by simp [h, hn]
  nodes w _ _ _ k hk := by simp_all

def free (errors : List Str) : Option Nat := if errors = [] then some 0 else none

theorem Steps.push (errors : List Str) : Steps (Walk.push · errors) (free errors) where
  grows w h := by simp [Walk.push, h]
  clean w h hn := by by_cases he : errors = [] <;> simp [Walk.push, free, h, he, hn]
  nodes w h _ hend k hk := by
    have he : errors = [] := by simpa [Walk.push, h] using hend
    simp_all [Walk.push, free]

theorem Steps.push_error (error : Str) : Steps (Walk.push · [error]) none := Steps.push [error]

theorem Steps.foldl {β : Type} {step : Walk → β → Walk} {cost : β → Option Nat} (xs : List β)
    (h : ∀ x ∈ xs, Steps (step · x) (cost x)) :
    Steps (fun w => xs.foldl step w) (xs.foldr (fun x c => plus (cost x) c) (some 0)) := by
  induction xs with
  | nil => exact .id
  | cons x xs ih => exact (h x mem_cons_self).comp (ih fun y hy => h y (mem_cons_of_mem _ hy))

/-! ## What is checked is what is decoded -/

section Checked

variable {l : Library} {ms : List (Str × Value)} {place : Str}

theorem free_ite {b : Bool} {e : Str} : free (if b then [] else [e]) = if b then some 0 else none := by
  cases b <;> simp [free]

theorem free_path : free (paramErrors l ms place .path (own ms (text "path"))) = (pathAt ms).map fun _ => 0 := by
  unfold paramErrors pathAt
  simp only [free_ite]
  cases own ms (text "path") with
  | none => rfl
  | some v => cases v <;> simp

theorem free_scalar (k : Str) : free (paramErrors l ms place .scalar (own ms k)) = (scalarAt ms k).map fun _ => 0 := by
  simp only [scalarAt]
  cases own ms k with
  | none => rfl
  | some v => cases v <;> rfl

theorem free_array (k : Str) : free (paramErrors l ms place .array (own ms k)) = (arrayAt ms k).map fun _ => 0 := by
  unfold paramErrors arrayAt
  simp only [free_ite]
  cases own ms k with
  | none => rfl
  | some v => cases v <;> simp

theorem free_number (k : Str) : free (paramErrors l ms place .number (own ms k)) = (numberAt ms k).map fun _ => 0 := by
  unfold paramErrors numberAt
  simp only [free_ite]
  cases own ms k with
  | none => rfl
  | some v => cases v <;> simp

theorem free_mask : free (paramErrors l ms place .integer (own ms (text "mask"))) = (maskAt ms).map fun _ => 0 := by
  unfold paramErrors maskAt
  simp only [free_ite]
  cases own ms (text "mask") with
  | none => rfl
  | some v =>
    cases v with
    | num x =>
      cases hx : x.safeInteger with
      | none => simp [hx]
      | some z => by_cases hz : 0 ≤ z <;> simp [hx, Option.filter]
    | _ => rfl

theorem free_pattern :
    free (paramErrors l ms place .string (own ms (text "pattern"))) = (patternAt l ms).map fun _ => 0 := by
  unfold paramErrors patternAt
  dsimp only
  cases own ms (text "pattern") with
  | none => rfl
  | some v =>
    cases v with
    | str s =>
      cases s with
      | nil => simp [free]
      | cons u s =>
        by_cases hlong : MAX_REGEX_LENGTH < s.length + 1
        · simp [free, hlong, not_le.mpr hlong]
        · cases hr : l.regExp (u :: s) (ignoreCase ms) <;>
            simp [free, hlong, not_lt.mp hlong, hr, Except.isOk, Except.toBool]
    | _ => rfl

theorem own_of_numberAt {k : Str} {x : Number} (h : numberAt ms k = some x) : own ms k = some (.num x) := by
  unfold numberAt at h
  split at h
  · simp_all
  · cases h

theorem free_flags : free (flagsErrors ms place) = if flagsOk ms then some 0 else none := by
  cases hflags : own ms (text "flags") <;> cases hcase : ignoreCase ms <;>
    simp [flagsErrors, flagsOk, hcase, free]

theorem free_between {rule : Rule} (h : rule ≠ .between) : free (betweenErrors ms place rule) = some 0 := by
  cases rule <;> first | rfl | exact (h rfl).elim

/-- What the checks of a parameter cost, with what its predicates cost. -/
def paramCost (l : Library) (ms : List (Str × Value)) (place : Str) (cost : Option Value → Option Nat)
    (p : Str × ParamType) : Option Nat :=
  match p.2 with
  | .rules =>
    match own ms p.1 with
    | some (.arr (x :: xs)) => (x :: xs).foldr (fun c sum => plus (cost (some c)) sum) (some 0)
    | _ => none
  | .rule => cost (own ms p.1)
  | type => free (paramErrors l ms (place ++ dot :: p.1) type (own ms p.1))

/-- The checks of a rule that reads one value leave no error exactly if it can be decoded. -/
theorem cost_test (cost : Option Value → Option Nat) {rule : Rule} (h : rule.isCompound = false) :
    plus (rule.params.foldr (fun p sum => plus (paramCost l ms place cost p) sum) (some 0))
      (free (betweenErrors ms place rule)) = (decodeAtom l ms rule).map fun _ => 0 := by
  by_cases hrule : rule = .between
  · subst hrule
    simp only [params, foldr, paramCost, free_path, free_number, decodeAtom, decodeTest]
    cases pathAt ms with
    | none => rfl
    | some path =>
      cases hmin : numberAt ms (text "min") with
      | none => simp
      | some min =>
        cases hmax : numberAt ms (text "max") with
        | none => simp
        | some max =>
          have hfree : free (betweenErrors ms place .between) = if min.le max then some 0 else none := by
            simp only [betweenErrors, own_of_numberAt hmin, own_of_numberAt hmax]
            cases min.le max <;> simp [free]
          rw [hfree]
          cases hle : min.le max <;> simp [hle]
  · rw [free_between hrule, plus_zero_right]
    cases rule <;> simp [isCompound] at h hrule <;>
      simp only [params, foldr, paramCost, free_path, free_scalar, free_array, free_number, free_mask,
        free_pattern, plus_zero_right, decodeAtom, decodeTest] <;>
      cases pathAt ms <;> simp [Function.comp_def]

/-- The step for a parameter costs what the checks do. -/
theorem steps_checkParam {child : Option Value → Str → Walk → Walk} {cost : Option Value → Option Nat}
    (hchild : ∀ v place, Steps (child v place) (cost v)) (p : Str × ParamType) :
    Steps (checkParam l ms place child · p) (paramCost l ms place cost p) := by
  obtain ⟨k, type⟩ := p
  cases type with
  | rules =>
    cases hv : own ms k with
    | none => simpa [checkParam, paramCost, hv] using Steps.push_error _
    | some v =>
      cases v with
      | arr xs =>
        cases xs with
        | nil => simpa [checkParam, paramCost, hv] using Steps.push_error _
        | cons x xs =>
          have hsteps := @Steps.foldl _
            (fun w c => child (some c.1) (place ++ dot :: k ++ text "[" ++ decimal c.2 ++ text "]") w)
            (fun c => cost (some c.1)) (x :: xs).zipIdx fun c _ => hchild (some c.1) _
          have hcost : (x :: xs).zipIdx.foldr (fun c sum => plus (cost (some c.1)) sum) (some 0) =
              (x :: xs).foldr (fun c sum => plus (cost (some c)) sum) (some 0) := by
            conv_rhs => rw [← zipIdx_map_fst 0 (x :: xs), foldr_map]
          rw [hcost] at hsteps
          simpa only [checkParam, paramCost, hv] using hsteps
      | _ => simpa [checkParam, paramCost, hv] using Steps.push_error _
  | rule => exact hchild _ _
  | _ => exact Steps.push _

/-- A node costs one more than what is in it. -/
theorem Steps.enter {t : Walk → Walk} {cost : Option Nat} (h : Steps t cost) (error : Str) :
    Steps (fun w =>
      let w : Walk := { w with nodes := w.nodes + 1 }
      if MAX_NODES < w.nodes then if w.nodes = MAX_NODES + 1 then w.push [error] else w else t w)
      (plus (some 1) cost) where
  grows w he := by
    dsimp only
    split
    · split
      · simp [Walk.push]
      · exact he
    · exact h.grows _ he
  clean w he hn := by
    dsimp only
    split
    · -- the node is the first one too many
      have hlast : w.nodes + 1 = MAX_NODES + 1 := by omega
      rw [if_pos hlast]
      refine iff_of_false (by simp [Walk.push]) ?_
      rintro ⟨k, hk, hroom⟩
      obtain ⟨x, hx, y, _, rfl⟩ := mem_plus.mp hk
      obtain rfl : 1 = x := by simpa using hx
      omega
    · rw [h.clean ⟨w.errors, w.nodes + 1⟩ he (by dsimp only; omega)]
      cases cost <;> simp [Nat.add_assoc]
  nodes w he hn hend k hk := by
    obtain ⟨x, hx, y, hy, rfl⟩ := mem_plus.mp hk
    obtain rfl : 1 = x := by simpa using hx
    dsimp only at hend ⊢
    split at hend
    · rename_i hmany
      rw [if_pos (by omega)] at hend
      simp [Walk.push] at hend
    · rename_i hfew
      rw [if_neg hfew, h.nodes ⟨w.errors, w.nodes + 1⟩ he (by dsimp only; omega) hend y hy, Nat.add_assoc]

theorem foldr_decode (l : Library) (room : Nat) (xs : List Value) :
    xs.foldr (fun c sum => plus ((decode l room (some c)).map Formula.nodes) sum) (some 0) =
      (xs.mapM fun c => decode l room (some c)).map Formula.nodesAll := by
  induction xs with
  | nil => rfl
  | cons x xs ih =>
    rw [foldr_cons, ih, mapM_cons]
    cases decode l room (some x) with
    | none => rfl
    | some f => cases xs.mapM fun c => decode l room (some c) <;> rfl

theorem cost_rules (l : Library) (room : Nat) (ms : List (Str × Value)) (place : Str) :
    paramCost l ms place (fun v => (decode l room v).map Formula.nodes) (text "rules", .rules) =
      (branches (decode l room) ms).map Formula.nodesAll := by
  unfold paramCost branches
  dsimp only
  split
  · rename_i h
    rw [foldr_decode]
  · rfl

/-- The parameters of a rule and what is checked of them together. -/
theorem cost_rule (l : Library) (room : Nat) {ms : List (Str × Value)} {rule : Rule} (hrule : ruleAt ms = some rule)
    (place : Str) : plus (some 1) (plus (plus
      (rule.params.foldr (fun p sum => plus (paramCost l ms place (fun v => (decode l room v).map Formula.nodes) p) sum)
        (some 0)) (free (betweenErrors ms place rule))) (free (flagsErrors ms place))) =
      (decode l (room + 1) (some (.obj ms))).map Formula.nodes := by
  rw [free_flags, decode]
  cases hflags : flagsOk ms with
  | false => simp
  | true =>
    simp only [hrule]
    by_cases hcompound : rule.isCompound = false
    · rw [cost_test _ hcompound]
      cases rule <;> simp [isCompound] at hcompound <;>
        simp only <;> cases decodeAtom l ms _ <;> simp [Formula.nodes]
    · rw [free_between (fun h => hcompound (by rw [h]; rfl)), plus_zero_right]
      cases rule <;> simp [isCompound] at hcompound
      · simp only [params, foldr_cons, cost_rules]
        cases branches (decode l room) ms <;> simp [Formula.nodes, Nat.add_comm]
      · simp only [params, foldr_cons, foldr_nil, plus_zero_right, cost_rules]
        cases branches (decode l room) ms <;> simp [Formula.nodes, Nat.add_comm]
      · simp only [params, foldr, paramCost]
        cases decode l room (own ms (text "predicate")) <;> simp [Formula.nodes, Nat.add_comm]

/-- The cost of a node is the number of nodes of the formula that it is. -/
theorem steps_walk (l : Library) (room : Nat) (node : Option Value) (place : Str) :
    Steps (walk l room node place) ((decode l room node).map Formula.nodes) := by
  induction room generalizing node place with
  | zero =>
    have hnone : (decode l 0 node).map Formula.nodes = plus (some 1) none := by
      cases node <;> simp [decode]
    exact (Steps.push_error _).enter _
  | succ room ih =>
    have hnone (h : decode l (room + 1) node = none) :
        (decode l (room + 1) node).map Formula.nodes = plus (some 1) none := by simp [h]
    cases node with
    | none =>
      exact (Steps.push_error _).enter _
    | some v =>
      cases v with
      | obj ms =>
        cases hrule : ruleAt ms with
        | none =>
          rw [hnone (by simp [decode, hrule])]
          convert (Steps.push_error (place ++ text ": unknown rule " ++ l.stringify (own ms (text "rule")))).enter
            (place ++ text ": more than " ++ decimal MAX_NODES ++ text " nodes") using 1
          funext w
          simp only [walk, checkNode, hrule]
        | some rule =>
          rw [← cost_rule l room hrule place]
          have hparams := @Steps.foldl _ (checkParam l ms place (walk l room)) _ rule.params
            fun p _ => steps_checkParam ih p
          convert ((hparams.comp (Steps.push (betweenErrors ms place rule))).comp
            (Steps.push (flagsErrors ms place))).enter
              (place ++ text ": more than " ++ decimal MAX_NODES ++ text " nodes") using 1
          funext w
          simp only [walk, checkNode, hrule]
      | _ =>
        exact (Steps.push_error _).enter _

end Checked

variable {l : Library}

/-- A predicate compiles exactly if it is a formula that has room. -/
theorem compilePredicate_iff {p : Value} :
    compilePredicate l p = [] ↔ ∃ f, decode l (MAX_DEPTH + 1) (some p) = some f ∧ f.nodes ≤ MAX_NODES := by
  have h := (steps_walk l (MAX_DEPTH + 1) (some p) (text "predicate")).clean ⟨[], 0⟩ rfl (by decide)
  rw [compilePredicate, h]
  simp

/-! ## Parts -/

theorem mapM_eq_some_iff {α β : Type} {f : α → Option β} {xs : List α} {ys : List β} :
    xs.mapM f = some ys ↔ Forall₂ (fun x y => f x = some y) xs ys := by
  induction xs generalizing ys with
  | nil => cases ys <;> simp
  | cons x xs ih =>
    cases hx : f x with
    | none => cases ys <;> simp [hx]
    | some y =>
      cases hxs : xs.mapM f with
      | none => cases ys <;> simp [← ih, hxs]
      | some ys' => cases ys <;> simp [hx, ← ih, hxs]

/-- What a node is that can be decoded. -/
inductive Decoded (l : Library) (room : Nat) (ms : List (Str × Value)) : Formula Atom → Prop
  | test {rule : Rule} {a : Atom} (hrule : ruleAt ms = some rule) (hcompound : rule.isCompound = false)
      (hatom : decodeAtom l ms rule = some a) : Decoded l room ms (.atom a)
  | allOf {rs : List Value} {fs : List (Formula Atom)} (hrule : ruleAt ms = some .allOf)
      (hrules : own ms (text "rules") = some (.arr rs)) (hne : rs ≠ [])
      (hbranches : Forall₂ (fun r f => decode l room (some r) = some f) rs fs) : Decoded l room ms (.all fs)
  | anyOf {rs : List Value} {fs : List (Formula Atom)} (hrule : ruleAt ms = some .anyOf)
      (hrules : own ms (text "rules") = some (.arr rs)) (hne : rs ≠ [])
      (hbranches : Forall₂ (fun r f => decode l room (some r) = some f) rs fs) : Decoded l room ms (.any fs)
  | not {p : Value} {f : Formula Atom} (hrule : ruleAt ms = some .not) (hp : own ms (text "predicate") = some p)
      (hpart : decode l room (some p) = some f) : Decoded l room ms (.not f)

theorem branches_eq_some {child : Option Value → Option (Formula Atom)} {ms : List (Str × Value)}
    {fs : List (Formula Atom)} (h : branches child ms = some fs) :
    ∃ rs, own ms (text "rules") = some (.arr rs) ∧ rs ≠ [] ∧ Forall₂ (fun r f => child (some r) = some f) rs fs := by
  unfold branches at h
  split at h
  · rename_i x xs hrules
    exact ⟨_, hrules, by simp, mapM_eq_some_iff.mp h⟩
  · cases h

variable {f : Formula Atom}

theorem decode_cases {room : Nat} {node : Option Value} (h : decode l (room + 1) node = some f) :
    ∃ ms, node = some (.obj ms) ∧ flagsOk ms ∧ Decoded l room ms f := by
  unfold decode at h
  split at h
  · rename_i room' ms hroom
    obtain rfl : room' = room := by omega
    cases hflags : flagsOk ms with
    | false => simp [hflags] at h
    | true =>
      refine ⟨ms, rfl, hflags, ?_⟩
      simp only [hflags] at h
      cases hrule : ruleAt ms with
      | none => simp [hrule] at h
      | some rule =>
        simp only [hrule] at h
        cases rule with
        | allOf =>
          obtain ⟨fs, hfs, rfl⟩ := map_eq_some_iff.mp h
          obtain ⟨rs, hrules, hne, hbranches⟩ := branches_eq_some hfs
          exact .allOf hrule hrules hne hbranches
        | anyOf =>
          obtain ⟨fs, hfs, rfl⟩ := map_eq_some_iff.mp h
          obtain ⟨rs, hrules, hne, hbranches⟩ := branches_eq_some hfs
          exact .anyOf hrule hrules hne hbranches
        | not =>
          obtain ⟨f, hf, rfl⟩ := map_eq_some_iff.mp h
          cases hp : own ms (text "predicate") with
          | none => cases room' <;> simp [hp, decode] at hf
          | some p => exact .not hrule hp (by rwa [hp] at hf)
        | _ =>
          obtain ⟨a, ha, rfl⟩ := map_eq_some_iff.mp h
          exact .test hrule rfl ha
  · cases h

theorem decode_of_decoded {room : Nat} {ms : List (Str × Value)}
    (hflags : flagsOk ms) (h : Decoded l room ms f) : decode l (room + 1) (some (.obj ms)) = some f := by
  have hbranches {rs : List Value} {fs : List (Formula Atom)} (hrules : own ms (text "rules") = some (.arr rs))
      (hne : rs ≠ []) (hall : Forall₂ (fun r f => decode l room (some r) = some f) rs fs) :
      branches (decode l room) ms = some fs := by
    cases rs with
    | nil => exact (hne rfl).elim
    | cons r rs =>
      simp only [branches, hrules]
      exact mapM_eq_some_iff.mpr hall
  cases h with
  | test hrule hcompound hatom =>
    rename_i rule a
    cases rule <;> simp [isCompound] at hcompound <;> simp [decode, hflags, hrule, hatom]
  | allOf hrule hrules hne hall => simp [decode, hflags, hrule, hbranches hrules hne hall]
  | anyOf hrule hrules hne hall => simp [decode, hflags, hrule, hbranches hrules hne hall]
  | not hrule hp hpart => simp [decode, hflags, hrule, hp, hpart]

theorem decode_succ {room : Nat} {node : Option Value}
    (h : decode l room node = some f) : decode l (room + 1) node = some f := by
  induction room generalizing node f with
  | zero => simp [decode] at h
  | succ room ih =>
    obtain ⟨ms, rfl, hflags, hdecoded⟩ := decode_cases h
    refine decode_of_decoded hflags ?_
    cases hdecoded with
    | test hrule hcompound hatom => exact .test hrule hcompound hatom
    | allOf hrule hrules hne hall => exact .allOf hrule hrules hne (hall.imp fun _ _ => ih)
    | anyOf hrule hrules hne hall => exact .anyOf hrule hrules hne (hall.imp fun _ _ => ih)
    | not hrule hp hpart => exact .not hrule hp (ih hpart)

/-- The predicates that a predicate is made of, itself among them. -/
inductive Part : Value → Value → Prop
  | refl (p : Value) : Part p p
  | branch {ms : List (Str × Value)} {rs : List Value} {r q : Value}
      (hrule : ruleAt ms = some .allOf ∨ ruleAt ms = some .anyOf) (hrules : own ms (text "rules") = some (.arr rs))
      (hr : r ∈ rs) (hq : Part r q) : Part (.obj ms) q
  | negated {ms : List (Str × Value)} {p q : Value} (hrule : ruleAt ms = some .not)
      (hp : own ms (text "predicate") = some p) (hq : Part p q) : Part (.obj ms) q

theorem nodes_le_nodesAll {fs : List (Formula Atom)} (h : f ∈ fs) : f.nodes ≤ Formula.nodesAll fs := by
  induction fs with
  | nil => cases h
  | cons g fs ih =>
    rw [Formula.nodesAll]
    rcases mem_cons.mp h with rfl | h
    · omega
    · have := ih h
      omega

theorem mem_atomsAll {a : Atom} {fs : List (Formula Atom)} : a ∈ Formula.atomsAll fs ↔ ∃ f ∈ fs, a ∈ f.atoms := by
  induction fs with
  | nil => simp [Formula.atomsAll]
  | cons f fs ih => simp [Formula.atomsAll, ih]

/-- A part of what can be decoded can be decoded, and has no more nodes and no other atoms. -/
theorem decode_part {room : Nat} {p q : Value} (hq : Part p q) (h : decode l room (some p) = some f) :
    ∃ g, decode l room (some q) = some g ∧ g.nodes ≤ f.nodes ∧ ∀ a ∈ g.atoms, a ∈ f.atoms := by
  induction hq generalizing room f with
  | refl p => exact ⟨f, h, le_refl _, fun _ ha => ha⟩
  | @branch ms rs r q hrule hrules hr _ ih =>
    cases room with
    | zero => simp [decode] at h
    | succ room =>
      obtain ⟨ms', hms, _, hdecoded⟩ := decode_cases h
      obtain rfl : ms = ms' := by simpa using hms
      -- the rule says which of the two it is
      have hbranch {rs' : List Value} {fs : List (Formula Atom)} (hrules' : own ms (text "rules") = some (.arr rs'))
          (hall : Forall₂ (fun r f => decode l room (some r) = some f) rs' fs) :
          ∃ f' ∈ fs, decode l room (some r) = some f' := by
        obtain rfl : rs = rs' := by simpa [hrules] using hrules'
        exact hall.exists_of_mem_left hr
      cases hdecoded with
      | test hrule' hcompound hatom =>
        rcases hrule with h | h <;> simp [h] at hrule' <;> simp [← hrule', isCompound] at hcompound
      | allOf hrule' hrules' hne hall =>
        obtain ⟨f', hf', hdecode⟩ := hbranch hrules' hall
        obtain ⟨g, hg, hnodes, hatoms⟩ := ih hdecode
        have := nodes_le_nodesAll hf'
        exact ⟨g, decode_succ hg, by rw [Formula.nodes]; omega, fun a ha => mem_atomsAll.mpr ⟨f', hf', hatoms a ha⟩⟩
      | anyOf hrule' hrules' hne hall =>
        obtain ⟨f', hf', hdecode⟩ := hbranch hrules' hall
        obtain ⟨g, hg, hnodes, hatoms⟩ := ih hdecode
        have := nodes_le_nodesAll hf'
        exact ⟨g, decode_succ hg, by rw [Formula.nodes]; omega, fun a ha => mem_atomsAll.mpr ⟨f', hf', hatoms a ha⟩⟩
      | not hrule' hp hpart => rcases hrule with h | h <;> simp [h] at hrule'
  | @negated ms p q hrule hp _ ih =>
    cases room with
    | zero => simp [decode] at h
    | succ room =>
      obtain ⟨ms', hms, _, hdecoded⟩ := decode_cases h
      obtain rfl : ms = ms' := by simpa using hms
      cases hdecoded with
      | not hrule' hp' hpart =>
        rename_i p' f'
        obtain rfl : p = p' := by simpa [hp] using hp'
        obtain ⟨g, hg, hnodes, hatoms⟩ := ih hpart
        exact ⟨g, decode_succ hg, by rw [Formula.nodes]; omega, hatoms⟩
      | test hrule' hcompound hatom =>
        simp [hrule] at hrule'
        simp [← hrule', isCompound] at hcompound
      | _ => simp_all

/-- The parts of a predicate that compiles compile. -/
theorem compilePredicate_part {p q : Value} (hq : Part p q) (h : compilePredicate l p = []) :
    compilePredicate l q = [] := by
  obtain ⟨f, hf, hnodes⟩ := compilePredicate_iff.mp h
  obtain ⟨g, hg, hle, _⟩ := decode_part hq hf
  exact compilePredicate_iff.mpr ⟨g, hg, hle.trans hnodes⟩

/-- Every atom is a part of its own. -/
theorem exists_part_atom {room : Nat} {p : Value} {a : Atom}
    (h : decode l room (some p) = some f) (ha : a ∈ f.atoms) :
    ∃ q, Part p q ∧ decode l room (some q) = some (.atom a) := by
  induction room generalizing p f with
  | zero => simp [decode] at h
  | succ room ih =>
    obtain ⟨ms, hms, hflags, hdecoded⟩ := decode_cases h
    obtain rfl : p = .obj ms := by simpa using hms
    cases hdecoded with
    | test hrule hcompound hatom =>
      obtain rfl : a = _ := mem_singleton.mp ha
      exact ⟨_, .refl _, h⟩
    | allOf hrule hrules hne hall =>
      obtain ⟨f, hf, ha⟩ := mem_atomsAll.mp ha
      obtain ⟨r, hr, hdecode⟩ := hall.exists_of_mem_right hf
      obtain ⟨q, hq, hatom⟩ := ih hdecode ha
      exact ⟨q, .branch (.inl hrule) hrules hr hq, decode_succ hatom⟩
    | anyOf hrule hrules hne hall =>
      obtain ⟨f, hf, ha⟩ := mem_atomsAll.mp ha
      obtain ⟨r, hr, hdecode⟩ := hall.exists_of_mem_right hf
      obtain ⟨q, hq, hatom⟩ := ih hdecode ha
      exact ⟨q, .branch (.inr hrule) hrules hr hq, decode_succ hatom⟩
    | not hrule hp hpart =>
      obtain ⟨q, hq, hatom⟩ := ih hpart ha
      exact ⟨q, .negated hrule hp hq, decode_succ hatom⟩

end Asp.Predicate
