-- SUMMARY: What predicates say, and when the evaluation of one that compiles agrees with it and stands when evidence is added.
import Tracenium.Asp.PredicateCompile
import Mathlib.Data.Int.Bitwise
import Mathlib.Data.Nat.Size

/-! An object with a member `toString` has no text, and a mask loses the bits that do not fit in 32. -/

open Utf16 Json Option BitVec Except List
open ThreeValued (Formula)

namespace Asp.Predicate

open ThreeValued.Verdict Test Predicate

/-! ## What tests say -/

mutual

/-- The text of a value, an object whatever its members are. -/
def plain (l : Library) : Value → Str
  | .null => text "null"
  | .bool b => if b then text "true" else text "false"
  | .num x => l.spell x
  | .str s => s
  | .arr xs => [comma].intercalate (plains l xs)
  | .obj _ => text "[object Object]"

def plains (l : Library) : List Value → List Str
  | [] => []
  | .null :: xs => [] :: plains l xs
  | x :: xs => plain l x :: plains l xs

end

def hasAll (mask : Nat) (n : Int) : Bool := decide (∀ i < mask.size, mask.testBit i = true → n.testBit i = true)

def hasNone (mask : Nat) (n : Int) : Bool := decide (∀ i < mask.size, mask.testBit i = true → n.testBit i = false)

theorem lt_size_of_testBit {mask i : Nat} (h : mask.testBit i) : i < mask.size :=
  Nat.lt_size.mpr (Nat.ge_two_pow_of_testBit h)

theorem hasAll_iff {mask : Nat} {n : Int} :
    hasAll mask n ↔ ∀ i, mask.testBit i → n.testBit i := by
  simp only [hasAll, decide_eq_true_eq]
  exact ⟨fun h i hi => h i (lt_size_of_testBit hi) hi, fun h i _ hi => h i hi⟩

theorem hasNone_iff {mask : Nat} {n : Int} :
    hasNone mask n ↔ ∀ i, mask.testBit i → n.testBit i = false := by
  simp only [hasNone, decide_eq_true_eq]
  exact ⟨fun h i hi => h i (lt_size_of_testBit hi) hi, fun h i _ hi => h i hi⟩

/-- A regular expression matches the text of a value, where `null` has an empty one. -/
def matchesText (l : Library) (pattern : Str) (ignoreCase : Bool) (v : Value) : Bool :=
  (l.regExp pattern ignoreCase).toOption.any fun test => test (if v.isNull then [] else plain l v)

def Test.holds (l : Library) (v : Value) : Test → Bool
  | .equals w => v.strictEquals w
  | .notEquals w => !v.strictEquals w
  | .inSet ws => ws.any v.strictEquals
  | .notInSet ws => !ws.any v.strictEquals
  | .atMost max => (toNumber l v).any fun n => n.le max
  | .atLeast min => (toNumber l v).any fun n => min.le n
  | .between min max => (toNumber l v).any fun n => min.le n && n.le max
  | .isTrue => v.strictEquals (.bool true)
  | .isFalse => v.strictEquals (.bool false)
  | .regexMatch pattern i => matchesText l pattern i v
  | .regexNotMatch pattern i => !matchesText l pattern i v
  | .bitsAll mask => ((toNumber l v).bind Number.safeInteger).any (hasAll mask)
  | .bitsNone mask => ((toNumber l v).bind Number.safeInteger).any (hasNone mask)

/-- An atom is missing where its path is absent. -/
def verdictOf (l : Library) (evidence : Value) (a : Atom) : PredicateOutcome :=
  match resolveEvidencePath evidence a.path with
  | none => .missing a.path
  | some v => .ofBool (a.test.holds l v)

/-- What a predicate says of evidence. -/
def meaning (l : Library) (p evidence : Value) : Option PredicateOutcome :=
  (decode l (MAX_DEPTH + 1) (some p)).map (Formula.denote (verdictOf l evidence))

/-! ## Where tests are evaluated as they say -/

mutual

/-- No object that its text needs has a member `toString`. -/
def isTextual : Value → Bool
  | .arr xs => areTextual xs
  | .obj ms => (own ms (text "toString")).isNone
  | _ => true

def areTextual : List Value → Bool
  | [] => true
  | x :: xs => isTextual x && areTextual xs

end

/-- A value that a test is evaluated on as it says: with a text, and an integer whose higher bits do not matter. -/
def Test.Sound (l : Library) (v : Value) : Test → Prop
  | .regexMatch _ _ => isTextual v = true
  | .regexNotMatch _ _ => isTextual v = true
  | .bitsAll mask => ∀ n, (toNumber l v).bind Number.safeInteger = some n →
    (∀ i < 32, mask.testBit i = true → n.testBit i = true) → ∀ i ≥ 32, mask.testBit i = true → n.testBit i = true
  | .bitsNone mask => ∀ n, (toNumber l v).bind Number.safeInteger = some n →
    (∀ i < 32, mask.testBit i = true → n.testBit i = false) → ∀ i ≥ 32, mask.testBit i = true → n.testBit i = false
  | _ => True

/-- The value at the path of an atom, if there is one, is of that kind. -/
def Atom.Sound (l : Library) (evidence : Value) (a : Atom) : Prop :=
  ∀ v, resolveEvidencePath evidence a.path = some v → a.test.Sound l v

theorem cons_of_ite (b c : Bool) (s : Str) (ss : List Str) :
    ((if b then some s else none).bind fun s => (if c then some ss else none).map (s :: ·)) =
      if b && c then some (s :: ss) else none := by
  cases b <;> cases c <;> rfl

mutual

theorem stringOf_eq (l : Library) : (v : Value) → stringOf l v = if isTextual v then some (plain l v) else none
  | .null => rfl
  | .bool _ => rfl
  | .num _ => rfl
  | .str _ => rfl
  | .arr xs => by
    rw [stringOf, stringsOf_eq l xs, isTextual, plain]
    cases areTextual xs <;> rfl
  | .obj ms => by
    rw [stringOf, isTextual, plain]
    cases own ms (text "toString") <;> rfl

theorem stringsOf_eq (l : Library) : (xs : List Value) →
    stringsOf l xs = if areTextual xs then some (plains l xs) else none
  | [] => rfl
  | x :: xs => by
    have hx := stringOf_eq l x
    have hxs := stringsOf_eq l xs
    cases x with
    | null => rw [stringsOf, hxs, areTextual, plains]; cases areTextual xs <;> rfl
    | _ => rw [stringsOf, hxs, hx, areTextual, plains, cons_of_ite]; all_goals simp

end

theorem getLsbD_ofInt (n : Int) (i : Nat) : (BitVec.ofInt 32 n).getLsbD i = (decide (i < 32) && n.testBit i) := by
  cases n with
  | ofNat m => simp [Int.testBit, BitVec.getLsbD_ofNat]
  | negSucc m =>
    rw [ofInt_negSucc_eq_not_ofNat, getLsbD_not, getLsbD_ofNat]
    cases hi : decide (i < 32) <;> simp [Int.testBit]

theorem testBit_natCast (m i : Nat) : (m : Int).testBit i = m.testBit i := rfl

/-- The lower 32 bits of the mask are set. -/
theorem and_eq_iff {mask : Nat} {n : Int} : BitVec.ofInt 32 n &&& BitVec.ofInt 32 mask = BitVec.ofInt 32 mask ↔
      ∀ i < 32, mask.testBit i → n.testBit i := by
  rw [eq_of_getLsbD_eq_iff]
  simp only [getLsbD_and, getLsbD_ofInt, testBit_natCast]
  refine forall₂_congr fun i hi => ?_
  cases mask.testBit i <;> simp [hi]

theorem and_eq_zero_iff {mask : Nat} {n : Int} :
    BitVec.ofInt 32 n &&& BitVec.ofInt 32 mask = 0 ↔ ∀ i < 32, mask.testBit i → n.testBit i = false := by
  rw [eq_of_getLsbD_eq_iff]
  simp only [getLsbD_and, getLsbD_ofInt, testBit_natCast]
  refine forall₂_congr fun i hi => ?_
  cases mask.testBit i <;> simp [hi]

section Evaluation

variable {l : Library} {ms : List (Str × Value)}

theorem own_of_arrayAt {k : Str} {xs : List Value} (h : arrayAt ms k = some xs) : own ms k = some (.arr xs) := by
  unfold arrayAt at h
  split at h
  · simp_all
  · cases h

theorem own_of_maskAt {mask : Nat} (h : maskAt ms = some mask) :
    ∃ x, own ms (text "mask") = some (.num x) ∧ x.safeInteger = some (mask : Int) := by
  unfold maskAt at h
  split at h
  · rename_i x hx
    obtain ⟨z, hz, rfl⟩ := map_eq_some_iff.mp h
    obtain ⟨hz, hpos⟩ := filter_eq_some_iff.mp hz
    have hcast : (z.toNat : Int) = z := Int.toNat_of_nonneg (by simpa using hpos)
    exact ⟨x, hx, by rw [hz, hcast]⟩
  · cases h

theorem regexTest_of_patternAt {pattern : Str} (h : patternAt l ms = some pattern) (v : Value) :
    regexTest l (own ms (text "pattern")) (ignoreCase ms) v =
      if isTextual v then .ok (matchesText l pattern (ignoreCase ms) v) else .error .error := by
  unfold patternAt at h
  split at h
  · rename_i s hs
    simp only [ite_none_right_eq_some, some.injEq] at h
    obtain ⟨⟨_, _, hok⟩, rfl⟩ := h
    cases hr : l.regExp s (ignoreCase ms) with
    | error e => simp [hr, Except.toBool] at hok
    | ok test =>
      have hnull : v.isNull → isTextual v := by cases v <;> simp [Value.isNull, isTextual]
      simp only [hs, regexTest, matchesText, hr, stringOf_eq]
      cases hv : v.isNull with
      | true => simp [hnull hv, Except.toOption]
      | false => cases isTextual v <;> simp [Except.toOption]
  · cases h

theorem masked_of_maskAt {mask : Nat} (h : maskAt ms = some mask) (v : Value) :
    masked l (own ms (text "mask")) v = .ok (((toNumber l v).bind Number.safeInteger).map fun n =>
      (BitVec.ofInt 32 n &&& BitVec.ofInt 32 mask, BitVec.ofInt 32 mask)) := by
  obtain ⟨x, hx, hmask⟩ := own_of_maskAt h
  simp [masked, hx, hmask]

/-- The bits that are compared decide as far as the higher ones do not matter. -/
theorem any_iff {p q : Int → Bool} {n : Option Int} :
    ok (n.any p) = (ok (n.any q) : Except Thrown Bool) ↔ ∀ z, n = some z → (p z ↔ q z) := by
  cases n with
  | none => simp
  | some z =>
    simp only [ok.injEq, some.injEq, forall_eq']
    exact Bool.eq_iff_iff

/-- What is asked of the lower bits says what is asked of all of them, if the higher ones follow. -/
theorem low_iff {P : Nat → Prop} : ((∀ i < 32, P i) ↔ ∀ i, P i) ↔ ((∀ i < 32, P i) → ∀ i ≥ 32, P i) := by
  refine ⟨fun h hlow i _ => h.mp hlow i, fun h => ⟨fun hlow i => ?_, fun hall i _ => hall i⟩⟩
  rcases Nat.lt_or_ge i 32 with hi | hi
  · exact hlow i hi
  · exact h hlow i hi

/-- A test gives what it says exactly on the values that it is sound on. -/
theorem evalTest_eq_iff {rule : Rule} {test : Test} {v : Value} (h : decodeTest l ms rule = some test) :
    evalTest l ms v rule = .ok (test.holds l v) ↔ test.Sound l v := by
  cases rule with
  | equals =>
    obtain ⟨w, hw, rfl⟩ := map_eq_some_iff.mp h
    simp [evalTest, Test.holds, Test.Sound, (filter_eq_some_iff.mp hw).1]
  | notEquals =>
    obtain ⟨w, hw, rfl⟩ := map_eq_some_iff.mp h
    simp [evalTest, Test.holds, Test.Sound, (filter_eq_some_iff.mp hw).1]
  | inSet =>
    obtain ⟨ws, hws, rfl⟩ := map_eq_some_iff.mp h
    simp [evalTest, includes, own_of_arrayAt hws, Test.holds, Test.Sound]
  | notInSet =>
    obtain ⟨ws, hws, rfl⟩ := Option.map_eq_some_iff.mp h
    simp [evalTest, includes, own_of_arrayAt hws, Test.holds, Test.Sound, Except.map]
  | atMost =>
    obtain ⟨x, hx, rfl⟩ := map_eq_some_iff.mp h
    simp [evalTest, compare, own_of_numberAt hx, Test.holds, Test.Sound]
  | atLeast =>
    obtain ⟨x, hx, rfl⟩ := map_eq_some_iff.mp h
    simp [evalTest, compare, own_of_numberAt hx, Test.holds, Test.Sound]
  | between =>
    obtain ⟨min, hmin, h⟩ := bind_eq_some_iff.mp h
    obtain ⟨max, hmax, h⟩ := bind_eq_some_iff.mp h
    simp only [ite_none_right_eq_some, some.injEq] at h
    obtain ⟨_, rfl⟩ := h
    simp only [evalTest, own_of_numberAt hmin, own_of_numberAt hmax, Test.holds, Test.Sound, iff_true]
    cases toNumber l v <;> rfl
  | isTrue =>
    obtain rfl : Test.isTrue = test := by simpa [decodeTest] using h
    simp [evalTest, Test.holds, Test.Sound]
  | isFalse =>
    obtain rfl : Test.isFalse = test := by simpa [decodeTest] using h
    simp [evalTest, Test.holds, Test.Sound]
  | regexMatch =>
    obtain ⟨p, hp, rfl⟩ := map_eq_some_iff.mp h
    simp only [evalTest, regexTest_of_patternAt hp, Test.holds, Test.Sound]
    cases isTextual v <;> simp
  | regexNotMatch =>
    obtain ⟨p, hp, rfl⟩ := Option.map_eq_some_iff.mp h
    simp only [evalTest, regexTest_of_patternAt hp, Test.holds, Test.Sound]
    cases isTextual v <;> simp [Except.map]
  | bitsAll =>
    obtain ⟨mask, hmask, rfl⟩ := map_eq_some_iff.mp h
    simp only [evalTest, masked_of_maskAt hmask, Except.map, Option.any_map]
    refine any_iff.trans (forall₂_congr fun n _ => ?_)
    simp only [beq_iff_eq, and_eq_iff, hasAll_iff]
    exact low_iff
  | bitsNone =>
    obtain ⟨mask, hmask, rfl⟩ := Option.map_eq_some_iff.mp h
    simp only [evalTest, masked_of_maskAt hmask, Except.map, Option.any_map, Test.holds]
    refine any_iff.trans (forall₂_congr fun n _ => ?_)
    simp only [beq_iff_eq, and_eq_zero_iff, hasNone_iff]
    exact low_iff
  | _ => cases h

theorem path_of_decodeAtom {rule : Rule} {a : Atom} (h : decodeAtom l ms rule = some a) :
    own ms (text "path") = some (.str a.path) ∧ decodeTest l ms rule = some a.test := by
  obtain ⟨path, hpath, h⟩ := bind_eq_some_iff.mp h
  obtain ⟨test, htest, rfl⟩ := map_eq_some_iff.mp h
  refine ⟨?_, htest⟩
  unfold pathAt at hpath
  split at hpath
  · simp_all
  · cases hpath

/-! ## Formulas -/

/-- How an outcome is computed: a path that is missing is thrown. -/
def thrown : PredicateOutcome → Except Thrown Bool
  | .holds => .ok true
  | .fails => .ok false
  | .missing path => .error (.missing path)

theorem thrown_ofBool (b : Bool) : thrown (.ofBool b) = .ok b := by cases b <;> rfl

theorem map_not_thrown (v : PredicateOutcome) : (thrown v).map (!·) = thrown v.swap := by cases v <;> rfl

theorem every_map_thrown (vs : List PredicateOutcome) : every (vs.map thrown) = thrown (.conj vs) := by
  induction vs with
  | nil => rfl
  | cons v vs ih =>
    rw [map_cons, every, ih, conj_cons]
    cases v with
    | missing path => rfl
    | _ => cases conj vs <;> rfl

/-- What was missing before stays missing, unless a part holds. -/
theorem firstTrue_map_thrown (vs : List PredicateOutcome) (missing : Option Str) :
    firstTrue (vs.map thrown) missing = thrown (.disj (missing.toList.map .missing ++ vs)) := by
  induction vs generalizing missing with
  | nil => cases missing <;> rfl
  | cons v vs ih =>
    cases v with
    | holds => cases missing <;> simp [firstTrue, thrown]
    | fails =>
      rw [map_cons, thrown, firstTrue, ih]
      cases missing <;> simp
    | missing path =>
      rw [map_cons, thrown, firstTrue, ih]
      cases missing with
      | none => simp
      | some first =>
        simp only [or_some, toList_some, map_cons, map_nil, singleton_append, disj_cons]
        cases disj vs <;> simp

/-- A test is evaluated as it says exactly where it is sound. -/
theorem evalNode_test_iff {evidence : Value} {rule : Rule} {a : Atom} (hrule : ruleAt ms = some rule)
    (hcompound : rule.isCompound = false) (ha : decodeAtom l ms rule = some a) :
    evalNode l evidence (.obj ms) = thrown (verdictOf l evidence a) ↔ a.Sound l evidence := by
  obtain ⟨hpath, htest⟩ := path_of_decodeAtom ha
  rw [evalNode_test hrule hcompound, hpath, verdictOf, read, Atom.Sound]
  cases hv : resolveEvidencePath evidence a.path with
  | none => simp [thrown, Except.bind]
  | some v => simpa [thrown_ofBool, Except.bind] using evalTest_eq_iff htest

/-- A predicate whose tests are sound is evaluated as it says. -/
theorem evalNode_eq {evidence : Value} {room : Nat} {p : Value} {f : Formula Atom}
    (h : decode l room (some p) = some f) (hsound : ∀ a ∈ f.atoms, a.Sound l evidence) :
    evalNode l evidence p = thrown (f.denote (verdictOf l evidence)) := by
  induction room generalizing p f with
  | zero => simp [decode] at h
  | succ room ih =>
    obtain ⟨ms, hms, _, hdecoded⟩ := decode_cases h
    obtain rfl : p = .obj ms := by simpa using hms
    have hbranches {rs : List Value} {fs : List (Formula Atom)}
        (hall : Forall₂ (fun r f => decode l room (some r) = some f) rs fs)
        (hsound : ∀ a ∈ Formula.atomsAll fs, a.Sound l evidence) :
        rs.map (evalNode l evidence) = (Formula.denotes (verdictOf l evidence) fs).map thrown := by
      induction hall with
      | nil => rfl
      | cons hr _ ihs =>
        rw [map_cons, ih hr fun a ha => hsound a (by simp [Formula.atomsAll, ha]),
          ihs fun a ha => hsound a (by simp [Formula.atomsAll, ha])]
        rfl
    cases hdecoded with
    | test hrule hcompound hatom =>
      exact (evalNode_test_iff hrule hcompound hatom).mpr (hsound _ (by simp [Formula.atoms]))
    | allOf hrule hrules _ hall =>
      rw [evalNode_allOf hrule hrules, hbranches hall hsound, every_map_thrown]
      rfl
    | anyOf hrule hrules _ hall =>
      rw [evalNode_anyOf hrule hrules, hbranches hall hsound, firstTrue_map_thrown]
      rfl
    | not hrule hp hpart =>
      rw [evalNode_not hrule hp, ih hpart hsound, map_not_thrown]
      rfl

theorem evaluatePredicate_eq_iff {evidence p : Value} {o : PredicateOutcome} :
    evaluatePredicate l p evidence = some o ↔ evalNode l evidence p = thrown o := by
  unfold evaluatePredicate
  cases evalNode l evidence p with
  | ok b => cases b <;> cases o <;> simp [thrown, ThreeValued.Verdict.ofBool]
  | error e => cases e <;> cases o <;> simp [thrown]

end Evaluation

/-! ## More evidence -/

mutual

/-- The second value has every member of the first one, and perhaps more. -/
def Extends : Value → Value → Prop
  | .arr xs, w => ∃ ys, w = .arr ys ∧ ExtendsAll xs ys
  | .obj ms, w => ∃ ms', w = .obj ms' ∧ ExtendsMembers ms ms'
  | v, w => w = v

def ExtendsAll : List Value → List Value → Prop
  | [], ys => ys = []
  | x :: xs, ys => ∃ y ys', ys = y :: ys' ∧ Extends x y ∧ ExtendsAll xs ys'

def ExtendsMembers : List (Str × Value) → List (Str × Value) → Prop
  | [], _ => True
  | (k, v) :: ms, ms' => (∃ v', own ms' k = some v' ∧ Extends v v') ∧ ExtendsMembers ms ms'

end

theorem ExtendsAll.getElem? {xs ys : List Value} (h : ExtendsAll xs ys) :
    ys.length = xs.length ∧ ∀ (i : Nat) (x : Value), xs[i]? = some x → ∃ y, ys[i]? = some y ∧ Extends x y := by
  induction xs generalizing ys with
  | nil =>
    obtain rfl : ys = [] := h
    simp
  | cons x xs ih =>
    obtain ⟨y, ys, rfl, hx, hxs⟩ := h
    obtain ⟨hlen, hget⟩ := ih hxs
    refine ⟨by simp [hlen], fun i => ?_⟩
    cases i with
    | zero => simpa using hx
    | succ i => simpa using hget i

theorem ExtendsMembers.own {ms ms' : List (Str × Value)} (h : ExtendsMembers ms ms') {k : Str} {v : Value}
    (hv : own ms k = some v) : ∃ v', own ms' k = some v' ∧ Extends v v' := by
  induction ms with
  | nil => simp [Predicate.own] at hv
  | cons e ms ih =>
    obtain ⟨j, w⟩ := e
    obtain ⟨hfirst, hrest⟩ := h
    by_cases hj : j = k
    · obtain rfl : w = v := by simpa [Predicate.own, hj] using hv
      exact hj ▸ hfirst
    · exact ih hrest (by simpa [Predicate.own, hj] using hv)

/-- What can be read can still be read. -/
theorem Extends.property {v w x : Value} {part : Str} (h : Extends v w) (hx : property part v = some x) :
    ∃ y, property part w = some y ∧ Extends x y := by
  cases v with
  | obj ms =>
    obtain ⟨ms', rfl, hms⟩ := h
    exact hms.own hx
  | arr xs =>
    obtain ⟨ys, rfl, hxs⟩ := h
    obtain ⟨hlen, hget⟩ := hxs.getElem?
    simp only [Predicate.property, hlen] at hx ⊢
    split at hx
    · exact ⟨x, by rw [if_pos ‹_›]; exact hx, by cases hx; rfl⟩
    · rw [if_neg ‹_›]
      obtain ⟨i, hi, hxi⟩ := bind_eq_some_iff.mp hx
      obtain ⟨y, hy, hxy⟩ := hget i x hxi
      exact ⟨y, by rw [hi]; exact hy, hxy⟩
  | _ => simp [Predicate.property] at hx

theorem Extends.resolveFrom {parts : List Str} {v w x : Value} (h : Extends v w)
    (hx : resolveFrom parts v = some x) : ∃ y, resolveFrom parts w = some y ∧ Extends x y := by
  induction parts generalizing v w with
  | nil =>
    obtain rfl : v = x := by simpa [Predicate.resolveFrom] using hx
    exact ⟨w, rfl, h⟩
  | cons part parts ih =>
    rw [Predicate.resolveFrom] at hx ⊢
    split at hx
    · cases hx
    · rw [if_neg ‹_›]
      obtain ⟨z, hz, hzx⟩ := bind_eq_some_iff.mp hx
      obtain ⟨z', hz', hext⟩ := h.property hz
      simpa [hz'] using ih hext hzx

mutual

/-- The text is the same with more members. -/
theorem plain_extends (l : Library) : (v : Value) → {w : Value} → Extends v w → plain l w = plain l v
  | .arr xs, _, h => by
    obtain ⟨ys, rfl, hxs⟩ := h
    rw [plain, plain, plains_extends l xs hxs]
  | .obj ms, _, h => by
    obtain ⟨ms', rfl, _⟩ := h
    rfl
  | .null, _, h => congrArg _ h
  | .bool _, _, h => congrArg _ h
  | .num _, _, h => congrArg _ h
  | .str _, _, h => congrArg _ h

theorem plains_extends (l : Library) : (xs : List Value) → {ys : List Value} → ExtendsAll xs ys →
    plains l ys = plains l xs
  | [], _, h => congrArg _ h
  | x :: xs, _, h => by
    obtain ⟨y, ys, rfl, hx, hxs⟩ := h
    have hplain := plain_extends l x hx
    have hplains := plains_extends l xs hxs
    cases x with
    | arr xs =>
      obtain ⟨_, rfl, _⟩ := hx
      rw [plains, plains, hplain, hplains] <;> simp
    | obj ms =>
      obtain ⟨_, rfl, _⟩ := hx
      rw [plains, plains, hplain, hplains] <;> simp
    | _ =>
      obtain rfl := hx
      simp [plains, hplains]

end

/-- A test says the same with more members. -/
theorem holds_extends (l : Library) {v w : Value} (h : Extends v w) (test : Test) :
    test.holds l w = test.holds l v := by
  cases v with
  | arr xs =>
    have hplain := plain_extends l (.arr xs) h
    obtain ⟨ys, rfl, _⟩ := h
    cases test <;> simp only [Test.holds, matchesText, hplain] <;> rfl
  | obj ms =>
    obtain ⟨ms', rfl, _⟩ := h
    cases test <;> rfl
  | _ => rw [show w = _ from h]

theorem settles_verdictOf (l : Library) {e e' : Value} (h : Extends e e') (a : Atom) :
    (verdictOf l e a).Settles (verdictOf l e' a) := by
  unfold verdictOf
  cases hv : resolveEvidencePath e a.path with
  | none => exact settles_missing _ _
  | some v =>
    obtain ⟨w, hw, hvw⟩ := h.resolveFrom hv
    rw [resolveEvidencePath, hw]
    have hsame := congrArg (ofBool (π := Str)) (holds_extends l hvw a.test).symm
    exact .inr hsame

/-! ## When predicates mean what they say -/

/-- The evaluation comes to an end without another exception, and with what the predicate says. -/
def Agrees (l : Library) (p evidence : Value) : Prop :=
  ∃ o, meaning l p evidence = some o ∧ evaluatePredicate l p evidence = some o

/-- An outcome that is true or false stands. -/
def Keeps (l : Library) (p e e' : Value) : Prop :=
  ∀ o, evaluatePredicate l p e = some o → o.missing? = none → evaluatePredicate l p e' = some o

def atomsOf (l : Library) (p : Value) : List Atom := ((decode l (MAX_DEPTH + 1) (some p)).map Formula.atoms).getD []

theorem sound_of_agrees {l : Library} {q evidence : Value} {a : Atom}
    (h : decode l (MAX_DEPTH + 1) (some q) = some (.atom a)) (hagrees : Agrees l q evidence) : a.Sound l evidence := by
  obtain ⟨ms, hms, _, hdecoded⟩ := decode_cases h
  obtain rfl : q = .obj ms := by simpa using hms
  obtain ⟨o, ho, heval⟩ := hagrees
  obtain rfl : verdictOf l evidence a = o := by simpa [meaning, h, Formula.denote] using ho
  cases hdecoded with
  | test hrule hcompound hatom =>
    exact (evalNode_test_iff hrule hcompound hatom).mp (evaluatePredicate_eq_iff.mp heval)

/-- A predicate that compiles means what it says, with each of its parts and also when members are added, exactly where
its tests are sound. -/
theorem means_iff_sound (l : Library) (p e e' : Value) (hp : compilePredicate l p = []) (he : Extends e e') :
    (∀ q, Part p q → Agrees l q e ∧ Agrees l q e' ∧ Keeps l q e e') ↔
      ∀ a ∈ atomsOf l p, a.Sound l e ∧ a.Sound l e' := by
  obtain ⟨f, hf, _⟩ := compilePredicate_iff.mp hp
  have hatoms : atomsOf l p = f.atoms := by simp [atomsOf, hf]
  rw [hatoms]
  constructor
  · intro h a ha
    obtain ⟨q, hq, hatom⟩ := exists_part_atom hf ha
    obtain ⟨hagrees, hagrees', _⟩ := h q hq
    exact ⟨sound_of_agrees hatom hagrees, sound_of_agrees hatom hagrees'⟩
  · intro hsound q hq
    obtain ⟨g, hg, _, hsub⟩ := decode_part hq hf
    have hagrees (evidence : Value) (hall : ∀ a ∈ f.atoms, a.Sound l evidence) :
        evaluatePredicate l q evidence = some (g.denote (verdictOf l evidence)) :=
      evaluatePredicate_eq_iff.mpr (evalNode_eq hg fun a ha => hall a (hsub a ha))
    have hnow := hagrees e fun a ha => (hsound a ha).1
    have hlater := hagrees e' fun a ha => (hsound a ha).2
    refine ⟨⟨_, by simp [meaning, hg], hnow⟩, ⟨_, by simp [meaning, hg], hlater⟩, fun o ho hsettled => ?_⟩
    obtain rfl : g.denote (verdictOf l e) = o := by simpa [hnow] using ho
    rw [hlater, ← (Formula.settles_denote g fun a _ => settles_verdictOf l he a).eq hsettled]

/-! ## Two predicates that say something else -/

def sampleLibrary : Library where
  number s := .finite (s.foldl (fun n u => n * 10 + (u.toNat - 0x30)) 0 : Nat)
  spell _ := text "0"
  stringify _ := text "null"
  regExp pattern _ := .ok fun s => s.tails.any pattern.isPrefixOf

def sampleObject (ms : List (String × Value)) : Value := .obj (ms.map fun e => (text e.1, e.2))

def highMask : Value :=
  sampleObject [("rule", .str (text "bits_all")), ("path", .str (text "uac")), ("mask", .num (.finite 4294967296))]

def noBits : Value := sampleObject [("uac", .num (.finite 0))]

def anyText : Value :=
  sampleObject [("rule", .str (text "regex_match")), ("path", .str (text "s")), ("pattern", .str (text "a"))]

def ownToString : Value := sampleObject [("s", sampleObject [("toString", .num (.finite 1))])]

/-- Both compile. The bit is not set and the first predicate holds, and the second one gets no outcome. -/
theorem not_agrees_samples : (compilePredicate sampleLibrary highMask = [] ∧ ¬ Agrees sampleLibrary highMask noBits) ∧
      compilePredicate sampleLibrary anyText = [] ∧ ¬ Agrees sampleLibrary anyText ownToString := by
  have hmask : decode sampleLibrary (MAX_DEPTH + 1) (some highMask) =
      some (.atom ⟨text "uac", .bitsAll 4294967296⟩) := rfl
  have htext : decode sampleLibrary (MAX_DEPTH + 1) (some anyText) =
      some (.atom ⟨text "s", .regexMatch (text "a") false⟩) := rfl
  refine ⟨⟨by decide, fun h => ?_⟩, by decide, fun h => ?_⟩
  · have hlow : ∀ i < 32, Nat.testBit 4294967296 i = false := by decide
    have hbit := sound_of_agrees hmask h (.num (.finite 0)) rfl 0 rfl (fun i hi hset => by simp [hlow i hi] at hset) 32
      (le_refl 32) (by decide)
    exact absurd hbit (by decide)
  · have htextual : isTextual (sampleObject [("toString", .num (.finite 1))]) :=
      sound_of_agrees htext h _ rfl
    exact absurd htextual (by decide)

def sampleAny : Value :=
  sampleObject [("rule", .str (text "any_of")), ("rules", .arr [
    sampleObject [("rule", .str (text "is_true")), ("path", .str (text "a"))],
    sampleObject [("rule", .str (text "bits_all")), ("path", .str (text "uac")), ("mask", .num (.finite 2))]])]

def disabled : Value := sampleObject [("uac", .str (text "66050"))]

def disabledAndMore : Value := sampleObject [("uac", .str (text "66050")), ("a", .bool false)]

theorem means_iff_sound_sampleAny :
    (∀ q, Part sampleAny q → Agrees sampleLibrary q disabled ∧ Agrees sampleLibrary q disabledAndMore ∧
      Keeps sampleLibrary q disabled disabledAndMore) ↔ ∀ a ∈ atomsOf sampleLibrary sampleAny,
        a.Sound sampleLibrary disabled ∧ a.Sound sampleLibrary disabledAndMore :=
  means_iff_sound sampleLibrary sampleAny disabled disabledAndMore (by decide)
    ⟨_, rfl, ⟨_, rfl, rfl⟩, trivial⟩

end Asp.Predicate
