-- SUMMARY: The predicates of security indicators: the values that they are, how they are checked and how they are evaluated.
import Tracenium.Ipc.Wire
import Tracenium.Lib.ThreeValued
import Mathlib.Data.Rat.Defs

/-!
`compilePredicate` and `evaluatePredicate` of `src/plugins/asp/predicate.ts`, on the values that `JSON.parse` gives.
-/

open Utf16 Json List

namespace Asp.Predicate

/-! ## Values -/

/-- A number that is not `NaN`; both zeros are one. -/
inductive Number
  | finite (q : Rat)
  | infinite (negative : Bool)
  deriving DecidableEq

def Number.le : Number → Number → Bool
  | .infinite true, _ => true
  | _, .infinite false => true
  | .finite a, .finite b => a ≤ b
  | _, _ => false

/-- `Number.isSafeInteger(x)`, with the integer that `x` is. -/
def Number.safeInteger : Number → Option Int
  | .finite q => if q.den = 1 ∧ q.num.natAbs ≤ 9007199254740991 then some q.num else none
  | .infinite _ => none

def Number.isFinite : Number → Bool
  | .finite _ => true
  | .infinite _ => false

/-- An object with its own members. -/
inductive Value
  | null
  | bool (b : Bool)
  | num (x : Number)
  | str (s : Str)
  | arr (xs : List Value)
  | obj (ms : List (Str × Value))

/-- The language's own functions: `Number(s)` on decimal texts, `String(x)`, `JSON.stringify`, and the regular
expressions, each with its test or with the message of the exception. -/
structure Library where
  number : Str → Number
  spell : Number → Str
  stringify : Option Value → Str
  regExp : (pattern : Str) → (ignoreCase : Bool) → Except Str (Str → Bool)

def own (ms : List (Str × Value)) (k : Str) : Option Value := (ms.find? fun e => e.1 = k).map Prod.snd

namespace Value

def isScalar : Value → Bool
  | .arr _ => false
  | .obj _ => false
  | _ => true

def isNull : Value → Bool
  | .null => true
  | _ => false

/-- `===` with a scalar. Two objects are never the same. -/
def strictEquals : Value → Value → Bool
  | .null, .null => true
  | .bool a, .bool b => a == b
  | .num a, .num b => a == b
  | .str a, .str b => a == b
  | _, _ => false

end Value

/-! ## Rules -/

inductive Rule
  | equals | notEquals | inSet | notInSet | atMost | atLeast | between | isTrue | isFalse | regexMatch | regexNotMatch
  | bitsAll | bitsNone | allOf | anyOf | not
  deriving DecidableEq

def Rule.name : Rule → Str
  | .equals => text "equals"
  | .notEquals => text "not_equals"
  | .inSet => text "in_set"
  | .notInSet => text "not_in_set"
  | .atMost => text "at_most"
  | .atLeast => text "at_least"
  | .between => text "between"
  | .isTrue => text "is_true"
  | .isFalse => text "is_false"
  | .regexMatch => text "regex_match"
  | .regexNotMatch => text "regex_not_match"
  | .bitsAll => text "bits_all"
  | .bitsNone => text "bits_none"
  | .allOf => text "all_of"
  | .anyOf => text "any_of"
  | .not => text "not"

/-- The keys of `RULES`. -/
def rules : List Rule :=
  [.equals, .notEquals, .inSet, .notInSet, .atMost, .atLeast, .between, .isTrue, .isFalse, .regexMatch, .regexNotMatch,
    .bitsAll, .bitsNone, .allOf, .anyOf, .not]

def ruleOf (name : Str) : Option Rule := rules.find? fun r => r.name = name

inductive ParamType
  | path | scalar | array | number | integer | string | rules | rule
  deriving DecidableEq

def Rule.params : Rule → List (Str × ParamType)
  | .equals => [(text "path", .path), (text "value", .scalar)]
  | .notEquals => [(text "path", .path), (text "value", .scalar)]
  | .inSet => [(text "path", .path), (text "values", .array)]
  | .notInSet => [(text "path", .path), (text "values", .array)]
  | .atMost => [(text "path", .path), (text "max", .number)]
  | .atLeast => [(text "path", .path), (text "min", .number)]
  | .between => [(text "path", .path), (text "min", .number), (text "max", .number)]
  | .isTrue => [(text "path", .path)]
  | .isFalse => [(text "path", .path)]
  | .regexMatch => [(text "path", .path), (text "pattern", .string)]
  | .regexNotMatch => [(text "path", .path), (text "pattern", .string)]
  | .bitsAll => [(text "path", .path), (text "mask", .integer)]
  | .bitsNone => [(text "path", .path), (text "mask", .integer)]
  | .allOf => [(text "rules", .rules)]
  | .anyOf => [(text "rules", .rules)]
  | .not => [(text "predicate", .rule)]

/-! ## Compiling -/

def MAX_DEPTH : Nat := 5
def MAX_NODES : Nat := 60
def MAX_REGEX_LENGTH : Nat := 200

def dot : UInt16 := 0x2E

def isSegmentUnit (u : UInt16) : Bool :=
  isDigit u || (0x41 ≤ u && u ≤ 0x5A) || (0x61 ≤ u && u ≤ 0x7A) || u == 0x5F || u == 0x2D

/-- `PATH_RE`: segments of one unit or more, with dots between them. -/
def isPath (s : Str) : Bool := (s.splitOn dot).all fun part => !part.isEmpty && part.all isSegmentUnit

def forbiddenSegments : List Str := [text "__proto__", text "constructor", text "prototype"]

/-- `node.flags === "i"`. -/
def ignoreCase (ms : List (Str × Value)) : Bool :=
  match own ms (text "flags") with
  | some (.str s) => s == text "i"
  | _ => false

def paramErrors (l : Library) (ms : List (Str × Value)) (place : Str) : ParamType → Option Value → List Str
  | .path, v =>
    let ok := match v with
      | some (.str s) => isPath s && !(s.splitOn dot).any forbiddenSegments.contains
      | _ => false
    if ok then [] else [place ++ text ": invalid path"]
  | .scalar, v =>
    if v.any Value.isScalar then [] else [place ++ text ": must be a scalar"]
  | .array, v =>
    let ok := match v with
      | some (.arr xs) => !xs.isEmpty && xs.all Value.isScalar
      | _ => false
    if ok then [] else [place ++ text ": must be a non-empty array of scalars"]
  | .number, v =>
    let ok := match v with
      | some (.num x) => x.isFinite
      | _ => false
    if ok then [] else [place ++ text ": must be a finite number"]
  | .integer, v =>
    let ok := match v with
      | some (.num x) => x.safeInteger.any fun z => 0 ≤ z
      | _ => false
    if ok then [] else [place ++ text ": must be a non-negative integer"]
  | .string, v =>
    match v with
    | some (.str []) => [place ++ text ": must be a non-empty string"]
    | some (.str s) =>
      if MAX_REGEX_LENGTH < s.length then [place ++ text ": longer than " ++ decimal MAX_REGEX_LENGTH]
      else match l.regExp s (ignoreCase ms) with
        | .ok _ => []
        | .error message => [place ++ text ": invalid regex (" ++ message ++ text ")"]
    | _ => [place ++ text ": must be a non-empty string"]
  | .rules, _ => []
  | .rule, _ => []

structure Walk where
  errors : List Str
  nodes : Nat

def Walk.push (w : Walk) (errors : List Str) : Walk := { w with errors := w.errors ++ errors }

/-- `node.min > node.max`. -/
def betweenErrors (ms : List (Str × Value)) (place : Str) : Rule → List Str
  | .between =>
    match own ms (text "min"), own ms (text "max") with
    | some (.num min), some (.num max) => if min.le max then [] else [place ++ text ": min greater than max"]
    | _, _ => []
  | _ => []

def flagsErrors (ms : List (Str × Value)) (place : Str) : List Str :=
  if (own ms (text "flags")).isSome && !ignoreCase ms then [place ++ text ".flags: only \"i\" is supported"] else []

/-- `node.rule`, if there is a rule of that name. -/
def ruleAt (ms : List (Str × Value)) : Option Rule :=
  match own ms (text "rule") with
  | some (.str s) => ruleOf s
  | _ => none

/-- A parameter of a node, where `child` walks the predicates in it. -/
def checkParam (l : Library) (ms : List (Str × Value)) (place : Str) (child : Option Value → Str → Walk → Walk)
    (w : Walk) (p : Str × ParamType) : Walk :=
  let v := own ms p.1
  let here := place ++ dot :: p.1
  match p.2 with
  | .rules =>
    match v with
    | some (.arr (x :: xs)) =>
      (x :: xs).zipIdx.foldl (fun w c => child (some c.1) (here ++ text "[" ++ decimal c.2 ++ text "]") w) w
    | _ => w.push [here ++ text ": must be a non-empty array of predicates"]
  | .rule => child v here w
  | type => w.push (paramErrors l ms here type v)

/-- A node, where `child` walks the predicates in it unless they are too deep for the node itself. -/
def checkNode (l : Library) (child : Option (Option Value → Str → Walk → Walk)) (node : Option Value) (place : Str)
    (w : Walk) : Walk :=
  let w : Walk := { w with nodes := w.nodes + 1 }
  if MAX_NODES < w.nodes then
    if w.nodes = MAX_NODES + 1 then w.push [place ++ text ": more than " ++ decimal MAX_NODES ++ text " nodes"] else w
  else match child with
    | none => w.push [place ++ text ": deeper than " ++ decimal MAX_DEPTH]
    | some child =>
      match node with
      | some (.obj ms) =>
        match ruleAt ms with
        | none => w.push [place ++ text ": unknown rule " ++ l.stringify (own ms (text "rule"))]
        | some rule =>
          ((rule.params.foldl (checkParam l ms place child) w).push (betweenErrors ms place rule)).push
            (flagsErrors ms place)
      | _ => w.push [place ++ text ": predicate must be an object"]

/-- `walk` at the depth `MAX_DEPTH + 1 - room`. -/
def walk (l : Library) : (room : Nat) → Option Value → (place : Str) → Walk → Walk
  | 0 => checkNode l none
  | room + 1 => checkNode l (some (walk l room))

def compilePredicate (l : Library) (predicate : Value) : List Str :=
  (walk l (MAX_DEPTH + 1) (some predicate) (text "predicate") ⟨[], 0⟩).errors

/-! ## Evaluating -/

/-- An own property, where an array has its elements and its length. -/
def property (part : Str) : Value → Option Value
  | .obj ms => own ms part
  | .arr xs =>
    if part = text "length" then some (.num (.finite xs.length))
    else ((range xs.length).find? fun i => decimal i = part).bind fun i => xs[i]?
  | _ => none

/-- `resolveEvidencePath`, from a node on. -/
def resolveFrom : List Str → Value → Option Value
  | [], node => some node
  | part :: parts, node =>
    if forbiddenSegments.contains part then none
    else (property part node).bind (resolveFrom parts)

def resolveEvidencePath (root : Value) (path : Str) : Option Value := resolveFrom (path.splitOn dot) root

/-- `/^-?\d+(\.\d+)?$/`. -/
def isDecimal (s : Str) : Bool :=
  let t := if s.head? = some 0x2D then s.tail else s
  let fraction := t.dropWhile isDigit
  !(t.takeWhile isDigit).isEmpty &&
    (fraction.isEmpty || (fraction.head? == some dot && !fraction.tail.isEmpty && fraction.tail.all isDigit))

def toNumber (l : Library) : Value → Option Number
  | .num x => if x.isFinite then some x else none
  | .str s => if isDecimal (Ipc.trim s) then some (l.number (Ipc.trim s)) else none
  | _ => none

mutual

/-- `String(v)`, unless an object has a member of its own under `toString`: no value of JSON can be called, and what
`valueOf` gives is no primitive value either. -/
def stringOf (l : Library) : Value → Option Str
  | .null => some (text "null")
  | .bool b => some (if b then text "true" else text "false")
  | .num x => some (l.spell x)
  | .str s => some s
  | .arr xs => (stringsOf l xs).map ([comma].intercalate ·)
  | .obj ms => if (own ms (text "toString")).isSome then none else some (text "[object Object]")

/-- The parts of `join`, where `null` has an empty one. -/
def stringsOf (l : Library) : List Value → Option (List Str)
  | [] => some []
  | .null :: xs => (stringsOf l xs).map ([] :: ·)
  | x :: xs => (stringOf l x).bind fun s => (stringsOf l xs).map (s :: ·)

end

/-- What `evalNode` throws: `Missing` with its path, or any other exception. -/
inductive Thrown
  | missing (path : Str)
  | error
  deriving DecidableEq

def read (evidence : Value) (path : Option Value) : Except Thrown Value :=
  match path with
  | some (.str p) =>
    match resolveEvidencePath evidence p with
    | some v => .ok v
    | none => .error (.missing p)
  | _ => .error .error

/-- `new RegExp(node.pattern, …).test(s)`, where `null` is an empty text. -/
def regexTest (l : Library) (pattern : Option Value) (ignoreCase : Bool) (v : Value) : Except Thrown Bool :=
  match pattern with
  | some (.str p) =>
    match if v.isNull then some [] else stringOf l v with
    | none => .error .error
    | some s =>
      match l.regExp p ignoreCase with
      | .ok test => .ok (test s)
      | .error _ => .error .error
  | _ => .error .error

/-- `n & mask` and `mask`, as words of 32 bits. -/
def masked (l : Library) (mask : Option Value) (v : Value) : Except Thrown (Option (BitVec 32 × BitVec 32)) :=
  match mask with
  | some (.num x) =>
    match x.safeInteger with
    | none => .error .error
    | some m =>
      let n := (toNumber l v).bind Number.safeInteger
      .ok (n.map fun n => (BitVec.ofInt 32 n &&& BitVec.ofInt 32 m, BitVec.ofInt 32 m))
  | _ => .error .error

/-- `n <= bound` or the other way round. -/
def compare (holds : Number → Number → Bool) (n : Option Number) (bound : Option Value) : Except Thrown Bool :=
  match bound with
  | some (.num x) => .ok (n.any (holds · x))
  | _ => .error .error

def includes (values : Option Value) (v : Value) : Except Thrown Bool :=
  match values with
  | some (.arr xs) => .ok (xs.any (Value.strictEquals v))
  | _ => .error .error

/-- The rules that read one value. -/
def evalTest (l : Library) (ms : List (Str × Value)) (v : Value) : Rule → Except Thrown Bool
  | .equals => .ok ((own ms (text "value")).any (Value.strictEquals v))
  | .notEquals => .ok (!(own ms (text "value")).any (Value.strictEquals v))
  | .inSet => includes (own ms (text "values")) v
  | .notInSet => (includes (own ms (text "values")) v).map (!·)
  | .atMost => compare (fun n max => n.le max) (toNumber l v) (own ms (text "max"))
  | .atLeast => compare (fun n min => min.le n) (toNumber l v) (own ms (text "min"))
  | .between => do
    let n := toNumber l v
    let low ← compare (fun n min => min.le n) n (own ms (text "min"))
    let high ← compare (fun n max => n.le max) n (own ms (text "max"))
    return low && high
  | .isTrue => .ok (v.strictEquals (.bool true))
  | .isFalse => .ok (v.strictEquals (.bool false))
  | .regexMatch => regexTest l (own ms (text "pattern")) (ignoreCase ms) v
  | .regexNotMatch => (regexTest l (own ms (text "pattern")) (ignoreCase ms) v).map (!·)
  | .bitsAll => (masked l (own ms (text "mask")) v).map fun m => m.any fun w => w.1 == w.2
  | .bitsNone => (masked l (own ms (text "mask")) v).map fun m => m.any fun w => w.1 == 0
  | _ => .error .error

/-- `.map(…).every(Boolean)`: every branch is evaluated, up to the first that throws. -/
def every : List (Except Thrown Bool) → Except Thrown Bool
  | [] => .ok true
  | r :: rs => do
    let b ← r
    let rest ← every rs
    return b && rest

/-- The loop of `any_of`, with the first path that was missing. -/
def firstTrue : List (Except Thrown Bool) → (missing : Option Str) → Except Thrown Bool
  | [], none => .ok false
  | [], some path => .error (.missing path)
  | .ok true :: _, _ => .ok true
  | .ok false :: rs, missing => firstTrue rs missing
  | .error (.missing path) :: rs, missing => firstTrue rs (missing.or (some path))
  | .error .error :: _, _ => .error .error

theorem sizeOf_own_lt {ms : List (Str × Value)} {k : Str} {v : Value} (h : own ms k = some v) :
    sizeOf v < sizeOf (Value.obj ms) := by
  obtain ⟨e, he, rfl⟩ := Option.map_eq_some_iff.mp h
  have hmem := mem_of_find?_eq_some he
  have hlt := sizeOf_lt_of_mem hmem
  cases e
  simp only [Prod.mk.sizeOf_spec, Value.obj.sizeOf_spec] at hlt ⊢
  omega

/-- The rules of a predicate that compiled have the parameters they need; others end in an exception. -/
def evalNode (l : Library) (evidence : Value) : Value → Except Thrown Bool
  | .obj ms =>
    match ruleAt ms with
    | none => .error .error
    | some .allOf =>
      match _h : own ms (text "rules") with
      | some (.arr rs) => every (rs.attach.map fun r => evalNode l evidence r.1)
      | _ => .error .error
    | some .anyOf =>
      match _h : own ms (text "rules") with
      | some (.arr rs) => firstTrue (rs.attach.map fun r => evalNode l evidence r.1) none
      | _ => .error .error
    | some .not =>
      match _h : own ms (text "predicate") with
      | some p => (evalNode l evidence p).map (!·)
      | none => .error .error
    | some rule => do
      let v ← read evidence (own ms (text "path"))
      evalTest l ms v rule
  | _ => .error .error
termination_by node => sizeOf node
decreasing_by
  · have := sizeOf_own_lt _h
    have := sizeOf_lt_of_mem r.2
    simp only [Value.arr.sizeOf_spec] at *
    omega
  · have := sizeOf_own_lt _h
    have := sizeOf_lt_of_mem r.2
    simp only [Value.arr.sizeOf_spec] at *
    omega
  · exact sizeOf_own_lt _h

abbrev PredicateOutcome := ThreeValued.Verdict Str

/-- `none` where another exception than `Missing` gets out. -/
def evaluatePredicate (l : Library) (predicate evidence : Value) : Option PredicateOutcome :=
  match evalNode l evidence predicate with
  | .ok b => some (.ofBool b)
  | .error (.missing path) => some (.missing path)
  | .error .error => none

/-! ## Nodes -/

def Rule.isCompound : Rule → Bool
  | .allOf => true
  | .anyOf => true
  | .not => true
  | _ => false

variable {l : Library} {evidence : Value} {ms : List (Str × Value)}

theorem evalNode_allOf {rs : List Value} (hrule : ruleAt ms = some .allOf)
    (h : own ms (text "rules") = some (.arr rs)) :
    evalNode l evidence (.obj ms) = every (rs.map (evalNode l evidence)) := by
  rw [evalNode]
  simp only [hrule]
  split
  · rename_i rs' h'
    obtain rfl : rs = rs' := by simpa [h] using h'
    exact congrArg every attach_map_val
  · rename_i hno
    exact (hno rs h).elim

theorem evalNode_anyOf {rs : List Value} (hrule : ruleAt ms = some .anyOf)
    (h : own ms (text "rules") = some (.arr rs)) :
    evalNode l evidence (.obj ms) = firstTrue (rs.map (evalNode l evidence)) none := by
  rw [evalNode]
  simp only [hrule]
  split
  · rename_i rs' h'
    obtain rfl : rs = rs' := by simpa [h] using h'
    exact congrArg (firstTrue · none) attach_map_val
  · rename_i hno
    exact (hno rs h).elim

theorem evalNode_not {p : Value} (hrule : ruleAt ms = some .not) (h : own ms (text "predicate") = some p) :
    evalNode l evidence (.obj ms) = (evalNode l evidence p).map (!·) := by
  rw [evalNode]
  simp only [hrule]
  split
  · rename_i p' h'
    obtain rfl : p = p' := by simpa [h] using h'
    rfl
  · rename_i hno
    simp [h] at hno

theorem evalNode_test {rule : Rule} (hrule : ruleAt ms = some rule) (h : rule.isCompound = false) :
    evalNode l evidence (.obj ms) = (read evidence (own ms (text "path"))).bind fun v => evalTest l ms v rule := by
  rw [evalNode]
  cases rule <;> simp [Rule.isCompound] at h <;> simp only [hrule] <;> rfl

end Asp.Predicate
