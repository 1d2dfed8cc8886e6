-- SUMMARY: Who defines a directive of sshd before our drop-in: the walk that explains an override, and when it reads what sshd reads.
import Tracenium.Hardening.SshdDropin

/-!
`sshdEarlierDefinitions` of `src/privsvc/linux/src/sshd-dropin.ts`. The walk stops at the first Include of the
directory of the drop-ins, whether our drop-in is among the files that it names or not.
-/

open Utf16 List

namespace Hardening.Blame

def SSHD_MAIN_CONFIG : Str := text "/etc/ssh/sshd_config"
def SSHD_DROPIN_NAME : Str := text "00-tracenium-hardening.conf"

/-! ## Paths and patterns -/

/-- The segments of a path, with `.` and `..` resolved. -/
def normalizeSegments (segments : List Str) : List Str :=
  segments.foldl (fun kept segment =>
    if segment.isEmpty || segment == [dot] then kept
    else if segment == [dot, dot] then kept.dropLast
    else kept ++ [segment]) []

/-- `path.posix.join("/etc/ssh", a)`. -/
def joinEtcSsh (a : Str) : Str :=
  let kept := normalizeSegments ((text "/etc/ssh/" ++ a).splitOn slash)
  let joined := slash :: (kept.intersperse [slash]).flatten
  if a.getLast? == some slash && !kept.isEmpty then joined ++ [slash] else joined

/-- `path.posix.basename`. -/
def basename (s : Str) : Str := ((s.reverse.dropWhile (· == slash)).takeWhile (· != slash)).reverse

/-- `s.split(/\s+/)`. -/
def splitSpaces (s : Str) : List Str :=
  match s.splitOnP Ipc.isSpace with
  | [] => []
  | [part] => [part]
  | part :: rest => part :: (rest.dropLast.filter fun p => !p.isEmpty) ++ rest.getLast?.toList

/-- The patterns of an Include for names in the directory of the drop-ins. -/
def patternsOf (value : Str) : List Str :=
  (((splitSpaces value).map fun a => if a.head? == some slash then a else joinEtcSsh a).filter fun a =>
    dirname a == SSHD_DROPIN_DIR).map basename

def star : UInt16 := 0x2A
def question : UInt16 := 0x3F

/-- A name without what a pattern that starts with a star may leave out. -/
def anyTail (f : Str → Bool) : Str → Bool
  | [] => f []
  | u :: name => f (u :: name) || (u != slash && anyTail f name)

/-- `globToRegExp(pattern).test(name)`. -/
def wildcard : Str → Str → Bool
  | [], name => name.isEmpty
  | p :: pattern, name =>
    if p = star then anyTail (wildcard pattern) name
    else
      match name with
      | [] => false
      | u :: name => (if p = question then u != slash else u == p) && wildcard pattern name

/-- `a < b`. -/
def unitsLess : Str → Str → Bool
  | _, [] => false
  | [], _ :: _ => true
  | u :: a, v :: b => u < v || (u == v && unitsLess a b)

def dropinPath (name : Str) : Str := SSHD_DROPIN_DIR ++ slash :: name

/-! ## The walk -/

structure SshdDefinition where
  source : Str
  line : Nat
  value : Str
  deriving DecidableEq

structure SshdPrecedence where
  dropinIncluded : Bool
  earlier : List SshdDefinition
  deriving DecidableEq

structure Dropin where
  name : Str
  content : Str

/-- The drop-ins of a directory have different names. -/
structure Directory where
  dropins : List Dropin
  nodup : (dropins.map Dropin.name).Nodup

section Walk

variable (l : Library)

/-- `scan` from a line on. The callback gives what it has pushed, if it stops the scan. -/
def scanLines (lower source : Str) (onInclude : List Str → Option (List SshdDefinition)) (i : Nat) :
    List Str → SshdPrecedence
  | [] => ⟨false, []⟩
  | line :: ls =>
    match directiveKey l line with
    | none => scanLines lower source onInclude (i + 1) ls
    | some key =>
      if key = text "match" then ⟨false, []⟩
      else
        let own := if key = lower then [⟨source, i + 1, directiveValue line⟩] else []
        match if key = text "include" then onInclude (patternsOf (directiveValue line)) else none with
        | some pushed => ⟨true, own ++ pushed⟩
        | none =>
          let rest := scanLines lower source onInclude (i + 1) ls
          ⟨rest.dropinIncluded, own ++ rest.earlier⟩

def contentOf (dropins : List Dropin) (name : Str) : Str :=
  ((dropins.find? fun d => d.name == name).map Dropin.content).getD []

def visited (dropins : List Dropin) (patterns : List Str) : List Str :=
  (((dropins.map Dropin.name).filter fun name =>
      name.head? != some dot && patterns.any fun pattern => wildcard pattern name).insertionSort
    fun a b => unitsLess b a = false).takeWhile fun name => unitsLess name SSHD_DROPIN_NAME

def scanDropins (dropins : List Dropin) (lower : Str) (patterns : List Str) : List SshdDefinition :=
  (visited dropins patterns).flatMap fun name =>
    (scanLines l lower (dropinPath name) (fun _ => none) 0 (lines (contentOf dropins name))).earlier

/-- The callback of the main file. Where it stops the scan, our drop-in counts as included. -/
def onInclude (dropins : List Dropin) (lower : Str) (patterns : List Str) : Option (List SshdDefinition) :=
  if patterns.isEmpty then none else some (scanDropins l dropins lower patterns)

def sshdEarlierDefinitions (mainConfig : Str) (dropins : List Dropin) (directive : Str) : SshdPrecedence :=
  scanLines l (l.lower directive) SSHD_MAIN_CONFIG (onInclude l dropins (l.lower directive)) 0 (lines mainConfig)

end Walk

/-! ## sshd -/

/-- A line that sshd reads, and where. -/
structure ReadLine where
  source : Str
  line : Nat
  key : Str
  value : Str
  deriving DecidableEq

inductive Read
  | file (name : Str)
  | line (line : ReadLine)
  deriving DecidableEq

/-- The code points of a text. Their order is that of the bytes. -/
def codePoints : Str → List Nat
  | [] => []
  | [u] => [u.toNat]
  | u :: v :: s =>
    if isHigh u && isLow v then (0x10000 + (u.toNat - 0xD800) * 0x400 + (v.toNat - 0xDC00)) :: codePoints s
    else u.toNat :: codePoints (v :: s)

def pointsLess : List Nat → List Nat → Bool
  | _, [] => false
  | [], _ :: _ => true
  | u :: a, v :: b => u < v || (u == v && pointsLess a b)

def bytesLess (a b : Str) : Bool := pointsLess (codePoints a) (codePoints b)

section Sshd

variable (l : Library) (glob : Str → Str → Bool)

def numbered (source : Str) (i : Nat) : List Str → List ReadLine
  | [] => []
  | line :: ls =>
    ((directiveKey l line).map fun key => ReadLine.mk source (i + 1) key (directiveValue line)).toList ++
      numbered source (i + 1) ls

def fileLines (source content : Str) : List ReadLine :=
  (numbered l source 0 (lines content)).takeWhile fun line => line.key != text "match"

/-- The drop-ins with a name that a pattern matches, in the order of their bytes. -/
def included (dropins : List Dropin) (patterns : List Str) : List Dropin :=
  (dropins.filter fun d => patterns.any fun pattern => glob pattern d.name).insertionSort
    fun d d' => bytesLess d'.name d.name = false

def readDropin (d : Dropin) : List Read := .file d.name :: (fileLines l (dropinPath d.name) d.content).map .line

def expanded (dropins : List Dropin) (line : ReadLine) : List Read :=
  if line.key = text "include" then (included glob dropins (patternsOf line.value)).flatMap (readDropin l) else []

def readLines (dropins : List Dropin) (ls : List ReadLine) : List Read :=
  ls.flatMap fun line => .line line :: expanded l glob dropins line

/-- What sshd reads, in order. `glob` says which names a pattern matches. -/
def sshdReads (mainConfig : Str) (dropins : List Dropin) : List Read :=
  readLines l glob dropins (fileLines l SSHD_MAIN_CONFIG mainConfig)

def definitionsIn (lower : Str) (reads : List Read) : List SshdDefinition :=
  reads.filterMap fun
    | .line line => if line.key = lower then some ⟨line.source, line.line, line.value⟩ else none
    | .file _ => none

def beforeOurs (reads : List Read) : List Read := reads.takeWhile (· != .file SSHD_DROPIN_NAME)

def effective (lower : Str) (reads : List Read) : Option Str :=
  (definitionsIn lower reads).head?.map SshdDefinition.value

end Sshd

/-! ## Agreement -/

structure Agrees (l : Library) (glob : Str → Str → Bool) (mainConfig : Str) (directory : Directory) (directive : Str) :
    Prop where
  dropinIncluded : (sshdEarlierDefinitions l mainConfig directory.dropins directive).dropinIncluded = true ↔
    .file SSHD_DROPIN_NAME ∈ sshdReads l glob mainConfig directory.dropins
  earlier : (sshdEarlierDefinitions l mainConfig directory.dropins directive).dropinIncluded = true →
    (sshdEarlierDefinitions l mainConfig directory.dropins directive).earlier =
      definitionsIn (l.lower directive) (beforeOurs (sshdReads l glob mainConfig directory.dropins))
  /-- With nothing before it, the value that our drop-in defines is the one that holds. -/
  effective : (sshdEarlierDefinitions l mainConfig directory.dropins directive).dropinIncluded = true →
    (sshdEarlierDefinitions l mainConfig directory.dropins directive).earlier = [] →
    ∀ d ∈ directory.dropins, d.name = SSHD_DROPIN_NAME → ∀ v ∈ (definitions l (some d.content) directive).head?,
      effective (l.lower directive) (sshdReads l glob mainConfig directory.dropins) = some v

section Lines

variable {l : Library} {glob : Str → Str → Bool} {lower source : Str} {dropins : List Dropin}
  {onInclude : List Str → Option (List SshdDefinition)}

@[simp] theorem definitionsIn_nil : definitionsIn lower [] = [] := rfl

@[simp] theorem definitionsIn_append (reads reads' : List Read) :
    definitionsIn lower (reads ++ reads') = definitionsIn lower reads ++ definitionsIn lower reads' :=
  filterMap_append

@[simp] theorem definitionsIn_file (name : Str) (reads : List Read) :
    definitionsIn lower (.file name :: reads) = definitionsIn lower reads := rfl

theorem definitionsIn_line (line : ReadLine) (reads : List Read) : definitionsIn lower (.line line :: reads) =
      (if line.key = lower then [⟨line.source, line.line, line.value⟩] else []) ++ definitionsIn lower reads := by
  unfold definitionsIn
  split <;> simp_all

end Lines

/-! ## Reading -/

section Reading

variable {l : Library} {glob : Str → Str → Bool} {lower : Str} {dropins : List Dropin}

/-- The values of a drop-in are those of its definitions. -/
theorem definitions_eq (l : Library) (source content directive : Str) : definitions l (some content) directive =
      (definitionsIn (l.lower directive) ((fileLines l source content).map .line)).map SshdDefinition.value := by
  have hscan (lower : Str) (ls : List Str) (i : Nat) : scan l lower ls =
      (definitionsIn lower (((numbered l source i ls).takeWhile fun line => line.key != text "match").map .line)).map
        SshdDefinition.value := by
    induction ls generalizing i with
    | nil => rfl
    | cons line ls ih =>
      rw [scan, numbered]
      cases hkey : directiveKey l line with
      | none => simpa using ih (i + 1)
      | some key =>
        by_cases hmatch : key = text "match"
        · simp [hmatch]
        · simp only [hmatch, if_false, Option.map_some, Option.toList_some, singleton_append]
          rw [takeWhile_cons_of_pos (by simpa using hmatch), map_cons, definitionsIn_line, ih (i + 1)]
          split <;> simp
  exact hscan _ _ 0

/-! ## Our drop-in -/

/-- Lines and whole drop-ins, one after the other. -/
inductive Blocks (l : Library) (dropins : List Dropin) : List Read → Prop
  | nil : Blocks l dropins []
  | line (x : ReadLine) {reads : List Read} (h : Blocks l dropins reads) : Blocks l dropins (.line x :: reads)
  | dropin {d : Dropin} (hd : d ∈ dropins) {reads : List Read} (h : Blocks l dropins reads) :
    Blocks l dropins (readDropin l d ++ reads)

theorem Blocks.included {reads : List Read} (h : Blocks l dropins reads) (patterns : List Str) :
    Blocks l dropins ((included glob dropins patterns).flatMap (readDropin l) ++ reads) := by
  have hmem : ∀ d ∈ Blame.included glob dropins patterns, d ∈ dropins := fun d hd =>
    (mem_filter.mp ((mem_insertionSort _).mp hd)).1
  generalize Blame.included glob dropins patterns = ds at hmem ⊢
  induction ds with
  | nil => exact h
  | cons d ds ih =>
    obtain ⟨hd, hds⟩ := forall_mem_cons.mp hmem
    rw [flatMap_cons, append_assoc]
    exact .dropin hd (ih hds)

/-- A drop-in that is come upon is read from its start. -/
theorem Blocks.dropWhile {reads : List Read} (h : Blocks l dropins reads) {name : Str} (hmem : .file name ∈ reads) :
    ∃ d ∈ dropins, d.name = name ∧ ∃ later, reads.dropWhile (· != .file name) = readDropin l d ++ later := by
  induction h with
  | nil => simp at hmem
  | line x h ih =>
    exact ih (by simpa using hmem)
  | @dropin d hd reads h ih =>
    by_cases hname : d.name = name
    · refine ⟨d, hd, hname, reads, ?_⟩
      rw [readDropin, cons_append, dropWhile_cons_of_neg (by simp [hname])]
    · have hother : ∀ read ∈ readDropin l d, (read != .file name) := by
        simp [readDropin, hname]
      rw [dropWhile_append_of_pos hother]
      refine ih ?_
      rcases mem_append.mp hmem with hmem | hmem
      · simpa using hother _ hmem
      · exact hmem

end Reading

/-! ## The result -/

section Result

variable {l : Library} {glob : Str → Str → Bool} {mainConfig directive : Str} {directory : Directory}

end Result

/-- Stars and question marks, which match no dot that a name starts with. -/
def shellGlob (pattern name : Str) : Bool :=
  (name.head? != some dot || pattern.head? == some dot) && wildcard pattern name

end Hardening.Blame
