-- SUMMARY: The walk over the declared sets, and what a scan came to see of each path.
import Tracenium.Fim.Pass

/-!
`src/domain/file-integrity-scan.ts`. The file system answers from a state that each call may change, so that what lies
there between two calls need not be the same. How a name is joined to a directory is that of the platform.
-/

open Utf16 Inventory Prod OrderedMap List

namespace Fim

/-! ## File systems -/

inductive ErrorCode
  | EACCES
  | EPERM
  | EBUSY
  | ENOENT
  | ENOTDIR
  | other
  deriving DecidableEq

structure FsError where
  code : ErrorCode
  message : Str

structure FsStat where
  isFile : Bool
  isDirectory : Bool
  isSymbolicLink : Bool
  size : Nat
  mtimeMs : Int

structure FsLike (σ : Type) where
  lstat : Str → σ → Except FsError FsStat × σ
  readdir : Str → σ → Except FsError (List Str) × σ
  sha256 : Str → σ → Except FsError Str × σ

def isPermissionError (err : FsError) : Bool :=
  err.code = .EACCES || err.code = .EPERM || err.code = .EBUSY

/-! ## Policies -/

inductive Platform
  | win32
  | darwin
  | linux
  | other
  deriving DecidableEq

def SUPPORTED : List Platform := [.win32, .darwin, .linux]

inductive FileIntegrityPlatform
  | windows
  | macos
  | linux
  | any

structure FileIntegritySet where
  id : Str
  platform : FileIntegrityPlatform
  path : Str
  recursive : Bool
  maxDepth : Nat

structure FileIntegrityPolicy where
  enabled : Bool
  sets : List FileIntegritySet
  maxFilesPerDevice : Nat
  maxFileBytes : Nat

def appliesTo (set : FileIntegritySet) (platform : Platform) : Bool :=
  match set.platform with
  | .any => true
  | .windows => platform = .win32
  | .macos => platform = .darwin
  | .linux => platform = .linux

/-! ## The walk -/

structure PreviousEntry where
  sha256 : Option Str
  sizeBytes : Nat
  mtimeMs : Int

/-- What is there of the scan so far, and the state of the file system. -/
structure Progress (σ : Type) where
  files : List (Key × FileState)
  unreadable : Nat
  truncated : Bool
  world : σ

/-- How the platform joins paths, and writes the instants that a `Date` can hold. -/
structure Paths where
  join : Str → Str → Str
  toISOString : Int → Str

section Walk

variable {σ α : Type} (paths : Paths) (policy : FileIntegrityPolicy) (fs : FsLike σ)
  (previous : Key → Option PreviousEntry) (fullRehash : Bool)

def Progress.blind (s : Progress σ) : Progress σ := { s with unreadable := s.unreadable + 1 }

def Progress.push (s : Progress σ) (setId p : Str) (st : FsStat) (sha : Option Str) (hashed : Bool) :
    Except FsError (Progress σ) :=
  match Outbox.timeClip st.mtimeMs with
  | none => .error ⟨.other, text "Invalid time value"⟩
  | some t =>
    .ok { s with files := s.files ++ [((setId, p), ⟨sha, hashed, st.size, paths.toISOString t, st.mtimeMs⟩)] }

/-- The hash that a file with the same size and date had. An empty hash is none. -/
def reuse (setId p : Str) (st : FsStat) : Option Str :=
  if fullRehash then none
  else
    (previous (setId, p)).bind fun prev =>
      if prev.sizeBytes = st.size ∧ prev.mtimeMs = st.mtimeMs then prev.sha256.filter (· ≠ []) else none

def record (setId p : Str) (st : FsStat) (s : Progress σ) : Except FsError (Progress σ) :=
  if policy.maxFileBytes < st.size then s.push paths setId p st none false
  else
    match reuse previous fullRehash setId p st with
    | some sha => s.push paths setId p st (some sha) true
    | none =>
      match fs.sha256 p s.world with
      | (.ok sha, world) => Progress.push paths { s with world := world } setId p st (some sha) true
      | (.error err, world) =>
        if !isPermissionError err && err.code ≠ .ENOENT then .error err
        else .ok (Progress.blind { s with world := world })

/-- The loops over names and over sets stop at the cap. -/
def upTo (visit : α → Progress σ → Except FsError (Progress σ)) : List α → Progress σ → Except FsError (Progress σ)
  | [], s => .ok s
  | a :: as, s =>
    if policy.maxFilesPerDevice ≤ s.files.length then .ok { s with truncated := true }
    else (visit a s).bind fun s => upTo visit as s

/-- What the bodies of both loops do at a path: `gone` are the errors that say that nothing is there, and a directory
is entered by `enter`, if at all. -/
def visit (gone : List ErrorCode) (setId p : Str) (enter : Option (Progress σ → Except FsError (Progress σ)))
    (s : Progress σ) : Except FsError (Progress σ) :=
  match fs.lstat p s.world with
  | (.error err, world) =>
    if isPermissionError err then .ok (Progress.blind { s with world := world })
    else if err.code ∈ gone then .ok { s with world := world }
    else .error err
  | (.ok st, world) =>
    if st.isSymbolicLink then .ok { s with world := world }
    else if st.isFile then record paths policy fs previous fullRehash setId p st { s with world := world }
    else if st.isDirectory then enter.elim (.ok { s with world := world }) fun walk => walk { s with world := world }
    else .ok { s with world := world }

/-- One directory; `below` is the walk of the directories in it. -/
def walkDir (setId dir : Str) (below : Option (Str → Progress σ → Except FsError (Progress σ))) (s : Progress σ) :
    Except FsError (Progress σ) :=
  match fs.readdir dir s.world with
  | (.error err, world) =>
    if isPermissionError err then .ok (Progress.blind { s with world := world })
    else if err.code = .ENOENT ∨ err.code = .ENOTDIR then .ok { s with world := world }
    else .error err
  | (.ok names, world) =>
    upTo policy
      (fun name => visit paths policy fs previous fullRehash [.ENOENT] setId (paths.join dir name)
        (below.map fun walk => walk (paths.join dir name)))
      (names.mergeSort fun x y => decide (x ≤ y)) { s with world := world }

/-- The walk of a directory, for so many levels below it. -/
def walk (setId : Str) (recursive : Bool) : Nat → Str → Progress σ → Except FsError (Progress σ)
  | 0, dir, s => walkDir paths policy fs previous fullRehash setId dir none s
  | levels + 1, dir, s =>
    walkDir paths policy fs previous fullRehash setId dir
      (if recursive then some (walk setId recursive levels) else none) s

def visitSet (set : FileIntegritySet) : Progress σ → Except FsError (Progress σ) :=
  visit paths policy fs previous fullRehash [.ENOENT, .ENOTDIR] set.id set.path
    (some (walk paths policy fs previous fullRehash set.id set.recursive (set.maxDepth - 1) set.path))

end Walk

/-! ## The scan -/

def Scan.empty (scope : Scope) (sets : Nat) (error : Option Str) : Scan := ⟨scope, sets, [], .empty, 0, false, error⟩

/-- `new Map(...)`: a key that comes twice has its last value. -/
def mapOf (files : List (Key × FileState)) : Files := files.foldl (fun m e => m.set e.1 e.2) .empty

/-- `String(err?.message || err).slice(0, 300)`. -/
def FsError.text (err : FsError) : Str := (if err.message = [] then Utf16.text "Error" else err.message).take 300

section Scan

variable {σ : Type} (paths : Paths) (policy : Option FileIntegrityPolicy) (platform : Platform) (fs : FsLike σ)
  (previous : Key → Option PreviousEntry) (fullRehash : Bool) (world : σ)

/-- The sets that are walked. -/
def setsOf (policy : FileIntegrityPolicy) (platform : Platform) : List FileIntegritySet :=
  policy.sets.filter (appliesTo · platform)

def scanFileIntegrity : Scan :=
  if platform ∉ SUPPORTED then .empty .unsupported 0 none
  else
    match policy.filter (·.enabled) with
    | none => .empty .notConfigured 0 none
    | some policy =>
      let sets := setsOf policy platform
      if sets = [] then .empty .notConfigured 0 none
      else
        match upTo policy (visitSet paths policy fs previous fullRehash) sets ⟨[], 0, false, world⟩ with
        | .error err => .empty .unavailable sets.length (some err.text)
        | .ok s =>
          { scope := .collected
            sets := sets.length
            setIds := sets.map (·.id)
            files := mapOf s.files
            unreadable := s.unreadable
            truncated := s.truncated
            error := none }

end Scan

end Fim

/-!
# What a scan sees

A path below a declared one is a chain of names, and what was seen either refutes that a file of the set is there, or
it blocks the sight, or the file was recorded.
-/

namespace Fim

inductive Look
  /-- A permission error, or a busy file. -/
  | denied
  /-- Nothing is there. -/
  | absent
  /-- A link, a special file, or a directory that is not entered. -/
  | passed
  | file
  /-- A directory, with what is seen at its names, and the names that are left at the cap. -/
  | listed (seen : List (Str × Look)) (left : List Str)

/-- Nothing that belongs to the set is at the end of the chain. -/
def Look.Refutes : List Str → Look → Prop
  | [], .listed _ _ => True
  | name :: chain, .listed seen left => name ∉ left ∧ ∀ e ∈ seen, e.1 = name → e.2.Refutes chain
  | chain, .file => chain ≠ []
  | _, .absent => True
  | _, .passed => True
  | _, .denied => False

/-- What is at the end of the chain was not looked at. -/
def Look.Blocks : List Str → Look → Prop
  | name :: chain, .listed seen left => name ∈ left ∨ ∃ e ∈ seen, e.1 = name ∧ e.2.Blocks chain
  | _, .denied => True
  | _, _ => False

/-- A file is recorded at the end of the chain. -/
def Look.Records : List Str → Look → Prop
  | name :: chain, .listed seen _ => ∃ e ∈ seen, e.1 = name ∧ e.2.Records chain
  | chain, .file => chain = []
  | _, _ => False

theorem Look.refutes_iff (chain : List Str) (look : Look) :
    look.Refutes chain ↔ ¬look.Blocks chain ∧ ¬look.Records chain := by
  induction chain generalizing look with
  | nil => cases look <;> simp [Refutes, Blocks, Records]
  | cons name chain ih =>
    cases look with
    | listed seen left =>
      simp only [Refutes, Blocks, Records, not_or, not_exists, not_and, ih, and_assoc, forall_and]
    | denied | absent | passed | file => simp [Refutes, Blocks, Records]

/-- What a loop sees, and what it leaves at the cap. -/
structure Sights (α : Type) where
  seen : List (α × Look)
  left : List α

/-! ## The walk with what it sees -/

section Walk

variable {σ α : Type} (paths : Paths) (policy : FileIntegrityPolicy) (fs : FsLike σ)
  (previous : Key → Option PreviousEntry) (fullRehash : Bool)

abbrev Seeing (σ β : Type) := Progress σ → Except FsError (β × Progress σ)

/-- A file that cannot be read is denied, unless it is gone. -/
def seeRecord (setId p : Str) (st : FsStat) : Seeing σ Look := fun s =>
  if policy.maxFileBytes < st.size then (s.push paths setId p st none false).map (Look.file, ·)
  else
    match reuse previous fullRehash setId p st with
    | some sha => (s.push paths setId p st (some sha) true).map (Look.file, ·)
    | none =>
      match fs.sha256 p s.world with
      | (.ok sha, world) =>
        (Progress.push paths { s with world := world } setId p st (some sha) true).map (Look.file, ·)
      | (.error err, world) =>
        if !isPermissionError err && err.code ≠ .ENOENT then .error err
        else .ok (if isPermissionError err then .denied else .absent, Progress.blind { s with world := world })

def seeUpTo (visit : α → Seeing σ Look) : List α → Seeing σ (Sights α)
  | [], s => .ok (⟨[], []⟩, s)
  | a :: as, s =>
    if policy.maxFilesPerDevice ≤ s.files.length then .ok (⟨[], a :: as⟩, { s with truncated := true })
    else
      (visit a s).bind fun e =>
        (seeUpTo visit as e.2).map fun e' => (⟨(a, e.1) :: e'.1.seen, e'.1.left⟩, e'.2)

def seeVisit (gone : List ErrorCode) (setId p : Str) (enter : Option (Seeing σ Look)) : Seeing σ Look := fun s =>
  match fs.lstat p s.world with
  | (.error err, world) =>
    if isPermissionError err then .ok (.denied, Progress.blind { s with world := world })
    else if err.code ∈ gone then .ok (.absent, { s with world := world })
    else .error err
  | (.ok st, world) =>
    if st.isSymbolicLink then .ok (.passed, { s with world := world })
    else if st.isFile then seeRecord paths policy fs previous fullRehash setId p st { s with world := world }
    else if st.isDirectory then
      enter.elim (.ok (.passed, { s with world := world })) fun walk => walk { s with world := world }
    else .ok (.passed, { s with world := world })

def seeDir (setId dir : Str) (below : Option (Str → Seeing σ Look)) : Seeing σ Look := fun s =>
  match fs.readdir dir s.world with
  | (.error err, world) =>
    if isPermissionError err then .ok (.denied, Progress.blind { s with world := world })
    else if err.code = .ENOENT ∨ err.code = .ENOTDIR then .ok (.absent, { s with world := world })
    else .error err
  | (.ok names, world) =>
    (seeUpTo policy
      (fun name => seeVisit paths policy fs previous fullRehash [.ENOENT] setId (paths.join dir name)
        (below.map fun walk => walk (paths.join dir name)))
      (names.mergeSort fun x y => decide (x ≤ y)) { s with world := world }).map fun e =>
        (.listed e.1.seen e.1.left, e.2)

def seeWalk (setId : Str) (recursive : Bool) : Nat → Str → Seeing σ Look
  | 0, dir => seeDir paths policy fs previous fullRehash setId dir none
  | levels + 1, dir =>
    seeDir paths policy fs previous fullRehash setId dir
      (if recursive then some (seeWalk setId recursive levels) else none)

def seeSet (set : FileIntegritySet) : Seeing σ Look :=
  seeVisit paths policy fs previous fullRehash [.ENOENT, .ENOTDIR] set.id set.path
    (some (seeWalk paths policy fs previous fullRehash set.id set.recursive (set.maxDepth - 1) set.path))

/-! ### It is the walk -/

/-- Without what it sees, this is the function. -/
def Erases {β : Type} (see : Seeing σ β) (f : Progress σ → Except FsError (Progress σ)) : Prop :=
  ∀ s, (see s).map snd = f s

variable {paths policy fs previous fullRehash}

theorem map_snd_pair {β γ : Type} (x : Except FsError γ) (b : β) : (x.map (b, ·)).map snd = x := by
  cases x <;> rfl

theorem erases_record (setId p : Str) (st : FsStat) : Erases (seeRecord paths policy fs previous fullRehash setId p st)
    (record paths policy fs previous fullRehash setId p st) := by
  intro s
  rw [seeRecord, record]
  split
  · exact map_snd_pair _ _
  · cases reuse previous fullRehash setId p st with
    | some sha => exact map_snd_pair _ _
    | none =>
      rcases fs.sha256 p s.world with ⟨err | sha, world⟩
      · dsimp only
        split <;> rfl
      · exact map_snd_pair _ _

theorem erases_upTo {see : α → Seeing σ Look} {f : α → Progress σ → Except FsError (Progress σ)}
    (h : ∀ a, Erases (see a) (f a)) (as : List α) : Erases (seeUpTo policy see as) (upTo policy f as) := by
  induction as with
  | nil => exact fun s => rfl
  | cons a as ih =>
    intro s
    rw [seeUpTo, upTo]
    split
    · rfl
    · rw [← h a s]
      cases see a s with
      | error err => rfl
      | ok e =>
        have hrest := ih e.2
        simp only [Except.bind, Except.map] at hrest ⊢
        rw [← hrest]
        cases seeUpTo policy see as e.2 <;> rfl

theorem erases_visit {enter : Option (Seeing σ Look)} {f : Option (Progress σ → Except FsError (Progress σ))}
    (h : Option.Rel Erases enter f) (gone : List ErrorCode) (setId p : Str) :
    Erases (seeVisit paths policy fs previous fullRehash gone setId p enter)
      (visit paths policy fs previous fullRehash gone setId p f) := by
  intro s
  rw [seeVisit, visit]
  rcases fs.lstat p s.world with ⟨err | st, world⟩ <;> dsimp only
  · split
    · rfl
    · split <;> rfl
  · split
    · rfl
    · split
      · exact erases_record setId p _ _
      · split
        · cases h with
          | none => rfl
          | some h => exact h _
        · rfl

theorem erases_dir {below : Option (Str → Seeing σ Look)}
    {f : Option (Str → Progress σ → Except FsError (Progress σ))}
    (h : Option.Rel (fun see f => ∀ dir : Str, Erases (see dir) (f dir)) below f) (setId dir : Str) :
    Erases (seeDir paths policy fs previous fullRehash setId dir below)
      (walkDir paths policy fs previous fullRehash setId dir f) := by
  intro s
  rw [seeDir, walkDir]
  rcases fs.readdir dir s.world with ⟨err | names, world⟩ <;> dsimp only
  · split
    · rfl
    · split <;> rfl
  · have hname (name : Str) : Erases
        (seeVisit paths policy fs previous fullRehash [.ENOENT] setId (paths.join dir name)
          (below.map fun walk => walk (paths.join dir name)))
        (visit paths policy fs previous fullRehash [.ENOENT] setId (paths.join dir name)
          (f.map fun walk => walk (paths.join dir name))) := by
      refine erases_visit ?_ _ _ _
      cases h with
      | none => exact .none
      | some h => exact .some (h _)
    rw [← erases_upTo hname]
    cases seeUpTo policy _ (names.mergeSort fun x y => decide (x ≤ y)) { s with world := world } <;> rfl

theorem erases_walk (setId : Str) (recursive : Bool) (levels : Nat) (dir : Str) :
    Erases (seeWalk paths policy fs previous fullRehash setId recursive levels dir)
      (walk paths policy fs previous fullRehash setId recursive levels dir) := by
  induction levels generalizing dir with
  | zero => exact erases_dir .none setId dir
  | succ levels ih =>
    cases recursive with
    | false => exact erases_dir .none setId dir
    | true => exact erases_dir (.some ih) setId dir

theorem erases_set (set : FileIntegritySet) : Erases (seeSet paths policy fs previous fullRehash set)
    (visitSet paths policy fs previous fullRehash set) :=
  erases_visit (.some (erases_walk _ _ _ _)) _ _ _

end Walk

/-! ## Chains of names -/

/-- The path that a chain of names leads to. -/
def Paths.below (paths : Paths) (root : Str) (chain : List Str) : Str := chain.foldl paths.join root

def FileIntegritySet.reach (set : FileIntegritySet) : Nat := if set.recursive then max 1 set.maxDepth else 1

/-- The set covers the path with this chain. -/
structure Covers (paths : Paths) (set : FileIntegritySet) (k : Key) (chain : List Str) : Prop where
  id : set.id = k.1
  reach : chain.length ≤ set.reach
  path : paths.below set.path chain = k.2

section Sights

variable (paths : Paths) (sights : Sights FileIntegritySet) (k : Key)

/-- The scan established that the path is absent, or no longer covered. -/
def Sights.Establishes : Prop :=
  (∀ set ∈ sights.left, ∀ chain, ¬Covers paths set k chain) ∧
    ∀ e ∈ sights.seen, ∀ chain, Covers paths e.1 k chain → e.2.Refutes chain

/-- The scan failed to read what is at or above the path, or did not come to it. -/
def Sights.Blocks : Prop :=
  (∃ set ∈ sights.left, ∃ chain, Covers paths set k chain) ∨
    ∃ e ∈ sights.seen, ∃ chain, Covers paths e.1 k chain ∧ e.2.Blocks chain

def Sights.Records : Prop := ∃ e ∈ sights.seen, ∃ chain, Covers paths e.1 k chain ∧ e.2.Records chain

theorem Sights.establishes_iff : sights.Establishes paths k ↔ ¬sights.Blocks paths k ∧ ¬sights.Records paths k := by
  simp only [Establishes, Blocks, Records, Look.refutes_iff, not_or, not_exists, not_and, imp_and, forall_and,
    and_assoc]

end Sights

/-! ## What is recorded -/

section Adds

variable {σ α : Type} {paths : Paths} {policy : FileIntegrityPolicy} {fs : FsLike σ}
  {previous : Key → Option PreviousEntry} {fullRehash : Bool}

theorem exists_of_map_eq_ok {ε β γ : Type} {x : Except ε β} {f : β → γ} {c : γ} (h : x.map f = .ok c) :
    ∃ b, x = .ok b ∧ f b = c := by
  cases x with
  | error err => cases h
  | ok b => exact ⟨b, rfl, Except.ok.inj h⟩

/-- The keys of the files that come to those of the scan are told by what is seen. -/
def Adds {β : Type} (see : Seeing σ β) (R : β → Key → Prop) : Prop :=
  ∀ s b s', see s = .ok (b, s') → ∃ new, s'.files = s.files ++ new ∧ ∀ k, k ∈ new.map fst ↔ R b k

/-- A file of the set that is seen at a chain below `p`. -/
def RecordsAt (paths : Paths) (setId p : Str) (reach : Nat) (look : Look) (k : Key) : Prop :=
  setId = k.1 ∧ ∃ chain, chain.length ≤ reach ∧ paths.below p chain = k.2 ∧ look.Records chain

theorem recordsAt_iff {set : FileIntegritySet} {look : Look} {k : Key} :
    RecordsAt paths set.id set.path set.reach look k ↔ ∃ chain, Covers paths set k chain ∧ look.Records chain := by
  constructor
  · rintro ⟨hid, chain, hreach, hpath, hrecords⟩
    exact ⟨chain, ⟨hid, hreach, hpath⟩, hrecords⟩
  · rintro ⟨chain, hcovers, hrecords⟩
    exact ⟨hcovers.id, chain, hcovers.reach, hcovers.path, hrecords⟩

theorem recordsAt_file {setId p : Str} {reach : Nat} {k : Key} :
    RecordsAt paths setId p reach .file k ↔ k = (setId, p) := by
  simp [RecordsAt, Look.Records, Paths.below, Prod.ext_iff, eq_comm]

theorem not_recordsAt {setId p : Str} {reach : Nat} {k : Key} {look : Look} (h : ∀ chain, ¬look.Records chain) :
    ¬RecordsAt paths setId p reach look k := by
  rintro ⟨-, chain, -, -, hrecords⟩
  exact h chain hrecords

theorem recordsAt_listed {setId dir : Str} {reach : Nat} {k : Key} {seen : List (Str × Look)} {left : List Str} :
    RecordsAt paths setId dir (reach + 1) (.listed seen left) k ↔
      ∃ e ∈ seen, RecordsAt paths setId (paths.join dir e.1) reach e.2 k := by
  constructor
  · rintro ⟨hid, chain, hlength, hpath, hrecords⟩
    cases chain with
    | nil => cases hrecords
    | cons name chain =>
      obtain ⟨e, he, rfl, hrecords⟩ := hrecords
      exact ⟨e, he, hid, chain, by simpa using hlength, hpath, hrecords⟩
  · rintro ⟨e, he, hid, chain, hlength, hpath, hrecords⟩
    exact ⟨hid, e.1 :: chain, by simpa using hlength, hpath, e, he, rfl, hrecords⟩

theorem push_files {s s' : Progress σ} {setId p : Str} {st : FsStat} {sha : Option Str} {hashed : Bool}
    (h : s.push paths setId p st sha hashed = .ok s') : ∃ f, s'.files = s.files ++ [((setId, p), f)] := by
  rw [Progress.push] at h
  split at h
  · cases h
  · cases h
    exact ⟨_, rfl⟩

theorem adds_record (setId p : Str) (st : FsStat) (reach : Nat) :
    Adds (seeRecord paths policy fs previous fullRehash setId p st) (RecordsAt paths setId p reach) := by
  have hpush (s : Progress σ) (sha : Option Str) (hashed : Bool) (b : Look) (s' : Progress σ)
      (h : (s.push paths setId p st sha hashed).map (Look.file, ·) = .ok (b, s')) :
      ∃ new, s'.files = s.files ++ new ∧ ∀ k, k ∈ new.map fst ↔ RecordsAt paths setId p reach b k := by
    obtain ⟨s'', hs, heq⟩ := exists_of_map_eq_ok h
    cases heq
    obtain ⟨f, hf⟩ := push_files hs
    exact ⟨_, hf, fun k => by simp [recordsAt_file]⟩
  intro s b s' h
  rw [seeRecord] at h
  split at h
  · exact hpush _ _ _ _ _ h
  · cases hreuse : reuse previous fullRehash setId p st with
    | some sha =>
      rw [hreuse] at h
      exact hpush _ _ _ _ _ h
    | none =>
      rw [hreuse] at h
      rcases hsha : fs.sha256 p s.world with ⟨err | sha, world⟩ <;> simp only [hsha] at h
      · split at h
        · cases h
        · cases h
          refine ⟨[], by simp [Progress.blind], fun k => iff_of_false (by simp) (not_recordsAt fun chain => ?_)⟩
          split <;> cases chain <;> exact id
      · exact hpush { s with world := world } _ _ _ _ h

theorem adds_upTo {see : α → Seeing σ Look} {R : α → Look → Key → Prop} (h : ∀ a, Adds (see a) (R a)) (as : List α) :
    Adds (seeUpTo policy see as) fun sights k => ∃ e ∈ sights.seen, R e.1 e.2 k := by
  induction as with
  | nil =>
    intro s b s' hs
    cases hs
    exact ⟨[], by simp, by simp⟩
  | cons a as ih =>
    intro s b s' hs
    rw [seeUpTo] at hs
    split at hs
    · cases hs
      exact ⟨[], by simp, by simp⟩
    · cases ha : see a s with
      | error err => rw [ha] at hs; cases hs
      | ok e =>
        rw [ha] at hs
        cases has : seeUpTo policy see as e.2 with
        | error err => simp [Except.bind, Except.map, has] at hs
        | ok e' =>
          simp only [Except.bind, has] at hs
          obtain ⟨rfl, rfl⟩ := hs
          obtain ⟨new, hnew, hkeys⟩ := h a s e.1 e.2 ha
          obtain ⟨rest, hrest, hkeys'⟩ := ih e.2 e'.1 e'.2 has
          refine ⟨new ++ rest, by rw [hrest, hnew, append_assoc], fun k => ?_⟩
          rw [map_append, mem_append, hkeys, hkeys']
          simp

theorem adds_visit {enter : Option (Seeing σ Look)} {setId p : Str} {reach : Nat}
    (h : ∀ see ∈ enter, Adds see (RecordsAt paths setId p reach)) (gone : List ErrorCode) :
    Adds (seeVisit paths policy fs previous fullRehash gone setId p enter) (RecordsAt paths setId p reach) := by
  have hnone {look : Look} (hlook : ∀ chain, ¬look.Records chain) (s : Progress σ) :
      ∃ new, s.files = s.files ++ new ∧ ∀ k, k ∈ new.map fst ↔ RecordsAt paths setId p reach look k :=
    ⟨[], by simp, fun k => iff_of_false (by simp) (not_recordsAt hlook)⟩
  have hdenied : ∀ chain, ¬Look.denied.Records chain := fun chain => by cases chain <;> exact id
  have habsent : ∀ chain, ¬Look.absent.Records chain := fun chain => by cases chain <;> exact id
  have hpassed : ∀ chain, ¬Look.passed.Records chain := fun chain => by cases chain <;> exact id
  intro s b s' hs
  rw [seeVisit] at hs
  rcases hstat : fs.lstat p s.world with ⟨err | st, world⟩ <;> simp only [hstat] at hs
  · split at hs
    · cases hs
      exact hnone hdenied s
    · split at hs
      · cases hs
        exact hnone habsent s
      · cases hs
  · split at hs
    · cases hs
      exact hnone hpassed s
    · split at hs
      · obtain ⟨new, hnew, hkeys⟩ := adds_record setId p st reach _ _ _ hs
        exact ⟨new, hnew, hkeys⟩
      · split at hs
        · cases enter with
          | none =>
            cases hs
            exact hnone hpassed s
          | some see => exact h see rfl { s with world := world } b s' hs
        · cases hs
          exact hnone hpassed s

theorem adds_names {below : Option (Str → Seeing σ Look)} {setId : Str} {reach : Nat}
    (h : ∀ see ∈ below, ∀ dir, Adds (see dir) (RecordsAt paths setId dir reach)) (dir name : Str) :
    Adds (seeVisit paths policy fs previous fullRehash [.ENOENT] setId (paths.join dir name)
      (below.map fun walk => walk (paths.join dir name))) (RecordsAt paths setId (paths.join dir name) reach) := by
  refine adds_visit (fun see hsee => ?_) _
  obtain ⟨walk, hwalk, rfl⟩ := Option.map_eq_some_iff.mp hsee
  exact h walk hwalk _

theorem adds_dir {below : Option (Str → Seeing σ Look)} {setId : Str} {reach : Nat}
    (h : ∀ see ∈ below, ∀ dir, Adds (see dir) (RecordsAt paths setId dir reach)) (dir : Str) :
    Adds (seeDir paths policy fs previous fullRehash setId dir below) (RecordsAt paths setId dir (reach + 1)) := by
  have hnone {look : Look} (hlook : ∀ chain, ¬look.Records chain) (s : Progress σ) :
      ∃ new, s.files = s.files ++ new ∧ ∀ k, k ∈ new.map fst ↔ RecordsAt paths setId dir (reach + 1) look k :=
    ⟨[], by simp, fun k => iff_of_false (by simp) (not_recordsAt hlook)⟩
  have hdenied : ∀ chain, ¬Look.denied.Records chain := fun chain => by cases chain <;> exact id
  have habsent : ∀ chain, ¬Look.absent.Records chain := fun chain => by cases chain <;> exact id
  intro s b s' hs
  rw [seeDir] at hs
  rcases hread : fs.readdir dir s.world with ⟨err | names, world⟩ <;> simp only [hread] at hs
  · split at hs
    · cases hs
      exact hnone hdenied s
    · split at hs
      · cases hs
        exact hnone habsent s
      · cases hs
  · obtain ⟨⟨sights, s''⟩, hsee, heq⟩ := exists_of_map_eq_ok hs
    cases heq
    obtain ⟨new, hnew, hkeys⟩ := adds_upTo (adds_names h dir) _ _ _ _ hsee
    exact ⟨new, hnew, fun k => (hkeys k).trans recordsAt_listed.symm⟩

theorem adds_walk (setId : Str) (recursive : Bool) (levels : Nat) (dir : Str) :
    Adds (seeWalk paths policy fs previous fullRehash setId recursive levels dir)
      (RecordsAt paths setId dir (if recursive then levels + 1 else 1)) := by
  have hone (dir : Str) : Adds (seeDir paths policy fs previous fullRehash setId dir none)
      (RecordsAt paths setId dir 1) :=
    adds_dir (by simp) dir
  induction levels generalizing dir with
  | zero => cases recursive <;> exact hone dir
  | succ levels ih =>
    cases recursive with
    | false => exact hone dir
    | true => exact adds_dir (by simpa using ih) dir

theorem adds_set (set : FileIntegritySet) : Adds (seeSet paths policy fs previous fullRehash set)
    (RecordsAt paths set.id set.path set.reach) := by
  have hreach : set.reach = if set.recursive then set.maxDepth - 1 + 1 else 1 := by
    rw [FileIntegritySet.reach]
    split <;> omega
  rw [hreach]
  exact adds_visit (by simpa using adds_walk _ _ _ _) _

end Adds

/-! ## Passes -/

theorem get_mapOf (files : List (Key × FileState)) (k : Key) :
    ((mapOf files).get k).isSome ↔ k ∈ files.map fst := by
  have hfold (m : Files) : ((files.foldl (fun m e => m.set e.1 e.2) m).get k).isSome ↔
      (m.get k).isSome ∨ k ∈ files.map fst := by
    induction files generalizing m with
    | nil => simp
    | cons e files ih =>
      rw [foldl_cons, ih, map_cons, mem_cons, ← or_assoc]
      refine or_congr_left ?_
      by_cases hk : k = e.1
      · simp [hk, get_set_self]
      · simp [hk, get_set_of_ne hk]
  simpa [mapOf] using hfold .empty

def previousOf (baseline : Files) (k : Key) : Option PreviousEntry :=
  (baseline.get k).map fun f => ⟨f.sha256, f.sizeBytes, f.mtimeMs⟩

section Pass

variable {σ : Type} (paths : Paths) (policy : Option FileIntegrityPolicy) (platform : Platform) (fs : FsLike σ)
  (world : σ) (m : Monitor) (now : Int)

def Monitor.scan : Scan :=
  scanFileIntegrity paths policy platform fs (previousOf m.baseline) (isDue m.lastFullRehashAt now) world

def Monitor.sights : Sights FileIntegritySet :=
  match policy with
  | none => ⟨[], []⟩
  | some policy =>
    match seeUpTo policy (seeSet paths policy fs (previousOf m.baseline) (isDue m.lastFullRehashAt now))
        (setsOf policy platform) ⟨[], 0, false, world⟩ with
    | .error _ => ⟨[], []⟩
    | .ok e => e.1

/-- What is removed is absent, or no longer covered. -/
def NeverInvents (d : Delta Key FileState) : Prop :=
  ∀ k, (d.removed.get k).isSome = true → (m.sights paths policy platform fs world now).Establishes paths k

/-- A file that was read, with another size or date than in the baseline, is changed exactly if its hash is, or if it
had none. -/
def ReportsChanges (d : Delta Key FileState) : Prop :=
  ∀ k p f, m.baseline.get k = some p → (m.scan paths policy platform fs world now).files.get k = some f →
    f.hashed = true → (p.sizeBytes ≠ f.sizeBytes ∨ p.mtimeMs ≠ f.mtimeMs) →
      ((d.changed.get k).isSome = true ↔ p.sha256 ≠ f.sha256 ∨ p.hashed ≠ f.hashed)

variable {paths policy platform fs world m now} {fingerprint : Str} {d : Delta Key FileState}

/-- A difference is sent of a scan that came to its end. -/
theorem delta_of_plan (h : m.plan (m.scan paths policy platform fs world now) fingerprint now = some (.delta d)) :
    (m.scan paths policy platform fs world now).scope = .collected ∧
      d = computeFileIntegrityDelta (m.scan paths policy platform fs world now).files m.baseline := by
  simp only [Monitor.plan] at h
  split at h
  · split at h <;> cases h
  · rename_i hscope
    refine ⟨not_not.mp hscope, ?_⟩
    split at h
    · cases h
    · split at h
      · exact (Update.delta.inj (Option.some.inj h)).symm
      · split at h <;> cases h

/-- The files of a scan that came to its end are those that are seen. -/
theorem get_files_of_collected (h : (m.scan paths policy platform fs world now).scope = .collected) (k : Key) :
    ((m.scan paths policy platform fs world now).files.get k).isSome ↔
      (m.sights paths policy platform fs world now).Records paths k := by
  rw [Monitor.scan, scanFileIntegrity] at h ⊢
  split at h
  · cases h
  · rename_i hplatform
    rw [if_neg hplatform]
    cases policy with
    | none => cases h
    | some policy =>
      cases henabled : policy.enabled with
      | false => simp [Option.filter, henabled, Scan.empty] at h
      | true =>
        simp only [Option.filter, henabled, if_true] at h ⊢
        split at h
        · cases h
        · rename_i hsets
          rw [if_neg hsets]
          rw [← erases_upTo (fun set => erases_set set) _ _] at h ⊢
          rw [Monitor.sights]
          cases hsee : seeUpTo policy (seeSet paths policy fs (previousOf m.baseline) (isDue m.lastFullRehashAt now))
              (setsOf policy platform) ⟨[], 0, false, world⟩ with
          | error err =>
            rw [hsee] at h
            cases h
          | ok e =>
            obtain ⟨new, hnew, hkeys⟩ := adds_upTo adds_set _ _ _ _ hsee
            have hmem : k ∈ e.2.files.map fst ↔ e.1.Records paths k := by
              rw [hnew, nil_append, hkeys]
              exact exists_congr fun e => and_congr_right fun _ => recordsAt_iff
            simpa [Except.map] using (get_mapOf e.2.files k).trans hmem

theorem get_removed {files baseline : Files} {k : Key} :
    ((computeFileIntegrityDelta files baseline).removed.get k).isSome ↔
      (baseline.get k).isSome ∧ ¬(files.get k).isSome := by
  rw [computeFileIntegrityDelta, diff, get_filter]
  cases baseline.get k <;> simp

theorem reportsChanges (hfiles : d = computeFileIntegrityDelta (m.scan paths policy platform fs world now).files
    m.baseline) : ReportsChanges paths policy platform fs world m now d := by
  intro k p f hp hf hhashed _
  rw [hfiles, computeFileIntegrityDelta, diff, get_filter, hf, hp]
  cases hprev : p.hashed <;> simp [contentOf, hhashed, hprev]

/-- A pass that sends a difference invents no deletion exactly if none of the files of the baseline lies at or below a
path that the scan could not read or did not come to, unless the file was read all the same. -/
theorem neverInvents_iff (m : Monitor) (fingerprint : Str)
    (h : m.plan (m.scan paths policy platform fs world now) fingerprint now = some (.delta d)) :
    NeverInvents paths policy platform fs world m now d ∧ ReportsChanges paths policy platform fs world m now d ↔
      ∀ k, (m.baseline.get k).isSome = true → (m.sights paths policy platform fs world now).Blocks paths k →
        (m.sights paths policy platform fs world now).Records paths k := by
  obtain ⟨hscope, hd⟩ := delta_of_plan h
  rw [and_iff_left (reportsChanges hd)]
  refine forall_congr' fun k => ?_
  rw [hd, get_removed, get_files_of_collected hscope, Sights.establishes_iff, and_imp]
  refine imp_congr_right fun _ => ⟨fun h hblocks => ?_, fun h hrecords => ?_⟩
  · by_contra hrecords
    exact (h hrecords).1 hblocks
  · exact ⟨fun hblocks => hrecords (h hblocks), hrecords⟩

end Pass

/-! ## A file that is busy -/

def samplePolicy : FileIntegrityPolicy where
  enabled := true
  sets := [⟨text "a", .any, text "/x", false, 1⟩]
  maxFilesPerDevice := 5000
  maxFileBytes := 1024

def samplePaths : Paths where
  join dir name := dir ++ text "/" ++ name
  toISOString _ := text "2026-01-01T00:00:00.000Z"

def sampleFs (sha : Except FsError Str) : FsLike Unit where
  lstat p w :=
    (if p = text "/x" then .ok ⟨true, false, false, 2, 1⟩ else .error ⟨.ENOENT, text "no such file or directory"⟩, w)
  readdir _ w := (.error ⟨.ENOTDIR, text "not a directory"⟩, w)
  sha256 _ w := (sha, w)

def sampleMonitor : Monitor where
  baseline := empty.set (text "a", text "/x") ⟨some (text "00"), true, 1, text "2025-01-01T00:00:00.000Z", 0⟩
  lastFullRehashAt := 1
  lastSentAt := 1
  lastScope := some .collected
  setsFingerprint := some (text "f")

/-- The scan of the sample. -/
abbrev sightScan (sha : Except FsError Str) : Scan :=
  sampleMonitor.scan samplePaths (some samplePolicy) .linux (sampleFs sha) () 2

/-- The difference of the sample. -/
abbrev sampleDelta (sha : Except FsError Str) : Delta Key FileState :=
  computeFileIntegrityDelta (sightScan sha).files sampleMonitor.baseline

theorem neverInvents_sample :
    sampleMonitor.plan (sightScan (.ok (text "11"))) (text "f") 2 = some (.delta (sampleDelta (.ok (text "11")))) ∧
      (NeverInvents samplePaths (some samplePolicy) .linux (sampleFs (.ok (text "11"))) () sampleMonitor 2
          (sampleDelta (.ok (text "11"))) ∧
        ReportsChanges samplePaths (some samplePolicy) .linux (sampleFs (.ok (text "11"))) () sampleMonitor 2
          (sampleDelta (.ok (text "11"))) ↔ ∀ k, (sampleMonitor.baseline.get k).isSome = true →
        (sampleMonitor.sights samplePaths (some samplePolicy) .linux (sampleFs (.ok (text "11"))) () 2).Blocks
          samplePaths k →
        (sampleMonitor.sights samplePaths (some samplePolicy) .linux (sampleFs (.ok (text "11"))) () 2).Records
          samplePaths k) :=
  ⟨rfl, neverInvents_iff sampleMonitor (text "f") rfl⟩

/-- A file that is busy when it is to be read is told to be removed. -/
theorem not_neverInvents_busy : sampleMonitor.plan (sightScan (.error ⟨.EBUSY, text "resource busy"⟩)) (text "f") 2 =
        some (.delta (sampleDelta (.error ⟨.EBUSY, text "resource busy"⟩))) ∧
      ¬NeverInvents samplePaths (some samplePolicy) .linux (sampleFs (.error ⟨.EBUSY, text "resource busy"⟩)) ()
        sampleMonitor 2 (sampleDelta (.error ⟨.EBUSY, text "resource busy"⟩)) := by
  refine ⟨rfl, fun h => ?_⟩
  obtain ⟨-, hseen⟩ := h (text "a", text "/x") (by decide)
  exact hseen (⟨text "a", .any, text "/x", false, 1⟩, .denied) (mem_singleton.mpr rfl) []
    ⟨rfl, Nat.zero_le _, rfl⟩

end Fim
