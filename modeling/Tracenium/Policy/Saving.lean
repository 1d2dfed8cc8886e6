-- SUMMARY: Overlapping saves of the policy store, and when they leave the file and the memory in agreement.
import Tracenium.Policy.Store
import Tracenium.Lib.Locks

/-!
`save` of `src/core/policy-store.ts` between its `await`s. Every call makes the directory, writes
the temporary file, renames it onto the policy file and sets `current`; a call that fails to write
or to rename removes the temporary file. All calls share the temporary file.
-/

open Utf16 List

namespace Policy.Saving

open Slots

/-- Why a call failed: an operation of its own failed, or its temporary file was gone. -/
inductive Failure
  | io
  | noEntry
  deriving DecidableEq

/-- What a call waits for. `renamed` is the time between the rename and the assignment. -/
inductive Phase
  | mkdir
  | writing
  | renaming
  | renamed
  | unlinking (failure : Failure)
  | resolved
  | rejected (failure : Failure)
  deriving DecidableEq

structure Save where
  record : StoredPolicy
  phase : Phase

/-- What is in a file: a record, or what a write that failed left there. -/
inductive Content
  | torn
  | complete (record : StoredPolicy)

structure Store where
  tmp : Option Content
  file : Option Content
  current : Option StoredPolicy
  saves : List Save

/-- How a write goes: it cannot open the file, it fails after that, or it is done. -/
inductive Written
  | notOpened
  | torn
  | done

/-- `ok` tells whether the operation itself succeeds. -/
inductive Event
  | save (record : StoredPolicy)
  | mkdir (k : Nat) (ok : Bool)
  | write (k : Nat) (result : Written)
  | rename (k : Nat) (ok : Bool)
  | assign (k : Nat)
  | unlink (k : Nat) (ok : Bool)

def Store.advance (s : Store) (k : Nat) (c : Save) (phase : Phase) : Store :=
  { s with saves := s.saves.set k { c with phase := phase } }

def onWrite (s : Store) (k : Nat) (c : Save) : Written → Store
  | .notOpened => s.advance k c (.unlinking .io)
  | .torn => { s with tmp := some .torn }.advance k c (.unlinking .io)
  | .done => { s with tmp := some (.complete c.record) }.advance k c .renaming

def onRename (s : Store) (k : Nat) (c : Save) (ok : Bool) : Store :=
  if ok then
    match s.tmp with
    | some content => { s with tmp := none, file := some content }.advance k c .renamed
    | none => s.advance k c (.unlinking .noEntry)
  else s.advance k c (.unlinking .io)

def onUnlink (s : Store) (k : Nat) (c : Save) (failure : Failure) (ok : Bool) : Store :=
  { s with tmp := if ok then none else s.tmp }.advance k c (.rejected failure)

def step (s : Store) : Event → Store
  | .save record => { s with saves := s.saves ++ [⟨record, .mkdir⟩] }
  | .mkdir k ok =>
    match s.saves[k]? with
    | some ⟨record, .mkdir⟩ =>
      s.advance k ⟨record, .mkdir⟩ (if ok then .writing else .rejected .io)
    | _ => s
  | .write k result =>
    match s.saves[k]? with
    | some ⟨record, .writing⟩ => onWrite s k ⟨record, .writing⟩ result
    | _ => s
  | .rename k ok =>
    match s.saves[k]? with
    | some ⟨record, .renaming⟩ => onRename s k ⟨record, .renaming⟩ ok
    | _ => s
  | .assign k =>
    match s.saves[k]? with
    | some ⟨record, .renamed⟩ =>
      { s with current := some record }.advance k ⟨record, .renamed⟩ .resolved
    | _ => s
  | .unlink k ok =>
    match s.saves[k]? with
    | some ⟨record, .unlinking failure⟩ => onUnlink s k ⟨record, .unlinking failure⟩ failure ok
    | _ => s

/-- A store that `load` read, with a temporary file that an earlier process may have left. -/
def machine (stored : Option StoredPolicy) (leftover : Option Content) : Machine Store Event where
  init := ⟨leftover, stored.map .complete, stored, []⟩
  step := step

/-! ## Consistency -/

def Phase.isSettled : Phase → Bool
  | .resolved => true
  | .rejected _ => true
  | _ => false

/-- The policy file and the memory hold the record of a call that resolved, or what was stored
before if none did; and no call failed because of another. -/
structure Agrees (stored : Option StoredPolicy) (s : Store) : Prop where
  record : (∃ c ∈ s.saves, c.phase = .resolved ∧ s.file = some (.complete c.record) ∧ s.current = some c.record) ∨
    ((∀ c ∈ s.saves, c.phase ≠ .resolved) ∧ s.file = stored.map .complete ∧ s.current = stored)
  own : ∀ c ∈ s.saves, c.phase ≠ .rejected .noEntry

/-- Once all calls have settled, the store agrees with itself. -/
def Consistent (stored : Option StoredPolicy) (s : Store) : Prop :=
  (∀ c ∈ s.saves, c.phase.isSettled = true) → Agrees stored s

/-- No call writes or removes the temporary file while another is between its write and its rename,
and a call assigns its record while the policy file still has it. -/
def Alone (s : Store) : Event → Prop
  | .write k .torn => (∃ record, s.saves[k]? = some ⟨record, .writing⟩) → ∀ c ∈ s.saves, c.phase ≠ .renaming
  | .write k .done => (∃ record, s.saves[k]? = some ⟨record, .writing⟩) → ∀ c ∈ s.saves, c.phase ≠ .renaming
  | .unlink k true => (∃ record failure, s.saves[k]? = some ⟨record, .unlinking failure⟩) →
      ∀ c ∈ s.saves, c.phase ≠ .renaming
  | .assign k => ∀ record, s.saves[k]? = some ⟨record, .renamed⟩ → s.file = some (.complete record)
  | _ => True

/-- The record that the policy file has is the one of a call that is about to be assigned, or the
one that was. -/
structure Invariant (stored : Option StoredPolicy) (s : Store) : Prop where
  temporary : ∀ (k : Nat) (c : Save), s.saves[k]? = some c → c.phase = .renaming → s.tmp = some (.complete c.record)
  single : ∀ (j k : Nat) (c d : Save), s.saves[j]? = some c → s.saves[k]? = some d →
    c.phase = .renaming → d.phase = .renaming → j = k
  own : ∀ c ∈ s.saves, c.phase ≠ .rejected .noEntry ∧ c.phase ≠ .unlinking .noEntry
  record : (∃ c ∈ s.saves, s.file = some (.complete c.record) ∧
      (c.phase = .renamed ∨ c.phase = .resolved ∧ s.current = some c.record)) ∨
    ((∀ c ∈ s.saves, c.phase ≠ .renamed ∧ c.phase ≠ .resolved) ∧ s.file = stored.map .complete ∧ s.current = stored)

/-! ## Steps -/

section Steps

variable {stored : Option StoredPolicy} {s : Store} {k : Nat} {c : Save}

theorem mem_set_of_ne {α : Type*} {l : List α} {x y z : α} (hk : l[k]? = some x) (hy : y ∈ l)
    (hne : y ≠ x) : y ∈ l.set k z := by
  obtain ⟨j, hj⟩ := mem_iff_getElem?.mp hy
  have hjk : j ≠ k := by
    rintro rfl
    exact hne (Option.some.inj (hj.symm.trans hk))
  exact mem_iff_getElem?.mpr ⟨j, getElem?_set_of_ne hjk hj⟩

/-- A call goes to another phase. What is left to show is what becomes of the files. -/
theorem Invariant.move (h : Invariant stored s) (phase : Phase) {s' : Store}
    (hsaves : s'.saves = s.saves.set k { c with phase := phase })
    (htmp : ∀ (j : Nat) (d : Save), s'.saves[j]? = some d → d.phase = .renaming → s'.tmp = some (.complete d.record))
    (hsingle : phase = .renaming → ∀ d ∈ s.saves, d.phase ≠ .renaming)
    (hown : phase ≠ .rejected .noEntry ∧ phase ≠ .unlinking .noEntry)
    (hrecord : (∃ d ∈ s'.saves, s'.file = some (.complete d.record) ∧
        (d.phase = .renamed ∨ d.phase = .resolved ∧ s'.current = some d.record)) ∨
      ((∀ d ∈ s'.saves, d.phase ≠ .renamed ∧ d.phase ≠ .resolved) ∧
        s'.file = stored.map .complete ∧ s'.current = stored)) : Invariant stored s' where
  temporary := htmp
  single := by
    intro i j d e hi hj hd he
    rw [hsaves] at hi hj
    rcases of_getElem?_set hi with ⟨rfl, rfl⟩ | ⟨-, hi'⟩ <;>
      rcases of_getElem?_set hj with ⟨rfl, rfl⟩ | ⟨-, hj'⟩
    · rfl
    · exact absurd he (hsingle hd e (mem_of_getElem? hj'))
    · exact absurd hd (hsingle he d (mem_of_getElem? hi'))
    · exact h.single i j d e hi' hj' hd he
  own := by
    intro d hd
    rw [hsaves] at hd
    rcases mem_or_eq_of_mem_set hd with hd | rfl
    · exact h.own d hd
    · exact hown
  record := hrecord

/-- A call that is not about to be assigned goes on, and leaves the policy file alone. -/
theorem Invariant.keep_record (h : Invariant stored s) (hk : s.saves[k]? = some c)
    (hc : c.phase ≠ .renamed ∧ c.phase ≠ .resolved) {phase : Phase}
    (hphase : phase ≠ .renamed ∧ phase ≠ .resolved) {s' : Store}
    (hsaves : s'.saves = s.saves.set k { c with phase := phase }) (hfile : s'.file = s.file)
    (hcurrent : s'.current = s.current) :
    (∃ d ∈ s'.saves, s'.file = some (.complete d.record) ∧
        (d.phase = .renamed ∨ d.phase = .resolved ∧ s'.current = some d.record)) ∨
      ((∀ d ∈ s'.saves, d.phase ≠ .renamed ∧ d.phase ≠ .resolved) ∧
        s'.file = stored.map .complete ∧ s'.current = stored) := by
  rw [hsaves, hfile, hcurrent]
  rcases h.record with ⟨d, hd, hrecord, hassigned⟩ | ⟨hnone, hunchanged⟩
  · refine .inl ⟨d, mem_set_of_ne hk hd ?_, hrecord, hassigned⟩
    rintro rfl
    rcases hassigned with hrenamed | ⟨hresolved, -⟩
    · exact hc.1 hrenamed
    · exact hc.2 hresolved
  · refine .inr ⟨fun d hd => ?_, hunchanged⟩
    rcases mem_or_eq_of_mem_set hd with hd | rfl
    · exact hnone d hd
    · exact hphase

/-- The temporary file of another call is still there. -/
theorem Invariant.keep_tmp (h : Invariant stored s) {phase : Phase} (hphase : phase ≠ .renaming)
    {s' : Store} (hsaves : s'.saves = s.saves.set k { c with phase := phase })
    (htmp : s'.tmp = s.tmp ∨ ∀ d ∈ s.saves, d.phase ≠ .renaming) :
    ∀ (j : Nat) (d : Save), s'.saves[j]? = some d → d.phase = .renaming →
      s'.tmp = some (.complete d.record) := by
  intro j d hj hd
  rw [hsaves] at hj
  rcases of_getElem?_set hj with ⟨-, rfl⟩ | ⟨-, hj⟩
  · exact absurd hd hphase
  · rcases htmp with htmp | hnone
    · rw [htmp]
      exact h.temporary j d hj hd
    · exact absurd hd (hnone d (mem_of_getElem? hj))

/-- A call goes on that has not renamed its file, and touches no file that another one needs. -/
theorem Invariant.advance (h : Invariant stored s) (hk : s.saves[k]? = some c)
    (hc : c.phase ≠ .renamed ∧ c.phase ≠ .resolved) {phase : Phase}
    (hphase : phase ≠ .renamed ∧ phase ≠ .resolved) (hrenaming : phase ≠ .renaming)
    (hown : phase ≠ .rejected .noEntry ∧ phase ≠ .unlinking .noEntry) {tmp : Option Content}
    (htmp : tmp = s.tmp ∨ ∀ d ∈ s.saves, d.phase ≠ .renaming) :
    Invariant stored ({ s with tmp := tmp }.advance k c phase) := by
  apply h.move (k := k) (c := c) phase rfl
  · exact h.keep_tmp hrenaming rfl htmp
  · exact fun heq => absurd heq hrenaming
  · exact hown
  · exact h.keep_record hk hc hphase rfl rfl rfl

theorem Invariant.onWrite (h : Invariant stored s) {record : StoredPolicy}
    (hk : s.saves[k]? = some ⟨record, .writing⟩) {result : Written} (halone : Alone s (.write k result)) :
    Invariant stored (onWrite s k ⟨record, .writing⟩ result) := by
  have hc : Phase.writing ≠ .renamed ∧ Phase.writing ≠ .resolved := ⟨Phase.noConfusion, Phase.noConfusion⟩
  have hio : Phase.unlinking .io ≠ .renamed ∧ Phase.unlinking .io ≠ .resolved :=
    ⟨Phase.noConfusion, Phase.noConfusion⟩
  cases result with
  | notOpened =>
    exact h.advance hk hc hio Phase.noConfusion ⟨Phase.noConfusion, by decide⟩ (.inl rfl)
  | torn =>
    exact h.advance hk hc hio Phase.noConfusion ⟨Phase.noConfusion, by decide⟩
      (.inr (halone ⟨record, hk⟩))
  | done =>
    apply h.move (k := k) (c := ⟨record, .writing⟩) .renaming rfl
    · intro j d hj hd
      rcases of_getElem?_set hj with ⟨-, rfl⟩ | ⟨-, hj⟩
      · rfl
      · exact absurd hd (halone ⟨record, hk⟩ d (mem_of_getElem? hj))
    · exact fun _ => halone ⟨record, hk⟩
    · exact ⟨Phase.noConfusion, Phase.noConfusion⟩
    · exact h.keep_record hk hc ⟨Phase.noConfusion, Phase.noConfusion⟩ rfl rfl rfl

/-- A rename finds the temporary file that its call wrote. -/
theorem Invariant.onRename (h : Invariant stored s) {record : StoredPolicy}
    (hk : s.saves[k]? = some ⟨record, .renaming⟩) (ok : Bool) :
    Invariant stored (onRename s k ⟨record, .renaming⟩ ok) := by
  cases ok with
  | false =>
    exact h.advance hk ⟨Phase.noConfusion, Phase.noConfusion⟩
      ⟨Phase.noConfusion, Phase.noConfusion⟩ Phase.noConfusion
      ⟨Phase.noConfusion, by decide⟩ (.inl rfl)
  | true =>
    rw [Saving.onRename, if_pos rfl, h.temporary k _ hk rfl]
    apply h.move (k := k) (c := ⟨record, .renaming⟩) .renamed rfl
    · intro j d hj hd
      rcases of_getElem?_set hj with ⟨-, rfl⟩ | ⟨hne, hj⟩
      · cases hd
      · exact absurd (h.single j k d _ hj hk hd rfl) hne
    · exact Phase.noConfusion
    · exact ⟨Phase.noConfusion, Phase.noConfusion⟩
    · have hself := getElem?_set_self (x := Save.mk record .renamed) hk
      exact .inl ⟨_, mem_of_getElem? hself, rfl, .inl rfl⟩

theorem Invariant.assign (h : Invariant stored s) {record : StoredPolicy}
    (hk : s.saves[k]? = some ⟨record, .renamed⟩) (hfile : s.file = some (.complete record)) :
    Invariant stored ({ s with current := some record }.advance k ⟨record, .renamed⟩ .resolved) := by
  apply h.move (k := k) (c := ⟨record, .renamed⟩) .resolved rfl
  · exact h.keep_tmp Phase.noConfusion rfl (.inl rfl)
  · exact Phase.noConfusion
  · exact ⟨Phase.noConfusion, Phase.noConfusion⟩
  · have hself := getElem?_set_self (x := Save.mk record .resolved) hk
    exact .inl ⟨_, mem_of_getElem? hself, hfile, .inr ⟨rfl, rfl⟩⟩

theorem Invariant.save (h : Invariant stored s) (record : StoredPolicy) :
    Invariant stored { s with saves := s.saves ++ [⟨record, .mkdir⟩] } where
  temporary := by
    intro j d hj hd
    rcases of_getElem?_concat hj with hj | ⟨-, rfl⟩
    · exact h.temporary j d hj hd
    · cases hd
  single := by
    intro i j d e hi hj hd he
    rcases of_getElem?_concat hi with hi | ⟨-, rfl⟩
    · rcases of_getElem?_concat hj with hj | ⟨-, rfl⟩
      · exact h.single i j d e hi hj hd he
      · cases he
    · cases hd
  own := by
    intro d hd
    rcases mem_append.mp hd with hd | hd
    · exact h.own d hd
    · rw [mem_singleton.mp hd]
      exact ⟨Phase.noConfusion, Phase.noConfusion⟩
  record := by
    rcases h.record with ⟨d, hd, hrecord⟩ | ⟨hnone, hunchanged⟩
    · exact .inl ⟨d, mem_append_left _ hd, hrecord⟩
    · refine .inr ⟨fun d hd => ?_, hunchanged⟩
      rcases mem_append.mp hd with hd | hd
      · exact hnone d hd
      · rw [mem_singleton.mp hd]
        exact ⟨Phase.noConfusion, Phase.noConfusion⟩

theorem Invariant.step (h : Invariant stored s) {e : Event} (halone : Alone s e) : Invariant stored (step s e) := by
  cases e with
  | save record => exact h.save record
  | mkdir k ok =>
    simp only [Saving.step]
    split
    · rename_i record hk
      refine h.advance hk ⟨Phase.noConfusion, Phase.noConfusion⟩ ?_ ?_ ?_ (.inl rfl)
      · cases ok <;> exact ⟨Phase.noConfusion, Phase.noConfusion⟩
      · cases ok <;> exact Phase.noConfusion
      · cases ok <;> exact ⟨by decide, Phase.noConfusion⟩
    · exact h
  | write k result =>
    simp only [Saving.step]
    split
    · exact h.onWrite ‹_› halone
    · exact h
  | rename k ok =>
    simp only [Saving.step]
    split
    · exact h.onRename ‹_› ok
    · exact h
  | assign k =>
    simp only [Saving.step]
    split
    · exact h.assign ‹_› (halone _ ‹_›)
    · exact h
  | unlink k ok =>
    simp only [Saving.step]
    split
    · rename_i record failure hk
      have hfailure : Phase.rejected failure ≠ .rejected .noEntry := by
        intro heq
        cases heq
        exact (h.own _ (mem_of_getElem? hk)).2 rfl
      refine h.advance hk ⟨Phase.noConfusion, Phase.noConfusion⟩
        ⟨Phase.noConfusion, Phase.noConfusion⟩ Phase.noConfusion
        ⟨hfailure, Phase.noConfusion⟩ ?_
      cases ok with
      | true => exact .inr (halone ⟨record, failure, hk⟩)
      | false => exact .inl rfl
    · exact h

/-- Once all calls have settled, none is about to be assigned. -/
theorem Invariant.consistent (h : Invariant stored s) : Consistent stored s := by
  intro hsettled
  refine ⟨?_, fun c hc => (h.own c hc).1⟩
  rcases h.record with ⟨c, hc, hfile, hrenamed | ⟨hresolved, hcurrent⟩⟩ | ⟨hnone, hunchanged⟩
  · have hdone := hsettled c hc
    rw [hrenamed] at hdone
    cases hdone
  · exact .inl ⟨c, hc, hresolved, hfile, hcurrent⟩
  · exact .inr ⟨fun c hc => (hnone c hc).2, hunchanged⟩

end Steps

/-- In every run whose calls leave each other alone, the policy file and the memory agree whenever
all calls have settled. -/
theorem always_consistent (stored : Option StoredPolicy) (leftover : Option Content)
    (tr : List Event) (h : (machine stored leftover).Guarded Alone tr) :
    (machine stored leftover).Always (Consistent stored) tr := by
  have hinit : Invariant stored (machine stored leftover).init := by
    constructor
    · intro j c hj
      cases hj
    · intro i j c d hi
      cases hi
    · intro c hc
      cases hc
    · refine .inr ⟨fun c hc => ?_, rfl, rfl⟩
      cases hc
  have hinv := h.always hinit fun s e hs halone => hs.step halone
  exact hinv.mono fun s hs => hs.consistent

/-! ## Runs -/

def recordOf (policyVersion : Str) : StoredPolicy := ⟨policyVersion, [], .obj [], 0⟩

def sequential : List Event :=
  [.save (recordOf (text "1")), .mkdir 0 true, .write 0 .done, .rename 0 true, .assign 0,
    .save (recordOf (text "2")), .mkdir 1 true, .write 1 .done, .rename 1 true, .assign 1]

theorem always_consistent_sequential : (machine none none).Always (Consistent none) sequential := by
  apply always_consistent
  rw [Machine.guarded_iff_guardedFrom]
  refine ⟨trivial, trivial, fun _ => by decide, trivial, ?_, trivial, trivial, fun _ => by decide,
    trivial, ?_, trivial⟩
  · intro record hk
    cases hk
    rfl
  · intro record hk
    cases hk
    rfl

def overlapping : List Event :=
  [.save (recordOf (text "1")), .save (recordOf (text "2")), .mkdir 0 true, .mkdir 1 true,
    .write 0 .done, .write 1 .done, .rename 0 true, .rename 1 true, .assign 0, .unlink 1 true]

/-- The first call resolves with the record of the second on disk, and the second one rejects. -/
theorem not_always_consistent_overlapping :
    ((machine none none).run overlapping).file = some (.complete (recordOf (text "2"))) ∧
      ((machine none none).run overlapping).current = some (recordOf (text "1")) ∧
      ((machine none none).run overlapping).saves.map Save.phase = [.resolved, .rejected .noEntry] ∧
      ¬ (machine none none).Always (Consistent none) overlapping := by
  have hphases : ((machine none none).run overlapping).saves.map Save.phase = [.resolved, .rejected .noEntry] := rfl
  refine ⟨rfl, rfl, hphases, fun halways => ?_⟩
  have hsettled : ∀ c ∈ ((machine none none).run overlapping).saves, c.phase.isSettled = true := by
    decide
  have hmem : Phase.rejected .noEntry ∈
      ((machine none none).run overlapping).saves.map Save.phase := by
    decide
  obtain ⟨c, hc, hrejected⟩ := mem_map.mp hmem
  exact (halways.last hsettled).own c hc hrejected

end Policy.Saving
