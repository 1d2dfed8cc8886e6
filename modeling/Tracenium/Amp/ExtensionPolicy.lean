-- SUMMARY: The extension policy of one registry list, and when the agent knows which entries of the list it put there.
import Tracenium.Lib.Machine
import Tracenium.Lib.Utf16
import Mathlib.Data.List.Dedup

/-!
`planPolicyList` of `src/domain/extension-policy.ts`, the table of
`src/domain/extension-policy-owned-repo.ts` and the pass of
`src/plugins/amp/providers/extension-policy-enforcer.ts` over one list, against the service's
`BrowserPolicyList`. A pass waits for the service twice, and others may write the list meanwhile.
-/

open Utf16 List

namespace Amp.ExtensionPolicy

/-! ## The plan -/

structure PolicyListPlan where
  next : List Str
  changed : Bool
  added : List Str
  removed : List Str
  owned : List Str
  foreign : List Str

def keepCurrent (desired owned : List Str) (current : List Str) : List Str × List Str :=
  current.foldl (fun (next, removed) id =>
    if next.contains id then (next, removed)
    else if owned.contains id && !desired.contains id then (next, removed ++ [id])
    else (next ++ [id], removed)) ([], [])

def addDesired (kept : List Str) (desired : List Str) : List Str × List Str :=
  desired.foldl (fun (next, added) id =>
    if next.contains id then (next, added) else (next ++ [id], added ++ [id])) (kept, [])

def planPolicyList (current desired owned : List Str) : PolicyListPlan :=
  let (kept, removed) := keepCurrent desired owned current
  let (next, added) := addDesired kept desired
  let newOwned := desired.filter fun id =>
    next.contains id && (owned.contains id || added.contains id)
  { next := next
    changed := next ≠ current
    added := added
    removed := removed
    owned := newOwned
    foreign := next.filter fun id => !newOwned.contains id }

/-- `saveOwnedEntries`: what is there already keeps its place. -/
def saveOwnedEntries (existing owned : List Str) : List Str :=
  existing.filter owned.contains ++ (owned.filter fun id => !existing.contains id).dedup

/-! ## Passes -/

inductive PolicyListStatus
  | written
  | unchanged
  | conflict
  | error
  deriving DecidableEq

structure PolicyListResult where
  status : PolicyListStatus
  present : List Str
  foreign : Nat

/-- A request to write the list, if it is still as it was read. -/
structure WriteRequest where
  expected : List Str
  entries : List Str

inductive Stage
  | idle
  | reading (desired owned : List Str)
  | writing (desired : List Str) (plan : PolicyListPlan) (request : WriteRequest)
  | saving (desired : List Str) (plan : PolicyListPlan) (result : PolicyListResult)

/-- How a pass ended. A pass that had nothing to do has no result. -/
structure Ending where
  desired : List Str
  result : Option PolicyListResult

def Ending.isComplete (e : Ending) : Bool :=
  match e.result with
  | none => true
  | some result => result.status == .written || result.status == .unchanged

structure System where
  /-- The list in the registry. -/
  list : List Str
  /-- The table of what the agent put there. -/
  owned : List Str
  stage : Stage
  /-- Requests whose answers nobody waits for any more. -/
  inFlight : List WriteRequest
  /-- The pass that just ended. -/
  ended : Option Ending
  /-- What passes of the agent put there, and what others wrote. -/
  byAgent : List Str
  byOthers : List Str
  /-- What requests of the agent removed that it had never put there. -/
  robbed : List Str

section System

variable (s : System)

/-- `BrowserPolicyList.HandleWrite`: whether the list is still the expected one. -/
def WriteRequest.applies (request : WriteRequest) : Bool := s.list = request.expected

def WriteRequest.apply (request : WriteRequest) : System :=
  { s with
    list := request.entries
    byAgent := s.byAgent ++ request.entries.filter fun id => !s.list.contains id
    robbed := s.robbed ++ s.list.filter fun id =>
      !request.entries.contains id && !s.byAgent.contains id }

def finish (desired : List Str) (result : Option PolicyListResult) : System :=
  { s with stage := .idle, ended := some ⟨desired, result⟩ }

def fail (desired : List Str) : System := finish s desired (some ⟨.error, [], 0⟩)

/-- A pass loads what is owned. If there is nothing to do it does not even read the list. -/
def beginPass (desired : List Str) : System :=
  match s.stage with
  | .idle =>
    if desired = [] ∧ s.owned = [] then finish s desired none
    else { s with stage := .reading desired s.owned }
  | _ => s

def readList (succeeds : Bool) : System :=
  match s.stage with
  | .reading desired owned =>
    if !succeeds then fail s desired
    else
      let plan := planPolicyList s.list desired owned
      if !plan.changed then
        { s with
          stage := .saving desired plan
            ⟨.unchanged, desired.filter plan.next.contains, plan.foreign.length⟩ }
      else { s with stage := .writing desired plan ⟨s.list, plan.next⟩ }
  | _ => s

/-- What becomes of a request: it is answered, or refused without effect, or its answer is lost and
it is carried out later, if ever. -/
inductive Outcome
  | answered
  | refused
  | lost

def writeList (outcome : Outcome) : System :=
  match s.stage with
  | .writing desired plan request =>
    match outcome with
    | .refused => fail s desired
    | .lost => { fail s desired with inFlight := s.inFlight ++ [request] }
    | .answered =>
      if !request.applies s then
        finish s desired (some ⟨.conflict, [], plan.foreign.length⟩)
      else
        { request.apply s with
          stage := .saving desired plan
            ⟨.written, desired.filter request.entries.contains, plan.foreign.length⟩ }
  | _ => s

def saveOwned (succeeds : Bool) : System :=
  match s.stage with
  | .saving desired plan result =>
    if !succeeds then fail s desired
    else { finish s desired (some result) with owned := saveOwnedEntries s.owned plan.owned }
  | _ => s

/-- A request that nobody waits for is carried out, if the list is as it expects it. -/
def land (i : Nat) : System :=
  match s.inFlight[i]? with
  | none => s
  | some request =>
    let s := { s with inFlight := s.inFlight.eraseIdx i }
    if request.applies s then request.apply s else s

inductive Event
  | beginPass (desired : List Str)
  | readList (succeeds : Bool)
  | writeList (outcome : Outcome)
  | saveOwned (succeeds : Bool)
  | crash
  | land (i : Nat)
  | edit (list : List Str)

/-- Someone else writes the list. Only what it has more often than before was written. -/
def edit (list : List Str) : System :=
  { s with
    list := list
    byOthers := s.byOthers ++ list.filter fun id => s.list.count id < list.count id }

def step (e : Event) : System :=
  let s := { s with ended := none }
  match e with
  | .beginPass desired => beginPass s desired
  | .readList succeeds => readList s succeeds
  | .writeList outcome => writeList s outcome
  | .saveOwned succeeds => saveOwned s succeeds
  | .crash => { s with stage := .idle }
  | .land i => land s i
  | .edit list => edit s list

end System

def machine (list : List Str) : Machine System Event where
  init := ⟨list, [], .idle, [], none, [], [], []⟩
  step := step

end Amp.ExtensionPolicy

/-!
# Ownership

What the agent removes it once put there. That it removes everything it put there takes more: what
a write added has to be in the table before the pass is over, and a request that nobody waits for
must not add anything.
-/

namespace Amp.ExtensionPolicy

/-- The agent removes only what it put there, and a pass that is through leaves nothing of it that is
not desired, unless someone else wrote it, too. -/
structure Owns (s : System) : Prop where
  foreign : s.robbed = []
  removed : ∀ e, s.ended = some e → e.isComplete = true → ∀ id ∈ s.list, id ∉ e.desired →
    id ∈ s.byAgent → id ∈ s.byOthers

def AddsUnsaved (s : System) : Prop :=
  ∃ desired plan result, s.stage = .saving desired plan result ∧ plan.added ≠ []

/-- Whatever is added to the list is saved, or was not added by a pass that is over. -/
def Records (s : System) : Event → Prop
  | .saveOwned succeeds => succeeds = true ∨ ¬ AddsUnsaved s
  | .crash => ¬ AddsUnsaved s
  | .land i => ∀ request, s.inFlight[i]? = some request → request.applies s = true →
      ∀ id ∈ request.entries, id ∈ request.expected
  | _ => True

/-! ## The plan -/

section Plan

variable {current desired owned : List Str} {id : Str}

theorem mem_foldl_keep (acc : List Str × List Str) : id ∈ (current.foldl (fun (next, removed) id =>
        if next.contains id then (next, removed)
        else if owned.contains id && !desired.contains id then (next, removed ++ [id])
        else (next ++ [id], removed)) acc).1 ↔ id ∈ acc.1 ∨ (id ∈ current ∧ (id ∈ owned → id ∈ desired)) := by
  induction current generalizing acc with
  | nil => simp
  | cons head tail ih =>
    obtain ⟨next, removed⟩ := acc
    rw [foldl_cons, ih]
    dsimp only
    by_cases hnext : next.contains head
    · -- a duplicate
      grind
    · rw [if_neg hnext]
      by_cases hgoes : (owned.contains head && !desired.contains head)
      · -- owned and not desired any more
        grind
      · rw [if_neg hgoes]
        grind

/-- What stays of the list: all but what is owned and not desired any more. -/
theorem mem_keepCurrent : id ∈ (keepCurrent desired owned current).1 ↔
    id ∈ current ∧ (id ∈ owned → id ∈ desired) := by
  unfold keepCurrent
  rw [mem_foldl_keep]
  simp only [not_mem_nil, false_or]

theorem mem_foldl_add (acc : List Str × List Str) : (id ∈ (desired.foldl (fun (next, added) id =>
        if next.contains id then (next, added) else (next ++ [id], added ++ [id])) acc).1 ↔
      id ∈ acc.1 ∨ id ∈ desired) ∧ (id ∈ (desired.foldl (fun (next, added) id =>
        if next.contains id then (next, added) else (next ++ [id], added ++ [id])) acc).2 ↔
      id ∈ acc.2 ∨ (id ∈ desired ∧ id ∉ acc.1)) := by
  induction desired generalizing acc with
  | nil => simp
  | cons head tail ih =>
    obtain ⟨next, added⟩ := acc
    rw [foldl_cons]
    obtain ⟨hnext, hadded⟩ := ih (if next.contains head then (next, added)
      else (next ++ [head], added ++ [head]))
    dsimp only
    by_cases hmem : next.contains head
    · rw [if_pos hmem]
      grind
    · rw [if_neg hmem]
      grind

theorem mem_next : id ∈ (planPolicyList current desired owned).next ↔
    (id ∈ current ∧ (id ∈ owned → id ∈ desired)) ∨ id ∈ desired := by
  unfold planPolicyList addDesired
  rw [(mem_foldl_add _).1, mem_keepCurrent]

theorem mem_added : id ∈ (planPolicyList current desired owned).added ↔ id ∈ desired ∧ id ∉ current := by
  unfold planPolicyList addDesired
  rw [(mem_foldl_add _).2, mem_keepCurrent]
  grind

/-- What is owned after a plan: of the desired entries those that were owned or are added. -/
theorem mem_plan_owned : id ∈ (planPolicyList current desired owned).owned ↔
    id ∈ desired ∧ (id ∈ owned ∨ id ∈ (planPolicyList current desired owned).added) := by
  have hnext : id ∈ desired → id ∈ (planPolicyList current desired owned).next :=
    fun h => mem_next.mpr (.inr h)
  have howned : (planPolicyList current desired owned).owned = desired.filter fun id =>
      (planPolicyList current desired owned).next.contains id &&
        (owned.contains id || (planPolicyList current desired owned).added.contains id) := rfl
  rw [howned, mem_filter]
  simp only [Bool.and_eq_true, Bool.or_eq_true, contains_iff_mem]
  exact and_congr_right fun h => and_iff_right (hnext h)

theorem mem_saveOwnedEntries {existing : List Str} : id ∈ saveOwnedEntries existing owned ↔ id ∈ owned := by
  unfold saveOwnedEntries
  rw [mem_append, mem_filter, mem_dedup, mem_filter]
  simp only [Bool.not_eq_true', contains_eq_mem, decide_eq_false_iff_not, decide_eq_true_iff]
  tauto

end Plan

/-! ## What is known in every run -/

/-- Where a pass waits, its plan is the one for what is in the table. -/
def Planned (s : System) : Prop :=
  match s.stage with
  | .idle => True
  | .reading _ owned => owned = s.owned
  | .writing desired plan request =>
    plan = planPolicyList request.expected desired s.owned ∧ request.entries = plan.next
  | .saving desired plan _ => ∃ current, plan = planPolicyList current desired s.owned ∧
      ∀ id ∈ plan.added, id ∈ s.byAgent

/-- What is owned the agent put there, and what its requests remove, too. -/
structure Known (s : System) : Prop where
  owned : ∀ id ∈ s.owned, id ∈ s.byAgent
  planned : Planned s
  inFlight : ∀ request ∈ s.inFlight, ∀ id ∈ request.expected, id ∉ request.entries → id ∈ s.byAgent
  robbed : s.robbed = []

section Known

variable {s : System} {e : Event} {desired : List Str} {result : Option PolicyListResult}

theorem Known.of_reading (hs : Known s) {owned : List Str}
    (hstage : s.stage = .reading desired owned) : owned = s.owned := by
  have hplanned := hs.planned
  unfold Planned at hplanned
  rw [hstage] at hplanned
  exact hplanned

theorem Known.of_writing (hs : Known s) {plan : PolicyListPlan} {request : WriteRequest}
    (hstage : s.stage = .writing desired plan request) :
    plan = planPolicyList request.expected desired s.owned ∧ request.entries = plan.next := by
  have hplanned := hs.planned
  unfold Planned at hplanned
  rw [hstage] at hplanned
  exact hplanned

theorem Known.of_saving (hs : Known s) {plan : PolicyListPlan} {answer : PolicyListResult}
    (hstage : s.stage = .saving desired plan answer) : ∃ current, plan = planPolicyList current desired s.owned ∧
      ∀ id ∈ plan.added, id ∈ s.byAgent := by
  have hplanned := hs.planned
  unfold Planned at hplanned
  rw [hstage] at hplanned
  exact hplanned

/-- A plan that changes nothing leaves the list. -/
theorem next_of_not_changed {current desired owned : List Str}
    (h : (!(planPolicyList current desired owned).changed)) :
    (planPolicyList current desired owned).next = current := by
  have hchanged : (planPolicyList current desired owned).changed = false := by simpa using h
  exact of_not_not (of_decide_eq_false hchanged)

/-- What a plan removes was owned. -/
theorem owned_of_not_mem_next {current desired owned : List Str} {id : Str} (h : id ∈ current)
    (hnext : id ∉ (planPolicyList current desired owned).next) : id ∈ owned := by
  by_contra howned
  exact hnext (mem_next.mpr (.inl ⟨h, fun h' => absurd h' howned⟩))

/-- A request that is carried out removes only what the agent put there. -/
theorem Known.apply (hs : Known s) {request : WriteRequest} (happlies : request.applies s)
    (hrequest : ∀ id ∈ request.expected, id ∉ request.entries → id ∈ s.byAgent) : (request.apply s).robbed = [] := by
  have hlist : s.list = request.expected := of_decide_eq_true happlies
  unfold WriteRequest.apply
  rw [hs.robbed, nil_append]
  apply filter_eq_nil_iff.mpr
  intro id hid hgoes
  have hgoes : id ∉ request.entries ∧ id ∉ s.byAgent := by simpa using hgoes
  exact hgoes.2 (hrequest id (hlist ▸ hid) hgoes.1)

theorem Known.finish (hs : Known s) : Known (finish s desired result) :=
  { hs with planned := trivial }

theorem Known.beginPass (hs : Known s) : Known (beginPass s desired) := by
  unfold ExtensionPolicy.beginPass
  split
  · split
    · exact hs.finish
    · exact { hs with planned := rfl }
  · exact hs

theorem Known.readList {succeeds : Bool} (hs : Known s) : Known (readList s succeeds) := by
  unfold ExtensionPolicy.readList
  split
  next desired owned hstage =>
    obtain rfl := hs.of_reading hstage
    split
    · exact hs.finish
    · dsimp only
      split
      next hchanged =>
        -- a plan that changes nothing adds nothing
        refine { hs with planned := ⟨s.list, rfl, fun id hid => ?_⟩ }
        have hnext := next_of_not_changed hchanged
        obtain ⟨hdesired, hcurrent⟩ := mem_added.mp hid
        exact absurd (hnext ▸ mem_next.mpr (.inr hdesired)) hcurrent
      · exact { hs with planned := ⟨rfl, rfl⟩ }
  · exact hs

theorem Known.writeList {outcome : Outcome} (hs : Known s) : Known (writeList s outcome) := by
  unfold ExtensionPolicy.writeList
  split
  next desired plan request hstage =>
    obtain ⟨rfl, hentries⟩ := hs.of_writing hstage
    have hrequest : ∀ id ∈ request.expected, id ∉ request.entries → id ∈ s.byAgent := by
      intro id hid hgoes
      rw [hentries] at hgoes
      exact hs.owned id (owned_of_not_mem_next hid hgoes)
    split
    · exact hs.finish
    · refine { hs with planned := trivial, inFlight := fun request' hrequest' => ?_ }
      rcases mem_append.mp hrequest' with hold | hnew
      · exact hs.inFlight request' hold
      · exact mem_singleton.mp hnew ▸ hrequest
    · split
      · exact hs.finish
      next happlies =>
        have happlies : request.applies s := by simpa using happlies
        have hlist : s.list = request.expected := of_decide_eq_true happlies
        refine
          { owned := fun id hid => mem_append_left _ (hs.owned id hid)
            planned := ⟨request.expected, rfl, fun id hid => ?_⟩
            inFlight := fun request' hrequest' id hid hgoes =>
              mem_append_left _ (hs.inFlight request' hrequest' id hid hgoes)
            robbed := hs.apply happlies hrequest }
        obtain ⟨hdesired, hcurrent⟩ := mem_added.mp hid
        refine mem_append_right _ (mem_filter.mpr ⟨?_, ?_⟩)
        · rw [hentries]
          exact mem_next.mpr (.inr hdesired)
        · rw [hlist]
          simpa using hcurrent
  · exact hs

theorem Known.saveOwned {succeeds : Bool} (hs : Known s) : Known (saveOwned s succeeds) := by
  unfold ExtensionPolicy.saveOwned
  split
  next desired plan result hstage =>
    obtain ⟨current, rfl, hadded⟩ := hs.of_saving hstage
    split
    · exact hs.finish
    · refine { hs with owned := fun id hid => ?_, planned := trivial }
      rcases (mem_plan_owned.mp (mem_saveOwnedEntries.mp hid)).2 with hold | hnew
      · exact hs.owned id hold
      · exact hadded id hnew
  · exact hs

theorem Known.land {i : Nat} (hs : Known s) : Known (land s i) := by
  unfold ExtensionPolicy.land
  split
  · exact hs
  next request hi =>
    have hrequest := hs.inFlight request (mem_of_getElem? hi)
    have hrest : Known { s with inFlight := s.inFlight.eraseIdx i } :=
      { hs with inFlight := fun request' h => hs.inFlight request' (mem_of_mem_eraseIdx h) }
    dsimp only
    split
    next happlies =>
      exact
        { owned := fun id hid => mem_append_left _ (hs.owned id hid)
          planned := by
            have hplanned := hs.planned
            unfold Planned WriteRequest.apply at *
            dsimp only
            split
            · trivial
            next hstage => simpa only [hstage] using hplanned
            next hstage => simpa only [hstage] using hplanned
            next hstage =>
              rw [hstage] at hplanned
              obtain ⟨current, hplan, hadded⟩ := hplanned
              exact ⟨current, hplan, fun id hid => mem_append_left _ (hadded id hid)⟩
          inFlight := fun request' h id hid hgoes =>
            mem_append_left _ (hrest.inFlight request' h id hid hgoes)
          robbed := hrest.apply happlies hrequest }
    · exact hrest

theorem Known.step (hs : Known s) (e : Event) : Known (step s e) := by
  have hs : Known { s with ended := none } := { hs with }
  cases e with
  | beginPass desired => exact hs.beginPass
  | readList succeeds => exact hs.readList
  | writeList outcome => exact hs.writeList
  | saveOwned succeeds => exact hs.saveOwned
  | crash => exact { hs with planned := trivial }
  | land i => exact hs.land
  | edit list => exact { hs with }

end Known

theorem known_init (list : List Str) : Known (machine list).init where
  owned := forall_mem_nil _
  planned := trivial
  inFlight := forall_mem_nil _
  robbed := rfl

/-- In every run, an entry that the agent never put there is not removed by it. -/
theorem robbed_run (list : List Str) (tr : List Event) : ((machine list).run tr).robbed = [] :=
  (Machine.invariant (I := Known) (known_init list) (fun _ e hs => hs.step e) tr).robbed

/-! ## What is not forgotten -/

/-- The entry is in the table, or is about to be saved. -/
def Held (s : System) (id : Str) : Prop :=
  match s.stage with
  | .saving _ plan _ => id ∈ plan.owned
  | _ => id ∈ s.owned

/-- What the agent put there is held, and what it holds a pass that is through has dealt with. -/
structure Kept (s : System) : Prop where
  held : ∀ id ∈ s.list, id ∈ s.byAgent → id ∉ s.byOthers → Held s id
  removed : ∀ e, s.ended = some e → e.isComplete = true → ∀ id ∈ s.list, id ∉ e.desired →
    id ∈ s.byAgent → id ∈ s.byOthers

section Kept

variable {s s' : System} {desired : List Str}

/-- What was owned and is in the new list is desired. -/
theorem mem_plan_owned_of_owned {current owned : List Str} {id : Str}
    (hnext : id ∈ (planPolicyList current desired owned).next) (howned : id ∈ owned) :
    id ∈ (planPolicyList current desired owned).owned := by
  refine mem_plan_owned.mpr ⟨?_, .inl howned⟩
  rcases mem_next.mp hnext with ⟨_, hkeep⟩ | hdesired
  · exact hkeep howned
  · exact hdesired

/-- A pass that ends without having added anything leaves what it held in the table. -/
theorem mem_owned_of_held (hs : Known s) (hadds : ¬ AddsUnsaved s) {id : Str} (h : Held s id) : id ∈ s.owned := by
  unfold Held at h
  split at h
  next desired plan result hstage =>
    obtain ⟨current, rfl, _⟩ := hs.of_saving hstage
    rcases (mem_plan_owned.mp h).2 with howned | hadded
    · exact howned
    · exact absurd ⟨_, _, _, hstage, ne_nil_of_mem hadded⟩ hadds
  · exact h

/-- A pass that fails has not dealt with anything. -/
theorem Kept.fail (hs : Kept s) (howned : ∀ id, Held s id → id ∈ s.owned) (desired : List Str) :
    Kept (fail s desired) where
  held id hid hagent hothers := howned id (hs.held id hid hagent hothers)
  removed e he hcomplete := by
    obtain rfl := Option.some.inj he
    cases hcomplete

theorem Kept.beginPass (hs : Kept s) : Kept (beginPass s desired) := by
  unfold ExtensionPolicy.beginPass
  split
  next hstage =>
    have hheld : ∀ id, Held s id → id ∈ s.owned := by
      intro id h
      unfold Held at h
      rw [hstage] at h
      exact h
    split
    next hnothing =>
      -- nothing is owned, so nothing in the list is the agent's own
      have hnone : ∀ id ∈ s.list, id ∈ s.byAgent → id ∉ s.byOthers → False := by
        intro id hid hagent hothers
        have howned := hheld id (hs.held id hid hagent hothers)
        rw [hnothing.2] at howned
        cases howned
      exact
        { held := fun id hid hagent hothers => (hnone id hid hagent hothers).elim
          removed := fun _ _ _ id hid _ hagent =>
            by_contra fun hothers => hnone id hid hagent hothers }
    · exact
        { held := fun id hid hagent hothers => hheld id (hs.held id hid hagent hothers)
          removed := hs.removed }
  · exact hs

theorem Kept.readList {succeeds : Bool} (hs : Kept s) (hknown : Known s) : Kept (readList s succeeds) := by
  unfold ExtensionPolicy.readList
  split
  next desired owned hstage =>
    obtain rfl := hknown.of_reading hstage
    have hheld : ∀ id, Held s id → id ∈ s.owned := by
      intro id h
      unfold Held at h
      rw [hstage] at h
      exact h
    split
    · exact hs.fail hheld desired
    · dsimp only
      split
      next hchanged =>
        have hnext := next_of_not_changed hchanged
        refine { held := fun id hid hagent hothers => ?_, removed := hs.removed }
        have howned := hheld id (hs.held id hid hagent hothers)
        exact mem_plan_owned_of_owned (hnext.symm ▸ hid) howned
      · exact
          { held := fun id hid hagent hothers => hheld id (hs.held id hid hagent hothers)
            removed := hs.removed }
  · exact hs

theorem Kept.writeList {outcome : Outcome} (hs : Kept s) (hknown : Known s)
    (hended : s.ended = none) : Kept (writeList s outcome) := by
  unfold ExtensionPolicy.writeList
  split
  next desired plan request hstage =>
    obtain ⟨rfl, hentries⟩ := hknown.of_writing hstage
    have hheld : ∀ id, Held s id → id ∈ s.owned := by
      intro id h
      unfold Held at h
      rw [hstage] at h
      exact h
    split
    · exact hs.fail hheld desired
    · have hfail := hs.fail hheld desired
      exact { held := hfail.held, removed := hfail.removed }
    · split
      · refine
          { held := fun id hid hagent hothers => hheld id (hs.held id hid hagent hothers)
            removed := fun e he hcomplete => ?_ }
        obtain rfl := Option.some.inj he
        cases hcomplete
      next happlies =>
        have happlies : request.applies s := by simpa using happlies
        have hlist : s.list = request.expected := of_decide_eq_true happlies
        refine
          { held := fun id hid hagent hothers => ?_
            removed := fun e he => ?_ }
        · have hnext : id ∈ (planPolicyList request.expected desired s.owned).next := hentries ▸ hid
          by_cases hcurrent : id ∈ request.expected
          · -- it was there already, so the agent put it there before
            have hbefore : id ∈ s.byAgent := by
              rcases mem_append.mp hagent with hold | hnew
              · exact hold
              · have hnot := (mem_filter.mp hnew).2
                rw [hlist, contains_iff_mem.mpr hcurrent] at hnot
                cases hnot
            have howned := hheld id (hs.held id (hlist ▸ hcurrent) hbefore hothers)
            exact mem_plan_owned_of_owned hnext howned
          · rcases mem_next.mp hnext with ⟨h, _⟩ | hdesired
            · exact absurd h hcurrent
            · exact mem_plan_owned.mpr ⟨hdesired, .inr (mem_added.mpr ⟨hdesired, hcurrent⟩)⟩
        · have hnone : s.ended = some e := he
          rw [hended] at hnone
          cases hnone
  · exact hs

theorem Kept.saveOwned {succeeds : Bool} (hs : Kept s) (hknown : Known s)
    (hguard : Records s (.saveOwned succeeds)) : Kept (saveOwned s succeeds) := by
  unfold ExtensionPolicy.saveOwned
  split
  next desired plan result hstage =>
    have hheld : ∀ id, Held s id → id ∈ plan.owned := by
      intro id h
      unfold Held at h
      rw [hstage] at h
      exact h
    split
    next hfails =>
      have hadds : ¬ AddsUnsaved s := by
        rcases hguard with hsucceeds | hadds
        · rw [hsucceeds] at hfails
          cases hfails
        · exact hadds
      exact hs.fail (fun id => mem_owned_of_held hknown hadds) desired
    · obtain ⟨current, rfl, _⟩ := hknown.of_saving hstage
      refine
        { held := fun id hid hagent hothers =>
            mem_saveOwnedEntries.mpr (hheld id (hs.held id hid hagent hothers))
          removed := fun e he _ id hid hdesired hagent => ?_ }
      obtain rfl := Option.some.inj he
      by_contra hothers
      exact hdesired (mem_plan_owned.mp (hheld id (hs.held id hid hagent hothers))).1
  · exact hs

theorem Kept.land {i : Nat} (hs : Kept s) (hended : s.ended = none)
    (hguard : Records s (.land i)) : Kept (land s i) := by
  unfold ExtensionPolicy.land
  split
  · exact hs
  next request hi =>
    dsimp only
    split
    next happlies =>
      have hlist : s.list = request.expected := of_decide_eq_true happlies
      refine
        { held := fun id hid hagent hothers => ?_
          removed := fun e he => ?_ }
      · -- it adds nothing, so what it leaves was held before
        have hbefore : id ∈ s.list := hlist ▸ hguard request hi happlies id hid
        have hagent : id ∈ s.byAgent := by
          rcases mem_append.mp hagent with hold | hnew
          · exact hold
          · have hnot := (mem_filter.mp hnew).2
            rw [show ({ s with inFlight := s.inFlight.eraseIdx i } : System).list = s.list from rfl,
              contains_iff_mem.mpr hbefore] at hnot
            cases hnot
        exact hs.held id hbefore hagent hothers
      · have hnone : s.ended = some e := he
        rw [hended] at hnone
        cases hnone
    · exact { held := hs.held, removed := hs.removed }

/-- What someone else leaves in the list was there before, or is theirs, too. -/
theorem Kept.edit (hs : Kept s) (hended : s.ended = none) (list : List Str) : Kept (edit s list) where
  held id hid hagent hothers := by
    have hbefore : id ∈ s.list := by
      by_contra hnone
      apply hothers
      refine mem_append_right _ (mem_filter.mpr ⟨hid, decide_eq_true ?_⟩)
      rw [count_eq_zero_of_not_mem hnone]
      exact count_pos_iff.mpr hid
    exact hs.held id hbefore hagent fun h => hothers (mem_append_left _ h)
  removed e he := by
    have hnone : s.ended = some e := he
    rw [hended] at hnone
    cases hnone

theorem Kept.step {e : Event} (hs : Kept s) (hknown : Known s) (hguard : Records s e) : Kept (step s e) := by
  have hs' : Kept { s with ended := none } :=
    { held := hs.held
      removed := fun e he => by cases he }
  have hknown' : Known { s with ended := none } := { hknown with }
  cases e with
  | beginPass desired => exact hs'.beginPass
  | readList succeeds => exact hs'.readList hknown'
  | writeList outcome => exact hs'.writeList hknown' rfl
  | saveOwned succeeds => exact hs'.saveOwned hknown' hguard
  | crash =>
    exact
      { held := fun id hid hagent hothers =>
          mem_owned_of_held hknown' hguard (hs'.held id hid hagent hothers)
        removed := hs'.removed }
  | land i => exact hs'.land rfl hguard
  | edit list => exact hs'.edit rfl list

end Kept

/-! ## Runs -/

/-- The agent removes only what is its own, and all of it, in the runs in which whatever is added is
saved. -/
theorem guarded_owns (list : List Str) {tr : List Event}
    (hguard : (machine list).Guarded Records tr) : (machine list).Always Owns tr := by
  have hinv : (machine list).Always (fun s => Known s ∧ Kept s) tr := by
    refine hguard.always ⟨known_init list, ?_⟩ fun s e hs he => ⟨hs.1.step e, hs.2.step hs.1 he⟩
    exact
      { held := fun id _ hagent => absurd hagent not_mem_nil
        removed := fun e he => by cases he }
  exact hinv.mono fun s hs => ⟨hs.1.robbed, hs.2.removed⟩

def sampleId : Str := replicate 32 97

/-- An extension is blocked, and then it is not any more. -/
def sampleRun : List Event :=
  [.beginPass [sampleId], .readList true, .writeList .answered, .saveOwned true,
    .beginPass [], .readList true, .writeList .answered, .saveOwned true]

theorem guarded_owns_unblocked : (machine [text "gpo"]).Always Owns sampleRun ∧
    ((machine [text "gpo"]).run sampleRun).list = [text "gpo"] := by
  constructor
  · apply guarded_owns
    refine Machine.guarded_iff_guardedFrom.mpr ⟨?_, ?_, ?_, ?_, ?_, ?_, ?_, ?_, trivial⟩
    · trivial
    · trivial
    · trivial
    · exact .inl rfl
    · trivial
    · trivial
    · trivial
    · exact .inl rfl
  · decide

/-- The agent crashes after its write, and a later pass has nothing to do although the extension that
it blocked is not desired. -/
def sampleCrash : List Event :=
  [.beginPass [sampleId], .readList true, .writeList .answered, .crash, .beginPass []]

theorem not_guarded_owns_crashed : ¬ ∀ (list : List Str) (tr : List Event), (machine list).Always Owns tr := by
  intro hall
  have howns := (hall [] sampleCrash).last
  have hended : ((machine []).run sampleCrash).ended = some ⟨[], none⟩ := rfl
  have hlist : sampleId ∈ ((machine []).run sampleCrash).list := by decide
  have hagent : sampleId ∈ ((machine []).run sampleCrash).byAgent := by decide
  have hothers : sampleId ∉ ((machine []).run sampleCrash).byOthers := by decide
  exact hothers (howns.removed _ hended rfl _ hlist not_mem_nil hagent)

end Amp.ExtensionPolicy
