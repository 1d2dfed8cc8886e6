-- SUMMARY: The checks of a device before and after a change: how they are read, and when the verdict judges each by its own results.
import Tracenium.Lib.JsonObject
import Tracenium.Lib.JsonText

/-!
`parseChecks` and `compareVerification` of `src/plugins/pmp/verification.ts`. Outcomes are joined to checks by an id,
which is a text cut to 64 units or the number of the checks before it. The first outcome of a round with an id counts
for every check with it, and of the outcomes before the change the last one.
-/

open Utf16 Json List

namespace Pmp.Verification

/-! ## Checks -/

structure HttpCheck where
  url : Str
  expectStatus : Option (List Numeral)
  bodyContains : Option Str
  tlsVerify : Bool
  timeoutMs : Option Json

inductive CheckKind
  | service (name : Str)
  | process (name : Str)
  | port (port : Int)
  | tcp (host : Str) (port : Int) (timeoutMs : Option Json)
  | http (check : HttpCheck)

def CheckKind.text : CheckKind → Str
  | .service _ => Utf16.text "service"
  | .process _ => Utf16.text "process"
  | .port _ => Utf16.text "port"
  | .tcp _ _ _ => Utf16.text "tcp"
  | .http _ => Utf16.text "http"

structure VerificationCheck where
  id : Str
  kind : CheckKind

def MAX_CHECKS : Nat := 25

def isAlphanumeric (u : UInt16) : Bool := isDigit u || (0x41 ≤ u && u ≤ 0x5A) || (0x61 ≤ u && u ≤ 0x7A)

/-- `/^[A-Za-z0-9._@:+-]{1,128}$/`. -/
def isName (s : Str) : Bool :=
  1 ≤ s.length && s.length ≤ 128 && s.all fun u => isAlphanumeric u || (text "._@:+-").contains u

/-- `/^[A-Za-z0-9.:\[\]-]{1,253}$/`. -/
def isHost (s : Str) : Bool :=
  1 ≤ s.length && s.length ≤ 253 && s.all fun u => isAlphanumeric u || (text ".:[]-").contains u

/-- `/^https?:\/\/[^\s]{1,2000}$/`, where `isSpace` is `\s`. -/
def isUrl (isSpace : UInt16 → Bool) (s : Str) : Bool :=
  let rest :=
    if (text "https://").isPrefixOf s then some (s.drop 8)
    else if (text "http://").isPrefixOf s then some (s.drop 7)
    else none
  rest.any fun r => 1 ≤ r.length && r.length ≤ 2000 && r.all fun u => !isSpace u

/-- What is read of numbers: the integer that one is, if it is an integer. -/
structure Library where
  integer : Numeral → Option Int
  isSpace : UInt16 → Bool

section Parsing

variable (l : Library)

def name : Option Json → Option Str
  | some (.str s) => if isName s then some s else none
  | _ => none

def port : Option Json → Option Int
  | some (.num n) => (l.integer n).filter fun z => 0 < z ∧ z < 65536
  | _ => none

def host : Option Json → Option Str
  | some (.str s) => if isHost s then some s else none
  | _ => none

def url : Option Json → Option Str
  | some (.str s) => if isUrl l.isSpace s then some s else none
  | _ => none

def expectStatus : Option Json → Option (List Numeral)
  | some (.arr xs) =>
    let st := xs.filterMap fun
      | .num n => if (l.integer n).isSome then some n else none
      | _ => none
    if st.isEmpty then none else some st
  | _ => none

def bodyContains : Option Json → Option Str
  | some (.str s) => some (s.take 200)
  | _ => none

def checkKind (c : Json) : Option CheckKind :=
  match c.field (text "kind") with
  | some (.str kind) =>
    if kind = text "service" then (name (c.field (text "name"))).map .service
    else if kind = text "process" then (name (c.field (text "name"))).map .process
    else if kind = text "port" then (port l (c.field (text "port"))).map .port
    else if kind = text "tcp" then do
      let p ← port l (c.field (text "port"))
      let h ← host (c.field (text "host"))
      return .tcp h p (c.field (text "timeoutMs"))
    else if kind = text "http" then do
      let u ← url l (c.field (text "url"))
      return .http ⟨u, expectStatus l (c.field (text "expectStatus")), bodyContains (c.field (text "bodyContains")),
        !(c.field (text "tlsVerify") matches some (.bool false)), c.field (text "timeoutMs")⟩
    else none
  | _ => none

/-- The id of an entry, with so many checks before it. -/
def checkId (c : Json) (before : Nat) : Str :=
  match c.field (text "id") with
  | some (.str id) => id.take 64
  | _ => decimal before

/-- A value without members is no check. -/
def addCheck (out : List VerificationCheck) (c : Json) : List VerificationCheck :=
  match checkKind l c with
  | some kind => out ++ [⟨checkId c out.length, kind⟩]
  | none => out

def parseChecks : Json → List VerificationCheck
  | .arr raw => (raw.take MAX_CHECKS).foldl (addCheck l) []
  | _ => []

end Parsing

/-! ## Snapshots -/

structure CheckOutcome where
  id : Str
  ok : Bool
  detail : Str

inductive ServiceSnapshot
  | ok (services : List Str)
  | failed (reason : Str)

def ServiceSnapshot.services? : ServiceSnapshot → Option (List Str)
  | .ok services => some services
  | .failed _ => none

def ServiceSnapshot.reason? : ServiceSnapshot → Option Str
  | .ok _ => none
  | .failed reason => some reason

variable {Listener : Type}

structure VerificationBaseline (Listener : Type) where
  jobId : Str
  capturedAt : Str
  services : ServiceSnapshot
  checks : List VerificationCheck
  checksBefore : List CheckOutcome
  listeners : Option (List Listener)

/-! ## The verdict -/

inductive ServicesResult
  | compared (watched : Nat) (regressions : List Str)
  | unavailable (reason : Str)

def ServicesResult.regressions : ServicesResult → List Str
  | .compared _ names => names
  | .unavailable _ => []

structure CheckRow where
  id : Str
  kind : Str
  before : Option Bool
  after : Bool
  regression : Bool
  alreadyFailing : Bool
  detail : Str

inductive Status
  | passed
  | failed
  | noBaseline
  deriving DecidableEq

structure VerificationResult (Listener : Type) where
  patchJobId : Str
  status : Status
  baselineAt : Option Str
  services : ServicesResult
  checks : List CheckRow
  samples : Nat
  observed : Option (List Listener)

def compareServices (baseline : Option (VerificationBaseline Listener)) (afterServices : List ServiceSnapshot) :
    ServicesResult :=
  match baseline with
  | none => .unavailable (text "no pre-install snapshot on this device")
  | some b =>
    match b.services with
    | .failed reason => .unavailable reason
    | .ok names =>
      match afterServices.findSome? ServiceSnapshot.reason? with
      | some reason => .unavailable reason
      | none =>
        let samples := afterServices.filterMap ServiceSnapshot.services?
        .compared names.length (names.filter fun name => samples.all fun set => !set.contains name)

/-- The map of the outcomes before the change, where a later outcome takes the place of one with its id. -/
def before (baseline : Option (VerificationBaseline Listener)) (id : Str) : Option Bool :=
  let outcomes := (baseline.map (·.checksBefore)).getD []
  (outcomes.reverse.find? fun o => o.id = id).map (·.ok)

def compareCheck (baseline : Option (VerificationBaseline Listener)) (afterChecks : List (List CheckOutcome))
    (c : VerificationCheck) : CheckRow :=
  let outs := afterChecks.filterMap fun round => round.find? fun o => o.id = c.id
  let after := outs.any (·.ok)
  let was := before baseline c.id
  { id := c.id
    kind := c.kind.text
    before := was
    after := after
    regression := !after && was != some false
    alreadyFailing := !after && was == some false
    detail := ((outs.getLast?.map (·.detail)).getD (text "not run")).take 200 }

def compareVerification (patchJobId : Str) (baseline : Option (VerificationBaseline Listener))
    (afterServices : List ServiceSnapshot) (checks : List VerificationCheck) (afterChecks : List (List CheckOutcome)) :
    VerificationResult Listener :=
  let services := compareServices baseline afterServices
  let rows := checks.map (compareCheck baseline afterChecks)
  let failed := !services.regressions.isEmpty || rows.any (·.regression)
  { patchJobId := patchJobId
    status := if failed then .failed else if baseline.isNone && checks.isEmpty then .noBaseline else .passed
    baselineAt := baseline.map (·.capturedAt)
    services := services
    checks := rows
    samples := afterServices.length
    observed := baseline.bind (·.listeners) }

/-! ## Judging each check by its own results -/

/-- One outcome for each check, as `runCheck` gives it. -/
def OneEach (checks : List VerificationCheck) (outcomes : List CheckOutcome) : Prop :=
  outcomes.map (·.id) = checks.map (·.id)

structure Sample where
  services : ServiceSnapshot
  outcomes : List CheckOutcome

def verdict (patchJobId : Str) (baseline : Option (VerificationBaseline Listener)) (checks : List VerificationCheck)
    (samples : List Sample) : VerificationResult Listener :=
  compareVerification patchJobId baseline (samples.map (·.services)) checks (samples.map (·.outcomes))

/-- The outcome of the `i`-th check did not succeed. -/
def FailsAt (i : Nat) (outcomes : List CheckOutcome) : Prop := ∃ o, outcomes[i]? = some o ∧ o.ok = false

structure Judged (patchJobId : Str) (baseline : Option (VerificationBaseline Listener))
    (checks : List VerificationCheck) (samples : List Sample) : Prop where
  /-- A check is a regression if that check failed in every sample and not before the change already. -/
  check : ∀ i < checks.length, (∃ row, (verdict patchJobId baseline checks samples).checks[i]? = some row ∧
      row.regression = true) ↔
    (∀ s ∈ samples, FailsAt i s.outcomes) ∧ ∀ b ∈ baseline, ¬ FailsAt i b.checksBefore
  /-- A service is a regression if it ran before the change and is in no sample. -/
  service : ∀ name, name ∈ (verdict patchJobId baseline checks samples).services.regressions ↔
    (∃ b ∈ baseline, ∃ names, b.services = .ok names ∧ name ∈ names) ∧
      ∀ s ∈ samples, ∃ names, s.services = .ok names ∧ name ∉ names
  monotone : ∀ sample, OneEach checks sample.outcomes → (verdict patchJobId baseline checks samples).status = .passed →
    (verdict patchJobId baseline checks (samples ++ [sample])).status ≠ .failed

/-! ## Joining by id -/

section Joining

variable {checks : List VerificationCheck} {outcomes : List CheckOutcome}

theorem find?_of_nodup (h : (outcomes.map (·.id)).Nodup) {o : CheckOutcome} (ho : o ∈ outcomes) :
    (outcomes.find? fun o' => o'.id = o.id) = some o := by
  obtain ⟨o', hfind⟩ : ∃ o', (outcomes.find? fun o' => o'.id = o.id) = some o' :=
    Option.isSome_iff_exists.mp (find?_isSome.mpr ⟨o, ho, by simp⟩)
  have hid : o'.id = o.id := by simpa using find?_some hfind
  rw [hfind, inj_on_of_nodup_map h (mem_of_find?_eq_some hfind) ho hid]

theorem OneEach.getElem?_eq (hone : OneEach checks outcomes) {i : Nat} (hi : i < checks.length) :
    ∃ o, outcomes[i]? = some o ∧ o.id = checks[i].id := by
  have hid : (outcomes.map (·.id))[i]? = (checks.map (·.id))[i]? := congrArg (fun ids => ids[i]?) hone
  rw [getElem?_map, getElem?_map, getElem?_eq_getElem hi] at hid
  simpa using hid

/-- With distinct ids, the outcome that is found for a check is its own, from either end. -/
theorem OneEach.find? (hone : OneEach checks outcomes) (hnodup : (checks.map (·.id)).Nodup) {i : Nat}
    (hi : i < checks.length) : (outcomes.find? fun o => o.id = checks[i].id) = outcomes[i]? ∧
      (outcomes.reverse.find? fun o => o.id = checks[i].id) = outcomes[i]? := by
  obtain ⟨o, ho, hid⟩ := hone.getElem?_eq hi
  have hmem : o ∈ outcomes := mem_of_getElem? ho
  have hids : (outcomes.map (·.id)).Nodup := by rwa [show outcomes.map (·.id) = checks.map (·.id) from hone]
  have hreverse : (outcomes.reverse.map (·.id)).Nodup := by simpa using hids
  rw [ho, ← hid]
  exact ⟨find?_of_nodup hids hmem, find?_of_nodup hreverse (by simpa using hmem)⟩

end Joining

/-! ## The parts of the verdict -/

section Parts

variable {patchJobId : Str} {baseline : Option (VerificationBaseline Listener)} {checks : List VerificationCheck}
  {samples : List Sample}

theorem regression_compareCheck {rounds : List (List CheckOutcome)} {c : VerificationCheck} :
    (compareCheck baseline rounds c).regression ↔
      (∀ round ∈ rounds, ∀ o ∈ round.find? (fun o => o.id = c.id), o.ok = false) ∧
        before baseline c.id ≠ some false := by
  simp only [compareCheck, Bool.and_eq_true, Bool.not_eq_true', any_eq_false, mem_filterMap, bne_iff_ne]
  constructor
  · rintro ⟨hfailed, hbefore⟩
    exact ⟨fun round hround o ho => by simpa using hfailed o ⟨round, hround, ho⟩, hbefore⟩
  · rintro ⟨hfailed, hbefore⟩
    exact ⟨fun o ⟨round, hround, ho⟩ => by simpa using hfailed round hround o ho, hbefore⟩

theorem mem_regressions {name : Str} : name ∈ (verdict patchJobId baseline checks samples).services.regressions ↔
      (∃ b ∈ baseline, ∃ names, b.services = .ok names ∧ name ∈ names) ∧
        ∀ s ∈ samples, ∃ names, s.services = .ok names ∧ name ∉ names := by
  have hresult : (verdict patchJobId baseline checks samples).services =
      compareServices baseline (samples.map (·.services)) := rfl
  rw [hresult]
  cases baseline with
  | none => simp [compareServices, ServicesResult.regressions]
  | some b =>
    cases hservices : b.services with
    | failed reason => simp [compareServices, hservices, ServicesResult.regressions]
    | ok names =>
      cases hread : (samples.map (·.services)).findSome? ServiceSnapshot.reason? with
      | some reason =>
        -- one sample is not readable, and so nothing is missing in every sample
        obtain ⟨s, hs, hreason⟩ := exists_of_findSome?_eq_some hread
        obtain ⟨sample, hsample, rfl⟩ := mem_map.mp hs
        simp only [compareServices, hservices, hread, ServicesResult.regressions, not_mem_nil, false_iff]
        rintro ⟨_, hall⟩
        obtain ⟨names', hok, _⟩ := hall sample hsample
        simp [hok, ServiceSnapshot.reason?] at hreason
      | none =>
        have hok : ∀ s ∈ samples, ∃ names, s.services = .ok names := by
          intro s hs
          have hnone := findSome?_eq_none_iff.mp hread s.services (mem_map_of_mem hs)
          cases hsnap : s.services with
          | ok names => exact ⟨names, rfl⟩
          | failed reason => simp [hsnap, ServiceSnapshot.reason?] at hnone
        simp only [compareServices, hservices, hread, ServicesResult.regressions, mem_filter, all_eq_true,
          mem_filterMap, mem_map]
        constructor
        · rintro ⟨hname, hall⟩
          refine ⟨⟨b, rfl, names, hservices, hname⟩, fun s hs => ?_⟩
          obtain ⟨names', hs'⟩ := hok s hs
          exact ⟨names', hs', by simpa using hall names' ⟨_, ⟨s, hs, rfl⟩, by simp [hs', ServiceSnapshot.services?]⟩⟩
        · rintro ⟨⟨_, hb, names', hnames, hname⟩, hall⟩
          cases hb
          rw [hservices] at hnames
          cases hnames
          refine ⟨hname, ?_⟩
          rintro set ⟨_, ⟨s, hs, rfl⟩, hset⟩
          obtain ⟨names', hs', hnot⟩ := hall s hs
          rw [hs', ServiceSnapshot.services?, Option.some.injEq] at hset
          simpa [← hset] using hnot

theorem status_eq_failed_iff : (verdict patchJobId baseline checks samples).status = .failed ↔
      (∃ name, name ∈ (verdict patchJobId baseline checks samples).services.regressions) ∨
        ∃ c ∈ checks, (compareCheck baseline (samples.map (·.outcomes)) c).regression := by
  have hnames (names : List Str) : (!names.isEmpty) ↔ ∃ name, name ∈ names := by
    cases names <;> simp
  simp only [verdict, compareVerification]
  split
  · rename_i hfailed
    simpa [hnames] using hfailed
  · rename_i hpassed
    refine iff_of_false (by split <;> simp) fun h => hpassed ?_
    simpa [hnames] using h

/-- One more sample makes no regression. -/
theorem failed_of_snoc {sample : Sample}
    (h : (verdict patchJobId baseline checks (samples ++ [sample])).status = .failed) :
    (verdict patchJobId baseline checks samples).status = .failed := by
  rw [status_eq_failed_iff] at h ⊢
  rcases h with ⟨name, hname⟩ | ⟨c, hc, hreg⟩
  · obtain ⟨hbefore, hafter⟩ := mem_regressions.mp hname
    exact .inl ⟨name, mem_regressions.mpr ⟨hbefore, fun s hs => hafter s (mem_append_left _ hs)⟩⟩
  · obtain ⟨hafter, hbefore⟩ := regression_compareCheck.mp hreg
    refine .inr ⟨c, hc, regression_compareCheck.mpr ⟨fun round hround => hafter round ?_, hbefore⟩⟩
    simpa using .inl (by simpa using hround)

theorem failsAt_iff {outcomes : List CheckOutcome} {i : Nat} {o : CheckOutcome} (ho : outcomes[i]? = some o) :
    FailsAt i outcomes ↔ o.ok = false := by
  simp [FailsAt, ho]

/-- With distinct ids every check is judged by its own results. -/
theorem judged_of_nodup (hnodup : (checks.map (·.id)).Nodup) (hbaseline : ∀ b ∈ baseline, OneEach checks b.checksBefore)
    (hsamples : ∀ s ∈ samples, OneEach checks s.outcomes) : Judged patchJobId baseline checks samples where
  check i hi := by
    have hrow : (verdict patchJobId baseline checks samples).checks[i]? =
        some (compareCheck baseline (samples.map (·.outcomes)) checks[i]) := by
      simp [verdict, compareVerification, getElem?_eq_getElem hi]
    have hround (s : Sample) (hs : s ∈ samples) :
        (∀ o ∈ s.outcomes.find? (fun o => o.id = checks[i].id), o.ok = false) ↔ FailsAt i s.outcomes := by
      obtain ⟨o, ho, _⟩ := (hsamples s hs).getElem?_eq hi
      rw [((hsamples s hs).find? hnodup hi).1, failsAt_iff ho, ho]
      simp
    have hbefore : before baseline checks[i].id ≠ some false ↔ ∀ b ∈ baseline, ¬ FailsAt i b.checksBefore := by
      cases baseline with
      | none => simp [before]
      | some b =>
        obtain ⟨o, ho, _⟩ := (hbaseline b rfl).getElem?_eq hi
        have hfind : before (some b) checks[i].id = some o.ok := by
          simp [before, ((hbaseline b rfl).find? hnodup hi).2, ho]
        simp [hfind, failsAt_iff ho]
    simp only [hrow, Option.some.injEq, exists_eq_left', regression_compareCheck, hbefore]
    simp only [forall_mem_map]
    exact and_congr_left fun _ => forall₂_congr hround
  service name := mem_regressions
  monotone sample _ hpassed hfailed := by
    rw [failed_of_snoc hfailed] at hpassed
    cases hpassed

end Parts

/-! ## Two checks with one id -/

def allBut (checks : List VerificationCheck) (j : Nat) : List CheckOutcome :=
  checks.mapIdx fun i c => ⟨c.id, i != j, []⟩

theorem oneEach_allBut (checks : List VerificationCheck) (j : Nat) : OneEach checks (allBut checks j) := by
  simpa [OneEach, allBut] using ext_getElem (by simp) (by simp)

def healthy (checks : List VerificationCheck) : VerificationBaseline Listener :=
  ⟨[], [], .ok [], checks, allBut checks checks.length, none⟩

/-- The failure of a check hides behind an earlier one with its id. -/
theorem not_judged_allBut {patchJobId : Str} {checks : List VerificationCheck} {i j : Nat} (hij : i < j)
    (hj : j < checks.length) (hid : checks[i].id = checks[j].id) :
    ¬ Judged patchJobId (some (healthy checks : VerificationBaseline Listener)) checks
      [⟨.ok [], allBut checks j⟩] := by
  intro hjudged
  have hfails : FailsAt j (allBut checks j) := by simp [FailsAt, allBut, getElem?_eq_getElem hj]
  have hsound : ¬ FailsAt j (allBut checks checks.length) := by
    simp [FailsAt, allBut, hj.ne]
  obtain ⟨row, hrow, hreg⟩ := (hjudged.check j hj).mpr ⟨by simpa using hfails, by simpa [healthy] using hsound⟩
  obtain rfl : compareCheck (some (healthy checks : VerificationBaseline Listener)) [allBut checks j] checks[j] =
      row := by
    simpa [verdict, compareVerification, getElem?_eq_getElem hj] using hrow
  obtain ⟨o, hfind⟩ : ∃ o, ((allBut checks j).find? fun o => o.id = checks[j].id) = some o := by
    refine Option.isSome_iff_exists.mp (find?_isSome.mpr ⟨⟨checks[j].id, false, []⟩, ?_, by simp⟩)
    exact mem_mapIdx.mpr ⟨j, hj, by simp⟩
  have hnot := (regression_compareCheck.mp hreg).1 _ mem_cons_self o hfind
  -- the outcome that is found comes no later than the one at `i`, and the only one that failed is at `j`
  obtain ⟨_, k, hk, rfl, hfirst⟩ := find?_eq_some_iff_getElem.mp hfind
  have hkj : k = j := by simpa [allBut] using hnot
  have := hfirst i (by omega)
  simp [allBut, hid] at this

/-- The verdict judges each check by its own results, whatever they are, exactly if the checks have distinct ids. -/
theorem judged_iff_nodup (l : Library) (raw : Json) :
    (∀ (patchJobId : Str) (baseline : Option (VerificationBaseline Listener)) (samples : List Sample), samples ≠ [] →
      (∀ b ∈ baseline, OneEach (parseChecks l raw) b.checksBefore) →
      (∀ s ∈ samples, OneEach (parseChecks l raw) s.outcomes) →
        Judged patchJobId baseline (parseChecks l raw) samples) ↔ ((parseChecks l raw).map (·.id)).Nodup := by
  constructor
  · intro h
    refine nodup_iff_getElem?_ne_getElem?.mpr fun i j hij hj hid => ?_
    have hj' : j < (parseChecks l raw).length := by simpa using hj
    have hid' : (parseChecks l raw)[i].id = (parseChecks l raw)[j].id := by
      rw [getElem?_map, getElem?_map, getElem?_eq_getElem (hij.trans hj'), getElem?_eq_getElem hj'] at hid
      simpa using hid
    refine not_judged_allBut hij hj' hid' (h [] _ _ (by simp) ?_ ?_)
    · rintro _ ⟨⟩
      exact oneEach_allBut _ _
    · simpa using oneEach_allBut _ j
  · intro hnodup patchJobId baseline samples _ hbaseline hsamples
    exact judged_of_nodup hnodup hbaseline hsamples

/-! ## A service that did not come up -/

def sampleLibrary : Library := ⟨fun _ => none, fun u => u == 0x20⟩

/-- The second entry has no id, and so its id is the number of the checks before it. -/
def sampleRaw : Json :=
  .arr [.obj [(text "id", .str (text "1")), (text "kind", .str (text "service")), (text "name", .str (text "nginx"))],
    .obj [(text "kind", .str (text "service")), (text "name", .str (text "mysql"))]]

/-- `mysql` ran before the change and does not run after it, and the verdict is that nothing failed. -/
theorem not_judged_sampleRaw :
    ¬ ∀ (patchJobId : Str) (baseline : Option (VerificationBaseline Unit)) (samples : List Sample), samples ≠ [] →
      (∀ b ∈ baseline, OneEach (parseChecks sampleLibrary sampleRaw) b.checksBefore) →
      (∀ s ∈ samples, OneEach (parseChecks sampleLibrary sampleRaw) s.outcomes) →
        Judged patchJobId baseline (parseChecks sampleLibrary sampleRaw) samples := by
  intro h
  have hlen : (parseChecks sampleLibrary sampleRaw).length = 2 := by decide
  have hids : (parseChecks sampleLibrary sampleRaw).map (·.id) = [text "1", text "1"] := by decide +kernel
  obtain ⟨nginx, mysql, hchecks⟩ := length_eq_two.mp hlen
  rw [hchecks] at h hids
  have hid : [nginx, mysql][0].id = [nginx, mysql][1].id := by simp_all
  refine not_judged_allBut Nat.zero_lt_one (by simp) hid (h [] _ _ (by simp) ?_ ?_)
  · rintro _ ⟨⟩
    exact oneEach_allBut _ _
  · simpa using oneEach_allBut _ 1

end Pmp.Verification
