-- SUMMARY: The verdicts on the chains of the certificates of the stores, and when a search has those of one that keeps nothing.
import Tracenium.Lib.Lists
import Tracenium.Lib.Utf16
import Tracenium.Lib.Shallow
import Mathlib.Logic.Function.Basic

/-!
`annotateStoreChains` of `chain-verify.ts`. For each certificate it looks for an issuer among all that were
found, and goes up from there, at most `MAX_DEPTH` levels. What it finds of a certificate is kept for the
rest of the scan.
-/

open Utf16 List Function

namespace Cdp.Chains

def MAX_DEPTH : Nat := 8

inductive Source
  | store
  | javaStore
  | listener
  | file
  | nss
  | probe
  | adcs
  deriving DecidableEq

inductive StoreScope
  | machine
  | user
  | systemRoots
  | network
  deriving DecidableEq

/-- What is said of a chain. A field that is left out is `none`. -/
structure CdpChainVerdict where
  issuerFound : Bool
  signatureValid : Option Bool
  trusted : Option Bool
  deriving DecidableEq

structure CdpCertItem where
  fingerprint256 : Str
  source : Source
  scope : StoreScope
  trustAnchor : Option Bool
  chain : Option CdpChainVerdict
  deriving DecidableEq

structure Names where
  subject : Str
  issuer : Str
  deriving DecidableEq

/-- The certificates that are registered and parse, and what the crypto library says of two of them. It
throws where there is no answer: `verify` does for an algorithm that it does not know. -/
structure Registry where
  names : Str → Option Names
  checkIssued : Str → Str → Option Bool
  verify : Str → Str → Option Bool

def Registry.selfSigned (r : Registry) (fp : Str) : Bool :=
  (r.names fp).any fun n => n.subject = n.issuer

/-- `EVALUATED_SOURCES`. -/
def Source.evaluated : Source → Bool
  | .store => true
  | .javaStore => true
  | .file => true
  | .nss => true
  | _ => false

/-! ## The index -/

structure Index where
  bySubject : Str → List Str
  trustedRoots : List Str

/-- A root of the system's store; on macOS also one that the system says it trusts. -/
def CdpCertItem.isTrustedRoot (r : Registry) (item : CdpCertItem) : Bool :=
  item.source = .store && r.selfSigned item.fingerprint256 &&
    (item.scope = .systemRoots || item.trustAnchor == some true)

def indexItem (r : Registry) (x : Index) (item : CdpCertItem) : Index :=
  match r.names item.fingerprint256 with
  | none => x
  | some n =>
    { bySubject := update x.bySubject n.subject
        (Firsts.add (x.bySubject n.subject) item.fingerprint256)
      trustedRoots :=
        if item.isTrustedRoot r then Firsts.add x.trustedRoots item.fingerprint256 else x.trustedRoots }

def index (r : Registry) (items : List CdpCertItem) : Index :=
  items.foldl (indexItem r) ⟨fun _ => [], []⟩

/-! ## The search -/

abbrev Memo := Str → Option CdpChainVerdict

section Search

variable (r : Registry) (x : Index)

def candidates (fp : Str) : List Str :=
  match r.names fp with
  | none => []
  | some n => (x.bySubject n.issuer).filter fun c => c != fp && r.checkIssued fp c == some true

/-- What is known of a chain that is not followed to its end. -/
def cut : CdpChainVerdict := ⟨true, none, none⟩

def score (v : CdpChainVerdict) : Nat :=
  (match v.signatureValid with
    | some true => 2
    | none => 1
    | some false => 0) * 2 + if v.trusted = some true then 1 else 0

/-- The verdict with one candidate. `up` goes on from there. -/
def withCandidate (up : Str → Memo → CdpChainVerdict × Memo) (fp c : Str) (memo : Memo) :
    CdpChainVerdict × Memo :=
  match r.verify fp c with
  | some false => (⟨true, some false, some false⟩, memo)
  | sig =>
    if r.selfSigned c then (⟨true, sig, some (x.trustedRoots.contains c)⟩, memo)
    else
      let found := up c memo
      (⟨true, sig, found.1.trusted⟩, found.2)

def better (best : Option CdpChainVerdict) (v : CdpChainVerdict) : Option CdpChainVerdict :=
  match best with
  | none => some v
  | some b => if score b < score v then some v else some b

/-- The candidates in turn, with the best verdict so far. -/
def overCandidates (up : Str → Memo → CdpChainVerdict × Memo) (fp : Str) :
    List Str → Option CdpChainVerdict → Memo → Option CdpChainVerdict × Memo
  | [], best, memo => (best, memo)
  | c :: cs, best, memo =>
    let found := withCandidate r x up fp c memo
    overCandidates up fp cs (better best found.1) found.2

/-- `depth` is `MAX_DEPTH + 1` less the levels that are left. What is added to `visiting` is taken out of it
again at the end. -/
def evaluate : Nat → List Str → Str → Memo → CdpChainVerdict × Memo
  | 0, _, fp, memo => ((memo fp).getD cut, memo)
  | left + 1, visiting, fp, memo =>
    match memo fp with
    | some known => (known, memo)
    | none =>
      if visiting.contains fp then (cut, memo)
      else
        let found := overCandidates r x (evaluate left (fp :: visiting)) fp (candidates r x fp) none memo
        let verdict := found.1.getD ⟨false, none, none⟩
        (verdict, update found.2 fp (some verdict))

def CdpCertItem.isEvaluated (item : CdpCertItem) : Bool :=
  item.source.evaluated && (r.names item.fingerprint256).isSome && !r.selfSigned item.fingerprint256

def annotate : List CdpCertItem → Memo → List CdpCertItem
  | [], _ => []
  | item :: items, memo =>
    if item.isEvaluated r then
      let found := evaluate r x (MAX_DEPTH + 1) [] item.fingerprint256 memo
      { item with chain := some found.1 } :: annotate items found.2
    else item :: annotate items memo

end Search

def annotateStoreChains (r : Registry) (items : List CdpCertItem) : List CdpCertItem :=
  annotate r (index r items) items fun _ => none

/-! ## What the verdicts say -/

section Verdicts

variable (r : Registry) (items : List CdpCertItem)

/-- `c` is found, and is an issuer of `fp`. -/
def Issuer (fp c : Str) : Prop :=
  ∃ n m, r.names fp = some n ∧ r.names c = some m ∧ m.subject = n.issuer ∧ c ≠ fp ∧
    r.checkIssued fp c = some true ∧ ∃ item ∈ items, item.fingerprint256 = c

def TrustedRoot (c : Str) : Prop :=
  ∃ item ∈ items, item.fingerprint256 = c ∧ item.isTrustedRoot r = true

/-- Signatures that verify come before those of unknown algorithms, and these before those that do not. -/
def signatureClass : Option Bool → Nat
  | some true => 2
  | none => 1
  | some false => 0

/-- An issuer of the best signature class, with a signature that is not invalid. -/
def BestIssuer (fp c : Str) : Prop :=
  Issuer r items fp c ∧ r.verify fp c ≠ some false ∧
    ∀ c', Issuer r items fp c' → signatureClass (r.verify fp c') ≤ signatureClass (r.verify fp c)

/-- A path of at most so many links to best issuers ends in a trusted root. A self-issued certificate ends
its path. -/
inductive TrustedPath : Nat → Str → Prop
  | root {k : Nat} {fp c : Str} : BestIssuer r items fp c → TrustedRoot r items c → TrustedPath (k + 1) fp
  | link {k : Nat} {fp c : Str} : BestIssuer r items fp c → r.selfSigned c = false → TrustedPath k c →
      TrustedPath (k + 1) fp

/-- The order in which the certificates were found makes no difference. -/
def OrderFree : Prop :=
  ∀ items', items'.Perm items → (annotateStoreChains r items').Perm (annotateStoreChains r items)

/-- A certificate is trusted if and only if there is a path. -/
def TracesPaths : Prop :=
  ∀ item ∈ annotateStoreChains r items, item.isEvaluated r = true → ∃ v, item.chain = some v ∧
      (v.trusted = some true ↔ TrustedPath r items (MAX_DEPTH + 1) item.fingerprint256)

end Verdicts

end Cdp.Chains

/-!
# Searches that are not cut

A verdict that is kept for the rest of the scan may come from a search that was cut, at its limit or where it
came back to a certificate on its way. Where no search is cut, the verdicts are those of a search that keeps
nothing and looks at no certificate on its way.
-/

open Relation

namespace Cdp.Chains

section Graph

variable (r : Registry) (items : List CdpCertItem)

def Follows (fp c : Str) : Prop :=
  Issuer r items fp c ∧ r.verify fp c ≠ some false ∧ r.selfSigned c = false

/-- No chain of issuers gets to the limit of the search, or comes back to a certificate. -/
def NoneCut : Prop :=
  ∀ item ∈ items, item.isEvaluated r = true → Shallow (Follows r items) (MAX_DEPTH + 1) item.fingerprint256

end Graph

/-! ## The index -/

section Index

variable {r : Registry} {items : List CdpCertItem} {x : Index} {fp c : Str}

/-- An index of the certificates, in whatever order. -/
structure Indexes (r : Registry) (items : List CdpCertItem) (x : Index) : Prop where
  candidates : ∀ fp c, c ∈ candidates r x fp ↔ Issuer r items fp c
  trustedRoots : ∀ c, c ∈ x.trustedRoots ↔ TrustedRoot r items c

def hasSubject (r : Registry) (d fp : Str) : Bool := (r.names fp).any fun n => n.subject = d

theorem foldl_indexItem_bySubject (r : Registry) (items : List CdpCertItem) (x : Index) (d : Str) :
    (items.foldl (indexItem r) x).bySubject d =
      ((items.map CdpCertItem.fingerprint256).filter (hasSubject r d)).foldl Firsts.add (x.bySubject d) := by
  induction items generalizing x with
  | nil => rfl
  | cons item items ih =>
    rw [foldl_cons, ih, map_cons]
    unfold indexItem
    cases hn : r.names item.fingerprint256 with
    | none => rw [filter_cons_of_neg (by simp [hasSubject, hn])]
    | some n =>
      by_cases hd : n.subject = d
      · subst hd
        rw [filter_cons_of_pos (by simp [hasSubject, hn]), foldl_cons]
        simp
      · rw [filter_cons_of_neg (by simp [hasSubject, hn, hd])]
        simp [update_of_ne (Ne.symm hd)]

theorem foldl_indexItem_trustedRoots (r : Registry) (items : List CdpCertItem) (x : Index) :
    c ∈ (items.foldl (indexItem r) x).trustedRoots ↔ c ∈ x.trustedRoots ∨ TrustedRoot r items c := by
  induction items generalizing x with
  | nil => simp [TrustedRoot]
  | cons item items ih =>
    have hitem : c ∈ (indexItem r x item).trustedRoots ↔
        c ∈ x.trustedRoots ∨ (item.fingerprint256 = c ∧ item.isTrustedRoot r = true) := by
      unfold indexItem
      cases hn : r.names item.fingerprint256 with
      | none =>
        -- what does not parse is no root
        simp [CdpCertItem.isTrustedRoot, Registry.selfSigned, hn]
      | some n =>
        cases hroot : item.isTrustedRoot r with
        | true => simp [Firsts.mem_add, eq_comm]
        | false => simp
    rw [foldl_cons, ih, hitem]
    simp [TrustedRoot, or_assoc]

theorem bySubject_index (r : Registry) (items : List CdpCertItem) (d : Str) : (index r items).bySubject d =
    ((items.map CdpCertItem.fingerprint256).filter (hasSubject r d)).eraseDups := by
  unfold index
  rw [foldl_indexItem_bySubject, Firsts.foldl_add]
  simp

theorem mem_candidates_index : c ∈ candidates r (index r items) fp ↔ Issuer r items fp c := by
  unfold candidates Issuer
  cases hn : r.names fp with
  | none => simp
  | some n =>
    cases hm : r.names c with
    | none => simp [bySubject_index, hasSubject, hm]
    | some m =>
      simp only [bySubject_index, mem_filter, mem_eraseDups, hasSubject, hm]
      simp
      tauto

/-- The certificates in any order. -/
theorem indexes_of_perm {items' : List CdpCertItem} (hperm : items'.Perm items) :
    Indexes r items (index r items') where
  candidates fp c := by
    rw [mem_candidates_index]
    unfold Issuer
    simp only [hperm.mem_iff]
  trustedRoots c := by
    unfold index
    rw [foldl_indexItem_trustedRoots]
    unfold TrustedRoot
    simp [hperm.mem_iff]

end Index

/-! ## The search that keeps nothing -/

section Judge

variable (r : Registry) (x : Index)

/-- The verdict with one candidate, from what is known of it. -/
def verdictWith (up : Str → CdpChainVerdict) (fp c : Str) : CdpChainVerdict :=
  match r.verify fp c with
  | some false => ⟨true, some false, some false⟩
  | sig =>
    if r.selfSigned c then ⟨true, sig, some (x.trustedRoots.contains c)⟩ else ⟨true, sig, (up c).trusted⟩

def judge : Nat → Str → CdpChainVerdict
  | 0, _ => cut
  | left + 1, fp =>
    (((candidates r x fp).map (verdictWith r x (judge left) fp)).foldl better none).getD ⟨false, none, none⟩

end Judge

section Search

variable {r : Registry} {items : List CdpCertItem} {x : Index} {fp c : Str} {k l : Nat} {memo : Memo}

/-- The search goes on at a candidate, or has its verdict at once. -/
theorem withCandidate_cases (r : Registry) (x : Index) (up : Str → Memo → CdpChainVerdict × Memo)
    (fp c : Str) (memo : Memo) : (r.verify fp c ≠ some false ∧ r.selfSigned c = false ∧
      withCandidate r x up fp c memo = (⟨true, r.verify fp c, (up c memo).1.trusted⟩, (up c memo).2) ∧
      ∀ v, verdictWith r x v fp c = ⟨true, r.verify fp c, (v c).trusted⟩) ∨
    (∀ v, withCandidate r x up fp c memo = (verdictWith r x v fp c, memo)) := by
  unfold withCandidate verdictWith
  cases hsig : r.verify fp c with
  | none =>
    cases hself : r.selfSigned c with
    | true => exact .inr fun _ => by simp
    | false => exact .inl ⟨by simp, rfl, by simp, by simp⟩
  | some valid =>
    cases valid with
    | false => exact .inr fun _ => rfl
    | true =>
      cases hself : r.selfSigned c with
      | true => exact .inr fun _ => by simp
      | false => exact .inl ⟨by simp, rfl, by simp, by simp⟩

theorem verdictWith_congr {v v' : Str → CdpChainVerdict}
    (hv : r.verify fp c ≠ some false → r.selfSigned c = false → v c = v' c) :
    verdictWith r x v fp c = verdictWith r x v' fp c := by
  rcases withCandidate_cases r x (fun c memo => (v c, memo)) fp c fun _ => none with
    ⟨hsig, hself, -, hverdict⟩ | hverdict
  · rw [hverdict, hverdict, hv hsig hself]
  · exact congrArg Prod.fst ((hverdict v).symm.trans (hverdict v'))

/-- The depth makes no difference while the search is not cut. -/
theorem judge_congr (hx : Indexes r items x) (hk : Shallow (Follows r items) k fp)
    (hl : Shallow (Follows r items) l fp) : judge r x k fp = judge r x l fp := by
  induction k generalizing l fp with
  | zero => exact hk.elim
  | succ k ih =>
    cases l with
    | zero => exact hl.elim
    | succ l =>
      have hmap : (candidates r x fp).map (verdictWith r x (judge r x k) fp) =
          (candidates r x fp).map (verdictWith r x (judge r x l) fp) := by
        refine map_congr_left fun c hc => verdictWith_congr fun hsig hself => ?_
        have hfollows : Follows r items fp c := ⟨(hx.candidates fp c).mp hc, hsig, hself⟩
        exact ih (hk.step hfollows) (hl.step hfollows)
      rw [judge, judge, hmap]

def Kept (r : Registry) (items : List CdpCertItem) (x : Index) (memo : Memo) : Prop :=
  ∀ fp v, memo fp = some v → ∃ k, Shallow (Follows r items) k fp ∧ v = judge r x k fp

theorem kept_none (r : Registry) (items : List CdpCertItem) (x : Index) : Kept r items x fun _ => none := by
  intro fp v hv
  cases hv

theorem Kept.update (hmemo : Kept r items x memo) (hfp : Shallow (Follows r items) k fp) :
    Kept r items x (update memo fp (some (judge r x k fp))) := by
  intro fp' v hv
  by_cases heq : fp' = fp
  · subst heq
    rw [update_self] at hv
    cases hv
    exact ⟨k, hfp, rfl⟩
  · rw [update_of_ne heq] at hv
    exact hmemo fp' v hv

theorem overCandidates_eq {up : Str → Memo → CdpChainVerdict × Memo} {v : Str → CdpChainVerdict}
    {cs : List Str} {best : Option CdpChainVerdict} (hcs : ∀ c ∈ cs, Issuer r items fp c)
    (hup : ∀ c memo, Follows r items fp c → Kept r items x memo →
      (up c memo).1 = v c ∧ Kept r items x (up c memo).2) (hmemo : Kept r items x memo) :
    (overCandidates r x up fp cs best memo).1 = (cs.map (verdictWith r x v fp)).foldl better best ∧
      Kept r items x (overCandidates r x up fp cs best memo).2 := by
  induction cs generalizing best memo with
  | nil => exact ⟨rfl, hmemo⟩
  | cons c cs ih =>
    have hfound : (withCandidate r x up fp c memo).1 = verdictWith r x v fp c ∧
        Kept r items x (withCandidate r x up fp c memo).2 := by
      rcases withCandidate_cases r x up fp c memo with ⟨hsig, hself, hfound, hverdict⟩ | hfound
      · obtain ⟨hvalue, hkept⟩ := hup c memo ⟨hcs c mem_cons_self, hsig, hself⟩ hmemo
        rw [hfound, hverdict, hvalue]
        exact ⟨rfl, hkept⟩
      · rw [hfound v]
        exact ⟨rfl, hmemo⟩
    rw [overCandidates, map_cons, foldl_cons, ← hfound.1]
    exact ih (fun c hc => hcs c (mem_cons_of_mem _ hc)) hfound.2

/-- A search that is not cut has the verdict of the one that keeps nothing. -/
theorem evaluate_eq (hx : Indexes r items x) {visiting : List Str} (hfp : Shallow (Follows r items) k fp)
    (hvisiting : ∀ a ∈ visiting, TransGen (Follows r items) a fp) (hmemo : Kept r items x memo) :
    (evaluate r x k visiting fp memo).1 = judge r x k fp ∧ Kept r items x (evaluate r x k visiting fp memo).2 := by
  induction k generalizing fp visiting memo with
  | zero => exact hfp.elim
  | succ k ih =>
    rw [evaluate]
    cases hknown : memo fp with
    | some known =>
      obtain ⟨l, hl, hverdict⟩ := hmemo fp known hknown
      exact ⟨hverdict.trans (judge_congr hx hl hfp), hmemo⟩
    | none =>
      -- a certificate that is being visited would lie on a cycle
      have hfresh : visiting.contains fp = false := by
        simpa using fun h => hfp.not_cycle (hvisiting fp h)
      have hup : ∀ c memo, Follows r items fp c → Kept r items x memo →
          (evaluate r x k (fp :: visiting) c memo).1 = judge r x k c ∧
            Kept r items x (evaluate r x k (fp :: visiting) c memo).2 := by
        intro c memo hfollows hmemo
        refine ih (hfp.step hfollows) (fun a ha => ?_) hmemo
        rcases mem_cons.mp ha with rfl | ha
        · exact .single hfollows
        · exact (hvisiting a ha).tail hfollows
      obtain ⟨hbest, hkept⟩ := @overCandidates_eq r items x fp memo _ _ _ none
        (fun c hc => (hx.candidates fp c).mp hc) hup hmemo
      simp only [hfresh]
      have hjudge : (overCandidates r x (evaluate r x k (fp :: visiting)) fp (candidates r x fp) none memo).1.getD
          ⟨false, none, none⟩ = judge r x (k + 1) fp := by rw [hbest, judge]
      rw [hjudge]
      exact ⟨rfl, hkept.update hfp⟩

end Search

end Cdp.Chains
