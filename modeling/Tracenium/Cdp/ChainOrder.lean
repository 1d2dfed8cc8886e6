-- SUMMARY: When the verdicts on the chains of the stores do not depend on the order of the certificates, and say what paths there are.
import Tracenium.Cdp.Chains

/-!
Where no search is cut, the verdicts say what paths there are. The order still decides between two issuers of
one class, of which one ends in a root that is not trusted and the other one at a certificate without an issuer.
-/

open Utf16 List

namespace Cdp.Chains

section Graph

variable (r : Registry) (items : List CdpCertItem)

/-- What a chain that is not trusted may end with: `some false` at a root that is not trusted or at an invalid
signature, `none` at a certificate without an issuer. -/
inductive Ends : Option Bool → Str → Prop
  | alone {fp : Str} : (∀ c, ¬ Issuer r items fp c) → Ends none fp
  | invalid {fp c : Str} : Issuer r items fp c →
      (∀ c, Issuer r items fp c → r.verify fp c = some false) → Ends (some false) fp
  | root {fp c : Str} : BestIssuer r items fp c → r.selfSigned c = true → ¬ TrustedRoot r items c →
      Ends (some false) fp
  | link {b : Option Bool} {fp c : Str} : BestIssuer r items fp c → r.selfSigned c = false → Ends b c → Ends b fp

/-- No chain that is not trusted may end in both ways. -/
def Unambiguous : Prop :=
  ∀ item ∈ items, item.isEvaluated r = true → ¬ TrustedPath r items (MAX_DEPTH + 1) item.fingerprint256 →
    ¬ (Ends r items (some false) item.fingerprint256 ∧ Ends r items none item.fingerprint256)

end Graph

/-! ## The best verdict -/

section Best

variable {r : Registry} {items : List CdpCertItem} {x : Index} {fp c m : Str} {k : Nat}

theorem foldl_better (vs : List CdpChainVerdict) : vs.foldl better none = vs.argmax score := by
  congr 1
  funext best v
  cases best <;> rfl

theorem score_verdictWith (r : Registry) (x : Index) (v : Str → CdpChainVerdict) (fp c : Str) :
    score (verdictWith r x v fp c) = 2 * signatureClass (r.verify fp c) +
      if (verdictWith r x v fp c).trusted = some true then 1 else 0 := by
  unfold score verdictWith signatureClass
  cases hsig : r.verify fp c with
  | none => cases r.selfSigned c <;> simp
  | some valid => cases valid <;> cases r.selfSigned c <;> simp

theorem verdictWith_signatureValid (v : Str → CdpChainVerdict) :
    (verdictWith r x v fp c).signatureValid = r.verify fp c ∧ (verdictWith r x v fp c).issuerFound := by
  unfold verdictWith
  cases hsig : r.verify fp c with
  | none => cases r.selfSigned c <;> simp
  | some valid => cases valid <;> cases r.selfSigned c <;> simp

/-- The verdict of a certificate without an issuer, or that with the first of its best candidates. -/
theorem judge_cases (hx : Indexes r items x) (k : Nat) (fp : Str) :
    ((∀ c, ¬ Issuer r items fp c) ∧ judge r x (k + 1) fp = ⟨false, none, none⟩) ∨
    ∃ m pre post, Issuer r items fp m ∧ judge r x (k + 1) fp = verdictWith r x (judge r x k) fp m ∧
      (∀ c, Issuer r items fp c → score (verdictWith r x (judge r x k) fp c) ≤
        score (verdictWith r x (judge r x k) fp m)) ∧ candidates r x fp = pre ++ m :: post ∧ ∀ c ∈ pre,
        score (verdictWith r x (judge r x k) fp c) < score (verdictWith r x (judge r x k) fp m) := by
  have hjudge : judge r x (k + 1) fp = (((candidates r x fp).argmax fun c =>
      score (verdictWith r x (judge r x k) fp c)).map (verdictWith r x (judge r x k) fp)).getD
        ⟨false, none, none⟩ := by
    rw [judge, foldl_better, Best.argmax_map]
  cases hmax : (candidates r x fp).argmax fun c => score (verdictWith r x (judge r x k) fp c) with
  | none =>
    refine .inl ⟨fun c hc => ?_, by rw [hjudge, hmax]; rfl⟩
    have hmem := (hx.candidates fp c).mpr hc
    rw [argmax_eq_none.mp hmax] at hmem
    cases hmem
  | some m =>
    obtain ⟨pre, post, hsplit, hpre, hle⟩ := Best.exists_of_argmax hmax
    have hm : Issuer r items fp m := (hx.candidates fp m).mp (by simp [hsplit])
    exact .inr ⟨m, pre, post, hm, by rw [hjudge, hmax]; rfl,
      fun c hc => hle c ((hx.candidates fp c).mpr hc), hsplit, hpre⟩

theorem trustedRoot_selfSigned (hroot : TrustedRoot r items c) : r.selfSigned c := by
  obtain ⟨item, -, rfl, hitem⟩ := hroot
  unfold CdpCertItem.isTrustedRoot at hitem
  simp only [Bool.and_eq_true] at hitem
  exact hitem.1.2

/-- What the verdict with an issuer says of trust. -/
theorem verdictWith_root (hx : Indexes r items x) (v : Str → CdpChainVerdict) (hsig : r.verify fp c ≠ some false)
    (hself : r.selfSigned c) : (verdictWith r x v fp c).trusted = some true ∧ TrustedRoot r items c ∨
      (verdictWith r x v fp c).trusted = some false ∧ ¬ TrustedRoot r items c := by
  have htrusted : (verdictWith r x v fp c).trusted = some (x.trustedRoots.contains c) := by
    unfold verdictWith
    cases hverify : r.verify fp c with
    | none => simp [hself]
    | some valid =>
      cases valid with
      | false => exact absurd hverify hsig
      | true => simp [hself]
  rw [htrusted, ← hx.trustedRoots]
  by_cases hmem : c ∈ x.trustedRoots <;> simp [hmem]

theorem verdictWith_link (v : Str → CdpChainVerdict) (hsig : r.verify fp c ≠ some false)
    (hself : r.selfSigned c = false) : (verdictWith r x v fp c).trusted = (v c).trusted := by
  unfold verdictWith
  cases hverify : r.verify fp c with
  | none => simp [hself]
  | some valid =>
    cases valid with
    | false => exact absurd hverify hsig
    | true => simp [hself]

theorem verdictWith_invalid (v : Str → CdpChainVerdict) (hsig : r.verify fp c = some false) :
    verdictWith r x v fp c = ⟨true, some false, some false⟩ := by
  unfold verdictWith
  rw [hsig]

theorem signatureClass_injective : Function.Injective signatureClass := by
  intro a b hab
  rcases a with _ | _ | _ <;> rcases b with _ | _ | _ <;> simp_all [signatureClass]

/-- The candidate that is taken is of the best class. -/
theorem class_le {v : Str → CdpChainVerdict}
    (hm : ∀ c, Issuer r items fp c → score (verdictWith r x v fp c) ≤ score (verdictWith r x v fp m))
    (hc : Issuer r items fp c) : signatureClass (r.verify fp c) ≤ signatureClass (r.verify fp m) := by
  have hle := hm c hc
  rw [score_verdictWith, score_verdictWith] at hle
  split_ifs at hle <;> omega

theorem trusted_of_le {v : Str → CdpChainVerdict}
    (hclass : signatureClass (r.verify fp m) ≤ signatureClass (r.verify fp c))
    (hle : score (verdictWith r x v fp c) ≤ score (verdictWith r x v fp m))
    (hc : (verdictWith r x v fp c).trusted = some true) : (verdictWith r x v fp m).trusted = some true := by
  rw [score_verdictWith, score_verdictWith, if_pos hc] at hle
  by_contra hm
  rw [if_neg hm] at hle
  omega

theorem verify_of_trusted {v : Str → CdpChainVerdict} (hm : (verdictWith r x v fp m).trusted ≠ some false) :
    r.verify fp m ≠ some false := by
  intro hsig
  rw [verdictWith_invalid v hsig] at hm
  exact hm rfl

/-- The search that keeps nothing finds the paths that there are. -/
theorem judge_trusted_iff (hx : Indexes r items x) (k : Nat) (fp : Str) :
    (judge r x k fp).trusted = some true ↔ TrustedPath r items k fp := by
  induction k generalizing fp with
  | zero =>
    constructor
    · intro h
      cases h
    · intro h
      cases h
  | succ k ih =>
    constructor
    · intro htrusted
      rcases judge_cases hx k fp with ⟨-, hjudge⟩ | ⟨m, -, -, hm, hjudge, hmax, -, -⟩
      · rw [hjudge] at htrusted
        cases htrusted
      · rw [hjudge] at htrusted
        have hsig : r.verify fp m ≠ some false := by
          refine verify_of_trusted (?_ : (verdictWith r x (judge r x k) fp m).trusted ≠ some false)
          simp [htrusted]
        have hbest : BestIssuer r items fp m := ⟨hm, hsig, fun c hc => class_le hmax hc⟩
        cases hself : r.selfSigned m with
        | true =>
          rcases verdictWith_root hx (judge r x k) hsig hself with ⟨-, hroot⟩ | ⟨hfalse, -⟩
          · exact .root hbest hroot
          · rw [hfalse] at htrusted
            cases htrusted
        | false =>
          rw [verdictWith_link _ hsig hself] at htrusted
          exact .link hbest hself ((ih m).mp htrusted)
    · intro hpath
      obtain ⟨c, hbest, hc⟩ : ∃ c, BestIssuer r items fp c ∧
          (verdictWith r x (judge r x k) fp c).trusted = some true := by
        cases hpath with
        | @root _ _ c hbest hroot =>
          rcases verdictWith_root hx (judge r x k) hbest.2.1 (trustedRoot_selfSigned hroot) with
            ⟨htrue, -⟩ | ⟨-, hno⟩
          · exact ⟨c, hbest, htrue⟩
          · exact absurd hroot hno
        | @link _ _ c hbest hself hpath =>
          exact ⟨c, hbest, (verdictWith_link _ hbest.2.1 hself).trans ((ih c).mpr hpath)⟩
      rcases judge_cases hx k fp with ⟨hnone, -⟩ | ⟨m, -, -, hm, hjudge, hmax, -, -⟩
      · exact absurd hbest.1 (hnone c)
      · rw [hjudge]
        exact trusted_of_le (hbest.2.2 m hm) (hmax c hbest.1) hc

/-- A verdict that is not one of trust is that of an end of the chain. -/
theorem ends_of_judge (hx : Indexes r items x) (hk : Shallow (Follows r items) k fp)
    (hno : (judge r x k fp).trusted ≠ some true) : Ends r items (judge r x k fp).trusted fp := by
  induction k generalizing fp with
  | zero => exact hk.elim
  | succ k ih =>
    rcases judge_cases hx k fp with ⟨hnone, hjudge⟩ | ⟨m, -, -, hm, hjudge, hmax, -, -⟩
    · rw [hjudge]
      exact .alone hnone
    · rw [hjudge] at hno ⊢
      by_cases hsig : r.verify fp m = some false
      · -- the best class is that of invalid signatures
        rw [verdictWith_invalid _ hsig]
        refine .invalid hm fun c hc => ?_
        have hle := class_le hmax hc
        rw [hsig] at hle
        exact signatureClass_injective (Nat.le_zero.mp hle)
      · have hbest : BestIssuer r items fp m := ⟨hm, hsig, fun c hc => class_le hmax hc⟩
        cases hself : r.selfSigned m with
        | true =>
          rcases verdictWith_root hx (judge r x k) hsig hself with ⟨htrue, -⟩ | ⟨hfalse, hroot⟩
          · exact absurd htrue hno
          · rw [hfalse]
            exact .root hbest hself hroot
        | false =>
          rw [verdictWith_link _ hsig hself] at hno ⊢
          exact .link hbest hself (ih (hk.step ⟨hm, hsig, hself⟩) hno)

/-- Verdicts from two orders, but for trust. -/
theorem judge_signature (hx : Indexes r items x) {x' : Index} (hx' : Indexes r items x') :
    (judge r x (k + 1) fp).issuerFound = (judge r x' (k + 1) fp).issuerFound ∧
      (judge r x (k + 1) fp).signatureValid = (judge r x' (k + 1) fp).signatureValid := by
  rcases judge_cases hx k fp with ⟨hnone, hjudge⟩ | ⟨m, -, -, hm, hjudge, hmax, -, -⟩
  · rcases judge_cases hx' k fp with ⟨-, hjudge'⟩ | ⟨m', -, -, hm', -⟩
    · rw [hjudge, hjudge']
      exact ⟨rfl, rfl⟩
    · exact absurd hm' (hnone m')
  · rcases judge_cases hx' k fp with ⟨hnone', -⟩ | ⟨m', -, -, hm', hjudge', hmax', -, -⟩
    · exact absurd hm (hnone' m)
    · obtain ⟨hsig, hfound⟩ := @verdictWith_signatureValid r x fp m (judge r x k)
      obtain ⟨hsig', hfound'⟩ := @verdictWith_signatureValid r x' fp m' (judge r x' k)
      rw [hjudge, hjudge', hsig, hsig', hfound, hfound']
      exact ⟨rfl, signatureClass_injective (Nat.le_antisymm (class_le hmax' hm) (class_le hmax hm'))⟩

end Best

/-! ## Orders -/

section Orders

variable {r : Registry} {items : List CdpCertItem} {x : Index} {fp c : Str} {k : Nat} {b : Option Bool}

/-- Wherever a candidate is taken that is not as one wants it, those that are come before it. -/
def Puts (r : Registry) (x : Index) (p : Str → Prop) : Prop :=
  ∀ fp pre m post, candidates r x fp = pre ++ m :: post → ¬ p m → ∀ c ∈ candidates r x fp, p c → c ∈ pre

/-- Some order puts the certificates that one wants first. -/
theorem exists_puts (r : Registry) (items : List CdpCertItem) (p : Str → Prop) :
    ∃ items', items'.Perm items ∧ Puts r (index r items') p := by
  classical
  let want : CdpCertItem → Bool := fun item => decide (p item.fingerprint256)
  refine ⟨items.filter want ++ items.filter (!want ·), filter_append_perm want items, ?_⟩
  intro fp pre m post hsplit hm c hc hp
  -- the candidates that are wanted, then the others
  obtain ⟨first, second, hparts, hfirst, hsecond⟩ : ∃ first second : List Str,
      candidates r (index r (items.filter want ++ items.filter (!want ·))) fp = first ++ second ∧
        (∀ c ∈ first, p c) ∧ ∀ c ∈ second, ¬ p c := by
    unfold candidates
    cases hn : r.names fp with
    | none => exact ⟨[], [], rfl, by simp, by simp⟩
    | some n =>
      simp only [bySubject_index, map_append, filter_append, eraseDups_append]
      refine ⟨_, _, rfl, fun c hc => ?_, fun c hc => ?_⟩
      · simp only [mem_filter, mem_eraseDups, mem_map] at hc
        obtain ⟨⟨⟨item, ⟨-, hwant⟩, rfl⟩, -⟩, -⟩ := hc
        simpa [want] using hwant
      · simp only [removeAll, mem_filter, mem_eraseDups, mem_map] at hc
        obtain ⟨⟨⟨⟨item, ⟨-, hwant⟩, rfl⟩, -⟩, -⟩, -⟩ := hc
        simpa [want] using hwant
  have hcfirst : c ∈ first := by
    rw [hparts] at hc
    exact (mem_append.mp hc).resolve_right fun h => hsecond c h hp
  rw [hparts] at hsplit
  rcases append_eq_append_iff.mp hsplit with ⟨rest, hpre, -⟩ | ⟨rest, hpre, hrest⟩
  · rw [hpre]
    exact mem_append_left _ hcfirst
  · cases rest with
    | nil => simpa [hpre] using hcfirst
    | cons m' rest =>
      cases hrest
      exact absurd (hfirst m (by simp [hpre])) hm

/-- A candidate with which a chain may end as `b` says. -/
def Leads (r : Registry) (items : List CdpCertItem) (b : Option Bool) (c : Str) : Prop :=
  (r.selfSigned c = true ∧ ¬ TrustedRoot r items c ∧ b = some false) ∨ (r.selfSigned c = false ∧ Ends r items b c)

/-- Where those that lead there come first, the chain ends so if it may. -/
theorem judge_of_ends (hx : Indexes r items x) (hputs : Puts r x (Leads r items b))
    (hk : Shallow (Follows r items) k fp) (hno : ¬ TrustedPath r items k fp) (hends : Ends r items b fp) :
    (judge r x k fp).trusted = b := by
  induction k generalizing fp with
  | zero => exact hk.elim
  | succ k ih =>
    have hjudged : (judge r x (k + 1) fp).trusted ≠ some true := fun h => hno ((judge_trusted_iff hx _ _).mp h)
    -- the end is one of the certificate itself, or of a best issuer
    have hcases : (b = none ∧ ∀ c, ¬ Issuer r items fp c) ∨
        (b = some false ∧ (∃ c, Issuer r items fp c) ∧ ∀ c, Issuer r items fp c → r.verify fp c = some false) ∨
        ∃ c, BestIssuer r items fp c ∧ Leads r items b c := by
      cases hends with
      | alone hnone => exact .inl ⟨rfl, hnone⟩
      | invalid hc hall => exact .inr (.inl ⟨rfl, ⟨_, hc⟩, hall⟩)
      | root hbest hself hroot => exact .inr (.inr ⟨_, hbest, .inl ⟨hself, hroot, rfl⟩⟩)
      | link hbest hself hends => exact .inr (.inr ⟨_, hbest, .inr ⟨hself, hends⟩⟩)
    rcases judge_cases hx k fp with ⟨hnone, hjudge⟩ | ⟨m, pre, post, hm, hjudge, hmax, hsplit, hpre⟩
    · rw [hjudge]
      rcases hcases with ⟨rfl, -⟩ | ⟨-, ⟨c, hc⟩, -⟩ | ⟨c, hbest, -⟩
      · rfl
      · exact absurd hc (hnone c)
      · exact absurd hbest.1 (hnone c)
    · rw [hjudge] at hjudged ⊢
      rcases hcases with ⟨-, hnone⟩ | ⟨rfl, -, hall⟩ | ⟨c, hbest, hleads⟩
      · exact absurd hm (hnone m)
      · rw [verdictWith_invalid _ (hall m hm)]
      · have hclass := hbest.2.2 m hm
        have hleadsm : Leads r items b m := by
          by_contra hother
          -- the issuer that leads there comes first, and is not worse
          have hc := hputs fp pre m post hsplit hother c ((hx.candidates fp c).mpr hbest.1) hleads
          have hlt := hpre c hc
          rw [score_verdictWith, score_verdictWith, if_neg hjudged] at hlt
          omega
        have hsig : r.verify fp m ≠ some false := by
          intro hsig
          have hle := class_le hmax hbest.1
          rw [hsig] at hle
          exact hbest.2.1 (signatureClass_injective (Nat.le_zero.mp hle))
        rcases hleadsm with ⟨hself, hroot, rfl⟩ | ⟨hself, hends⟩
        · rcases verdictWith_root hx (judge r x k) hsig hself with ⟨htrue, -⟩ | ⟨hfalse, -⟩
          · exact absurd htrue hjudged
          · exact hfalse
        · rw [verdictWith_link _ hsig hself]
          have hbestm : BestIssuer r items fp m := ⟨hm, hsig, fun c hc => class_le hmax hc⟩
          exact ih (hk.step ⟨hm, hsig, hself⟩) (fun hpath => hno (.link hbestm hself hpath)) hends

/-! ## The scan -/

def withVerdict (r : Registry) (x : Index) (item : CdpCertItem) : CdpCertItem :=
  if item.isEvaluated r then
    { item with chain := some (judge r x (MAX_DEPTH + 1) item.fingerprint256) }
  else item

theorem annotate_eq (hx : Indexes r items x) {rest : List CdpCertItem} {memo : Memo}
    (hrest : ∀ item ∈ rest, item.isEvaluated r → Shallow (Follows r items) (MAX_DEPTH + 1) item.fingerprint256)
    (hmemo : Kept r items x memo) : annotate r x rest memo = rest.map (withVerdict r x) := by
  induction rest generalizing memo with
  | nil => rfl
  | cons item rest ih =>
    have hrest' := fun i hi => hrest i (mem_cons_of_mem item hi)
    rw [annotate, map_cons, withVerdict]
    cases hitem : item.isEvaluated r with
    | false => simpa using ih hrest' hmemo
    | true =>
      obtain ⟨hverdict, hkept⟩ := @evaluate_eq r items x _ _ memo hx []
        (hrest item mem_cons_self hitem) (by simp) hmemo
      simpa [hverdict] using ih hrest' hkept

theorem annotateStoreChains_eq (hcut : NoneCut r items) {items' : List CdpCertItem} (hperm : items'.Perm items) :
    annotateStoreChains r items' = items'.map (withVerdict r (index r items')) :=
  annotate_eq (indexes_of_perm hperm) (fun item hitem => hcut item (hperm.mem_iff.mp hitem))
    (kept_none r items _)

theorem tracesPaths_of_noneCut (hcut : NoneCut r items) : TracesPaths r items := by
  intro item hitem heval
  rw [annotateStoreChains_eq hcut (.refl items)] at hitem
  obtain ⟨item', hitem', rfl⟩ := mem_map.mp hitem
  have heval' : item'.isEvaluated r := by
    by_contra hno
    simp [withVerdict, hno] at heval
  refine ⟨judge r (index r items) (MAX_DEPTH + 1) item'.fingerprint256, by simp [withVerdict, heval'], ?_⟩
  have hfp : (withVerdict r (index r items) item').fingerprint256 = item'.fingerprint256 := by
    unfold withVerdict
    split <;> rfl
  rw [hfp]
  exact judge_trusted_iff (indexes_of_perm (.refl items)) _ _

/-- Without two ends to choose from, two orders come to the same verdict. -/
theorem judge_eq {x' : Index} (hx : Indexes r items x) (hx' : Indexes r items x')
    (hk : Shallow (Follows r items) (k + 1) fp) (hends : ¬ TrustedPath r items (k + 1) fp →
      ¬ (Ends r items (some false) fp ∧ Ends r items none fp)) : judge r x (k + 1) fp = judge r x' (k + 1) fp := by
  have htrusted : (judge r x (k + 1) fp).trusted = (judge r x' (k + 1) fp).trusted := by
    by_cases hpath : TrustedPath r items (k + 1) fp
    · rw [(judge_trusted_iff hx _ _).mpr hpath, (judge_trusted_iff hx' _ _).mpr hpath]
    · have hend := ends_of_judge hx hk fun h => hpath ((judge_trusted_iff hx _ _).mp h)
      have hend' := ends_of_judge hx' hk fun h => hpath ((judge_trusted_iff hx' _ _).mp h)
      have hno := mt (judge_trusted_iff hx (k + 1) fp).mp hpath
      have hno' := mt (judge_trusted_iff hx' (k + 1) fp).mp hpath
      revert hend hend' hno hno'
      rcases (judge r x (k + 1) fp).trusted with _ | _ | _ <;>
        rcases (judge r x' (k + 1) fp).trusted with _ | _ | _
      · simp
      · exact fun hnone hfalse _ _ => absurd ⟨hfalse, hnone⟩ (hends hpath)
      · simp
      · exact fun hfalse hnone _ _ => absurd ⟨hfalse, hnone⟩ (hends hpath)
      all_goals simp
  obtain ⟨hfound, hsignature⟩ := @judge_signature r items x fp k hx x' hx'
  cases hv : judge r x (k + 1) fp
  cases hv' : judge r x' (k + 1) fp
  simp_all

theorem withVerdict_fields (item : CdpCertItem) : (withVerdict r x item).fingerprint256 = item.fingerprint256 ∧
      (withVerdict r x item).isEvaluated r = item.isEvaluated r := by
  unfold withVerdict
  split <;> exact ⟨rfl, rfl⟩

/-- Where no search is cut, the verdicts do not depend on the order of the certificates and say what paths
there are, exactly when no chain may end in both ways. -/
theorem orderFree_iff_unambiguous (r : Registry) (items : List CdpCertItem) (hcut : NoneCut r items) :
    (OrderFree r items ∧ TracesPaths r items) ↔ Unambiguous r items := by
  constructor
  · rintro ⟨hfree, -⟩ item hitem heval hno ⟨hfalse, hnone⟩
    have hshallow := hcut item hitem heval
    -- an order for each of the two ends
    obtain ⟨items₁, hperm₁, hputs₁⟩ := exists_puts r items (Leads r items (some false))
    obtain ⟨items₂, hperm₂, hputs₂⟩ := exists_puts r items (Leads r items none)
    have hjudge₁ := judge_of_ends (indexes_of_perm hperm₁) hputs₁ hshallow hno hfalse
    have hjudge₂ := judge_of_ends (indexes_of_perm hperm₂) hputs₂ hshallow hno hnone
    have hsame := (hfree items₁ hperm₁).trans (hfree items₂ hperm₂).symm
    rw [annotateStoreChains_eq hcut hperm₁, annotateStoreChains_eq hcut hperm₂] at hsame
    have hmem : withVerdict r (index r items₁) item ∈ items₂.map (withVerdict r (index r items₂)) :=
      hsame.mem_iff.mp (mem_map_of_mem (hperm₁.mem_iff.mpr hitem))
    obtain ⟨item₂, -, heq⟩ := mem_map.mp hmem
    obtain ⟨hfp, heval'⟩ := @withVerdict_fields r (index r items₁) item
    obtain ⟨hfp₂, heval₂⟩ := @withVerdict_fields r (index r items₂) item₂
    rw [heq, hfp] at hfp₂
    rw [heq, heval', heval] at heval₂
    have hchain := congrArg CdpCertItem.chain heq
    rw [withVerdict, withVerdict, if_pos heval, if_pos heval₂.symm, ← hfp₂] at hchain
    have hverdict := congrArg CdpChainVerdict.trusted (Option.some.inj hchain)
    rw [hjudge₁, hjudge₂] at hverdict
    cases hverdict
  · intro hends
    refine ⟨fun items' hperm => ?_, tracesPaths_of_noneCut hcut⟩
    rw [annotateStoreChains_eq hcut hperm, annotateStoreChains_eq hcut (.refl items)]
    have hverdicts : items.map (withVerdict r (index r items')) = items.map (withVerdict r (index r items)) := by
      refine map_congr_left fun item hitem => ?_
      unfold withVerdict
      by_cases heval : item.isEvaluated r
      · rw [if_pos heval, if_pos heval, judge_eq (indexes_of_perm hperm) (indexes_of_perm (.refl items))
          (hcut item hitem heval) (hends item hitem heval)]
      · rw [if_neg heval, if_neg heval]
    exact hverdicts ▸ hperm.map _

end Orders

/-! ## Samples -/

/-- Two certificates, the second one issued by the root, and with it the first one by the second. -/
def sampleRegistry : Registry where
  names fp :=
    if fp = text "root" then some ⟨text "A", text "A"⟩
    else if fp = text "ca" then some ⟨text "B", text "A"⟩
    else if fp = text "leaf" then some ⟨text "C", text "B"⟩
    else none
  checkIssued _ _ := some true
  verify _ _ := some true

def sampleItems : List CdpCertItem :=
  [⟨text "leaf", .file, .machine, none, none⟩, ⟨text "ca", .listener, .network, none, none⟩,
    ⟨text "root", .store, .systemRoots, none, none⟩]

theorem noneCut_sampleItems : NoneCut sampleRegistry sampleItems := by
  have hdown : ∀ fp c, Follows sampleRegistry sampleItems fp c → fp = text "leaf" ∧ c = text "ca" := by
    rintro fp c ⟨⟨n, m, hn, hm, hsubject, -, -, item, hitem, rfl⟩, -, hself⟩
    have hissuer : n.issuer = text "A" ∨ (n.issuer = text "B" ∧ fp = text "leaf") := by
      simp only [sampleRegistry] at hn
      split_ifs at hn with hroot hca hleaf
      · cases hn
        exact .inl rfl
      · cases hn
        exact .inl rfl
      · cases hn
        exact .inr ⟨rfl, hleaf⟩
    simp only [sampleItems, mem_cons, not_mem_nil, or_false] at hitem
    rcases hitem with rfl | rfl | rfl
    · cases hm
      rcases hissuer with h | ⟨h, -⟩ <;> exact absurd (hsubject.trans h) (by decide)
    · cases hm
      rcases hissuer with h | ⟨-, hfp⟩
      · exact absurd (hsubject.trans h) (by decide)
      · exact ⟨hfp, rfl⟩
    · exact absurd hself (by decide)
  intro item _ _
  refine .of_rank (fun fp => if fp = text "leaf" then 1 else 0) (fun fp c hfollows => ?_) ?_
  · obtain ⟨rfl, rfl⟩ := hdown fp c hfollows
    decide
  · split <;> decide

theorem orderFree_iff_unambiguous_sampleItems :
    (OrderFree sampleRegistry sampleItems ∧ TracesPaths sampleRegistry sampleItems) ↔
      Unambiguous sampleRegistry sampleItems :=
  orderFree_iff_unambiguous sampleRegistry sampleItems noneCut_sampleItems

/-- A root, a certificate for its key by another authority, and one for that authority by the root. -/
def crossRegistry : Registry where
  names fp :=
    if fp = text "root" then some ⟨text "A", text "A"⟩
    else if fp = text "cross" then some ⟨text "A", text "B"⟩
    else if fp = text "other" then some ⟨text "B", text "A"⟩
    else none
  checkIssued _ _ := some true
  verify _ _ := some true

def crossItems : List CdpCertItem :=
  [⟨text "other", .store, .machine, none, none⟩, ⟨text "cross", .store, .machine, none, none⟩,
    ⟨text "root", .store, .systemRoots, none, none⟩]

/-- The cross-certificate that is looked at first is trusted, and is not when it comes second. -/
theorem not_orderFree_crossItems : ¬ (OrderFree crossRegistry crossItems ∧ TracesPaths crossRegistry crossItems) := by
  rintro ⟨hfree, -⟩
  have hsame := hfree
    [⟨text "cross", .store, .machine, none, none⟩, ⟨text "other", .store, .machine, none, none⟩,
      ⟨text "root", .store, .systemRoots, none, none⟩] (by decide)
  exact absurd hsame (by decide)

end Cdp.Chains
