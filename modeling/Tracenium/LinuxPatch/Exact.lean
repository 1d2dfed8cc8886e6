-- SUMMARY: When an install acts exactly on what was requested: no id taken for that of another package, on Debian and on RPM hosts.
import Tracenium.LinuxPatch.Install

/-!
The items carry the names of their packages. The installs recover them from the ids instead: apt's from the
last item with the id, dnf's from what stands before the first dot of an id that does not look like an
advisory.
-/

open Utf16 Json Words Option
open Hardening (dot dash)
open Ipc (isSpace trim)

namespace LinuxPatch

open RpmUpdate

inductive Host
  | debian (updates : List AptUpdate)
  | rhel (advisories : List Advisory) (updates : List RpmUpdate)

namespace Host

def live : Host → List ScanItem
  | .debian us => parseAptUpgradable (aptList us)
  | .rhel as us => scanDnf (updateinfo as) (checkUpdate us)

def selected (h : Host) (sel : Selection) : List ScanItem :=
  (matchRequestedItems h.live sel.ids).selected.map Placed.item

/-- What the package manager of the host takes its command for, if one is run. -/
def handed (h : Host) (mode : Mode) (sel : Selection) : Option Reading :=
  match h with
  | .debian _ => (installApt h.live mode (h.selected sel)).map reading
  | .rhel _ _ => (installDnf mode (h.selected sel)).map reading

def options : Host → Mode → List Str
  | .debian _ => aptOptions
  | .rhel _ _ => dnfOptions

/-- The argument names the package of the item. dnf takes the name alone for all architectures. -/
def Names : Host → Str → ScanItem → Prop
  | .debian _, a, it => it.packageName = some a
  | .rhel _ us, a, it => ∃ u ∈ us, u.item = it ∧ (a = u.name ∨ a = u.pkgArch)

end Host

/-- The command names what is selected, and nothing else. -/
structure Exact (h : Host) (mode : Mode) (selected : List ScanItem) (r : Reading) : Prop where
  options : r.options = h.options mode
  advisories : ∀ id, id ∈ r.advisories ↔ ∃ it ∈ selected, it.packageName = none ∧ it.hotFixId = id
  all : ∀ it ∈ selected, it.packageName ≠ none → ∃ a ∈ r.packages, h.Names a it
  only : ∀ a ∈ r.packages, ∃ it ∈ selected, h.Names a it
  /-- A pending package that is named besides is selected. -/
  others : ∀ a ∈ r.packages, ∀ it ∈ h.live, h.Names a it → ∃ it' ∈ selected, it'.packageName = it.packageName

/-- An install acts on what was requested. -/
structure ActsExactly (published : Str → Str → Prop) (h : Host) (mode : Mode) (sel : Selection) : Prop where
  ran : h.handed mode sel = none → h.selected sel = []
  exact : ∀ r ∈ h.handed mode sel, Exact h mode (h.selected sel) r
  requested : ∀ it ∈ h.selected sel, ∃ want ∈ sel.ids, Requests published want it

/-- No id of a selected item is taken for that of another package. -/
def Host.Resolves (h : Host) (selected : List ScanItem) : Prop :=
  match h with
  | .debian _ => ∀ name, (∃ it ∈ selected, ∃ last ∈ byId h.live it.hotFixId, last.item.packageName = some name) ↔
      ∃ it ∈ selected, it.packageName = some name
  | .rhel as us =>
    (∀ a ∈ as, a.item ∈ selected → isAdvisoryLike a.id = true) ∧
      ∀ u ∈ us, u.item ∈ selected → isAdvisoryLike u.item.hotFixId = false ∧ dot ∉ u.name ∧
        ∀ v ∈ us, v.item ∈ h.live → v.name = u.name → ∃ w ∈ us, w.item ∈ selected ∧ w.pkgArch = v.pkgArch

/-- What a requested id is taken for was requested. -/
def Meant (published : Str → Str → Prop) (h : Host) (sel : Selection) : Prop :=
  ∀ want ∈ sel.ids, ∀ it, TakenFor h.live want it → ∃ want' ∈ sel.ids, Requests published want' it.item

/-! ## Requested ids -/

theorem ne_nil_of_mem_ids {sel : Selection} {want : Str} (h : want ∈ sel.ids) : want ≠ [] := by
  rintro rfl
  exact absurd (sel.well_formed [] h) (by simp [isPatchId])

theorem requested_iff_meant (published : Str → Str → Prop) (h : Host) (sel : Selection) :
    (∀ it ∈ h.selected sel, ∃ want ∈ sel.ids, Requests published want it) ↔ Meant published h sel := by
  constructor
  · intro hrequested want hwant it htaken
    have hhit : hit h.live want = some it := (hit_eq_some_iff (ne_nil_of_mem_ids hwant)).mpr (.inr htaken)
    exact hrequested it.item (List.mem_map_of_mem (mem_selected.mpr ⟨want, hwant, hhit⟩))
  · intro hmeant item hitem
    obtain ⟨it, hit, rfl⟩ := List.mem_map.mp hitem
    obtain ⟨want, hwant, hhit⟩ := mem_selected.mp hit
    rcases (hit_eq_some_iff (ne_nil_of_mem_ids hwant)).mp hhit with hid | htaken
    · exact ⟨want, hwant, .inl (mem_of_byId hid).2.symm⟩
    · exact hmeant want hwant it htaken

theorem mem_live_of_mem_selected {h : Host} {sel : Selection} {it : ScanItem} (hit : it ∈ h.selected sel) :
    it ∈ h.live := by
  obtain ⟨it', hit', rfl⟩ := List.mem_map.mp hit
  exact mem_live_of_selected hit'

/-! ## Debian -/

section Debian

variable {us : List AptUpdate}

theorem mem_live_debian {it : ScanItem} (hit : it ∈ (Host.debian us).live) : ∃ u ∈ us, u.item = it := by
  rw [Host.live, parseAptUpgradable_aptList] at hit
  exact List.mem_map.mp (List.mem_of_mem_take hit)

theorem AptUpdate.trim_name (u : AptUpdate) : trim u.name = u.name := by
  have hword : IsWord isSpace u.name := ⟨u.name_ne_nil, u.name_clean⟩
  have hdrop : u.name.dropWhile isSpace = u.name := by simpa using hword.dropWhile_append []
  rw [trim, hdrop, List.rdropWhile_eq_self_iff]
  intro hne
  simp [u.name_clean _ (List.getLast_mem hne)]

theorem AptUpdate.head_name (u : AptUpdate) : u.name.head? ≠ some dash := by
  intro h
  have hok := u.name_ok
  simp only [isDebianName, h, Bool.and_eq_true] at hok
  exact absurd hok.1.2 (by decide)

/-- The package of the last item with the id. -/
theorem resolve_eq_some_iff {it : ScanItem} (hit : it ∈ (Host.debian us).live) {name : Str} :
    resolve (Host.debian us).live it = some name ↔
      ∃ last ∈ byId (Host.debian us).live it.hotFixId, last.item.packageName = some name := by
  have hid : it.hotFixId ≠ [] := by
    obtain ⟨u, -, rfl⟩ := mem_live_debian hit
    simp [AptUpdate.item, aptItem]
  obtain ⟨last, hlast⟩ := isSome_iff_exists.mp (byId_isSome hit hid)
  obtain ⟨u, -, hu⟩ := mem_live_debian (mem_of_byId hlast).1
  have hname : last.item.packageName = some u.name := hu ▸ rfl
  rw [resolve, if_neg hid, hlast, bind_some, hname]
  simp [u.trim_name, u.name_ne_nil, hname]

theorem handed_debian (mode : Mode) (sel : Selection) :
    (Host.debian us).handed mode sel =
      let names := (((Host.debian us).selected sel).filterMap (resolve (Host.debian us).live)).eraseDups
      if names = [] then none else some ⟨aptOptions mode, [], names⟩ := by
  have hhead : ∀ a ∈ (((Host.debian us).selected sel).filterMap (resolve (Host.debian us).live)).eraseDups,
      a.head? ≠ some dash := by
    intro a ha
    obtain ⟨it, hit, hresolve⟩ := List.mem_filterMap.mp (List.mem_eraseDups.mp ha)
    obtain ⟨last, hlast, hname⟩ := (resolve_eq_some_iff (mem_live_of_mem_selected hit)).mp hresolve
    obtain ⟨u, -, hu⟩ := mem_live_debian (mem_of_byId hlast).1
    rw [← hu] at hname
    cases hname
    exact u.head_name
  simp only [Host.handed, installApt]
  split
  · rfl
  · rw [map_some, reading_apt mode hhead]

theorem exact_debian_iff (mode : Mode) (sel : Selection) :
    (((Host.debian us).handed mode sel = none → (Host.debian us).selected sel = []) ∧
      ∀ r ∈ (Host.debian us).handed mode sel, Exact (.debian us) mode ((Host.debian us).selected sel) r) ↔
      (Host.debian us).Resolves ((Host.debian us).selected sel) := by
  have hlive : ∀ it ∈ (Host.debian us).selected sel, it ∈ (Host.debian us).live := fun _ =>
    mem_live_of_mem_selected
  have hnames : ∀ name, name ∈ (((Host.debian us).selected sel).filterMap
      (resolve (Host.debian us).live)).eraseDups ↔ ∃ it ∈ (Host.debian us).selected sel,
        ∃ last ∈ byId (Host.debian us).live it.hotFixId, last.item.packageName = some name := by
    intro name
    rw [List.mem_eraseDups, List.mem_filterMap]
    exact exists_congr fun it => and_congr_right fun hit => resolve_eq_some_iff (hlive it hit)
  have hsome : ∀ it ∈ (Host.debian us).selected sel, ∃ u ∈ us, it.packageName = some u.name := by
    intro it hit
    obtain ⟨u, hu, rfl⟩ := mem_live_debian (hlive it hit)
    exact ⟨u, hu, rfl⟩
  rw [handed_debian]
  generalize (((Host.debian us).selected sel).filterMap (resolve (Host.debian us).live)).eraseDups = names at *
  generalize (Host.debian us).selected sel = selected at *
  simp only [Host.Resolves, ← hnames]
  constructor
  · rintro ⟨hran, hexact⟩ name
    by_cases hnil : names = []
    · simp [hnil, hran (by simp [hnil])]
    · have h := hexact ⟨aptOptions mode, [], names⟩ (by simp [hnil])
      constructor
      · exact fun hname => h.only name hname
      · rintro ⟨it, hit, hname⟩
        obtain ⟨a, ha, hnames⟩ := h.all it hit (by simp [hname])
        cases hname.symm.trans hnames
        exact ha
  · intro hresolves
    refine ⟨fun hnone => ?_, fun r hr => ?_⟩
    · have hnil : names = [] := by simpa using hnone
      rw [List.eq_nil_iff_forall_not_mem]
      intro it hit
      obtain ⟨u, -, hu⟩ := hsome it hit
      simpa [hnil] using (hresolves u.name).mpr ⟨it, hit, hu⟩
    · have hnil : names ≠ [] := by
        rintro rfl
        simp at hr
      obtain rfl : ⟨aptOptions mode, [], names⟩ = r := by simpa [hnil] using hr
      refine ⟨rfl, fun id => ?_, fun it hit _ => ?_, fun a ha => (hresolves a).mp ha, fun a ha it _ hnamed => ?_⟩
      · simp only [List.not_mem_nil, false_iff]
        rintro ⟨it, hit, hnone, -⟩
        obtain ⟨u, -, hu⟩ := hsome it hit
        cases hnone.symm.trans hu
      · obtain ⟨u, -, hu⟩ := hsome it hit
        exact ⟨u.name, (hresolves u.name).mpr ⟨it, hit, hu⟩, hu⟩
      · obtain ⟨it', hit', hname'⟩ := (hresolves a).mp ha
        exact ⟨it', hit', hname'.trans hnamed.symm⟩

end Debian

/-! ## RPM -/

section Rpm

variable {as : List Advisory} {us : List RpmUpdate}

theorem mem_advisoryItems {it : ScanItem} (hit : it ∈ advisoryItems as) : ∃ a ∈ as, a.item = it := by
  obtain ⟨⟨id, it⟩, hentry, rfl⟩ := List.mem_map.mp hit
  clear hit
  induction as using List.reverseRecOn with
  | nil => simp at hentry
  | append_singleton as a ih =>
    simp only [List.foldl_append, List.foldl_cons, List.foldl_nil, OrderedMap.mem_set] at hentry
    rcases hentry with heq | ⟨hentry, -⟩
    · cases heq
      exact ⟨a, by simp, rfl⟩
    · obtain ⟨a', ha', heq⟩ := ih hentry
      exact ⟨a', by simp [ha'], heq⟩

theorem mem_live_rhel {it : ScanItem} (hit : it ∈ (Host.rhel as us).live) :
    (∃ a ∈ as, a.item = it) ∨ ∃ u ∈ us, u.item = it := by
  rw [Host.live, scanDnf_printed] at hit
  rcases List.mem_append.mp (List.mem_of_mem_take hit) with hit | hit
  · exact .inl (mem_advisoryItems hit)
  · obtain ⟨u, hu, rfl⟩ := List.mem_map.mp hit
    exact .inr ⟨u, List.mem_of_mem_filter hu, rfl⟩

theorem Advisory.free (a : Advisory) {c : UInt16} (halnum : isAlnum c = false) (hc : c ∉ text ":_-") : c ∉ a.id := by
  have hid := a.id_ok
  simp only [isAdvisoryId, Bool.and_eq_true] at hid
  exact free_of_class halnum hc hid.2

theorem RpmUpdate.arch_free (u : RpmUpdate) : dot ∉ u.arch := by
  have harch := u.arch_ok
  simp only [isArch, Bool.and_eq_true] at harch
  exact free_of_class (by decide) (by decide) harch.2

theorem RpmUpdate.hotFixId_free (u : RpmUpdate) : comma ∉ u.item.hotFixId := by
  have hname := u.name_ok
  have harch := u.arch_ok
  have hversion := u.version_ok
  simp only [isRpmName, isArch, isRpmVersion, Bool.and_eq_true] at hname harch hversion
  simp only [item, dnfItem, pkgArch, List.mem_append, List.mem_cons, not_or]
  exact ⟨⟨free_of_class (by decide) (by decide) hname.2, by decide,
    free_of_class (by decide) (by decide) harch.2⟩, by decide,
    free_of_class (by decide) (by decide) hversion.2⟩

/-- The first dot of an id is in the name, or behind it. -/
theorem RpmUpdate.before_dot (u : RpmUpdate) (h : dot ∉ u.name) : before (· == dot) u.item.hotFixId = u.name := by
  have hclean : ∀ v ∈ u.name, (v == dot) = false := fun v hv => by
    simpa using fun heq : v = dot => h (heq ▸ hv)
  simpa [item, dnfItem, pkgArch] using
    before_append hclean (rfl : (dot == dot)) (u.arch ++ dash :: u.version)

theorem dot_not_mem_before (s : Str) : dot ∉ before (· == dot) s := by
  intro h
  simpa using List.mem_takeWhile_imp h

theorem RpmUpdate.head_name (u : RpmUpdate) : ∃ c rest, u.name = c :: rest ∧ c ≠ dash ∧ c ≠ dot := by
  cases hname : u.name with
  | nil => exact absurd hname u.name_ne_nil
  | cons c rest =>
    have hok := u.name_ok
    simp only [isRpmName, hname, List.head?_cons, Bool.and_eq_true] at hok
    refine ⟨c, rest, rfl, ?_, ?_⟩ <;> rintro rfl <;> exact absurd hok.1 (by decide)

/-- The argument of a package is not empty and no option. -/
theorem RpmUpdate.head_before (u : RpmUpdate) : ∃ c rest, before (· == dot) u.item.hotFixId = c :: rest ∧ c ≠ dash := by
  obtain ⟨c, rest, hname, hdash, hdot⟩ := u.head_name
  refine ⟨c, before (· == dot) (rest ++ dot :: (u.arch ++ dash :: u.version)), ?_, hdash⟩
  simp [item, dnfItem, pkgArch, before, hname, hdot]

theorem RpmUpdate.name_of_pkgArch {u v : RpmUpdate} (h : u.pkgArch = v.pkgArch) : u.name = v.name := by
  have hreverse := congrArg List.reverse h
  simp only [pkgArch, List.reverse_append, List.reverse_cons, List.append_assoc, List.singleton_append] at hreverse
  have hclean : ∀ w : RpmUpdate, ∀ c ∈ w.arch.reverse, (c == dot) = false := fun w c hc => by
    simpa using fun heq : c = dot => w.arch_free (heq ▸ List.mem_reverse.mp hc)
  have hafter := congrArg (after (· == dot)) hreverse
  rw [after_append (hclean u) rfl, after_append (hclean v) rfl] at hafter
  simpa using hafter

theorem RpmUpdate.pkgArch_of_item {u v : RpmUpdate} (h : u.item.packageName = v.item.packageName) :
    u.pkgArch = v.pkgArch := by
  simpa [item, dnfItem] using h

/-- What every item of a selection on an RPM host is. -/
structure FromScan (as : List Advisory) (us : List RpmUpdate) (selected : List ScanItem) : Prop where
  item : ∀ it ∈ selected, (∃ a ∈ as, a.item = it) ∨ ∃ u ∈ us, u.item = it

variable {selected : List ScanItem}

theorem FromScan.ne_nil (h : FromScan as us selected) {it : ScanItem} (hit : it ∈ selected) : it.hotFixId ≠ [] := by
  rcases h.item it hit with ⟨a, -, rfl⟩ | ⟨u, -, rfl⟩
  · exact a.isWord_id.ne_nil
  · simp [RpmUpdate.item, dnfItem]

theorem FromScan.mem_advisories (h : FromScan as us selected) {id : Str} :
    id ∈ (classifyDnfHotFixIds selected).1 ↔ ∃ it ∈ selected, it.hotFixId = id ∧ isAdvisoryLike id := by
  simp only [classifyDnfHotFixIds, List.mem_eraseDups, List.mem_filter, List.mem_map]
  constructor
  · rintro ⟨⟨⟨it, hit, rfl⟩, -⟩, hlike⟩
    exact ⟨it, hit, rfl, hlike⟩
  · rintro ⟨it, hit, rfl, hlike⟩
    exact ⟨⟨⟨it, hit, rfl⟩, by simpa using h.ne_nil hit⟩, hlike⟩

theorem FromScan.mem_packages (h : FromScan as us selected) {p : Str} :
    p ∈ (classifyDnfHotFixIds selected).2 ↔ p ≠ [] ∧ ∃ it ∈ selected, isAdvisoryLike it.hotFixId = false ∧
      before (· == dot) it.hotFixId = p := by
  simp only [classifyDnfHotFixIds, List.mem_eraseDups, List.mem_filter, List.mem_map]
  constructor
  · rintro ⟨⟨id, ⟨⟨⟨it, hit, rfl⟩, -⟩, hlike⟩, rfl⟩, hp⟩
    exact ⟨by simpa using hp, it, hit, by simpa using hlike, rfl⟩
  · rintro ⟨hp, it, hit, hlike, rfl⟩
    exact ⟨⟨it.hotFixId, ⟨⟨⟨it, hit, rfl⟩, by simpa using h.ne_nil hit⟩, by simpa using hlike⟩, rfl⟩,
      by simpa using hp⟩

/-- No id has a comma, and no package is an option. -/
theorem FromScan.reading_installDnf (h : FromScan as us selected) (mode : Mode) :
    (installDnf mode selected).map reading =
      let r := classifyDnfHotFixIds selected
      if r.1 = [] ∧ r.2 = [] then none else some ⟨dnfOptions mode, r.1, r.2⟩ := by
  have hfree : ∀ id ∈ (classifyDnfHotFixIds selected).1, comma ∉ id := by
    intro id hid
    obtain ⟨it, hit, rfl, -⟩ := h.mem_advisories.mp hid
    rcases h.item it hit with ⟨a, -, rfl⟩ | ⟨u, -, rfl⟩
    · exact a.free (by decide) (by decide)
    · exact u.hotFixId_free
  have hhead : ∀ p ∈ (classifyDnfHotFixIds selected).2, p.head? ≠ some dash := by
    intro p hp
    obtain ⟨hne, it, hit, -, rfl⟩ := h.mem_packages.mp hp
    rcases h.item it hit with ⟨a, -, rfl⟩ | ⟨u, -, rfl⟩
    · -- the id begins with a letter or a digit
      have hid := a.id_ok
      simp only [isAdvisoryId, Bool.and_eq_true] at hid
      cases hcons : a.id with
      | nil => simp [hcons] at hid
      | cons c rest =>
        simp only [hcons, List.head?_cons, any_some] at hid
        have hdash : c ≠ dash := by
          rintro rfl
          exact absurd hid.1.1 (by decide)
        have hdot : c ≠ dot := by
          rintro rfl
          exact absurd hid.1.1 (by decide)
        simp [Advisory.item, advisoryItem, before, hcons, hdot, hdash]
    · obtain ⟨c, rest, hbefore, hdash⟩ := u.head_before
      simp [hbefore, hdash]
  unfold installDnf
  dsimp only
  split
  · rfl
  · rw [map_some, reading_dnf mode hfree hhead]

theorem FromScan.runs (h : FromScan as us selected)
    (hadvisories : (classifyDnfHotFixIds selected).1 = []) (hpackages : (classifyDnfHotFixIds selected).2 = []) :
    selected = [] := by
  rw [List.eq_nil_iff_forall_not_mem]
  intro it hit
  have hlike : isAdvisoryLike it.hotFixId = false := by
    by_contra hlike
    have hmem := h.mem_advisories.mpr ⟨it, hit, rfl, by simpa using hlike⟩
    simp [hadvisories] at hmem
  -- an id that is not taken for an advisory gives a package
  have hbefore : before (· == dot) it.hotFixId ≠ [] := by
    rcases h.item it hit with ⟨a, -, rfl⟩ | ⟨u, -, rfl⟩
    · have hclean : ∀ v ∈ a.id, (v == dot) = false := fun v hv => by
        simpa using fun heq : v = dot => a.free (by decide) (by decide) (heq ▸ hv)
      simpa [Advisory.item, advisoryItem, before_of_clean hclean] using a.isWord_id.ne_nil
    · obtain ⟨c, rest, hbefore, -⟩ := u.head_before
      simp [hbefore]
  have hmem := h.mem_packages.mpr ⟨hbefore, it, hit, hlike, rfl⟩
  simp [hpackages] at hmem

/-- The command is exact if and only if no id is taken for something else. -/
theorem FromScan.exact_iff (h : FromScan as us selected) (mode : Mode) : Exact (.rhel as us) mode selected
        ⟨dnfOptions mode, (classifyDnfHotFixIds selected).1, (classifyDnfHotFixIds selected).2⟩ ↔
      (Host.rhel as us).Resolves selected := by
  have hdot : ∀ u : RpmUpdate, dot ∈ u.item.hotFixId := fun u => by
    simp [RpmUpdate.item, dnfItem, RpmUpdate.pkgArch]
  have hdots : ∀ u : RpmUpdate, dot ∈ u.pkgArch := fun u => by simp [pkgArch]
  constructor
  · rintro ⟨-, hadvisories, hall, honly, hothers⟩
    refine ⟨fun a ha hmem => ?_, fun u hu hmem => ?_⟩
    · obtain ⟨-, -, -, hlike⟩ := h.mem_advisories.mp ((hadvisories a.id).mpr ⟨a.item, hmem, rfl, rfl⟩)
      exact hlike
    have hlike : isAdvisoryLike u.item.hotFixId = false := by
      by_contra hlike
      obtain ⟨it, hit, hnone, hid⟩ := (hadvisories _).mp
        (h.mem_advisories.mpr ⟨u.item, hmem, rfl, by simpa using hlike⟩)
      -- the id of an advisory has no dot
      rcases h.item it hit with ⟨a, -, rfl⟩ | ⟨v, -, rfl⟩
      · have heq : a.id = u.item.hotFixId := hid
        exact a.free (by decide) (by decide) (heq ▸ hdot u)
      · simp [RpmUpdate.item, dnfItem] at hnone
    have hname : dot ∉ u.name := by
      obtain ⟨p, hp, v, -, hv, heq⟩ := hall u.item hmem (by simp [RpmUpdate.item, dnfItem])
      obtain ⟨-, it, -, -, rfl⟩ := h.mem_packages.mp hp
      rcases heq with heq | heq
      · rw [← name_of_pkgArch (pkgArch_of_item (congrArg ScanItem.packageName hv)), ← heq]
        exact dot_not_mem_before _
      · exact absurd (heq ▸ hdots v) (dot_not_mem_before _)
    refine ⟨hlike, hname, fun v hv hlive heq => ?_⟩
    have hp := h.mem_packages.mpr ⟨u.name_ne_nil, u.item, hmem, hlike, u.before_dot hname⟩
    obtain ⟨it', hit', hpackage⟩ := hothers u.name hp v.item hlive ⟨v, hv, rfl, .inl heq.symm⟩
    rcases h.item it' hit' with ⟨a, -, rfl⟩ | ⟨w, hw, rfl⟩
    · simp [Advisory.item, advisoryItem, RpmUpdate.item, dnfItem] at hpackage
    · exact ⟨w, hw, hit', pkgArch_of_item hpackage⟩
  · rintro ⟨hadvisories, hpackages⟩
    -- the packages are the names of the selected updates
    have hmem : ∀ p, p ∈ (classifyDnfHotFixIds selected).2 ↔ ∃ u ∈ us, u.item ∈ selected ∧ u.name = p := by
      intro p
      rw [h.mem_packages]
      constructor
      · rintro ⟨-, it, hit, hlike, rfl⟩
        rcases h.item it hit with ⟨a, ha, rfl⟩ | ⟨u, hu, rfl⟩
        · have hfalse : isAdvisoryLike a.id = false := hlike
          simp [hadvisories a ha hit] at hfalse
        · exact ⟨u, hu, hit, (u.before_dot (hpackages u hu hit).2.1).symm⟩
      · rintro ⟨u, hu, hit, rfl⟩
        obtain ⟨hlike, hname, -⟩ := hpackages u hu hit
        exact ⟨u.name_ne_nil, u.item, hit, hlike, u.before_dot hname⟩
    refine ⟨rfl, fun id => ?_, fun it hit hnone => ?_, fun p hp => ?_, fun p hp it hlive hnamed => ?_⟩
    · rw [h.mem_advisories]
      constructor
      · rintro ⟨it, hit, rfl, hlike⟩
        rcases h.item it hit with ⟨a, -, rfl⟩ | ⟨u, hu, rfl⟩
        · exact ⟨a.item, hit, rfl, rfl⟩
        · exact absurd hlike (by simp [(hpackages u hu hit).1])
      · rintro ⟨it, hit, hnone, rfl⟩
        rcases h.item it hit with ⟨a, ha, rfl⟩ | ⟨u, -, rfl⟩
        · exact ⟨a.item, hit, rfl, hadvisories a ha hit⟩
        · simp [RpmUpdate.item, dnfItem] at hnone
    · rcases h.item it hit with ⟨a, -, rfl⟩ | ⟨u, hu, rfl⟩
      · exact absurd rfl hnone
      · exact ⟨u.name, (hmem u.name).mpr ⟨u, hu, hit, rfl⟩, u, hu, rfl, .inl rfl⟩
    · obtain ⟨u, hu, hit, rfl⟩ := (hmem p).mp hp
      exact ⟨u.item, hit, u, hu, rfl, .inl rfl⟩
    · obtain ⟨u, hu, hit, rfl⟩ := (hmem p).mp hp
      obtain ⟨-, hname, hothers⟩ := hpackages u hu hit
      obtain ⟨v, hv, rfl, heq⟩ := hnamed
      have hsame : v.name = u.name := by
        rcases heq with heq | heq
        · exact heq.symm
        · exact absurd (heq ▸ hdots v) hname
      obtain ⟨w, -, hw, hpkg⟩ := hothers v hv hlive hsame
      exact ⟨w.item, hw, congrArg some hpkg⟩

theorem exact_rhel_iff (mode : Mode) (sel : Selection) :
    (((Host.rhel as us).handed mode sel = none → (Host.rhel as us).selected sel = []) ∧
      ∀ r ∈ (Host.rhel as us).handed mode sel, Exact (.rhel as us) mode ((Host.rhel as us).selected sel) r) ↔
      (Host.rhel as us).Resolves ((Host.rhel as us).selected sel) := by
  have h : FromScan as us ((Host.rhel as us).selected sel) :=
    ⟨fun it hit => mem_live_rhel (mem_live_of_mem_selected hit)⟩
  have hhanded : (Host.rhel as us).handed mode sel = _ := h.reading_installDnf mode
  rw [hhanded, ← h.exact_iff mode]
  dsimp only
  split
  · rename_i hnil
    have hselected := h.runs hnil.1 hnil.2
    have hexact : Exact (.rhel as us) mode ((Host.rhel as us).selected sel)
        ⟨dnfOptions mode, (classifyDnfHotFixIds ((Host.rhel as us).selected sel)).1,
          (classifyDnfHotFixIds ((Host.rhel as us).selected sel)).2⟩ := by
      rw [hnil.1, hnil.2, hselected]
      exact ⟨rfl, by simp, by simp, by simp, by simp⟩
    exact ⟨fun _ => hexact, fun _ => ⟨fun _ => hselected, by simp⟩⟩
  · simp

end Rpm

/-! ## Both hosts -/

/-- An install acts exactly on what was requested if and only if the ids of the selected items lead back to
their packages, and no requested id is taken for a package that was not meant. -/
theorem actsExactly_iff (published : Str → Str → Prop) (h : Host) (mode : Mode) (sel : Selection) :
    ActsExactly published h mode sel ↔ h.Resolves (h.selected sel) ∧ Meant published h sel := by
  have hexact : ((h.handed mode sel = none → h.selected sel = []) ∧
      ∀ r ∈ h.handed mode sel, Exact h mode (h.selected sel) r) ↔ h.Resolves (h.selected sel) := by
    cases h with
    | debian us => exact exact_debian_iff mode sel
    | rhel as us => exact exact_rhel_iff mode sel
  rw [← hexact, ← requested_iff_meant]
  exact ⟨fun ⟨hran, hr, hrequested⟩ => ⟨⟨hran, hr⟩, hrequested⟩,
    fun ⟨⟨hran, hr⟩, hrequested⟩ => ⟨hran, hr, hrequested⟩⟩

/-! ## A name with a dot -/

def python311 : RpmUpdate where
  name := text "python3.11"
  arch := text "x86_64"
  version := text "3.11.7-1.el9"
  repo := text "appstream"
  name_ok := by decide
  arch_ok := by decide
  version_ok := by decide
  repo_ok := ⟨by decide, List.forall_iff_forall_mem.mp (by decide)⟩

def python311Selection : Selection where
  ids := [text "python3.11.x86_64-3.11.7-1.el9"]
  some_id := by decide
  well_formed := by decide

/-- dnf is told to upgrade `python3`. -/
theorem not_actsExactly_python311 :
    ¬ ActsExactly (fun _ _ => True) (.rhel [] [python311]) .install python311Selection := by
  rintro ⟨-, hexact, -⟩
  have hselection : (Host.rhel [] [python311]).selected python311Selection = [python311.item] := by
    decide
  have hhanded : (Host.rhel [] [python311]).handed .install python311Selection =
      some ⟨dnfOptions .install, [], [text "python3"]⟩ := by
    decide
  obtain ⟨a, ha, u, hu, -, heq⟩ := (hexact _ hhanded).all python311.item (by simp [hselection])
    (by simp [item, dnfItem])
  rw [List.mem_singleton.mp ha, List.mem_singleton.mp hu] at heq
  exact absurd heq (by decide)

end LinuxPatch
